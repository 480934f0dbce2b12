import Reclaim.Proofs.Hazard.Sound
import Reclaim.Proofs.Hazard.Turns

/-!
# Runs

A run is everything that can happen to a world, one deed after another: registries, stacks, objects
and threads are made, a thread issues a command, the command proceeds by a step, a thread gives up
its slots, a stack is dropped. All but the steps happen between commands. Every deed is a row of
effects, so all machines that a run leads to are sound.
-/

namespace Reclaim.Hazard

variable {n : Nat} {α : Type}

inductive Deed (α : Type) where
  | addRegistry
  | addStack (r : RegistryId)
  | addObject (program : List (Command α))
  | spawn
  | issue (t : ThreadId) (command : Command α)
  /-- The command that was issued last goes on by a step. -/
  | proceed
  /-- A thread that ends gives up the slots it claimed explicitly. -/
  | letGo (t : ThreadId)
  | destroyCell (t : ThreadId) (key : CellKey)
  | finish (t : ThreadId)
  | dropStack (id : StackId)

def World.perform [Destructor α] (w : World n α) : Deed α → Option (Turn n α)
  | .addRegistry => some (.done w.addRegistry (.ok .done))
  | .addStack r =>
    if (w.registryAt? r).isSome then some (.done (w.addStack r) (.ok .done)) else none
  | .addObject program => some (.done (w.addObject program) (.ok .done))
  | .spawn => some (.done w.spawn (.ok .done))
  | .issue t command => some (Machine.execute w t command [])
  | .proceed => none
  | .letGo t => some (.done (w.releaseHandles (·.thread = t)) (.ok .done))
  | .destroyCell t key => some (.done (w.destroyCell t key) (.ok .done))
  | .finish t => some (.done (w.modifyThread t ({ · with ended := true })) (.ok .done))
  | .dropStack id => some (.done (w.dropStack id).1 ((w.dropStack id).2.map fun _ ↦ .done))

/-- Carries out a deed; `none` if its time is not now. -/
def Machine.carryOut [Destructor α] (m : Machine n α) (deed : Deed α) : Option (Turn n α) :=
  match m.frames, deed with
  | [], deed => m.world.perform deed
  | _ :: _, .proceed => some m.step
  | _ :: _, _ => none

structure Move (n : Nat) (α : Type) where
  before : Machine n α
  deed : Deed α
  turn : Turn n α

namespace Turn

def machine (t : ThreadId) : Turn n α → Machine n α
  | .next m => m
  | .done world _ => ⟨world, t, []⟩

def Faulted : Turn n α → Prop
  | .done _ (.error _) => True
  | _ => False

instance (turn : Turn n α) : Decidable turn.Faulted :=
  match turn with
  | .done _ (.error _) => isTrue trivial
  | .done _ (.ok _) => isFalse id
  | .next _ => isFalse id

theorem stock_machine (turn : Turn n α) (t : ThreadId) : (turn.machine t).stock = turn.stock := by
  cases turn <;> rfl

theorem frames_machine (turn : Turn n α) (t : ThreadId) :
    (turn.machine t).frames = turn.frames := by
  cases turn <;> rfl

theorem world_machine (turn : Turn n α) (t : ThreadId) : (turn.machine t).world = turn.world := by
  cases turn <;> rfl

end Turn

namespace Move

def after (move : Move n α) : Machine n α := move.turn.machine move.before.thread

def marks (move : Move n α) : List (Mark n) :=
  match move.deed with
  | .issue t command => (command.slots move.before.world t).map .slot
  | .proceed => move.before.slots.map .slot ++ move.turn.unwound move.before.frames.tail
  | .letGo t => (move.before.world.handlesOf t).map .slot
  | .destroyCell t key => (move.before.world.kept t key).map .slot
  | .dropStack id =>
    .drop id ::
      if move.turn.Faulted then (move.before.world.links id).map fun link ↦ .leak link.1 else []
  | _ => []

theorem drop_mem_marks {move : Move n α} {id : StackId} (hmem : .drop id ∈ move.marks) :
    move.deed = .dropStack id := by
  obtain ⟨m, deed, turn⟩ := move
  cases deed with
  | proceed =>
    rcases List.mem_append.mp hmem with hmem | hmem
    · simp at hmem
    · obtain ⟨r, rest, hcut⟩ | ⟨slot, hslot⟩ := Turn.mem_unwound hmem <;> contradiction
  | dropStack j =>
    simp only [marks, List.mem_cons, Mark.drop.injEq] at hmem
    rcases hmem with rfl | hmem
    · rfl
    · split at hmem <;> simp at hmem
  | _ => simp [marks] at hmem

theorem leak_mem_marks {move : Move n α} {node : NodeId} (hmem : .leak node ∈ move.marks) :
    ∃ id, move.deed = .dropStack id ∧ move.turn.Faulted := by
  obtain ⟨m, deed, turn⟩ := move
  cases deed with
  | proceed =>
    rcases List.mem_append.mp hmem with hmem | hmem
    · simp at hmem
    · obtain ⟨r, rest, hcut⟩ | ⟨slot, hslot⟩ := Turn.mem_unwound hmem <;> contradiction
  | dropStack id =>
    refine ⟨id, rfl, ?_⟩
    by_cases hfaulted : turn.Faulted
    · exact hfaulted
    · simp [marks, hfaulted] at hmem
  | _ => simp [marks] at hmem

def command? (move : Move n α) : Option (ThreadId × Command α) :=
  match move.deed, move.before.frames with
  | .issue t command, _ => some (t, command)
  | .proceed, .deleter (command :: _) :: _ => some (move.before.thread, command)
  | _, _ => none

end Move

/-- The moves lead from `m` to the machine at the end. -/
inductive Run [Destructor α] (m : Machine n α) : List (Move n α) → Machine n α → Prop
  | start : Run m [] m
  | move {moves : List (Move n α)} {m' : Machine n α} {deed : Deed α} {turn : Turn n α}
      (hrun : Run m moves m') (hcarry : m'.carryOut deed = some turn) :
      Run m (moves ++ [⟨m', deed, turn⟩]) (turn.machine m'.thread)

/-- The empty world, before anything happens. -/
def Machine.empty : Machine n α := ⟨{}, 0, []⟩

/-- What a run keeps of the machine it starts from. -/
structure Machine.Sound (m : Machine n α) : Prop where
  stock : m.stock.Sound
  nested : Nested m.frames

theorem Machine.sound_empty : (Machine.empty : Machine n α).Sound :=
  ⟨Stock.sound_empty, trivial⟩

namespace World

section

variable {w : World n α} {id : StackId} {stack : Stack} {link : NodeId × Node α}
  {links : List (NodeId × Node α)}

/-- The world after the top node of a stack is destroyed where it is. -/
def discardTop (w : World n α) (id : StackId) (link : NodeId × Node α) : World n α :=
  ((w.record (.dropped link.2.value)).setHead id link.2.next).start (.ofNode link.1)

theorem forget_discardTop (w : World n α) (id : StackId) (link : NodeId × Node α) :
    (w.discardTop id link).forget id =
      ((w.forget id).record (.dropped link.2.value)).start (.ofNode link.1) := by
  have hset (f : Option Stack → Option Stack) :
      (w.stacks.modify id f).set id none = w.stacks.set id none := by
    apply List.ext_getElem?
    intro j
    by_cases hj : id = j <;> simp [List.getElem?_set, hj]
  have hforget : ((w.record (.dropped link.2.value)).setHead id link.2.next).forget id =
      (w.forget id).record (.dropped link.2.value) :=
    congrArg (fun l ↦ { w.record (.dropped link.2.value) with «stacks» := l }) (hset _)
  rw [← hforget]
  rfl

theorem stack?_discardTop (hstack : w.stack? id = some stack) (link : NodeId × Node α) :
    (w.discardTop id link).stack? id = some { stack with head := link.2.next } := by
  have hrecord : (w.record (.dropped link.2.value)).stack? id = some stack := hstack
  rw [discardTop, stack?_start, stack?_setHead, if_pos rfl, hrecord]
  rfl

theorem leads_discardTop {head : Option NodeId} (hleads : w.Leads head (link :: links)) :
    (w.discardTop id link).Leads link.2.next links := by
  apply hleads.tail.of_get?_eq
  intro other hother
  apply get?_start_of_ne
  intro heq
  apply hleads.not_mem_tail
  rw [Address.node.inj heq]
  exact List.mem_map_of_mem hother

theorem effect_discardTop {s : Stock n α} (hworld : s.world = w)
    (hstack : w.stack? id = some stack) (hleads : w.Leads stack.head (link :: links)) :
    Effects s [.drop id] { s with world := w.discardTop id link } := by
  subst hworld
  have hrecord : Effect s [] { s with world := s.world.record (.dropped link.2.value) } :=
    .aside (s.world.aside_record _ rfl)
  have htop : (s.world.record (.dropped link.2.value)).top? stack = some link := hleads.top?_eq
  exact (Effects.single hrecord).tail (.discard hstack htop)

end

variable [Destructor α]

/-- Destroying the links of a stack from the top discards them one by one. What a fault leaves
behind is leaked. -/
theorem effects_destroyNodes {id : StackId} (links : List (NodeId × Node α)) {w : World n α}
    {stack : Stack} (hstack : w.stack? id = some stack) (hleads : w.Leads stack.head links)
    {s : Stock n α} (hworld : s.world = w) :
    ∃ marks ⊆ Mark.drop id ::
        (if (destroyNodes links (w.forget id)).2.toBool then []
          else links.map fun link ↦ .leak link.1),
      Effects s marks { s with world := (destroyNodes links (w.forget id)).1 } := by
  induction links generalizing w stack s with
  | nil =>
    subst hworld
    refine ⟨_, ?_, .single (.forget id)⟩
    rw [links_eq hstack hleads]
    exact List.Subset.refl _
  | cons link rest ih =>
    have hfirst := effect_discardTop hworld hstack hleads
    have hstack' := stack?_discardTop hstack link
    have hleads' : (w.discardTop id link).Leads link.2.next rest := leads_discardTop hleads
    rw [destroyNodes, ← forget_discardTop]
    cases Destructor.fault? link.2.value with
    | some fault =>
      refine ⟨_, ?_, hfirst.tail (.forget id)⟩
      rw [links_eq hstack' hleads']
      simp [Except.toBool]
    | none =>
      have hworld' : ({ s with world := w.discardTop id link } : Stock n α).world = _ := rfl
      obtain ⟨marks, hmarks, heffects⟩ := ih hstack' hleads' hworld'
      refine ⟨[.drop id] ++ marks, ?_, hfirst.trans heffects⟩
      refine List.cons_subset.mpr ⟨List.mem_cons_self, List.Subset.trans hmarks ?_⟩
      apply List.cons_subset_cons
      dsimp only
      split
      · exact List.nil_subset _
      · exact List.subset_cons_self _ _

theorem dropStack_eq {w : World n α} {id : StackId} {stack : Stack}
    (hstack : w.stack? id = some stack) :
    w.dropStack id = destroyNodes (w.links id) (w.forget id) := by
  rw [dropStack, hstack, links_of_stack? hstack]
  rfl

theorem effects_dropStack {s : Stock n α} (hs : s.Sound) (id : StackId) :
    ∃ marks ⊆ Mark.drop id ::
        (if (s.world.dropStack id).2.toBool then []
          else (s.world.links id).map fun link ↦ .leak link.1),
      Effects s marks { s with world := (s.world.dropStack id).1 } := by
  cases hstack : s.world.stack? id with
  | none =>
    refine ⟨[], List.nil_subset _, ?_⟩
    rw [dropStack, hstack]
    exact .refl
  | some stack =>
    rw [dropStack_eq hstack]
    exact effects_destroyNodes _ hstack (hs.tidy id stack hstack) rfl

end World

section

variable {m m' : Machine n α} {deed : Deed α} {turn : Turn n α} {moves : List (Move n α)}

/-- A row of effects that disturbs no more than what is marked, and no slots if it starts a
deleter. -/
def Turn.Marked (turn : Turn n α) (s : Stock n α) (marks : List (Mark n)) : Prop :=
  ∃ marks' ⊆ marks, Effects s marks' turn.stock ∧
    (turn.world.started = s.world.started ∨ ∀ slot, .slot slot ∉ marks')

theorem Turn.Quiet.marked {s : Stock n α} {marks : List (Mark n)} (hquiet : turn.Quiet s marks) :
    turn.Marked s marks := by
  obtain ⟨marks', hsub, heffects⟩ := hquiet.effects
  exact ⟨marks', hsub, heffects, Or.inl hquiet.started⟩

theorem Turn.Still.marked {s : Stock n α} (hstill : turn.Still s) (marks : List (Mark n)) :
    turn.Marked s marks :=
  ⟨[], List.nil_subset _, hstill.effects, Or.inr fun _ ↦ List.not_mem_nil⟩

variable [Destructor α]

theorem World.marked_dropStack {s : Stock n α} (hs : s.Sound) (id : StackId)
    (hturn : turn = .done (s.world.dropStack id).1 ((s.world.dropStack id).2.map fun _ ↦ .done))
    (hstock : turn.stock = { s with world := (s.world.dropStack id).1 }) :
    turn.Marked s (Mark.drop id ::
      if turn.Faulted then (s.world.links id).map fun link ↦ .leak link.1 else []) := by
  obtain ⟨marks, hmarks, heffects⟩ := effects_dropStack hs id
  have hfaulted : turn.Faulted ↔ ¬ (s.world.dropStack id).2.toBool := by
    rw [hturn]
    cases (s.world.dropStack id).2 <;> simp [Turn.Faulted, Except.map, Except.toBool]
  refine ⟨marks, ?_, hstock ▸ heffects, Or.inr fun slot hmem ↦ ?_⟩
  · simp only [hfaulted, ite_not]
    exact hmarks
  · have hdrop := hmarks hmem
    split at hdrop <;> simp at hdrop

/-- A move disturbs no more than it marks, and leaves the frames nested. -/
theorem Machine.marked_of_carryOut (hs : m.stock.Sound) (hnested : Nested m.frames)
    (hcarry : m.carryOut deed = some turn) :
    turn.Marked m.stock (Move.mk m deed turn).marks ∧ Nested turn.frames := by
  obtain ⟨w, t, frames⟩ := m
  cases frames with
  | cons frame frames =>
    cases deed with
    | proceed =>
      obtain rfl := Option.some.inj hcarry
      rcases step_cases hnested with hquiet | hstill
      · exact ⟨hquiet.marked, hquiet.nested⟩
      · exact ⟨hstill.marked _, hstill.nested⟩
    | _ => cases hcarry
  | nil =>
    have hquiet {marks : List (Mark n)} (hquiet : turn.Quiet (stockOf w []) marks) :
        turn.Marked (stockOf w []) marks ∧ Nested turn.frames :=
      ⟨hquiet.marked, hquiet.nested⟩
    have haside {v : World n α} {touched : List (Handle n)} (haside : w.Aside touched v)
        (result : Except Fault (Answer α)) :
        (Turn.done v result).Quiet (stockOf w []) (touched.map .slot) :=
      (Turn.Quiet.aside haside (.done v result)).mono (by rw [List.append_nil]; exact fun _ h ↦ h)
    cases deed with
    | addRegistry =>
      obtain rfl := Option.some.inj hcarry
      exact hquiet (.effect .addRegistry rfl (.done _ _))
    | addStack r =>
      obtain ⟨hregistry, hturn⟩ := Option.ite_none_right_eq_some.mp hcarry
      obtain rfl := Option.some.inj hturn
      exact hquiet (.effect (.addStack hregistry) rfl (.done _ _))
    | addObject program =>
      obtain rfl := Option.some.inj hcarry
      exact hquiet (.effect (.addObject program) rfl (.done _ _))
    | spawn =>
      obtain rfl := Option.some.inj hcarry
      exact hquiet (haside w.aside_spawn _)
    | issue t command =>
      obtain rfl := Option.some.inj hcarry
      have hcases := (executes w t [] command).quiet_or_still (List.forall_mem_nil _)
      rw [Turn.unwound_nil, List.append_nil] at hcases
      rcases hcases with hq | hstill
      · exact hquiet hq
      · exact ⟨hstill.marked _, hstill.nested⟩
    | proceed => cases hcarry
    | letGo t =>
      obtain rfl := Option.some.inj hcarry
      exact hquiet (haside (w.aside_releaseHandles t) _)
    | destroyCell t key =>
      obtain rfl := Option.some.inj hcarry
      exact hquiet (haside (w.aside_destroyCell t key) _)
    | finish t =>
      obtain rfl := Option.some.inj hcarry
      exact hquiet (haside (w.aside_modifyThread t _) _)
    | dropStack id =>
      obtain rfl := Option.some.inj hcarry
      exact ⟨World.marked_dropStack hs id rfl rfl, trivial⟩

theorem Machine.Sound.marked (hm : m.Sound) (hcarry : m.carryOut deed = some turn) :
    turn.Marked m.stock (Move.mk m deed turn).marks :=
  (marked_of_carryOut hm.stock hm.nested hcarry).1

theorem Machine.Sound.after (hm : m.Sound) (hcarry : m.carryOut deed = some turn)
    (t : ThreadId) : (turn.machine t).Sound where
  stock := by
    obtain ⟨marks, -, heffects, -⟩ := hm.marked hcarry
    rw [turn.stock_machine]
    exact heffects.sound hm.stock
  nested := by
    rw [turn.frames_machine]
    exact (marked_of_carryOut hm.stock hm.nested hcarry).2

namespace Run

theorem sound (hrun : Run m moves m') (hm : m.Sound) : m'.Sound := by
  induction hrun with
  | start => exact hm
  | move _ hcarry ih => exact ih.after hcarry _

theorem trans {moves' : List (Move n α)} {m'' : Machine n α} (hrun : Run m moves m')
    (hrun' : Run m' moves' m'') : Run m (moves ++ moves') m'' := by
  induction hrun' with
  | start =>
    rw [List.append_nil]
    exact hrun
  | move _ hcarry ih =>
    rw [← List.append_assoc]
    exact ih.move hcarry

theorem single (hcarry : m.carryOut deed = some turn) :
    Run m [⟨m, deed, turn⟩] (turn.machine m.thread) :=
  Run.move .start hcarry

/-- Each move of a run was made at the end of the moves before it. -/
theorem exists_before (hrun : Run m moves m') {move : Move n α} (hmem : move ∈ moves) :
    ∃ before after, moves = before ++ move :: after ∧ Run m before move.before ∧
      move.before.carryOut move.deed = some move.turn ∧ Run move.after after m' := by
  induction hrun with
  | start => cases hmem
  | @move moves pre deed turn hrun hcarry ih =>
    rcases List.mem_append.mp hmem with hmem | hmem
    · obtain ⟨before, after, rfl, hbefore, hmove, hafter⟩ := ih hmem
      exact ⟨before, after ++ [⟨pre, deed, turn⟩], by simp, hbefore, hmove, hafter.move hcarry⟩
    · obtain rfl := List.mem_singleton.mp hmem
      exact ⟨moves, [], rfl, hrun, hcarry, .start⟩

end Run

end

section

variable [Destructor α]

/-- Does deeds one after another and leaves out those whose time is not now. -/
def Machine.follow (m : Machine n α) : List (Deed α) → List (Move n α) × Machine n α
  | [] => ([], m)
  | deed :: deeds =>
    match m.carryOut deed with
    | none => m.follow deeds
    | some turn =>
      let (moves, m') := (turn.machine m.thread).follow deeds
      (⟨m, deed, turn⟩ :: moves, m')

theorem Machine.run_follow (m : Machine n α) (deeds : List (Deed α)) :
    Run m (m.follow deeds).1 (m.follow deeds).2 := by
  induction deeds generalizing m with
  | nil => exact .start
  | cons deed deeds ih =>
    rw [follow]
    cases hcarry : m.carryOut deed with
    | none => exact ih m
    | some turn => exact (Run.single hcarry).trans (ih _)

end

/-! ## Commands as runs -/

section

variable [Destructor α]

theorem Machine.carryOut_proceed {m : Machine n α} (hframes : m.frames ≠ []) :
    m.carryOut .proceed = some m.step := by
  obtain ⟨w, t, frames⟩ := m
  cases frames with
  | nil => exact absurd rfl hframes
  | cons frame frames => rfl

theorem Machine.carryOut_issue {m : Machine n α} (hframes : m.frames = []) (t : ThreadId)
    (command : Command α) :
    m.carryOut (.issue t command) = some (execute m.world t command []) := by
  obtain ⟨w, t', frames⟩ := m
  obtain rfl : frames = [] := hframes
  rfl

/-- Stepping to the end of a command is a run. -/
theorem Machine.exists_run (m : Machine n α) : ∃ moves t, Run m moves ⟨m.run.1, t, []⟩ ∧
    ∀ move ∈ moves, move.deed = .proceed := by
  fun_induction run m with
  | case1 m world result hstep =>
    by_cases hframes : m.frames = []
    · obtain ⟨w, t, frames⟩ := m
      obtain rfl : frames = [] := hframes
      cases hstep
      exact ⟨[], t, .start, List.forall_mem_nil _⟩
    · have hcarry := (carryOut_proceed hframes).trans (congrArg some hstep)
      exact ⟨_, m.thread, .single hcarry, by simp⟩
  | case2 m m' hstep ih =>
    obtain ⟨moves, t, hrun, hmoves⟩ := ih
    have hframes : m.frames ≠ [] := by
      intro hframes
      rw [step, hframes] at hstep
      cases hstep
    have hcarry := (carryOut_proceed hframes).trans (congrArg some hstep)
    exact ⟨_, t, (Run.single hcarry).trans hrun, by simpa using hmoves⟩

/-- A whole command of a thread is a run that issues it and then proceeds to its end. -/
theorem World.exists_run (w : World n α) (t₀ t : ThreadId) (command : Command α) :
    ∃ moves t₁, Run ⟨w, t₀, []⟩ moves ⟨(w.run t command).1, t₁, []⟩ ∧
      ∀ move ∈ moves, move.deed = .issue t command ∨ move.deed = .proceed := by
  have hcarry := (⟨w, t₀, []⟩ : Machine n α).carryOut_issue rfl t command
  unfold World.run
  cases hturn : Machine.execute w t command [] with
  | done world result =>
    rw [hturn] at hcarry
    exact ⟨_, t₀, .single hcarry, by simp⟩
  | next m =>
    rw [hturn] at hcarry
    obtain ⟨moves, t₁, hrun, hmoves⟩ := m.exists_run
    refine ⟨_, t₁, (Run.single hcarry).trans hrun, ?_⟩
    intro move hmem
    rcases List.mem_append.mp hmem with hmem | hmem
    · exact Or.inl (by rw [List.mem_singleton.mp hmem])
    · exact Or.inr (hmoves move hmem)

/-- Popping stacks one after the other is a run. -/
theorem World.exists_run_popEach (w : World n α) (t₀ t : ThreadId)
    (pops : List (CellKey × StackId)) :
    ∃ moves t₁, Run ⟨w, t₀, []⟩ moves ⟨(w.popEach t pops).1, t₁, []⟩ := by
  induction pops generalizing w t₀ with
  | nil => exact ⟨[], t₀, .start⟩
  | cons pop rest ih =>
    obtain ⟨_, t₁, hfirst, -⟩ := w.exists_run t₀ t (.pop pop.1 pop.2)
    obtain ⟨_, t₂, hrest⟩ := ih (w.run t (.pop pop.1 pop.2)).1 t₁
    exact ⟨_, t₂, hfirst.trans hrest⟩

/-- The end of a thread is a run: it gives up its slots, loses its cells, makes its last pops and
loses what these left in its cells. -/
theorem World.exists_run_exit (w : World n α) (t₀ t : ThreadId) (pops : List (CellKey × StackId)) :
    ∃ moves t₁, Run ⟨w, t₀, []⟩ moves ⟨(w.exit t pops).1, t₁, []⟩ := by
  have hdeed (deed : Deed α) {w v : World n α} {t₀ : ThreadId} {result : Except Fault (Answer α)}
      (hcarry : Machine.carryOut ⟨w, t₀, []⟩ deed = some (.done v result)) :
      ∃ moves, Run ⟨w, t₀, []⟩ moves ⟨v, t₀, []⟩ :=
    ⟨_, .single hcarry⟩
  have hcells (w : World n α) (t₀ : ThreadId) :
      ∃ moves, Run ⟨w, t₀, []⟩ moves ⟨w.destroyCells t, t₀, []⟩ := by
    obtain ⟨_, hfirst⟩ := hdeed (.destroyCell t .processWide) rfl
    obtain ⟨_, hsecond⟩ := hdeed (.destroyCell t .ordinary) rfl
    exact ⟨_, hfirst.trans hsecond⟩
  obtain ⟨_, t₁, hpops⟩ :=
    World.exists_run_popEach ((w.releaseHandles (·.thread = t)).destroyCells t) t₀ t pops
  obtain ⟨_, hletGo⟩ := hdeed (.letGo t) rfl
  obtain ⟨_, hfirst⟩ := hcells (w.releaseHandles (·.thread = t)) t₀
  obtain ⟨_, hlast⟩ := hcells _ t₁
  obtain ⟨_, hfinish⟩ := hdeed (.finish t) rfl
  exact ⟨_, t₁, hletGo.trans <| hfirst.trans <| hpops.trans <| hlast.trans hfinish⟩

end

end Reclaim.Hazard
