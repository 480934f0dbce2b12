import Reclaim.Proofs.Hazard.Holdings
import Reclaim.Proofs.SharedStack.Calls

/-!
# Calls on a stack over a registry

Calls push, pop and look at one stack, and pop through any slot of its registry. Between the calls
anything may happen that does not operate on this stack: slots are claimed, published and released,
objects are retired, registries are reclaimed, other stacks come and go. A pop may run deleters that
wait in the registry; if none of them faults or operates on the stack itself, the stack acts as a
list.
-/

namespace Reclaim.Hazard

open SharedStack (Call)

variable {n : Nat} {α : Type} {id : StackId}

def Command.stack? : Command α → Option StackId
  | .push id _ | .popUsing id _ | .pop _ id => some id
  | _ => none

def Move.stack? (move : Move n α) : Option StackId :=
  match move.deed with
  | .dropStack id => some id
  | _ => move.command?.bind fun given ↦ given.2.stack?

def Dealing.stack? : Dealing α → Option StackId
  | .push id _ | .take id _ | .drop id _ _ => some id
  | _ => Option.none

theorem Deals.linked_eq {h h' : Holdings α} {dealing : Dealing α} (hdeals : Deals h dealing h')
    (hstack : dealing.stack? ≠ some id) : h'.linked id = h.linked id := by
  cases hdeals with
  | push j value => exact if_neg fun hj ↦ hstack (congrArg some hj)
  | @take j value rest hlinked => exact if_neg fun hj ↦ hstack (congrArg some hj)
  | @drop j gone spared hlinked => exact if_neg fun hj ↦ hstack (congrArg some hj)
  | _ => rfl

theorem Move.stack?_commanded {move : Move n α} {command : Command α}
    (hstack : (move.commanded command).stack? = some id) : command.stack? = some id := by
  unfold commanded at hstack
  split at hstack
  · next j value hpushes =>
    have hcommand : command.stack? = some j := by
      cases command <;> cases hpushes
      rfl
    split at hstack
    · exact hcommand.trans hstack
    · cases hstack
  · next j value _ hpops _ =>
    have hcommand : command.stack? = some j := by
      cases command <;> cases hpops <;> rfl
    exact hcommand.trans hstack
  · cases hstack

theorem Move.not_drops {move : Move n α} (hmove : move.stack? ≠ some id) :
    move.deed ≠ .dropStack id := by
  intro hdeed
  exact hmove (by rw [stack?, hdeed])

section

variable [Destructor α] {m m' : Machine n α} {deed : Deed α} {turn : Turn n α}
  {moves : List (Move n α)}

/-- A move changes the values of no stack but the one that it operates on. -/
theorem Move.stack?_of_dealing {move : Move n α} (hstack : move.dealing.stack? = some id) :
    move.stack? = some id := by
  obtain ⟨m, deed, turn⟩ := move
  unfold dealing at hstack
  split at hstack
  · next j hdeed =>
    obtain rfl : deed = .dropStack j := hdeed
    exact hstack
  · cases hstack
  · next hdrop hanswer =>
    split at hstack
    · cases hstack
    · have hcommand : (Move.mk m deed turn).stack? =
          (Move.mk m deed turn).command?.bind fun given ↦ given.2.stack? := by
        cases deed with
        | dropStack j => exact absurd rfl (hdrop j)
        | _ => rfl
      rw [hcommand]
      cases hgiven : (Move.mk m deed turn).command? with
      | none =>
        rw [hgiven] at hstack
        cases hstack
      | some given =>
        rw [hgiven] at hstack
        exact stack?_commanded hstack

theorem Move.valuesIn_eq (hm : m.Sound) (hcalled : Called m.frames)
    (hcarry : m.carryOut deed = some turn) (hmove : (Move.mk m deed turn).stack? ≠ some id) :
    turn.world.valuesIn id = m.world.valuesIn id :=
  (Move.deals hm hcalled hcarry).linked_eq fun hstack ↦ hmove (stack?_of_dealing hstack)

/-- A stack stays as long as no move drops it. -/
theorem Run.home?_eq (hrun : Run m moves m') (hm : m.Sound)
    (hmoves : ∀ move ∈ moves, move.deed ≠ .dropStack id) {r : RegistryId}
    (hhome : m.world.home? id = some r) : m'.world.home? id = some r := by
  induction hrun with
  | start => exact hhome
  | @move moves pre deed turn hrun hcarry ih =>
    have hpre := ih fun move hmem ↦ hmoves move (List.mem_append_left _ hmem)
    have hsound := hrun.sound hm
    obtain ⟨marks, hmarks, heffects, -⟩ := hsound.marked hcarry
    rw [Turn.world_machine]
    refine heffects.kept (P := fun s ↦ s.world.home? id = some r) hsound.stock ?_ hpre
    intro u v marks' hsub heffect hu hbefore
    rcases heffect.home? id with hsame | ⟨hdrop, -⟩ | ⟨hnew, -⟩
    · exact hsame.trans hbefore
    · have hdeed : deed = .dropStack id := Move.drop_mem_marks (hmarks (hsub hdrop))
      exact absurd hdeed (hmoves _ (List.mem_append_right _ List.mem_cons_self))
    · exact absurd hnew (Nat.ne_of_lt (World.lt_length_of_home hbefore))

/-- A run that does not operate on a stack leaves its values alone. -/
theorem Run.valuesIn_eq (hrun : Run m moves m') (hm : m.Sound) (hcalled : Called m.frames)
    (hmoves : ∀ move ∈ moves, move.stack? ≠ some id) :
    m'.world.valuesIn id = m.world.valuesIn id ∧ Called m'.frames := by
  induction hrun with
  | start => exact ⟨rfl, hcalled⟩
  | @move moves pre deed turn hrun hcarry ih =>
    obtain ⟨hvalues, hcalled'⟩ := ih fun move hmem ↦ hmoves move (List.mem_append_left _ hmem)
    have hmove := hmoves ⟨pre, deed, turn⟩ (List.mem_append_right _ List.mem_cons_self)
    rw [Turn.world_machine, Turn.frames_machine]
    exact ⟨(Move.valuesIn_eq (hrun.sound hm) hcalled' hcarry hmove).trans hvalues,
      Machine.called_of_carryOut hcalled' hcarry⟩

/-- No command drops a stack. -/
theorem World.home?_run {w : World n α} {r : RegistryId} (t : ThreadId) (command : Command α)
    (hw : (stockOf w []).Sound) (hhome : w.home? id = some r) :
    (w.run t command).1.home? id = some r := by
  obtain ⟨moves, t', hrun, hmoves⟩ := w.exists_run 0 t command
  refine hrun.home?_eq ⟨hw, trivial⟩ (fun move hmem ↦ ?_) hhome
  rcases hmoves move hmem with hdeed | hdeed <;> rw [hdeed] <;> nofun

end

/-- The moves by which a command goes on to its end. -/
def Machine.trace (m : Machine n α) : List (Move n α) :=
  match _turn : m.step with
  | .done world result => if m.frames.isEmpty then [] else [⟨m, .proceed, .done world result⟩]
  | .next m' => ⟨m, .proceed, .next m'⟩ :: m'.trace
termination_by (m.cost, m.work)
decreasing_by
  rcases step_decreases _turn with less | ⟨same, less⟩
  · exact Prod.Lex.left _ _ less
  · exact Prod.Lex.right' _ same less

/-- The moves that follow when a command is issued. -/
def World.trace (w : World n α) (t : ThreadId) (command : Command α) : List (Move n α) :=
  match Machine.execute w t command [] with
  | .done _ _ => []
  | .next m => m.trace

namespace Machine

theorem trace_of_idle {m : Machine n α} (hframes : m.frames = []) : m.trace = [] := by
  obtain ⟨w, t, frames⟩ := m
  obtain rfl : frames = [] := hframes
  rw [trace]
  rfl

theorem trace_of_done {m : Machine n α} {world : World n α} {result : Except Fault (Answer α)}
    (hframes : m.frames ≠ []) (hstep : m.step = .done world result) :
    m.trace = [⟨m, .proceed, m.step⟩] := by
  rw [trace]
  split
  · next hturn => rw [hturn, if_neg (by simpa using hframes)]
  · next hturn => cases hstep.symm.trans hturn

theorem trace_of_next {m m' : Machine n α} (hstep : m.step = .next m') :
    m.trace = ⟨m, .proceed, m.step⟩ :: m'.trace := by
  rw [trace]
  split
  · next hturn => cases hstep.symm.trans hturn
  · next hturn =>
    cases hstep.symm.trans hturn
    rw [hturn]

/-- Whoever proceeds to the end of a command makes its moves. -/
theorem follow_proceed [Destructor α] (m : Machine n α) (count : Nat)
    (hdone : (m.follow (.replicate count .proceed)).2.frames = []) :
    (m.follow (.replicate count .proceed)).1 = m.trace := by
  induction count generalizing m with
  | zero => exact (trace_of_idle hdone).symm
  | succ count ih =>
    by_cases hframes : m.frames = []
    · obtain ⟨w, t, frames⟩ := m
      obtain rfl : frames = [] := hframes
      exact ih _ hdone
    · rw [List.replicate_succ, follow, carryOut_proceed hframes] at hdone ⊢
      change _ :: (follow _ _).1 = _
      rw [ih _ hdone]
      cases hstep : m.step with
      | done world result =>
        rw [trace_of_done hframes hstep, hstep, trace_of_idle rfl]
      | next m' => rw [trace_of_next hstep, hstep]; rfl

/-- The outermost pop goes on, ends with its value as the answer, or is ended by a fault. -/
theorem step_outermost {m : Machine n α} {value : α} (hvalue : outermost? m.frames = some value) :
    m.step.Faulted ∨ (∃ w, m.step = .done w (.ok (.popped (some value)))) ∨
      ∃ m', m.step = .next m' ∧ outermost? m'.frames = some value := by
  obtain ⟨w, t, frames⟩ := m
  cases frames with
  | nil => cases hvalue
  | cons frame frames =>
    have carried {outer : List (Frame n α)} {turn : Turn n α} (hcarries : turn.Carries w outer)
        (houter : outermost? outer = some value) :
        turn.Faulted ∨ ∃ m', turn = .next m' ∧ outermost? m'.frames = some value := by
      by_cases hfaulted : turn.Faulted
      · exact Or.inl hfaulted
      · exact Or.inr (hcarries.outermost value houter hfaulted)
    rcases step_values w t frame frames with
      ⟨command, rest, rfl⟩ | ⟨r, found, hold, rfl, hstep⟩ | ⟨-, -, hcarries⟩
    · have houter : outermost? (.deleter rest :: frames) = some value :=
        (outermost?_congr (by rfl) frames).trans hvalue
      have hstep : step ⟨w, t, .deleter (command :: rest) :: frames⟩ =
          execute w t command (.deleter rest :: frames) := rfl
      rw [hstep]
      rcases (executes w t (.deleter rest :: frames) command).values with
        ⟨id, pushed, stack, -, -, hexecute⟩ | ⟨id, -, htakes⟩ | ⟨-, hcarries⟩
      · rw [hexecute]
        exact Or.inr (Or.inr (outermost_resume _ t _ houter))
      · obtain ⟨stack, node, contents, v, t', r, hold, -, -, -, hturn⟩ := htakes
        exact Or.inr (Or.inr ⟨_, hturn, outermost?_cons houter _⟩)
      · exact (carried hcarries houter).imp_right Or.inr
    · rw [hstep]
      cases frames with
      | nil =>
        obtain rfl : found = value := Option.some.inj hvalue
        exact Or.inr (Or.inl ⟨_, rfl⟩)
      | cons next frames => exact Or.inr (Or.inr (outermost_resume _ t _ hvalue))
    · exact (carried hcarries hvalue).imp_right Or.inr

/-- A step that faults breaks. -/
theorem breaks_of_faulted {m : Machine n α} (hfaulted : m.step.Faulted) :
    (Move.mk m .proceed m.step).Breaks := by
  obtain ⟨command, rest, frames, hframes⟩ := exists_command_of_faulted hfaulted
  obtain ⟨w, t, frames'⟩ := m
  obtain rfl : frames' = _ := hframes
  exact ⟨hfaulted, rfl⟩

/-- The moves of a pop that goes on lead to its end, and if no deleter faults it ends with its value
as the answer. -/
theorem run_trace [Destructor α] (m : Machine n α) {value : α}
    (hvalue : outermost? m.frames = some value) :
    (∃ t, Run m m.trace ⟨m.run.1, t, []⟩) ∧
      ((∀ move ∈ m.trace, ¬ move.Breaks) → m.run.2 = .ok (.popped (some value))) := by
  have hframes {m : Machine n α} (hvalue : outermost? m.frames = some value) : m.frames ≠ [] := by
    intro hnil
    rw [hnil] at hvalue
    cases hvalue
  have hcarry := carryOut_proceed (hframes hvalue)
  fun_induction run m with
  | case1 m world result hstep =>
    rw [trace_of_done (hframes hvalue) hstep]
    refine ⟨⟨m.thread, ?_⟩, ?_⟩
    · have hrun := Run.single hcarry
      rw [hstep] at hrun ⊢
      exact hrun
    · intro hmoves
      rcases step_outermost hvalue with hfaulted | ⟨w, hdone⟩ | ⟨m', hnext, -⟩
      · exact absurd (breaks_of_faulted hfaulted) (hmoves _ List.mem_cons_self)
      · cases hstep.symm.trans hdone
        rfl
      · cases hstep.symm.trans hnext
  | case2 m m' hstep ih =>
    have hvalue' : outermost? m'.frames = some value := by
      rcases step_outermost hvalue with hfaulted | ⟨w, hdone⟩ | ⟨m'', hnext, hvalue'⟩
      · rw [hstep] at hfaulted
        exact hfaulted.elim
      · cases hstep.symm.trans hdone
      · cases hstep.symm.trans hnext
        exact hvalue'
    obtain ⟨⟨t, hrun⟩, hresult⟩ := ih hvalue' (carryOut_proceed (hframes hvalue'))
    rw [trace_of_next hstep]
    refine ⟨⟨t, ?_⟩, fun hmoves ↦ hresult (List.forall_mem_cons.mp hmoves).2⟩
    have hfirst := Run.single hcarry
    rw [hstep] at hfirst ⊢
    exact hfirst.trans hrun

end Machine

/-- Whoever issues a command and proceeds to its end makes its moves. -/
theorem World.follow_issue [Destructor α] (w : World n α) (t : ThreadId) (command : Command α)
    (count : Nat)
    (hdone : ((⟨w, t, []⟩ : Machine n α).follow
      (.issue t command :: .replicate count .proceed)).2.frames = []) :
    ((⟨w, t, []⟩ : Machine n α).follow (.issue t command :: .replicate count .proceed)).1.tail =
      w.trace t command := by
  change ((Machine.execute w t command []).machine t |>.follow _).2.frames = [] at hdone
  change ((Machine.execute w t command []).machine t |>.follow _).1 = _
  rw [Machine.follow_proceed _ _ hdone, trace]
  cases Machine.execute w t command [] with
  | done world result => exact Machine.trace_of_idle rfl
  | next m => rfl

/-- How a thread pops: with a slot that it claimed explicitly, or with the one that it keeps in a
cell. -/
inductive Way where
  | lent (t : ThreadId) (handle : HandleId)
  | cell (t : ThreadId) (key : CellKey)

namespace Way

def thread : Way → ThreadId
  | .lent t _ | .cell t _ => t

def pop (way : Way) (id : StackId) : Command α :=
  match way with
  | .lent _ handle => .popUsing id handle
  | .cell _ key => .pop key id

end Way

/-- The slot that a thread pops a stack with. If it keeps none in its cell, that is the one it
claims. -/
def World.slot? (w : World n α) (stack : Stack) : Way → Option (Handle n)
  | .lent _ handle => w.handle? handle
  | .cell t key =>
    match w.cell? t key with
    | none | some (.live _ true) => none
    | some (.live (some slot) false) => some slot
    | some _ => (w.claimSlot (key.registry stack) t).map Prod.fst

def World.hasSlot (w : World n α) (id : StackId) (way : Way) : Bool :=
  (w.stack? id).any fun stack ↦
    (w.slot? stack way).any fun slot ↦ slot.registry = stack.registry

/-- A thread that has a slot to pop with comes by it. -/
theorem World.exists_seating {w : World n α} {t : ThreadId} {key : CellKey} {stack : Stack}
    {slot : Handle n} (hslot : w.slot? stack (.cell t key) = some slot) :
    ∃ v hold, w.Seating t key (key.registry stack) slot v hold ∧
      ∀ id frames, Machine.popImplicit w t key id stack frames =
        Machine.startPop v t id stack slot hold frames := by
  have claims (hslot : (w.claimSlot (key.registry stack) t).map Prod.fst = some slot) :
      ∃ v, w.claimSlot (key.registry stack) t = some (slot, v) := by
    obtain ⟨⟨_, v⟩, hclaim, rfl⟩ := Option.map_eq_some_iff.mp hslot
    exact ⟨v, hclaim⟩
  rcases hcell : w.cell? t key with _ | _ | ⟨_ | kept, _ | _⟩ | _ <;>
    simp only [slot?, hcell] at hslot <;> simp only [Machine.popImplicit, hcell]
  case some.unused | some.live.none.false =>
    obtain ⟨v, hclaim⟩ := claims hslot
    simp only [hclaim]
    exact ⟨_, _, .claimed hcell trivial hclaim, fun _ _ ↦ rfl⟩
  case some.live.some.false =>
    obtain rfl : kept = slot := Option.some.inj hslot
    exact ⟨_, _, .kept hcell, fun _ _ ↦ rfl⟩
  case some.destroyed =>
    obtain ⟨v, hclaim⟩ := claims hslot
    simp only [hclaim]
    exact ⟨_, _, .once hcell hclaim, fun _ _ ↦ rfl⟩
  all_goals cases hslot

/-- A pop that has a slot starts with it. -/
theorem World.exists_startPop {w : World n α} {way : Way} {stack : Stack} {slot : Handle n}
    (hstack : w.stack? id = some stack) (hslot : w.slot? stack way = some slot) :
    ∃ v hold, w.Spares v ∧ Machine.execute w way.thread (way.pop id) [] =
      Machine.startPop v way.thread id stack slot hold [] := by
  cases way with
  | lent t handle =>
    have hhandle : w.handle? handle = some slot := hslot
    refine ⟨w, .lent, .refl w, ?_⟩
    simp only [Way.pop, Machine.execute, hstack, hhandle]
  | cell t key =>
    obtain ⟨v, hold, hseating, hpop⟩ := exists_seating hslot
    refine ⟨v, hold, hseating.spares, ?_⟩
    simp only [Way.pop, Machine.execute, hstack]
    exact hpop id []

/-! ## Calls -/

def World.call (id : StackId) (way : Way) (w : World n α) :
    Call α → World n α × Except Fault (SharedStack.Answer α)
  | .push value =>
    ((w.run way.thread (.push id value)).1,
      (w.run way.thread (.push id value)).2.map fun _ ↦ .pushed)
  | .pop =>
    ((w.run way.thread (way.pop id)).1,
      (w.run way.thread (way.pop id)).2.map fun answer ↦ .popped answer.value?)
  | .isEmpty => (w, .ok (.empty ((w.stack? id).bind (·.head)).isNone))

/-- A pop is fine if there is a slot for it, and no deleter that it runs faults or operates on the
stack. Other calls are always fine. -/
def World.Fine (id : StackId) (way : Way) (w : World n α) : Call α → Prop
  | .pop => w.hasSlot id way ∧
    ∀ move ∈ w.trace way.thread (way.pop id), ¬ move.Breaks ∧ move.stack? ≠ some id
  | _ => True

instance (id : StackId) (way : Way) (w : World n α) : Decidable (w.Fine id way .pop) :=
  inferInstanceAs (Decidable (_ ∧ _))

/-- Calls on one stack, and between them anything that does not operate on it. -/
def service [Destructor α] (n : Nat) (id : StackId) : SharedStack.Service (World n α) Way α where
  call := World.call id
  fine := World.Fine id
  between w v := ∃ moves t t', Run ⟨w, t, []⟩ moves ⟨v, t', []⟩ ∧
    ∀ move ∈ moves, move.stack? ≠ some id

structure World.Holds (id : StackId) (w : World n α) (values : List α) : Prop where
  sound : (stockOf w []).Sound
  kept : (w.stack? id).isSome
  linked : w.valuesIn id = values

namespace World

variable {w : World n α} {values : List α}

theorem Holds.machine (hw : w.Holds id values) (t : ThreadId) :
    (⟨w, t, []⟩ : Machine n α).Sound := ⟨hw.sound, trivial⟩

theorem isSome_of_home? {r : RegistryId} (hhome : w.home? id = some r) : (w.stack? id).isSome := by
  have hsome := congrArg Option.isSome hhome
  rwa [home?, Option.isSome_map] at hsome

theorem exists_home? (hkept : (w.stack? id).isSome) : ∃ r, w.home? id = some r := by
  obtain ⟨stack, hstack⟩ := Option.isSome_iff_exists.mp hkept
  exact ⟨stack.registry, by rw [home?, hstack]; rfl⟩

/-- A stack that says that it is empty has no values. -/
theorem Holds.isNone_iff (hw : w.Holds id values) :
    ((w.stack? id).bind (·.head)).isNone = values.isEmpty := by
  obtain ⟨stack, hstack⟩ := Option.isSome_iff_exists.mp hw.kept
  have hleads : w.Leads stack.head (w.links id) := hw.sound.tidy id stack hstack
  have hvalues := hw.linked
  rw [hstack, Option.bind_some]
  cases hlinks : w.links id with
  | nil =>
    rw [hlinks] at hleads
    rw [valuesIn, hlinks] at hvalues
    have hnone : stack.head = none := hleads.path
    rw [hnone, ← hvalues]
    rfl
  | cons link rest =>
    rw [hlinks] at hleads
    rw [valuesIn, hlinks] at hvalues
    have hsome : stack.head = some link.1 := hleads.path.1
    rw [hsome, ← hvalues]
    rfl

theorem run_push {stack : Stack} (hstack : w.stack? id = some stack) (t : ThreadId) (value : α) :
    w.run t (.push id value) = ((w.push id stack value).2, .ok (.pushed w.heap.size)) := by
  rw [run, Machine.execute_push hstack t value []]
  rfl

theorem Holds.push (hw : w.Holds id values) (t : ThreadId) (value : α) :
    ∃ node v, w.run t (.push id value) = (v, .ok (.pushed node)) ∧
      v.Holds id (value :: values) := by
  obtain ⟨stack, hstack⟩ := Option.isSome_iff_exists.mp hw.kept
  refine ⟨w.heap.size, (w.push id stack value).2, run_push hstack t value, ?_, ?_, ?_⟩
  · exact (Effect.push hstack value).sound hw.sound
  · rw [stack?_push, if_pos rfl, hstack]
    rfl
  · have htidy : w.Tidy := hw.sound.tidy
    rw [valuesIn, links_push htidy hstack, if_pos rfl, List.map_cons, ← valuesIn, hw.linked]

variable [Destructor α]

/-- A pop that takes a value out answers it. -/
theorem Holds.of_takes (hw : w.Holds id values) {t : ThreadId} {command : Command α}
    (htakes : (Machine.execute w t command []).Takes w [] id)
    (hmoves : ∀ move ∈ w.trace t command, ¬ move.Breaks ∧ move.stack? ≠ some id) :
    ∃ v, w.run t command = (v, .ok (.popped values.head?)) ∧ v.Holds id values.tail := by
  have hcarry : (⟨w, t, []⟩ : Machine n α).carryOut (.issue t command) =
      some (Machine.execute w t command []) := rfl
  have hafter := (hw.machine t).after hcarry t
  obtain ⟨stack, node, contents, v, t', r, hold, hstack, htop, hspares, hturn⟩ := htakes
  let m : Machine n α := ⟨v, t', [.pop ⟨r, contents.value, hold, .retire node⟩]⟩
  have hm : m.Sound := by
    rw [hturn] at hafter
    exact hafter
  have htrace : w.trace t command = m.trace := by rw [trace, hturn]
  have hrun : w.run t command = m.run := by rw [run, hturn]
  rw [htrace] at hmoves
  have htidy : w.Tidy := hw.sound.tidy
  have hvalues : values = contents.value :: v.valuesIn id := by
    rw [← hw.linked, valuesIn, htidy.links_eq_cons hstack htop, valuesIn, hspares.links,
      links_setHead htidy hstack htop, if_pos rfl]
    rfl
  have hhome : m.world.home? id = some stack.registry := by
    rw [home?, hspares.stack?, stack?_setHead, if_pos rfl, hstack]
    rfl
  have houter : outermost? m.frames = some contents.value := rfl
  obtain ⟨⟨t'', hrest⟩, hresult⟩ := m.run_trace houter
  have hbeside : ∀ move ∈ m.trace, move.stack? ≠ some id := fun move hmem ↦ (hmoves move hmem).2
  have hhome' := hrest.home?_eq hm (fun move hmem ↦ Move.not_drops (hbeside move hmem)) hhome
  obtain ⟨hsame, -⟩ := hrest.valuesIn_eq hm ⟨Or.inl rfl, trivial⟩ hbeside
  rw [hvalues, hrun]
  refine ⟨m.run.1, ?_, (hrest.sound hm).stock, isSome_of_home? hhome', hsame⟩
  exact Prod.ext rfl (hresult fun move hmem ↦ (hmoves move hmem).1)

theorem Holds.pop (hw : w.Holds id values) (way : Way) (hfine : w.Fine id way .pop) :
    ∃ v, w.run way.thread (way.pop id) = (v, .ok (.popped values.head?)) ∧
      v.Holds id values.tail := by
  obtain ⟨hslot, hmoves⟩ := hfine
  obtain ⟨stack, hstack, hslot⟩ := Option.any_eq_true _ _ |>.mp hslot
  obtain ⟨slot, hslot, hregistry⟩ := Option.any_eq_true _ _ |>.mp hslot
  have hregistry := of_decide_eq_true hregistry
  obtain ⟨u, hold, hspares, hexecute⟩ := exists_startPop hstack hslot
  have hstack' := (hspares.stack? id).trans hstack
  rcases Machine.startPop_of_eq hstack' hregistry way.thread hold [] with
    ⟨htop, v, hspares', hturn⟩ | htakes
  · have hdone := hexecute.trans hturn
    have hall := hspares.trans hspares'
    have hleads : w.Leads stack.head (w.links id) := hw.sound.tidy id stack hstack
    have hlinks : w.links id = [] := by
      cases hlinks : w.links id with
      | nil => rfl
      | cons link rest =>
        rw [hlinks] at hleads
        rw [hspares.top?] at htop
        cases hleads.top?_eq.symm.trans htop
    have hvalues : values = [] := by
      rw [← hw.linked, valuesIn, hlinks]
      rfl
    have hcarry : (⟨w, way.thread, []⟩ : Machine n α).carryOut (.issue way.thread (way.pop id)) =
        some (.done v (.ok (.popped none))) := congrArg some hdone
    have hafter := (hw.machine way.thread).after hcarry way.thread
    rw [hvalues]
    refine ⟨v, by rw [run, hdone]; rfl, hafter.stock, ?_, ?_⟩
    · rw [hall.stack?]
      exact hw.kept
    · rw [valuesIn, hall.links, hlinks]
      rfl
  · rw [← hexecute] at htakes
    exact hw.of_takes (htakes.spared hspares) hmoves

end World

/-- A stack over a registry acts as a list, whatever happens beside it. -/
theorem lawful [Destructor α] (n : Nat) (id : StackId) :
    (service n id : SharedStack.Service (World n α) Way α).Lawful (World.Holds id) where
  call := by
    intro way w values call hw hfine
    cases call with
    | push value =>
      obtain ⟨node, v, hrun, hv⟩ := hw.push way.thread value
      change (w.run way.thread (.push id value)).2.map _ = _ ∧
        (w.run way.thread (.push id value)).1.Holds id _
      rw [hrun]
      exact ⟨rfl, hv⟩
    | pop =>
      obtain ⟨v, hrun, hv⟩ := hw.pop way hfine
      change (w.run way.thread (way.pop id)).2.map _ = _ ∧
        (w.run way.thread (way.pop id)).1.Holds id _
      rw [hrun]
      cases values <;> exact ⟨rfl, hv⟩
    | isEmpty =>
      refine ⟨?_, hw⟩
      exact congrArg (fun empty ↦ Except.ok (SharedStack.Answer.empty empty)) hw.isNone_iff
  between := by
    rintro w v values hw ⟨moves, t, t', hrun, hmoves⟩
    obtain ⟨r, hhome⟩ := World.exists_home? hw.kept
    have hhome' :=
      hrun.home?_eq (hw.machine t) (fun move hmem ↦ Move.not_drops (hmoves move hmem)) hhome
    obtain ⟨hsame, -⟩ := hrun.valuesIn_eq (hw.machine t) trivial hmoves
    exact ⟨(hrun.sound (hw.machine t)).stock, World.isSome_of_home? hhome',
      hsame.trans hw.linked⟩

end Reclaim.Hazard
