import Reclaim.Proofs.Hazard.Accounts
import Reclaim.Proofs.Hazard.Clearing
import Reclaim.Proofs.Hazard.Programs

/-!
# The life of a node

Between commands a node is linked in the stack it was pushed to, parked in the registry of that
stack, or freed. It goes only from linked to parked or freed, and from parked to freed: pops unlink
it, reclaims free what is parked, by whatever stack they are made, and dropping a stack frees what
is still linked there and nothing else. So when all stacks are dropped and no slot publishes what is
parked, one reclaim of each registry frees every node that is left.
-/

namespace Reclaim.Hazard

variable {n : Nat} {α : Type} {r : RegistryId} {id : StackId} {a : Address} {node : NodeId}

def Move.pushed? (move : Move n α) : Option (StackId × RegistryId × NodeId) :=
  match move.command? with
  | some (_, .push id _) =>
    (move.before.world.home? id).map fun r ↦ (id, r, move.before.world.heap.size)
  | _ => none

def Move.Pushes (move : Move n α) (id : StackId) (r : RegistryId) (node : NodeId) : Prop :=
  move.pushed? = some (id, r, node)

instance (move : Move n α) (id : StackId) (r : RegistryId) (node : NodeId) :
    Decidable (move.Pushes id r node) :=
  inferInstanceAs (Decidable (_ = _))

theorem Move.Pushes.cases {move : Move n α} (hpushes : move.Pushes id r node) :
    ∃ t value stack, move.command? = some (t, .push id value) ∧
      move.before.world.stack? id = some stack ∧ stack.registry = r ∧
      node = move.before.world.heap.size := by
  unfold Pushes pushed? at hpushes
  split at hpushes
  · next t id' value hcommand =>
    obtain ⟨r', hhome, heq⟩ := Option.map_eq_some_iff.mp hpushes
    obtain ⟨stack, hstack, hregistry⟩ := Option.map_eq_some_iff.mp hhome
    cases heq
    exact ⟨t, value, stack, hcommand, hstack, hregistry, rfl⟩
  · cases hpushes

/-- The move runs a command of a deleter, or the destructors of the values in a stack. -/
def Move.callsOut (move : Move n α) : Bool :=
  match move.deed with
  | .proceed => move.command?.isSome
  | .dropStack _ => true
  | _ => false

/-- A command of a deleter faults, or the destructor of a value in a stack that is dropped. -/
def Move.Breaks (move : Move n α) : Prop := move.turn.Faulted ∧ move.callsOut

instance (move : Move n α) : Decidable move.Breaks :=
  inferInstanceAs (Decidable (_ ∧ _))

/-- A stack is dropped without a fault if that does not break. -/
theorem Move.not_faulted_of_dropStack {move : Move n α} (hmove : ¬ move.Breaks)
    (hdeed : move.deed = .dropStack id) : ¬ move.turn.Faulted := by
  intro hfaulted
  apply hmove
  refine ⟨hfaulted, ?_⟩
  rw [callsOut, hdeed]

namespace Machine

theorem not_faulted_resume (w : World n α) (t : ThreadId) (answer : Answer α)
    (frames : List (Frame n α)) : ¬ (resume w t answer frames).Faulted := by
  unfold resume
  split <;> exact id

theorem not_faulted_retire (w : World n α) (t : ThreadId) (r : RegistryId) (entry : Entry α)
    (frames : List (Frame n α)) : ¬ (retire w t r entry frames).Faulted := by
  unfold retire
  split
  · exact not_faulted_resume _ t _ frames
  · exact id

/-- A step faults only in a command of a deleter. -/
theorem exists_command_of_faulted {m : Machine n α} (hfaulted : m.step.Faulted) :
    ∃ command rest frames, m.frames = .deleter (command :: rest) :: frames := by
  obtain ⟨w, t, frames⟩ := m
  cases frames with
  | nil => exact hfaulted.elim
  | cons frame frames =>
    cases frame with
    | deleter program =>
      cases program with
      | nil => exact absurd hfaulted (not_faulted_resume w t _ frames)
      | cons command rest => exact ⟨command, rest, frames, rfl⟩
    | sweep sweep =>
      obtain ⟨r, current, rest, freed⟩ := sweep
      cases rest with
      | nil => exact absurd hfaulted (not_faulted_resume w t _ frames)
      | cons entry rest =>
        unfold step at hfaulted
        dsimp only at hfaulted
        split at hfaulted <;> exact hfaulted.elim
    | pop popping =>
      obtain ⟨r, value, hold, stage⟩ := popping
      cases stage with
      | retire node => exact absurd hfaulted (not_faulted_retire w t r _ _)
      | reclaim => exact hfaulted.elim
      | answer => exact absurd hfaulted (not_faulted_resume _ t _ frames)

end Machine

section

variable {m : Machine n α}

/-- Between commands, and if nothing got lost, no address is under way. -/
theorem Machine.place_of_idle (hidle : m.frames = []) (hcutShort : m.world.cutShort = [])
    {p : Place} (hmem : a ∈ m.stock.addresses p) :
    (∃ id, p = .linked id) ∨ (∃ r, p = .parked r) ∨ p = .freed := by
  obtain ⟨w, t, frames⟩ := m
  obtain rfl : frames = [] := hidle
  cases p with
  | linked id => exact Or.inl ⟨id, rfl⟩
  | parked r => exact Or.inr (Or.inl ⟨r, rfl⟩)
  | freed => exact Or.inr (Or.inr rfl)
  | taken r => cases hmem
  | draining r => cases hmem
  | lost r =>
    have hlost : w.cutShort = [] := hcutShort
    simp [Stock.addresses, Machine.stock, stockOf, hlost, rests] at hmem

theorem Machine.Sound.only_of_belongs (hm : m.Sound) (hidle : m.frames = [])
    (hcutShort : m.world.cutShort = []) (hbelongs : m.stock.Belongs id r a) :
    m.stock.Only a (.linked id) ∨ m.stock.Only a (.parked r) ∨ m.stock.Only a .freed := by
  obtain ⟨p, hp, hmem⟩ := hbelongs.place
  have honly := hm.stock.only_of_mem hmem
  rcases Machine.place_of_idle hidle hcutShort hmem with ⟨j, rfl⟩ | ⟨q, rfl⟩ | rfl
  · rcases hp with hp | hp | hp
    · exact Or.inl (hp ▸ honly)
    · cases hp
    · exact hp.elim
  · rcases hp with hp | hp | hp
    · cases hp
    · cases hp
    · obtain rfl : q = r := hp
      exact Or.inr (Or.inl honly)
  · exact Or.inr (Or.inr honly)

theorem Machine.Sound.only_of_keeps (hm : m.Sound) (hidle : m.frames = [])
    (hcutShort : m.world.cutShort = []) (hkeeps : m.stock.Keeps r a) :
    m.stock.Only a (.parked r) ∨ m.stock.Only a .freed := by
  obtain ⟨p, hp, hmem⟩ := hkeeps
  have honly := hm.stock.only_of_mem hmem
  rcases Machine.place_of_idle hidle hcutShort hmem with ⟨j, rfl⟩ | ⟨q, rfl⟩ | rfl
  · exact hp.elim
  · obtain rfl : q = r := hp
    exact Or.inl honly
  · exact Or.inr honly

theorem Stock.Only.mem {s : Stock n α} {p : Place} (honly : s.Only a p) : a ∈ s.addresses p := by
  have hcount : s.count a p = 1 := (honly p).trans (if_pos rfl)
  exact List.count_pos_iff.mp (show 0 < s.count a p by rw [hcount]; exact Nat.one_pos)

end

section

variable [Destructor α] {m m' : Machine n α} {deed : Deed α} {turn : Turn n α}
  {moves : List (Move n α)}

/-- A step that does not break does not fault. -/
theorem Move.not_faulted_of_proceed (hcarry : m.carryOut .proceed = some turn)
    (hmove : ¬ (Move.mk m .proceed turn).Breaks) : ¬ turn.Faulted := by
  intro hfaulted
  apply hmove
  obtain ⟨w, t, frames⟩ := m
  cases frames with
  | nil => cases hcarry
  | cons frame frames =>
    obtain rfl := Option.some.inj hcarry
    obtain ⟨command, rest, outer, hframes⟩ := Machine.exists_command_of_faulted hfaulted
    cases hframes
    exact ⟨hfaulted, rfl⟩

theorem Run.not_faulted (hrun : Run m moves m') (hmoves : ∀ move ∈ moves, ¬ move.Breaks) :
    ∀ move ∈ moves, move.deed = .proceed → ¬ move.turn.Faulted := by
  intro move hmem hdeed
  obtain ⟨before, after, -, -, hcarry, -⟩ := hrun.exists_before hmem
  obtain ⟨pre, deed, turn⟩ := move
  obtain rfl : deed = .proceed := hdeed
  exact Move.not_faulted_of_proceed hcarry (hmoves _ hmem)

/-- A node that a move pushes belongs to its stack. -/
theorem Move.Pushes.belongs (hm : m.Sound) (hcarry : m.carryOut deed = some turn)
    (hpushes : (Move.mk m deed turn).Pushes id r node) :
    turn.stock.Belongs id r (.node node) := by
  obtain ⟨t, value, stack, hcommand, hstack, rfl, rfl⟩ := hpushes.cases
  obtain ⟨frames, hframes, hstock, hturn⟩ := Move.exists_execute hm.nested hcarry hcommand
  have hstack : m.world.stack? id = some stack := hstack
  have hs : (stockOf m.world frames).Sound := hstock ▸ hm.stock
  have hexecute : turn = Machine.resume (m.world.push id stack value).2 t
      (.pushed m.world.heap.size) frames := by
    rw [hturn, Machine.execute, hstack]
    rfl
  have hquiet := Machine.quiet_resume (w := (m.world.push id stack value).2) (t := t) hframes
    (.pushed m.world.heap.size)
  obtain ⟨marks, hmarks, heffects⟩ := hquiet.effects
  rw [hexecute]
  exact heffects.belongs ((Effect.push hstack value).sound hs)
    (fun _ _ hmem ↦ absurd (hmarks hmem) List.not_mem_nil) (Stock.belongs_push hs hstack value)

theorem Run.belongs (hrun : Run m moves m') (hm : m.Sound)
    (hmoves : ∀ move ∈ moves, ∀ id, move.deed = .dropStack id → ¬ move.turn.Faulted)
    (hbelongs : m.stock.Belongs id r a) : m'.stock.Belongs id r a := by
  refine hrun.kept (P := (·.Belongs id r a)) hm ?_ hbelongs
  intro move hmem marks hmarks heffects hs hbefore
  refine heffects.belongs hs (fun node _ hleak ↦ ?_) hbefore
  obtain ⟨id, hdeed, hfaulted⟩ := Move.leak_mem_marks (hmarks hleak)
  exact hmoves move hmem id hdeed hfaulted

/-- A node that was pushed in a run belongs to its stack at the end. -/
theorem Run.belongs_of_pushes (hrun : Run m moves m') (hm : m.Sound)
    (hmoves : ∀ move ∈ moves, ∀ id, move.deed = .dropStack id → ¬ move.turn.Faulted)
    {move : Move n α} (hmem : move ∈ moves) (hpushes : move.Pushes id r node) :
    m'.stock.Belongs id r (.node node) := by
  obtain ⟨before, after, rfl, hbefore, hcarry, hafter⟩ := hrun.exists_before hmem
  have hpre := hbefore.sound hm
  apply hafter.belongs (hpre.after hcarry _)
  · intro other hother
    exact hmoves other (List.mem_append_right _ (List.mem_cons_of_mem _ hother))
  · rw [Move.after, move.turn.stock_machine]
    exact hpushes.belongs hpre hcarry

namespace World

/-- Destroying nodes whose values do not fault frees them one by one, and touches no registry. -/
theorem destroyNodes_of_ok (links : List (NodeId × Node α))
    (hvalues : ∀ link ∈ links, Destructor.fault? link.2.value = none) (w : World n α) :
    (destroyNodes links w).2 = .ok () ∧
      (destroyNodes links w).1.started =
        (links.map fun link ↦ .node link.1).reverse ++ w.started ∧
      (destroyNodes links w).1.registries = w.registries ∧
      (destroyNodes links w).1.stacks = w.stacks := by
  induction links generalizing w with
  | nil => exact ⟨rfl, rfl, rfl, rfl⟩
  | cons link rest ih =>
    obtain ⟨hvalue, hrest⟩ := List.forall_mem_cons.mp hvalues
    have hnode : destroyNodes (link :: rest) w =
        destroyNodes rest ((w.record (.dropped link.2.value)).start (.ofNode link.1)) := by
      rw [destroyNodes, hvalue]
    obtain ⟨hok, hstarted, hregistries, hstacks⟩ :=
      ih hrest ((w.record (.dropped link.2.value)).start (.ofNode link.1))
    rw [hnode]
    refine ⟨hok, ?_, hregistries, hstacks⟩
    rw [hstarted, List.map_cons, List.reverse_cons, List.append_assoc]
    rfl

/-- Dropping a stack frees the nodes that are linked in it, and touches no registry. -/
theorem dropStack_of_ok {w : World n α} {id : StackId}
    (hvalues : ∀ link ∈ w.links id, Destructor.fault? link.2.value = none) :
    (w.dropStack id).2 = .ok () ∧
      (w.dropStack id).1.started =
        ((w.links id).map fun link ↦ .node link.1).reverse ++ w.started ∧
      (w.dropStack id).1.registries = w.registries ∧ (w.dropStack id).1.links id = [] := by
  cases hstack : w.stack? id with
  | none =>
    have hlinks := links_of_dropped hstack
    rw [dropStack, hstack, hlinks]
    exact ⟨rfl, rfl, rfl, rfl⟩
  | some stack =>
    obtain ⟨hok, hstarted, hregistries, hstacks⟩ := destroyNodes_of_ok _ hvalues (w.forget id)
    rw [dropStack_eq hstack]
    refine ⟨hok, hstarted, hregistries, links_of_dropped ?_⟩
    rw [stack?, hstacks, ← stack?, stack?_forget, if_pos rfl]

end World

/-! ## From the first push to the last reclaim -/

/-- If no deleter does anything but free, and no parked address is protected, reclaims free all that
is parked. -/
theorem Run.clearable (hrun : Run Machine.empty moves m)
    (hobjects : ∀ object ∈ m.world.objects, object.program = [])
    (hslots : ∀ r < m.world.registries.length, ∀ a ∈ m.stock.addresses (.parked r),
      m.world.isProtected r (some a) = false) (r : RegistryId) : m.world.Clearable r := by
  intro entry hentry
  have hlt : r < m.world.registries.length := by
    apply Nat.lt_of_not_le
    intro hle
    rw [World.limbo_of_length_le hle] at hentry
    cases hentry
  exact ⟨hrun.program_eq_nil hobjects hentry, hslots r hlt _ (List.mem_map_of_mem hentry)⟩

/-- When all stacks are gone and nothing parked is protected, a reclaim of each registry frees what
belonged to a stack, and nothing is pending any more. -/
theorem Run.freed_of_reclaimEach (hrun : Run Machine.empty moves m) (hidle : m.frames = [])
    (hcutShort : m.world.cutShort = []) (hclear : ∀ r, m.world.Clearable r)
    (hstacks : ∀ stack ∈ m.world.stacks, stack = none)
    {reclaims : List (ThreadId × RegistryId)}
    (hreclaims : ∀ r < m.world.registries.length, r ∈ reclaims.map Prod.snd) :
    (∀ id r a, m.stock.Belongs id r a →
      (stockOf (m.world.reclaimEach reclaims) []).Only a .freed) ∧
    ∀ r, ((m.world.reclaimEach reclaims).limbo r).pending = 0 := by
  obtain ⟨w, t, frames⟩ := m
  obtain rfl : frames = [] := hidle
  have hm := hrun.sound Machine.sound_empty
  have hcleared := World.cleared_reclaimEach reclaims hclear
  obtain ⟨moves', t', hrun', hmoves'⟩ := w.exists_run_reclaimEach reclaims t
  have hend := hrun'.sound hm
  have hlost : (w.reclaimEach reclaims).cutShort = [] := hcleared.cutShort.trans hcutShort
  have hparked (r : RegistryId) :
      (stockOf (w.reclaimEach reclaims) []).addresses (.parked r) = [] := by
    rw [Stock.addresses, stockOf, hcleared.entries]
    split
    · rfl
    · next hnot =>
      rw [World.limbo_of_length_le (Nat.not_lt.mp fun hlt ↦ hnot (hreclaims r hlt))]
      rfl
  have hlinked (id : StackId) :
      (stockOf (w.reclaimEach reclaims) []).addresses (.linked id) = [] := by
    have hgone := World.links_of_no_stacks (hcleared.stacks ▸ hstacks) id
    rw [Stock.addresses, stockOf, hgone, List.map_nil]
  constructor
  · intro id r a hbelongs
    have hafter := hrun'.belongs hm (fun move hmem id hdeed ↦ absurd hdeed (hmoves' move hmem id))
      hbelongs
    rcases hend.only_of_belongs rfl hlost hafter with honly | honly | honly
    · cases hlinked id ▸ honly.mem
    · cases hparked r ▸ honly.mem
    · exact honly
  · intro r
    have hwaiting : (stockOf (w.reclaimEach reclaims) []).waiting r = 0 := by
      have hidle := Machine.waiting_of_idle (m := ⟨w.reclaimEach reclaims, t', []⟩) rfl hlost r
      exact hidle.trans (congrArg List.length (hparked r))
    have hpending : ((w.reclaimEach reclaims).limbo r).pending = UInt64.ofNat _ :=
      hend.stock.pending r
    rw [hpending]
    exact congrArg UInt64.ofNat hwaiting

/-- Between commands every node that was pushed is in one place, and once: linked in its stack,
parked in the registry of that stack, or freed. A parked node stays parked until it is freed, and a
freed node stays freed. Dropping a stack frees its linked nodes and no others, and leaves what is
parked. After all stacks are dropped and no slot publishes what is parked, a reclaim of each
registry leaves every node freed and nothing pending, if no deleter does anything but free. -/
theorem node_life_cycle (hrun : Run Machine.empty moves m) (hidle : m.frames = [])
    (hmoves : ∀ move ∈ moves, ¬ move.Breaks) :
    (∀ id r node, (∃ move ∈ moves, move.Pushes id r node) →
      m.stock.Only (.node node) (.linked id) ∨ m.stock.Only (.node node) (.parked r) ∨
        m.stock.Only (.node node) .freed) ∧
    (∀ moves' m', Run m moves' m' → m'.frames = [] → (∀ move ∈ moves', ¬ move.Breaks) →
      ∀ r node,
        (m.stock.Only (.node node) (.parked r) →
          m'.stock.Only (.node node) (.parked r) ∨ m'.stock.Only (.node node) .freed) ∧
        (m.stock.Only (.node node) .freed → m'.stock.Only (.node node) .freed)) ∧
    (∀ id, (∀ link ∈ m.world.links id, Destructor.fault? link.2.value = none) →
      ∃ w, m.carryOut (.dropStack id) = some (.done w (.ok .done)) ∧
        w.started = (m.stock.addresses (.linked id)).reverse ++ m.world.started ∧
        w.registries = m.world.registries ∧ w.links id = []) ∧
    ((∀ object ∈ m.world.objects, object.program = []) →
      (∀ stack ∈ m.world.stacks, stack = none) →
      (∀ r < m.world.registries.length, ∀ a ∈ m.stock.addresses (.parked r),
        m.world.isProtected r (some a) = false) →
      ∀ reclaims : List (ThreadId × RegistryId),
        (∀ r < m.world.registries.length, r ∈ reclaims.map Prod.snd) →
        (∀ id r node, (∃ move ∈ moves, move.Pushes id r node) →
          (stockOf (m.world.reclaimEach reclaims) []).Only (.node node) .freed) ∧
        ∀ r, ((m.world.reclaimEach reclaims).limbo r).pending = 0) := by
  have hm := hrun.sound Machine.sound_empty
  have hcutShort : m.world.cutShort = [] :=
    hrun.cutShort Machine.sound_empty (hrun.not_faulted hmoves)
  have hbelongs (id : StackId) (r : RegistryId) (node : NodeId)
      (hpushed : ∃ move ∈ moves, move.Pushes id r node) : m.stock.Belongs id r (.node node) := by
    obtain ⟨move, hmem, hpushes⟩ := hpushed
    exact hrun.belongs_of_pushes Machine.sound_empty
      (fun move hmem _ ↦ Move.not_faulted_of_dropStack (hmoves move hmem)) hmem hpushes
  refine ⟨?_, ?_, ?_, ?_⟩
  · intro id r node hpushed
    exact hm.only_of_belongs hidle hcutShort (hbelongs id r node hpushed)
  · intro moves' m' hrun' hidle' hmoves' r node
    have hm' := hrun'.sound hm
    have hcutShort' : m'.world.cutShort = [] :=
      (hrun'.cutShort hm (hrun'.not_faulted hmoves')).trans hcutShort
    constructor
    · intro hparked
      have hkeeps : m.stock.Keeps r (.node node) := ⟨.parked r, rfl, hparked.mem⟩
      have hkeeps' : m'.stock.Keeps r (.node node) :=
        hrun'.kept (P := (·.Keeps r (.node node))) hm
          (fun _ _ _ _ heffects hs ↦ heffects.keeps hs) hkeeps
      exact hm'.only_of_keeps hidle' hcutShort' hkeeps'
    · intro hfreed
      exact hm'.stock.only_of_mem (hrun'.remains hm trivial hfreed.mem)
  · intro id hvalues
    obtain ⟨hok, hstarted, hregistries, hlinks⟩ := World.dropStack_of_ok hvalues
    refine ⟨(m.world.dropStack id).1, ?_, hstarted, hregistries, hlinks⟩
    obtain ⟨w, t, frames⟩ := m
    obtain rfl : frames = [] := hidle
    have hcarry : Machine.carryOut ⟨w, t, []⟩ (.dropStack id) = some (.done (w.dropStack id).1
        ((w.dropStack id).2.map fun _ ↦ .done)) := rfl
    rw [hcarry, show (w.dropStack id).2 = .ok () from hok]
    rfl
  · intro hobjects hstacks hslots reclaims hreclaims
    obtain ⟨hfreed, hpending⟩ :=
      hrun.freed_of_reclaimEach hidle hcutShort (hrun.clearable hobjects hslots) hstacks hreclaims
    exact ⟨fun id r node hpushed ↦ hfreed id r _ (hbelongs id r node hpushed), hpending⟩

end

/-- Of two stacks over one registry and one over another, the first loses a node to a pop while a
slot publishes it. Then all stacks are dropped, and the slot is cleared. -/
def outliving : List (Deed Nat) :=
  [.addRegistry, .addRegistry, .addStack 0, .addStack 0, .addStack 1, .spawn,
    .issue 0 (.push 0 10), .issue 0 (.push 1 11), .issue 0 (.push 0 12), .issue 0 (.push 2 13),
    .issue 0 (.tryClaim 0), .issue 0 (.publish 0 (some (.node 2))), .issue 0 (.tryClaim 0),
    .issue 0 (.popUsing 0 1)] ++ List.replicate 5 .proceed ++
  [.issue 0 (.popUsing 1 1)] ++ List.replicate 6 .proceed ++
  [.dropStack 0, .dropStack 1, .dropStack 2, .issue 0 (.publish 0 none)]

def afterStacks : Machine 2 Nat := (Machine.empty.follow outliving).2

/-- The node that was popped is parked when its stack is gone, and the reclaims free it. -/
theorem node_life_cycle_outliving :
    afterStacks.stock.Only (.node 2) (.parked 0) ∧
      (∀ x ∈ [(0, 0, 0), (1, 0, 1), (0, 0, 2), (2, 1, 3)],
        (stockOf (afterStacks.world.reclaimEach [(0, 1), (0, 0)]) []).Only
          (.node x.2.2) .freed) ∧
      ((afterStacks.world.reclaimEach [(0, 1), (0, 0)]).limbo 0).pending = 0 := by
  have hpushed : ∀ x ∈ [(0, 0, 0), (1, 0, 1), (0, 0, 2), (2, 1, 3)],
      ∃ move ∈ ((Machine.empty : Machine 2 Nat).follow outliving).1,
        move.Pushes x.1 x.2.1 x.2.2 := by decide +kernel
  obtain ⟨hplaces, -, -, hreclaims⟩ :=
    node_life_cycle ((Machine.empty : Machine 2 Nat).run_follow outliving)
      (by decide +kernel) (by decide +kernel)
  obtain ⟨hfreed, hpending⟩ := hreclaims (by decide +kernel) (by decide +kernel)
    (by decide +kernel) [(0, 1), (0, 0)] (by decide +kernel)
  refine ⟨?_, fun x hx ↦ hfreed x.1 x.2.1 x.2.2 (hpushed x hx), hpending 0⟩
  have hparked : afterStacks.stock.count (.node 2) (.parked 0) = 1 := by decide +kernel
  rcases hplaces 0 0 2 (hpushed (0, 0, 2) (by decide)) with honly | honly | honly
  · exact absurd (hparked.symm.trans (honly (.parked 0))) (by decide)
  · exact honly
  · exact absurd (hparked.symm.trans (honly (.parked 0))) (by decide)

end Reclaim.Hazard
