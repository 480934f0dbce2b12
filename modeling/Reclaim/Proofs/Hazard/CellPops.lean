import Reclaim.Proofs.Hazard.Lending

/-!
# Pops through a cell

A pop that goes through a cell of its thread uses the slot that is kept there, or claims one and
keeps it, unless the cell is destroyed. The cell loses its slot only when the thread unregisters or
ends, and then the slot belongs to nobody and publishes nothing.
-/

namespace Reclaim.Hazard

variable {n : Nat} {α : Type}

section

variable {P : Transfer n → Prop} {d e : Desk n α} {t : ThreadId} {key : CellKey}

theorem Handlings.kept_cases (hrow : Handlings P d e) (t : ThreadId) (key : CellKey) :
    e.world.kept t key = d.world.kept t key ∨
      (∃ slot, slot.thread = t ∧ P (.keep key slot) ∧ e.world.kept t key = [slot]) ∨
      P (.vacate t key) ∧ e.world.kept t key = [] := by
  induction hrow with
  | refl => exact Or.inl rfl
  | tail _ hhandling ih =>
    rcases hhandling.kept_cases t key with hsame | ⟨slot, hthread, hP, -, hafter⟩ | hvacated
    · rw [hsame]
      exact ih
    · exact Or.inr (Or.inl ⟨slot, hthread, hP, hafter⟩)
    · exact Or.inr (Or.inr hvacated)

/-- Without claims, and without cells that give their slots up, all cells keep what they keep. -/
theorem Handlings.kept_eq (hrow : Handlings (fun _ ↦ False) d e) (t : ThreadId) (key : CellKey) :
    e.world.kept t key = d.world.kept t key := by
  rcases hrow.kept_cases t key with hsame | ⟨_, -, hfalse, -⟩ | ⟨hfalse, -⟩
  · exact hsame
  · exact hfalse.elim
  · exact hfalse.elim

theorem World.kept_cases (w : World n α) (t : ThreadId) (key : CellKey) :
    w.kept t key = [] ∨ ∃ slot, w.kept t key = [slot] := by
  rw [World.kept_eq]
  cases (w.cell? t key).bind Cell.slot? with
  | none => exact Or.inl rfl
  | some slot => exact Or.inr ⟨slot, rfl⟩

theorem World.kept_of_cell? {w : World n α} {t : ThreadId} {key : CellKey} {slot : Handle n}
    {borrowed : Bool} (hcell : w.cell? t key = some (.live (some slot) borrowed)) :
    w.kept t key = [slot] := by
  rw [World.kept_eq, hcell]
  rfl

/-- A cell that is there keeps what is put into it. -/
theorem World.kept_setCell {w : World n α} {t : ThreadId} {key : CellKey} {cell : Cell n}
    (hcell : w.cell? t key = some cell) (put : Cell n) :
    (w.setCell t key put).kept t key = put.slot?.toList := by
  rw [World.kept_eq, World.cell?_setCell_self hcell]
  rfl

theorem World.kept_eq_of_mem {w : World n α} {t : ThreadId} {key : CellKey} {slot : Handle n}
    (hmem : slot ∈ w.kept t key) : w.kept t key = [slot] := by
  rcases w.kept_cases t key with hnone | ⟨only, honly⟩
  · rw [hnone] at hmem
    cases hmem
  · rw [honly] at hmem ⊢
    rw [List.mem_singleton.mp hmem]

end

namespace Machine

variable {w v : World n α} {t : ThreadId} {key : CellKey} {id : StackId} {stack : Stack}
  {slot : Handle n} {hold : Hold n} {frames : List (Frame n α)}

/-- A pop that needs a slot and finds none leaves the world as it is, or marks its cell as used. -/
theorem popImplicit_of_full {cell : Cell n} (hcell : w.cell? t key = some cell)
    (hkept : cell.slot? = none) (hfree : cell ≠ .live none true)
    (hclaim : w.claimSlot (key.registry stack) t = none) :
    ∃ v, (v = w ∨ cell.Vacant ∧ v = w.setCell t key (.live none false)) ∧ v.kept t key = [] ∧
      ∀ id frames, popImplicit w t key id stack frames = raise v t frames (.noFreeSlot n) := by
  have hlive : (w.setCell t key (.live none false)).kept t key = [] := World.kept_setCell hcell _
  rcases cell with _ | ⟨_ | slot, _ | _⟩ | _
  case unused =>
    refine ⟨_, Or.inr ⟨trivial, rfl⟩, hlive, fun id frames ↦ ?_⟩
    rw [popImplicit, hcell]
    simp only [hclaim]
    rfl
  case live.none.false =>
    refine ⟨_, Or.inr ⟨trivial, rfl⟩, hlive, fun id frames ↦ ?_⟩
    rw [popImplicit, hcell]
    simp only [hclaim]
    rfl
  case live.none.true => exact absurd rfl hfree
  case destroyed =>
    refine ⟨w, Or.inl rfl, ?_, fun id frames ↦ ?_⟩
    · rw [World.kept_eq, hcell]
      rfl
    · rw [popImplicit, hcell]
      simp only [hclaim]
      rfl
  all_goals cases hkept

/-- A pop that starts with a slot does not fail for want of one. -/
theorem startPop_ne_full (w v : World n α) (t : ThreadId) (id : StackId) (stack : Stack)
    (slot : Handle n) (hold : Hold n) (frames : List (Frame n α)) (capacity : Nat) :
    startPop w t id stack slot hold frames ≠ .done v (.error (.noFreeSlot capacity)) := by
  intro hturn
  unfold startPop at hturn
  split at hturn
  · cases hturn
  · split at hturn
    · unfold resume at hturn
      split at hturn <;> cases hturn
    · cases hturn

end Machine

namespace World

variable {w v : World n α} {t : ThreadId} {key : CellKey} {r : RegistryId} {id : StackId}
  {stack : Stack} {slot : Handle n} {hold : Hold n}

/-- A pop borrows its cell, unless the cell is destroyed. -/
theorem Seating.lent (hseating : w.Seating t key r slot v hold)
    (hlive : w.cell? t key ≠ some .destroyed) :
    hold = .cell key ∧ v.cell? t key = some (.live (some slot) true) := by
  cases hseating with
  | kept hcell => exact ⟨rfl, cell?_setCell_self hcell _⟩
  | claimed hcell _ hclaim =>
    exact ⟨rfl, cell?_setCell_self ((cell?_of_claimSlot hclaim t key).trans hcell) _⟩
  | once hdestroyed => exact absurd hdestroyed hlive

/-- A cell keeps the slot that its pop starts with, unless it is destroyed. -/
theorem Seating.kept_eq (hseating : w.Seating t key r slot v hold)
    (hlive : w.cell? t key ≠ some .destroyed) : v.kept t key = [slot] :=
  kept_of_cell? (hseating.lent hlive).2

/-- What its cell keeps when a pop starts, it keeps when the first step is done. -/
theorem kept_startPop {frames : List (Frame n α)}
    (hslot : slot ∈ Desk.held ⟨v, t, hold :: frames.filterMap Frame.hold?⟩) :
    (Machine.startPop v t id stack slot hold frames).world.kept t key = v.kept t key := by
  rw [← Turn.world_machine _ t]
  exact (Machine.handlings_startPop hslot id stack).kept_eq t key

theorem kept_resume (v : World n α) (t : ThreadId) (answer : Answer α) (frames : List (Frame n α))
    (key : CellKey) : (Machine.resume v t answer frames).world.kept t key = v.kept t key := by
  rw [← Turn.world_machine _ t]
  exact (Machine.handlings_resume v t answer frames).kept_eq t key

/-- A pop with a slot of the stack's registry answers the top value, unless a deleter faults. -/
theorem run_of_startPop [Destructor α] {command : Command α}
    (hexecute : Machine.execute w t command [] = Machine.startPop v t id stack slot hold [])
    (hregistry : slot.registry = stack.registry)
    (hmoves : ∀ move ∈ w.trace t command, ¬ move.Breaks) :
    ∃ u, w.run t command = (u, .ok (.popped ((v.top? stack).map (·.2.value)))) := by
  rw [Machine.startPop, if_neg (not_not_intro hregistry)] at hexecute
  cases htop : v.top? stack with
  | none =>
    rw [htop] at hexecute
    exact ⟨_, by rw [run, hexecute]; rfl⟩
  | some link =>
    rw [htop] at hexecute
    rw [trace, hexecute] at hmoves
    rw [run, hexecute]
    exact ⟨_, Prod.ext rfl ((Machine.run_trace _ rfl).2 hmoves)⟩

end World

/-- A pop of a thread through its cell starts with this slot, and keeps it there unless the cell is
destroyed. At top level the pop succeeds if no deleter faults and the slot belongs to the stack's
registry. -/
def Machine.PopsWith (m : Machine n α) (t : ThreadId) (key : CellKey) (id : StackId) (stack : Stack)
    (frames : List (Frame n α)) (slot : Handle n) : Prop :=
  (∃ v hold, execute m.world t (.pop key id) frames = startPop v t id stack slot hold frames) ∧
  (m.world.cell? t key ≠ some .destroyed →
    (execute m.world t (.pop key id) frames).world.kept t key = [slot]) ∧
  (slot.registry = stack.registry →
    (∀ move ∈ m.world.trace t (.pop key id), ¬ move.Breaks) →
    ∃ v, m.world.run t (.pop key id) = (v, .ok (.popped ((m.world.top? stack).map (·.2.value)))))

theorem Machine.execute_pop {w : World n α} {id : StackId} {stack : Stack}
    (hstack : w.stack? id = some stack) (t : ThreadId) (key : CellKey)
    (frames : List (Frame n α)) :
    execute w t (.pop key id) frames = popImplicit w t key id stack frames := by
  rw [execute, hstack]

/-- A pop that starts with a slot does not fail for want of one. -/
theorem Machine.PopsWith.ne_full {m : Machine n α} {t : ThreadId} {key : CellKey} {id : StackId}
    {stack : Stack} {frames : List (Frame n α)} {slot : Handle n}
    (hpops : m.PopsWith t key id stack frames slot) (v : World n α) :
    execute m.world t (.pop key id) frames ≠ .done v (.error (.noFreeSlot n)) := by
  obtain ⟨⟨u, hold, hstart⟩, -⟩ := hpops
  rw [hstart]
  exact startPop_ne_full _ _ _ _ _ _ _ _ _

/-- A pop starts with the slot that its cell provides. -/
theorem Machine.popsWith [Destructor α] {m : Machine n α} {t : ThreadId} {key : CellKey}
    {id : StackId} {stack : Stack} {slot : Handle n} (hstack : m.world.stack? id = some stack)
    (hslot : m.world.slot? stack (.cell t key) = some slot)
    (frames : List (Frame n α)) : m.PopsWith t key id stack frames slot := by
  obtain ⟨v, hold, hseating, hpop⟩ := World.exists_seating hslot
  have hexecute (frames : List (Frame n α)) : execute m.world t (.pop key id) frames =
      startPop v t id stack slot hold frames := by
    rw [execute_pop hstack]
    exact hpop id frames
  refine ⟨⟨v, hold, hexecute frames⟩, fun hlive ↦ ?_, fun hregistry hmoves ↦ ?_⟩
  · rw [hexecute, World.kept_startPop (hseating.mem_held _)]
    exact hseating.kept_eq hlive
  · rw [← hseating.spares.top? stack]
    exact World.run_of_startPop (hexecute []) hregistry hmoves

namespace World

variable {w : World n α} {t : ThreadId} {key : CellKey} {slot : Handle n}

/-- The slot belongs to nobody and publishes nothing. -/
def Returned (w : World n α) (slot : Handle n) : Prop :=
  w.slotAt? slot.registry slot.index = some {}

theorem returned_releaseSlot (hslot : (w.slotAt? slot.registry slot.index).isSome) :
    (w.releaseSlot slot).Returned slot := by
  obtain ⟨found, hfound⟩ := Option.isSome_iff_exists.mp hslot
  rw [Returned, slotAt?_releaseSlot, if_pos ⟨rfl, rfl⟩, hfound]
  rfl

theorem Returned.releaseSlot (hw : w.Returned slot) (other : Handle n) :
    (w.releaseSlot other).Returned slot := by
  rw [Returned, slotAt?_releaseSlot, hw]
  split <;> rfl

theorem Returned.destroyCell (hw : w.Returned slot) (t : ThreadId) (key : CellKey) :
    (w.destroyCell t key).Returned slot := by
  unfold World.destroyCell
  split
  · exact hw.releaseSlot _
  · exact hw
  · exact hw

theorem isSome_slotAt?_releaseSlot (w : World n α) (other : Handle n) (r : RegistryId)
    (i : Fin n) : ((w.releaseSlot other).slotAt? r i).isSome = (w.slotAt? r i).isSome := by
  rw [slotAt?_releaseSlot]
  split
  · exact Option.isSome_map
  · rfl

theorem isSome_slotAt?_releaseHandles (w : World n α) (t : ThreadId) (r : RegistryId) (i : Fin n) :
    ((w.releaseHandles (·.thread = t)).slotAt? r i).isSome = (w.slotAt? r i).isSome := by
  have hfold (slots : List (Handle n)) (w : World n α) :
      ((slots.foldl releaseSlot w).slotAt? r i).isSome = (w.slotAt? r i).isSome := by
    induction slots generalizing w with
    | nil => rfl
    | cons slot rest ih => exact (ih _).trans (w.isSome_slotAt?_releaseSlot slot r i)
  exact hfold _ w

theorem isSome_slotAt?_destroyCell (w : World n α) (t : ThreadId) (key : CellKey) (r : RegistryId)
    (i : Fin n) : ((w.destroyCell t key).slotAt? r i).isSome = (w.slotAt? r i).isSome := by
  unfold World.destroyCell
  split
  · exact w.isSome_slotAt?_releaseSlot _ r i
  · rfl
  · rfl

theorem kept_destroyCell_of_ne (w : World n α) (t : ThreadId) {key key' : CellKey}
    (hne : key ≠ key') : (w.destroyCell t key).kept t key' = w.kept t key' := by
  have hset (v : World n α) (cell : Cell n) :
      (v.setCell t key cell).kept t key' = v.kept t key' := by
    rw [kept_eq, cell?_setCell, if_neg fun hsame ↦ hne hsame.2, kept_eq]
  unfold World.destroyCell
  split
  · exact hset _ _
  · exact hset _ _
  · rfl

theorem kept_destroyCell (w : World n α) (t : ThreadId) (key : CellKey) :
    (w.destroyCell t key).kept t key = [] := by
  unfold World.destroyCell
  split
  · next slot borrowed hcell =>
    have hcell : (w.releaseSlot slot).cell? t key = _ := hcell
    exact kept_setCell hcell _
  · next borrowed hcell => exact kept_setCell hcell _
  · next hnone _ =>
    rcases w.kept_cases t key with hkept | ⟨slot, hkept⟩
    · exact hkept
    · unfold kept at hkept
      split at hkept
      · next slot borrowed hcell => exact absurd hcell (hnone slot borrowed)
      · cases hkept

/-- A cell that is destroyed returns its slot. -/
theorem returned_destroyCell (hkept : w.kept t key = [slot])
    (hslot : (w.slotAt? slot.registry slot.index).isSome) :
    (w.destroyCell t key).Returned slot := by
  unfold kept at hkept
  split at hkept
  · next slot' borrowed hcell =>
    obtain rfl := List.singleton_inj.mp hkept
    rw [destroyCell, hcell]
    exact returned_releaseSlot hslot
  · cases hkept

theorem kept_destroyCells (w : World n α) (t : ThreadId) (key : CellKey) :
    (w.destroyCells t).kept t key = [] := by
  have hne : CellKey.ordinary ≠ .processWide := by decide
  cases key with
  | processWide =>
    rw [destroyCells, kept_destroyCell_of_ne _ t hne]
    exact w.kept_destroyCell t .processWide
  | ordinary => exact kept_destroyCell _ t .ordinary

theorem Returned.destroyCells (hw : w.Returned slot) (t : ThreadId) :
    (w.destroyCells t).Returned slot :=
  (hw.destroyCell t .processWide).destroyCell t .ordinary

theorem returned_destroyCells (hkept : w.kept t key = [slot])
    (hslot : (w.slotAt? slot.registry slot.index).isSome) :
    (w.destroyCells t).Returned slot := by
  cases key with
  | processWide => exact (returned_destroyCell hkept hslot).destroyCell t .ordinary
  | ordinary =>
    have hne : CellKey.processWide ≠ .ordinary := by decide
    have hkept' := (w.kept_destroyCell_of_ne t hne).trans hkept
    apply returned_destroyCell hkept'
    rw [isSome_slotAt?_destroyCell]
    exact hslot

/-- A thread that ends returns the slots in its cells. -/
theorem returned_exit (hkept : w.kept t key = [slot])
    (hslot : (w.slotAt? slot.registry slot.index).isSome) :
    (w.exit t []).1.Returned slot ∧ (w.exit t []).1.kept t key = [] := by
  let handed := w.releaseHandles (·.thread = t)
  have hthreads : handed.threads = w.threads := threads_foldl_releaseSlot _ w
  have hkept' : handed.kept t key = [slot] := by
    rw [kept, cell?, hthreads]
    exact hkept
  have hslot' : (handed.slotAt? slot.registry slot.index).isSome := by
    rw [isSome_slotAt?_releaseHandles]
    exact hslot
  refine ⟨(returned_destroyCells hkept' hslot').destroyCells t, ?_⟩
  have hended := ((handed.destroyCells t).destroyCells t).beside_finish t
  rw [kept_eq]
  refine (congrArg (fun cell ↦ (Option.bind cell Cell.slot?).toList) (hended.cell? t key)).trans ?_
  rw [← kept_eq]
  exact kept_destroyCells _ t key

end World

/-- Unless it faults, unregistering leaves nothing in the cell. -/
theorem Machine.kept_of_unregister {w : World n α} {t : ThreadId} {key : CellKey}
    {frames : List (Frame n α)}
    (hturn : ¬ (execute w t (.unregister key) frames).Faulted) :
    (execute w t (.unregister key) frames).world.kept t key = [] := by
  dsimp only [execute] at hturn ⊢
  rcases hcell : w.cell? t key with _ | _ | ⟨_ | slot, _ | _⟩ | _
  case some.live.none.true =>
    rw [hcell] at hturn
    exact absurd trivial hturn
  case some.live.some.true =>
    rw [hcell] at hturn
    exact absurd trivial hturn
  case some.live.some.false =>
    have hreleased : (w.releaseSlot slot).cell? t key = _ := hcell
    exact (World.kept_resume _ t _ frames key).trans (World.kept_setCell hreleased _)
  case some.unused =>
    exact (World.kept_resume _ t _ frames key).trans (World.kept_setCell hcell _)
  case some.live.none.false =>
    exact (World.kept_resume _ t _ frames key).trans (World.kept_setCell hcell _)
  all_goals
    refine (World.kept_resume w t _ frames key).trans ?_
    rw [World.kept_eq, hcell]
    rfl

end Reclaim.Hazard
