import Reclaim.Proofs.Hazard.Registration

/-!
# Commands that fail

A claim fails if all slots are taken, a pop if it needs a slot and all are taken or if its slot
belongs to another registry, and to retire null fails always. Each of them finds this out before it
has changed anything that others could see: a pop may have looked at a cell for the first time, but
neither slots nor lists nor stacks have been touched. A fault then unwinds what is under way, and
at top level that is nothing.
-/

namespace Reclaim.Hazard

variable {n : Nat} {α : Type}

/-- Nothing has changed but that a cell may be in use that was not used so far, and keeps nothing
as before. -/
structure World.Unchanged (w v : World n α) : Prop where
  registries : v.registries = w.registries
  «stacks» : v.stacks = w.stacks
  heap : v.heap = w.heap
  objects : v.objects = w.objects
  handles : v.handles = w.handles
  cutShort : v.cutShort = w.cutShort
  log : v.log = w.log
  kept : ∀ t key, v.kept t key = w.kept t key
  cells : ∀ t key, v.cell? t key = w.cell? t key ∨
    w.cell? t key = some .unused ∧ v.cell? t key = some (.live none false)

/-- The command faults, within any frames, and leaves everything as it was before they unwind. At
top level nothing unwinds. -/
structure World.FailsWith (w : World n α) (t : ThreadId) (command : Command α) (fault : Fault)
    (v : World n α) : Prop where
  unchanged : w.Unchanged v
  inside : ∀ frames, Machine.execute w t command frames = Machine.raise v t frames fault
  run : w.run t command = (v, .error fault)

def Registry.Full (registry : Registry n (Entry α)) : Prop :=
  ∀ i, (registry.slots.get i).owner ≠ none

namespace World

variable {w : World n α} {t : ThreadId} {key : CellKey} {r : RegistryId} {id : StackId}
  {stack : Stack} {registry : Registry n (Entry α)} {slot : Handle n}

namespace Unchanged

theorem refl (w : World n α) : w.Unchanged w :=
  ⟨rfl, rfl, rfl, rfl, rfl, rfl, rfl, fun _ _ ↦ rfl, fun _ _ ↦ Or.inl rfl⟩

/-- What keeps all but the cells, and starts at most the use of one, leaves all unchanged. -/
theorem of_cells {threads : List (Thread n)}
    (hcells : ∀ t key, ({ w with threads } : World n α).cell? t key = w.cell? t key ∨
      w.cell? t key = some .unused ∧
        ({ w with threads } : World n α).cell? t key = some (.live none false)) :
    w.Unchanged { w with threads } := by
  refine ⟨rfl, rfl, rfl, rfl, rfl, rfl, rfl, fun t key ↦ ?_, hcells⟩
  rw [kept_eq, kept_eq]
  rcases hcells t key with hsame | ⟨hunused, hlive⟩
  · rw [hsame]
  · rw [hunused, hlive]
    rfl

end Unchanged

theorem FailsWith.of_execute {command : Command α} {fault : Fault} {v : World n α}
    (hv : w.Unchanged v)
    (hexecute : ∀ frames, Machine.execute w t command frames = Machine.raise v t frames fault) :
    w.FailsWith t command fault v := by
  refine ⟨hv, hexecute, ?_⟩
  unfold World.run
  rw [hexecute []]
  rfl

theorem fails_claim (hregistry : w.registryAt? r = some registry) (hfull : registry.Full)
    (t : ThreadId) :
    (∀ frames, Machine.execute w t (.tryClaim r) frames =
      Machine.resume w t (.exhausted n) frames) ∧
    w.FailsWith t (.claim r) (.noFreeSlot n) w := by
  have hnone : w.claimSlot r t = none := (claimSlot_eq_none hregistry).mpr hfull
  refine ⟨fun frames ↦ ?_, .of_execute (.refl w) fun frames ↦ ?_⟩
  · rw [Machine.execute, hnone, hregistry]
    rfl
  · rw [Machine.execute, hnone, hregistry]
    rfl

theorem claims_alike (hregistry : w.registryAt? r = some registry) (hroom : ¬ registry.Full)
    (t : ThreadId) :
    ∃ v handle, ∀ command ∈ [Command.tryClaim r, .claim r], ∀ frames,
      Machine.execute w t command frames = Machine.resume v t (.claimed handle) frames := by
  cases hclaim : w.claimSlot r t with
  | none => exact absurd ((claimSlot_eq_none hregistry).mp hclaim) hroom
  | some claimed =>
    refine ⟨(claimed.2.addHandle claimed.1).2, (claimed.2.addHandle claimed.1).1, ?_⟩
    refine List.forall_mem_cons.mpr ⟨fun frames ↦ ?_, List.forall_mem_singleton.mpr fun frames ↦ ?_⟩
    all_goals rw [Machine.execute, hclaim]

/-- A cell that keeps nothing comes into use with nothing to keep. -/
theorem Unchanged.setCell {cell : Cell n} (hcell : w.cell? t key = some cell)
    (hvacant : cell.Vacant) (hfree : cell ≠ .live none true) :
    w.Unchanged (w.setCell t key (.live none false)) := by
  refine .of_cells fun t' key' ↦ ?_
  have hafter : ({ w with threads := _ } : World n α).cell? t' key' = _ :=
    w.cell?_setCell t key (.live none false) t' key'
  rw [hafter]
  split
  · next hsame =>
    rw [← hsame.1, ← hsame.2, hcell]
    rcases cell with _ | ⟨_ | slot, _ | _⟩ | _
    case unused => exact Or.inr ⟨rfl, rfl⟩
    case live.none.false => exact Or.inl rfl
    case live.none.true => exact absurd rfl hfree
    all_goals cases hvacant
  · exact Or.inl rfl

theorem fails_pop_of_full {cell : Cell n} (hstack : w.stack? id = some stack)
    (hregistry : w.registryAt? (key.registry stack) = some registry) (hfull : registry.Full)
    (hcell : w.cell? t key = some cell) (hkept : cell.slot? = none)
    (hfree : cell ≠ .live none true) :
    ∃ v, w.FailsWith t (.pop key id) (.noFreeSlot n) v := by
  have hnone : w.claimSlot (key.registry stack) t = none := (claimSlot_eq_none hregistry).mpr hfull
  obtain ⟨v, hv, -, hpop⟩ := Machine.popImplicit_of_full hcell hkept hfree hnone
  refine ⟨v, .of_execute ?_ fun frames ↦ ?_⟩
  · rcases hv with rfl | ⟨hvacant, rfl⟩
    · exact .refl v
    · exact .setCell hcell hvacant hfree
  · rw [Machine.execute_pop hstack]
    exact hpop id frames

theorem fails_popUsing {h : HandleId} (hstack : w.stack? id = some stack)
    (hhandle : w.handle? h = some slot) (hforeign : slot.registry ≠ stack.registry)
    (t : ThreadId) : w.FailsWith t (.popUsing id h) .foreignSlot w := by
  refine .of_execute (.refl w) fun frames ↦ ?_
  rw [Machine.execute, hstack, hhandle]
  exact if_pos hforeign

theorem fails_pop_of_foreign (hstack : w.stack? id = some stack)
    (hcell : w.cell? t key = some (.live (some slot) false))
    (hforeign : slot.registry ≠ stack.registry) :
    ∃ v, w.FailsWith t (.pop key id) .foreignSlot v := by
  have hlent := cell?_setCell_self hcell (.live (some slot) true)
  have hafter :
      w.Unchanged ((w.setCell t key (.live (some slot) true)).setBorrowed t key false) := by
    refine .of_cells fun t' key' ↦ Or.inl ?_
    change ((w.setCell t key (.live (some slot) true)).setBorrowed t key false).cell? t' key' = _
    rw [setBorrowed_of_live hlent, cell?_setCell, cell?_setCell]
    split
    · next hsame =>
      rw [← hsame.1, ← hsame.2, hcell]
      rfl
    · rfl
  refine ⟨_, .of_execute hafter fun frames ↦ ?_⟩
  rw [Machine.execute_pop hstack, Machine.popImplicit, hcell]
  exact if_pos hforeign

end World

section

variable [Destructor α] {m : Machine n α} {moves : List (Move n α)}

/-- All slots being taken, a claim that may fail answers so, and one that may not fails, as does a
pop of a thread that keeps no slot; as long as one is free, both claims take the same. A pop with a
slot of another registry fails, whether it is given the slot or finds it in its cell, and whatever
is on the stack. To retire null fails. None of these changes anything. -/
theorem failures_change_nothing (hrun : Run Machine.empty moves m) (t : ThreadId) :
    (∀ r registry, m.world.registryAt? r = some registry →
      (registry.Full →
        (∀ frames, Machine.execute m.world t (.tryClaim r) frames =
          Machine.resume m.world t (.exhausted n) frames) ∧
        m.world.FailsWith t (.claim r) (.noFreeSlot n) m.world) ∧
      (¬ registry.Full → ∃ v handle, ∀ command ∈ [Command.tryClaim r, .claim r], ∀ frames,
        Machine.execute m.world t command frames =
          Machine.resume v t (.claimed handle) frames)) ∧
    (∀ key id stack registry, m.world.stack? id = some stack →
      m.world.registryAt? (key.registry stack) = some registry → registry.Full →
      (m.world.cell? t key).isSome → m.world.kept t key = [] →
        ∃ v, m.world.FailsWith t (.pop key id) (.noFreeSlot n) v) ∧
    (∀ id h stack slot, m.world.stack? id = some stack → m.world.handle? h = some slot →
      slot.registry ≠ stack.registry →
        m.world.FailsWith t (.popUsing id h) .foreignSlot m.world) ∧
    (∀ key id stack slot, m.world.stack? id = some stack →
      m.world.cell? t key = some (.live (some slot) false) → slot.registry ≠ stack.registry →
        ∃ v, m.world.FailsWith t (.pop key id) .foreignSlot v) ∧
    ∀ r, m.world.FailsWith t (.retire r none) .nullRetired m.world := by
  refine ⟨?_, ?_, ?_, ?_, fun r ↦ .of_execute (.refl _) fun _ ↦ rfl⟩
  · intro r registry hregistry
    exact ⟨fun hfull ↦ World.fails_claim hregistry hfull t,
      fun hroom ↦ World.claims_alike hregistry hroom t⟩
  · intro key id stack registry hstack hregistry hfull hcell hkept
    obtain ⟨cell, hcell, hnone, hfree⟩ := hrun.exists_cell hcell hkept
    exact World.fails_pop_of_full hstack hregistry hfull hcell hnone hfree
  · intro id h stack slot hstack hhandle hforeign
    exact World.fails_popUsing hstack hhandle hforeign t
  · intro key id stack slot hstack hcell hforeign
    exact World.fails_pop_of_foreign hstack hcell hforeign

/-- A thread claims the only slot of one registry and keeps the only slot of another. -/
def denials : List (Deed Nat) :=
  [.addRegistry, .addRegistry, .addStack 0, .addStack 1, .spawn, .issue 0 (.push 0 5),
    .issue 0 (.tryClaim 0), .issue 0 (.pop .ordinary 1)]

def denied : Machine 1 Nat := (Machine.empty.follow denials).2

/-- On both stacks a pop with the other registry's slot fails, though one of them is empty. A pop
through the unused cell finds no slot. -/
theorem failures_change_nothing_denied :
    denied.world.FailsWith 0 (.claim 0) (.noFreeSlot 1) denied.world ∧
    (∃ v, denied.world.FailsWith 0 (.pop .processWide 0) (.noFreeSlot 1) v) ∧
    denied.world.FailsWith 0 (.popUsing 1 0) .foreignSlot denied.world ∧
    (∃ v, denied.world.FailsWith 0 (.pop .ordinary 0) .foreignSlot v) ∧
    denied.world.FailsWith 0 (.retire 0 none) .nullRetired denied.world := by
  have hrun : Run Machine.empty _ denied := Machine.empty.run_follow denials
  have hframes : denied.frames.isEmpty := by decide +kernel
  obtain ⟨registry, hregistry⟩ := Option.isSome_iff_exists.mp
    (show (denied.world.registryAt? 0).isSome by decide +kernel)
  have hfull : registry.Full := (World.claimSlot_eq_none hregistry).mp
    (Option.isNone_iff_eq_none.mp (show (denied.world.claimSlot 0 0).isNone by decide +kernel))
  obtain ⟨lower, hlower, hhome⟩ := Option.map_eq_some_iff.mp
    (show denied.world.home? 0 = some 0 by decide +kernel)
  obtain ⟨upper, hupper, hhome'⟩ := Option.map_eq_some_iff.mp
    (show denied.world.home? 1 = some 1 by decide +kernel)
  have hkept := hrun.cell?_of_kept (List.isEmpty_iff.mp hframes)
    (show denied.world.kept 0 .ordinary = [⟨1, 0, 0⟩] by decide +kernel)
  obtain ⟨hclaims, hpops, hgiven, hfound, hnull⟩ := failures_change_nothing hrun 0
  refine ⟨((hclaims 0 registry hregistry).1 hfull).2, ?_, ?_, ?_, hnull 0⟩
  · exact hpops .processWide 0 lower registry hlower hregistry hfull
      (by decide +kernel) (by decide +kernel)
  · refine hgiven 1 0 upper ⟨0, 0, 0⟩ hupper (by decide +kernel) ?_
    rw [hhome']
    decide
  · refine hfound .ordinary 0 lower ⟨1, 0, 0⟩ hlower hkept ?_
    rw [hhome]
    decide

end

end Reclaim.Hazard
