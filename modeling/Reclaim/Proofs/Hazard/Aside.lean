import Reclaim.Hazard.Lifecycle

/-!
# Changes beside the books

Most of what happens in a world has nothing to do with what is linked, parked or freed: slots are
claimed, filled, cleared and given up, cells are borrowed, answers are logged. `World.Aside` gathers
what all of these leave as it is, and names the slots that they overwrite.
-/

namespace Reclaim.Hazard

variable {n : Nat} {α : Type}

def Event.started? : Event α → Option Address
  | .freed node => some (.node node)
  | .started object => some (.object object)
  | _ => none

namespace World

/-- The addresses whose deleters were started, the latest first. -/
def started (w : World n α) : List Address := w.log.filterMap Event.started?

def limbo (w : World n α) (r : RegistryId) : LimboList (Entry α) :=
  ((w.registryAt? r).map (·.limbo)).getD {}

def published? (w : World n α) (r : RegistryId) (i : Fin n) : Option Address :=
  (w.registryAt? r).bind fun registry ↦ (registry.slots.get i).published

/-- An address is protected as long as some slot of the registry publishes it. -/
theorem isProtected_iff {w : World n α} {r : RegistryId} {address : Address} :
    w.isProtected r (some address) ↔ ∃ i, w.published? r i = some address := by
  unfold isProtected published?
  cases w.registryAt? r with
  | none => simp
  | some registry =>
    simp only [Option.any_some, Option.bind_some, Registry.isProtected, Vector.any_eq_true,
      decide_eq_true_eq]
    constructor
    · rintro ⟨i, hlt, hslot⟩
      exact ⟨⟨i, hlt⟩, hslot⟩
    · rintro ⟨i, hslot⟩
      exact ⟨i, i.isLt, hslot⟩

theorem published?_ne_of_not_isProtected {w : World n α} {r : RegistryId} {address : Address}
    (hfree : w.isProtected r (some address) = false) (i : Fin n) :
    w.published? r i ≠ some address := by
  intro hslot
  rw [isProtected_iff.mpr ⟨i, hslot⟩] at hfree
  cases hfree

/-- From `w` to `v` nothing was linked, unlinked, parked or freed, and no slot was overwritten but
the touched ones. -/
structure Aside (w : World n α) (touched : List (Handle n)) (v : World n α) : Prop where
  limbos : v.registries.map (·.limbo) = w.registries.map (·.limbo)
  «stacks» : v.stacks = w.stacks
  heap : v.heap = w.heap
  objects : v.objects = w.objects
  cutShort : v.cutShort = w.cutShort
  started : v.started = w.started
  published : ∀ r i, (∀ slot ∈ touched, slot.registry = r → slot.index ≠ i) →
    v.published? r i = w.published? r i

theorem limbo_eq (w : World n α) (r : RegistryId) :
    w.limbo r = ((w.registries.map (·.limbo))[r]?).getD {} := by
  rw [limbo, registryAt?, List.getElem?_map]

theorem length_limbos (w : World n α) :
    (w.registries.map (·.limbo)).length = w.registries.length := List.length_map _

namespace Aside

variable {w v u : World n α} {touched touched' : List (Handle n)}

theorem refl (w : World n α) : w.Aside [] w where
  limbos := rfl
  «stacks» := rfl
  heap := rfl
  objects := rfl
  cutShort := rfl
  started := rfl
  published _ _ _ := rfl

theorem trans (hwv : w.Aside touched v) (hvu : v.Aside touched' u) :
    w.Aside (touched ++ touched') u where
  limbos := hvu.limbos.trans hwv.limbos
  «stacks» := hvu.stacks.trans hwv.stacks
  heap := hvu.heap.trans hwv.heap
  objects := hvu.objects.trans hwv.objects
  cutShort := hvu.cutShort.trans hwv.cutShort
  started := hvu.started.trans hwv.started
  published r i hslots := by
    have hvu' := hvu.published r i fun slot hmem ↦ hslots slot (List.mem_append_right _ hmem)
    have hwv' := hwv.published r i fun slot hmem ↦ hslots slot (List.mem_append_left _ hmem)
    exact hvu'.trans hwv'

theorem limbo (haside : w.Aside touched v) (r : RegistryId) : v.limbo r = w.limbo r := by
  rw [limbo_eq, haside.limbos, ← limbo_eq]

theorem length_registries (haside : w.Aside touched v) :
    v.registries.length = w.registries.length := by
  rw [← v.length_limbos, haside.limbos, w.length_limbos]

theorem stack? (haside : w.Aside touched v) (id : StackId) : v.stack? id = w.stack? id := by
  rw [World.stack?, haside.stacks, World.stack?]

end Aside

theorem get_set_ne (slots : Vector Slot n) {i j : Fin n} (slot : Slot) (hne : i ≠ j) :
    (slots.set i.val slot i.isLt).get j = slots.get j :=
  Vector.getElem_set_ne _ _ (Fin.val_ne_of_ne hne)

theorem get_set_self (slots : Vector Slot n) {i : Fin n} (slot : Slot) :
    (slots.set i.val slot i.isLt).get i = slot :=
  Vector.getElem_set_self _

/-- A registry is changed in its slots alone. -/
theorem aside_modifyRegistry {w : World n α} {r : RegistryId}
    {f : Registry n (Entry α) → Registry n (Entry α)} {touched : List (Handle n)}
    (hlimbo : ∀ registry, w.registryAt? r = some registry → (f registry).limbo = registry.limbo)
    (hslots : ∀ registry, w.registryAt? r = some registry →
      ∀ i, (∀ slot ∈ touched, slot.registry = r → slot.index ≠ i) →
        ((f registry).slots.get i).published = (registry.slots.get i).published) :
    w.Aside touched (w.modifyRegistry r f) where
  limbos := by
    apply List.ext_getElem?
    intro q
    simp only [modifyRegistry, List.getElem?_map, List.getElem?_modify]
    by_cases hq : r = q
    · subst hq
      cases hfound : w.registries[r]? with
      | none => rfl
      | some registry => simp [hlimbo registry hfound]
    · simp [hq]
  «stacks» := rfl
  heap := rfl
  objects := rfl
  cutShort := rfl
  started := rfl
  published q i htouched := by
    simp only [published?, registryAt?, modifyRegistry, List.getElem?_modify]
    by_cases hq : r = q
    · subst hq
      cases hfound : w.registries[r]? with
      | none => rfl
      | some registry => simpa using hslots registry hfound i htouched
    · simp [hq]

theorem aside_publish (w : World n α) (slot : Handle n) (address : Option Address) :
    w.Aside [slot] (w.publish slot address) := by
  apply aside_modifyRegistry
  · intro registry _
    rfl
  · intro registry _ i hne
    exact congrArg Slot.published (get_set_ne _ _ (hne slot List.mem_cons_self rfl))

theorem aside_releaseSlot (w : World n α) (slot : Handle n) :
    w.Aside [slot] (w.releaseSlot slot) := by
  apply aside_modifyRegistry
  · intro registry _
    rfl
  · intro registry _ i hne
    exact congrArg Slot.published (get_set_ne _ _ (hne slot List.mem_cons_self rfl))

/-- Claiming a slot leaves what it publishes. -/
theorem aside_claimSlot {w v : World n α} {r : RegistryId} {t : ThreadId} {slot : Handle n}
    (hclaim : w.claimSlot r t = some (slot, v)) : w.Aside [] v := by
  simp only [claimSlot, Option.bind_eq_bind, Option.bind_eq_some_iff, Option.pure_def,
    Option.some.injEq, Prod.mk.injEq] at hclaim
  obtain ⟨registry, hregistry, ⟨index, claimed⟩, htaken, -, rfl⟩ := hclaim
  apply aside_modifyRegistry
  · intro other hother
    rw [Option.some.inj (hother.symm.trans hregistry)]
    exact Registry.claim_limbo htaken
  · intro other hother i _
    rw [Option.some.inj (hother.symm.trans hregistry)]
    obtain ⟨j, _, hpair⟩ := Option.map_eq_some_iff.mp htaken
    cases hpair
    by_cases hi : index = i
    · subst hi
      exact (congrArg Slot.published (get_set_self _ _)).trans rfl
    · exact congrArg Slot.published (get_set_ne _ _ hi)

theorem aside_modifyThread (w : World n α) (t : ThreadId) (f : Thread n → Thread n) :
    w.Aside [] (w.modifyThread t f) := { Aside.refl w with }

theorem aside_setCell (w : World n α) (t : ThreadId) (key : CellKey) (cell : Cell n) :
    w.Aside [] (w.setCell t key cell) := w.aside_modifyThread t _

theorem aside_addHandle (w : World n α) (slot : Handle n) : w.Aside [] (w.addHandle slot).2 :=
  { Aside.refl w with }

theorem aside_removeHandle (w : World n α) (handle : HandleId) :
    w.Aside [] (w.removeHandle handle) := { Aside.refl w with }

theorem aside_spawn (w : World n α) : w.Aside [] w.spawn := { Aside.refl w with }

theorem aside_record (w : World n α) (event : Event α) (hevent : event.started? = none) :
    w.Aside [] (w.record event) :=
  { Aside.refl w with started := List.filterMap_cons_none hevent }

theorem aside_note (w : World n α) (answer : Answer α) : w.Aside [] (w.note answer) := by
  cases answer with
  | popped value => exact w.aside_record _ rfl
  | reclaimed freed => exact w.aside_record _ rfl
  | _ => exact .refl w

def handlesOf (w : World n α) (t : ThreadId) : List (Handle n) :=
  w.handles.filterMap fun handle ↦ handle.filter (·.thread = t)

def kept (w : World n α) (t : ThreadId) (key : CellKey) : List (Handle n) :=
  match w.cell? t key with
  | some (.live (some slot) _) => [slot]
  | _ => []

theorem aside_foldl_releaseSlot (slots : List (Handle n)) (w : World n α) :
    w.Aside slots (slots.foldl releaseSlot w) := by
  induction slots generalizing w with
  | nil => exact .refl w
  | cons slot rest ih => exact (w.aside_releaseSlot slot).trans (ih _)

theorem aside_releaseHandles (w : World n α) (t : ThreadId) :
    w.Aside (w.handlesOf t) (w.releaseHandles (·.thread = t)) :=
  { w.aside_foldl_releaseSlot (w.handlesOf t) with }

theorem aside_destroyCell (w : World n α) (t : ThreadId) (key : CellKey) :
    w.Aside (w.kept t key) (w.destroyCell t key) := by
  unfold kept destroyCell
  cases w.cell? t key with
  | none => exact .refl w
  | some cell =>
    cases cell with
    | live slot borrowed =>
      cases slot with
      | none => exact w.aside_setCell t key _
      | some slot => exact (w.aside_releaseSlot slot).trans (aside_setCell _ t key _)
    | _ => exact .refl w

end World

/-- The slot that is given up at the end of a pop that claimed it. -/
def Hold.slots : Hold n → List (Handle n)
  | .temporary slot => [slot]
  | _ => []

theorem World.aside_giveBack (w : World n α) (t : ThreadId) (hold : Hold n) :
    w.Aside hold.slots (w.giveBack t hold) := by
  cases hold with
  | lent => exact .refl w
  | cell key => exact w.aside_modifyThread t _
  | temporary slot => exact w.aside_releaseSlot slot

end Reclaim.Hazard
