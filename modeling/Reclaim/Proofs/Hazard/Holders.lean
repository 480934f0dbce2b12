import Mathlib.Data.List.FinRange
import Reclaim.Proofs.Hazard.Protection
import Reclaim.Proofs.Hazard.Seats

/-!
# Who holds the slots

The slots of a world are held by a list of handles if every owner of a slot has exactly one handle
there and slots without an owner publish nothing. Claiming, giving up and publishing keep the list
right, so that it tells what the registries answer: how many slots are claimed, what is protected,
and which slot is claimed next.
-/

namespace Reclaim.Hazard

variable {n : Nat} {α : Type}

namespace World

variable {w v : World n α} {r q : RegistryId} {i j : Fin n} {slot : Handle n}
  {held held' : List (Handle n)}

def slotAt? (w : World n α) (r : RegistryId) (i : Fin n) : Option Slot :=
  (w.registryAt? r).map fun registry ↦ registry.slots.get i

def owner? (w : World n α) (r : RegistryId) (i : Fin n) : Option ThreadId :=
  (w.slotAt? r i).bind (·.owner)

theorem published?_eq (w : World n α) (r : RegistryId) (i : Fin n) :
    w.published? r i = (w.slotAt? r i).bind (·.published) := by
  rw [published?, slotAt?, Option.bind_map]
  rfl

theorem slotAt?_modifyRegistry {f : Registry n (Entry α) → Registry n (Entry α)} {g : Slot → Slot}
    (hslots : ∀ registry, w.registryAt? r = some registry →
      (f registry).slots = registry.slots.set i.val (g (registry.slots.get i)) i.isLt)
    (q : RegistryId) (j : Fin n) :
    (w.modifyRegistry r f).slotAt? q j =
      if r = q ∧ i = j then (w.slotAt? q j).map g else w.slotAt? q j := by
  simp only [slotAt?, registryAt?, modifyRegistry, List.getElem?_modify]
  by_cases hq : r = q
  · subst hq
    cases hfound : w.registries[r]? with
    | none => simp
    | some registry =>
      simp only [if_true, Option.map_eq_map, Option.map_some, hslots registry hfound, true_and]
      by_cases hi : i = j
      · subst hi
        rw [if_pos rfl, get_set_self]
      · rw [if_neg hi, get_set_ne _ _ hi]
  · simp [hq]

theorem slotAt?_releaseSlot (w : World n α) (slot : Handle n) (q : RegistryId) (j : Fin n) :
    (w.releaseSlot slot).slotAt? q j =
      if slot.registry = q ∧ slot.index = j then (w.slotAt? q j).map fun _ ↦ {}
      else w.slotAt? q j :=
  slotAt?_modifyRegistry (fun _ _ ↦ rfl) q j

theorem slotAt?_publish (w : World n α) (slot : Handle n) (address : Option Address)
    (q : RegistryId) (j : Fin n) :
    (w.publish slot address).slotAt? q j =
      if slot.registry = q ∧ slot.index = j then
        (w.slotAt? q j).map fun slot ↦ { slot with published := address }
      else w.slotAt? q j :=
  slotAt?_modifyRegistry (fun _ _ ↦ rfl) q j

theorem slotAt?_congr (hslots : v.registries.map (·.slots) = w.registries.map (·.slots))
    (q : RegistryId) (j : Fin n) : v.slotAt? q j = w.slotAt? q j := by
  have hat (u : World n α) : u.slotAt? q j = (u.registries.map (·.slots))[q]?.map (·.get j) := by
    rw [slotAt?, registryAt?, List.getElem?_map, Option.map_map]
    rfl
  rw [hat, hat, hslots]

/-- The lowest slot of a registry that nobody owns. -/
structure LowestFree (registry : Registry n (Entry α)) (i : Fin n) : Prop where
  free : (registry.slots.get i).owner = none
  lowest : ∀ j < i, (registry.slots.get j).owner ≠ none

theorem lowestFree_of_findFinIdx? {registry : Registry n (Entry α)}
    (hfind : registry.slots.findFinIdx? (·.owner.isNone) = some i) : LowestFree registry i where
  free := owner_of_findFinIdx? hfind
  lowest := by
    obtain ⟨⟨slots, rfl⟩, limbo⟩ := registry
    obtain ⟨k, hk, rfl⟩ := Option.map_eq_some_iff.mp hfind
    intro j hj hnone
    exact (Array.findFinIdx?_eq_some_iff.mp hk).2 j hj (Option.isNone_iff_eq_none.mpr hnone)

/-- A claim takes the lowest free slot. -/
theorem exists_of_claimSlot {t : ThreadId} (hclaim : w.claimSlot r t = some (slot, v)) :
    ∃ registry, w.registryAt? r = some registry ∧ LowestFree registry slot.index ∧
      slot.registry = r ∧ slot.thread = t ∧ v = w.modifyRegistry r fun _ ↦
        { registry with
          slots := registry.slots.set slot.index.val
            { registry.slots.get slot.index with owner := some t } slot.index.isLt } := by
  simp only [claimSlot, Option.bind_eq_bind, Option.bind_eq_some_iff, Option.pure_def,
    Option.some.injEq, Prod.mk.injEq] at hclaim
  obtain ⟨registry, hregistry, ⟨i, claimed⟩, htaken, rfl, rfl⟩ := hclaim
  obtain ⟨j, hfind, hpair⟩ := Option.map_eq_some_iff.mp htaken
  cases hpair
  exact ⟨registry, hregistry, lowestFree_of_findFinIdx? hfind, rfl, rfl, rfl⟩

/-- A registry lets nobody claim a slot only if somebody owns each. -/
theorem claimSlot_eq_none {registry : Registry n (Entry α)} {t : ThreadId}
    (hregistry : w.registryAt? r = some registry) :
    w.claimSlot r t = none ↔ ∀ i, (registry.slots.get i).owner ≠ none := by
  have hnone : w.claimSlot r t = none ↔
      registry.slots.findFinIdx? (·.owner.isNone) = none := by
    rw [claimSlot, hregistry]
    simp only [Registry.claim, Option.bind_eq_bind, Option.bind_some, Option.pure_def]
    cases registry.slots.findFinIdx? (·.owner.isNone) <;> simp
  rw [hnone, Vector.findFinIdx?_eq_none_iff]
  constructor
  · intro howned i hfree
    exact howned _ (Vector.getElem_mem i.isLt) (Option.isNone_iff_eq_none.mpr hfree)
  · intro howned slot hmem hfree
    obtain ⟨i, hi, rfl⟩ := Vector.getElem_of_mem hmem
    exact howned ⟨i, hi⟩ (Option.isNone_iff_eq_none.mp hfree)

theorem slotAt?_of_claimSlot {t : ThreadId} (hclaim : w.claimSlot r t = some (slot, v))
    (q : RegistryId) (j : Fin n) :
    v.slotAt? q j =
      if slot.registry = q ∧ slot.index = j then
        (w.slotAt? q j).map fun found ↦ { found with owner := some slot.thread }
      else w.slotAt? q j := by
  obtain ⟨registry, hregistry, -, rfl, rfl, rfl⟩ := exists_of_claimSlot hclaim
  apply slotAt?_modifyRegistry
  intro other hother
  rw [Option.some.inj (hother.symm.trans hregistry)]

theorem exists_slotAt?_of_claimSlot {t : ThreadId} (hclaim : w.claimSlot r t = some (slot, v)) :
    ∃ found, w.slotAt? slot.registry slot.index = some found ∧ found.owner = none := by
  obtain ⟨registry, hregistry, hlowest, rfl, -, -⟩ := exists_of_claimSlot hclaim
  exact ⟨_, by rw [slotAt?, hregistry]; rfl, hlowest.free⟩

structure HeldBy (w : World n α) (held : List (Handle n)) : Prop where
  nodup : held.Nodup
  owner : ∀ slot, slot ∈ held ↔ w.owner? slot.registry slot.index = some slot.thread
  idle : ∀ r i, w.owner? r i = none → w.published? r i = none

theorem heldBy_empty : ({} : World n α).HeldBy [] := by
  have hnone (r : RegistryId) (i : Fin n) : ({} : World n α).slotAt? r i = none := rfl
  constructor
  · exact List.nodup_nil
  · intro slot
    rw [owner?, hnone]
    exact ⟨nofun, nofun⟩
  · intro r i _
    rw [published?_eq, hnone]
    rfl

namespace HeldBy

theorem perm (hw : w.HeldBy held) (hperm : held.Perm held') : w.HeldBy held' where
  nodup := hperm.nodup_iff.mp hw.nodup
  owner slot := hperm.mem_iff.symm.trans (hw.owner slot)
  idle := hw.idle

theorem congr (hw : w.HeldBy held) (hslots : ∀ r i, v.slotAt? r i = w.slotAt? r i) :
    v.HeldBy held where
  nodup := hw.nodup
  owner slot := by
    rw [owner?, hslots]
    exact hw.owner slot
  idle r i := by
    rw [owner?, published?_eq, hslots, ← published?_eq]
    exact hw.idle r i

/-- Two handles of one slot are the same. -/
theorem eq_of_same {slot slot' : Handle n} (hw : w.HeldBy held) (hmem : slot ∈ held)
    (hmem' : slot' ∈ held) (hregistry : slot.registry = slot'.registry)
    (hindex : slot.index = slot'.index) : slot = slot' := by
  have howner := (hw.owner slot).mp hmem
  rw [hregistry, hindex, (hw.owner slot').mp hmem'] at howner
  obtain ⟨r, i, t⟩ := slot
  obtain rfl : r = slot'.registry := hregistry
  obtain rfl : i = slot'.index := hindex
  obtain rfl : slot'.thread = t := Option.some.inj howner
  rfl

theorem claim {t : ThreadId} (hw : w.HeldBy held) (hclaim : w.claimSlot r t = some (slot, v)) :
    v.HeldBy (slot :: held) := by
  have hslots := slotAt?_of_claimSlot hclaim
  obtain ⟨found, hfound, hfree⟩ := exists_slotAt?_of_claimSlot hclaim
  have hbefore : w.owner? slot.registry slot.index = none := by
    rw [owner?, hfound]
    exact hfree
  have hafter : v.owner? slot.registry slot.index = some slot.thread := by
    rw [owner?, hslots, if_pos ⟨rfl, rfl⟩, hfound]
    rfl
  constructor
  · refine List.nodup_cons.mpr ⟨fun hmem ↦ ?_, hw.nodup⟩
    cases hbefore.symm.trans ((hw.owner slot).mp hmem)
  · intro other
    by_cases hsame : slot.registry = other.registry ∧ slot.index = other.index
    · have hother := hafter
      rw [hsame.1, hsame.2] at hbefore hother
      obtain ⟨q, j, t'⟩ := other
      rw [List.mem_cons, hw.owner, hbefore, hother]
      obtain ⟨r', i, t⟩ := slot
      obtain ⟨rfl, rfl⟩ := hsame
      simp [eq_comm]
    · have hne : other ≠ slot := fun heq ↦ hsame ⟨heq ▸ rfl, heq ▸ rfl⟩
      rw [List.mem_cons, or_iff_right hne, owner?, hslots, if_neg hsame]
      exact hw.owner other
  · intro q j hnone
    rw [published?_eq, hslots]
    split
    · next hsame =>
      obtain ⟨rfl, rfl⟩ := hsame
      rw [hafter] at hnone
      cases hnone
    · next hother =>
      rw [owner?, hslots, if_neg hother] at hnone
      rw [← published?_eq]
      exact hw.idle q j hnone

theorem release (hw : w.HeldBy (slot :: held)) : (w.releaseSlot slot).HeldBy held := by
  have hslots := w.slotAt?_releaseSlot slot
  obtain ⟨hnot, hnodup⟩ := List.nodup_cons.mp hw.nodup
  constructor
  · exact hnodup
  · intro other
    by_cases hsame : slot.registry = other.registry ∧ slot.index = other.index
    · have hgone : other ∉ held := by
        intro hmem
        rw [← hw.eq_of_same List.mem_cons_self (List.mem_cons_of_mem slot hmem) hsame.1 hsame.2]
          at hmem
        exact hnot hmem
      rw [owner?, hslots, if_pos hsame]
      refine ⟨fun hmem ↦ absurd hmem hgone, fun howner ↦ ?_⟩
      rw [Option.bind_map] at howner
      obtain ⟨found, -, hnone⟩ := Option.bind_eq_some_iff.mp howner
      cases hnone
    · have hne : other ≠ slot := fun heq ↦ hsame ⟨heq ▸ rfl, heq ▸ rfl⟩
      rw [owner?, hslots, if_neg hsame, ← owner?, ← hw.owner, List.mem_cons, or_iff_right hne]
  · intro q j hnone
    rw [published?_eq, hslots]
    split
    · cases w.slotAt? q j <;> rfl
    · next hother =>
      rw [owner?, hslots, if_neg hother] at hnone
      rw [← published?_eq]
      exact hw.idle q j hnone

theorem publish (hw : w.HeldBy held) (hmem : slot ∈ held) (address : Option Address) :
    (w.publish slot address).HeldBy held := by
  have hslots := w.slotAt?_publish slot address
  have howner (q : RegistryId) (j : Fin n) :
      (w.publish slot address).owner? q j = w.owner? q j := by
    rw [owner?, hslots]
    split
    · rw [Option.bind_map]
      rfl
    · rfl
  constructor
  · exact hw.nodup
  · intro other
    rw [howner]
    exact hw.owner other
  · intro q j hnone
    rw [howner] at hnone
    rw [published?_eq, hslots, if_neg, ← published?_eq]
    · exact hw.idle q j hnone
    · rintro ⟨rfl, rfl⟩
      rw [(hw.owner slot).mp hmem] at hnone
      cases hnone

theorem foldl_release {slots : List (Handle n)} (hw : w.HeldBy (slots ++ held)) :
    (slots.foldl releaseSlot w).HeldBy held := by
  induction slots generalizing w with
  | nil => exact hw
  | cons slot rest ih => exact ih hw.release

theorem addRegistry (hw : w.HeldBy held) : w.addRegistry.HeldBy held := by
  -- A new registry has slots now, but none that is owned.
  have howner (r : RegistryId) (i : Fin n) : w.addRegistry.owner? r i = w.owner? r i := by
    simp only [owner?, slotAt?, registryAt?, World.addRegistry, List.getElem?_append]
    split
    · rfl
    · next hge =>
      rw [List.getElem?_eq_none (Nat.not_lt.mp hge), List.getElem?_singleton]
      split
      · exact congrArg Slot.owner (Vector.getElem_replicate _)
      · rfl
  constructor
  · exact hw.nodup
  · intro slot
    rw [howner]
    exact hw.owner slot
  · intro r i hfree
    rw [howner] at hfree
    rw [published?_addRegistry]
    exact hw.idle r i hfree

end HeldBy

/-! ## What registries answer -/

def onRegistry (held : List (Handle n)) (r : RegistryId) : List (Handle n) :=
  held.filter (·.registry = r)

theorem mem_onRegistry : slot ∈ onRegistry held r ↔ slot ∈ held ∧ slot.registry = r := by
  rw [onRegistry, List.mem_filter, decide_eq_true_eq]

section

variable {registry : Registry n (Entry α)}

theorem owner?_of_registryAt? (hregistry : w.registryAt? r = some registry) (i : Fin n) :
    w.owner? r i = (registry.slots.get i).owner := by
  rw [owner?, slotAt?, hregistry]
  rfl

namespace HeldBy

theorem owner_iff (hw : w.HeldBy held) (hregistry : w.registryAt? r = some registry)
    (i : Fin n) (t : ThreadId) : (registry.slots.get i).owner = some t ↔ ⟨r, i, t⟩ ∈ held := by
  rw [hw.owner, owner?_of_registryAt? hregistry]

/-- A slot has an owner if and only if one of the handles is there. -/
theorem owner_ne_none_iff (hw : w.HeldBy held) (hregistry : w.registryAt? r = some registry)
    (i : Fin n) :
    (registry.slots.get i).owner ≠ none ↔ ∃ slot ∈ onRegistry held r, slot.index = i := by
  rw [Option.ne_none_iff_exists']
  constructor
  · rintro ⟨t, howner⟩
    exact ⟨⟨r, i, t⟩, mem_onRegistry.mpr ⟨(hw.owner_iff hregistry i t).mp howner, rfl⟩, rfl⟩
  · rintro ⟨⟨q, j, t⟩, hmem, rfl⟩
    obtain ⟨hheld, hq⟩ := mem_onRegistry.mp hmem
    obtain rfl : q = r := hq
    exact ⟨t, (hw.owner_iff hregistry j t).mpr hheld⟩

theorem nodup_index (hw : w.HeldBy held) (r : RegistryId) :
    ((onRegistry held r).map (·.index)).Nodup := by
  refine List.Nodup.map_on ?_ (hw.nodup.filter _)
  intro slot hmem slot' hmem' hindex
  obtain ⟨hslot, hr⟩ := mem_onRegistry.mp hmem
  obtain ⟨hslot', hr'⟩ := mem_onRegistry.mp hmem'
  exact hw.eq_of_same hslot hslot' (hr.trans hr'.symm) hindex

theorem claimed_eq (hw : w.HeldBy held) (hregistry : w.registryAt? r = some registry) :
    registry.claimed = (onRegistry held r).length := by
  have hslots : registry.slots.toList = (List.finRange n).map registry.slots.get := by
    rw [List.finRange, List.map_ofFn, ← Vector.toList_ofFn]
    exact congrArg Vector.toList (Vector.ext fun i hi ↦ by
      rw [Vector.getElem_ofFn]
      rfl)
  have hindices : ((onRegistry held r).map (·.index)).Perm
      ((List.finRange n).filter fun i ↦ (registry.slots.get i).owner.isSome) := by
    rw [List.perm_ext_iff_of_nodup (hw.nodup_index r) ((List.nodup_finRange n).filter _)]
    intro i
    rw [List.mem_map, List.mem_filter, Option.isSome_iff_ne_none,
      hw.owner_ne_none_iff hregistry i]
    exact ⟨fun hmem ↦ ⟨List.mem_finRange i, hmem⟩, fun hmem ↦ hmem.2⟩
  calc registry.claimed = registry.slots.toList.countP (·.owner.isSome) :=
        Vector.countP_toList.symm
    _ = ((List.finRange n).filter fun i ↦ (registry.slots.get i).owner.isSome).length := by
        rw [hslots, List.countP_map, List.countP_eq_length_filter]
        rfl
    _ = (onRegistry held r).length := by rw [← hindices.length_eq, List.length_map]

theorem length_le (hw : w.HeldBy held) (hregistry : w.registryAt? r = some registry) :
    (onRegistry held r).length ≤ n := by
  rw [← hw.claimed_eq hregistry]
  exact Vector.countP_le_size

/-- An address is protected if and only if the slot of some handle publishes it. -/
theorem isProtected_iff (hw : w.HeldBy held) (hregistry : w.registryAt? r = some registry)
    (a : Address) : registry.isProtected (some a) ↔
      ∃ slot ∈ onRegistry held r, (registry.slots.get slot.index).published = some a := by
  have hprotected : registry.isProtected (some a) ↔
      ∃ i, (registry.slots.get i).published = some a := by
    have hworld : registry.isProtected (some a) = w.isProtected r (some a) := by
      rw [isProtected, hregistry]
      rfl
    rw [hworld, World.isProtected_iff]
    simp only [published?, hregistry, Option.bind_some]
  rw [hprotected]
  constructor
  · rintro ⟨i, hpublished⟩
    have howned : (registry.slots.get i).owner ≠ none := by
      intro hnone
      have hidle := hw.idle r i ((owner?_of_registryAt? hregistry i).trans hnone)
      rw [published?, hregistry] at hidle
      cases hpublished.symm.trans hidle
    obtain ⟨slot, hmem, rfl⟩ := (hw.owner_ne_none_iff hregistry i).mp howned
    exact ⟨slot, hmem, hpublished⟩
  · rintro ⟨slot, -, hpublished⟩
    exact ⟨slot.index, hpublished⟩

/-- Nobody can claim a slot if and only if there are as many handles as slots. -/
theorem claimSlot_eq_none_iff (hw : w.HeldBy held) (hregistry : w.registryAt? r = some registry)
    (t : ThreadId) : w.claimSlot r t = none ↔ (onRegistry held r).length = n := by
  rw [claimSlot_eq_none hregistry, ← hw.claimed_eq hregistry, Registry.claimed,
    Vector.countP_eq_size]
  constructor
  · intro howned slot hmem
    obtain ⟨i, hi, rfl⟩ := Vector.getElem_of_mem hmem
    exact Option.isSome_iff_ne_none.mpr (howned ⟨i, hi⟩)
  · intro howned i
    exact Option.isSome_iff_ne_none.mp (howned _ (Vector.getElem_mem i.isLt))

end HeldBy

end

end World

end Reclaim.Hazard
