import Reclaim.Proofs.Hazard.Service

/-!
# Slots for threads that pop

A thread pops with the slot that it keeps in its cell, and claims a free one if it keeps none. A pop
therefore succeeds as long as there are free slots for all threads that keep none, and it leaves
this so: what it takes from the free slots it keeps. While it retires its node and reclaims, nothing
changes about slots and cells, provided that the deleters that wait do nothing but free.
-/

namespace Reclaim.Hazard

variable {n : Nat} {α : Type}

namespace World

variable {w v u : World n α} {r : RegistryId} {t : ThreadId} {threads : List ThreadId}

def owners (w : World n α) : List (Vector (Option ThreadId) n) :=
  w.registries.map fun registry ↦ registry.slots.map (·.owner)

def free (w : World n α) (r : RegistryId) : Nat :=
  (w.owners[r]?).elim 0 fun owners ↦ owners.countP Option.isNone

/-- From `w` to `v` no slot changed its owner, and nothing happened to any cell. -/
structure SameSeats (w v : World n α) : Prop where
  owners : v.owners = w.owners
  threads : v.threads = w.threads

theorem SameSeats.refl (w : World n α) : w.SameSeats w := ⟨rfl, rfl⟩

theorem SameSeats.trans (hwv : w.SameSeats v) (hvu : v.SameSeats u) : w.SameSeats u :=
  ⟨hvu.owners.trans hwv.owners, hvu.threads.trans hwv.threads⟩

theorem SameSeats.free (hseats : w.SameSeats v) (r : RegistryId) : v.free r = w.free r := by
  rw [World.free, hseats.owners, World.free]

theorem SameSeats.cell? (hseats : w.SameSeats v) (t : ThreadId) (key : CellKey) :
    v.cell? t key = w.cell? t key := by
  rw [World.cell?, hseats.threads, World.cell?]

theorem owners_modifyRegistry {f : Registry n (Entry α) → Registry n (Entry α)}
    {g : Vector (Option ThreadId) n → Vector (Option ThreadId) n}
    (howners : ∀ registry, w.registryAt? r = some registry →
      (f registry).slots.map (·.owner) = g (registry.slots.map (·.owner))) :
    (w.modifyRegistry r f).owners = w.owners.modify r g := by
  apply List.ext_getElem?
  intro q
  simp only [owners, modifyRegistry, List.getElem?_map, List.getElem?_modify]
  by_cases hq : r = q
  · subst hq
    cases hfound : w.registries[r]? with
    | none => rfl
    | some registry => simp [howners registry hfound]
  · simp [hq]

theorem sameSeats_modifyRegistry {f : Registry n (Entry α) → Registry n (Entry α)}
    (howners : ∀ registry, (f registry).slots.map (·.owner) = registry.slots.map (·.owner)) :
    w.SameSeats (w.modifyRegistry r f) where
  owners := by
    rw [owners_modifyRegistry (g := id) fun registry _ ↦ howners registry]
    exact List.modify_id _ _
  threads := rfl

theorem sameSeats_modifyLimbo (w : World n α) (r : RegistryId)
    (f : LimboList (Entry α) → LimboList (Entry α)) : w.SameSeats (w.modifyLimbo r f) :=
  sameSeats_modifyRegistry fun _ ↦ rfl

theorem sameSeats_publish (w : World n α) (slot : Handle n) (address : Option Address) :
    w.SameSeats (w.publish slot address) := by
  apply sameSeats_modifyRegistry
  intro registry
  apply Vector.ext
  intro i hi
  simp only [Registry.publish, Vector.getElem_map, Vector.getElem_set]
  split
  · next hsame => simp only [← hsame, Fin.getElem_fin]
  · rfl

theorem sameSeats_start (w : World n α) (entry : Entry α) : w.SameSeats (w.start entry) := by
  unfold start
  split <;> exact ⟨rfl, rfl⟩

theorem sameSeats_detachLimbo (w : World n α) (r : RegistryId) :
    w.SameSeats (w.detachLimbo r).2 := by
  unfold detachLimbo
  split
  · exact .refl w
  · exact w.sameSeats_modifyLimbo r (·.detach.2)

theorem owners_releaseSlot (w : World n α) (slot : Handle n) :
    (w.releaseSlot slot).owners =
      w.owners.modify slot.registry (·.set slot.index none slot.index.isLt) := by
  apply owners_modifyRegistry
  intro registry _
  simp only [Registry.release, Vector.map_set]

/-- The lowest free slot is free. -/
theorem owner_of_findFinIdx? {slots : Vector Slot n} {i : Fin n}
    (hfind : slots.findFinIdx? (·.owner.isNone) = some i) : (slots.get i).owner = none := by
  have hslot : slots.find? (·.owner.isNone) = some (slots.get i) := by
    rw [Vector.find?_eq_map_findFinIdx?_getElem, hfind]
    rfl
  have hnone : (slots.get i).owner.isNone :=
    Vector.find?_some (p := fun slot : Slot ↦ slot.owner.isNone) hslot
  exact Option.isNone_iff_eq_none.mp hnone

theorem set_none_of_get {owners : Vector (Option ThreadId) n} {i : Fin n}
    (hnone : owners.get i = none) : owners.set i none i.isLt = owners := by
  have hnone : owners[i.val] = none := hnone
  rw [← hnone]
  exact Vector.set_getElem_self i.isLt

/-- A vector of owners has one free slot less when one is taken. -/
theorem countP_set_some {owners : Vector (Option ThreadId) n} {i : Fin n}
    (hnone : owners.get i = none) (t : ThreadId) :
    (owners.set i (some t) i.isLt).countP Option.isNone + 1 = owners.countP Option.isNone := by
  have hnone : owners[i.val] = none := hnone
  have hpos : 0 < owners.countP Option.isNone :=
    Vector.countP_pos_iff.mpr ⟨none, hnone ▸ Vector.getElem_mem i.isLt, rfl⟩
  rw [Vector.countP_set, hnone]
  simp only [Option.isNone_none, Option.isNone_some, if_true, Bool.false_eq_true, if_false]
  omega

/-- A vector of owners has a free slot when one is given up, and no fewer than before. -/
theorem countP_set_none (owners : Vector (Option ThreadId) n) (i : Fin n) :
    owners.countP Option.isNone ≤ (owners.set i none i.isLt).countP Option.isNone ∧
      0 < (owners.set i none i.isLt).countP Option.isNone := by
  rw [Vector.countP_set]
  simp only [Option.isNone_none, if_true]
  split <;> omega

/-- A registry that has a free slot lets any thread claim one. -/
theorem exists_claimSlot (hfree : 0 < w.free r) (t : ThreadId) :
    ∃ slot v, w.claimSlot r t = some (slot, v) ∧ slot.registry = r ∧ v.threads = w.threads ∧
      v.free r + 1 = w.free r ∧
      v.owners.modify r (·.set slot.index none slot.index.isLt) = w.owners := by
  have howners : w.owners[r]? = (w.registryAt? r).map fun registry ↦
      registry.slots.map (·.owner) := List.getElem?_map
  cases hregistry : w.registryAt? r with
  | none =>
    rw [free, howners, hregistry] at hfree
    cases hfree
  | some registry =>
    rw [hregistry] at howners
    have hexists : (registry.slots.findFinIdx? (·.owner.isNone)).isSome := by
      rw [free, howners] at hfree
      obtain ⟨owner, hmem, hnone⟩ := Vector.countP_pos_iff.mp hfree
      obtain ⟨slot, hslot, rfl⟩ := Vector.mem_map.mp hmem
      rw [Vector.isSome_findFinIdx?, Vector.any_eq_true']
      exact ⟨slot, hslot, hnone⟩
    obtain ⟨i, hfind⟩ := Option.isSome_iff_exists.mp hexists
    have hnone := owner_of_findFinIdx? hfind
    let claimed : Registry n (Entry α) :=
      { registry with slots := registry.slots.set i { registry.slots[i] with owner := some t } }
    have hclaim : registry.claim t = some (i, claimed) := by
      rw [Registry.claim, hfind]
      rfl
    have hafter : (w.modifyRegistry r fun _ ↦ claimed).owners =
        w.owners.modify r (·.set i (some t) i.isLt) := by
      apply owners_modifyRegistry
      intro other hother
      obtain rfl := Option.some.inj (hother.symm.trans hregistry)
      exact Vector.map_set
    have hhere : (registry.slots.map (·.owner)).get i = none :=
      (Vector.getElem_map _ _).trans hnone
    refine ⟨⟨r, i, t⟩, w.modifyRegistry r fun _ ↦ claimed, ?_, rfl, rfl, ?_, ?_⟩
    · simp only [claimSlot, hregistry, hclaim, Option.bind_eq_bind, Option.bind_some,
        Option.pure_def]
    · rw [free, free, hafter, List.getElem?_modify_eq, howners]
      exact countP_set_some hhere t
    · rw [hafter, List.modify_modify_eq]
      apply List.ext_getElem?
      intro q
      rw [List.getElem?_modify]
      by_cases hq : r = q
      · rw [← hq, howners]
        simp only [if_true, Option.map_eq_map, Option.map_some, Function.comp_apply,
          Vector.set_set, set_none_of_get hhere]
      · simp only [if_neg hq, Option.map_eq_map, Option.map_id']

theorem free_releaseSlot (w : World n α) (slot : Handle n) (r : RegistryId) :
    w.free r ≤ (w.releaseSlot slot).free r := by
  unfold free
  rw [owners_releaseSlot, List.getElem?_modify]
  cases w.owners[r]? with
  | none => exact Nat.zero_le _
  | some owners =>
    split
    · exact (countP_set_none owners slot.index).1
    · exact Nat.le_refl _

/-- A slot that is given up is free. -/
theorem free_pos_releaseSlot (w : World n α) {slot : Handle n} (hslot : slot.registry = r)
    (hlt : r < w.registries.length) : 0 < (w.releaseSlot slot).free r := by
  obtain rfl := hslot
  have hlt : slot.registry < w.owners.length := by rwa [owners, List.length_map]
  rw [free, owners_releaseSlot, List.getElem?_modify_eq, List.getElem?_eq_getElem hlt]
  exact (countP_set_none _ slot.index).2

theorem free_foldl_releaseSlot (slots : List (Handle n)) (w : World n α) (r : RegistryId) :
    w.free r ≤ (slots.foldl releaseSlot w).free r := by
  induction slots generalizing w with
  | nil => exact Nat.le_refl _
  | cons slot rest ih => exact Nat.le_trans (w.free_releaseSlot slot r) (ih _)

theorem threads_foldl_releaseSlot (slots : List (Handle n)) (w : World n α) :
    (slots.foldl releaseSlot w).threads = w.threads := by
  induction slots generalizing w with
  | nil => rfl
  | cons slot rest ih => exact ih (w.releaseSlot slot)

theorem cell?_modifyThread (w : World n α) (t : ThreadId) (f : Thread n → Thread n)
    (t' : ThreadId) (key : CellKey) :
    (w.modifyThread t f).cell? t' key =
      if t = t' then (w.threads[t]?).map fun thread ↦ (f thread).cell key else w.cell? t' key := by
  simp only [cell?, modifyThread, List.getElem?_modify]
  split
  · next ht =>
    subst ht
    cases w.threads[t]? <;> rfl
  · rw [Option.map_eq_map, Option.map_id']

def keeps (w : World n α) (r : RegistryId) (t : ThreadId) : Bool :=
  match w.cell? t .processWide with
  | some (.live (some slot) false) => slot.registry = r
  | _ => false

theorem keeps_iff : w.keeps r t ↔
    ∃ slot, w.cell? t .processWide = some (.live (some slot) false) ∧ slot.registry = r := by
  unfold keeps
  split
  · next slot hcell =>
    rw [decide_eq_true_eq]
    exact ⟨fun hslot ↦ ⟨slot, hcell, hslot⟩, fun ⟨_, hcell', hslot⟩ ↦ by
      cases hcell.symm.trans hcell'
      exact hslot⟩
  · next hother => exact ⟨nofun, fun ⟨slot, hcell, _⟩ ↦ absurd hcell (hother slot)⟩

/-- The thread can pop if it keeps a slot or finds a free one: no pop borrows its cell, and what the
cell holds is no slot of another registry. -/
def ready (w : World n α) (r : RegistryId) (t : ThreadId) : Bool :=
  match w.cell? t .processWide with
  | some (.live (some slot) borrowed) => !borrowed && slot.registry = r
  | some (.live none borrowed) => !borrowed
  | _ => true

theorem keeps_congr {t' : ThreadId} (hcell : v.cell? t .processWide = w.cell? t' .processWide)
    (r : RegistryId) : v.keeps r t = w.keeps r t' := by
  rw [keeps, hcell, keeps]

theorem ready_congr {t' : ThreadId} (hcell : v.cell? t .processWide = w.cell? t' .processWide)
    (r : RegistryId) : v.ready r t = w.ready r t' := by
  rw [ready, hcell, ready]

def lacking (w : World n α) (r : RegistryId) (threads : List ThreadId) : Nat :=
  threads.countP fun t ↦ !w.keeps r t

theorem lacking_congr (hkeeps : ∀ t ∈ threads, v.keeps r t = w.keeps r t) :
    v.lacking r threads = w.lacking r threads := by
  apply List.countP_congr
  intro t ht
  rw [hkeeps t ht]

/-- A thread that got a slot lacks none. -/
theorem lacking_lt (hmem : t ∈ threads) (hbefore : w.keeps r t = false)
    (hafter : v.keeps r t = true) (hothers : ∀ t' ≠ t, v.keeps r t' = w.keeps r t') :
    v.lacking r threads < w.lacking r threads := by
  have hle (threads : List ThreadId) : v.lacking r threads ≤ w.lacking r threads := by
    apply List.countP_mono_left
    intro t' _ hlacks
    by_cases ht : t' = t
    · rw [ht, hbefore]
      rfl
    · rwa [← hothers t' ht]
  obtain ⟨left, right, rfl⟩ := List.append_of_mem hmem
  have hleft := hle left
  have hright := hle right
  simp only [lacking, List.countP_append, List.countP_cons, hbefore, hafter] at *
  simp only [Bool.not_true, Bool.not_false, Bool.false_eq_true, if_true, if_false]
  omega

/-- Each of these threads keeps a slot or finds a free one when it pops, and if there are none left,
so does the thread that waits for them. -/
structure Supplies (w : World n α) (r : RegistryId) (threads : List ThreadId) : Prop where
  ready : ∀ t, t = 0 ∨ t ∈ threads → w.ready r t
  enough : w.lacking r threads ≤ w.free r
  last : threads = [] → w.lacking r [0] ≤ w.free r

theorem Supplies.congr (hw : w.Supplies r threads) (hfree : w.free r ≤ v.free r)
    (hready : ∀ t, v.ready r t = w.ready r t) (hkeeps : ∀ t, v.keeps r t = w.keeps r t) :
    v.Supplies r threads where
  ready t ht := (hready t).trans (hw.ready t ht)
  enough := by
    rw [lacking_congr fun t _ ↦ hkeeps t]
    exact Nat.le_trans hw.enough hfree
  last hnone := by
    rw [lacking_congr fun t _ ↦ hkeeps t]
    exact Nat.le_trans (hw.last hnone) hfree

theorem SameSeats.supplies (hseats : w.SameSeats v) (hw : w.Supplies r threads) :
    v.Supplies r threads :=
  hw.congr (Nat.le_of_eq (hseats.free r).symm) (fun t ↦ ready_congr (hseats.cell? t _) r)
    fun t ↦ keeps_congr (hseats.cell? t _) r

/-- A thread that keeps no slot finds a free one. -/
theorem Supplies.free_pos (hw : w.Supplies r threads) (hmem : t ∈ threads)
    (hlacks : w.keeps r t = false) : 0 < w.free r := by
  refine Nat.lt_of_lt_of_le ?_ hw.enough
  rw [lacking, List.countP_pos_iff]
  exact ⟨t, hmem, by rw [hlacks]; rfl⟩

/-- A pop of thread `t` leads from `w` to `v`: what it took from the free slots it keeps. -/
structure Seated (r : RegistryId) (t : ThreadId) (w v : World n α) : Prop where
  others : ∀ t', t' ≠ t → v.cell? t' .processWide = w.cell? t' .processWide
  ready : v.ready r t
  kept : w.keeps r t → v.keeps r t
  balance : v.free r + (v.keeps r t).toNat = w.free r + (w.keeps r t).toNat

/-- There are enough slots after a pop if there were before. -/
theorem Seated.supplies (hseated : Seated r t w v) (hw : w.Supplies r threads)
    (hmem : t ∈ threads) : v.Supplies r threads where
  ready t' ht' := by
    by_cases ht : t' = t
    · exact ht ▸ hseated.ready
    · exact (ready_congr (hseated.others t' ht) r).trans (hw.ready t' ht')
  enough := by
    have hothers (t' : ThreadId) (ht : t' ≠ t) : v.keeps r t' = w.keeps r t' :=
      keeps_congr (hseated.others t' ht) r
    have hbalance := hseated.balance
    have henough := hw.enough
    have hsame (hkeeps : v.keeps r t = w.keeps r t) : v.lacking r threads = w.lacking r threads :=
      lacking_congr fun t' _ ↦ by
        by_cases ht : t' = t
        · rw [ht, hkeeps]
        · exact hothers t' ht
    cases hbefore : w.keeps r t with
    | true =>
      have hafter := hseated.kept hbefore
      rw [hbefore, hafter] at hbalance
      rw [hsame (hafter.trans hbefore.symm)]
      omega
    | false =>
      cases hafter : v.keeps r t with
      | false =>
        rw [hbefore, hafter] at hbalance
        rw [hsame (hafter.trans hbefore.symm)]
        omega
      | true =>
        have hlt := lacking_lt hmem hbefore hafter hothers
        rw [hbefore, hafter, Bool.toNat_true, Bool.toNat_false] at hbalance
        omega
  last hnone := by
    rw [hnone] at hmem
    cases hmem

end World

end Reclaim.Hazard
