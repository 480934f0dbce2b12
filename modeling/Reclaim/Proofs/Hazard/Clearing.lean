import Reclaim.Proofs.Hazard.Protection

/-!
# Clearing registries

A reclaim of a registry none of whose entries is protected, and none of whose deleters does anything
but free, frees all entries and leaves everything else as it is. A row of such reclaims, by whatever
threads, clears the registries that it visits.
-/

namespace Reclaim.Hazard

variable {n : Nat} {α : Type}

namespace World

def freeEach (w : World n α) (r : RegistryId) (entries : List (Entry α)) : World n α :=
  entries.foldl (fun w entry ↦ (w.start entry).modifyLimbo r (·.countFreed)) w

/-- What freeing one entry leaves as it is, freeing several does. -/
theorem freeEach_eq {β : Type} (f : World n α → β) {r : RegistryId}
    (hf : ∀ w entry, f ((w.start entry).modifyLimbo r (·.countFreed)) = f w)
    (entries : List (Entry α)) (w : World n α) : f (w.freeEach r entries) = f w := by
  induction entries generalizing w with
  | nil => rfl
  | cons entry rest ih => exact (ih _).trans (hf w entry)

theorem published?_start_countFreed (w : World n α) (entry : Entry α) (r q : RegistryId)
    (i : Fin n) :
    ((w.start entry).modifyLimbo r (·.countFreed)).published? q i = w.published? q i :=
  (published?_modifyLimbo _ _ _ q i).trans (published?_congr (w.registries_start entry) q i)

theorem entries_start_countFreed (w : World n α) (entry : Entry α) (r q : RegistryId) :
    (((w.start entry).modifyLimbo r (·.countFreed)).limbo q).entries = (w.limbo q).entries := by
  rw [← w.limbo_start entry q]
  by_cases hlt : r < (w.start entry).registries.length
  · rw [limbo_modifyLimbo hlt]
    split <;> rfl
  · have hnone : (w.start entry).registries[r]? = none :=
      List.getElem?_eq_none (Nat.not_lt.mp hlt)
    rw [modifyLimbo, modifyRegistry, List.modify_eq_self (List.getElem?_eq_none_iff.mp hnone)]

theorem isProtected_congr {w v : World n α} {r : RegistryId}
    (hpublished : ∀ i, v.published? r i = w.published? r i) (a : Address) :
    v.isProtected r (some a) = w.isProtected r (some a) := by
  rw [Bool.eq_iff_iff, isProtected_iff, isProtected_iff]
  simp only [hpublished]

/-- All entries of a registry can be freed by a reclaim, which does nothing but free them. -/
def Clearable (w : World n α) (r : RegistryId) : Prop :=
  ∀ entry ∈ (w.limbo r).entries, entry.program = [] ∧ w.isProtected r (some entry.address) = false

end World

namespace Machine

theorem run_of_done {m : Machine n α} {world : World n α} {result : Except Fault (Answer α)}
    (hstep : m.step = .done world result) : m.run = (world, result) := by
  rw [run]
  split
  · next hturn =>
    cases hstep.symm.trans hturn
    rfl
  · next hturn => cases hstep.symm.trans hturn

theorem run_of_next {m m' : Machine n α} (hstep : m.step = .next m') : m.run = m'.run := by
  rw [run]
  split
  · next hturn => cases hstep.symm.trans hturn
  · next hturn =>
    cases hstep.symm.trans hturn
    rfl

theorem run_deleter_of_nil {program : List (Command α)} (hprogram : program = [])
    (w : World n α) (t : ThreadId) : run ⟨w, t, [.deleter program]⟩ = (w, .ok .done) := by
  rw [hprogram]
  exact run_of_done rfl

section

variable {w : World n α} {r : RegistryId} {entry : Entry α} (t : ThreadId)
  (rest : List (Entry α)) (freed : Nat) (outer : List (Frame n α))

theorem step_sweep_of_protected (hprotected : w.isProtected r (some entry.address) = true) :
    step ⟨w, t, .sweep ⟨r, none, entry :: rest, freed⟩ :: outer⟩ =
      .next ⟨w.modifyLimbo r (·.putBack entry), t, .sweep ⟨r, none, rest, freed⟩ :: outer⟩ :=
  if_pos hprotected

theorem step_sweep_of_free (hfree : w.isProtected r (some entry.address) = false) :
    step ⟨w, t, .sweep ⟨r, none, entry :: rest, freed⟩ :: outer⟩ =
      .next ⟨w.start entry, t,
        .deleter entry.program :: .sweep ⟨r, some entry, rest, freed⟩ :: outer⟩ :=
  if_neg (ne_true_of_eq_false hfree)

theorem step_deleted :
    step ⟨w, t, .deleter [] :: .sweep ⟨r, some entry, rest, freed⟩ :: outer⟩ =
      .next ⟨w.modifyLimbo r (·.countFreed), t, .sweep ⟨r, none, rest, freed + 1⟩ :: outer⟩ := rfl

/-- A deleter without a program frees its object, and the sweep goes on. -/
theorem run_sweep_cons (hprogram : entry.program = [])
    (hfree : w.isProtected r (some entry.address) = false) :
    run ⟨w, t, [.sweep ⟨r, none, entry :: rest, freed⟩]⟩ =
      run ⟨(w.start entry).modifyLimbo r (·.countFreed), t,
        [.sweep ⟨r, none, rest, freed + 1⟩]⟩ := by
  rw [run_of_next (step_sweep_of_free t rest freed [] hfree), hprogram]
  exact run_of_next (step_deleted t rest freed [])

end

/-- A sweep that meets nothing protected frees one entry after another. -/
theorem run_sweep (t : ThreadId) (r : RegistryId) (rest : List (Entry α)) (freed : Nat)
    (w : World n α) (hrest : ∀ entry ∈ rest,
      entry.program = [] ∧ w.isProtected r (some entry.address) = false) :
    run ⟨w, t, [.sweep ⟨r, none, rest, freed⟩]⟩ =
      (w.freeEach r rest, .ok (.reclaimed (freed + rest.length))) := by
  induction rest generalizing w freed with
  | nil => exact run_of_done rfl
  | cons entry rest ih =>
    obtain ⟨⟨hprogram, hfree⟩, hrest⟩ := List.forall_mem_cons.mp hrest
    rw [run_sweep_cons t rest freed hprogram hfree, ih, List.length_cons, Nat.add_right_comm,
      Nat.add_assoc]
    · rfl
    · intro other hother
      obtain ⟨hprogram', hfree'⟩ := hrest other hother
      refine ⟨hprogram', (World.isProtected_congr (fun i ↦ ?_) _).trans hfree'⟩
      exact w.published?_start_countFreed entry r r i

end Machine

namespace World

theorem published?_detachLimbo (w : World n α) (r q : RegistryId) (i : Fin n) :
    (w.detachLimbo r).2.published? q i = w.published? q i := by
  unfold detachLimbo
  split
  · rfl
  · exact published?_modifyLimbo _ _ _ q i

/-- A reclaim of a registry frees all entries, the head first. -/
theorem run_reclaim {w : World n α} {r : RegistryId} (hregistry : (w.registryAt? r).isSome)
    (hclear : w.Clearable r) (t : ThreadId) :
    w.run t (.reclaim r) = ((w.detachLimbo r).2.freeEach r (w.limbo r).entries,
      .ok (.reclaimed (w.limbo r).entries.length)) := by
  obtain ⟨registry, hregistry⟩ := Option.isSome_iff_exists.mp hregistry
  have hsweep := Machine.run_sweep t r (w.limbo r).entries 0 (w.detachLimbo r).2 ?_
  · rw [Nat.zero_add] at hsweep
    rw [← hsweep, run, Machine.execute, hregistry, ← w.detachLimbo_fst r]
    rfl
  · intro entry hentry
    obtain ⟨hprogram, hfree⟩ := hclear entry hentry
    exact ⟨hprogram, (isProtected_congr (w.published?_detachLimbo r r) _).trans hfree⟩

/-- From `w` to `v` these registries were cleared and all else that matters to them stayed. -/
structure Cleared (w : World n α) (cleared : List RegistryId) (v : World n α) : Prop where
  entries : ∀ q, (v.limbo q).entries = if q ∈ cleared then [] else (w.limbo q).entries
  published : ∀ q i, v.published? q i = w.published? q i
  «stacks» : v.stacks = w.stacks
  cutShort : v.cutShort = w.cutShort

theorem Cleared.trans {w v u : World n α} {cleared cleared' : List RegistryId}
    (hwv : w.Cleared cleared v) (hvu : v.Cleared cleared' u) :
    w.Cleared (cleared ++ cleared') u where
  entries q := by
    rw [hvu.entries, hwv.entries]
    by_cases hq : q ∈ cleared <;> by_cases hq' : q ∈ cleared' <;> simp [hq, hq']
  published q i := (hvu.published q i).trans (hwv.published q i)
  «stacks» := hvu.stacks.trans hwv.stacks
  cutShort := hvu.cutShort.trans hwv.cutShort

theorem Clearable.cleared {w v : World n α} {cleared : List RegistryId} {r : RegistryId}
    (hclear : w.Clearable r) (hcleared : w.Cleared cleared v) : v.Clearable r := by
  intro entry hentry
  rw [hcleared.entries] at hentry
  split at hentry
  · cases hentry
  · obtain ⟨hprogram, hfree⟩ := hclear entry hentry
    exact ⟨hprogram, (isProtected_congr (hcleared.published r) _).trans hfree⟩

theorem cleared_run_reclaim {w : World n α} {r : RegistryId} (hclear : w.Clearable r)
    (t : ThreadId) : w.Cleared [r] (w.run t (.reclaim r)).1 := by
  cases hregistry : w.registryAt? r with
  | none =>
    have hrefused : w.run t (.reclaim r) = (w, .ok .refused) := by
      rw [run, Machine.execute, hregistry]
      rfl
    rw [hrefused]
    refine ⟨fun q ↦ ?_, fun _ _ ↦ rfl, rfl, rfl⟩
    split
    · next hq =>
      rw [List.mem_singleton.mp hq, limbo, hregistry]
      rfl
    · rfl
  | some registry =>
    rw [run_reclaim (hregistry ▸ rfl) hclear t]
    obtain ⟨registries, hdetach, -⟩ := w.detachLimbo_eq r
    constructor
    · intro q
      refine (freeEach_eq (fun v ↦ (v.limbo q).entries)
        (fun v entry ↦ v.entries_start_countFreed entry r q) _ _).trans ?_
      simp only [limbo_detachLimbo, List.mem_singleton, eq_comm (a := q)]
      split <;> rfl
    · intro q i
      exact (freeEach_eq (·.published? q i)
        (fun v entry ↦ v.published?_start_countFreed entry r q i) _ _).trans
        (w.published?_detachLimbo r q i)
    · refine (freeEach_eq (·.stacks) (fun v entry ↦ v.stacks_start entry) _ _).trans ?_
      rw [hdetach]
    · refine (freeEach_eq (·.cutShort) (fun v entry ↦ v.cutShort_start entry) _ _).trans ?_
      rw [hdetach]

def reclaimEach (w : World n α) (reclaims : List (ThreadId × RegistryId)) : World n α :=
  reclaims.foldl (fun w x ↦ (w.run x.1 (.reclaim x.2)).1) w

theorem cleared_reclaimEach (reclaims : List (ThreadId × RegistryId)) {w : World n α}
    (hclear : ∀ r, w.Clearable r) : w.Cleared (reclaims.map Prod.snd) (w.reclaimEach reclaims) := by
  induction reclaims generalizing w with
  | nil => exact ⟨fun _ ↦ rfl, fun _ _ ↦ rfl, rfl, rfl⟩
  | cons x rest ih =>
    have hfirst := cleared_run_reclaim (hclear x.2) x.1
    exact hfirst.trans (ih fun r ↦ (hclear r).cleared hfirst)

/-- Reclaims in a row are a run in which no stack is dropped. -/
theorem exists_run_reclaimEach [Destructor α] (reclaims : List (ThreadId × RegistryId))
    (w : World n α) (t : ThreadId) :
    ∃ moves t', Run ⟨w, t, []⟩ moves ⟨w.reclaimEach reclaims, t', []⟩ ∧
      ∀ move ∈ moves, ∀ id, move.deed ≠ .dropStack id := by
  induction reclaims generalizing w t with
  | nil => exact ⟨[], t, .start, List.forall_mem_nil _⟩
  | cons x rest ih =>
    obtain ⟨moves, t₁, hrun, hmoves⟩ := w.exists_run t x.1 (.reclaim x.2)
    obtain ⟨moves', t₂, hrun', hmoves'⟩ := ih (w.run x.1 (.reclaim x.2)).1 t₁
    refine ⟨moves ++ moves', t₂, hrun.trans hrun', fun move hmem id ↦ ?_⟩
    rcases List.mem_append.mp hmem with hmem | hmem
    · rcases hmoves move hmem with hdeed | hdeed <;> rw [hdeed] <;> nofun
    · exact hmoves' move hmem id

end World

end Reclaim.Hazard
