import Reclaim.Proofs.Hazard.Clearing
import Reclaim.Proofs.LimboList.Dropping
import Reclaim.Proofs.LimboList.Sweeping

/-!
# Registries over linked lists

The machine keeps the parked entries of a registry as a sequence. If a linked list shows the same
sequence, then detaching that list and sweeping its cells does what a reclaim of the registry does:
both leave the same entries behind, start the same deleters in the same order and end alike. So do
dropping the list and the end of the registry. In the linked list a deleter can do no more than free
its object or fault, so this is about such deleters.
-/

namespace Reclaim.Hazard

variable {n : Nat} {α : Type}

/-- A deleter that frees its object and does nothing else, except that it may fault. -/
def Entry.Bare (entry : Entry α) : Prop :=
  entry.program = [] ∨ ∃ fault, entry.program = [.raise fault]

instance : Destructor (Entry α) where
  fault? entry :=
    match entry.program with
    | .raise fault :: _ => some fault
    | _ => none

theorem fault?_of_nil {entry : Entry α} (hprogram : entry.program = []) :
    Destructor.fault? entry = none := by
  simp only [Destructor.fault?, hprogram]

theorem fault?_of_raise {entry : Entry α} {fault : Fault}
    (hprogram : entry.program = [.raise fault]) : Destructor.fault? entry = some fault := by
  simp only [Destructor.fault?, hprogram]

namespace World

/-- A command ended as a sweep of a registry's list that began in `w` with `freed` entries freed. -/
structure SweptAs (w : World n α) (r : RegistryId) (freed : Nat)
    (o : Outcome (LimboList (Entry α)) (Entry α) Nat)
    (ending : World n α × Except Fault (Answer α)) : Prop where
  limbo : ending.1.limbo r = o.state
  started : ending.1.started = (o.events.map (·.address)).reverse ++ w.started
  result : ending.2 = o.result.map fun count ↦ .reclaimed (freed + count)

end World

namespace Machine

variable {w : World n α} {t : ThreadId} {r : RegistryId} {rest : List (Entry α)}

theorem map_reclaimed (freed : Nat) (result : Except Fault Nat) :
    result.map (fun count ↦ (.reclaimed (freed + 1 + count) : Answer α)) =
      (result.map (· + 1)).map fun count ↦ .reclaimed (freed + count) := by
  cases result with
  | error fault => rfl
  | ok count => exact congrArg (Except.ok ∘ Answer.reclaimed) (Nat.succ_add freed count)

/-- The machine sweeps as the list does. -/
theorem sweptAs (keep : Entry α → Bool) (freed : Nat) (hlt : r < w.registries.length)
    (hkeep : ∀ entry, w.isProtected r (some entry.address) = keep entry)
    (hbare : ∀ entry ∈ rest, entry.Bare) :
    w.SweptAs r freed (LimboList.sweep keep rest (w.limbo r))
      (run ⟨w, t, [.sweep ⟨r, none, rest, freed⟩]⟩) := by
  induction rest generalizing w freed with
  | nil =>
    rw [run_of_done (m := ⟨w, t, [.sweep ⟨r, none, [], freed⟩]⟩) rfl]
    exact ⟨rfl, rfl, rfl⟩
  | cons entry rest ih =>
    obtain ⟨hentry, hrest⟩ := List.forall_mem_cons.mp hbare
    rw [LimboList.sweep]
    by_cases hkept : keep entry = true
    · have hlimbo := (World.limbo_modifyLimbo hlt (·.putBack entry) r).trans (if_pos rfl)
      have hswept := ih freed ((w.length_registries_modifyLimbo r (·.putBack entry)).symm ▸ hlt)
        (fun other ↦ (World.isProtected_congr (w.published?_modifyLimbo r _ r) _).trans
          (hkeep other)) hrest
      rw [hlimbo] at hswept
      rw [if_pos hkept,
        run_of_next (step_sweep_of_protected t rest freed [] ((hkeep entry).trans hkept))]
      exact ⟨hswept.limbo, hswept.started, hswept.result⟩
    have hfree := (hkeep entry).trans (eq_false_of_ne_true hkept)
    rw [if_neg hkept]
    rcases hentry with hprogram | ⟨fault, hprogram⟩
    · have hlt' : r < (w.start entry).registries.length := (w.registries_start entry).symm ▸ hlt
      have hlimbo : ((w.start entry).modifyLimbo r (·.countFreed)).limbo r =
          (w.limbo r).countFreed := by
        rw [World.limbo_modifyLimbo hlt', if_pos rfl, w.limbo_start]
      have hswept := ih (w := (w.start entry).modifyLimbo r (·.countFreed)) (freed + 1)
        ((World.length_registries_modifyLimbo _ r _).symm ▸ hlt')
        (fun other ↦ (World.isProtected_congr (w.published?_start_countFreed entry r r) _).trans
          (hkeep other)) hrest
      rw [hlimbo] at hswept
      rw [run_sweep_cons t rest freed hprogram hfree, fault?_of_nil hprogram]
      refine ⟨hswept.limbo, ?_, hswept.result.trans (map_reclaimed freed _)⟩
      rw [hswept.started, List.map_cons, List.reverse_cons, List.append_assoc]
      exact congrArg _ (w.started_start entry)
    · have hraise : step ⟨w.start entry, t,
          [.deleter [.raise fault], .sweep ⟨r, some entry, rest, freed⟩]⟩ =
          .done { w.start entry with
            cutShort := ⟨r, some entry, rest, freed⟩ :: (w.start entry).cutShort }
            (.error fault) := rfl
      rw [run_of_next (step_sweep_of_free t rest freed [] hfree), fault?_of_raise hprogram,
        hprogram, run_of_done hraise]
      exact ⟨w.limbo_start entry r, w.started_start entry, rfl⟩

end Machine

namespace World

variable {w : World n α} {r : RegistryId} {s : LinkedLimbo.Ledger (Entry α)} {gone : List NodeId}

/-- A reclaim sweeps the registry's list. -/
theorem sweptAs_reclaim (hregistry : (w.registryAt? r).isSome)
    (hbare : ∀ entry ∈ (w.limbo r).entries, entry.Bare) (t : ThreadId) :
    w.SweptAs r 0
      (LimboList.sweep (fun entry ↦ w.isProtected r (some entry.address)) (w.limbo r).entries
        (w.limbo r).detach.2)
      (w.run t (.reclaim r)) := by
  obtain ⟨registry, hfound⟩ := Option.isSome_iff_exists.mp hregistry
  have hrun : w.run t (.reclaim r) =
      Machine.run ⟨(w.detachLimbo r).2, t, [.sweep ⟨r, none, (w.limbo r).entries, 0⟩]⟩ := by
    rw [run, Machine.execute, hfound, ← w.detachLimbo_fst r]
    rfl
  obtain ⟨registries, hsame, hlength⟩ := w.detachLimbo_eq r
  have hlt : r < (w.detachLimbo r).2.registries.length := by
    rw [hsame]
    exact hlength ▸ lt_length_of_registryAt? hregistry
  have hlimbo : (w.detachLimbo r).2.limbo r = (w.limbo r).detach.2 :=
    (w.limbo_detachLimbo r r).trans (if_pos rfl)
  have hswept := Machine.sweptAs (t := t) (fun entry ↦ w.isProtected r (some entry.address)) 0 hlt
    (fun entry ↦ isProtected_congr (w.published?_detachLimbo r r) _) hbare
  rw [hlimbo, ← hrun] at hswept
  exact ⟨hswept.limbo, w.started_detachLimbo r ▸ hswept.started, hswept.result⟩

/-- A reclaim does to a registry's list what a sweep of the detached cells does to a linked list
that shows the same entries. The cells stay shared out, and earlier drains go on as before. -/
theorem reclaim_linked (hs : s.Sound gone) (hlist : s.limbo.toLimboList = w.limbo r)
    (hregistry : (w.registryAt? r).isSome) (hbare : ∀ entry ∈ (w.limbo r).entries, entry.Bare)
    (t : ThreadId) :
    let swept := s.limbo.detach.2.sweep (fun entry ↦ w.isProtected r (some entry.address))
      (w.limbo r).entries.length s.limbo.detach.1
    (∃ rest gone', LinkedLimbo.Ledger.Sound ⟨swept.state, s.drains ++ [rest], s.hands⟩ gone') ∧
      (∀ drain ∈ s.drains,
        LimboCell.chain swept.state.cells drain = LimboCell.chain s.limbo.cells drain) ∧
      swept.state.toLimboList = (w.run t (.reclaim r)).1.limbo r ∧
      (w.run t (.reclaim r)).1.started =
        (swept.events.map (·.2.address)).reverse ++ w.started ∧
      (w.run t (.reclaim r)).2 = swept.result.map .reclaimed := by
  intro swept
  obtain ⟨hshared, hrest⟩ := LinkedLimbo.Shared.detach hs
  have hlinked := hshared.swept (fun entry ↦ w.isProtected r (some entry.address))
    (congrArg LimboList.entries hlist)
  rw [hrest, hlist] at hlinked
  have hswept := sweptAs_reclaim hregistry hbare t
  refine ⟨hlinked.shared, hlinked.others, hlinked.list.trans hswept.limbo.symm, ?_, ?_⟩
  · rw [hswept.started, ← hlinked.events, List.map_map]
    rfl
  · rw [hswept.result, ← hlinked.result]
    exact congrArg (Except.map · _) (funext fun count ↦ congrArg _ (Nat.zero_add count))

open SharedStack in
/-- Detached entries are freed in order, up to and with the first whose deleter faults. -/
theorem freeAll_of_bare {t : ThreadId} {entries : List (Entry α)}
    (hbare : ∀ entry ∈ entries, entry.Bare) (w : World n α) :
    (freeAll r t entries w).1.started =
        ((entries.take (reach entries)).map (·.address)).reverse ++ w.started ∧
      (freeAll r t entries w).2 = ending entries := by
  induction entries generalizing w with
  | nil => exact ⟨rfl, rfl⟩
  | cons entry rest ih =>
    obtain ⟨hentry, hrest⟩ := List.forall_mem_cons.mp hbare
    rcases hentry with hprogram | ⟨fault, hprogram⟩
    · have hquiet := fault?_of_nil hprogram
      obtain ⟨hstarted, hresult⟩ := ih hrest (w.start entry)
      rw [freeAll, Machine.run_deleter_of_nil hprogram, reach_cons_of_quiet hquiet,
        ending_cons_of_quiet hquiet]
      refine ⟨hstarted.trans ?_, hresult⟩
      rw [started_start, List.take_succ_cons, List.map_cons, List.reverse_cons, List.append_assoc]
      rfl
    · have hrun : Machine.run ⟨w.start entry, t, [.deleter entry.program]⟩ =
          (w.start entry, .error fault) := by
        rw [hprogram]
        exact Machine.run_of_done rfl
      have hfault := fault?_of_raise hprogram
      rw [freeAll, hrun, reach_cons_of_fault hfault, ending_cons_of_fault hfault]
      exact ⟨w.started_start entry, rfl⟩

/-- The end of a registry does what dropping a linked list that shows the same entries does. -/
theorem close_linked (hs : s.Sound gone) (hlist : s.limbo.toLimboList = w.limbo r)
    (hbare : ∀ entry ∈ (w.limbo r).entries, entry.Bare) (t : ThreadId) :
    (w.close t r).1.started =
        (s.limbo.drop.events.map (·.2.address)).reverse ++ w.started ∧
      (w.close t r).2 = s.limbo.drop.result := by
  obtain ⟨-, -, -, -, -, -, hevents, hresult, -⟩ := hs.drop
  have hclosed := freeAll_of_bare (r := r) (t := t) hbare (w.detachLimbo r).2
  rw [← hlist, ← hevents, ← hresult, List.map_map] at hclosed
  have hclose : w.close t r = freeAll r t (w.limbo r).entries (w.detachLimbo r).2 := by
    rw [close, ← w.detachLimbo_fst r]
  rw [hclose, ← hlist]
  exact ⟨w.started_detachLimbo r ▸ hclosed.1, hclosed.2⟩

end World

end Reclaim.Hazard
