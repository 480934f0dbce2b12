import Reclaim.Proofs.CountedStack.Reliable
import Reclaim.Proofs.Hazard.Reliable
import Reclaim.Proofs.Workload.Outcome

/-!
# Workloads on the three stacks

Whatever was done to a stack before, a workload leaves behind what it found, and so it passes its
closing check if it found the stack empty and fails it otherwise.
-/

namespace Reclaim

open CountedStack Hazard

/-- Destroying a word never faults. -/
instance : Destructor UInt64 := ⟨fun _ ↦ none⟩

namespace Workload

/-- What comes of a workload on each of the three stacks, in any state that a run can lead to, if
the stack holds `k` values then. Checked arithmetic must not have faulted, and no linked node may
have been claimed so often that one more claim faults. The process-wide registry must supply the
workers that pop with slots, and no deleter may wait there that does anything but free. Over another
registry its slots are of no use, and no pop succeeds. -/
theorem comesOut_on_each_stack (w : Workload) (k : Nat)
    (hfits : w.threads.toNat * w.operations.toNat + k < 2 ^ 64) :
    (∀ s : LockedStack UInt64, s.items.length = k → w.ComesOut s k) ∧
    (∀ (moves : List (Ledger.Move UInt64)) (s : Ledger UInt64), Ledger.Run {} moves s →
      (∀ move ∈ moves, ¬ Overflows move.reply.result) →
      (∀ node ∈ s.stack.linked, s.claimsOn node < 2 ^ 63 - 2) → s.stack.toList.length = k →
      w.ComesOut s.stack k) ∧
    ∀ (n : Nat) (moves : List (Hazard.Move n UInt64)) (world : World n UInt64) (t : ThreadId)
      (handles : List (ThreadId × HandleId)), Hazard.Run Machine.empty moves ⟨world, t, []⟩ →
      (world.home? 0 = some processWide → world.Plain processWide →
        world.Supplies processWide w.poppers → (world.valuesIn 0).length = k →
        w.ComesOut (⟨world, .implicit, handles⟩ : SoleStack n UInt64) k) ∧
      ∀ r ≠ processWide, world.home? 0 = some r → ∀ t' : ThreadId,
        ∃ fault ∈ [Fault.foreignSlot, .noFreeSlot n],
          (SharedStack.pop (⟨world, .implicit, handles⟩ : SoleStack n UInt64) t').result =
            .error fault := by
  refine ⟨?_, ?_, ?_⟩
  · rintro s rfl
    exact comesOut_of_reliable LockedStack.reliable rfl hfits
  · rintro moves s hrun hcalm hclaims rfl
    have hs : s.Balanced := hrun.balanced (Ledger.calm_of_not_overflows hcalm)
    exact comesOut_of_reliable CountedStack.reliable (hs.roomy hclaims) hfits
  · intro n moves world t handles hrun
    refine ⟨?_, fun r hother hhome t' ↦ ?_⟩
    · rintro hhome hplain hslots rfl
      have hworld : world.Holds 0 (world.valuesIn 0) :=
        ⟨(hrun.sound Machine.sound_empty).stock, World.isSome_of_home? hhome, rfl⟩
      have hs : (⟨world, .implicit, handles⟩ : SoleStack n UInt64).Keeps w.poppers
          (world.valuesIn 0) := ⟨rfl, hhome, hworld, hplain, hslots⟩
      exact comesOut_of_reliable SoleStack.reliable hs hfits
    · rcases SoleStack.pop_elsewhere hrun hhome hother handles t' with hforeign | hfull
      · exact ⟨_, List.mem_cons_self, hforeign⟩
      · exact ⟨_, List.mem_cons_of_mem _ List.mem_cons_self, hfull⟩

/-- A stack of one value over a registry of two slots. -/
def prefilled : Machine 2 UInt64 :=
  (Machine.empty.follow [.addRegistry, .addStack 0, .spawn, .issue 0 (.push 0 7)]).2

def prefilledElsewhere : Machine 2 UInt64 :=
  (Machine.empty.follow
    [.addRegistry, .addRegistry, .addStack 1, .spawn, .issue 0 (.push 0 7)]).2

/-- Two workers take their turns in and out of step. The first one tries to leave too early. -/
def outOfStep : List Action :=
  [.turn 0, .turn 1, .leave 0, .turn 1, .turn 0, .turn 0, .turn 1, .turn 0, .leave 0, .turn 1,
    .leave 1]

/-- Two workers with two rounds each find a value in the stack. They push four values, in whatever
order they take turns, and five come out. No worker could pop the same stack over another
registry. -/
theorem comesOut_one_too_many :
    (⟨2, 2⟩ : Workload).Completes outOfStep ∧
    (⟨2, 2⟩ : Workload).ComesOut (⟨[7]⟩ : LockedStack UInt64) 1 ∧
    ((⟨2, 2⟩ : Workload).after (⟨[7]⟩ : LockedStack UInt64) outOfStep).total = .ok 4 ∧
    ((⟨2, 2⟩ : Workload).after (⟨⟨[7]⟩, {}, []⟩ : Front (LockedStack UInt64))
      outOfStep).stack.pushed = [0, 1, 2, 3] ∧
    (∃ moves s, Ledger.Run ({} : Ledger UInt64) moves s ∧ s.stack.toList = [7] ∧
      (⟨2, 2⟩ : Workload).ComesOut s.stack 1) ∧
    (prefilled.world.valuesIn 0 = [7] ∧
      (⟨2, 2⟩ : Workload).ComesOut (⟨prefilled.world, .implicit, []⟩ : SoleStack 2 UInt64) 1) ∧
    (∃ fault, (SharedStack.pop
      (⟨prefilledElsewhere.world, .implicit, []⟩ : SoleStack 2 UInt64) 1).result = .error fault) ∧
    (⟨2, 2⟩ : Workload).verdict 1 = .error (.countMismatch 5 4) := by
  obtain ⟨hlocked, hcounted, hhazard⟩ := comesOut_on_each_stack ⟨2, 2⟩ 1 (by decide)
  have hcompletes : (⟨2, 2⟩ : Workload).Completes outOfStep := by
    intro i hi
    obtain rfl | rfl : i = 0 ∨ i = 1 := Nat.le_one_iff_eq_zero_or_eq_one.mp (Nat.le_of_lt_succ hi)
    · exact ⟨outOfStep.take 8, by decide, by decide⟩
    · exact ⟨outOfStep.take 10, by decide, by decide⟩
  have hout := hlocked ⟨[7]⟩ rfl
  refine ⟨hcompletes, hout, (hout.close _ ((hout.over_iff _).mpr hcompletes)).1,
    (hout.pushed _ hcompletes).2, ?_, ⟨by decide +kernel, ?_⟩, ?_, by decide⟩
  · have hrun := Ledger.Run.step .start (Ledger.perform_of_kept (s := {}) rfl (.push (7 : UInt64)))
    refine ⟨_, _, hrun, rfl, hcounted _ _ hrun ?_ (by decide) rfl⟩
    exact List.forall_mem_singleton.mpr (not_overflows_ok _)
  · have hready : ∀ t ∈ 0 :: (⟨2, 2⟩ : Workload).poppers, prefilled.world.ready 0 t := by
      decide +kernel
    exact (hhazard 2 _ prefilled.world 0 [] (Machine.run_follow _ _)).1 (by decide +kernel)
      (by decide +kernel)
      ⟨fun t ht ↦ hready t (List.mem_cons.mpr ht), by decide +kernel, by decide⟩
      (by decide +kernel)
  · obtain ⟨fault, -, hfault⟩ :=
      (hhazard 2 _ prefilledElsewhere.world 0 [] (Machine.run_follow _ _)).2 1 (by decide)
        (by decide +kernel) 1
    exact ⟨fault, hfault⟩

end Workload

end Reclaim
