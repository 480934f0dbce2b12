import Reclaim.Proofs.CountedStack.Ownership
import Reclaim.Proofs.Hazard.Whereabouts

/-!
# Who owns a value

On both stacks that share their nodes a value is linked, and then with the pop or the token that
unlinked its node, until it is handed out or destroyed. The node it was in may be freed much later,
and nothing of the value is left in it then.
-/

namespace Reclaim

open CountedStack Hazard

/-- Every value leaves a stack exactly once, by an answer or by its destruction. -/
theorem every_value_leaves_once {α : Type} [Destructor α] :
    (∀ (moves : List (Ledger.Move α)) (t : Ledger α), Ledger.Run {} moves t →
      Ledger.TokensFine moves → Ledger.LeaveOnce moves t) ∧
    (∀ (n : Nat) (moves : List (Hazard.Move n α)) (m : Machine n α),
      Hazard.Run Machine.empty moves m → Hazard.LeaveOnce moves m) := by
  constructor
  · intro moves t hrun hfine
    exact hrun.leaveOnce hfine
  · intro n moves m hrun
    exact hrun.leaveOnce

/-- Of three values the first is popped while a deleter that faults waits in the registry, the
second is popped after that, and the third is in the stack when it is dropped. -/
def popOverFault : List (Deed Nat) :=
  [.addRegistry, .addStack 0, .spawn, .addObject [.raise .nullRetired], .issue 0 (.tryClaim 0),
    .issue 0 (.push 0 10), .issue 0 (.push 0 11), .issue 0 (.push 0 12),
    .issue 0 (.publish 0 (some (.object 0))), .issue 0 (.retire 0 (some 0)),
    .issue 0 (.popUsing 0 0)] ++ List.replicate 8 .proceed ++
  [.issue 0 (.popUsing 0 0)] ++ List.replicate 8 .proceed ++ [.dropStack 0]

def afterPopOverFault : List (Hazard.Move 1 Nat) × Machine 1 Nat :=
  Machine.empty.follow popOverFault

/-- The settlement after the drop hands out the only value. The pop that faults destroys the value
it took, the next one hands its value out, and the drop destroys the last. -/
theorem every_value_leaves_once_fault :
    Ledger.LeaveOnce
      (Ledger.contention ++ [Ledger.unlinking] ++ Ledger.leaving ++ [Ledger.settling])
      Ledger.settling.reply.state ∧
    Hazard.LeaveOnce afterPopOverFault.1 afterPopOverFault.2 ∧
    valuesOn 0 (whereabouts afterPopOverFault.1).handedOut = [11] ∧
    valuesOn 0 (whereabouts afterPopOverFault.1).destroyed = [10, 12] := by
  obtain ⟨hcounted, hhazard⟩ := every_value_leaves_once (α := Nat)
  refine ⟨?_, ?_, by decide +kernel, by decide +kernel⟩
  · apply hcounted _ _ Ledger.run_settling
    intro move hmem _
    simp only [Ledger.contention, Ledger.leaving, List.cons_append, List.nil_append, List.mem_cons,
      List.not_mem_nil, or_false] at hmem
    rcases hmem with rfl | rfl | rfl | rfl | rfl | rfl | rfl <;> exact ⟨_, rfl⟩
  · exact hhazard 1 _ _ (Machine.empty.run_follow popOverFault)

end Reclaim
