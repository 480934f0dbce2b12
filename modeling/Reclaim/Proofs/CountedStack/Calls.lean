import Reclaim.Proofs.CountedStack.Pops
import Reclaim.Proofs.SharedStack.Calls

/-!
# Rows of calls

Pushes and pops follow one another on a counted stack while no other step is taken. A fault ends the
call that meets it, and the next call goes on from the stack that it left. What the counts are at
the start does not matter here, nor how they came about.
-/

namespace Reclaim.CountedStack

open SharedStack (Call)

variable {α : Type} {s t : CountedStack α}

/-- A call on a stack, with all that it logs. -/
def call (s : CountedStack α) : Call α → Outcome (CountedStack α) (Event α) (SharedStack.Answer α)
  | .push value => ⟨(s.push value).2, [], .ok .pushed⟩
  | .pop => ⟨s.pop.state, s.pop.events, s.pop.result.map .popped⟩
  | .isEmpty => ⟨s, [], .ok (.empty s.isEmpty)⟩

def afterCalls (s : CountedStack α) : List (Call α) → CountedStack α
  | [] => s
  | call :: calls => (s.call call).state.afterCalls calls

def replies (s : CountedStack α) :
    List (Call α) → List (List (Event α) × Except Fault (SharedStack.Answer α))
  | [] => []
  | call :: calls => ((s.call call).events, (s.call call).result) ::
      (s.call call).state.replies calls

def freedByCalls (s : CountedStack α) (calls : List (Call α)) : List NodeId :=
  (s.replies calls).flatMap fun reply ↦ Ledger.freedNodes reply.1

end Reclaim.CountedStack
