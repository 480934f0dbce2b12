import Reclaim.Proofs.CountedStack.Steps
import Reclaim.Proofs.CountedStack.Tally

/-!
# Effects

What a single step on shared memory can do to a ledger: a node is pushed, claimed, unlinked, or a
claim on it is finished. A whole pop is three effects in a row, and dropping the stack is as many
pops as it takes. Whatever holds of all effects therefore holds of all steps.
-/

namespace Reclaim.CountedStack.Ledger

variable {α : Type}

/-- The two ways to finish a claim: the stages before and after, and what is added to the internal
count. -/
inductive Finish (ref : Ref) : Stage → Stage → Int64 → Prop
  | settle : Finish ref .unlinked .settled (ref.count.toInt64 - 2)
  | release : Finish ref .held .released (-1)

def afterClaim (s : Ledger α) : Ledger α :=
  { s with
    stack := { s.stack with head := ⟨s.stack.head.node, s.stack.head.count + 1⟩ }
    claims := s.claims ++ [⟨⟨s.stack.head.node, s.stack.head.count + 1⟩, .held⟩] }

def afterUnlink (s : Ledger α) (token : Nat) (contents : Node α) : Ledger α :=
  { s with
    stack := { s.stack with head := contents.next }
    claims := s.advance token s.stack.head .unlinked }

/-- The ledger after a claim on a node is finished and leaves its internal count at `count`. -/
def afterFinish (s : Ledger α) (token : Nat) (claim : Claim) (node : NodeId) (count : Int64) :
    Ledger α :=
  { s with
    stack := (s.stack.finish node count).state
    claims := s.advance token claim.ref claim.stage }

/-- One step on shared memory leads from `s` to the ledger at the end and frees these nodes. -/
inductive Effect (s : Ledger α) : List NodeId → Ledger α → Prop
  | push (value : α) : Effect s [] { s with stack := (s.stack.push value).2 }
  | claim {top : NodeId} (hhead : s.stack.head.node = some top)
      (hroom : s.stack.head.count.toNat ≠ 2 ^ 64 - 1) :
      Effect s [] s.afterClaim
  | unlink {token : Nat} {top : NodeId} {contents : Node α}
      (hclaim : s.claims[token]? = some ⟨s.stack.head, .held⟩)
      (hhead : s.stack.head.node = some top) (hget : s.stack.heap.get? top = some contents) :
      Effect s [] (s.afterUnlink token contents)
  | finish {token : Nat} {ref : Ref} {old new : Stage} {delta : Int64} {node : NodeId}
      {contents : Node α} (hfinish : Finish ref old new delta)
      (hclaim : s.claims[token]? = some ⟨ref, old⟩) (hnode : ref.node = some node)
      (hget : s.stack.heap.get? node = some contents) :
      Effect s (if contents.internalCount + delta = 0 then [node] else [])
        (s.afterFinish token ⟨ref, new⟩ node (contents.internalCount + delta))
  | close : Effect s [] { s with dropped := true }

/-- Effects one after another, with all the nodes that they free. -/
inductive Effects (s : Ledger α) : List NodeId → Ledger α → Prop
  | refl : Effects s [] s
  | tail {freed freed' : List NodeId} {t u : Ledger α} (heffects : Effects s freed t)
      (heffect : Effect t freed' u) : Effects s (freed ++ freed') u

namespace Effects

variable {s t u : Ledger α} {freed freed' : List NodeId}

theorem single (heffect : Effect s freed t) : Effects s freed t := by
  have h := Effects.refl.tail heffect
  rwa [List.nil_append] at h

theorem trans (hst : Effects s freed t) (htu : Effects t freed' u) :
    Effects s (freed ++ freed') u := by
  induction htu with
  | refl =>
    rw [List.append_nil]
    exact hst
  | tail _ heffect ih =>
    rw [← List.append_assoc]
    exact ih.tail heffect

end Effects

end Reclaim.CountedStack.Ledger
