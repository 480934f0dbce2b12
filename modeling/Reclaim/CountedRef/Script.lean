import Reclaim.CountedRef.Basic
import Reclaim.Text.Record

/-!
# Scripts on one counted reference

A script keeps one current reference, replaces it step by step, and shows it after each step.
-/

namespace Reclaim.CountedRef

def asLine (p : CountedRef UInt64) : String :=
  Text.record "CountedPtr"
    [("node", Text.address p.node), ("external_count", toString p.count.toNat)]

def asLines (p : CountedRef UInt64) : String :=
  Text.recordLines "CountedPtr"
    [("node", Text.fullAddress p.node), ("external_count", toString p.count.toNat)]

inductive Request where
  | null
  | new (address count : UInt64)
  | decode (word : BitVec 128)
  | reencode
  | claimed (times : Nat)
  | compare (address count : UInt64)

/-- What a step shows: the current reference, or how it compares with another one as a reference and
as a double word, and with a copy of itself. -/
inductive Answer where
  | current (p : CountedRef UInt64)
  | compared (equal sameWord equalToCopy : Bool)

def claimedTimes : Nat → CountedRef UInt64 → CountedRef UInt64 × Except Fault Unit
  | 0, p => (p, .ok ())
  | times + 1, p =>
    match p.claimed with
    | .error fault => (p, .error fault)
    | .ok q => claimedTimes times q

def perform (p : CountedRef UInt64) : Request → CountedRef UInt64 × Ending Answer
  | .null => (CountedRef.null, .answered (.current CountedRef.null))
  | .new address count => (⟨address, count⟩, .answered (.current ⟨address, count⟩))
  | .decode word => (CountedRef.decode word, .answered (.current (CountedRef.decode word)))
  | .reencode =>
    let q := CountedRef.decode p.encode
    (q, .answered (.current q))
  | .claimed times =>
    let (q, result) := claimedTimes times p
    (q, .ofExcept (result.map fun _ ↦ .current q))
  | .compare address count =>
    let other : CountedRef UInt64 := ⟨address, count⟩
    (p, .answered (.compared (decide (p = other)) (decide (p.encode = other.encode))
      (decide (p = p))))

end Reclaim.CountedRef
