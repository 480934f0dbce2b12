import Reclaim.Checked

/-!
# Counted references

A counted reference is an address together with the number of claims handed out through it.  The two
change hands as one double word, the address in its low half and the count in its high half, so that
one compare-and-swap compares and replaces both at once.
-/

namespace Reclaim

/-- Addresses with a null among them. -/
class Nullable (ν : Type) where
  null : ν

instance : Nullable UInt64 := ⟨0⟩

instance {β : Type} : Nullable (Option β) := ⟨none⟩

/-- An address and the count of the claims handed out through it. -/
structure CountedRef (ν : Type) where
  node : ν
  count : UInt64
deriving DecidableEq

namespace CountedRef

variable {ν : Type}

/-- The null reference, with nothing counted. -/
def null [Nullable ν] : CountedRef ν := ⟨Nullable.null, 0⟩

/-- Whether the address is null; the count does not matter. -/
def isNull [Nullable ν] [DecidableEq ν] (p : CountedRef ν) : Bool := p.node = Nullable.null

/-- The reference with one more claim handed out through it; a full count faults. -/
def claimed (p : CountedRef ν) : Except Fault (CountedRef ν) :=
  (Checked.add p.count 1).map fun count ↦ { p with count }

/-- The double word: the address as it is, and the count moved up by the width of an address. -/
def encode (p : CountedRef UInt64) : BitVec 128 :=
  p.node.toBitVec.setWidth 128 ||| p.count.toBitVec.setWidth 128 <<< 64

/-- The reference in a double word. -/
def decode (word : BitVec 128) : CountedRef UInt64 :=
  ⟨⟨word.setWidth 64⟩, ⟨(word >>> 64).setWidth 64⟩⟩

/-- A claim keeps the address and raises the count by one. -/
theorem claimed_eq_ok {p q : CountedRef ν} (h : p.claimed = .ok q) :
    q.node = p.node ∧ q.count.toNat = p.count.toNat + 1 := by
  unfold claimed at h
  cases sum : Checked.add p.count 1 with
  | error fault => rw [sum] at h; cases h
  | ok count =>
    rw [sum] at h
    cases h
    exact ⟨rfl, Checked.add_eq_ok sum⟩

end CountedRef

end Reclaim
