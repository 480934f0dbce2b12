import Reclaim.Fault

/-!
# Checked machine arithmetic

Operations on 64-bit words that answer a fault where the exact result does not fit the word.
-/

namespace Reclaim.Checked

/-- The sum of two unsigned words, if it is below `2 ^ 64`. -/
def add (a b : UInt64) : Except Fault UInt64 :=
  if a.toNat + b.toNat < UInt64.size then .ok (a + b) else .error .addOverflow

/-- The product of two unsigned words, if it is below `2 ^ 64`. -/
def mul (a b : UInt64) : Except Fault UInt64 :=
  if a.toNat * b.toNat < UInt64.size then .ok (a * b) else .error .mulOverflow

/-- The difference of two signed words, if it is a signed word. -/
def subSigned (a b : Int64) : Except Fault Int64 :=
  let exact := a.toInt - b.toInt
  if Int64.minValue.toInt ≤ exact ∧ exact ≤ Int64.maxValue.toInt then .ok (a - b)
  else .error .subOverflow

/-- The opposite of a signed word; the least word has none. -/
def negSigned (a : Int64) : Except Fault Int64 :=
  if a = Int64.minValue then .error .negOverflow else .ok (-a)

theorem add_eq_ok {a b c : UInt64} (h : add a b = .ok c) : c.toNat = a.toNat + b.toNat := by
  unfold add at h
  split at h
  · next fits =>
    cases h
    rw [UInt64.toNat_add, Nat.mod_eq_of_lt fits]
  · cases h

end Reclaim.Checked
