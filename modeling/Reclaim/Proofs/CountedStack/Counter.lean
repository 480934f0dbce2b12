import Mathlib.Algebra.Order.Ring.Int
import Reclaim.CountedStack.Counter

/-!
# Arithmetic of internal counts

Internal counts are signed words that wrap around. Settling and releasing both add to the count and
free the node exactly if that brings the count to zero. Releasing never faults; settling faults on
three external counts, the first of which is `2 ^ 63`.
-/

namespace Reclaim

def Fault.isArithmetic : Fault → Bool
  | addOverflow | subOverflow | negOverflow | mulOverflow => true
  | _ => false

def Overflows {ρ : Type} (result : Except Fault ρ) : Prop :=
  ∃ fault, result = .error fault ∧ fault.isArithmetic = true

theorem overflows_map {ρ ρ' : Type} {result : Except Fault ρ} {f : ρ → ρ'} :
    Overflows (result.map f) ↔ Overflows result := by
  cases result with
  | error fault => simp [Overflows, Except.map]
  | ok answer => simp [Overflows, Except.map]

theorem not_overflows_ok {ρ : Type} (answer : ρ) : ¬ Overflows (.ok answer) := by
  rintro ⟨fault, hfault, -⟩
  cases hfault

namespace Counter

/-- Read as a signed word, an external count keeps its value up to multiples of `2 ^ 64`. -/
theorem toInt64_eq_ofInt (external : UInt64) : external.toInt64 = Int64.ofInt external.toNat := by
  rw [Int64.ofInt_eq_ofNat, ← UInt64.toInt64_ofNat', UInt64.ofNat_toNat]

theorem toInt_toInt64 (external : UInt64) :
    external.toInt64.toInt =
      if external.toNat < 2 ^ 63 then (external.toNat : Int) else external.toNat - 2 ^ 64 := by
  have hlt := external.toNat_lt
  rw [toInt64_eq_ofInt, Int64.toInt_ofInt, Int.bmod_def, Int64.size]
  split <;> split <;> omega

theorem ofInt_eq_zero_iff_dvd {n : Int} : Int64.ofInt n = 0 ↔ (2 ^ 64 : Int) ∣ n := by
  rw [Int64.ofInt_eq_iff_bmod_eq_toInt, Int64.toInt_zero, ← Int.dvd_iff_bmod_eq_zero]
  rfl

theorem ofInt_eq_zero_iff {n : Int} (hlower : -2 ^ 64 < n) (hupper : n < 2 ^ 64) :
    Int64.ofInt n = 0 ↔ n = 0 := by
  rw [ofInt_eq_zero_iff_dvd]
  omega

/-- Taking two away overflows on the two least signed words, `2 ^ 63` and `2 ^ 63 + 1`. -/
theorem subSigned_two (external : UInt64) :
    Checked.subSigned external.toInt64 2 =
      if external.toNat = 2 ^ 63 ∨ external.toNat = 2 ^ 63 + 1 then .error .subOverflow
      else .ok (external.toInt64 - 2) := by
  have hlt := external.toNat_lt
  have htwo : Int64.toInt 2 = 2 := rfl
  unfold Checked.subSigned
  simp only [toInt_toInt64, htwo, Int64.toInt_minValue, Int64.toInt_maxValue]
  split <;> split <;> split <;> first | rfl | omega

/-- Of all external counts, only `2 ^ 63 + 2` leaves the least signed word when two is taken. -/
theorem sub_two_eq_minValue_iff (external : UInt64) :
    external.toInt64 - 2 = Int64.minValue ↔ external.toNat = 2 ^ 63 + 2 := by
  have hlt := external.toNat_lt
  rw [Int64.sub_eq_iff_eq_add, ← Int64.toInt_inj, toInt_toInt64]
  have hleast : (Int64.minValue + 2).toInt = -2 ^ 63 + 2 := by decide
  rw [hleast]
  split <;> omega

theorem settle_eq (internal : Int64) (external : UInt64) :
    settle internal external =
      if external.toNat = 2 ^ 63 ∨ external.toNat = 2 ^ 63 + 1 then (internal, .error .subOverflow)
      else (internal + (external.toInt64 - 2),
        if external.toNat = 2 ^ 63 + 2 then .error .negOverflow
        else .ok (decide (internal + (external.toInt64 - 2) = 0))) := by
  have hzero (opposite : Int64) : internal = -opposite ↔ internal + opposite = 0 := by grind
  unfold settle
  rw [subSigned_two]
  by_cases hsub : external.toNat = 2 ^ 63 ∨ external.toNat = 2 ^ 63 + 1
  · rw [if_pos hsub, if_pos hsub]
  · rw [if_neg hsub, if_neg hsub]
    simp only [Checked.negSigned, sub_two_eq_minValue_iff]
    split
    · rfl
    · simp only [Except.map, hzero]

/-- What settling and releasing add to an internal count, as integers. -/
theorem add_toInt64_sub_two (internal : Int64) (external : UInt64) :
    internal + (external.toInt64 - 2) = Int64.ofInt (internal.toInt + (external.toNat - 2)) := by
  rw [Int64.ofInt_add, Int64.ofInt_sub, Int64.ofInt_toInt, ← toInt64_eq_ofInt]
  rfl

theorem sub_one_eq_ofInt (internal : Int64) : internal - 1 = Int64.ofInt (internal.toInt - 1) := by
  rw [Int64.ofInt_sub, Int64.ofInt_toInt]
  rfl

theorem release_eq (internal : Int64) :
    release internal = (internal - 1, decide (internal - 1 = 0)) := by
  have hzero : internal = 1 ↔ internal - 1 = 0 := by grind
  rw [release, decide_eq_decide.mpr hzero]

end Counter

end Reclaim
