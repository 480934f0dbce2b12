import Mathlib.Algebra.Order.Ring.Int
import Mathlib.Data.List.Nodup
import Mathlib.Data.List.Range
import Reclaim.CountedRef.Script

/-!
# Packing counted references into words

A double word is the address plus `2 ^ 64` times the count, and every double word is one in exactly
one way. Comparing words therefore compares address and count, and a claim adds `2 ^ 64` to the word
without touching its low half. From a count that is not full, claims run through distinct words
until the count is full; the next claim faults.
-/

namespace Reclaim

theorem toNat_add_one_of_ne {count : UInt64} (hroom : count.toNat ≠ 2 ^ 64 - 1) :
    (count + 1).toNat = count.toNat + 1 := by
  have hlt := count.toNat_lt
  rw [UInt64.toNat_add]
  exact Nat.mod_eq_of_lt (by change count.toNat + 1 < 2 ^ 64; omega)

namespace CountedRef

theorem claimed_eq {ν : Type} (p : CountedRef ν) :
    p.claimed = if p.count.toNat = 2 ^ 64 - 1 then .error .addOverflow
      else .ok ⟨p.node, p.count + 1⟩ := by
  have hlt := p.count.toNat_lt
  have hone : (1 : UInt64).toNat = 1 := rfl
  have hsize : UInt64.size = 2 ^ 64 := rfl
  unfold claimed Checked.add
  rw [hone, hsize]
  split <;> split <;> first | rfl | omega

/-- The two halves do not overlap, so writing them over each other joins them. -/
theorem encode_eq_append (p : CountedRef UInt64) :
    p.encode = p.count.toBitVec ++ p.node.toBitVec := by
  rw [BitVec.append_def, BitVec.shiftLeftZeroExtend_eq, BitVec.setWidth'_eq, BitVec.or_comm]
  rfl

theorem toNat_encode (p : CountedRef UInt64) :
    p.encode.toNat = p.node.toNat + p.count.toNat * 2 ^ 64 := by
  have hnode : p.node.toBitVec.toNat < 2 ^ 64 := p.node.toNat_lt
  rw [encode_eq_append, BitVec.toNat_append, ← Nat.shiftLeft_add_eq_or_of_lt hnode,
    Nat.shiftLeft_eq, Nat.add_comm]
  rfl

@[simp]
theorem setWidth_encode (p : CountedRef UInt64) : p.encode.setWidth 64 = p.node.toBitVec := by
  apply BitVec.eq_of_toNat_eq
  rw [BitVec.toNat_setWidth, toNat_encode, Nat.add_mul_mod_self_right]
  exact Nat.mod_eq_of_lt p.node.toNat_lt

@[simp]
theorem setWidth_encode_shiftRight (p : CountedRef UInt64) :
    (p.encode >>> 64).setWidth 64 = p.count.toBitVec := by
  apply BitVec.eq_of_toNat_eq
  rw [BitVec.toNat_setWidth, BitVec.toNat_ushiftRight, toNat_encode, Nat.shiftRight_eq_div_pow,
    Nat.add_mul_div_right _ _ (by decide), Nat.div_eq_of_lt p.node.toNat_lt, Nat.zero_add]
  exact Nat.mod_eq_of_lt p.count.toNat_lt

theorem decode_encode (p : CountedRef UInt64) : decode p.encode = p := by
  rw [decode, setWidth_encode, setWidth_encode_shiftRight]

theorem encode_decode (word : BitVec 128) : (decode word).encode = word := by
  apply BitVec.eq_of_toNat_eq
  have hnode : (decode word).node.toNat = word.toNat % 2 ^ 64 := BitVec.toNat_setWidth 64 word
  have hcount : (decode word).count.toNat = word.toNat / 2 ^ 64 := by
    have hlt : word.toNat / 2 ^ 64 < 2 ^ 64 := by
      have hword := word.isLt
      omega
    change ((word >>> 64).setWidth 64).toNat = _
    rw [BitVec.toNat_setWidth, BitVec.toNat_ushiftRight, Nat.shiftRight_eq_div_pow]
    exact Nat.mod_eq_of_lt hlt
  rw [toNat_encode, hnode, hcount]
  exact Nat.mod_add_div' word.toNat (2 ^ 64)

/-- Comparing words compares addresses and counts. -/
theorem encode_inj {p q : CountedRef UInt64} : p.encode = q.encode ↔ p = q := by
  constructor
  · intro hword
    rw [← decode_encode p, hword, decode_encode]
  · exact congrArg encode

/-- Claims that the count has room for keep the address and raise the count by their number. -/
theorem claimedTimes_eq {p : CountedRef UInt64} {times : Nat}
    (hroom : p.count.toNat + times < 2 ^ 64) :
    ∃ count, claimedTimes times p = (⟨p.node, count⟩, .ok ()) ∧
      count.toNat = p.count.toNat + times := by
  induction times generalizing p with
  | zero => exact ⟨p.count, rfl, rfl⟩
  | succ times ih =>
    have hclaim : p.count.toNat ≠ 2 ^ 64 - 1 := by omega
    have hnext := toNat_add_one_of_ne hclaim
    obtain ⟨count, htimes, hcount⟩ := @ih ⟨p.node, p.count + 1⟩ (by rw [hnext]; omega)
    refine ⟨count, ?_, ?_⟩
    · rw [claimedTimes, claimed_eq, if_neg hclaim]
      exact htimes
    · rw [hcount, hnext]
      omega

/-- Each claim adds `2 ^ 64` to the word. -/
theorem toNat_encode_claimedTimes {p : CountedRef UInt64} {times : Nat}
    (hroom : p.count.toNat + times < 2 ^ 64) :
    (claimedTimes times p).1.encode.toNat = p.encode.toNat + times * 2 ^ 64 := by
  obtain ⟨count, htimes, hcount⟩ := claimedTimes_eq hroom
  rw [htimes, toNat_encode, toNat_encode, hcount, Nat.add_mul, Nat.add_assoc]

/-- No two of the words that claims run through are equal. -/
theorem nodup_claimedTimes {p : CountedRef UInt64} {times : Nat}
    (hroom : p.count.toNat + times < 2 ^ 64) :
    ((List.range (times + 1)).map fun i ↦ (claimedTimes i p).1.encode).Nodup := by
  refine List.Nodup.map_on ?_ List.nodup_range
  intro i hi j hj hword
  have hi := List.mem_range.mp hi
  have hj := List.mem_range.mp hj
  have hnat := congrArg BitVec.toNat hword
  rw [toNat_encode_claimedTimes (by omega), toNat_encode_claimedTimes (by omega)] at hnat
  omega

/-- A claim adds `2 ^ 64` to the word; nothing is carried into the address or out of the word. -/
theorem encode_claimed {p : CountedRef UInt64} (hroom : p.count.toNat < 2 ^ 64 - 1) :
    ∃ q, p.claimed = .ok q ∧ q.encode = p.encode + BitVec.ofNat 128 (2 ^ 64) ∧
      q.encode.toNat = p.encode.toNat + 2 ^ 64 ∧
      q.encode.setWidth 64 = p.encode.setWidth 64 := by
  have hclaim : p.count.toNat ≠ 2 ^ 64 - 1 := Nat.ne_of_lt hroom
  have hnat : (⟨p.node, p.count + 1⟩ : CountedRef UInt64).encode.toNat =
      p.encode.toNat + 2 ^ 64 := by
    rw [toNat_encode, toNat_encode, toNat_add_one_of_ne hclaim, Nat.add_mul, Nat.one_mul,
      Nat.add_assoc]
  refine ⟨⟨p.node, p.count + 1⟩, ?_, ?_, hnat, ?_⟩
  · rw [claimed_eq, if_neg hclaim]
  · apply BitVec.eq_of_toNat_eq
    have hlt := (⟨p.node, p.count + 1⟩ : CountedRef UInt64).encode.isLt
    rw [hnat] at hlt
    rw [BitVec.toNat_add, BitVec.toNat_ofNat, hnat]
    exact (Nat.mod_eq_of_lt hlt).symm
  · rw [setWidth_encode, setWidth_encode]

/-- Packing is a bijection between references and double words, under which equal words are equal
addresses with equal counts. A claim on a count that is not full adds `2 ^ 64` to the word and
leaves the address half alone, so claims in a row raise the count by their number through words that
are all distinct; on a full count a claim faults. Whether a reference is null depends on its
address. -/
theorem packing_faithful :
    (∀ address count : UInt64, decode (encode ⟨address, count⟩) = ⟨address, count⟩) ∧
      (∀ word : BitVec 128, (decode word).encode = word) ∧
      (∀ p q : CountedRef UInt64, (p = q ↔ p.encode = q.encode) ∧
        (p.encode = q.encode ↔ p.node = q.node ∧ p.count = q.count)) ∧
      (∀ p : CountedRef UInt64, p.count.toNat < 2 ^ 64 - 1 → ∃ q, p.claimed = .ok q ∧
        q.encode = p.encode + BitVec.ofNat 128 (2 ^ 64) ∧
        q.encode.toNat = p.encode.toNat + 2 ^ 64 ∧
        q.encode.setWidth 64 = p.encode.setWidth 64) ∧
      (∀ (p : CountedRef UInt64) (times : Nat), times ≤ 2 ^ 64 - 1 - p.count.toNat →
        ∃ count, claimedTimes times p = (⟨p.node, count⟩, .ok ()) ∧
          count.toNat = p.count.toNat + times ∧
          ((List.range (times + 1)).map fun i ↦ (claimedTimes i p).1.encode).Nodup) ∧
      (∀ p : CountedRef UInt64,
        p.claimed = .error .addOverflow ↔ p.count.toNat = 2 ^ 64 - 1) ∧
      ∀ address count : UInt64, isNull ⟨address, count⟩ = decide (address = 0) := by
  refine ⟨?_, encode_decode, ?_, ?_, ?_, ?_, ?_⟩
  · intro address count
    exact decode_encode ⟨address, count⟩
  · rintro ⟨node, count⟩ ⟨node', count'⟩
    exact ⟨encode_inj.symm, encode_inj.trans (Iff.of_eq (CountedRef.mk.injEq ..))⟩
  · intro p hroom
    exact encode_claimed hroom
  · intro p times htimes
    have hroom : p.count.toNat + times < 2 ^ 64 := by
      have hlt := p.count.toNat_lt
      omega
    obtain ⟨count, hclaimed, hcount⟩ := claimedTimes_eq hroom
    exact ⟨count, hclaimed, hcount, nodup_claimedTimes hroom⟩
  · intro p
    rw [claimed_eq]
    by_cases hfull : p.count.toNat = 2 ^ 64 - 1
    · rw [if_pos hfull]
      exact ⟨fun _ ↦ hfull, fun _ ↦ rfl⟩
    · rw [if_neg hfull]
      exact ⟨nofun, fun hcount ↦ absurd hcount hfull⟩
  · intro address count
    rfl

/-- An odd address in the upper half of the address space, claimed twice until its count is full. -/
theorem packing_faithful_odd :
    ∃ once twice : CountedRef UInt64,
      (⟨0x8000000000001235, 0xfffffffffffffffd⟩ : CountedRef UInt64).claimed = .ok once ∧
        once.encode.setWidth 64 = 0x8000000000001235#64 ∧
        claimedTimes 2 ⟨0x8000000000001235, 0xfffffffffffffffd⟩ = (twice, .ok ()) ∧
        twice.claimed = .error .addOverflow := by
  obtain ⟨-, -, -, hclaim, hclaims, hfull, -⟩ := packing_faithful
  obtain ⟨once, honce, -, -, hlow⟩ :=
    hclaim ⟨0x8000000000001235, 0xfffffffffffffffd⟩ (by decide)
  obtain ⟨count, htwice, hcount, -⟩ :=
    hclaims ⟨0x8000000000001235, 0xfffffffffffffffd⟩ 2 (Nat.le_refl 2)
  exact ⟨once, _, honce, hlow.trans (setWidth_encode _), htwice, (hfull _).mpr hcount⟩

end CountedRef

end Reclaim
