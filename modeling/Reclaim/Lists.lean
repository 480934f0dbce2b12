/-!
# Lists

Most of this is about what happens to sums, counts and concatenations over a list when one of its
members changes.
-/

namespace Reclaim

variable {β γ : Type} {l : List β} {i : Nat} {a b : β}

theorem set_of_getElem? (hget : l[i]? = some a) : l.set i a = l := by
  obtain ⟨hlt, rfl⟩ := List.getElem?_eq_some_iff.mp hget
  exact List.set_getElem_self hlt

theorem modify_append_cons (f : β → β) (before after : List β) (b : β) :
    (before ++ b :: after).modify before.length f = before ++ f b :: after := by
  induction before with
  | nil => rfl
  | cons first before ih => exact congrArg (List.cons first) ih

theorem foldr_add_modify (f : β → Nat) (g : β → β) (hget : l[i]? = some a) :
    (l.modify i g).foldr (f · + ·) 0 + f a = l.foldr (f · + ·) 0 + f (g a) := by
  induction l generalizing i with
  | nil => cases hget
  | cons first rest ih =>
    cases i with
    | zero =>
      obtain rfl : first = a := Option.some.inj hget
      simp only [List.modify_zero_cons, List.foldr_cons]
      omega
    | succ i =>
      have hrest := ih (i := i) hget
      simp only [List.modify_succ_cons, List.foldr_cons]
      omega

theorem countP_set_succ {p : β → Bool} (hget : l[i]? = some a) (ha : p a = false)
    (hb : p b = true) : (l.set i b).countP p = l.countP p + 1 := by
  obtain ⟨hlt, rfl⟩ := List.getElem?_eq_some_iff.mp hget
  simp [List.countP_set hlt, ha, hb]

theorem countP_eq_succ_set {p : β → Bool} (hget : l[i]? = some a) (ha : p a = true)
    (hb : p b = false) : l.countP p = (l.set i b).countP p + 1 := by
  have hget' : (l.set i b)[i]? = some b := by
    rw [List.getElem?_set_self (List.getElem?_eq_some_iff.mp hget).1]
  have hcount := countP_set_succ hget' hb ha
  rwa [List.set_set, set_of_getElem? hget] at hcount

theorem map_set_of_eq (hget : l[i]? = some a) {f : β → γ} (hf : f b = f a) :
    (l.set i b).map f = l.map f := by
  rw [List.map_set, hf]
  exact set_of_getElem? (by rw [List.getElem?_map, hget]; rfl)

theorem flatMap_set_of_eq (hget : l[i]? = some a) {f : β → List γ} (hf : f b = f a) :
    (l.set i b).flatMap f = l.flatMap f := by
  rw [List.flatMap_def, List.flatMap_def, map_set_of_eq hget hf]

/-- What one member contributes stands beside what the others do. -/
theorem exists_perm_set (hget : l[i]? = some a) (f : β → List γ) :
    ∃ rest, (l.flatMap f).Perm (f a ++ rest) ∧
      ∀ b, ((l.set i b).flatMap f).Perm (f b ++ rest) := by
  induction l generalizing i with
  | nil => cases hget
  | cons first l ih =>
    cases i with
    | zero =>
      obtain rfl : first = a := Option.some.inj hget
      exact ⟨l.flatMap f, .refl _, fun _ ↦ .refl _⟩
    | succ i =>
      obtain ⟨rest, hbefore, hafter⟩ := ih hget
      have hmiddle (xs : List γ) : (f first ++ (xs ++ rest)).Perm (xs ++ (f first ++ rest)) :=
        List.perm_append_comm_assoc _ _ _
      exact ⟨f first ++ rest, (hbefore.append_left _).trans (hmiddle _),
        fun b ↦ ((hafter b).append_left _).trans (hmiddle _)⟩

theorem flatMap_set_perm (hget : l[i]? = some a) {f : β → List γ} {x : γ}
    (hf : f b = f a ++ [x]) : ((l.set i b).flatMap f).Perm (x :: l.flatMap f) := by
  obtain ⟨rest, hbefore, hafter⟩ := exists_perm_set hget f
  have hmiddle : (f b ++ rest).Perm (x :: (f a ++ rest)) := by
    rw [hf, List.append_assoc]
    exact List.perm_middle
  exact ((hafter b).trans hmiddle).trans (hbefore.symm.cons x)

/-- Rows of the same length, one after another, are one row. -/
theorem flatMap_range_map (rows length : Nat) :
    ((List.range rows).flatMap fun row ↦ (List.range length).map (row * length + ·)) =
      List.range (rows * length) := by
  induction rows with
  | zero => rw [Nat.zero_mul]; rfl
  | succ rows ih =>
    rw [List.range_succ, List.flatMap_append, ih, Nat.succ_mul, List.range_add]
    simp

open List in
/-- What is split into three parts is still so after some of the last part has gone into the others
and something new has come. -/
theorem append_perm_append {before out gone rest new out' gone' rest' : List β}
    (hbefore : before.Perm (out ++ gone ++ rest))
    (hmove : (new ++ rest).Perm (out' ++ gone' ++ rest')) :
    (before ++ new).Perm (out ++ out' ++ (gone ++ gone') ++ rest') := by
  calc
    before ++ new ~ out ++ gone ++ (rest ++ new) := by
      rw [← List.append_assoc]
      exact hbefore.append_right new
    _ ~ out ++ gone ++ (new ++ rest) := List.perm_append_comm.append_left _
    _ ~ out ++ gone ++ (out' ++ gone' ++ rest') := hmove.append_left _
    _ ~ out ++ out' ++ (gone ++ gone') ++ rest' := by
      simp only [List.append_assoc]
      exact (List.perm_append_comm_assoc gone out' _).append_left out

theorem length_takeWhile_le_count (flags : List Bool) :
    (flags.takeWhile id).length ≤ flags.count true := by
  have htrue : (flags.takeWhile id).count true = (flags.takeWhile id).length :=
    List.count_eq_length.mpr fun flag hmem ↦ (List.all_eq_true.mp List.all_takeWhile flag hmem).symm
  rw [← htrue]
  exact (List.takeWhile_sublist id).count_le true

/-- A list of words that are the numbers below some bound, each once, is sorted into these. -/
theorem mergeSort_eq_range {words : List UInt64} {count : Nat}
    (hperm : (words.map UInt64.toNat).Perm (List.range count)) :
    words.mergeSort (· ≤ ·) = (List.range count).map UInt64.ofNat := by
  have hsorted : (words.mergeSort (· ≤ ·)).Pairwise (· ≤ ·) := by
    refine (List.pairwise_mergeSort (fun a b c hab hbc ↦ ?_) (fun a b ↦ ?_) words).imp
      of_decide_eq_true
    · exact decide_eq_true (UInt64.le_trans (of_decide_eq_true hab) (of_decide_eq_true hbc))
    · rw [Bool.or_eq_true, decide_eq_true_eq, decide_eq_true_eq]
      exact UInt64.le_total a b
  have hnumbers : (words.mergeSort (· ≤ ·)).map UInt64.toNat = List.range count := by
    refine List.Perm.eq_of_pairwise (fun _ _ _ _ ↦ Nat.le_antisymm) ?_ ?_
      (((List.mergeSort_perm words _).map _).trans hperm)
    · exact List.pairwise_map.mpr (hsorted.imp UInt64.le_iff_toNat_le.mp)
    · exact List.pairwise_lt_range.imp Nat.le_of_lt
  rw [← hnumbers, List.map_map]
  exact ((List.map_congr_left fun word _ ↦ UInt64.ofNat_toNat).trans (List.map_id _)).symm

end Reclaim
