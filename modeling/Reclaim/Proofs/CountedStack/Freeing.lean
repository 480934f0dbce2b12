import Reclaim.Proofs.CountedStack.Runs

/-!
# Freed nodes

A freed node keeps its name, and its cell stays empty. An effect frees only nodes that were not
freed before, so no node is freed twice in a row of effects, and the nodes freed in a run are
exactly those that the heap has no longer.
-/

namespace Reclaim.CountedStack.Ledger

variable {α : Type} {s t : Ledger α} {freed : List NodeId} {node : NodeId}

def IsFreed (s : Ledger α) (node : NodeId) : Prop :=
  node < s.stack.heap.size ∧ s.stack.heap.get? node = none

theorem not_isFreed_of_get? {contents : Node α} (hget : s.stack.heap.get? node = some contents) :
    ¬ s.IsFreed node := by
  rintro ⟨-, hnone⟩
  rw [hget] at hnone
  cases hnone

namespace Effect

/-- The heap never gets smaller. -/
theorem size_le (heffect : Effect s freed t) :
    s.stack.heap.size ≤ t.stack.heap.size := by
  cases heffect with
  | push value =>
    rw [size_push]
    exact Nat.le_succ _
  | claim => exact Nat.le_refl _
  | unlink => exact Nat.le_refl _
  | finish => exact Nat.le_of_eq (finish_size _ _ _).symm
  | close => exact Nat.le_refl _

theorem isFreed_iff (heffect : Effect s freed t) (node : NodeId) :
    t.IsFreed node ↔ s.IsFreed node ∨ node ∈ freed := by
  cases heffect with
  | push value =>
    rw [IsFreed, size_push, get?_push, IsFreed]
    by_cases hnew : node = s.stack.heap.size
    · simp [hnew]
    · rw [if_neg hnew, Nat.lt_succ_iff_lt_or_eq]
      simp [hnew]
  | claim => exact (or_iff_left List.not_mem_nil).symm
  | unlink => exact (or_iff_left List.not_mem_nil).symm
  | @finish token ref old new delta other contents _ _ _ hget =>
    have hlt := Heap.lt_size_of_get? hget
    change node < (s.stack.finish other _).state.heap.size ∧
      (s.stack.finish other _).state.heap.get? node = none ↔ _
    rw [finish_size, get?_finish, hget, IsFreed]
    by_cases hsame : other = node
    · rw [if_pos hsame, ← hsame, hget]
      split <;> simp [hlt]
    · rw [if_neg hsame]
      split <;> simp [Ne.symm hsame]
  | close => exact (or_iff_left List.not_mem_nil).symm

/-- An effect frees at most one node, and one that was there. -/
theorem nodup_freed (heffect : Effect s freed t) :
    freed.Nodup ∧ ∀ node ∈ freed, ¬ s.IsFreed node := by
  have hnil : ([] : List NodeId).Nodup ∧ ∀ node ∈ ([] : List NodeId), ¬ s.IsFreed node :=
    ⟨List.nodup_nil, fun _ hmem ↦ absurd hmem List.not_mem_nil⟩
  cases heffect with
  | push => exact hnil
  | claim => exact hnil
  | unlink => exact hnil
  | finish _ _ _ hget =>
    split
    · refine ⟨List.pairwise_singleton _ _, ?_⟩
      intro node hmem
      rw [List.mem_singleton.mp hmem]
      exact not_isFreed_of_get? hget
    · exact hnil
  | close => exact hnil

end Effect

namespace Effects

theorem size_le (heffects : Effects s freed t) :
    s.stack.heap.size ≤ t.stack.heap.size := by
  induction heffects with
  | refl => exact Nat.le_refl _
  | tail _ heffect ih => exact Nat.le_trans ih heffect.size_le

theorem isFreed_iff (heffects : Effects s freed t) (node : NodeId) :
    t.IsFreed node ↔ s.IsFreed node ∨ node ∈ freed := by
  induction heffects with
  | refl => exact (or_iff_left List.not_mem_nil).symm
  | @tail freed freed' t u _ heffect ih =>
    calc
      u.IsFreed node ↔ t.IsFreed node ∨ node ∈ freed' := heffect.isFreed_iff node
      _ ↔ (s.IsFreed node ∨ node ∈ freed) ∨ node ∈ freed' := or_congr_left ih
      _ ↔ s.IsFreed node ∨ node ∈ freed ++ freed' := by rw [or_assoc, List.mem_append]

theorem nodup_freed (heffects : Effects s freed t) : freed.Nodup := by
  induction heffects with
  | refl => exact List.nodup_nil
  | tail heffects heffect ih =>
    obtain ⟨hnodup, hlive⟩ := heffect.nodup_freed
    rw [List.nodup_append]
    refine ⟨ih, hnodup, ?_⟩
    rintro node hbefore _ hnow rfl
    exact hlive node hnow ((heffects.isFreed_iff node).mpr (Or.inr hbefore))

end Effects

namespace Run

variable [Destructor α] {moves : List (Move α)}

theorem mem_freedIn_iff (hrun : Run {} moves s) (hcalm : Calm moves) (node : NodeId) :
    node ∈ freedIn moves ↔ s.IsFreed node := by
  have hnew : ¬ ({} : Ledger α).IsFreed node := fun h ↦ absurd h.1 (Nat.not_lt_zero node)
  calc
    node ∈ freedIn moves ↔ ({} : Ledger α).IsFreed node ∨ node ∈ freedIn moves :=
      (or_iff_right hnew).symm
    _ ↔ s.IsFreed node := ((hrun.effects balanced_new hcalm).isFreed_iff node).symm

theorem nodup_freedIn (hrun : Run {} moves s) (hcalm : Calm moves) : (freedIn moves).Nodup :=
  (hrun.effects balanced_new hcalm).nodup_freed

end Run

end Reclaim.CountedStack.Ledger
