import Mathlib.Data.List.Perm.Basic
import Reclaim.Proofs.CountedStack.Runs

/-!
# Exact counts

As long as no node is claimed more than `2 ^ 63 - 2` times, internal counts do not wrap around, and
the balance of a ledger holds between integers. No step faults then, except for a claim with a full
hint and for the destructors that a drop runs.
-/

namespace Reclaim.CountedStack.Ledger

variable {α : Type} {s : Ledger α}

/-- The number of claims, apart from one, that keep a node from being freed. -/
def othersOn (s : Ledger α) (token : Nat) (node : NodeId) : Nat :=
  (s.claims.eraseIdx token).countP fun claim ↦ claim.IsOn node ∧ claim.IsOpen

theorem openOn_eq_othersOn_add_one {token : Nat} {ref : Ref} {stage : Stage} {node : NodeId}
    (hclaim : s.claims[token]? = some ⟨ref, stage⟩) (hnode : ref.node = some node)
    (hopen : stage = .held ∨ stage = .unlinked) :
    s.openOn node = s.othersOn token node + 1 := by
  obtain ⟨hlt, hget⟩ := List.getElem?_eq_some_iff.mp hclaim
  have hperm := List.getElem_cons_eraseIdx_perm hlt
  have hcounts : Claim.IsOn ⟨ref, stage⟩ node ∧ Claim.IsOpen ⟨ref, stage⟩ := ⟨hnode, hopen⟩
  rw [openOn, ← hperm.countP_eq, hget, othersOn]
  exact List.countP_cons_of_pos (decide_eq_true hcounts)

namespace Balanced

/-- Within the bound, an internal count is the balance of its node as an integer. -/
theorem toInt_internalCount (hs : s.Balanced) (hbounded : s.Bounded) {node : NodeId}
    {contents : Node α} (hget : s.stack.heap.get? node = some contents) :
    contents.internalCount.toInt = s.balance node := by
  have hclaims := hbounded node
  rw [claimsOn_eq] at hclaims
  rw [hs.internal node contents hget, balance]
  apply Int64.toInt_ofInt_of_le
  · split <;> omega
  · split <;> omega

/-- While a node is linked, its internal count is minus the number of claims released. -/
theorem toInt_internalCount_of_linked (hs : s.Balanced) (hbounded : s.Bounded)
    {level : UInt64 × NodeId × Node α} (hlevel : level ∈ s.stack.levels) :
    level.2.2.internalCount.toInt = -(s.tally level.2.1 .released : Int) := by
  have hlinked := mem_linked_of_mem_levels hlevel
  have hget := hs.linked.get?_of_mem (mem_chain_of_mem_levels hlevel)
  rw [hs.toInt_internalCount hbounded hget, balance, if_pos (hs.tally_eq_zero_of_linked hlinked).2]

/-- Some token is to settle a node that is no longer linked and not yet settled. -/
theorem exists_unlinked (hs : s.Balanced) {node : NodeId} (hlt : node < s.stack.heap.size)
    (hunlinked : node ∉ s.stack.linked) (hsettled : s.tally node .settled = 0) :
    ∃ (token : Nat) (ref : Ref), s.claims[token]? = some ⟨ref, .unlinked⟩ ∧
      ref.node = some node := by
  have htaken := hs.taken node hlt
  rw [if_neg hunlinked, hsettled] at htaken
  obtain ⟨claim, hmem, hnode, hstage⟩ : ∃ claim ∈ s.claims, claim.IsOn node ∧
      claim.stage = .unlinked := tally_pos_iff.mp (by omega)
  obtain ⟨token, hclaim⟩ := List.getElem?_of_mem hmem
  refine ⟨token, claim.ref, ?_, hnode⟩
  rw [hclaim, ← hstage]

/-- Between unlinking and settling a node, what the unlinking claim counted makes up for the
releases: the sum is the number of readers that are left. -/
theorem count_add_internalCount (hs : s.Balanced) (hbounded : s.Bounded) {token : Nat} {ref : Ref}
    {node : NodeId} (hclaim : s.claims[token]? = some ⟨ref, .unlinked⟩)
    (hnode : ref.node = some node) :
    ∃ contents, s.stack.heap.get? node = some contents ∧
      (ref.count.toNat : Int) - 2 + contents.internalCount.toInt = s.othersOn token node := by
  have hmem := List.mem_of_getElem? hclaim
  obtain ⟨node', contents, hnode', hget⟩ := hs.exists_get?_of_open hclaim (Or.inr rfl)
  obtain rfl : node' = node := Option.some.inj (hnode'.symm.trans hnode)
  have hunlinked := tally_pos hclaim hnode
  have htaken := hs.taken node' (Heap.lt_size_of_get? hget)
  rw [if_neg (hs.not_linked_of_tally_unlinked hunlinked)] at htaken
  have hcount : ref.count.toNat = 1 + s.claimsOn node' :=
    hs.observed _ hmem (Or.inl rfl) node' hnode
  have hothers := openOn_eq_othersOn_add_one hclaim hnode (Or.inr rfl)
  rw [openOn_eq] at hothers
  rw [claimsOn_eq] at hcount
  refine ⟨contents, hget, ?_⟩
  calc
    (ref.count.toNat : Int) - 2 + contents.internalCount.toInt =
        ref.count.toNat - 2 + -(s.tally node' .released : Int) := by
      rw [hs.toInt_internalCount hbounded hget, balance, if_pos (by omega)]
    _ = s.tally node' .held := by omega
    _ = s.othersOn token node' := by omega

end Balanced

/-- Within the bound on claims, the only faults are those of full hints and of destructors. -/
theorem Run.result_ok [Destructor α] {moves : List (Move α)} (hrun : Run {} moves s)
    (hbounded : s.Bounded)
    (hhints : ∀ move ∈ moves, ∀ hint, move.step = .claim hint → hint.count.toNat < 2 ^ 64 - 1)
    {move : Move α} (hmem : move ∈ moves) (hdrop : move.step ≠ .drop) :
    ∃ answer, move.reply.result = .ok answer := by
  have hcalm := hrun.calm hbounded
  obtain ⟨before, after, pre, hmoves, hbefore, hperform⟩ := hrun.exists_before hmem
  have hbalanced : pre.Balanced := by
    apply hbefore.balanced
    apply Calm.of_append
    rw [← hmoves]
    exact hcalm
  rcases perform_result hbalanced hperform hdrop with hok | ⟨hint, hstep, hfull⟩ | hoverrun
  · exact hok
  · exact absurd hfull (Nat.ne_of_lt (hhints move hmem hint hstep))
  · exact absurd hoverrun (hcalm move hmem)

/-- Split reference counts are exact. In every run within the bound on claims no step but a drop
faults. The reference to a linked node counts the claims ever made on it, and the node itself the
claims released. After a node is unlinked and before it is settled, both together count the readers
that are left. -/
theorem counts_exact [Destructor α] {moves : List (Move α)} (hrun : Run {} moves s)
    (hbounded : s.Bounded)
    (hhints : ∀ move ∈ moves, ∀ hint, move.step = .claim hint → hint.count.toNat < 2 ^ 64 - 1) :
    (∀ move ∈ moves, move.step ≠ .drop → ∃ answer, move.reply.result = .ok answer) ∧
      (∀ count node contents, (count, node, contents) ∈ s.stack.levels →
        count.toNat = 1 + s.claimsOn node ∧
          contents.internalCount.toInt = -(s.tally node .released : Int)) ∧
      (∀ node < s.stack.heap.size, node ∉ s.stack.linked → s.tally node .settled = 0 →
        ∃ (token : Nat) (ref : Ref), s.claims[token]? = some ⟨ref, .unlinked⟩ ∧
          ref.node = some node) ∧
      ∀ (token : Nat) (ref : Ref) (node : NodeId),
        s.claims[token]? = some ⟨ref, .unlinked⟩ → ref.node = some node →
          ∃ contents, s.stack.heap.get? node = some contents ∧
            (ref.count.toNat : Int) - 2 + contents.internalCount.toInt = s.othersOn token node := by
  have hs : s.Balanced := hrun.balanced (hrun.calm hbounded)
  refine ⟨?_, ?_, ?_, ?_⟩
  · intro move hmem hdrop
    exact hrun.result_ok hbounded hhints hmem hdrop
  · intro count node contents hlevel
    exact ⟨hs.counted _ hlevel, hs.toInt_internalCount_of_linked hbounded hlevel⟩
  · intro node hlt hunlinked hsettled
    exact hs.exists_unlinked hlt hunlinked hsettled
  · intro token ref node hclaim hnode
    exact hs.count_add_internalCount hbounded hclaim hnode

/-- The count 3 under which the second reader unlinked a contended node leaves one for the first. -/
theorem counts_exact_contention : ∃ contents : Node Nat,
    unlinking.reply.state.stack.heap.get? 0 = some contents ∧
      (3 : Int) - 2 + contents.internalCount.toInt = 1 := by
  have hexact := counts_exact run_unlinking
    (fun node ↦ Nat.le_trans List.countP_le_length (by decide)) (by
      intro move hmem hint hstep
      simp only [contention, List.cons_append, List.nil_append, List.mem_cons, List.not_mem_nil,
        or_false] at hmem
      rcases hmem with rfl | rfl | rfl | rfl <;> cases hstep <;> decide)
  exact hexact.2.2.2 1 ⟨some 0, 3⟩ 0 rfl rfl

end Reclaim.CountedStack.Ledger
