import Reclaim.Proofs.CountedRef.Packing
import Reclaim.Proofs.CountedStack.Counter
import Reclaim.Proofs.CountedStack.Levels

/-!
# The steps of a counted stack

One equation or case distinction for each step on shared memory, with all that the step reads and
all that it changes. Settling and releasing end alike: `finish` writes the new internal count of a
node, or frees the node if that count is zero. A pop that nobody interrupts claims the top node,
unlinks it and settles it, and never has to try again.
-/

namespace Reclaim.CountedStack

variable {α : Type} {s : CountedStack α}

theorem isNull_iff (ref : Ref) : ref.isNull = true ↔ ref.node = none := by
  rw [CountedRef.isNull, decide_eq_true_eq]
  rfl

theorem node?_eq_get? {ref : Ref} {node : NodeId} (hnode : ref.node = some node) :
    s.node? ref = s.heap.get? node := by
  rw [node?, hnode, Option.bind_some]

theorem ext_get? {t : CountedStack α} (hhead : s.head = t.head) (hsize : s.heap.size = t.heap.size)
    (hget : ∀ node, s.heap.get? node = t.heap.get? node) : s = t := by
  have hheap := Heap.ext_get? hsize hget
  cases s
  cases t
  cases hhead
  cases hheap
  rfl

theorem claimTop_of_null {hint : Ref} (hhint : hint.node = none) :
    s.claimTop hint = .ok (none, s) := by
  rw [claimTop, if_pos ((isNull_iff hint).mpr hhint)]

theorem claimTop_of_full {hint : Ref} (hhint : hint.node ≠ none)
    (hfull : hint.count.toNat = 2 ^ 64 - 1) : s.claimTop hint = .error .addOverflow := by
  rw [claimTop, if_neg (mt (isNull_iff hint).mp hhint), CountedRef.claimed_eq, if_pos hfull]

theorem claimTop_head (s : CountedStack α) :
    s.claimTop s.head =
      if s.head.node = none then .ok (none, s)
      else if s.head.count.toNat = 2 ^ 64 - 1 then .error .addOverflow
      else .ok (some ⟨s.head.node, s.head.count + 1⟩,
        { s with head := ⟨s.head.node, s.head.count + 1⟩ }) := by
  by_cases hnull : s.head.node = none
  · rw [if_pos hnull, claimTop_of_null hnull]
  · rw [if_neg hnull]
    by_cases hfull : s.head.count.toNat = 2 ^ 64 - 1
    · rw [if_pos hfull, claimTop_of_full hnull hfull]
    · rw [if_neg hfull, claimTop, if_neg (mt (isNull_iff s.head).mp hnull), CountedRef.claimed_eq,
        if_neg hfull]
      simp only [dif_pos]

/-- A hint that is neither null nor full plays no part: what is claimed is the actual head. -/
theorem claimTop_eq_claimTop_head {hint : Ref} (hhint : hint.node ≠ none)
    (hroom : hint.count.toNat ≠ 2 ^ 64 - 1) : s.claimTop hint = s.claimTop s.head := by
  by_cases hsame : s.head = hint
  · rw [hsame]
  · rw [claimTop, if_neg (mt (isNull_iff hint).mp hhint), CountedRef.claimed_eq, if_neg hroom]
    simp only [dif_neg hsame]

theorem unlinkTop_eq {claimed : Ref} {node : NodeId} {contents : Node α}
    (hnode : claimed.node = some node) (hget : s.heap.get? node = some contents) :
    s.unlinkTop claimed =
      if s.head = claimed then .ok { s with head := contents.next } else .error s.head := by
  rw [unlinkTop, (node?_eq_get? hnode).trans hget]
  rfl

/-- Only the head word itself is unlinked. -/
theorem head_of_unlinkTop {claimed : Ref} {t : CountedStack α}
    (hunlink : s.unlinkTop claimed = .ok t) : s.head = claimed := by
  unfold unlinkTop compareAndSwap at hunlink
  split at hunlink
  · cases hunlink
  · split at hunlink
    · next hhead => exact hhead
    · cases hunlink

/-- Who claims the top node can unlink it at once. -/
theorem unlinkTop_claimed {top : NodeId} {contents : Node α} {count : UInt64}
    (hhead : s.head.node = some top) (hget : s.heap.get? top = some contents) :
    { s with head := ⟨s.head.node, count⟩ }.unlinkTop ⟨s.head.node, count⟩ =
      .ok { s with head := contents.next } := by
  have hnode : (⟨s.head.node, count⟩ : Ref).node = some top := hhead
  have hunlink := unlinkTop_eq (s := { s with head := ⟨s.head.node, count⟩ }) hnode hget
  rwa [if_pos rfl] at hunlink

theorem get?_setInternalCount (s : CountedStack α) (node other : NodeId) (count : Int64) :
    (s.setInternalCount node count).heap.get? other =
      if node = other then
        (s.heap.get? other).map fun contents ↦ { contents with internalCount := count }
      else s.heap.get? other :=
  Heap.get?_modify s.heap node other _

/-- Writes the internal count of a node, or frees the node if the count is zero. -/
def finish (s : CountedStack α) (node : NodeId) (count : Int64) :
    Outcome (CountedStack α) (Event α) Bool :=
  if count = 0 then ⟨{ s with heap := s.heap.free node }, [.freed node], .ok true⟩
  else ⟨s.setInternalCount node count, [], .ok false⟩

/-- Settling faults on three external counts only, and then still unlinks nothing and frees
nothing. -/
theorem settle_eq {claimed : Ref} {node : NodeId} {contents : Node α}
    (hnode : claimed.node = some node) (hget : s.heap.get? node = some contents) :
    s.settle claimed =
      if claimed.count.toNat = 2 ^ 63 ∨ claimed.count.toNat = 2 ^ 63 + 1 then
        ⟨s.setInternalCount node contents.internalCount, [], .error .subOverflow⟩
      else if claimed.count.toNat = 2 ^ 63 + 2 then
        ⟨s.setInternalCount node (contents.internalCount + (claimed.count.toInt64 - 2)), [],
          .error .negOverflow⟩
      else s.finish node (contents.internalCount + (claimed.count.toInt64 - 2)) := by
  have hcontents := (node?_eq_get? hnode).trans hget
  unfold settle
  simp only [hnode, hcontents, Counter.settle_eq]
  by_cases hsub : claimed.count.toNat = 2 ^ 63 ∨ claimed.count.toNat = 2 ^ 63 + 1
  · simp only [if_pos hsub]
  · simp only [if_neg hsub]
    by_cases hneg : claimed.count.toNat = 2 ^ 63 + 2
    · simp only [if_pos hneg]
    · simp only [if_neg hneg, finish]
      by_cases hzero : contents.internalCount + (claimed.count.toInt64 - 2) = 0
      · simp only [hzero, decide_true, if_true]
      · simp only [hzero, decide_false, if_false]

theorem settle_size (s : CountedStack α) (claimed : Ref) :
    (s.settle claimed).state.heap.size = s.heap.size := by
  unfold settle
  split
  · split
    · exact Heap.size_free _ _
    · exact Heap.size_modify _ _ _
  · rfl

theorem settle_eq_finish_or_overflows {claimed : Ref} {node : NodeId} {contents : Node α}
    (hnode : claimed.node = some node) (hget : s.heap.get? node = some contents) :
    s.settle claimed = s.finish node (contents.internalCount + (claimed.count.toInt64 - 2)) ∨
      2 ^ 63 ≤ claimed.count.toNat ∧ Overflows (s.settle claimed).result := by
  rw [settle_eq hnode hget]
  split
  · exact Or.inr ⟨by omega, _, rfl, rfl⟩
  · split
    · exact Or.inr ⟨by omega, _, rfl, rfl⟩
    · exact Or.inl rfl

def Settles (count : UInt64) : Prop :=
  count.toNat ≠ 2 ^ 63 ∧ count.toNat ≠ 2 ^ 63 + 1 ∧ count.toNat ≠ 2 ^ 63 + 2

instance (count : UInt64) : Decidable (Settles count) :=
  inferInstanceAs (Decidable (_ ∧ _ ∧ _))

theorem settle_of_settles {claimed : Ref} {node : NodeId} {contents : Node α}
    (hnode : claimed.node = some node) (hget : s.heap.get? node = some contents)
    (hsettles : Settles claimed.count) :
    s.settle claimed = s.finish node (contents.internalCount + (claimed.count.toInt64 - 2)) := by
  obtain ⟨hfirst, hsecond, hthird⟩ := hsettles
  rw [settle_eq hnode hget, if_neg (not_or.mpr ⟨hfirst, hsecond⟩), if_neg hthird]

theorem settles_of_not_overflows {claimed : Ref} {node : NodeId} {contents : Node α}
    (hnode : claimed.node = some node) (hget : s.heap.get? node = some contents)
    (hcalm : ¬ Overflows (s.settle claimed).result) : Settles claimed.count := by
  rw [settle_eq hnode hget] at hcalm
  refine ⟨?_, ?_, ?_⟩
  · intro hcount
    rw [if_pos (Or.inl hcount)] at hcalm
    exact hcalm ⟨_, rfl, rfl⟩
  · intro hcount
    rw [if_pos (Or.inr hcount)] at hcalm
    exact hcalm ⟨_, rfl, rfl⟩
  · intro hcount
    rw [if_neg (by omega), if_pos hcount] at hcalm
    exact hcalm ⟨_, rfl, rfl⟩

theorem release_eq {claimed : Ref} {node : NodeId} {contents : Node α}
    (hnode : claimed.node = some node) (hget : s.heap.get? node = some contents) :
    s.release claimed = s.finish node (contents.internalCount - 1) := by
  have hcontents := (node?_eq_get? hnode).trans hget
  unfold release finish
  simp only [hnode, hcontents, Counter.release_eq]
  by_cases hzero : contents.internalCount - 1 = 0
  · simp only [hzero, decide_true, if_true]
  · simp only [hzero, decide_false, if_false]

theorem finish_result (s : CountedStack α) (node : NodeId) (count : Int64) :
    (s.finish node count).result = .ok (decide (count = 0)) := by
  unfold finish
  split
  · next hzero => rw [decide_eq_true hzero]
  · next hzero => rw [decide_eq_false hzero]

theorem finish_events (s : CountedStack α) (node : NodeId) (count : Int64) :
    (s.finish node count).events = if count = 0 then [.freed node] else [] := by
  unfold finish
  split <;> rfl

@[simp]
theorem finish_head (s : CountedStack α) (node : NodeId) (count : Int64) :
    (s.finish node count).state.head = s.head := by
  unfold finish
  split <;> rfl

@[simp]
theorem finish_size (s : CountedStack α) (node : NodeId) (count : Int64) :
    (s.finish node count).state.heap.size = s.heap.size := by
  unfold finish setInternalCount
  split
  · exact Heap.size_free s.heap node
  · exact Heap.size_modify s.heap node _

theorem get?_finish (s : CountedStack α) (node other : NodeId) (count : Int64) :
    (s.finish node count).state.heap.get? other =
      if node = other then
        if count = 0 then none
        else (s.heap.get? node).map fun contents ↦ { contents with internalCount := count }
      else s.heap.get? other := by
  unfold finish
  by_cases hzero : count = 0
  · rw [if_pos hzero, if_pos hzero]
    exact Heap.get?_free s.heap node other
  · rw [if_neg hzero, if_neg hzero, get?_setInternalCount]
    split
    · next hsame => rw [hsame]
    · rfl

/-- What finishing a claim makes of a node of the chain. -/
def recount (node : NodeId) (count : Int64) (link : NodeId × Node α) : Node α :=
  if node = link.1 then { link.2 with internalCount := count } else link.2

/-- Finishing a claim leaves the chain alone, up to an internal count: a linked node is not
freed. -/
theorem WellLinked.chain_finish (hs : s.WellLinked) {node : NodeId} {count : Int64}
    (hfree : count = 0 → node ∉ s.linked) :
    (s.finish node count).state.chain =
        s.chain.map (fun link ↦ (link.1, recount node count link)) ∧
      (s.finish node count).state.WellLinked := by
  have hstate : (s.finish node count).state =
      { s with heap := (s.finish node count).state.heap } := by
    rw [← finish_head s node count]
  rw [hstate]
  apply hs.chain_setHeap
  · intro link hmem
    rw [get?_finish, hs.get?_of_mem hmem, recount]
    by_cases hsame : node = link.1
    · have hlinked : node ∈ s.linked := hsame ▸ List.mem_map_of_mem hmem
      rw [if_pos hsame, if_pos hsame, if_neg (fun hzero ↦ hfree hzero hlinked), hsame,
        hs.get?_of_mem hmem]
      rfl
    · rw [if_neg hsame, if_neg hsame]
  · intro link _
    unfold recount
    split <;> rfl

section

variable {node : NodeId} {count : Int64}

theorem WellLinked.linked_finish (hs : s.WellLinked) (hfree : count = 0 → node ∉ s.linked) :
    (s.finish node count).state.linked = s.linked := by
  rw [linked, (hs.chain_finish hfree).1, List.map_map]
  rfl

theorem WellLinked.toList_finish (hs : s.WellLinked) (hfree : count = 0 → node ∉ s.linked) :
    (s.finish node count).state.toList = s.toList := by
  rw [toList, (hs.chain_finish hfree).1, List.map_map]
  apply List.map_congr_left
  intro link _
  simp only [Function.comp_apply, recount]
  split <;> rfl

theorem WellLinked.levels_finish (hs : s.WellLinked) (hfree : count = 0 → node ∉ s.linked) :
    (s.finish node count).state.levels =
      s.levels.map fun level ↦ (level.1, level.2.1, recount node count level.2) := by
  have hcounts : (s.finish node count).state.counts = s.counts := by
    rw [counts, counts, finish_head, (hs.chain_finish hfree).1, List.map_map]
    congr 1
    apply List.map_congr_left
    intro link _
    simp only [Function.comp_apply, recount]
    split <;> rfl
  rw [levels, hcounts, (hs.chain_finish hfree).1, List.zip_map_right, levels]
  rfl

end

theorem popFrom_eq (s : CountedStack α) (hint : Ref) :
    s.popFrom hint =
      match s.claimTop hint with
      | .error fault => ⟨s, [], .error fault⟩
      | .ok (none, t) => ⟨t, [], .ok none⟩
      | .ok (some claimed, t) =>
        match t.unlinkTop claimed with
        | .ok t => t.takeAndSettle claimed
        | .error current =>
          ((t.release claimed).state.popFrom current).after (t.release claimed).events := by
  rw [popFrom]
  split <;> next hclaim => exact hclaim ▸ rfl

theorem pop_of_null (hhead : s.head.node = none) : s.pop = ⟨s, [], .ok none⟩ := by
  rw [pop, popFrom_eq, claimTop_of_null hhead]

theorem takeAndSettle_eq {claimed : Ref} {node : NodeId} {contents : Node α}
    (hnode : claimed.node = some node) (hget : s.heap.get? node = some contents) :
    s.takeAndSettle claimed =
      ⟨(s.settle claimed).state,
        (s.settle claimed).events ++
          (if (s.settle claimed).result.isOk then [] else [.dropped contents.value]),
        (s.settle claimed).result.map fun _ ↦ some contents.value⟩ := by
  unfold takeAndSettle
  simp only [(node?_eq_get? hnode).trans hget]
  cases s.settle claimed with
  | mk state events result =>
    cases result with
    | error fault => rfl
    | ok freed =>
      simp only [Except.isOk, Except.toBool, if_true, List.append_nil]
      rfl

/-- A pop unlinks the node that it claimed at its first attempt. -/
theorem pop_of_top {top : NodeId} {contents : Node α} (hhead : s.head.node = some top)
    (hget : s.heap.get? top = some contents) :
    s.pop =
      if s.head.count.toNat = 2 ^ 64 - 1 then ⟨s, [], .error .addOverflow⟩
      else
        let settled := { s with head := contents.next }.settle ⟨s.head.node, s.head.count + 1⟩
        ⟨settled.state, settled.events ++ (if settled.result.isOk then [] else
          [.dropped contents.value]), settled.result.map fun _ ↦ some contents.value⟩ := by
  rw [pop, popFrom_eq, claimTop_head, if_neg (by simp [hhead])]
  by_cases hfull : s.head.count.toNat = 2 ^ 64 - 1
  · rw [if_pos hfull, if_pos hfull]
  · rw [if_neg hfull, if_neg hfull]
    simp only
    rw [unlinkTop_claimed hhead hget]
    exact takeAndSettle_eq (s := { s with head := contents.next }) hhead hget

/-- A pop whose settlement does not fault hands out the value of the top node and finishes the claim
that it made. -/
theorem pop_of_settles {top : NodeId} {contents : Node α} (hhead : s.head.node = some top)
    (hget : s.heap.get? top = some contents) (hroom : s.head.count.toNat ≠ 2 ^ 64 - 1)
    (hsettles : Settles (s.head.count + 1)) :
    s.pop =
      let done := { s with head := contents.next }.finish top
        (contents.internalCount + ((s.head.count + 1).toInt64 - 2))
      ⟨done.state, done.events, .ok (some contents.value)⟩ := by
  let below : CountedStack α := { s with head := contents.next }
  have hnode : (⟨s.head.node, s.head.count + 1⟩ : Ref).node = some top := hhead
  have hsettle := settle_of_settles (s := below) hnode hget hsettles
  rw [pop_of_top hhead hget, if_neg hroom, hsettle]
  dsimp only
  rw [finish_result]
  simp only [Except.isOk, Except.toBool, if_true, List.append_nil]
  rfl

theorem popAndDrop_succ [Destructor α] (count : Nat) (s : CountedStack α) :
    popAndDrop (count + 1) s =
      match s.pop.result with
      | .error fault => ⟨s.pop.state, s.pop.events, .error fault⟩
      | .ok none => ⟨s.pop.state, s.pop.events, .ok ()⟩
      | .ok (some value) =>
        match Destructor.fault? value with
        | some fault => ⟨s.pop.state, s.pop.events ++ [.dropped value], .error fault⟩
        | none => (popAndDrop count s.pop.state).after (s.pop.events ++ [.dropped value]) := by
  rw [popAndDrop]
  split <;> next hpop => exact hpop ▸ rfl

end Reclaim.CountedStack
