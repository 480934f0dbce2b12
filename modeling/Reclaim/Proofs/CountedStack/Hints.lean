import Reclaim.Proofs.CountedStack.Ownership
import Reclaim.Proofs.CountedStack.References

/-!
# Claims and their hints

A claim begins at the word that its caller believes to be the head, raises that word's count and
offers it in a compare-and-swap. If the head is another word, the claim begins again at that one,
and then succeeds, unless the weak compare-and-swap fails by itself, which changes nothing. So of
the hint only two things count: a null hint is believed, and a full count faults before anything is
compared. Otherwise what happens is up to the head alone.

No step of a run writes a null reference that it did not find in the head or in a node. Since null
heads are never claimed, the null reference below the last node keeps the count zero that it had in
the empty stack.
-/

namespace Reclaim.CountedStack

variable {α : Type} {s t : CountedStack α} {hint : Ref}

theorem claimLogged_of_null (failures : List Bool) (hhint : hint.node = none) :
    s.claimLogged failures hint = ⟨s, [], .ok none⟩ := by
  rw [claimLogged, if_pos ((isNull_iff hint).mpr hhint)]

theorem claimLogged_of_full (failures : List Bool) (hhint : hint.node ≠ none)
    (hfull : hint.count.toNat = 2 ^ 64 - 1) :
    s.claimLogged failures hint = ⟨s, [], .error .addOverflow⟩ := by
  rw [claimLogged, if_neg (mt (isNull_iff hint).mp hhint), CountedRef.claimed_eq, if_pos hfull]

theorem claimLogged_eq (failures : List Bool) (hhint : hint.node ≠ none)
    (hroom : hint.count.toNat ≠ 2 ^ 64 - 1) :
    s.claimLogged failures hint =
      if failures.headD false = false ∧ s.head = hint then
        ⟨{ s with head := ⟨hint.node, hint.count + 1⟩ },
          [⟨hint, ⟨hint.node, hint.count + 1⟩, false⟩], .ok (some ⟨hint.node, hint.count + 1⟩)⟩
      else
        (s.claimLogged failures.tail s.head).after
          [⟨hint, ⟨hint.node, hint.count + 1⟩, decide (s.head = hint)⟩] := by
  rw [claimLogged, if_neg (mt (isNull_iff hint).mp hhint), CountedRef.claimed_eq, if_neg hroom]
  dsimp only
  by_cases hsame : failures.headD false = false ∧ s.head = hint
  · have hswap : s.compareAndSwapWeak (failures.headD false) hint ⟨hint.node, hint.count + 1⟩ =
        .ok { s with head := ⟨hint.node, hint.count + 1⟩ } := by
      rw [compareAndSwapWeak, hsame.1, compareAndSwap, if_pos hsame.2]
      rfl
    rw [if_pos hsame]
    split
    · next hfound =>
      cases hswap.symm.trans hfound
      rfl
    · next hfound => cases hswap.symm.trans hfound
  · have hswap : s.compareAndSwapWeak (failures.headD false) hint ⟨hint.node, hint.count + 1⟩ =
        .error s.head := by
      unfold compareAndSwapWeak compareAndSwap
      split
      · rfl
      · next hgenuine =>
        exact if_neg fun hhead ↦ hsame ⟨Bool.eq_false_of_not_eq_true hgenuine, hhead⟩
    rw [if_neg hsame]
    split
    · next hfound => cases hswap.symm.trans hfound
    · next hfound =>
      cases hswap.symm.trans hfound
      rfl

/-- A claim that begins at the actual head raises its count, once it has failed as often in a row
as it is told to. -/
theorem claimLogged_head (failures : List Bool) (hhead : s.head.node ≠ none)
    (hroom : s.head.count.toNat ≠ 2 ^ 64 - 1) :
    s.claimLogged failures s.head =
      ⟨{ s with head := ⟨s.head.node, s.head.count + 1⟩ },
        List.replicate (failures.takeWhile id).length
          ⟨s.head, ⟨s.head.node, s.head.count + 1⟩, true⟩ ++
          [⟨s.head, ⟨s.head.node, s.head.count + 1⟩, false⟩],
        .ok (some ⟨s.head.node, s.head.count + 1⟩)⟩ := by
  induction failures with
  | nil =>
    rw [claimLogged_eq [] hhead hroom, if_pos ⟨rfl, rfl⟩]
    rfl
  | cons fails failures ih =>
    rw [claimLogged_eq _ hhead hroom]
    cases fails with
    | false =>
      rw [if_pos ⟨rfl, rfl⟩]
      rfl
    | true =>
      rw [if_neg fun hgenuine ↦ Bool.noConfusion hgenuine.1, List.tail_cons, ih,
        decide_eq_true rfl]
      rfl

theorem claimLogged_of_ne (failures : List Bool) (hhint : hint.node ≠ none)
    (hroom : hint.count.toNat ≠ 2 ^ 64 - 1) (hstale : s.head ≠ hint) :
    s.claimLogged failures hint =
      (s.claimLogged failures.tail s.head).after
        [⟨hint, ⟨hint.node, hint.count + 1⟩, false⟩] := by
  rw [claimLogged_eq failures hhint hroom, if_neg fun hsame ↦ hstale hsame.2,
    decide_eq_false hstale]

/-- Whichever compare-and-swaps fail on the word that they expect, the claim ends in `t` with this
answer. No more than two of them do anything else. -/
structure ClaimEnds (s : CountedStack α) (hint : Ref) (t : CountedStack α)
    (result : Except Fault (Option Ref)) : Prop where
  genuine_le : ∀ failures,
    ((s.claimLogged failures hint).events.countP fun swap ↦ !swap.spurious) ≤ 2
  swaps_le : ∀ failures, (s.claimLogged failures hint).events.length ≤ 2 + failures.count true
  state : ∀ failures, (s.claimLogged failures hint).state = t
  result : ∀ failures, (s.claimLogged failures hint).result = result

theorem claimEnds_of_null (hhint : hint.node = none) : s.ClaimEnds hint s (.ok none) := by
  constructor <;> intro failures <;> rw [claimLogged_of_null failures hhint]
  · exact Nat.zero_le 2
  · exact Nat.zero_le _

theorem claimEnds_of_full (hhint : hint.node ≠ none) (hfull : hint.count.toNat = 2 ^ 64 - 1) :
    s.ClaimEnds hint s (.error .addOverflow) := by
  constructor <;> intro failures <;> rw [claimLogged_of_full failures hhint hfull]
  · exact Nat.zero_le 2
  · exact Nat.zero_le _

theorem genuine_claimLogged_head (failures : List Bool) :
    ((s.claimLogged failures s.head).events.countP fun swap ↦ !swap.spurious) ≤ 1 := by
  by_cases hnull : s.head.node = none
  · rw [claimLogged_of_null failures hnull]
    exact Nat.zero_le 1
  · by_cases hfull : s.head.count.toNat = 2 ^ 64 - 1
    · rw [claimLogged_of_full failures hnull hfull]
      exact Nat.zero_le 1
    · rw [claimLogged_head failures hnull hfull, List.countP_append, List.countP_replicate]
      exact Nat.le_refl 1

theorem length_claimLogged_head (failures : List Bool) :
    (s.claimLogged failures s.head).events.length ≤ failures.count true + 1 := by
  by_cases hnull : s.head.node = none
  · rw [claimLogged_of_null failures hnull]
    exact Nat.zero_le _
  · by_cases hfull : s.head.count.toNat = 2 ^ 64 - 1
    · rw [claimLogged_of_full failures hnull hfull]
      exact Nat.zero_le _
    · rw [claimLogged_head failures hnull hfull, List.length_append, List.length_replicate]
      exact Nat.succ_le_succ (length_takeWhile_le_count failures)

/-- A claim that begins at the actual head raises its count by one. -/
theorem claimEnds_head (hhead : s.head.node ≠ none) (hroom : s.head.count.toNat ≠ 2 ^ 64 - 1) :
    s.ClaimEnds s.head { s with head := ⟨s.head.node, s.head.count + 1⟩ }
      (.ok (some ⟨s.head.node, s.head.count + 1⟩)) where
  genuine_le failures := (genuine_claimLogged_head failures).trans (Nat.le_succ 1)
  swaps_le failures := (length_claimLogged_head failures).trans (by omega)
  state failures := by rw [claimLogged_head failures hhead hroom]
  result failures := by rw [claimLogged_head failures hhead hroom]

/-- A hint that is neither null nor full plays no part: a stale one costs a compare-and-swap. -/
theorem ClaimEnds.of_head {result : Except Fault (Option Ref)}
    (hends : s.ClaimEnds s.head t result) (hhint : hint.node ≠ none)
    (hroom : hint.count.toNat ≠ 2 ^ 64 - 1) : s.ClaimEnds hint t result := by
  by_cases hsame : s.head = hint
  · rwa [hsame] at hends
  · have hclaim failures := claimLogged_of_ne (s := s) failures hhint hroom hsame
    constructor <;> intro failures <;> rw [hclaim failures]
    · rw [Outcome.after_events, List.singleton_append, List.countP_cons_of_pos rfl]
      exact Nat.succ_le_succ (genuine_claimLogged_head failures.tail)
    · have hlength := length_claimLogged_head (s := s) failures.tail
      have hcount := (List.tail_sublist failures).count_le true
      rw [Outcome.after_events, List.singleton_append, List.length_cons]
      omega
    · exact hends.state failures.tail
    · exact hends.result failures.tail

/-- The step of a claim is all that its compare-and-swaps come to, however many fail. -/
theorem claimTop_eq_claimLogged (s : CountedStack α) (failures : List Bool) (hint : Ref) :
    s.claimTop hint =
      (s.claimLogged failures hint).result.map fun claimed ↦
        (claimed, (s.claimLogged failures hint).state) := by
  by_cases hnull : hint.node = none
  · rw [claimTop_of_null hnull, claimLogged_of_null failures hnull]
    rfl
  by_cases hfull : hint.count.toNat = 2 ^ 64 - 1
  · rw [claimTop_of_full hnull hfull, claimLogged_of_full failures hnull hfull]
    rfl
  rw [claimTop_eq_claimTop_head hnull hfull, claimTop_head]
  by_cases hempty : s.head.node = none
  · have hends := (claimEnds_of_null hempty).of_head hnull hfull
    rw [hends.result failures, hends.state failures, if_pos hempty]
    rfl
  · rw [if_neg hempty]
    by_cases htop : s.head.count.toNat = 2 ^ 64 - 1
    · have hends := (claimEnds_of_full hempty htop).of_head hnull hfull
      rw [hends.result failures, if_pos htop]
      rfl
    · have hends := (claimEnds_head hempty htop).of_head hnull hfull
      rw [hends.result failures, hends.state failures, if_neg htop]
      rfl

/-! ## Null references -/

/-- No null reference in the head or in a node counts anything. -/
structure NullsEmpty (s : CountedStack α) : Prop where
  head : s.head.node = none → s.head = CountedRef.null
  next : ∀ node contents, s.heap.get? node = some contents → contents.next.node = none →
    contents.next = CountedRef.null

namespace NullsEmpty

theorem new : NullsEmpty ({} : CountedStack α) where
  head _ := rfl
  next node contents hget := by
    rw [Heap.get?_of_size_le (Nat.zero_le node)] at hget
    cases hget

theorem setHead (hs : s.NullsEmpty) {ref : Ref} (href : ref.node = none → ref = CountedRef.null) :
    NullsEmpty { s with head := ref } where
  head := href
  next := hs.next

/-- What frees nodes or changes them without changing their references writes no null reference. -/
theorem setHeap (hs : s.NullsEmpty) {heap : Heap (Node α)}
    (hget : ∀ node after, heap.get? node = some after →
      ∃ before, s.heap.get? node = some before ∧ after.next = before.next) :
    NullsEmpty { s with heap } where
  head := hs.head
  next node after hafter hnull := by
    obtain ⟨before, hbefore, hnext⟩ := hget node after hafter
    rw [hnext] at hnull ⊢
    exact hs.next node before hbefore hnull

theorem push (hs : s.NullsEmpty) (value : α) : (s.push value).2.NullsEmpty where
  head hnull := by cases hnull
  next node contents hget hnull := by
    rw [get?_push] at hget
    split at hget
    · cases hget
      exact hs.head hnull
    · exact hs.next node contents hget hnull

theorem setInternalCount (hs : s.NullsEmpty) (node : NodeId) (count : Int64) :
    (s.setInternalCount node count).NullsEmpty := by
  apply hs.setHeap
  intro other after hafter
  rw [Heap.get?_modify] at hafter
  split at hafter
  · obtain ⟨before, hbefore, rfl⟩ := Option.map_eq_some_iff.mp hafter
    exact ⟨before, hbefore, rfl⟩
  · exact ⟨after, hafter, rfl⟩

theorem free (hs : s.NullsEmpty) (node : NodeId) :
    NullsEmpty { s with heap := s.heap.free node } := by
  apply hs.setHeap
  intro other after hafter
  rw [Heap.get?_free] at hafter
  split at hafter
  · cases hafter
  · exact ⟨after, hafter, rfl⟩

theorem claimTop (hs : s.NullsEmpty) {answer : Option Ref}
    (hclaim : s.claimTop hint = .ok (answer, t)) : t.NullsEmpty := by
  fun_induction CountedStack.claimTop s hint with
  | case1 hint hnull =>
    cases hclaim
    exact hs
  | case2 => cases hclaim
  | case3 claimed hnonnull hclaimed =>
    cases hclaim
    apply hs.setHead
    intro hnull
    rw [(CountedRef.claimed_eq_ok hclaimed).1] at hnull
    exact absurd ((isNull_iff _).mpr hnull) hnonnull
  | case4 hint claimed hnonnull hclaimed hstale ih => exact ih hclaim

theorem unlinkTop (hs : s.NullsEmpty) {claimed : Ref} (hunlink : s.unlinkTop claimed = .ok t) :
    t.NullsEmpty := by
  unfold CountedStack.unlinkTop at hunlink
  split at hunlink
  · cases hunlink
  · next contents hnode =>
    obtain ⟨node, -, hget⟩ := Option.bind_eq_some_iff.mp hnode
    unfold compareAndSwap at hunlink
    split at hunlink
    · cases hunlink
      exact hs.setHead (hs.next node contents hget)
    · cases hunlink

theorem settle (hs : s.NullsEmpty) (claimed : Ref) : (s.settle claimed).state.NullsEmpty := by
  unfold CountedStack.settle
  split
  · split
    · exact hs.free _
    · exact hs.setInternalCount _ _
  · exact hs

theorem release (hs : s.NullsEmpty) (claimed : Ref) : (s.release claimed).state.NullsEmpty := by
  unfold CountedStack.release
  split
  · split
    · exact hs.free _
    · exact hs.setInternalCount _ _
  · exact hs

theorem takeAndSettle (hs : s.NullsEmpty) (claimed : Ref) :
    (s.takeAndSettle claimed).state.NullsEmpty := by
  have hsettle := hs.settle claimed
  unfold CountedStack.takeAndSettle
  split
  · exact hs
  · split <;> next hsettled =>
      rw [hsettled] at hsettle
      exact hsettle

/-- A pop only makes the steps that readers make, however often it has to try. -/
theorem popFrom (hs : s.NullsEmpty) (hint : Ref) : (s.popFrom hint).state.NullsEmpty := by
  fun_induction CountedStack.popFrom s hint with
  | case1 s hint fault hclaim => exact hs
  | case2 s hint t hclaim => exact hs.claimTop hclaim
  | case3 s hint claimed t hclaim u hunlink =>
    exact ((hs.claimTop hclaim).unlinkTop hunlink).takeAndSettle claimed
  | case4 s hint claimed t hclaim current hunlink ih =>
    exact ih ((hs.claimTop hclaim).release claimed)

theorem popAndDrop [Destructor α] (count : Nat) (hs : s.NullsEmpty) :
    (popAndDrop count s).state.NullsEmpty := by
  induction count generalizing s with
  | zero => exact hs
  | succ count ih =>
    have hpop : s.pop.state.NullsEmpty := hs.popFrom s.head
    rw [popAndDrop_succ]
    split
    · exact hpop
    · exact hpop
    · split
      · exact hpop
      · exact ih hpop

end NullsEmpty

namespace Ledger

variable [Destructor α] {s t : Ledger α} {step : Step α} {reply : Reply α}

theorem nullsEmpty_of_perform (hs : s.stack.NullsEmpty) (hperform : s.perform step = some reply) :
    reply.state.stack.NullsEmpty := by
  cases performs hperform with
  | push value => exact hs.push value
  | pop => exact hs.popFrom s.stack.head
  | full => exact hs
  | nothing hclaim => exact hs.claimTop hclaim
  | claim hclaim => exact hs.claimTop hclaim
  | unlink _ hunlink => exact hs.unlinkTop hunlink
  | stale => exact hs
  | settle => exact hs.settle _
  | release => exact hs.release _
  | drop => exact hs.popAndDrop _

theorem Run.nullsEmpty {moves : List (Move α)} (hrun : Run {} moves t) : t.stack.NullsEmpty := by
  induction hrun with
  | start => exact .new
  | step hrun hperform ih => exact nullsEmpty_of_perform ih hperform

end Ledger

/-- The chain of a whole stack ends in a null reference. If no null reference counts anything, that
one does not. -/
theorem WellLinked.getLast?_refs (hs : s.WellLinked) (hnulls : s.NullsEmpty) :
    s.refs.getLast? = some CountedRef.null := by
  have hlast : s.refs.getLast?.map (fun ref ↦ ref.node) = some none := by
    rw [← List.getLast?_map, hs.map_node_refs, List.getLast?_concat]
  obtain ⟨ref, href, hnull⟩ := Option.map_eq_some_iff.mp hlast
  have hmem : ref ∈ s.head :: s.chain.map fun link ↦ link.2.next := List.mem_of_getLast? href
  rw [href, Option.some.injEq]
  rcases List.mem_cons.mp hmem with rfl | hmem
  · exact hnulls.head hnull
  · obtain ⟨link, hlink, rfl⟩ := List.mem_map.mp hmem
    exact hnulls.next link.1 link.2 (hs.get?_of_mem hlink) hnull

theorem nullCount_eq (s : CountedStack α) :
    some s.nullCount = s.refs.getLast?.map fun ref ↦ ref.count := by
  have hcounts : s.counts = s.refs.map fun ref ↦ ref.count := by
    rw [counts, refs, List.map_cons, List.map_map]
    rfl
  have hlast : s.counts.getLast? = some s.nullCount :=
    List.getLast?_eq_some_getLast (List.cons_ne_nil _ _)
  rw [← hlast, hcounts, List.getLast?_map]

/-- What a claim does depends on its hint only where that is null or full. Otherwise the head alone
decides, after at most two compare-and-swaps and those that fail on the word they expect. A null
head is never changed, neither by a claim nor by a pop, and in a run from an empty stack the
reference below the last node counts nothing. -/
theorem claim_ignores_hint [Destructor α] (s : CountedStack α) :
    (∀ hint : Ref,
      (∀ failures, s.claimTop hint = ((s.claimLogged failures hint).result.map fun claimed ↦
        (claimed, (s.claimLogged failures hint).state))) ∧
      (hint.node = none → s.ClaimEnds hint s (.ok none)) ∧
      (hint.node ≠ none → hint.count.toNat = 2 ^ 64 - 1 →
        s.ClaimEnds hint s (.error .addOverflow)) ∧
      (hint.node ≠ none → hint.count.toNat ≠ 2 ^ 64 - 1 →
        (s.head.node = none → s.ClaimEnds hint s (.ok none)) ∧
        (s.head.node ≠ none → s.head.count.toNat = 2 ^ 64 - 1 →
          s.ClaimEnds hint s (.error .addOverflow)) ∧
        (s.head.node ≠ none → s.head.count.toNat ≠ 2 ^ 64 - 1 →
          ∃ claimed : Ref, claimed.node = s.head.node ∧
            claimed.count.toNat = s.head.count.toNat + 1 ∧
            s.ClaimEnds hint { s with head := claimed } (.ok (some claimed))))) ∧
    (s.head.node = none →
      (∀ failures hint, (s.claimLogged failures hint).state = s) ∧
        s.pop = ⟨s, [], .ok none⟩) ∧
    ∀ moves (t : Ledger α), Ledger.Run {} moves t →
      t.stack.refs.getLast? = some CountedRef.null ∧ t.stack.nullCount = 0 := by
  refine ⟨?_, ?_, ?_⟩
  · intro hint
    refine ⟨fun failures ↦ claimTop_eq_claimLogged s failures hint, claimEnds_of_null,
      claimEnds_of_full, ?_⟩
    intro hnonnull hroom
    refine ⟨?_, ?_, ?_⟩
    · intro hempty
      exact (claimEnds_of_null hempty).of_head hnonnull hroom
    · intro hhead hfull
      exact (claimEnds_of_full hhead hfull).of_head hnonnull hroom
    · intro hhead hfull
      exact ⟨⟨s.head.node, s.head.count + 1⟩, rfl, toNat_add_one_of_ne hfull,
        (claimEnds_head hhead hfull).of_head hnonnull hroom⟩
  · intro hempty
    refine ⟨?_, pop_of_null hempty⟩
    intro failures hint
    by_cases hnull : hint.node = none
    · exact (claimEnds_of_null hnull).state failures
    by_cases hfull : hint.count.toNat = 2 ^ 64 - 1
    · exact (claimEnds_of_full hnull hfull).state failures
    · exact ((claimEnds_of_null hempty).of_head hnull hfull).state failures
  · intro moves t hrun
    have hlast := hrun.wellLinked.getLast?_refs hrun.nullsEmpty
    have hcount := nullCount_eq t.stack
    rw [hlast] at hcount
    exact ⟨hlast, Option.some.inj hcount⟩

def twiceClaimed : CountedStack Nat := (Ledger.contended (some 0) ⟨some 0, 3⟩ []).stack

/-- A third reader claims the node although it believed in one that was never made, and although
two of its compare-and-swaps fail on the actual head. The reference below the node counts
nothing. -/
theorem claim_ignores_hint_contention :
    (∃ claimed : Ref, claimed.node = some 0 ∧ claimed.count.toNat = 4 ∧
      twiceClaimed.ClaimEnds ⟨some 7, 40⟩ { twiceClaimed with head := claimed }
        (.ok (some claimed))) ∧
    (twiceClaimed.claimLogged [false, true, true] ⟨some 7, 40⟩).events.map (·.spurious) =
      [false, true, true, false] ∧
    twiceClaimed.nullCount = 0 := by
  obtain ⟨hclaims, -, hruns⟩ := claim_ignores_hint twiceClaimed
  obtain ⟨-, -, -, hclaim⟩ := hclaims ⟨some 7, 40⟩
  obtain ⟨-, -, hraised⟩ := hclaim (by decide) (by decide)
  refine ⟨hraised (by decide) (by decide), ?_, (hruns _ _ Ledger.run_contention).2⟩
  rw [claimLogged_of_ne _ (by decide) (by decide) (by decide),
    claimLogged_head _ (by decide) (by decide)]
  rfl

end Reclaim.CountedStack
