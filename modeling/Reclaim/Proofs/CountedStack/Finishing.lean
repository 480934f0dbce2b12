import Mathlib.Algebra.BigOperators.Group.List.Basic
import Reclaim.Proofs.CountedStack.Steps

/-!
# Internal counts over their whole range

Settling a node adds the external count, less two, to its internal count, and releasing takes one
away. Both wrap around, and both compare the count before with what they add. Still each frees the
node exactly if the count after it is zero: the sum of what was added is then a multiple of
`2 ^ 64`, whichever words overflowed on the way. So a row of steps leaves a count in which their
order cannot be seen, and the node goes with the first step that completes such a sum.

A whole pop that faults in its settlement leaves what the settlement left, without the value.
-/

namespace Reclaim

namespace Counter

/-- What a step adds to an internal count, before the sum wraps around. -/
def Request.delta : Request → Int
  | .settle external => external.toNat - 2
  | .release => -1

def countAfter (internal : Int64) (requests : List Request) : Int64 :=
  Int64.ofInt (internal.toInt + (requests.map Request.delta).sum)

def StaysOff (internal : Int64) (requests : List Request) : Prop :=
  ∀ before request rest, requests = before ++ request :: rest →
    countAfter internal (before ++ [request]) ≠ 0

theorem countAfter_nil (internal : Int64) : countAfter internal [] = internal := by
  rw [countAfter, List.map_nil, List.sum_nil, Int.add_zero, Int64.ofInt_toInt]

theorem countAfter_cons (internal : Int64) (request : Request) (requests : List Request) :
    countAfter internal (request :: requests) =
      countAfter (Int64.ofInt (internal.toInt + request.delta)) requests := by
  simp only [countAfter, List.map_cons, List.sum_cons, Int64.ofInt_add, Int64.ofInt_toInt,
    Int64.add_assoc]

theorem countAfter_perm (internal : Int64) {requests requests' : List Request}
    (hperm : requests.Perm requests') :
    countAfter internal requests = countAfter internal requests' := by
  rw [countAfter, countAfter, (hperm.map Request.delta).sum_eq]

theorem staysOff_nil (internal : Int64) : StaysOff internal [] := by
  intro before request rest hsplit
  cases before <;> cases hsplit

theorem staysOff_cons {internal : Int64} {request : Request} {requests : List Request}
    (hfirst : Int64.ofInt (internal.toInt + request.delta) ≠ 0)
    (hrest : StaysOff (Int64.ofInt (internal.toInt + request.delta)) requests) :
    StaysOff internal (request :: requests) := by
  intro before last rest hsplit
  cases before with
  | nil =>
    cases hsplit
    rwa [List.nil_append, countAfter_cons, countAfter_nil]
  | cons first before =>
    cases hsplit
    rw [List.cons_append, countAfter_cons]
    exact hrest before last rest rfl

end Counter

namespace CountedStack

open Counter (countAfter StaysOff)

variable {α : Type} {s : CountedStack α} {node : NodeId} {contents : Node α}

theorem setInternalCount_self (hget : s.heap.get? node = some contents) :
    s.setInternalCount node contents.internalCount = s := by
  refine ext_get? rfl (Heap.size_modify s.heap node _) ?_
  intro other
  rw [get?_setInternalCount]
  split
  · next hsame =>
    rw [← hsame, hget]
    rfl
  · rfl

theorem setInternalCount_setInternalCount (s : CountedStack α) (node : NodeId)
    (count count' : Int64) :
    (s.setInternalCount node count).setInternalCount node count' =
      s.setInternalCount node count' := by
  refine ext_get? rfl ?_ ?_
  · exact (Heap.size_modify _ _ _).trans ((Heap.size_modify _ _ _).trans
      (Heap.size_modify _ _ _).symm)
  · intro other
    rw [get?_setInternalCount, get?_setInternalCount, get?_setInternalCount]
    split
    · rw [Option.map_map]
      rfl
    · rfl

theorem free_setInternalCount (s : CountedStack α) (node : NodeId) (count : Int64) :
    { s.setInternalCount node count with heap := (s.setInternalCount node count).heap.free node } =
      { s with heap := s.heap.free node } := by
  refine ext_get? rfl ?_ ?_
  · exact (Heap.size_free _ _).trans ((Heap.size_modify _ _ _).trans (Heap.size_free _ _).symm)
  · intro other
    dsimp only
    rw [Heap.get?_free, get?_setInternalCount, Heap.get?_free]
    split <;> rfl

/-- A step of a reader that claimed the node. Releasing does not look at the claimed count. -/
def finishBy (s : CountedStack α) (node : NodeId) :
    Counter.Request → Outcome (CountedStack α) (Event α) Bool
  | .settle external => s.settle ⟨some node, external⟩
  | .release => s.release ⟨some node, 0⟩

/-- Takes one step after the other until one faults or frees the node. Answers the steps that are
left then, or `none` if the node is still there after all of them. -/
def finishAll (s : CountedStack α) (node : NodeId) :
    List Counter.Request → Outcome (CountedStack α) (Event α) (Option (List Counter.Request))
  | [] => ⟨s, [], .ok none⟩
  | request :: requests =>
    match s.finishBy node request with
    | ⟨t, events, .error fault⟩ => ⟨t, events, .error fault⟩
    | ⟨t, events, .ok true⟩ => ⟨t, events, .ok (some requests)⟩
    | ⟨t, events, .ok false⟩ => (t.finishAll node requests).after events

/-- A settlement over the whole range of both counts. -/
theorem settle_exact (hget : s.heap.get? node = some contents) (external : UInt64) :
    s.settle ⟨some node, external⟩ =
      if external.toNat = 2 ^ 63 ∨ external.toNat = 2 ^ 63 + 1 then ⟨s, [], .error .subOverflow⟩
      else if external.toNat = 2 ^ 63 + 2 then
        ⟨s.setInternalCount node
          (Int64.ofInt (contents.internalCount.toInt + (external.toNat - 2))), [],
          .error .negOverflow⟩
      else s.finish node (Int64.ofInt (contents.internalCount.toInt + (external.toNat - 2))) := by
  rw [settle_eq rfl hget, setInternalCount_self hget, Counter.add_toInt64_sub_two]

theorem release_exact {claimed : Ref} (hnode : claimed.node = some node)
    (hget : s.heap.get? node = some contents) :
    s.release claimed = s.finish node (Int64.ofInt (contents.internalCount.toInt - 1)) := by
  rw [release_eq hnode hget, Counter.sub_one_eq_ofInt]

theorem finishBy_eq (hget : s.heap.get? node = some contents) (request : Counter.Request) :
    s.finishBy node request =
        s.finish node (Int64.ofInt (contents.internalCount.toInt + request.delta)) ∨
      ∃ fault, (s.finishBy node request).result = .error fault := by
  cases request with
  | settle external =>
    rw [finishBy, settle_exact hget]
    split
    · exact Or.inr ⟨_, rfl⟩
    · split
      · exact Or.inr ⟨_, rfl⟩
      · exact Or.inl rfl
  | release => exact Or.inl (release_exact rfl hget)

theorem get?_setInternalCount_self (hget : s.heap.get? node = some contents) (count : Int64) :
    (s.setInternalCount node count).heap.get? node =
      some { contents with internalCount := count } := by
  rw [get?_setInternalCount, if_pos rfl, hget]
  rfl

/-- A script on one count does what the steps do to the count of their node. -/
theorem perform_eq_finishBy (hget : s.heap.get? node = some contents) (request : Counter.Request) :
    Counter.perform (some contents.internalCount) request =
      (((s.finishBy node request).state.heap.get? node).map fun contents ↦ contents.internalCount,
        .ofExcept (s.finishBy node request).result) := by
  have hfinish (count : Int64) :
      (((s.finish node count).state.heap.get? node).map fun contents ↦ contents.internalCount,
        Ending.ofExcept (s.finish node count).result) =
      if count = 0 then (none, .answered true) else (some count, .answered false) := by
    rw [get?_finish, if_pos rfl, finish_result, hget]
    split
    · next hzero =>
      rw [decide_eq_true hzero]
      rfl
    · next hzero =>
      rw [decide_eq_false hzero]
      rfl
  cases request with
  | settle external =>
    rw [finishBy, settle_eq rfl hget, Counter.perform, Counter.settle_eq]
    dsimp only
    by_cases hsub : external.toNat = 2 ^ 63 ∨ external.toNat = 2 ^ 63 + 1
    · rw [if_pos hsub, if_pos hsub, get?_setInternalCount_self hget]
      rfl
    rw [if_neg hsub, if_neg hsub]
    by_cases hneg : external.toNat = 2 ^ 63 + 2
    · rw [if_pos hneg, if_pos hneg, get?_setInternalCount_self hget]
      rfl
    · rw [if_neg hneg, if_neg hneg, hfinish]
      by_cases hzero : contents.internalCount + (external.toInt64 - 2) = 0
      · simp only [hzero, decide_true, if_true]
      · simp only [hzero, decide_false, if_false]
  | release =>
    rw [finishBy, release_eq rfl hget, hfinish, Counter.perform, Counter.release_eq]
    by_cases hzero : contents.internalCount - 1 = 0
    · simp only [hzero, decide_true, if_true]
    · simp only [hzero, decide_false, if_false]

theorem finishAll_nil (hget : s.heap.get? node = some contents) :
    s.finishAll node [] =
      ⟨s.setInternalCount node (countAfter contents.internalCount []), [], .ok none⟩ := by
  rw [Counter.countAfter_nil, setInternalCount_self hget]
  rfl

theorem finishAll_of_fault {request : Counter.Request} {fault : Fault}
    (requests : List Counter.Request)
    (hfault : (s.finishBy node request).result = .error fault) :
    (s.finishAll node (request :: requests)).result = .error fault := by
  rw [finishAll]
  cases hstep : s.finishBy node request with
  | mk t events result =>
    rw [hstep] at hfault
    cases hfault
    rfl

theorem finishAll_of_finish {request : Counter.Request} {count : Int64}
    (requests : List Counter.Request)
    (hstep : s.finishBy node request = s.finish node count) :
    s.finishAll node (request :: requests) =
      if count = 0 then ⟨{ s with heap := s.heap.free node }, [.freed node], .ok (some requests)⟩
      else (s.setInternalCount node count).finishAll node requests := by
  rw [finishAll, hstep, finish]
  by_cases hzero : count = 0
  · rw [if_pos hzero, if_pos hzero]
  · rw [if_neg hzero, if_neg hzero]
    rfl

/-- A row of steps that does not fault leaves the node with the sum of all that was added, or frees
it at the first step that completes a sum of zero. -/
theorem finishAll_eq (hget : s.heap.get? node = some contents) (requests : List Counter.Request)
    {left : Option (List Counter.Request)} (hfine : (s.finishAll node requests).result = .ok left) :
    StaysOff contents.internalCount requests ∧
        s.finishAll node requests =
          ⟨s.setInternalCount node (countAfter contents.internalCount requests), [], .ok none⟩ ∨
      ∃ before request rest, requests = before ++ request :: rest ∧
        StaysOff contents.internalCount before ∧
        s.finishAll node before =
          ⟨s.setInternalCount node (countAfter contents.internalCount before), [], .ok none⟩ ∧
        countAfter contents.internalCount (before ++ [request]) = 0 ∧
        s.finishAll node requests =
          ⟨{ s with heap := s.heap.free node }, [.freed node], .ok (some rest)⟩ := by
  induction requests generalizing s contents with
  | nil => exact Or.inl ⟨Counter.staysOff_nil _, finishAll_nil hget⟩
  | cons request requests ih =>
    obtain hstep | ⟨fault, hfault⟩ := finishBy_eq hget request
    · have hall (requests : List Counter.Request) := finishAll_of_finish requests hstep
      have hcount := Counter.countAfter_cons contents.internalCount request
      set count := Int64.ofInt (contents.internalCount.toInt + request.delta)
      -- The first step frees the node, or the rest goes on from the count that it left.
      by_cases hzero : count = 0
      · simp only [if_pos hzero] at hall
        refine Or.inr ⟨[], request, requests, rfl, Counter.staysOff_nil _, finishAll_nil hget, ?_,
          hall requests⟩
        rw [List.nil_append, hcount, Counter.countAfter_nil, hzero]
      · simp only [if_neg hzero] at hall
        have hget' := get?_setInternalCount_self hget count
        rw [hall] at hfine
        obtain ⟨hoff, hrest⟩ | ⟨before, last, rest, rfl, hoff, hbefore, hlast, hrest⟩ :=
          ih hget' hfine
        · refine Or.inl ⟨Counter.staysOff_cons hzero hoff, ?_⟩
          rw [hall, hrest, setInternalCount_setInternalCount, hcount]
        · refine Or.inr ⟨request :: before, last, rest, rfl, Counter.staysOff_cons hzero hoff,
            ?_, ?_, ?_⟩
          · rw [hall, hbefore, setInternalCount_setInternalCount, hcount]
          · rw [List.cons_append, hcount, hlast]
          · rw [hall, hrest, free_setInternalCount]
    · rw [finishAll_of_fault requests hfault] at hfine
      cases hfine

theorem finishAll_of_kept (hget : s.heap.get? node = some contents)
    {requests : List Counter.Request}
    (hkept : (s.finishAll node requests).result = .ok none) :
    s.finishAll node requests =
      ⟨s.setInternalCount node (countAfter contents.internalCount requests), [], .ok none⟩ := by
  obtain ⟨-, hrun⟩ | ⟨before, request, rest, -, -, -, -, hrun⟩ := finishAll_eq hget requests hkept
  · exact hrun
  · rw [hrun] at hkept
    cases hkept

section

variable {top : NodeId} (hhead : s.head.node = some top) (hget : s.heap.get? top = some contents)
include hhead hget

/-- A settlement that faults on its subtraction has changed no count. The pop destroys the value. -/
theorem pop_of_subOverflow
    (hcount : s.head.count.toNat + 1 = 2 ^ 63 ∨ s.head.count.toNat + 1 = 2 ^ 63 + 1) :
    s.pop = ⟨{ s with head := contents.next }, [.dropped contents.value], .error .subOverflow⟩ := by
  let below : CountedStack α := { s with head := contents.next }
  have hroom : s.head.count.toNat ≠ 2 ^ 64 - 1 := by omega
  have hsettle := settle_exact (s := below) hget (s.head.count + 1)
  rw [toNat_add_one_of_ne hroom, if_pos hcount, ← hhead] at hsettle
  rw [pop_of_top hhead hget, if_neg hroom, hsettle]
  rfl

/-- A settlement that faults on its negation has changed the count of its node. The pop destroys the
value. -/
theorem pop_of_negOverflow (hcount : s.head.count.toNat + 1 = 2 ^ 63 + 2) :
    s.pop =
      ⟨{ s with head := contents.next }.setInternalCount top
        (Int64.ofInt (contents.internalCount.toInt + 2 ^ 63)), [.dropped contents.value],
        .error .negOverflow⟩ := by
  let below : CountedStack α := { s with head := contents.next }
  have hroom : s.head.count.toNat ≠ 2 ^ 64 - 1 := by omega
  have hsettle := settle_exact (s := below) hget (s.head.count + 1)
  have hdelta : ((2 ^ 63 + 2 : Nat) : Int) - 2 = 2 ^ 63 := rfl
  rw [toNat_add_one_of_ne hroom, if_neg (by omega), if_pos hcount, hcount, hdelta, ← hhead]
    at hsettle
  rw [pop_of_top hhead hget, if_neg hroom, hsettle]
  rfl

end

/-! ## The whole range -/

/-- Settling a node faults on exactly three external counts and, like releasing it, otherwise moves
the internal count and frees the node exactly if that leaves zero. So rows of steps that do not
fault add up, in whatever order, and free the node at the first step that makes the sum zero. -/
theorem finishing_exact (hget : s.heap.get? node = some contents) :
    (∀ external : UInt64, s.settle ⟨some node, external⟩ =
        if external.toNat = 2 ^ 63 ∨ external.toNat = 2 ^ 63 + 1 then ⟨s, [], .error .subOverflow⟩
        else if external.toNat = 2 ^ 63 + 2 then
          ⟨s.setInternalCount node
            (Int64.ofInt (contents.internalCount.toInt + (external.toNat - 2))), [],
            .error .negOverflow⟩
        else s.finish node (Int64.ofInt (contents.internalCount.toInt + (external.toNat - 2)))) ∧
      (∀ claimed : Ref, claimed.node = some node →
        s.release claimed = s.finish node (Int64.ofInt (contents.internalCount.toInt - 1))) ∧
      (∀ requests left, (s.finishAll node requests).result = .ok left →
        StaysOff contents.internalCount requests ∧
            s.finishAll node requests =
              ⟨s.setInternalCount node (countAfter contents.internalCount requests), [],
                .ok none⟩ ∨
          ∃ before request rest, requests = before ++ request :: rest ∧
            StaysOff contents.internalCount before ∧
            s.finishAll node before =
              ⟨s.setInternalCount node (countAfter contents.internalCount before), [],
                .ok none⟩ ∧
            countAfter contents.internalCount (before ++ [request]) = 0 ∧
            s.finishAll node requests =
              ⟨{ s with heap := s.heap.free node }, [.freed node], .ok (some rest)⟩) ∧
      ∀ requests requests' : List Counter.Request, requests.Perm requests' →
        (s.finishAll node requests).result = .ok none →
        (s.finishAll node requests').result = .ok none →
        s.finishAll node requests = s.finishAll node requests' := by
  refine ⟨settle_exact hget, fun claimed hnode ↦ release_exact hnode hget, ?_, ?_⟩
  · intro requests left hfine
    exact finishAll_eq hget requests hfine
  · intro requests requests' hperm hfine hfine'
    rw [finishAll_of_kept hget hfine, finishAll_of_kept hget hfine',
      Counter.countAfter_perm _ hperm]

/-- A node that was taken off its stack and has the greatest internal count. -/
def brimful : CountedStack Nat :=
  ⟨CountedRef.null, ⟨#[some ⟨6, Int64.maxValue, CountedRef.null⟩]⟩⟩

def lastSteps : List Counter.Request := [.release, .settle 9223372036854775812, .release]

/-- A release and a settlement together add `2 ^ 63 + 1`, so the node goes before its last
release. -/
theorem finishing_exact_brimful :
    (brimful.finishAll 0 lastSteps).result = .ok (some [.release]) ∧
      ∃ before request rest, lastSteps = before ++ request :: rest ∧
        StaysOff Int64.maxValue before ∧ countAfter Int64.maxValue (before ++ [request]) = 0 ∧
        brimful.finishAll 0 lastSteps =
          ⟨{ brimful with heap := brimful.heap.free 0 }, [.freed 0], .ok (some rest)⟩ := by
  have hresult : (brimful.finishAll 0 lastSteps).result = .ok (some [.release]) := rfl
  have hget : brimful.heap.get? 0 = some ⟨6, Int64.maxValue, CountedRef.null⟩ := rfl
  obtain ⟨-, -, hrows, -⟩ := finishing_exact hget
  obtain ⟨-, hrun⟩ | ⟨before, request, rest, hsplit, hoff, -, hzero, hrun⟩ := hrows _ _ hresult
  · rw [hrun] at hresult
    cases hresult
  · exact ⟨hresult, before, request, rest, hsplit, hoff, hzero, hrun⟩

end CountedStack

end Reclaim
