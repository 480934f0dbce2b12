import Reclaim.Proofs.CountedStack.Runs

/-!
# Finishing a claim commutes

Who settles or releases a claim only adds to the internal count of one node. Additions to a count
may be made in any order, and a node on which another claim is open, or that is still linked, is not
freed in between. So a step that finishes a claim may be taken before or after any step of another
participant: the ledger is the same in the end, and so are the answers, up to which of the two steps
freed a node that both had a part in.
-/

namespace Reclaim.CountedStack

variable {α : Type} {s t : CountedStack α} {node other : NodeId} {contents : Node α}

/-- A node that is live after a claim is finished was live before, and only its internal count may
be another. -/
theorem get?_of_finish {count : Int64} {after : Node α}
    (hafter : (s.finish node count).state.heap.get? other = some after)
    (hget : s.heap.get? other = some contents) :
    after = (if node = other then { contents with internalCount := count } else contents) ∧
      (node = other → count ≠ 0) := by
  rw [get?_finish] at hafter
  by_cases hsame : node = other
  · rw [if_pos hsame, hsame, hget] at hafter
    rw [if_pos hsame]
    by_cases hzero : count = 0
    · rw [if_pos hzero] at hafter
      cases hafter
    · rw [if_neg hzero] at hafter
      exact ⟨(Option.some.inj hafter).symm, fun _ ↦ hzero⟩
  · rw [if_neg hsame, hget] at hafter
    rw [if_neg hsame]
    exact ⟨(Option.some.inj hafter).symm, fun h ↦ absurd h hsame⟩

theorem finish_setHead (s : CountedStack α) (head : Ref) (node : NodeId) (count : Int64) :
    ({ s with head }.finish node count).state = { (s.finish node count).state with head } := by
  unfold finish
  split <;> rfl

theorem finish_push (value : α) {count : Int64} (hlt : node < s.heap.size) :
    ((s.push value).2.finish node count).state = ((s.finish node count).state.push value).2 := by
  apply ext_get?
  · rw [finish_head]
    change _ = (⟨some (s.finish node count).state.heap.size, 1⟩ : Ref)
    rw [finish_size]
    rfl
  · rw [finish_size, size_push, size_push, finish_size]
  · intro other
    rw [get?_finish, get?_push, get?_push, get?_push, finish_size, finish_head, get?_finish,
      if_neg (Nat.ne_of_lt hlt)]
    by_cases hsame : node = other
    · subst hsame
      rw [if_pos rfl, if_pos rfl, if_neg (Nat.ne_of_lt hlt)]
    · rw [if_neg hsame, if_neg hsame]

/-- Claims on two nodes may be finished in either order. -/
theorem finish_finish_of_ne (hne : node ≠ other) (count count' : Int64) :
    ((s.finish node count).state.finish other count').state =
      ((s.finish other count').state.finish node count).state := by
  apply ext_get?
  · simp only [finish_head]
  · simp only [finish_size]
  · intro third
    simp only [get?_finish]
    by_cases hnode : node = third
    · have hother : other ≠ third := hnode ▸ hne.symm
      simp only [if_pos hnode, if_neg hother, if_neg hne.symm]
    · simp only [if_neg hnode, if_neg hne]

/-- Only the last count that is written to a node is left. -/
theorem finish_finish_self {count : Int64} (hkept : count ≠ 0) (count' : Int64) :
    ((s.finish node count).state.finish node count').state = (s.finish node count').state := by
  apply ext_get?
  · simp only [finish_head]
  · simp only [finish_size]
  · intro third
    simp only [get?_finish, if_true, if_neg hkept]
    by_cases hnode : node = third
    · simp only [if_pos hnode, Option.map_map]
      rfl
    · simp only [if_neg hnode]

/-- Two claims are finished, in either order. What the one adds to the internal count of its node
does not depend on the other; if both are claims on one node, the first does not free it. -/
theorem finish_interchange {left right : Node α} {delta delta' : Int64}
    (hleft : s.heap.get? node = some left) (hright : s.heap.get? other = some right)
    {left' right' : Node α}
    (hleft' : (s.finish other (right.internalCount + delta')).state.heap.get? node = some left')
    (hright' : (s.finish node (left.internalCount + delta)).state.heap.get? other = some right') :
    ((s.finish node (left.internalCount + delta)).state.finish other
        (right'.internalCount + delta')).state =
      ((s.finish other (right.internalCount + delta')).state.finish node
        (left'.internalCount + delta)).state ∧
    left'.value = left.value ∧ right'.value = right.value ∧ right'.next = right.next ∧
    (node ≠ other → left' = left ∧ right' = right) ∧
    (node = other → left.internalCount + delta ≠ 0 ∧ right.internalCount + delta' ≠ 0 ∧
      right'.internalCount + delta' = left'.internalCount + delta) := by
  obtain ⟨hl, hzero'⟩ := get?_of_finish hleft' hleft
  obtain ⟨hr, hzero⟩ := get?_of_finish hright' hright
  by_cases hsame : node = other
  · subst hsame
    obtain rfl := Option.some.inj (hleft.symm.trans hright)
    rw [if_pos rfl] at hl hr
    have hcounts : right'.internalCount + delta' = left'.internalCount + delta := by
      rw [hl, hr]
      dsimp only
      rw [Int64.add_assoc, Int64.add_comm delta, Int64.add_assoc]
    refine ⟨?_, by rw [hl], by rw [hr], by rw [hr], fun h ↦ absurd rfl h,
      fun _ ↦ ⟨hzero rfl, hzero' rfl, hcounts⟩⟩
    rw [finish_finish_self (hzero rfl), finish_finish_self (hzero' rfl), hcounts]
  · rw [if_neg (Ne.symm hsame)] at hl
    rw [if_neg hsame] at hr
    subst hl hr
    exact ⟨finish_finish_of_ne hsame _ _, rfl, rfl, rfl, fun _ ↦ ⟨rfl, rfl⟩,
      fun h ↦ absurd h hsame⟩

namespace Ledger

/-! ## Steps in a given state -/

/-- How a step without a fault finishes a claim: the step, the stages, what it adds to the internal
count, and what it answers given the value of the node and whether the node was freed. -/
inductive Ending (ref : Ref) (token : Nat) :
    Step α → Stage → Stage → Int64 → (α → Bool → Answer α) → Prop
  | settle (hsettles : Settles ref.count) :
      Ending ref token (.settle token) .unlinked .settled (ref.count.toInt64 - 2)
        fun value freed ↦ .settled (some value) freed
  | release : Ending ref token (.release token) .held .released (-1) fun _ freed ↦ .released freed

def finished (s : Ledger α) (token : Nat) (claim : Claim) (node : NodeId) (count : Int64)
    (answer : Bool → Answer α) : Reply α :=
  ⟨s.afterFinish token claim node count, (s.stack.finish node count).events,
    .ok (answer (decide (count = 0)))⟩

def popped (s : Ledger α) (top : NodeId) (contents : Node α) (delta : Int64) : Reply α :=
  let done := { s.stack with head := contents.next }.finish top (contents.internalCount + delta)
  ⟨{ s with
      stack := done.state
      claims := s.claims ++ [⟨⟨some top, s.stack.head.count + 1⟩, .settled⟩] },
    done.events, .ok (.popped (some contents.value))⟩

variable {s : Ledger α} {ref : Ref} {token : Nat} {step : Step α} {old new : Stage} {delta : Int64}
  {answer : α → Bool → Answer α}

theorem Ending.finish (hending : Ending ref token step old new delta answer) :
    Finish ref old new delta := by
  cases hending with
  | settle => exact .settle
  | release => exact .release

theorem Ending.isOpen (hending : Ending ref token step old new delta answer) :
    old = .held ∨ old = .unlinked := by
  cases hending with
  | settle => exact Or.inr rfl
  | release => exact Or.inl rfl

/-- An answer without the note whether a node was freed. -/
def Answer.unmarked : Answer α → Answer α
  | .settled value _ => .settled value false
  | .released _ => .released false
  | answer => answer

def Step.token? : Step α → Option Nat
  | .unlink token | .settle token | .release token => some token
  | _ => none

def counted? (s : Ledger α) : Step α → Option NodeId
  | .pop => s.stack.head.node
  | .settle token | .release token => s.claims[token]?.bind fun claim ↦ claim.ref.node
  | _ => none

theorem Ending.unmarked_answer (hending : Ending ref token step old new delta answer) (value : α)
    (freed freed' : Bool) : (answer value freed).unmarked = (answer value freed').unmarked := by
  cases hending with
  | settle => rfl
  | release => rfl

theorem Ending.counted?_eq (hending : Ending ref token step old new delta answer)
    (hclaim : s.claims[token]? = some ⟨ref, old⟩) (hnode : ref.node = some node) :
    s.counted? step = some node := by
  cases hending with
  | settle => rw [counted?, hclaim, Option.bind_some, hnode]
  | release => rw [counted?, hclaim, Option.bind_some, hnode]

theorem finished_events {t : Ledger α} {claim : Claim} {count : Int64} {answer' : Bool → Answer α}
    {answer : Bool → Answer α} :
    (t.finished token claim node count answer').events =
      (s.finished token claim node count answer).events := by
  change (t.stack.finish node count).events = (s.stack.finish node count).events
  rw [finish_events, finish_events]

variable [Destructor α] {reply : Reply α}

theorem perform_of_ending (hending : Ending ref token step old new delta answer)
    (hclaim : s.claims[token]? = some ⟨ref, old⟩) (hnode : ref.node = some node)
    (hget : s.stack.heap.get? node = some contents) :
    s.perform step = some (s.finished token ⟨ref, new⟩ node (contents.internalCount + delta)
      (answer contents.value)) := by
  rw [perform_eq_some_iff]
  cases hending with
  | settle hsettles =>
    refine ⟨fun _ ↦ rfl, ?_⟩
    simp only [carryOut, hclaim, node?_eq_get? hnode, hget, conclude,
      settle_of_settles hnode hget hsettles, finish_result]
    rfl
  | release =>
    refine ⟨fun _ ↦ rfl, ?_⟩
    simp only [carryOut, hclaim, conclude, release_eq hnode hget, finish_result,
      Int64.sub_eq_add_neg]
    rfl

/-- A step that finishes a claim without a fault of arithmetic. -/
theorem exists_ending (hs : s.Balanced) (hstep : step = .settle token ∨ step = .release token)
    (hperform : s.perform step = some reply) (hcalm : ¬ Overflows reply.result) :
    ∃ ref old new delta node contents answer, Ending ref token step old new delta answer ∧
      s.claims[token]? = some ⟨ref, old⟩ ∧ ref.node = some node ∧
      s.stack.heap.get? node = some contents ∧
      reply = s.finished token ⟨ref, new⟩ node (contents.internalCount + delta)
        (answer contents.value) := by
  rcases hstep with rfl | rfl
  · obtain ⟨ref, node, contents, hclaim, hnode, hget, -⟩ := settle_cases hs hperform
    have hsettles : Settles ref.count := by
      apply settles_of_not_overflows hnode hget
      have hcarry := (perform_eq_some_iff.mp hperform).2
      rw [carryOut, hclaim] at hcarry
      obtain rfl := Option.some.inj hcarry
      exact mt overflows_map.mpr hcalm
    have hending : Ending ref token (.settle token : Step α) .unlinked .settled _ _ :=
      .settle hsettles
    refine ⟨ref, _, _, _, node, contents, _, hending, hclaim, hnode, hget, ?_⟩
    exact Option.some.inj (hperform.symm.trans (perform_of_ending hending hclaim hnode hget))
  · obtain ⟨ref, node, contents, -, hclaim, hnode, hget, -, -⟩ := release_eq_some hs hperform
    have hending : Ending ref token (.release token : Step α) .held .released _ _ := .release
    refine ⟨ref, _, _, _, node, contents, _, hending, hclaim, hnode, hget, ?_⟩
    exact Option.some.inj (hperform.symm.trans (perform_of_ending hending hclaim hnode hget))

theorem perform_unlink_head (hkept : s.dropped = false)
    (hclaim : s.claims[token]? = some ⟨s.stack.head, .held⟩)
    (hhead : s.stack.head.node = some node) (hget : s.stack.heap.get? node = some contents) :
    s.perform (.unlink token) = some ⟨s.afterUnlink token contents, [], .ok .unlinked⟩ := by
  rw [perform_of_kept hkept, carryOut, hclaim]
  dsimp only
  rw [unlinkTop_eq hhead hget, if_pos rfl]
  rfl

theorem perform_unlink_stale (hkept : s.dropped = false)
    (hclaim : s.claims[token]? = some ⟨ref, .held⟩) (hstale : ref ≠ s.stack.head)
    (hnode : ref.node = some node) (hget : s.stack.heap.get? node = some contents) :
    s.perform (.unlink token) = some ⟨s, [], .ok (.notUnlinked s.stack.head)⟩ := by
  rw [perform_of_kept hkept, carryOut, hclaim]
  dsimp only
  rw [unlinkTop_eq hnode hget, if_neg hstale.symm]

/-- A pop of a stack that is not empty, where its settlement does not fault. -/
theorem perform_pop_top (hs : s.Balanced) (hkept : s.dropped = false)
    (hhead : s.stack.head.node = some node) (hget : s.stack.heap.get? node = some contents)
    (hroom : s.stack.head.count.toNat ≠ 2 ^ 64 - 1) (hsettles : Settles (s.stack.head.count + 1)) :
    s.perform .pop =
      some (s.popped node contents ((s.stack.head.count + 1).toInt64 - 2)) := by
  obtain ⟨found, hfound, hlevels, -⟩ := hs.linked.levels_pop hhead hroom
  obtain rfl := Option.some.inj (hget.symm.trans hfound)
  have hclaims : s.stack.claimsOfPops s.stack.pop.state =
      [⟨⟨some node, s.stack.head.count + 1⟩, .settled⟩] :=
    claimsOfPops_of_levels (show s.stack.levels = [(s.stack.head.count, node, contents)] ++
      s.stack.pop.state.levels from hlevels)
  rw [perform_of_kept hkept, carryOut, afterPops, hclaims, pop_of_settles hhead hget hroom hsettles]
  rfl

theorem room_of_pop (hkept : s.dropped = false) (hhead : s.stack.head.node = some node)
    (hget : s.stack.heap.get? node = some contents) (hperform : s.perform .pop = some reply)
    (hcalm : ¬ Overflows reply.result) :
    s.stack.head.count.toNat ≠ 2 ^ 64 - 1 ∧ Settles (s.stack.head.count + 1) := by
  rw [perform_of_kept hkept] at hperform
  obtain rfl := Option.some.inj hperform
  have hpop := mt overflows_map.mpr hcalm
  have hroom : s.stack.head.count.toNat ≠ 2 ^ 64 - 1 := by
    intro hfull
    rw [pop_of_full hhead hget hfull] at hpop
    exact hpop ⟨_, rfl, rfl⟩
  refine ⟨hroom, ?_⟩
  rw [pop_of_top hhead hget, if_neg hroom] at hpop
  exact settles_of_not_overflows (s := { s.stack with head := contents.next })
    (show (⟨s.stack.head.node, s.stack.head.count + 1⟩ : Ref).node = some node from hhead) hget
    (mt overflows_map.mpr hpop)

/-! ## Two orders of two steps -/

/-- Two steps, each with its reply if it is taken first, and then with its reply if it is taken
second: `first` with `early` and `late'`, `second` with `early'` and `late`. -/
structure Interchange (s : Ledger α) (first second : Step α) (early early' late late' : Reply α) :
    Prop where
  enabled : early.state.perform second = some late
  enabled' : early'.state.perform first = some late'
  state : late.state = late'.state
  answer : late'.result.map Answer.unmarked = early.result.map Answer.unmarked
  answer' : late.result.map Answer.unmarked = early'.result.map Answer.unmarked
  /-- Steps that do not share a node do not notice each other. -/
  apart : s.counted? first ≠ s.counted? second →
    late'.result = early.result ∧ late'.events = early.events ∧
      late.result = early'.result ∧ late.events = early'.events
  /-- If they share a node, the second frees it or nobody does, in both orders alike. -/
  shared : ∀ node, s.counted? first = some node → s.counted? second = some node →
    early.events = [] ∧ early'.events = [] ∧ late.events = late'.events ∧
      (late.events = [] ∨ late.events = [.freed node])

theorem Interchange.of_apart {first second : Step α} {early early' late late' : Reply α}
    (hcounted : s.counted? first ≠ s.counted? second)
    (henabled : early.state.perform second = some late)
    (henabled' : early'.state.perform first = some late') (hstate : late.state = late'.state)
    (hfirst : late'.result = early.result ∧ late'.events = early.events)
    (hsecond : late.result = early'.result ∧ late.events = early'.events) :
    Interchange s first second early early' late late' where
  enabled := henabled
  enabled' := henabled'
  state := hstate
  answer := by rw [hfirst.1]
  answer' := by rw [hsecond.1]
  apart _ := ⟨hfirst.1, hfirst.2, hsecond.1, hsecond.2⟩
  shared _ hnode hnode' := absurd (hnode.trans hnode'.symm) hcounted

/-- Two steps that add to internal counts, each with the count that it leaves in either order. -/
theorem Interchange.of_counts {first second : Step α} {early early' late late' : Reply α}
    {node other : NodeId} {x y x' y' : Int64} (hfirst : s.counted? first = some node)
    (hsecond : s.counted? second = some other)
    (henabled : early.state.perform second = some late)
    (henabled' : early'.state.perform first = some late') (hstate : late.state = late'.state)
    (hanswer : late'.result.map Answer.unmarked = early.result.map Answer.unmarked ∧
      late.result.map Answer.unmarked = early'.result.map Answer.unmarked)
    (hearly : early.events = if x = 0 then [.freed node] else [])
    (hearly' : early'.events = if y = 0 then [.freed other] else [])
    (hlate : late.events = if y' = 0 then [.freed other] else [])
    (hlate' : late'.events = if x' = 0 then [.freed node] else [])
    (hapart : node ≠ other → x' = x ∧ y' = y ∧ late'.result = early.result ∧
      late.result = early'.result)
    (hshared : node = other → x ≠ 0 ∧ y ≠ 0 ∧ y' = x') :
    Interchange s first second early early' late late' where
  enabled := henabled
  enabled' := henabled'
  state := hstate
  answer := hanswer.1
  answer' := hanswer.2
  apart := by
    intro hne
    obtain ⟨hx, hy, hresult, hresult'⟩ := hapart fun hsame ↦ hne (by rw [hfirst, hsecond, hsame])
    exact ⟨hresult, by rw [hlate', hearly, hx], hresult', by rw [hlate, hearly', hy]⟩
  shared := by
    intro third hnode hother
    obtain rfl : node = third := Option.some.inj (hfirst.symm.trans hnode)
    obtain rfl : other = node := Option.some.inj (hsecond.symm.trans hother)
    obtain ⟨hx, hy, hsame⟩ := hshared rfl
    refine ⟨by rw [hearly, if_neg hx], by rw [hearly', if_neg hy], by rw [hlate, hlate', hsame], ?_⟩
    rw [hlate]
    split
    · exact Or.inr rfl
    · exact Or.inl rfl

section

variable (hending : Ending ref token step old new delta answer)
  (hclaim : s.claims[token]? = some ⟨ref, old⟩) (hnode : ref.node = some node)
  (hget : s.stack.heap.get? node = some contents)

include hending hclaim hnode hget

theorem interchange_push (hkept : s.dropped = false) (value : α) :
    ∃ late late', Interchange s step (.push value)
      (s.finished token ⟨ref, new⟩ node (contents.internalCount + delta) (answer contents.value))
      ⟨{ s with stack := (s.stack.push value).2 }, [], .ok (.pushed (s.stack.push value).1)⟩
      late late' := by
  have hlt := Heap.lt_size_of_get? hget
  have hget' : (s.stack.push value).2.heap.get? node = some contents := by
    rw [get?_push, if_neg (Nat.ne_of_lt hlt), hget]
  let t : Ledger α := s.afterFinish token ⟨ref, new⟩ node (contents.internalCount + delta)
  have hlate : t.perform (.push value) = some ⟨{ t with stack := (t.stack.push value).2 }, [],
      .ok (.pushed (t.stack.push value).1)⟩ :=
    perform_of_kept (s := t) hkept (.push value)
  have hlate' := perform_of_ending (s := { s with stack := (s.stack.push value).2 }) hending hclaim
    hnode hget'
  refine ⟨_, _, .of_apart ?_ hlate hlate' ?_ ⟨rfl, finished_events⟩ ⟨?_, rfl⟩⟩
  · rw [hending.counted?_eq hclaim hnode]
    exact Option.some_ne_none node
  · exact congrArg (fun stack ↦ (⟨stack, s.dropped, s.advance token ref new⟩ : Ledger α))
      (finish_push value hlt).symm
  · exact congrArg (fun size ↦ Except.ok (Answer.pushed size)) (finish_size s.stack node _)

theorem interchange_claim (hkept : s.dropped = false) (hint : Ref)
    (hperform : s.perform (.claim hint) = some reply) :
    ∃ late late', Interchange s step (.claim hint)
      (s.finished token ⟨ref, new⟩ node (contents.internalCount + delta) (answer contents.value))
      reply late late' := by
  have hlt := (List.getElem?_eq_some_iff.mp hclaim).1
  obtain ⟨head, made, result, hsame⟩ := perform_claim s hint
  obtain rfl := Option.some.inj (hperform.symm.trans (hsame s hkept rfl))
  let t : Ledger α := s.afterFinish token ⟨ref, new⟩ node (contents.internalCount + delta)
  have hlate := hsame t hkept (finish_head s.stack node _)
  have hclaim' : (s.claims ++ made)[token]? = some ⟨ref, old⟩ := by
    rwa [List.getElem?_append_left hlt]
  have hlate' := perform_of_ending
    (s := { s with stack := { s.stack with head }, claims := s.claims ++ made }) hending hclaim'
    hnode hget
  refine ⟨_, _, .of_apart ?_ hlate hlate' ?_ ⟨rfl, finished_events⟩ ⟨rfl, rfl⟩⟩
  · rw [hending.counted?_eq hclaim hnode]
    exact Option.some_ne_none node
  · have hclaims : s.advance token ref new ++ made = (s.claims ++ made).set token ⟨ref, new⟩ :=
      (List.set_append_left _ _ hlt).symm
    exact congrArg₂ (fun stack claims ↦ (⟨stack, s.dropped, claims⟩ : Ledger α))
      (finish_setHead s.stack head node _).symm hclaims

theorem interchange_unlink (hs : s.Balanced) {token' : Nat} (hother : token' ≠ token)
    (hperform : s.perform (.unlink token') = some reply) :
    ∃ late late', Interchange s step (.unlink token')
      (s.finished token ⟨ref, new⟩ node (contents.internalCount + delta) (answer contents.value))
      reply late late' := by
  have hkept : s.dropped = false := by
    rw [← Bool.not_eq_true]
    exact fun hdropped ↦ Bool.noConfusion ((perform_eq_some_iff.mp hperform).1 hdropped)
  have hcounted : s.counted? step ≠ s.counted? (.unlink token' : Step α) := by
    rw [hending.counted?_eq hclaim hnode]
    exact Option.some_ne_none node
  let t : Ledger α := s.afterFinish token ⟨ref, new⟩ node (contents.internalCount + delta)
  have ht : t.Balanced := hs.finish hending.finish hclaim hnode hget
  have hhead' : t.stack.head = s.stack.head := finish_head s.stack node _
  obtain ⟨ref', hclaim', hcases⟩ := unlink_cases hs hperform
  -- The claim is still held after the other is finished, so its node is still live.
  have hheld : t.claims[token']? = some ⟨ref', .held⟩ := by
    change (s.claims.set token _)[token']? = _
    rwa [List.getElem?_set_ne (Ne.symm hother)]
  obtain ⟨top, after, hnode', hafter⟩ := ht.exists_get?_of_open hheld (Or.inl rfl)
  rcases hcases with ⟨rfl, top', found, hhead, hfound, rfl⟩ | ⟨hstale, rfl⟩
  · obtain rfl : top = top' := Option.some.inj (hnode'.symm.trans hhead)
    have hnext : after.next = found.next := by
      rw [(get?_of_finish hafter hfound).1]
      split <;> rfl
    have hlate := perform_unlink_head (s := t) hkept (hhead'.symm ▸ hheld) (hhead'.symm ▸ hhead)
      hafter
    have hopen : (s.afterUnlink token' found).claims[token]? = some ⟨ref, old⟩ := by
      change (s.claims.set token' _)[token]? = _
      rwa [List.getElem?_set_ne hother]
    have hlate' := perform_of_ending (s := s.afterUnlink token' found) hending hopen hnode hget
    refine ⟨_, _, .of_apart hcounted hlate hlate' ?_ ⟨rfl, finished_events⟩ ⟨rfl, rfl⟩⟩
    have hclaims : t.advance token' t.stack.head .unlinked =
        (s.afterUnlink token' found).advance token ref new := by
      rw [hhead']
      exact List.set_comm _ _ hother.symm
    have hstack : { t.stack with head := after.next } =
        ({ s.stack with head := found.next }.finish node
          (contents.internalCount + delta)).state := by
      rw [hnext, finish_setHead]
      rfl
    exact congrArg₂ (fun stack claims ↦ (⟨stack, s.dropped, claims⟩ : Ledger α)) hstack hclaims
  · have hlate := perform_unlink_stale (s := t) hkept hheld (hhead'.symm ▸ hstale) hnode' hafter
    rw [hhead'] at hlate
    have hlate' := perform_of_ending hending hclaim hnode hget
    exact ⟨_, _, .of_apart hcounted hlate hlate' rfl ⟨rfl, rfl⟩ ⟨rfl, rfl⟩⟩

/-- Two claims are finished. -/
theorem interchange_ending (hs : s.Balanced) {ref' : Ref} {token' : Nat} {step' : Step α}
    {old' new' : Stage} {delta' : Int64} {answer' : α → Bool → Answer α} {node' : NodeId}
    {contents' : Node α} (hending' : Ending ref' token' step' old' new' delta' answer')
    (hclaim' : s.claims[token']? = some ⟨ref', old'⟩) (hnode' : ref'.node = some node')
    (hget' : s.stack.heap.get? node' = some contents') (hother : token ≠ token') :
    ∃ late late', Interchange s step step'
      (s.finished token ⟨ref, new⟩ node (contents.internalCount + delta) (answer contents.value))
      (s.finished token' ⟨ref', new'⟩ node' (contents'.internalCount + delta')
        (answer' contents'.value)) late late' := by
  let t : Ledger α := s.afterFinish token ⟨ref, new⟩ node (contents.internalCount + delta)
  let t' : Ledger α := s.afterFinish token' ⟨ref', new'⟩ node' (contents'.internalCount + delta')
  have ht : t.Balanced := hs.finish hending.finish hclaim hnode hget
  have ht' : t'.Balanced := hs.finish hending'.finish hclaim' hnode' hget'
  have hopen : t'.claims[token]? = some ⟨ref, old⟩ := by
    change (s.claims.set token' _)[token]? = _
    rwa [List.getElem?_set_ne hother.symm]
  have hopen' : t.claims[token']? = some ⟨ref', old'⟩ := by
    change (s.claims.set token _)[token']? = _
    rwa [List.getElem?_set_ne hother]
  -- Each claim is still open after the other is finished, so its node is still live.
  obtain ⟨found, after, hfound, hafter⟩ := ht'.exists_get?_of_open hopen hending.isOpen
  obtain ⟨found', after', hfound', hafter'⟩ := ht.exists_get?_of_open hopen' hending'.isOpen
  obtain rfl : found = node := Option.some.inj (hfound.symm.trans hnode)
  obtain rfl : found' = node' := Option.some.inj (hfound'.symm.trans hnode')
  obtain ⟨hstack, hvalue, hvalue', -, hapart, hshared⟩ :=
    finish_interchange hget hget' hafter hafter'
  have hlate := perform_of_ending (s := t) hending' hopen' hnode' hafter'
  have hlate' := perform_of_ending (s := t') hending hopen hnode hafter
  refine ⟨_, _, .of_counts (hending.counted?_eq hclaim hnode) (hending'.counted?_eq hclaim' hnode')
    hlate hlate' ?state ?answers (finish_events s.stack _ _) (finish_events s.stack _ _)
    (finish_events t.stack _ _) (finish_events t'.stack _ _) ?apart hshared⟩
  case state =>
    exact congrArg₂ (fun stack claims ↦ (⟨stack, s.dropped, claims⟩ : Ledger α)) hstack
      (List.set_comm _ _ hother)
  case answers =>
    rw [hvalue, hvalue']
    exact ⟨congrArg Except.ok (hending.unmarked_answer _ _ _),
      congrArg Except.ok (hending'.unmarked_answer _ _ _)⟩
  case apart =>
    intro hne
    obtain ⟨rfl, rfl⟩ := hapart hne
    exact ⟨rfl, rfl, rfl, rfl⟩

theorem interchange_pop (hs : s.Balanced) (hkept : s.dropped = false)
    (hperform : s.perform .pop = some reply) (hcalm : ¬ Overflows reply.result) :
    ∃ late late', Interchange s step .pop
      (s.finished token ⟨ref, new⟩ node (contents.internalCount + delta) (answer contents.value))
      reply late late' := by
  let t : Ledger α := s.afterFinish token ⟨ref, new⟩ node (contents.internalCount + delta)
  have ht : t.Balanced := hs.finish hending.finish hclaim hnode hget
  have hhead' : t.stack.head = s.stack.head := finish_head s.stack node _
  have hlt := (List.getElem?_eq_some_iff.mp hclaim).1
  cases hhead : s.stack.head.node with
  | none =>
    have hpop {u : Ledger α} (hkept : u.dropped = false) (hhead : u.stack.head.node = none) :
        u.perform .pop = some ⟨u, [], .ok (.popped none)⟩ := by
      rw [perform_of_kept hkept, carryOut, pop_of_null hhead, afterPops_self]
      rfl
    obtain rfl := Option.some.inj (hperform.symm.trans (hpop hkept hhead))
    have hlate := hpop (u := t) hkept (hhead'.symm ▸ hhead)
    have hlate' := perform_of_ending hending hclaim hnode hget
    refine ⟨_, _, .of_apart ?_ hlate hlate' rfl ⟨rfl, rfl⟩ ⟨rfl, rfl⟩⟩
    rw [hending.counted?_eq hclaim hnode, counted?, hhead]
    exact Option.some_ne_none node
  | some top =>
    obtain ⟨found, hfound, -, -⟩ := hs.linked.chain_eq_cons hhead
    obtain ⟨hroom, hsettles⟩ := room_of_pop hkept hhead hfound hperform hcalm
    have hpop := perform_pop_top hs hkept hhead hfound hroom hsettles
    obtain rfl := Option.some.inj (hperform.symm.trans hpop)
    let delta' : Int64 := (s.stack.head.count + 1).toInt64 - 2
    let t' : Ledger α := (s.popped top found delta').state
    have ht' : t'.Balanced := balanced_of_perform hs hperform hcalm
    have hopen : t'.claims[token]? = some ⟨ref, old⟩ := by
      change (s.claims ++ _)[token]? = _
      rwa [List.getElem?_append_left hlt]
    -- The claim is still open after the pop, and the top node still linked after the claim is
    -- finished, so neither step frees the node of the other.
    obtain ⟨node', after, hnode', hafter⟩ := ht'.exists_get?_of_open hopen hending.isOpen
    obtain rfl : node' = node := Option.some.inj (hnode'.symm.trans hnode)
    obtain ⟨after', hafter', -, -⟩ := ht.linked.chain_eq_cons (hhead'.symm ▸ hhead)
    have hbelow : ({ s.stack with head := found.next }.finish node'
        (contents.internalCount + delta)).state.heap.get? top = some after' := by
      rw [finish_setHead]
      exact hafter'
    obtain ⟨hstack, hvalue, hvalue', hnext, hapart, hshared⟩ :=
      finish_interchange (s := { s.stack with head := found.next }) hget hfound hafter hbelow
    have hlate := perform_pop_top (s := t) ht hkept (hhead'.symm ▸ hhead) hafter'
      (hhead'.symm ▸ hroom) (hhead'.symm ▸ hsettles)
    rw [hhead'] at hlate
    have hlate' := perform_of_ending (s := t') hending hopen hnode hafter
    refine ⟨_, _, .of_counts (hending.counted?_eq hclaim hnode) hhead hlate hlate' ?state ?answers
      (finish_events s.stack _ _) (finish_events { s.stack with head := found.next } _ _)
      (finish_events { t.stack with head := after'.next } _ _) (finish_events t'.stack _ _) ?apart
      hshared⟩
    case state =>
      have hclaims : t.claims ++ [⟨⟨some top, t.stack.head.count + 1⟩, .settled⟩] =
          t'.advance token ref new := by
        rw [hhead']
        exact (List.set_append_left _ _ hlt).symm
      have hmoved : { t.stack with head := found.next } =
          ({ s.stack with head := found.next }.finish node'
            (contents.internalCount + delta)).state := (finish_setHead s.stack _ node' _).symm
      have hstack' : ({ t.stack with head := after'.next }.finish top
          (after'.internalCount + delta')).state =
            (t'.stack.finish node' (after.internalCount + delta)).state := by
        rw [hnext, hmoved]
        exact hstack
      exact congrArg₂ (fun stack claims ↦ (⟨stack, s.dropped, claims⟩ : Ledger α)) hstack' hclaims
    case answers =>
      refine ⟨?_, congrArg (fun value ↦ Except.ok (Answer.popped (some value))) hvalue'⟩
      rw [hvalue]
      exact congrArg Except.ok (hending.unmarked_answer _ _ _)
    case apart =>
      intro hne
      obtain ⟨rfl, rfl⟩ := hapart hne
      exact ⟨rfl, rfl, rfl, rfl⟩

end

/-- Finishing a claim commutes with every step of another participant. In every ledger that a run
without faults of arithmetic reaches, take a settlement or a release and any other step than a drop
that is not on the same claim. After either of the two the other can still be carried out, and both
orders end in the same ledger and with the same answers. Only which of the two frees a node that
they share may differ: it is the second or neither. -/
theorem finishing_commutes {moves : List (Move α)} (hrun : Run {} moves s)
    (hcalm : ∀ move ∈ moves, ¬ Overflows move.reply.result) {other : Step α} {reply' : Reply α}
    (hstep : step = .settle token ∨ step = .release token) (hdrop : other ≠ .drop)
    (hother : other.token? ≠ some token) (hperform : s.perform step = some reply)
    (hperform' : s.perform other = some reply') (hfine : ¬ Overflows reply.result)
    (hfine' : ¬ Overflows reply'.result) :
    ∃ late late', Interchange s step other reply reply' late late' := by
  have hs : s.Balanced := hrun.balanced (calm_of_not_overflows hcalm)
  obtain ⟨ref, old, new, delta, node, contents, answer, hending, hclaim, hnode, hget, hreply⟩ :=
    exists_ending hs hstep hperform hfine
  have hkept (hneeds : other.needsStack = true) : s.dropped = false := by
    rw [← Bool.not_eq_true]
    intro hdropped
    rw [(perform_eq_some_iff.mp hperform').1 hdropped] at hneeds
    cases hneeds
  have hending' {token' : Nat} (hstep' : other = .settle token' ∨ other = .release token')
      (hne : token ≠ token') : ∃ late late', Interchange s step other reply reply' late late' := by
    obtain ⟨ref', old', new', delta', node', contents', answer', hending', hclaim', hnode', hget',
      hreply'⟩ := exists_ending hs hstep' hperform' hfine'
    rw [hreply, hreply']
    exact interchange_ending hending hclaim hnode hget hs hending' hclaim' hnode' hget' hne
  subst hreply
  cases other with
  | push value =>
    obtain rfl := Option.some.inj (hperform'.symm.trans (perform_of_kept (hkept rfl) (.push value)))
    exact interchange_push hending hclaim hnode hget (hkept rfl) value
  | pop => exact interchange_pop hending hclaim hnode hget hs (hkept rfl) hperform' hfine'
  | claim hint => exact interchange_claim hending hclaim hnode hget (hkept rfl) hint hperform'
  | unlink token' =>
    exact interchange_unlink hending hclaim hnode hget hs (fun h ↦ hother (congrArg some h))
      hperform'
  | settle token' => exact hending' (Or.inl rfl) fun h ↦ hother (congrArg some h.symm)
  | release token' => exact hending' (Or.inr rfl) fun h ↦ hother (congrArg some h.symm)
  | drop => exact absurd rfl hdrop

/-- Two readers finish with a contended node. Whoever is second frees it. -/
theorem finishing_commutes_contention : ∃ early early' late late',
    unlinking.reply.state.perform (.settle 1) = some early ∧
    unlinking.reply.state.perform (.release 0) = some early' ∧
    Interchange unlinking.reply.state (.settle 1) (.release 0) early early' late late' ∧
    early.events = [] ∧ late.events = [.freed 0] ∧ early'.events = [] ∧
      late'.events = [.freed 0] := by
  let claims (stage stage' : Stage) : List Claim := [⟨⟨some 0, 2⟩, stage⟩, ⟨⟨some 0, 3⟩, stage'⟩]
  have hsettle : unlinking.reply.state.perform (.settle 1) =
      some ⟨contended (some 1) CountedRef.null (claims .held .settled), [],
        .ok (.settled (some 5) false)⟩ := rfl
  have hrelease : unlinking.reply.state.perform (.release 0) =
      some ⟨contended (some (-1)) CountedRef.null (claims .released .unlinked), [],
        .ok (.released false)⟩ := rfl
  obtain ⟨late, late', hboth⟩ := finishing_commutes run_unlinking (by
    intro move hmem
    simp only [contention, unlinking, List.cons_append, List.nil_append, List.mem_cons,
      List.not_mem_nil, or_false] at hmem
    rcases hmem with rfl | rfl | rfl | rfl <;> exact not_overflows_ok _)
    (Or.inl rfl) (by intro h; cases h) (by decide) hsettle hrelease (not_overflows_ok _)
    (not_overflows_ok _)
  refine ⟨_, _, late, late', hsettle, hrelease, hboth, rfl, ?_, rfl, ?_⟩
  · exact congrArg Outcome.events (Option.some.inj hboth.enabled).symm
  · exact congrArg Outcome.events (Option.some.inj hboth.enabled').symm

end Ledger

end Reclaim.CountedStack
