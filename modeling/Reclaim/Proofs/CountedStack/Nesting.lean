import Reclaim.Proofs.CountedStack.Calls
import Reclaim.CountedStack.Session

/-!
# Nested pushes and pops

The count of the reference to a buried node is kept in the node above, so a push and the pop that
undoes it carry it into the stack and out again. While pushes and pops nest, the stack is the one
they began with and a pile of nodes that nobody claimed on top of it (`Raised`), and a pop takes the
pile's top node and frees it. The lost race is an instance: what it pushes above the claimed node
comes off again, and only the claim and its release are left behind (`Outlasts`).
-/

namespace Reclaim.CountedStack

open SharedStack (Call)

variable {α : Type} {s t u : CountedStack α}

/-- How high above the start calls end that begin at a height; `none` if one of them pops below the
start. -/
def heightAfter : Nat → List (Call α) → Option Nat
  | height, [] => some height
  | height, .push _ :: calls => heightAfter (height + 1) calls
  | 0, .pop :: _ => none
  | height + 1, .pop :: calls => heightAfter height calls
  | height, .isEmpty :: calls => heightAfter height calls

/-- Every push is undone by a later pop, and nothing else is popped. -/
def Nested (calls : List (Call α)) : Prop := heightAfter 0 calls = some 0

instance (calls : List (Call α)) : Decidable (Nested calls) :=
  inferInstanceAs (Decidable (heightAfter 0 calls = some 0))

def pushes : List (Call α) → Nat
  | [] => 0
  | .push _ :: calls => pushes calls + 1
  | .pop :: calls | .isEmpty :: calls => pushes calls

/-- The head word is the same in `t`, and so are all nodes of `s`; all others are gone. -/
structure Restored (s t : CountedStack α) : Prop where
  head : t.head = s.head
  size_le : s.heap.size ≤ t.heap.size
  kept : ∀ node < s.heap.size, t.heap.get? node = s.heap.get? node
  gone : ∀ node, s.heap.size ≤ node → t.heap.get? node = none

/-- `t` is `s` with a pile of nodes on top that were pushed and not claimed since. -/
def Raised (s : CountedStack α) : List NodeId → CountedStack α → Prop
  | [], t => s.Restored t
  | node :: pile, t => ∃ value next, t.head = ⟨some node, 1⟩ ∧
      t.heap.get? node = some ⟨value, 0, next⟩ ∧ s.Raised pile ⟨next, t.heap.free node⟩

/-- A pop frees the top node if all other claims on it were released. -/
theorem pop_of_released {top : NodeId} {contents : Node α} (hhead : s.head.node = some top)
    (hget : s.heap.get? top = some contents) (hsmall : s.head.count.toNat + 1 < 2 ^ 63)
    (hreleased : contents.internalCount.toInt = 1 - s.head.count.toNat) :
    s.pop = ⟨⟨contents.next, s.heap.free top⟩, [.freed top], .ok (some contents.value)⟩ := by
  have hroom : s.head.count.toNat ≠ 2 ^ 64 - 1 := by omega
  have hcount : (s.head.count + 1).toNat = s.head.count.toNat + 1 := toNat_add_one_of_ne hroom
  have hsettles : Settles (s.head.count + 1) := by
    refine ⟨?_, ?_, ?_⟩ <;> omega
  have hzero : contents.internalCount + ((s.head.count + 1).toInt64 - 2) = 0 := by
    rw [Counter.add_toInt64_sub_two, Counter.ofInt_eq_zero_iff] <;> omega
  rw [pop_of_settles hhead hget hroom hsettles, hzero]
  rfl

/-- A node that was not claimed since it was pushed is freed by the pop that takes it. -/
theorem pop_of_fresh {node : NodeId} {value : α} {next : Ref} (hhead : s.head = ⟨some node, 1⟩)
    (hget : s.heap.get? node = some ⟨value, 0, next⟩) :
    s.pop = ⟨⟨next, s.heap.free node⟩, [.freed node], .ok (some value)⟩ := by
  have hcount : s.head.count.toNat = 1 := by
    rw [hhead]
    rfl
  apply pop_of_released (by rw [hhead]) hget
  · omega
  · rw [hcount]
    rfl

namespace Raised

variable {pile : List NodeId} {node : NodeId}

theorem congr (ht : s.Raised pile t) (hhead : u.head = t.head)
    (hsize : t.heap.size ≤ u.heap.size) (hget : ∀ node, u.heap.get? node = t.heap.get? node) :
    s.Raised pile u := by
  induction pile generalizing t u with
  | nil =>
    refine ⟨hhead.trans ht.head, Nat.le_trans ht.size_le hsize, ?_, ?_⟩
    · intro node hlt
      rw [hget, ht.kept node hlt]
    · intro node hle
      rw [hget, ht.gone node hle]
  | cons node pile ih =>
    obtain ⟨value, next, hhead', hget', hrest⟩ := ht
    refine ⟨value, next, hhead.trans hhead', (hget node).trans hget', ih hrest rfl ?_ ?_⟩
    · rwa [Heap.size_free, Heap.size_free]
    · intro other
      rw [Heap.get?_free, Heap.get?_free, hget]

theorem push (ht : s.Raised pile t) (value : α) :
    s.Raised (t.heap.size :: pile) (t.push value).2 := by
  refine ⟨value, t.head, rfl, (get?_push t value _).trans (if_pos rfl), ht.congr rfl ?_ ?_⟩
  · rw [Heap.size_free, size_push]
    exact Nat.le_succ _
  · intro node
    rw [Heap.get?_free, get?_push]
    by_cases hnew : node = t.heap.size
    · rw [if_pos hnew.symm, hnew, Heap.get?_of_size_le (Nat.le_refl _)]
    · rw [if_neg (Ne.symm hnew), if_neg hnew]

theorem pop (ht : s.Raised (node :: pile) t) :
    s.Raised pile t.pop.state ∧ t.pop.state.heap.size = t.heap.size ∧
      t.pop.events = [.freed node] ∧ ∃ value, t.pop.result = .ok (some value) := by
  obtain ⟨value, next, hhead, hget, hrest⟩ := ht
  rw [pop_of_fresh hhead hget]
  exact ⟨hrest, Heap.size_free _ _, rfl, value, rfl⟩

/-- Calls that come down again free the pile and all nodes that they push. -/
theorem calls (ht : s.Raised pile t) {calls : List (Call α)}
    (hheight : heightAfter pile.length calls = some 0) :
    (∀ reply ∈ t.replies calls, ∃ answer, reply.2 = .ok answer) ∧
      s.Restored (t.afterCalls calls) ∧
      (t.afterCalls calls).heap.size = t.heap.size + pushes calls ∧
      (t.freedByCalls calls).Perm (pile ++ List.range' t.heap.size (pushes calls)) := by
  -- A push adds a node to the pile and a pop takes one off, so the pile varies.
  induction calls generalizing pile t with
  | nil =>
    obtain rfl := List.eq_nil_of_length_eq_zero (Option.some.inj hheight)
    exact ⟨List.forall_mem_nil _, ht, rfl, .refl _⟩
  | cons call calls ih =>
    cases call with
    | push value =>
      obtain ⟨hfine, hrestored, hafter, hfreed⟩ := ih (ht.push value) hheight
      refine ⟨List.forall_mem_cons.mpr ⟨⟨_, rfl⟩, hfine⟩, hrestored, ?_, ?_⟩
      · refine hafter.trans ?_
        rw [size_push, pushes]
        omega
      · refine hfreed.trans ?_
        rw [size_push, pushes, List.range'_succ]
        exact List.perm_middle.symm
    | pop =>
      cases pile with
      | nil => cases hheight
      | cons node pile =>
        obtain ⟨hbelow, hsize, hevents, value, hresult⟩ := ht.pop
        obtain ⟨hfine, hrestored, hafter, hfreed⟩ := ih hbelow hheight
        refine ⟨List.forall_mem_cons.mpr ⟨⟨_, congrArg (Except.map _) hresult⟩, hfine⟩,
          hrestored, hafter.trans (by rw [hsize, pushes]), ?_⟩
        have hcons : t.freedByCalls (.pop :: calls) =
            node :: t.pop.state.freedByCalls calls := by
          change Ledger.freedNodes t.pop.events ++ _ = _
          rw [hevents]
          rfl
        rw [hcons, pushes]
        rw [hsize] at hfreed
        exact hfreed.cons node
    | isEmpty =>
      obtain ⟨hfine, hrestored, hafter, hfreed⟩ := ih ht hheight
      exact ⟨List.forall_mem_cons.mpr ⟨⟨_, rfl⟩, hfine⟩, hrestored, hafter, hfreed⟩

end Raised

/-- Loses a race for the top node to each of these values in turn. A fault ends it. -/
def loseEach (s : CountedStack α) : List α → Outcome (CountedStack α) (Event α) Unit
  | [] => ⟨s, [], .ok ()⟩
  | value :: values =>
    match Session.loseRace s value with
    | ⟨t, events, .error fault⟩ => ⟨t, events, .error fault⟩
    | ⟨t, events, .ok ()⟩ => (t.loseEach values).after events

theorem loseEach_cons (value : α) (values : List α) :
    s.loseEach (value :: values) =
      match (Session.loseRace s value).result with
      | .error fault => ⟨(Session.loseRace s value).state, (Session.loseRace s value).events,
          .error fault⟩
      | .ok () => ((Session.loseRace s value).state.loseEach values).after
          (Session.loseRace s value).events := by
  rw [loseEach]
  cases Session.loseRace s value with
  | mk t events result => cases result <;> rfl

/-- The races that a session loses are lost to the numbers of the rounds. -/
theorem loseRaces_eq [IntCast α] (times round : Nat) (s : CountedStack α) :
    (Session.loseRaces times round s).state =
        (s.loseEach ((List.range' round times).map fun (i : Nat) ↦ ((i : Int) : α))).state ∧
      (Session.loseRaces times round s).result =
        (s.loseEach ((List.range' round times).map fun (i : Nat) ↦ ((i : Int) : α))).result := by
  induction times generalizing round s with
  | zero => exact ⟨rfl, rfl⟩
  | succ times ih =>
    rw [List.range'_succ, List.map_cons, Session.loseRaces, loseEach]
    cases Session.loseRace s ((round : Int) : α) with
    | mk t events result =>
      cases result with
      | error fault => exact ⟨rfl, rfl⟩
      | ok _ => exact ih (round + 1) t

/-- `t` is `s` after races for its top node were lost: the reference to the node counts one more
claim for each of them and the node one more release, and no other node is there that was not there
before. -/
structure Outlasts (s t : CountedStack α) (top : NodeId) (contents : Node α) (races : Nat) :
    Prop where
  node : t.head.node = some top
  count : t.head.count.toNat = s.head.count.toNat + races
  at_top : ∃ internal : Int64, internal.toInt = contents.internalCount.toInt - races ∧
    t.heap.get? top = some { contents with internalCount := internal }
  others : ∀ node, node ≠ top → t.heap.get? node = s.heap.get? node
  size : t.heap.size = s.heap.size + races

section

variable {top : NodeId} {contents : Node α}

theorem loseRace_of_lost {value : α} {claimed current : Ref} {below : CountedStack α}
    (hclaim : s.claimTop s.head = .ok (some claimed, below))
    (hunlink : (below.push value).2.unlinkTop claimed = .error current) :
    Session.loseRace s value =
      ⟨((below.push value).2.release claimed).state.pop.state,
        ((below.push value).2.release claimed).events ++
          ((below.push value).2.release claimed).state.pop.events,
        ((below.push value).2.release claimed).state.pop.result.map fun _ ↦ ()⟩ := by
  simp only [Session.loseRace, hclaim, hunlink]

/-- One lost race raises the count of the reference to the top node and lowers its internal count.
The node that was pushed is the only one freed. -/
theorem loseRace_eq (hhead : s.head.node = some top) (hget : s.heap.get? top = some contents)
    (hroom : s.head.count.toNat ≠ 2 ^ 64 - 1) (hupper : contents.internalCount.toInt ≤ 0)
    (hlower : -2 ^ 63 < contents.internalCount.toInt) (value : α) :
    ∃ t, Session.loseRace s value = ⟨t, [.freed s.heap.size], .ok ()⟩ ∧
      s.Outlasts t top contents 1 := by
  let claimed : Ref := ⟨some top, s.head.count + 1⟩
  let below : CountedStack α := { s with head := claimed }
  let above := (below.push value).2
  let released := (above.finish top (contents.internalCount - 1)).state
  have hlt : top < s.heap.size := Heap.lt_size_of_get? hget
  have habove (node : NodeId) : above.heap.get? node =
      if node = s.heap.size then some ⟨value, 0, claimed⟩ else s.heap.get? node :=
    get?_push below value node
  have htop : above.heap.get? top = some contents := by
    rw [habove, if_neg (Nat.ne_of_lt hlt), hget]
  have hclaim : s.claimTop s.head = .ok (some claimed, below) := by
    rw [claimTop_head, if_neg (by rw [hhead]; exact Option.some_ne_none top), if_neg hroom, hhead]
  -- The pushed node hides the claimed one, so that the unlinking fails.
  have hstale : above.head ≠ claimed := by
    intro hsame
    have hnode : some s.heap.size = some top := congrArg CountedRef.node hsame
    exact absurd (Option.some.inj hnode) (Nat.ne_of_gt hlt)
  have hunlink : above.unlinkTop claimed = .error above.head := by
    rw [unlinkTop_eq rfl htop, if_neg hstale]
  have hrelease : above.release claimed = above.finish top (contents.internalCount - 1) :=
    release_eq rfl htop
  have hinternal : (contents.internalCount - 1).toInt = contents.internalCount.toInt - 1 := by
    rw [Counter.sub_one_eq_ofInt, Int64.toInt_ofInt_of_le (by omega) (by omega)]
  have hkept : contents.internalCount - 1 ≠ 0 := by
    intro hzero
    rw [hzero, Int64.toInt_zero] at hinternal
    omega
  have hfresh : released.heap.get? s.heap.size = some ⟨value, 0, claimed⟩ := by
    rw [get?_finish, if_neg (Nat.ne_of_lt hlt), habove, if_pos rfl]
  have hpop : released.pop = ⟨⟨claimed, released.heap.free s.heap.size⟩, [.freed s.heap.size],
      .ok (some value)⟩ := pop_of_fresh (finish_head above top _) hfresh
  refine ⟨⟨claimed, released.heap.free s.heap.size⟩, ?_, rfl, ?_, ⟨_, hinternal, ?_⟩, ?_, ?_⟩
  · rw [loseRace_of_lost hclaim hunlink, hrelease, hpop, finish_events, if_neg hkept]
    rfl
  · exact toNat_add_one_of_ne hroom
  · rw [Heap.get?_free, if_neg (Nat.ne_of_gt hlt), get?_finish, if_pos rfl, if_neg hkept, htop]
    rfl
  · intro node hne
    rw [Heap.get?_free, get?_finish, if_neg hne.symm, habove]
    by_cases hnew : node = s.heap.size
    · rw [if_pos hnew.symm, hnew, Heap.get?_of_size_le (Nat.le_refl _)]
    · rw [if_neg (Ne.symm hnew), if_neg hnew]
  · rw [Heap.size_free, finish_size]
    exact size_push below value

/-- Lost races add up as long as neither count leaves its word. -/
theorem loseEach_eq (hhead : s.head.node = some top) (hget : s.heap.get? top = some contents)
    (values : List α) (hroom : s.head.count.toNat + values.length < 2 ^ 64)
    (hupper : contents.internalCount.toInt ≤ 0)
    (hlower : -2 ^ 63 ≤ contents.internalCount.toInt - values.length) :
    ∃ t, s.loseEach values =
        ⟨t, (List.range' s.heap.size values.length).map .freed, .ok ()⟩ ∧
      s.Outlasts t top contents values.length := by
  induction values generalizing s contents with
  | nil => exact ⟨s, rfl, hhead, rfl, ⟨_, (Int.sub_zero _).symm, hget⟩, fun _ _ ↦ rfl, rfl⟩
  | cons value values ih =>
    rw [List.length_cons] at hroom hlower ⊢
    obtain ⟨t, hrace, ht⟩ := loseRace_eq hhead hget (by omega) hupper (by omega) value
    obtain ⟨internal, hinternal, htop⟩ := ht.at_top
    have hcount := ht.count
    obtain ⟨u, hraces, hu⟩ := ih ht.node htop (by omega) (by dsimp only; omega)
      (by dsimp only; omega)
    obtain ⟨internal', hinternal', htop'⟩ := hu.at_top
    dsimp only at hinternal'
    refine ⟨u, ?_, hu.node, ?_, ⟨internal', by omega, htop'⟩, ?_, ?_⟩
    · rw [loseEach_cons, hrace]
      dsimp only
      rw [hraces, ht.size, List.range'_succ]
      rfl
    · have hcount' := hu.count
      omega
    · intro node hne
      exact (hu.others node hne).trans (ht.others node hne)
    · have hsize := ht.size
      have hsize' := hu.size
      omega

end

/-- Pushes and pops that nest leave the head word and every earlier node exactly as they were,
whatever the counts, and free all that was pushed in between. So the only trace of a lost race is
that the count of the reference to the top node is higher by one and its internal count lower by
one: after any number of them the node is still there, and if it was claimed by nobody else a pop
takes its value and frees it. -/
theorem nesting_restores_and_races_add_up (s : CountedStack α) :
    (∀ calls, Nested calls →
      (∀ reply ∈ s.replies calls, ∃ answer, reply.2 = .ok answer) ∧
        s.Restored (s.afterCalls calls) ∧
        (s.afterCalls calls).heap.size = s.heap.size + pushes calls ∧
        (s.freedByCalls calls).Perm (List.range' s.heap.size (pushes calls))) ∧
      ∀ (top : NodeId) (contents : Node α) (values : List α), s.head.node = some top →
        s.heap.get? top = some contents →
        1 - (s.head.count.toNat : Int) ≤ contents.internalCount.toInt →
        contents.internalCount.toInt ≤ 0 → s.head.count.toNat + values.length + 1 < 2 ^ 63 →
        ∃ t, s.loseEach values =
            ⟨t, (List.range' s.heap.size values.length).map .freed, .ok ()⟩ ∧
          s.Outlasts t top contents values.length ∧
          (contents.internalCount.toInt = 1 - s.head.count.toNat →
            t.pop.result = .ok (some contents.value) ∧ t.pop.events = [.freed top]) := by
  refine ⟨?_, ?_⟩
  · intro calls hnested
    have hstart : s.Raised [] s := ⟨rfl, Nat.le_refl _, fun _ _ ↦ rfl,
      fun _ hle ↦ Heap.get?_of_size_le hle⟩
    exact hstart.calls hnested
  · intro top contents values hhead hget hlower hupper hroom
    obtain ⟨t, hraces, ht⟩ :=
      loseEach_eq hhead hget values (by omega) hupper (by omega)
    refine ⟨t, hraces, ht, ?_⟩
    intro hreleased
    obtain ⟨internal, hinternal, htop⟩ := ht.at_top
    have hcount := ht.count
    have hpop := pop_of_released ht.node htop (by omega) (by dsimp only; omega)
    rw [hpop]
    exact ⟨rfl, rfl⟩

/-- A stack of one node that was claimed four times and released as often, above a null reference
with an odd count. -/
def fourReleased : CountedStack Nat := ⟨⟨some 0, 5⟩, ⟨#[some ⟨6, -4, ⟨none, 7⟩⟩]⟩⟩

/-- Two pushes are undone. Then three more races for the node are lost before a pop frees it. -/
theorem nesting_restores_and_races_add_up_released :
    fourReleased.Restored (fourReleased.afterCalls [.push 1, .push 2, .pop, .pop]) ∧
      (fourReleased.freedByCalls [.push 1, .push 2, .pop, .pop]).Perm [1, 2] ∧
      ∃ t, fourReleased.loseEach [7, 8, 9] = ⟨t, [.freed 1, .freed 2, .freed 3], .ok ()⟩ ∧
        t.head.count.toNat = 8 ∧ t.pop.result = .ok (some 6) ∧ t.pop.events = [.freed 0] := by
  obtain ⟨hnesting, hraces⟩ := nesting_restores_and_races_add_up fourReleased
  obtain ⟨-, hrestored, -, hfreed⟩ := hnesting [.push 1, .push 2, .pop, .pop] rfl
  obtain ⟨t, hlost, ht, hpop⟩ := hraces 0 ⟨6, -4, ⟨none, 7⟩⟩ [7, 8, 9] rfl rfl (by decide)
    (by decide) (by decide)
  obtain ⟨hresult, hevents⟩ := hpop (by decide)
  exact ⟨hrestored, hfreed, t, hlost, ht.count, hresult, hevents⟩

end Reclaim.CountedStack
