import Reclaim.CountedRef.Basic
import Reclaim.CountedStack.Counter
import Reclaim.Heap

/-!
# Stacks with split reference counts

The head of the stack is a counted reference.  A reader first claims the top node, which raises the
count in the head, and only then follows the reference; the claim keeps the node from being freed.
It ends the claim either by unlinking the node, taking its value and settling the node's count
(`Reclaim.Counter.settle`), or by releasing the claim (`Reclaim.Counter.release`).  `push`,
`claimTop`, `unlinkTop`, `settle` and `release` are each one step on shared memory; `pop` is made of
the last four.

The heap belongs to the stack's state and outlives the stack itself: after the stack is dropped,
the claims that remain are still settled or released there.
-/

namespace Reclaim

/-- A counted reference to a node of a stack; its null is `none`. -/
abbrev Ref := CountedRef (Option NodeId)

namespace CountedStack

/-- A node: its value, its internal count and the reference to the node below. -/
structure Node (α : Type) where
  value : α
  internalCount : Int64
  next : Ref

/-- What a step logs: a node that was freed, a value that was destroyed. -/
inductive Event (α : Type) where
  | freed (node : NodeId)
  | dropped (value : α)

end CountedStack

/-- A stack with split reference counts: the head word and the nodes. -/
structure CountedStack (α : Type) where
  head : Ref := CountedRef.null
  heap : Heap (CountedStack.Node α) := {}

namespace CountedStack

variable {α : Type}

/-- The node a reference leads to, if it is neither null nor freed. -/
def node? (s : CountedStack α) (ref : Ref) : Option (Node α) := ref.node.bind s.heap.get?

def chain (s : CountedStack α) : List (NodeId × Node α) :=
  s.heap.chain (fun node ↦ node.next.node) s.head.node

def toList (s : CountedStack α) : List α := s.chain.map fun link ↦ link.2.value

/-- The counts of all references of the chain: in the head, then in each node below it. -/
def counts (s : CountedStack α) : List UInt64 :=
  s.head.count :: s.chain.map fun link ↦ link.2.next.count

/-- The linked nodes from the top, each with the count of the reference that leads to it. -/
def levels (s : CountedStack α) : List (UInt64 × NodeId × Node α) := s.counts.zip s.chain

/-- The count of the null reference at the end of the chain. -/
def nullCount (s : CountedStack α) : UInt64 := s.counts.getLast (List.cons_ne_nil _ _)

def isEmpty (s : CountedStack α) : Bool := s.head.isNull

/-- Replaces the head word if it is `expected`; otherwise answers the word found instead. -/
def compareAndSwap (s : CountedStack α) (expected new : Ref) : Except Ref (CountedStack α) :=
  if s.head = expected then .ok { s with head := new } else .error s.head

/-- A weak compare-and-swap: it may fail although the word is `expected`, and then answers that. -/
def compareAndSwapWeak (s : CountedStack α) (fails : Bool) (expected new : Ref) :
    Except Ref (CountedStack α) :=
  if fails then .error s.head else s.compareAndSwap expected new

/-- Puts a value on top.  The new node is referenced once, by the head. -/
def push (s : CountedStack α) (value : α) : NodeId × CountedStack α :=
  let (node, heap) := s.heap.alloc ⟨value, 0, s.head⟩
  (node, ⟨⟨some node, 1⟩, heap⟩)

/-- Raises the count in the head by one and answers the head with this claim counted, or `none`
on an empty stack.  `hint` is where the caller believes the head to be: a null hint is taken at
its word, any other is replaced by the actual head if it differs.  The count of the hint is raised
before anything is compared, so a full count faults even where the hint is stale.

The step leaves out what a weak compare-and-swap tries in vain on the word it expects;
`claimLogged` has those attempts, and comes to the same. -/
def claimTop (s : CountedStack α) (hint : Ref) : Except Fault (Option Ref × CountedStack α) :=
  if hint.isNull then
    .ok (none, s)
  else
    match hint.claimed with
    | .error fault => .error fault
    | .ok claimed =>
      if _same : s.head = hint then
        .ok (some claimed, { s with head := claimed })
      else
        s.claimTop s.head
termination_by if s.head = hint then 0 else 1
decreasing_by simp [_same]

theorem compareAndSwap_eq_error {s : CountedStack α} {expected new current : Ref}
    (hswap : s.compareAndSwap expected new = .error current) :
    s.head ≠ expected ∧ current = s.head := by
  unfold compareAndSwap at hswap
  split at hswap
  · cases hswap
  · next hstale => exact ⟨hstale, (Except.error.inj hswap).symm⟩

/-- A compare-and-swap of a claim: the word that it expected, the one that it offered, and whether
it failed although the word was the expected one. -/
structure Swap where
  expected : Ref
  offered : Ref
  spurious : Bool

/-- A claim with all its compare-and-swaps, which it logs.  They are weak: `failures` says of each
in turn whether it fails whatever it finds, and none does once the list is at its end. -/
def claimLogged (s : CountedStack α) (failures : List Bool) (hint : Ref) :
    Outcome (CountedStack α) Swap (Option Ref) :=
  if hint.isNull then
    ⟨s, [], .ok none⟩
  else
    match hint.claimed with
    | .error fault => ⟨s, [], .error fault⟩
    | .ok claimed =>
      match _swap : s.compareAndSwapWeak (failures.headD false) hint claimed with
      | .ok t => ⟨t, [⟨hint, claimed, false⟩], .ok (some claimed)⟩
      | .error current =>
        (s.claimLogged failures.tail current).after [⟨hint, claimed, decide (current = hint)⟩]
termination_by (failures.length, if s.head = hint then 0 else 1)
decreasing_by
  cases failures with
  | nil =>
    -- A compare-and-swap that does not fail by itself has found another word.
    obtain ⟨stale, rfl⟩ := compareAndSwap_eq_error _swap
    rw [if_pos rfl, if_neg stale]
    exact Prod.Lex.right _ Nat.zero_lt_one
  | cons fails failures => exact Prod.Lex.left _ _ (Nat.lt_succ_self _)

def setInternalCount (s : CountedStack α) (node : NodeId) (count : Int64) : CountedStack α :=
  { s with heap := s.heap.modify node fun contents ↦ { contents with internalCount := count } }

/-- Takes the top node off the stack if the head is exactly the claimed word, count included;
otherwise answers the actual head. -/
def unlinkTop (s : CountedStack α) (claimed : Ref) : Except Ref (CountedStack α) :=
  match s.node? claimed with
  | none => .error s.head
  | some node => s.compareAndSwap claimed node.next

/-- Moves the external count of an unlinked node, as its unlinker claimed it, into its internal
count, and frees the node if no other claim on it is left.  Answers whether it was freed. -/
def settle (s : CountedStack α) (claimed : Ref) :
    Outcome (CountedStack α) (Event α) Bool :=
  match claimed.node, s.node? claimed with
  | some node, some contents =>
    match Counter.settle contents.internalCount claimed.count with
    | (_, .ok true) => ⟨{ s with heap := s.heap.free node }, [.freed node], .ok true⟩
    | (count, result) => ⟨s.setInternalCount node count, [], result⟩
  | _, _ => ⟨s, [], .ok false⟩

/-- Gives up a claim on a node, and frees the node if that was the last claim on an unlinked node.
Answers whether it was freed. -/
def release (s : CountedStack α) (claimed : Ref) : Outcome (CountedStack α) (Event α) Bool :=
  match claimed.node, s.node? claimed with
  | some node, some contents =>
    match Counter.release contents.internalCount with
    | (_, true) => ⟨{ s with heap := s.heap.free node }, [.freed node], .ok true⟩
    | (count, false) => ⟨s.setInternalCount node count, [], .ok false⟩
  | _, _ => ⟨s, [], .ok false⟩

@[simp]
theorem release_head (s : CountedStack α) (claimed : Ref) :
    (s.release claimed).state.head = s.head := by
  unfold release
  split
  · split <;> rfl
  · rfl

/-! ## Popping -/

/-- A claim raises the count in the head by exactly one. -/
theorem claimTop_count {s t : CountedStack α} {hint claimed : Ref}
    (h : s.claimTop hint = .ok (some claimed, t)) :
    t.head.count.toNat = s.head.count.toNat + 1 := by
  fun_induction claimTop s hint with
  | case1 => cases h
  | case2 => cases h
  | case3 nonnull claimed' sum =>
    cases h
    exact (CountedRef.claimed_eq_ok sum).2
  | case4 hint nonnull claimed' sum differs ih => exact ih h

/-- Takes the value out of a node that the claim has just unlinked, and settles the node.  If the
settlement faults, the value has no owner any more and is destroyed. -/
def takeAndSettle (s : CountedStack α) (claimed : Ref) :
    Outcome (CountedStack α) (Event α) (Option α) :=
  match s.node? claimed with
  | none => ⟨s, [], .ok none⟩
  | some contents =>
    match s.settle claimed with
    | ⟨s, events, .ok _⟩ => ⟨s, events, .ok (some contents.value)⟩
    | ⟨s, events, .error fault⟩ => ⟨s, events ++ [.dropped contents.value], .error fault⟩

/-- Pops, believing the head to be `hint`.  Whoever fails to unlink the claimed node releases it and
tries again with the head found instead.  Each attempt raises the count in the head, so there are
only finitely many. -/
def popFrom (s : CountedStack α) (hint : Ref) : Outcome (CountedStack α) (Event α) (Option α) :=
  match _attempt : s.claimTop hint with
  | .error fault => ⟨s, [], .error fault⟩
  | .ok (none, s) => ⟨s, [], .ok none⟩
  | .ok (some claimed, s) =>
    match s.unlinkTop claimed with
    | .ok s => s.takeAndSettle claimed
    | .error current =>
      ((s.release claimed).state.popFrom current).after (s.release claimed).events
termination_by UInt64.size - s.head.count.toNat
decreasing_by
  have raised := claimTop_count _attempt
  have bound := (s.release claimed).state.head.count.toNat_lt_size
  rw [release_head] at *
  omega

def pop (s : CountedStack α) : Outcome (CountedStack α) (Event α) (Option α) := s.popFrom s.head

/-- Pops and destroys up to `count` values.  A destructor's fault, or a fault of a pop, ends it. -/
def popAndDrop [Destructor α] : Nat → CountedStack α → Outcome (CountedStack α) (Event α) Unit
  | 0, s => ⟨s, [], .ok ()⟩
  | count + 1, s =>
    match s.pop with
    | ⟨s, events, .error fault⟩ => ⟨s, events, .error fault⟩
    | ⟨s, events, .ok none⟩ => ⟨s, events, .ok ()⟩
    | ⟨s, events, .ok (some value)⟩ =>
      let events := events ++ [.dropped value]
      match Destructor.fault? value with
      | some fault => ⟨s, events, .error fault⟩
      | none => (popAndDrop count s).after events

/-- Drops the stack: pops and destroys every value that is left.  The heap stays, for the claims
that are still held. -/
def drop [Destructor α] (s : CountedStack α) : Outcome (CountedStack α) (Event α) Unit :=
  popAndDrop s.chain.length s

end CountedStack

end Reclaim
