import Reclaim.CountedStack.Basic
import Reclaim.Hazard.Lifecycle

/-!
# Stacks behind one interface

A concurrent stack is anything that threads can push to and pop from.  Three stacks are put behind
this interface: the stack with split reference counts, the stack over a hazard pointer registry, and
a plain list behind a lock, which the other two are measured against.
-/

namespace Reclaim

/-- The operations of a stack of `α`.  A pop that faults may destroy a value, which it logs.
Dropping answers the values destroyed in order and the first fault of a destructor.  `size` is how
many values the stack holds, and `finish` ends a thread's use of the stack. -/
class SharedStack (σ : Type) (α : outParam Type) where
  push : σ → Hazard.ThreadId → α → σ × Except Fault Unit
  pop : σ → Hazard.ThreadId → Outcome σ α (Option α)
  isEmpty : σ → Bool
  size : σ → Nat
  finish : σ → Hazard.ThreadId → σ
  drop [Destructor α] : σ → List α × Option Fault

variable {α : Type}

/-! ## Split reference counts -/

def CountedStack.droppedValues (events : List (CountedStack.Event α)) : List α :=
  events.filterMap fun
    | .dropped value => some value
    | .freed _ => none

instance : SharedStack (CountedStack α) α where
  push s _ value := ((s.push value).2, .ok ())
  pop s _ :=
    let popped := s.pop
    ⟨popped.state, CountedStack.droppedValues popped.events, popped.result⟩
  isEmpty s := s.isEmpty
  size s := s.chain.length
  finish s _ := s
  drop s :=
    let dropped := s.drop
    (CountedStack.droppedValues dropped.events, match dropped.result with
      | .ok _ => none
      | .error fault => some fault)

/-! ## Hazard pointers -/

namespace Hazard

variable {n : Nat}

/-- Where a thread that pops finds its slot: in its cell, or under a name of its own. -/
inductive SlotUse where
  | implicit
  | explicit

/-- A world with one stack.  Made by `empty`, it has one registry of `n` slots, the process-wide
one, and the stack is over that. -/
structure SoleStack (n : Nat) (α : Type) where
  world : World n α
  use : SlotUse
  handles : List (ThreadId × HandleId) := []

namespace SoleStack

def empty (use : SlotUse) : SoleStack n α where
  world := (({} : World n α).addRegistry).addStack processWide
  use

def stack (s : SoleStack n α) : Stack := (s.world.stack? 0).getD { registry := processWide }

/-- The same world with all threads up to this one started. -/
def withThread (w : World n α) (t : ThreadId) : World n α :=
  { w with threads := w.threads ++ List.replicate (t + 1 - w.threads.length) {} }

def droppedSince (earlier w : World n α) : List α :=
  ((w.log.take (w.log.length - earlier.log.length)).reverse).filterMap fun
    | .dropped value => some value
    | _ => none

/-- The values that a command which ended in a fault destroyed. -/
def droppedBy (earlier : List (Event α)) (w : World n α) : Except Fault (Answer α) → List α
  | .ok _ => []
  | .error _ => droppedSince { w with log := earlier } w

def poppedValue : Answer α → Option α
  | .popped value => value
  | _ => none

/-- Pops with the slot that the thread keeps, claiming one first if it keeps none. -/
def pop (s : SoleStack n α) (t : ThreadId) : Outcome (SoleStack n α) α (Option α) :=
  match s with
  | ⟨world, .implicit, handles⟩ =>
    let log := world.log
    let (world, result) := (withThread world t).run t (.pop .processWide 0)
    ⟨⟨world, .implicit, handles⟩, droppedBy log world result, result.map poppedValue⟩
  | ⟨world, .explicit, handles⟩ =>
    let log := world.log
    match handles.lookup t with
    | some handle =>
      let (world, result) := world.run t (.popUsing 0 handle)
      ⟨⟨world, .explicit, handles⟩, droppedBy log world result, result.map poppedValue⟩
    | none =>
      match world.run t (.claim processWide) with
      | (world, .ok (.claimed handle)) =>
        let (world, result) := world.run t (.popUsing 0 handle)
        ⟨⟨world, .explicit, (t, handle) :: handles⟩, droppedBy log world result,
          result.map poppedValue⟩
      | (world, result) => ⟨⟨world, .explicit, handles⟩, [], result.map poppedValue⟩

def finish (s : SoleStack n α) (t : ThreadId) : SoleStack n α :=
  match s with
  | ⟨world, use, handles⟩ => ⟨(world.exit t []).1, use, handles.filter (·.1 != t)⟩

end SoleStack

instance : SharedStack (SoleStack n α) α where
  push := fun ⟨world, use, handles⟩ t value ↦
    (⟨(world.run t (.push 0 value)).1, use, handles⟩, .ok ())
  pop s t := s.pop t
  isEmpty s := s.stack.head.isNone
  size s := (s.world.chain s.stack).length
  finish s t := s.finish t
  drop s :=
    let (w, result) := s.world.dropStack 0
    (SoleStack.droppedSince s.world w, match result with
      | .ok _ => none
      | .error fault => some fault)

end Hazard

/-! ## A list behind a lock -/

/-- A stack behind a lock: its values from the top. -/
structure LockedStack (α : Type) where
  items : List α := []

namespace LockedStack

/-- The fault that destroying all of these values ends with: a fault does not keep the others from
being destroyed, and only the first one shows. -/
def firstFault [Destructor α] (values : List α) : Option Fault := values.findSome? Destructor.fault?

end LockedStack

instance : SharedStack (LockedStack α) α where
  push s _ value := (⟨value :: s.items⟩, .ok ())
  pop s _ :=
    match s.items with
    | [] => ⟨s, [], .ok none⟩
    | value :: rest => ⟨⟨rest⟩, [], .ok (some value)⟩
  isEmpty s := s.items.isEmpty
  size s := s.items.length
  finish s _ := s
  drop s := (s.items.reverse, LockedStack.firstFault s.items.reverse)

end Reclaim
