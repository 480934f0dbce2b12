import Reclaim.Hazard.Lifecycle

/-!
# Sessions with hazard pointers

A session drives a world of registries, stacks, objects, slots and threads, all under names.
Threads come into being when they are first named.  A request that names something unknown, or that
is not allowed at the moment, is refused and changes nothing, not even the set of threads.
-/

namespace Reclaim.Hazard

variable {n : Nat} {α : Type}

def processWideName : String := "global"

/-- What the deleter of an object does after logging the object. -/
inductive Action where
  | raise
  | pop (stack : String)
  | reclaim (registry : String)
  | retire (registry object : String)

/-- A step of a session.  A target is the name of an object or the label of a node, or `none` for
null. -/
inductive Request (α : Type) where
  | registry (name : String)
  | stack (name registry : String)
  | claim (slot registry thread : String)
  | tryClaim (slot registry thread : String)
  | release (slot : String)
  | clear (slot : String)
  | protect (slot : String) (target : Option String)
  | protectTop (slot stack : String)
  | slotInfo (slot : String)
  | isProtected (registry : String) (target : Option String)
  | claimed (registry : String)
  | pending (registry : String)
  | capacity (registry : String)
  | inspect (registry : String)
  | object (name : String) (action : Option Action)
  | retire (registry : String) (target : Option String) (thread : String)
  | reclaim (registry thread : String)
  | push (stack : String) (value : α) (thread : String)
  | pushRange (stack : String) (lower upper : Int)
  | isEmpty (stack : String)
  | chain (stack : String)
  | popUsing (stack slot : String)
  | popTimes (stack slot : String) (times : Nat)
  | pop (stack thread : String)
  | unregister (thread : String)
  | exit (thread : String) (pops : List String)
  | dropStack (stack thread : String)

/-- A registry as a step shows it: its slots that have an owner or hold an address, and the parked
entries, head first. -/
structure RegistryView where
  claimed : Nat
  pending : UInt64
  slots : List (Nat × Option String × Option String)
  retired : List String

inductive Reading (α : Type) where
  | done
  | slot (index : Nat) (owner : String)
  | exhausted (capacity : Nat)
  | flag (value : Bool)
  | count (value : Nat)
  | pending (value : UInt64)
  | registry (view : RegistryView)
  | node (node : Option NodeId)
  | popped (value : Option α)
  | poppedAll (values : List (Option α))
  | chain (nodes : List (NodeId × α))
  | exited (pops : List (Except Fault (Option α)))

/-- The world with the names given to its parts.  The process-wide registry is there from the start
and may be named at any time.  Registries, stacks and objects are listed in the order they were
named; `threadNames` lists the names of all threads ever started, `threads` and `slots` say which
thread or slot a name stands for now. -/
structure Session (n : Nat) (α : Type) where
  world : World n α := ({} : World n α).addRegistry
  registries : List (String × RegistryId) := []
  «stacks» : List String := []
  objects : List String := []
  slots : List (String × HandleId) := []
  threads : List (String × ThreadId) := []
  threadNames : List String := []

/-- A session after a step, what the step logged, and how it ended. -/
structure Reply (n : Nat) (α β : Type) where
  session : Session n α
  events : List (Event α) := []
  ending : Ending β

namespace Session

def registryAt? (s : Session n α) (name : String) : Option RegistryId := s.registries.lookup name

def stack? (s : Session n α) (name : String) : Option (StackId × Stack) := do
  let id ← s.stacks.idxOf? name
  let stack ← s.world.stack? id
  return (id, stack)

def slot? (s : Session n α) (name : String) : Option (HandleId × Handle n) := do
  let id ← s.slots.lookup name
  let slot ← s.world.handle? id
  return (id, slot)

def node? (s : Session n α) (label : String) : Option NodeId :=
  (NodeId.ofLabel? label).filter (· < s.world.heap.size)

def address? (s : Session n α) (name : String) : Option Address :=
  (s.objects.idxOf? name).map .object <|> (s.node? name).map .node

def target? (s : Session n α) : Option String → Option (Option Address)
  | none => some none
  | some name => (s.address? name).map some

/-- The thread of a name, started now if it was not running. -/
def thread (s : Session n α) (name : String) : ThreadId × Session n α :=
  match s.threads.lookup name with
  | some id => (id, s)
  | none =>
    let id := s.world.threads.length
    (id, { s with
      world := s.world.spawn
      threads := (name, id) :: s.threads
      threadNames := s.threadNames ++ [name] })

def threadName (s : Session n α) (t : ThreadId) : String := s.threadNames.getD t ""

def addressName (s : Session n α) : Address → String
  | .node node => NodeId.label node
  | .object object => s.objects.getD object ""

/-- The cell through which a thread pops a stack. -/
def cellOf (stack : Stack) : CellKey :=
  if stack.registry = processWide then .processWide else .ordinary

/-- A registry with the names of its owners and addresses. -/
def view (s : Session n α) (registry : Registry n (Entry α)) : RegistryView where
  claimed := registry.claimed
  pending := registry.limbo.pending
  slots := (registry.slots.toList.zipIdx.filter fun entry ↦
      entry.1.owner.isSome || entry.1.published.isSome).map fun entry ↦
    (entry.2, entry.1.owner.map s.threadName, entry.1.published.map s.addressName)
  retired := registry.limbo.entries.map fun entry ↦ s.addressName entry.address

def views (s : Session n α) : List (String × RegistryView) :=
  s.registries.filterMap fun (name, r) ↦
    (s.world.registryAt? r).map fun registry ↦ (name, s.view registry)

/-- A claimed slot as a step shows it: its index, and the owner that the registry records. -/
def showSlot (s : Session n α) (slot : Handle n) : Reading α :=
  let owner := (s.world.registryAt? slot.registry).bind (·.slots[slot.index].owner)
  .slot slot.index (owner.elim "" s.threadName)

def eventsSince (s : Session n α) (earlier : World n α) : List (Event α) :=
  (s.world.log.take (s.world.log.length - earlier.log.length)).reverse

def refuse {β : Type} (s : Session n α) : Reply n α β := { session := s, ending := .refused }

def answer {β : Type} (s : Session n α) (b : β) : Reply n α β :=
  { session := s, ending := .answered b }

def conclude {β : Type} (s : Session n α) (world : World n α) (ending : Ending β) : Reply n α β :=
  let after := { s with world }
  ⟨after, after.eventsSince s.world, ending⟩

/-- A command's answer as a step shows it. -/
def reading (s : Session n α) : Answer α → Ending (Reading α)
  | .done => .answered .done
  | .claimed handle =>
    match s.world.handle? handle with
    | some slot => .answered (s.showSlot slot)
    | none => .refused
  | .exhausted capacity => .answered (.exhausted capacity)
  | .pushed node => .answered (.node (some node))
  | .popped value => .answered (.popped value)
  | .reclaimed freed => .answered (.count freed)
  | .refused => .refused

def command (s : Session n α) (t : ThreadId) (command : Command α) : Reply n α (Reading α) :=
  let (world, result) := s.world.run t command
  match result with
  | .error fault => s.conclude world (.faulted fault)
  | .ok answer => s.conclude world ({ s with world }.reading answer)

/-- The same reply, unless the step was refused: then the session is as before. -/
def orRefuse {β : Type} (s : Session n α) (reply : Reply n α β) : Reply n α β :=
  match reply.ending with
  | .refused => s.refuse
  | _ => reply

def commandOn (s : Session n α) (thread : String) (command : Command α) : Reply n α (Reading α) :=
  let (t, started) := s.thread thread
  s.orRefuse (started.command t command)

end Session

end Reclaim.Hazard
