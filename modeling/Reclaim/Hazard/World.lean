import Reclaim.Fault
import Reclaim.Hazard.Registry

/-!
# The world of hazard pointer stacks

The world holds everything that operations can see: registries and stacks over them, the heap of the
stacks' nodes, other objects that can be retired, threads, and the slots claimed explicitly.  Every
deleter is a program of commands on this same world, so freeing an object may retire others, pop
stacks, reclaim registries or end in a fault.
-/

namespace Reclaim.Hazard

/-- The name of a registry, in the order the registries were made. -/
abbrev RegistryId := Nat

/-- The process-wide registry is made before all others. -/
def processWide : RegistryId := 0

/-- The name of a stack, in the order the stacks were made. -/
abbrev StackId := Nat

/-- The name of an explicitly claimed slot, in the order of the claims. -/
abbrev HandleId := Nat

/-- The two cells in which a thread keeps a slot between its pops: one for the process-wide
registry, one for all others. -/
inductive CellKey where
  | processWide
  | ordinary
deriving DecidableEq

/-- The commands that a thread gives, at top level or from within a deleter. -/
inductive Command (α : Type) where
  /-- Claims a slot, or answers that there is none. -/
  | tryClaim (registry : RegistryId)
  /-- Claims a slot; faults if there is none. -/
  | claim (registry : RegistryId)
  | release (handle : HandleId)
  | publish (handle : HandleId) (address : Option Address)
  | push (stack : StackId) (value : α)
  /-- Pops with an explicitly claimed slot. -/
  | popUsing (stack : StackId) (handle : HandleId)
  /-- Pops with the slot that the thread keeps in a cell. -/
  | pop (cell : CellKey) (stack : StackId)
  /-- Gives up the slot that the thread keeps in a cell. -/
  | unregister (cell : CellKey)
  /-- Retires an object, each at most once; null faults. -/
  | retire (registry : RegistryId) (object : Option ObjectId)
  | reclaim (registry : RegistryId)
  /-- Ends in a fault. -/
  | raise (fault : Fault)
deriving DecidableEq

inductive Answer (α : Type) where
  | done
  | claimed (handle : HandleId)
  | exhausted (capacity : Nat)
  | pushed (node : NodeId)
  | popped (value : Option α)
  | reclaimed (freed : Nat)
  | refused

/-- What the world logs: a node was freed, the deleter of an object was started, a command of a
deleter was answered, a value was destroyed. -/
inductive Event (α : Type) where
  | freed (node : NodeId)
  | started (object : ObjectId)
  | answered (answer : Answer α)
  | dropped (value : α)

/-- An entry of a limbo list: the address and the program of its deleter.  The deleter of a node
frees the node and has no program. -/
structure Entry (α : Type) where
  address : Address
  program : List (Command α)
deriving DecidableEq

def Entry.ofNode {α : Type} (node : NodeId) : Entry α := ⟨.node node, []⟩

/-- An object that can be retired: the program of its deleter, and whether it was retired. -/
structure Object (α : Type) where
  program : List (Command α)
  retired : Bool := false

structure Node (α : Type) where
  value : α
  next : Option NodeId
deriving DecidableEq

/-- A stack: its registry and its top node. -/
structure Stack where
  registry : RegistryId
  head : Option NodeId := none
deriving DecidableEq

/-- The registry in which a pop of a stack claims a slot for a cell.  It need not be the stack's
own: a slot of the process-wide registry then turns out to be foreign to the stack. -/
def CellKey.registry : CellKey → Stack → RegistryId
  | .processWide, _ => Hazard.processWide
  | .ordinary, stack => stack.registry

/-- A claimed slot: its registry, its index there and the thread that claimed it. -/
structure Handle (n : Nat) where
  registry : RegistryId
  index : Fin n
  thread : ThreadId
deriving DecidableEq

/-- A cell of a thread: not used so far, in use (with the slot it keeps, and whether a pop borrows
it at the moment), or destroyed at the end of the thread. -/
inductive Cell (n : Nat) where
  | unused
  | live (slot : Option (Handle n)) (borrowed : Bool)
  | destroyed
deriving DecidableEq

/-- A thread: its two cells and whether it ended. -/
structure Thread (n : Nat) where
  processWide : Cell n := .unused
  ordinary : Cell n := .unused
  ended : Bool := false

namespace Thread

variable {n : Nat}

def cell (t : Thread n) : CellKey → Cell n
  | .processWide => t.processWide
  | .ordinary => t.ordinary

def setCell (t : Thread n) (key : CellKey) (cell : Cell n) : Thread n :=
  match key with
  | .processWide => { t with processWide := cell }
  | .ordinary => { t with ordinary := cell }

end Thread

/-- A walk over the entries taken out of a registry: the entry whose deleter is running, the entries
still to come, and how many were freed. -/
structure Sweep (α : Type) where
  registry : RegistryId
  current : Option (Entry α) := none
  rest : List (Entry α)
  freed : Nat := 0

/-- The whole world.  All registries have `n` slots.  A dropped stack and a released slot leave
`none` in their place.  `cutShort` holds the sweeps that faults ended, `log` all events so far, the
latest first. -/
structure World (n : Nat) (α : Type) where
  registries : List (Registry n (Entry α)) := []
  «stacks» : List (Option Stack) := []
  heap : Heap (Node α) := {}
  objects : List (Object α) := []
  threads : List (Thread n) := []
  handles : List (Option (Handle n)) := []
  cutShort : List (Sweep α) := []
  log : List (Event α) := []

namespace World

variable {n : Nat} {α : Type}

def registryAt? (w : World n α) (r : RegistryId) : Option (Registry n (Entry α)) := w.registries[r]?

/-- A stack that was not dropped. -/
def stack? (w : World n α) (s : StackId) : Option Stack := w.stacks[s]?.join

/-- A slot that was claimed explicitly and not released. -/
def handle? (w : World n α) (h : HandleId) : Option (Handle n) := w.handles[h]?.join

def cell? (w : World n α) (t : ThreadId) (key : CellKey) : Option (Cell n) :=
  w.threads[t]?.map (·.cell key)

def isProtected (w : World n α) (r : RegistryId) (address : Option Address) : Bool :=
  (w.registryAt? r).any (·.isProtected address)

def chain (w : World n α) (s : Stack) : List (NodeId × Node α) := w.heap.chain (·.next) s.head

def top? (w : World n α) (s : Stack) : Option (NodeId × Node α) :=
  s.head.bind fun node ↦ (w.heap.get? node).map fun contents ↦ (node, contents)

/-! ## Elementary changes -/

def record (w : World n α) (event : Event α) : World n α := { w with log := event :: w.log }

def modifyRegistry (w : World n α) (r : RegistryId)
    (f : Registry n (Entry α) → Registry n (Entry α)) : World n α :=
  { w with registries := w.registries.modify r f }

def modifyLimbo (w : World n α) (r : RegistryId)
    (f : LimboList (Entry α) → LimboList (Entry α)) : World n α :=
  w.modifyRegistry r fun registry ↦ { registry with limbo := f registry.limbo }

def modifyThread (w : World n α) (t : ThreadId) (f : Thread n → Thread n) : World n α :=
  { w with threads := w.threads.modify t f }

def setCell (w : World n α) (t : ThreadId) (key : CellKey) (cell : Cell n) : World n α :=
  w.modifyThread t (·.setCell key cell)

def setHead (w : World n α) (s : StackId) (head : Option NodeId) : World n α :=
  { w with «stacks» := w.stacks.modify s (Option.map ({ · with head })) }

def publish (w : World n α) (h : Handle n) (address : Option Address) : World n α :=
  w.modifyRegistry h.registry (·.publish h.index address)

def releaseSlot (w : World n α) (h : Handle n) : World n α :=
  w.modifyRegistry h.registry (·.release h.index)

/-- Claims the lowest free slot of a registry for a thread. -/
def claimSlot (w : World n α) (r : RegistryId) (t : ThreadId) : Option (Handle n × World n α) := do
  let registry ← w.registryAt? r
  let (index, registry) ← registry.claim t
  return (⟨r, index, t⟩, w.modifyRegistry r fun _ ↦ registry)

def addHandle (w : World n α) (h : Handle n) : HandleId × World n α :=
  (w.handles.length, { w with handles := w.handles ++ [some h] })

def removeHandle (w : World n α) (h : HandleId) : World n α :=
  { w with handles := w.handles.set h none }

def push (w : World n α) (s : StackId) (stack : Stack) (value : α) : NodeId × World n α :=
  let (node, heap) := w.heap.alloc ⟨value, stack.head⟩
  (node, { w with heap }.setHead s (some node))

def markRetired (w : World n α) (o : ObjectId) : World n α :=
  { w with objects := w.objects.modify o ({ · with retired := true }) }

def detachLimbo (w : World n α) (r : RegistryId) : List (Entry α) × World n α :=
  match w.registryAt? r with
  | none => ([], w)
  | some registry => (registry.limbo.detach.1, w.modifyLimbo r fun list ↦ list.detach.2)

/-- Starts the deleter of an entry: a node is freed, an object is logged. -/
def start (w : World n α) (entry : Entry α) : World n α :=
  match entry.address with
  | .node node => { w with heap := w.heap.free node }.record (.freed node)
  | .object object => w.record (.started object)

end World

end Reclaim.Hazard
