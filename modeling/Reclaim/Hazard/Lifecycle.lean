import Reclaim.Hazard.Run

/-!
# Making and ending registries, stacks, objects and threads

These operations happen between commands.  Dropping a stack frees the nodes still linked, whether
protected or not, and leaves parked nodes to their registry.  A thread that ends gives up the slots
it claimed explicitly, then the slots kept in its cells; code that runs after that finds the cells
destroyed, except those the thread never used.
-/

namespace Reclaim.Hazard

variable {n : Nat} {α : Type}

namespace World

def addRegistry (w : World n α) : World n α := { w with registries := w.registries ++ [{}] }

def addStack (w : World n α) (registry : RegistryId) : World n α :=
  { w with «stacks» := w.stacks ++ [some { registry }] }

def addObject (w : World n α) (program : List (Command α)) : World n α :=
  { w with objects := w.objects ++ [{ program }] }

def spawn (w : World n α) : World n α := { w with threads := w.threads ++ [{}] }

/-- Gives up all explicitly claimed slots that `mine` picks. -/
def releaseHandles (w : World n α) (mine : Handle n → Bool) : World n α :=
  let released := w.handles.filterMap fun handle ↦ handle.filter mine
  { released.foldl releaseSlot w with
    handles := w.handles.map fun handle ↦ handle.filter fun slot ↦ !mine slot }

/-- Destroys a cell if it was used, giving up the slot it keeps. -/
def destroyCell (w : World n α) (t : ThreadId) (key : CellKey) : World n α :=
  match w.cell? t key with
  | some (.live (some slot) _) => (w.releaseSlot slot).setCell t key .destroyed
  | some (.live none _) => w.setCell t key .destroyed
  | _ => w

def destroyCells (w : World n α) (t : ThreadId) : World n α :=
  (w.destroyCell t .processWide).destroyCell t .ordinary

def popEach (w : World n α) (t : ThreadId) :
    List (CellKey × StackId) → World n α × List (Except Fault (Answer α))
  | [] => (w, [])
  | (key, stack) :: rest =>
    let (w, result) := w.run t (.pop key stack)
    let (w, results) := w.popEach t rest
    (w, result :: results)

/-- Ends a thread.  After its slots are given up and its used cells destroyed, `pops` are made by
code that still runs on the thread. -/
def exit (w : World n α) (t : ThreadId) (pops : List (CellKey × StackId)) :
    World n α × List (Except Fault (Answer α)) :=
  let (w, results) := ((w.releaseHandles (·.thread = t)).destroyCells t).popEach t pops
  ((w.destroyCells t).modifyThread t ({ · with ended := true }), results)

/-- Destroys the values of linked nodes and frees the nodes, from the top.  A destructor's fault
ends it after that node is freed. -/
def destroyNodes [Destructor α] :
    List (NodeId × Node α) → World n α → World n α × Except Fault Unit
  | [], w => (w, .ok ())
  | (node, contents) :: rest, w =>
    let w := (w.record (.dropped contents.value)).start (.ofNode node)
    match Destructor.fault? contents.value with
    | some fault => (w, .error fault)
    | none => destroyNodes rest w

def dropStack [Destructor α] (w : World n α) (s : StackId) : World n α × Except Fault Unit :=
  match w.stack? s with
  | none => (w, .ok ())
  | some stack => destroyNodes (w.chain stack) { w with «stacks» := w.stacks.set s none }

/-- Frees detached entries in order, whatever the slots publish: each deleter is started and run to
its end.  A fault ends the walk, and the entries after it are lost. -/
def freeAll (r : RegistryId) (t : ThreadId) :
    List (Entry α) → World n α → World n α × Except Fault Unit
  | [], w => (w, .ok ())
  | entry :: rest, w =>
    match (⟨w.start entry, t, [.deleter entry.program]⟩ : Machine n α).run with
    | (w, .ok _) => freeAll r t rest w
    | (w, .error fault) =>
      ({ w with cutShort := { registry := r, current := some entry, rest } :: w.cutShort },
        .error fault)

/-- Ends a registry: frees what is parked there, head first, when no slots are left that could
protect it. -/
def close (w : World n α) (t : ThreadId) (r : RegistryId) : World n α × Except Fault Unit :=
  let (entries, w) := w.detachLimbo r
  freeAll r t entries w

/-- The objects that faults left unfreed for ever. -/
def lost (w : World n α) : List ObjectId :=
  w.cutShort.flatMap fun sweep ↦ sweep.rest.filterMap fun entry ↦
    match entry.address with
    | .object object => some object
    | .node _ => none

end World

end Reclaim.Hazard
