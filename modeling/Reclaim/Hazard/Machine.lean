import Reclaim.Hazard.World

/-!
# Commands, step by step

A command of a thread may start deleters, whose programs give commands in turn.  The machine carries
this out in small steps, so that every moment in between is a state that can be spoken about.  What
is left to do stands in frames, the innermost first: the rest of a deleter's program, a sweep over
parked entries, or a pop that has unlinked its node.  A fault unwinds all frames at once: sweeps
are cut short and their remaining entries lost, the values of unfinished pops are destroyed, and
the slots that these pops used are given back.
-/

namespace Reclaim.Hazard

/-- How a pop came by its slot, which says what to do when it ends: the caller lent it, it is kept
in a cell of the thread, or it was claimed for this pop alone. -/
inductive Hold (n : Nat) where
  | lent
  | cell (key : CellKey)
  | temporary (handle : Handle n)

/-- How far a pop has come after taking its value: it has to retire the node, to reclaim its
registry, or only to answer. -/
inductive PopStage where
  | retire (node : NodeId)
  | reclaim
  | answer

/-- A pop that has unlinked a node and taken its value. -/
structure Popping (n : Nat) (α : Type) where
  registry : RegistryId
  value : α
  hold : Hold n
  stage : PopStage

/-- Something left to do. -/
inductive Frame (n : Nat) (α : Type) where
  | deleter (rest : List (Command α))
  | sweep (sweep : Sweep α)
  | pop (popping : Popping n α)

/-- A moment of a thread's command: the world and what is left to do. -/
structure Machine (n : Nat) (α : Type) where
  world : World n α
  thread : ThreadId
  frames : List (Frame n α)

/-- What comes of a step: another moment, or the end of the command. -/
inductive Turn (n : Nat) (α : Type) where
  | next (m : Machine n α)
  | done (world : World n α) (result : Except Fault (Answer α))

variable {n : Nat} {α : Type}

namespace World

def setBorrowed (w : World n α) (t : ThreadId) (key : CellKey) (borrowed : Bool) : World n α :=
  w.modifyThread t fun thread ↦
    match thread.cell key with
    | .live slot _ => thread.setCell key (.live slot borrowed)
    | _ => thread

def giveBack (w : World n α) (t : ThreadId) : Hold n → World n α
  | .lent => w
  | .cell key => w.setBorrowed t key false
  | .temporary handle => w.releaseSlot handle

/-- Logs what a command of a deleter answered, if it is the answer of a pop or a reclaim. -/
def note (w : World n α) : Answer α → World n α
  | .popped value => w.record (.answered (.popped value))
  | .reclaimed freed => w.record (.answered (.reclaimed freed))
  | _ => w

/-- Leaves all frames behind at a fault, from the innermost outwards. -/
def unwind (w : World n α) (t : ThreadId) : List (Frame n α) → World n α
  | [] => w
  | .deleter _ :: frames => w.unwind t frames
  | .sweep sweep :: frames => { w with cutShort := sweep :: w.cutShort }.unwind t frames
  | .pop popping :: frames =>
    ((w.record (.dropped popping.value)).giveBack t popping.hold).unwind t frames

end World

namespace Machine

def raise (w : World n α) (t : ThreadId) (frames : List (Frame n α)) (fault : Fault) : Turn n α :=
  .done (w.unwind t frames) (.error fault)

/-- Hands an answer to the innermost frame.  A deleter takes the answer of its command; a sweep that
waits for a deleter notes that its entry is freed; a pop goes on to its next stage. -/
def resume (w : World n α) (t : ThreadId) (answer : Answer α) : List (Frame n α) → Turn n α
  | [] => .done w (.ok answer)
  | .deleter rest :: frames => .next ⟨w.note answer, t, .deleter rest :: frames⟩
  | .sweep sweep :: frames =>
    .next ⟨w.modifyLimbo sweep.registry (·.countFreed), t,
      .sweep { sweep with current := none, freed := sweep.freed + 1 } :: frames⟩
  | .pop popping :: frames => .next ⟨w, t, .pop popping :: frames⟩

/-- Retires an entry: parks it if its address is protected, otherwise starts its deleter at once. -/
def retire (w : World n α) (t : ThreadId) (r : RegistryId) (entry : Entry α)
    (frames : List (Frame n α)) : Turn n α :=
  if w.isProtected r (some entry.address) then
    resume (w.modifyLimbo r (·.park entry)) t .done frames
  else
    .next ⟨w.start entry, t, .deleter entry.program :: frames⟩

/-- Takes all parked entries out of a registry and goes on to sweep them. -/
def reclaim (w : World n α) (t : ThreadId) (r : RegistryId) (frames : List (Frame n α)) :
    Turn n α :=
  let (rest, w) := w.detachLimbo r
  .next ⟨w, t, .sweep { registry := r, rest } :: frames⟩

/-- Pops with a given slot, which must belong to the stack's registry.  The top node's address is
published in the slot while the node is unlinked.  On an empty stack the slot is cleared, and
nothing is reclaimed. -/
def startPop (w : World n α) (t : ThreadId) (s : StackId) (stack : Stack) (slot : Handle n)
    (hold : Hold n) (frames : List (Frame n α)) : Turn n α :=
  if slot.registry ≠ stack.registry then
    raise (w.giveBack t hold) t frames .foreignSlot
  else
    match w.top? stack with
    | none => resume ((w.publish slot none).giveBack t hold) t (.popped none) frames
    | some (node, contents) =>
      let w := ((w.publish slot (some (.node node))).setHead s contents.next).publish slot none
      .next ⟨w, t, .pop ⟨stack.registry, contents.value, hold, .retire node⟩ :: frames⟩

def raiseFull (w : World n α) (t : ThreadId) (frames : List (Frame n α)) : Turn n α :=
  raise w t frames (.noFreeSlot n)

/-- Pops with the slot that the thread keeps in a cell, claiming one of the cell's registry first if
it keeps none.  The cell stays borrowed until the pop ends, so that another pop through it faults.
In a destroyed cell nothing can be kept: the slot is claimed for this pop alone. -/
def popImplicit (w : World n α) (t : ThreadId) (key : CellKey) (s : StackId) (stack : Stack)
    (frames : List (Frame n α)) : Turn n α :=
  match w.cell? t key with
  | none => resume w t .refused frames
  | some .destroyed =>
    match w.claimSlot (key.registry stack) t with
    | none => raiseFull w t frames
    | some (slot, w) => startPop w t s stack slot (.temporary slot) frames
  | some (.live _ true) => raise w t frames .alreadyBorrowed
  | some (.live (some slot) false) =>
    startPop (w.setCell t key (.live (some slot) true)) t s stack slot (.cell key) frames
  | some _ =>
    match w.claimSlot (key.registry stack) t with
    | none => raiseFull (w.setCell t key (.live none false)) t frames
    | some (slot, w) =>
      startPop (w.setCell t key (.live (some slot) true)) t s stack slot (.cell key) frames

/-- Carries out one command.  A command on something that does not exist is refused. -/
def execute (w : World n α) (t : ThreadId) (command : Command α) (frames : List (Frame n α)) :
    Turn n α :=
  match command with
  | .tryClaim r =>
    match w.claimSlot r t with
    | none => resume w t (if (w.registryAt? r).isSome then .exhausted n else .refused) frames
    | some (slot, w) =>
      let (handle, w) := w.addHandle slot
      resume w t (.claimed handle) frames
  | .claim r =>
    match w.claimSlot r t with
    | none => if (w.registryAt? r).isSome then raiseFull w t frames else resume w t .refused frames
    | some (slot, w) =>
      let (handle, w) := w.addHandle slot
      resume w t (.claimed handle) frames
  | .release h =>
    match w.handle? h with
    | none => resume w t .refused frames
    | some slot => resume ((w.releaseSlot slot).removeHandle h) t .done frames
  | .publish h address =>
    match w.handle? h with
    | none => resume w t .refused frames
    | some slot => resume (w.publish slot address) t .done frames
  | .push s value =>
    match w.stack? s with
    | none => resume w t .refused frames
    | some stack =>
      let (node, w) := w.push s stack value
      resume w t (.pushed node) frames
  | .popUsing s h =>
    match w.stack? s, w.handle? h with
    | some stack, some slot => startPop w t s stack slot .lent frames
    | _, _ => resume w t .refused frames
  | .pop key s =>
    match w.stack? s with
    | none => resume w t .refused frames
    | some stack => popImplicit w t key s stack frames
  | .unregister key =>
    match w.cell? t key with
    | none => resume w t .refused frames
    | some (.live _ true) => raise w t frames .alreadyBorrowed
    | some (.live (some slot) false) =>
      resume ((w.releaseSlot slot).setCell t key (.live none false)) t .done frames
    | some .destroyed => resume w t .done frames
    | some _ => resume (w.setCell t key (.live none false)) t .done frames
  | .retire _ none => raise w t frames .nullRetired
  | .retire r (some o) =>
    match w.registryAt? r, w.objects[o]? with
    | some _, some object =>
      if object.retired then
        resume w t .refused frames
      else
        retire (w.markRetired o) t r ⟨.object o, object.program⟩ frames
    | _, _ => resume w t .refused frames
  | .reclaim r =>
    match w.registryAt? r with
    | none => resume w t .refused frames
    | some _ => reclaim w t r frames
  | .raise fault => raise w t frames fault

def step (m : Machine n α) : Turn n α :=
  match m.frames with
  | [] => .done m.world (.ok .done)
  | .deleter [] :: frames => resume m.world m.thread .done frames
  | .deleter (command :: rest) :: frames =>
    execute m.world m.thread command (.deleter rest :: frames)
  | .sweep sweep :: frames =>
    match sweep.rest with
    | [] => resume m.world m.thread (.reclaimed sweep.freed) frames
    | entry :: rest =>
      if m.world.isProtected sweep.registry (some entry.address) then
        .next { m with
          world := m.world.modifyLimbo sweep.registry (·.putBack entry)
          frames := .sweep { sweep with rest } :: frames }
      else
        .next { m with
          world := m.world.start entry
          frames :=
            .deleter entry.program :: .sweep { sweep with current := some entry, rest } :: frames }
  | .pop popping :: frames =>
    match popping.stage with
    | .retire node =>
      retire m.world m.thread popping.registry (.ofNode node)
        (.pop { popping with stage := .reclaim } :: frames)
    | .reclaim =>
      reclaim m.world m.thread popping.registry (.pop { popping with stage := .answer } :: frames)
    | .answer =>
      resume (m.world.giveBack m.thread popping.hold) m.thread (.popped (some popping.value)) frames

end Machine

end Reclaim.Hazard
