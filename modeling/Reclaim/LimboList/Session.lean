import Reclaim.LimboList.Linked

/-!
# Sessions on one limbo list

A session drives one limbo list together with entries and drains that were taken out of it and are
kept under names.  The objects behind the entries are names, too; freeing an entry logs its object.
-/

namespace Reclaim.LimboList

/-- An entry: its object (`none` is the null address) and whether the object's deleter faults.  The
null address stands for no object, so its deleter never faults. -/
structure Entry where
  object : Option String
  bomb : Bool

instance : Destructor Entry where
  fault? entry := if entry.bomb then entry.object.map .deleterBomb else none

/-- The list and its cells, whether the list was dropped, the object names used so far, the cells of
kept entries, and the drains, each with the first cell that it has still to hand out. -/
structure Session where
  limbo : LinkedLimbo Entry := {}
  dropped : Bool := false
  objects : List String := []
  entries : List (String × NodeId) := []
  drains : List (String × Option NodeId) := []

inductive Request where
  | park (entry : Entry)
  | new (entry : Entry) (name : String)
  | parkKept (name : String)
  | putBack (name : String)
  | address (name : String)
  | free (name : String)
  | forget (name : String)
  | detach (drain : String)
  | next (drain name : String)
  | sweep (drain : String) (keep : List (Option String))
  | dropDrain (drain : String)
  | countFreed
  | pending
  | addresses
  | drop

inductive Answer where
  | done
  | address (object : Option String)
  | next (object : Option (Option String))
  | freed (count : Nat)
  | pending (count : UInt64)
  | addresses (objects : List (Option String))

/-- A session after a step, the objects whose deleters ran, and how the step ended. -/
structure Reply where
  session : Session
  ran : List (Option String) := []
  ending : Ending Answer

namespace Session

def refuse (s : Session) : Reply := { session := s, ending := .refused }

def answer (s : Session) (a : Answer) : Reply := { session := s, ending := .answered a }

def list (s : Session) : Option (LimboList Entry) :=
  if s.dropped then none else some s.limbo.toLimboList

def withLimbo (s : Session) (limbo : LinkedLimbo Entry) : Session := { s with limbo }

def removeEntry (s : Session) (name : String) : Session :=
  { s with entries := s.entries.filter (·.1 != name) }

/-- Gives up the entry kept under a name, if there is one. -/
def forget (s : Session) (name : String) : Session :=
  match s.entries.lookup name with
  | none => s
  | some cell => (s.withLimbo (s.limbo.discard cell)).removeEntry name

/-- Keeps the entry of a cell under a name, in place of one kept there before. -/
def keepEntry (s : Session) (name : String) (cell : NodeId) : Session :=
  let s := s.forget name
  { s with entries := (name, cell) :: s.entries }

def removeDrain (s : Session) (name : String) : Session :=
  { s with drains := s.drains.filter (·.1 != name) }

/-- Keeps a drain under a name, in place of one kept there before. -/
def keepDrain (s : Session) (name : String) (drain : Option NodeId) : Session :=
  let s := s.removeDrain name
  { s with drains := (name, drain) :: s.drains }

/-- Takes note of the object of a new entry, and puts the entry into a cell; an object has at most
one entry. -/
def introduce (s : Session) (entry : Entry) : Option (NodeId × Session) :=
  let (cell, limbo) := s.limbo.box entry
  match entry.object with
  | none => some (cell, s.withLimbo limbo)
  | some object =>
    if s.objects.contains object then none
    else some (cell, { s with limbo, objects := object :: s.objects })

/-- What a step on the cells leaves: their entries' objects are what ran. -/
def conclude {ρ : Type} (s : Session) (o : Outcome (LinkedLimbo Entry) (NodeId × Entry) ρ)
    (answer : ρ → Answer) : Reply where
  session := s.withLimbo o.state
  ran := o.events.map (·.2.object)
  ending := .ofExcept (o.result.map answer)

def performOn (s : Session) : Request → Reply
  | .park entry =>
    match s.introduce entry with
    | none => s.refuse
    | some (cell, s) => (s.withLimbo (s.limbo.park cell)).answer .done
  | .parkKept name =>
    match s.entries.lookup name with
    | none => s.refuse
    | some cell => ((s.removeEntry name).withLimbo (s.limbo.park cell)).answer .done
  | .putBack name =>
    match s.entries.lookup name with
    | none => s.refuse
    | some cell => ((s.removeEntry name).withLimbo (s.limbo.putBack cell)).answer .done
  | .detach name =>
    let (drain, limbo) := s.limbo.detach
    ((s.withLimbo limbo).keepDrain name drain).answer .done
  | .sweep name keep =>
    match s.drains.lookup name with
    | none => s.refuse
    | some drain =>
      let swept := s.limbo.sweep (fun entry ↦ keep.contains entry.object)
        (LimboCell.chain s.limbo.cells drain).length drain
      (s.removeDrain name).conclude swept .freed
  | .countFreed => (s.withLimbo s.limbo.countFreed).answer .done
  | .pending => s.answer (.pending s.limbo.pending)
  | .addresses => s.answer (.addresses (s.limbo.toLimboList.entries.map (·.object)))
  | .drop => { s with dropped := true }.conclude s.limbo.drop fun _ ↦ .done
  | _ => s.refuse

/-- Carries out one step.  Kept entries and drains can be used also after the list was dropped. -/
def perform (s : Session) (request : Request) : Reply :=
  match request with
  | .new entry name =>
    match s.introduce entry with
    | none => s.refuse
    | some (cell, s) => (s.keepEntry name cell).answer .done
  | .address name =>
    match (s.entries.lookup name).bind s.limbo.entryOf? with
    | none => s.refuse
    | some entry => s.answer (.address entry.object)
  | .free name =>
    match s.entries.lookup name with
    | none => s.refuse
    | some cell => (s.removeEntry name).conclude (s.limbo.free cell) fun _ ↦ .done
  | .forget name =>
    match s.entries.lookup name with
    | none => s.refuse
    | some _ => (s.forget name).answer .done
  | .next name kept =>
    match s.drains.lookup name with
    | none => s.refuse
    | some drain =>
      match s.limbo.next drain with
      | none => s.answer (.next none)
      | some (cell, rest, limbo) =>
        let object := (limbo.entryOf? cell).bind (·.object)
        (((s.withLimbo limbo).keepDrain name rest).keepEntry kept cell).answer (.next (some object))
  | .dropDrain name =>
    match s.drains.lookup name with
    | none => s.refuse
    | some _ => (s.removeDrain name).answer .done
  | request => if s.dropped then s.refuse else s.performOn request

def finish (s : Session) : Reply :=
  if s.dropped then s.answer .done else s.perform .drop

end Session

end Reclaim.LimboList
