/-!
# Faults

A fault ends the operation that meets it.  Whatever the operation changed before stays changed,
and later operations go on from there.  Faults have three sources: checked machine arithmetic,
misuse of a hazard pointer registry, and code of the caller that runs inside an operation (the
deleter of a retired object or the destructor of a value).
-/

namespace Reclaim

/-- The causes that end an operation early. -/
inductive Fault where
  | addOverflow
  | subOverflow
  | negOverflow
  | mulOverflow
  | durationOverflow
  | noFreeSlot (capacity : Nat)
  | foreignSlot
  | nullRetired
  | alreadyBorrowed
  | countMismatch (left right : UInt64)
  | pushRefused (value : UInt64)
  | deleterBomb (object : String)
  | valueBomb (payload : String)
deriving DecidableEq

def Fault.message : Fault → String
  | addOverflow => "attempt to add with overflow"
  | subOverflow => "attempt to subtract with overflow"
  | negOverflow => "attempt to negate with overflow"
  | mulOverflow => "attempt to multiply with overflow"
  | durationOverflow => "overflow in Duration::new"
  | noFreeSlot capacity =>
    "no free hazard pointer slot (registry capacity is " ++ toString capacity ++ ")"
  | foreignSlot => "hazard slot belongs to another registry"
  | nullRetired => "assertion failed: !ptr.is_null()"
  | alreadyBorrowed => "RefCell already borrowed"
  | countMismatch left right =>
    "assertion `left == right` failed\n  left: " ++ toString left.toNat
      ++ "\n right: " ++ toString right.toNat
  | pushRefused value => "push refused " ++ toString value.toNat
  | deleterBomb object => "deleter bomb " ++ object
  | valueBomb payload => "value bomb " ++ payload

/-- How a value takes its own destruction: `fault?` is the fault its destructor ends with. -/
class Destructor (α : Type) where
  fault? : α → Option Fault

/-- What an operation leaves behind: the state, also after a fault, what it logged on the way, and
its answer. -/
structure Outcome (σ ε ρ : Type) where
  state : σ
  events : List ε
  result : Except Fault ρ

namespace Outcome

variable {σ ε ρ : Type}

/-- The same outcome with `earlier` logged before it. -/
def after (earlier : List ε) (o : Outcome σ ε ρ) : Outcome σ ε ρ :=
  { o with events := earlier ++ o.events }

@[simp]
theorem after_state (earlier : List ε) (o : Outcome σ ε ρ) :
    (o.after earlier).state = o.state := rfl

@[simp]
theorem after_events (earlier : List ε) (o : Outcome σ ε ρ) :
    (o.after earlier).events = earlier ++ o.events := rfl

@[simp]
theorem after_result (earlier : List ε) (o : Outcome σ ε ρ) :
    (o.after earlier).result = o.result := rfl

end Outcome

/-- How a request of a script ends: with an answer, with a fault, or refused because it names
something that does not exist or is not in the right state. -/
inductive Ending (β : Type) where
  | answered (answer : β)
  | faulted (fault : Fault)
  | refused

def Ending.ofExcept {β : Type} : Except Fault β → Ending β
  | .ok answer => .answered answer
  | .error fault => .faulted fault

end Reclaim
