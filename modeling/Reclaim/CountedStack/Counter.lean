import Reclaim.Checked

/-!
# The internal count of a node

A node's internal count balances what readers of the node did against what the head word counted.
Every reader that gives up its claim subtracts one.  Whoever unlinks the node adds the count it saw
in the head word, less two: one for the reference that the head held, one for its own claim.  The
node goes when the count reaches zero, whoever brings it there.
-/

namespace Reclaim.Counter

/-- Adds the external count of an unlinked node to its internal count.  Answers the new count and
whether the node goes with it.  The external count is read as a signed word, so taking two away can
overflow, which leaves the internal count alone.  What was added is then negated, to be compared
with the internal count before; that can overflow, too, when the internal count has already
changed. -/
def settle (internal : Int64) (external : UInt64) : Int64 × Except Fault Bool :=
  match Checked.subSigned external.toInt64 2 with
  | .error fault => (internal, .error fault)
  | .ok delta =>
    (internal + delta, (Checked.negSigned delta).map fun opposite ↦ decide (internal = opposite))

/-- Gives up one claim.  Answers the new count and whether the node goes with it. -/
def release (internal : Int64) : Int64 × Bool := (internal - 1, decide (internal = 1))

/-- A step on a node: settle it with an external count, or release a claim on it. -/
inductive Request where
  | settle (external : UInt64)
  | release

/-- Carries out one step on a node's count, which is absent once the node is freed.  Answers
whether this step freed the node. -/
def perform (internal : Option Int64) (request : Request) : Option Int64 × Ending Bool :=
  match internal with
  | none => (none, .refused)
  | some count =>
    let (count, result) : Int64 × Except Fault Bool :=
      match request with
      | .settle external => settle count external
      | .release => ((release count).1, .ok (release count).2)
    match result with
    | .ok true => (none, .answered true)
    | .ok false => (some count, .answered false)
    | .error fault => (some count, .faulted fault)

end Reclaim.Counter
