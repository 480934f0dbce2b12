import Reclaim.CountedStack.Basic

/-!
# Sessions on one stack

A session drives one stack step by step.  Besides whole pushes and pops it performs the single steps
on behalf of named tokens.  A token stands for a reader of the stack: it claims the head once; it
then may try to unlink the claimed node as often as that fails; and it ends either by settling the
node it unlinked or by releasing its claim.  Steps that a token is not entitled to are refused, and
so are steps that need the stack after it was dropped.
-/

namespace Reclaim.CountedStack

variable {α : Type}

/-- Where a token is in its life; the reference is the head word its claim answered. -/
inductive Token where
  | claimed (ref : Ref)
  | unlinked (ref : Ref)
  | finished

/-- The stack, whether it was dropped, and the tokens made so far by name. -/
structure Session (α : Type) where
  stack : CountedStack α := {}
  dropped : Bool := false
  tokens : List (String × Token) := []

/-- A step of a session.  `claim` takes the caller's belief about the head, or the actual head. -/
inductive Request (α : Type) where
  | push (value : α)
  | pushRange (lower upper : Int)
  | pop
  | popTimes (times : Nat)
  | isEmpty
  | claim (token : String) (hint : Option Ref)
  | unlink (token : String)
  | settle (token : String)
  | release (token : String)
  | inspectToken (token : String)
  | loseRaces (times : Nat)
  | overwrite (external : UInt64) (internal : Option Int64)
  | inspect
  | drop

inductive Answer (α : Type) where
  | done
  | pushed (node : NodeId)
  | popped (value : Option α)
  | poppedAll (values : List (Option α))
  | empty (isEmpty : Bool)
  | claimed (ref : Option Ref)
  | unlinked
  | notUnlinked (current : Ref)
  | settled (value : α) (freed : Bool)
  | released (freed : Bool)
  | token (ref : Ref) (internal : Int64)
  | contents (levels : List (UInt64 × NodeId × Node α)) (nullCount : UInt64)

/-- A session after a step, what the step logged, and how it ended. -/
structure Reply (α : Type) where
  session : Session α
  events : List (Event α) := []
  ending : Ending (Answer α)

namespace Session

def token? (s : Session α) (name : String) : Option Token := s.tokens.lookup name

def setToken (s : Session α) (name : String) (token : Token) : Session α :=
  { s with tokens := (name, token) :: s.tokens.filter (·.1 != name) }

/-- Whether a claim may be made with this belief about the head: it must not name a node that was
never made. -/
def knowsHint (s : Session α) (hint : Option Ref) : Bool :=
  match hint.bind (·.node) with
  | none => true
  | some node => node < s.stack.heap.size

def contents (s : Session α) : Answer α := .contents s.stack.levels s.stack.nullCount

def withStack (s : Session α) (stack : CountedStack α) : Session α := { s with stack }

def refuse (s : Session α) : Reply α := { session := s, ending := .refused }

def conclude {ρ : Type} (s : Session α) (answer : ρ → Answer α)
    (o : Outcome (CountedStack α) (Event α) ρ) : Reply α :=
  ⟨s.withStack o.state, o.events, .ofExcept (o.result.map answer)⟩

def pushRange [IntCast α] (stack : CountedStack α) (lower upper : Int) : CountedStack α :=
  (List.range (upper - lower).toNat).foldl
    (fun s (i : Nat) ↦ (s.push ((lower + i : Int) : α)).2) stack

def popTimes : Nat → CountedStack α → Outcome (CountedStack α) (Event α) (List (Option α))
  | 0, s => ⟨s, [], .ok []⟩
  | times + 1, s =>
    match s.pop with
    | ⟨s, events, .error fault⟩ => ⟨s, events, .error fault⟩
    | ⟨s, events, .ok value⟩ =>
      let rest := popTimes times s
      ⟨rest.state, events ++ rest.events, rest.result.map (value :: ·)⟩

/-- One lost race for the top node: claim it, see `value` pushed above it, fail to unlink it,
release the claim and pop the value again. -/
def loseRace (s : CountedStack α) (value : α) : Outcome (CountedStack α) (Event α) Unit :=
  match s.claimTop s.head with
  | .error fault => ⟨s, [], .error fault⟩
  | .ok (none, s) => ⟨s, [], .ok ()⟩
  | .ok (some claimed, s) =>
    let s := (s.push value).2
    match s.unlinkTop claimed with
    | .ok s => ⟨s, [], .ok ()⟩
    | .error _ =>
      let released := s.release claimed
      let popped := released.state.pop
      ⟨popped.state, released.events ++ popped.events, popped.result.map fun _ ↦ ()⟩

/-- Loses `times` races with the values `round`, `round + 1`, ….  What the rounds free is logged
only for a round that faults. -/
def loseRaces [IntCast α] :
    Nat → (round : Nat) → CountedStack α → Outcome (CountedStack α) (Event α) Unit
  | 0, _, s => ⟨s, [], .ok ()⟩
  | times + 1, round, s =>
    match loseRace s ((round : Int) : α) with
    | ⟨s, events, .error fault⟩ => ⟨s, events, .error fault⟩
    | ⟨s, _, .ok ()⟩ => loseRaces times (round + 1) s

/-- Overwrites the count in the head, and the internal count of the top node if there is one. -/
def overwrite (s : CountedStack α) (external : UInt64) (internal : Option Int64) :
    CountedStack α :=
  let s := { s with head := { s.head with count := external } }
  match s.head.node, internal with
  | some node, some count => s.setInternalCount node count
  | _, _ => s

/-- The steps that need the stack itself. -/
def performLinked [Destructor α] [IntCast α] (s : Session α) : Request α → Reply α
  | .push value =>
    let (node, stack) := s.stack.push value
    { session := s.withStack stack, ending := .answered (.pushed node) }
  | .pushRange lower upper =>
    { session := s.withStack (pushRange s.stack lower upper), ending := .answered .done }
  | .pop => s.conclude .popped s.stack.pop
  | .popTimes times => s.conclude .poppedAll (popTimes times s.stack)
  | .isEmpty => { session := s, ending := .answered (.empty s.stack.isEmpty) }
  | .claim name hint =>
    if (s.token? name).isSome || !s.knowsHint hint then
      s.refuse
    else
      match s.stack.claimTop (hint.getD s.stack.head) with
      | .error fault => { session := s, ending := .faulted fault }
      | .ok (none, stack) =>
        { session := s.withStack stack, ending := .answered (.claimed none) }
      | .ok (some ref, stack) =>
        { session := (s.withStack stack).setToken name (.claimed ref)
          ending := .answered (.claimed (some ref)) }
  | .unlink name =>
    match s.token? name with
    | some (.claimed ref) =>
      match s.stack.unlinkTop ref with
      | .ok stack =>
        { session := (s.withStack stack).setToken name (.unlinked ref)
          ending := .answered .unlinked }
      | .error current => { session := s, ending := .answered (.notUnlinked current) }
    | _ => s.refuse
  | .loseRaces times =>
    if s.stack.isEmpty then s.refuse
    else s.conclude (fun _ ↦ .done) (loseRaces times 0 s.stack)
  | .overwrite external internal =>
    { session := s.withStack (overwrite s.stack external internal), ending := .answered .done }
  | .inspect => { session := s, ending := .answered s.contents }
  | .drop => { s with dropped := true }.conclude (fun _ ↦ .done) s.stack.drop
  | _ => s.refuse

/-- Carries out one step.  A token can settle, release and be inspected also after the stack was
dropped. -/
def perform [Destructor α] [IntCast α] (s : Session α) (request : Request α) : Reply α :=
  match request with
  | .settle name =>
    match s.token? name with
    | some (.unlinked ref) =>
      match s.stack.node? ref with
      | some node =>
        (s.setToken name .finished).conclude (.settled node.value) (s.stack.settle ref)
      | none => s.refuse
    | _ => s.refuse
  | .release name =>
    match s.token? name with
    | some (.claimed ref) =>
      (s.setToken name .finished).conclude .released (s.stack.release ref)
    | _ => s.refuse
  | .inspectToken name =>
    match s.token? name with
    | some (.claimed ref) | some (.unlinked ref) =>
      match s.stack.node? ref with
      | some node => { session := s, ending := .answered (.token ref node.internalCount) }
      | none => s.refuse
    | _ => s.refuse
  | request => if s.dropped then s.refuse else s.performLinked request

def finish [Destructor α] [IntCast α] (s : Session α) : Reply α :=
  if s.dropped then { session := s, ending := .answered .done } else s.perform .drop

end Session

end Reclaim.CountedStack
