import Reclaim.Proofs.CountedStack.Steps

/-!
# Ledgers

A ledger is a stack together with every claim that was ever made on it, in the order of making. The
place of a claim in the ledger is the token under which its holder goes on: the holder may try to
unlink the claimed node as long as that fails, and ends the claim either by settling the node that
it unlinked or by releasing the claim. `perform` carries out one step if the token is entitled to
it and if the stack that the step needs was not dropped. Steps of different tokens, pushes and whole
pops may follow each other in any order.

A whole pop claims, unlinks and settles in one step, so the claims that it made are entered as
settled ones.
-/

namespace Reclaim.CountedStack

inductive Stage where
  | held
  | unlinked
  | settled
  | released
deriving DecidableEq

/-- A claim: the head word that it was answered with, and how far it has come. -/
structure Claim where
  ref : Ref
  stage : Stage
deriving DecidableEq

namespace Claim

def IsOn (claim : Claim) (node : NodeId) : Prop := claim.ref.node = some node

/-- The claim still keeps its node from being freed. -/
def IsOpen (claim : Claim) : Prop := claim.stage = .held ∨ claim.stage = .unlinked

instance (claim : Claim) (node : NodeId) : Decidable (claim.IsOn node) :=
  inferInstanceAs (Decidable (claim.ref.node = some node))

instance (claim : Claim) : Decidable claim.IsOpen :=
  inferInstanceAs (Decidable (claim.stage = .held ∨ claim.stage = .unlinked))

theorem isOn_mk (ref : Ref) (stage : Stage) (node : NodeId) :
    IsOn ⟨ref, stage⟩ node ↔ ref.node = some node := Iff.rfl

end Claim

/-- The claims that whole pops make on the way from `s` to `t`: one on each node that is no longer
linked. -/
def claimsOfPops {α : Type} (s t : CountedStack α) : List Claim :=
  (s.levels.take (s.levels.length - t.levels.length)).map
    fun level ↦ ⟨⟨some level.2.1, level.1 + 1⟩, .settled⟩

/-- A stack, whether it was dropped, and the claims made on it so far. -/
structure Ledger (α : Type) where
  stack : CountedStack α := {}
  dropped : Bool := false
  claims : List Claim := []

namespace Ledger

variable {α : Type}

def claimsOn (s : Ledger α) (node : NodeId) : Nat :=
  s.claims.countP fun claim ↦ claim.IsOn node

def tally (s : Ledger α) (node : NodeId) (stage : Stage) : Nat :=
  s.claims.countP fun claim ↦ claim.IsOn node ∧ claim.stage = stage

def openOn (s : Ledger α) (node : NodeId) : Nat :=
  s.claims.countP fun claim ↦ claim.IsOn node ∧ claim.IsOpen

/-- No node was claimed so often that its count could leave the signed words. -/
def Bounded (s : Ledger α) : Prop := ∀ node, s.claimsOn node ≤ 2 ^ 63 - 2

/-- A step; a token is the place of its claim. -/
inductive Step (α : Type) where
  | push (value : α)
  | pop
  | claim (hint : Ref)
  | unlink (token : Nat)
  | settle (token : Nat)
  | release (token : Nat)
  | drop

/-- What a step answers. Settling hands out the value found in the node and whether the node was
freed. -/
inductive Answer (α : Type) where
  | pushed (node : NodeId)
  | popped (value : Option α)
  | claimed (ref : Option Ref)
  | unlinked
  | notUnlinked (current : Ref)
  | settled (value : Option α) (freed : Bool)
  | released (freed : Bool)
  | dropped

abbrev Reply (α : Type) := Outcome (Ledger α) (Event α) (Answer α)

/-- Whether a step needs the stack itself. A claim can be ended also when the stack is gone. -/
def Step.needsStack : Step α → Bool
  | .settle _ | .release _ => false
  | _ => true

/-- Enters what a step did to the stack, with the claims as they are after it. -/
def conclude {ρ : Type} (s : Ledger α) (claims : List Claim) (answer : ρ → Answer α)
    (o : Outcome (CountedStack α) (Event α) ρ) : Reply α :=
  ⟨{ s with stack := o.state, claims }, o.events, o.result.map answer⟩

def afterPops (s : Ledger α) (stack : CountedStack α) : Ledger α :=
  { s with stack, claims := s.claims ++ s.stack.claimsOfPops stack }

def advance (s : Ledger α) (token : Nat) (ref : Ref) (stage : Stage) : List Claim :=
  s.claims.set token ⟨ref, stage⟩

section

variable [Destructor α]

/-- What a step does on a stack that was not dropped, if its token is entitled to it. -/
def carryOut (s : Ledger α) : Step α → Option (Reply α)
  | .push value => some ⟨{ s with stack := (s.stack.push value).2 }, [],
      .ok (.pushed (s.stack.push value).1)⟩
  | .pop => some ⟨s.afterPops s.stack.pop.state, s.stack.pop.events,
      s.stack.pop.result.map .popped⟩
  | .claim hint =>
    match s.stack.claimTop hint with
    | .error fault => some ⟨s, [], .error fault⟩
    | .ok (none, stack) => some ⟨{ s with stack }, [], .ok (.claimed none)⟩
    | .ok (some ref, stack) =>
      some ⟨{ s with stack, claims := s.claims ++ [⟨ref, .held⟩] }, [], .ok (.claimed (some ref))⟩
  | .unlink token =>
    match s.claims[token]? with
    | some ⟨ref, .held⟩ =>
      match s.stack.unlinkTop ref with
      | .ok stack =>
        some ⟨{ s with stack, claims := s.advance token ref .unlinked }, [], .ok .unlinked⟩
      | .error current => some ⟨s, [], .ok (.notUnlinked current)⟩
    | _ => none
  | .settle token =>
    match s.claims[token]? with
    | some ⟨ref, .unlinked⟩ =>
      some (s.conclude (s.advance token ref .settled)
        (.settled ((s.stack.node? ref).map (·.value))) (s.stack.settle ref))
    | _ => none
  | .release token =>
    match s.claims[token]? with
    | some ⟨ref, .held⟩ =>
      some (s.conclude (s.advance token ref .released) .released (s.stack.release ref))
    | _ => none
  | .drop => some ⟨{ s.afterPops s.stack.drop.state with dropped := true }, s.stack.drop.events,
      s.stack.drop.result.map fun _ ↦ .dropped⟩

/-- Carries out a step; `none` if its caller is not entitled to it. -/
def perform (s : Ledger α) (step : Step α) : Option (Reply α) :=
  if s.dropped && step.needsStack then none else s.carryOut step

end

structure Move (α : Type) where
  step : Step α
  reply : Reply α

def freedNodes (events : List (Event α)) : List NodeId :=
  events.filterMap fun event ↦
    match event with
    | .freed node => some node
    | .dropped _ => none

def freedIn (moves : List (Move α)) : List NodeId :=
  moves.flatMap fun move ↦ freedNodes move.reply.events

/-- The moves lead from `s` to the ledger at the end, each entitled where it was made. -/
inductive Run [Destructor α] (s : Ledger α) : List (Move α) → Ledger α → Prop
  | start : Run s [] s
  | step {moves : List (Move α)} {t : Ledger α} {step : Step α} {reply : Reply α}
      (hrun : Run s moves t) (hperform : t.perform step = some reply) :
      Run s (moves ++ [⟨step, reply⟩]) reply.state

end Ledger

end Reclaim.CountedStack
