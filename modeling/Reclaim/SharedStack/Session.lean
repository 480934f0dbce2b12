import Reclaim.SharedStack.Basic

/-!
# Sessions on a stack behind the interface

A session drives one concurrent stack, of whichever kind, on a single thread.  After the stack is
dropped, every step is refused.
-/

namespace Reclaim.SharedStack.Session

variable {σ α : Type}

inductive Request (α : Type) where
  | push (value : α)
  | pushRange (lower upper : Int)
  | pop
  | popTimes (times : Nat)
  | isEmpty
  | drop

inductive Answer (α : Type) where
  | done
  | popped (value : Option α)
  | poppedAll (values : List (Option α))
  | empty (isEmpty : Bool)

/-- The stack after a step (`none` once it is dropped), the values destroyed, and how it ended. -/
structure Reply (σ α : Type) where
  stack : Option σ
  dropped : List α := []
  ending : Ending (Answer α)

variable [SharedStack σ α]

def pushAll : List α → σ → σ × Except Fault Unit
  | [], s => (s, .ok ())
  | value :: rest, s =>
    match SharedStack.push s 0 value with
    | (s, .error fault) => (s, .error fault)
    | (s, .ok ()) => pushAll rest s

def popTimes : Nat → σ → Outcome σ α (List (Option α))
  | 0, s => ⟨s, [], .ok []⟩
  | times + 1, s =>
    match SharedStack.pop s 0 with
    | ⟨s, dropped, .error fault⟩ => ⟨s, dropped, .error fault⟩
    | ⟨s, dropped, .ok value⟩ =>
      let rest := popTimes times s
      ⟨rest.state, dropped ++ rest.events, rest.result.map (value :: ·)⟩

def conclude {ρ : Type} (answer : ρ → Answer α) (o : Outcome σ α ρ) : Reply σ α :=
  ⟨some o.state, o.events, .ofExcept (o.result.map answer)⟩

def perform [Destructor α] [IntCast α] (stack : Option σ) (request : Request α) : Reply σ α :=
  match stack with
  | none => { stack := none, ending := .refused }
  | some s =>
    match request with
    | .push value =>
      let (s, result) := pushAll [value] s
      { stack := some s, ending := .ofExcept (result.map fun _ ↦ .done) }
    | .pushRange lower upper =>
      let values := (List.range (upper - lower).toNat).map fun (i : Nat) ↦ ((lower + i : Int) : α)
      let (s, result) := pushAll values s
      { stack := some s, ending := .ofExcept (result.map fun _ ↦ .done) }
    | .pop => conclude .popped (SharedStack.pop s 0)
    | .popTimes times => conclude .poppedAll (popTimes times s)
    | .isEmpty => { stack := some s, ending := .answered (.empty (SharedStack.isEmpty s)) }
    | .drop =>
      let (dropped, fault) := SharedStack.drop s
      { stack := none, dropped, ending := fault.elim (.answered .done) .faulted }

def finish [Destructor α] [IntCast α] (stack : Option σ) : Reply σ α :=
  match stack with
  | none => { stack := none, ending := .answered .done }
  | some s => perform (some s) .drop

end Reclaim.SharedStack.Session
