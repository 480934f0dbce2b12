import Reclaim.Workload.Basic

/-!
# Workloads on faulty stacks

A trial runs a workload on a stack behind a front that records every call and may misbehave: it
refuses some values, loses others and stores others twice.  What a trial shows does not depend on
how the workers take turns: the calls in order if there is at most one worker, otherwise the set of
values pushed.
-/

namespace Reclaim.Workload

/-- How a front misbehaves.  A modulus of zero means not at all. -/
structure Misconduct where
  loseModulus : UInt64 := 0
  loseRemainder : UInt64 := 0
  doubleModulus : UInt64 := 0
  refused : List UInt64 := []

def Misconduct.loses (m : Misconduct) (value : UInt64) : Bool :=
  m.loseModulus != 0 && value % m.loseModulus == m.loseRemainder

def Misconduct.doubles (m : Misconduct) (value : UInt64) : Bool :=
  m.doubleModulus != 0 && value % m.doubleModulus == 0

/-- A call on a front and, for a pop, what it answered. -/
inductive Call where
  | push (value : UInt64)
  | pop (value : Option UInt64)

/-- A stack behind a front; the calls are recorded with the latest first. -/
structure Front (σ : Type) where
  stack : σ
  misconduct : Misconduct
  calls : List Call := []

variable {σ : Type} [SharedStack σ UInt64]

def Front.push (front : Front σ) (t : Hazard.ThreadId) (value : UInt64) :
    Front σ × Except Fault Unit :=
  match front with
  | ⟨stack, misconduct, calls⟩ =>
    if misconduct.refused.contains value then
      (⟨stack, misconduct, calls⟩, .error (.pushRefused value))
    else
      let calls := .push value :: calls
      if misconduct.loses value then
        (⟨stack, misconduct, calls⟩, .ok ())
      else
        match SharedStack.push stack t value with
        | (stack, .error fault) => (⟨stack, misconduct, calls⟩, .error fault)
        | (stack, .ok ()) =>
          if misconduct.doubles value then
            let (stack, result) := SharedStack.push stack t value
            (⟨stack, misconduct, calls⟩, result)
          else
            (⟨stack, misconduct, calls⟩, .ok ())

def Front.pop (front : Front σ) (t : Hazard.ThreadId) :
    Outcome (Front σ) UInt64 (Option UInt64) :=
  match front with
  | ⟨stack, misconduct, calls⟩ =>
    match SharedStack.pop stack t with
    | ⟨stack, dropped, .ok value⟩ => ⟨⟨stack, misconduct, .pop value :: calls⟩, dropped, .ok value⟩
    | ⟨stack, dropped, .error fault⟩ => ⟨⟨stack, misconduct, calls⟩, dropped, .error fault⟩

instance : SharedStack (Front σ) UInt64 where
  push := Front.push
  pop := Front.pop
  isEmpty front := SharedStack.isEmpty front.stack
  size front := SharedStack.size front.stack
  finish := fun ⟨stack, misconduct, calls⟩ t ↦ ⟨SharedStack.finish stack t, misconduct, calls⟩
  drop front := SharedStack.drop front.stack

/-- The values pushed through a front, in ascending order. -/
def Front.pushed (front : Front σ) : List UInt64 :=
  (front.calls.filterMap fun
    | .push value => some value
    | .pop _ => none).mergeSort (· ≤ ·)

/-- What a trial shows: its result, and as far as the turns of the workers cannot change it, the
calls or the values pushed, and whether the stack is empty at the end. -/
structure Trial where
  result : Except Fault Unit
  calls : Option (List Call) := none
  pushed : Option (List UInt64) := none
  isEmpty : Option Bool := none

/-- Runs a workload on a stack that holds `prefill`, behind a front. -/
def trial (w : Workload) (misconduct : Misconduct) (prefill : List UInt64) (s : σ) : Trial :=
  let stack := prefill.foldl (fun s value ↦ (SharedStack.push s 0 value).1) s
  let (front, result) := w.run (⟨stack, misconduct, []⟩ : Front σ)
  let isEmpty := some (SharedStack.isEmpty front.stack)
  if w.threads ≤ 1 then
    { result, calls := some front.calls.reverse, isEmpty }
  else
    match result with
    | .error (.countMismatch _ _) | .ok () => { result, pushed := some front.pushed, isEmpty }
    | .error _ => { result }

end Reclaim.Workload
