import Reclaim.SharedStack.Basic

/-!
# Stress runs

Several workers push disjoint ranges of values, in a mixed run with a pop after each push, and then
the stack is drained.  Every value must come out exactly once, in whatever order; the run shows the
sums that this fixes.
-/

namespace Reclaim

/-- What a stress run shows: how many values were popped, how many different ones, their sum,
whether the stack is empty in the end, and how many values were destroyed. -/
structure Stress where
  popped : Nat
  distinct : Nat
  sum : Nat
  isEmpty : Bool
  dropped : Nat

namespace Stress

/-- Destroying a number never faults. -/
instance : Destructor Nat := ⟨fun _ ↦ none⟩

variable {σ : Type} [SharedStack σ Nat]

/-- One pop whose value, if there is one, is added to the values popped so far. -/
def popInto (t : Hazard.ThreadId) (popped : List Nat) (s : σ) : List Nat × σ :=
  match SharedStack.pop s t with
  | ⟨s, _, .ok (some value)⟩ => (value :: popped, s)
  | ⟨s, _, _⟩ => (popped, s)

/-- Pushes `count` values from `value` on, and in a mixed run pops after each of them. -/
def pushRange (mixed : Bool) (t : Hazard.ThreadId) :
    (count value : Nat) → List Nat → σ → List Nat × σ
  | 0, _, popped, s => (popped, s)
  | count + 1, value, popped, s =>
    let (s, _) := SharedStack.push s t value
    let (popped, s) := if mixed then popInto t popped s else (popped, s)
    pushRange mixed t count (value + 1) popped s

/-- Runs `threads` workers one after the other; worker `t` is thread `t + 1`. -/
def pushAll (mixed : Bool) (each : Nat) :
    (threads number : Nat) → List Nat → σ → List Nat × σ
  | 0, _, popped, s => (popped, s)
  | threads + 1, number, popped, s =>
    let (popped, s) := pushRange mixed (number + 1) each (number * each) popped s
    pushAll mixed each threads (number + 1) popped (SharedStack.finish s (number + 1))

def drain : (count : Nat) → List Nat → σ → List Nat × σ
  | 0, popped, s => (popped, s)
  | count + 1, popped, s =>
    if SharedStack.isEmpty s then
      (popped, s)
    else
      let (popped, s) := popInto 0 popped s
      drain count popped s

def countDistinct : List Nat → Nat
  | [] => 0
  | [_] => 1
  | a :: b :: rest => (if a = b then 0 else 1) + countDistinct (b :: rest)

/-- The sums over the values popped in a run that ends with this stack. -/
def ofRun (popped : List Nat) (s : σ) : Stress where
  popped := popped.length
  distinct := countDistinct (popped.mergeSort (· ≤ ·))
  sum := popped.foldr (· + ·) 0
  isEmpty := SharedStack.isEmpty s
  dropped := popped.length + (SharedStack.drop s).1.length

/-- A whole run: all workers, then the drain.  Answers the values popped and the stack. -/
def run (threads each : Nat) (mixed : Bool) (s : σ) : List Nat × σ :=
  let (popped, s) := pushAll mixed each threads 0 [] s
  let (popped, s) := drain (threads * each) popped s
  (popped, SharedStack.finish s 0)

def measure (threads each : Nat) (mixed : Bool) (s : σ) : Stress :=
  let (popped, s) := run threads each mixed s
  ofRun popped s

/-- How many slots the registry has in a run with explicit slots. -/
def localCapacity : Nat := 16

/-- A whole run with explicit slots, and after a reclaim what is pending and how many slots are
claimed. -/
def measureExplicit (threads each : Nat) (mixed : Bool) : Stress × UInt64 × Nat :=
  let (popped, s) := run threads each mixed
    (Hazard.SoleStack.empty .explicit : Hazard.SoleStack localCapacity Nat)
  let registry := ((s.world.run 0 (.reclaim 0)).1.registryAt? 0).getD {}
  (ofRun popped s, registry.limbo.pending, registry.claimed)

end Stress

end Reclaim
