import Reclaim.SharedStack.Basic
import Reclaim.Text.Record

/-!
# Workloads

A workload lets several workers push and pop in turn on one stack.  Worker `t` pushes the values
`t * operations`, `t * operations + 1`, … and pops once after each push.  When all workers are done
the stack is drained, and as many values must have come out as the workers put in.  A worker makes
one call on the stack at a time, so that a run of the workers is a sequence of turns; `runInOrder`
takes the sequence in which each worker finishes before the next one starts.
-/

namespace Reclaim

/-- How many workers there are, and how often each of them pushes and pops. -/
structure Workload where
  threads : UInt64
  operations : UInt64
deriving DecidableEq

namespace Workload

def standard : Workload := ⟨4, 100000⟩

def fields (w : Workload) : List (String × String) :=
  [("threads", toString w.threads.toNat), ("operations_per_thread", toString w.operations.toNat)]

def asLine (w : Workload) : String := Text.record "Workload" w.fields

def asLines (w : Workload) : String := Text.recordLines "Workload" w.fields

/-- A worker: its number, its finished rounds of push and pop, whether it has pushed in the current
round, how many of its pops found a value, and the fault that stopped it. -/
structure Worker where
  number : UInt64
  rounds : UInt64 := 0
  pushed : Bool := false
  popped : UInt64 := 0
  fault : Option Fault := none

def Worker.value (operations : UInt64) (worker : Worker) : Except Fault UInt64 := do
  Checked.add (← Checked.mul worker.number operations) worker.rounds

/-- The thread on which a worker runs; thread 0 is the one that waits for the workers. -/
def Worker.thread (worker : Worker) : Hazard.ThreadId := worker.number.toNat + 1

variable {σ : Type} [SharedStack σ UInt64]

/-- A worker's next call on the stack.  A worker that has finished or was stopped makes none. -/
def Worker.turn (operations : UInt64) (worker : Worker) (s : σ) : Worker × σ :=
  if worker.fault.isSome || operations ≤ worker.rounds then
    (worker, s)
  else if worker.pushed then
    match SharedStack.pop s worker.thread with
    | ⟨s, _, .error fault⟩ => ({ worker with fault := some fault }, s)
    | ⟨s, _, .ok value⟩ =>
      ({ worker with
          pushed := false
          rounds := worker.rounds + 1
          popped := if value.isSome then worker.popped + 1 else worker.popped }, s)
  else
    match worker.value operations with
    | .error fault => ({ worker with fault := some fault }, s)
    | .ok value =>
      match SharedStack.push s worker.thread value with
      | (s, .error fault) => ({ worker with fault := some fault }, s)
      | (s, .ok ()) => ({ worker with pushed := true }, s)

/-- Up to `rounds` rounds of one worker alone. -/
def Worker.runAlone (operations : UInt64) : Nat → Worker → σ → Worker × σ
  | 0, worker, s => (worker, s)
  | rounds + 1, worker, s =>
    if worker.fault.isSome then
      (worker, s)
    else
      let (worker, s) := worker.turn operations s
      let (worker, s) := worker.turn operations s
      Worker.runAlone operations rounds worker s

/-- Runs `count` workers one after the other, the first of them with the given number, and adds what
they popped to `popped`.  The first worker stopped by a fault ends it. -/
def runInOrder (operations : UInt64) :
    (count : Nat) → (number : UInt64) → (popped : UInt64) → σ → σ × Except Fault UInt64
  | 0, _, popped, s => (s, .ok popped)
  | count + 1, number, popped, s =>
    let (worker, s) := Worker.runAlone operations operations.toNat { number } s
    let s := SharedStack.finish s worker.thread
    match worker.fault, Checked.add popped worker.popped with
    | some fault, _ => (s, .error fault)
    | none, .error fault => (s, .error fault)
    | none, .ok popped => runInOrder operations count (number + 1) popped s

/-- Pops until nothing is left, at most `count` times, and adds to `popped` what was found. -/
def drain : Nat → (popped : UInt64) → σ → σ × Except Fault UInt64
  | 0, popped, s => (s, .ok popped)
  | count + 1, popped, s =>
    match SharedStack.pop s 0 with
    | ⟨s, _, .error fault⟩ => (s, .error fault)
    | ⟨s, _, .ok none⟩ => (s, .ok popped)
    | ⟨s, _, .ok (some _)⟩ =>
      match Checked.add popped 1 with
      | .error fault => (s, .error fault)
      | .ok popped => drain count popped s

/-- The closing check: as many values must have come out as the workers put in. -/
def check (w : Workload) (popped : UInt64) : Except Fault Unit := do
  let expected ← Checked.mul w.threads w.operations
  if popped = expected then .ok () else .error (.countMismatch popped expected)

def run (w : Workload) (s : σ) : σ × Except Fault Unit :=
  match runInOrder w.operations w.threads.toNat 0 0 s with
  | (s, .error fault) => (s, .error fault)
  | (s, .ok popped) =>
    match drain (SharedStack.size s + 1) popped s with
    | (s, .error fault) => (s, .error fault)
    | (s, .ok popped) => (s, w.check popped)

end Workload

end Reclaim
