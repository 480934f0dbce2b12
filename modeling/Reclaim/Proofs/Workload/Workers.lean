import Mathlib.Algebra.Group.Nat.Defs
import Reclaim.Proofs.SharedStack.Reliable

/-!
# Workers on reliable stacks

On a reliable stack a worker that can pop, and finds a value when it does, is never stopped: each of
its turns pushes the next of its values or pops one.
-/

namespace Reclaim.Workload

open Hazard (ThreadId)
open SharedStack (Reliable)

namespace Worker

variable {operations : UInt64} {worker : Worker}

/-- The worker was not stopped, goes on for at most this many rounds, and every pop found a
value. -/
structure Fits (operations : UInt64) (worker : Worker) : Prop where
  healthy : worker.fault = none
  within : worker.rounds.toNat ≤ operations.toNat
  room : worker.pushed → worker.rounds.toNat < operations.toNat
  popped : worker.popped = worker.rounds

def given (operations : UInt64) (worker : Worker) : List Nat :=
  (List.range (worker.rounds.toNat + worker.pushed.toNat)).map
    (worker.number.toNat * operations.toNat + ·)

def calls (worker : Worker) : Nat := 2 * worker.rounds.toNat + worker.pushed.toNat

theorem calls_lt (hround : worker.rounds.toNat < operations.toNat) :
    worker.calls < 2 * operations.toNat := by
  have hbool := Bool.toNat_le worker.pushed
  unfold calls
  omega

/-- A worker that has made all rounds has made all calls. -/
theorem Fits.calls_eq (hw : worker.Fits operations)
    (hdone : operations.toNat ≤ worker.rounds.toNat) : worker.calls = 2 * operations.toNat := by
  have hrounds : worker.rounds.toNat = operations.toNat := Nat.le_antisymm hw.within hdone
  cases hpushed : worker.pushed with
  | false => rw [calls, hpushed, hrounds]; rfl
  | true =>
    have := hw.room hpushed
    omega

/-- The value that a worker is to push does not overflow if all values of the worker fit. -/
theorem value_eq (hround : worker.rounds.toNat < operations.toNat)
    (hfits : (worker.number.toNat + 1) * operations.toNat < 2 ^ 64) :
    ∃ value, worker.value operations = .ok value ∧
      value.toNat = worker.number.toNat * operations.toNat + worker.rounds.toNat := by
  have hsize : UInt64.size = 2 ^ 64 := rfl
  rw [Nat.succ_mul] at hfits
  have hmul : worker.number.toNat * operations.toNat < UInt64.size := by omega
  have hproduct : (worker.number * operations).toNat =
      worker.number.toNat * operations.toNat := by
    rw [UInt64.toNat_mul, Nat.mod_eq_of_lt hmul]
  have hadd : (worker.number * operations).toNat + worker.rounds.toNat < UInt64.size := by omega
  refine ⟨worker.number * operations + worker.rounds, ?_, ?_⟩
  · simp only [value, Checked.mul, if_pos hmul, Checked.add, if_pos hadd, bind, Except.bind]
  · rw [UInt64.toNat_add, Nat.mod_eq_of_lt hadd, hproduct]

theorem toNat_rounds_succ (hround : worker.rounds.toNat < operations.toNat) :
    (worker.rounds + 1).toNat = worker.rounds.toNat + 1 := by
  have hlt := operations.toNat_lt
  rw [UInt64.toNat_add, UInt64.toNat_one, Nat.mod_eq_of_lt (by omega)]

def afterPush (worker : Worker) : Worker := { worker with pushed := true }

def afterPop (worker : Worker) : Worker :=
  { worker with pushed := false, rounds := worker.rounds + 1, popped := worker.popped + 1 }

theorem Fits.afterPush (hw : worker.Fits operations)
    (hround : worker.rounds.toNat < operations.toNat) : worker.afterPush.Fits operations where
  healthy := hw.healthy
  within := hw.within
  room _ := hround
  popped := hw.popped

theorem Fits.afterPop (hw : worker.Fits operations) (hpushed : worker.pushed) :
    worker.afterPop.Fits operations where
  healthy := hw.healthy
  within := (toNat_rounds_succ (hw.room hpushed)).symm ▸ hw.room hpushed
  room := nofun
  popped := congrArg (· + 1) hw.popped

theorem calls_afterPush (hpushed : worker.pushed = false) :
    worker.afterPush.calls = worker.calls + 1 := by
  rw [calls, calls, hpushed]
  rfl

theorem calls_afterPop (hround : worker.rounds.toNat < operations.toNat)
    (hpushed : worker.pushed) : worker.afterPop.calls = worker.calls + 1 := by
  have hrounds : worker.afterPop.rounds.toNat = worker.rounds.toNat + 1 := toNat_rounds_succ hround
  rw [calls, calls, hrounds, hpushed]
  rfl

theorem given_afterPush (hpushed : worker.pushed = false) :
    worker.afterPush.given operations = worker.given operations ++
      [worker.number.toNat * operations.toNat + worker.rounds.toNat] := by
  simp [given, Worker.afterPush, hpushed, List.range_succ]

/-- A pop ends the round, and what was pushed stays so. -/
theorem given_afterPop (hround : worker.rounds.toNat < operations.toNat)
    (hpushed : worker.pushed) : worker.afterPop.given operations = worker.given operations := by
  simp [given, Worker.afterPop, hpushed, toNat_rounds_succ hround]

section

variable {σ : Type} [SharedStack σ UInt64] {s : σ}

theorem turn_of_done (hdone : operations.toNat ≤ worker.rounds.toNat) :
    worker.turn operations s = (worker, s) := by
  have hle : operations ≤ worker.rounds := UInt64.le_iff_toNat_le.mpr hdone
  simp [turn, hle]

variable {Holds : σ → List ThreadId → List UInt64 → List UInt64 → Prop}
  {threads : List ThreadId} {values pushed : List UInt64}

/-- A worker that is to push does so. -/
theorem turn_push (hS : Reliable Holds) (hs : Holds s threads values pushed)
    (hw : worker.Fits operations) (hround : worker.rounds.toNat < operations.toNat)
    (hfits : (worker.number.toNat + 1) * operations.toNat < 2 ^ 64)
    (hpushed : worker.pushed = false) :
    ∃ value s', worker.turn operations s = (worker.afterPush, s') ∧
      value.toNat = worker.number.toNat * operations.toNat + worker.rounds.toNat ∧
      Holds s' threads (value :: values) (value :: pushed) := by
  obtain ⟨value, hvalue, hexact⟩ := value_eq hround hfits
  obtain ⟨hok, hafter⟩ := hS.push _ _ _ _ worker.thread value hs
  refine ⟨value, (SharedStack.push s worker.thread value).1, ?_, hexact, hafter⟩
  have hlt : ¬ operations ≤ worker.rounds := by
    rw [UInt64.le_iff_toNat_le]
    omega
  rcases hpush : SharedStack.push s worker.thread value with ⟨s', result⟩
  rw [hpush] at hok
  obtain rfl : result = .ok () := hok
  simp [turn, hw.healthy, hlt, hpushed, hvalue, hpush, Worker.afterPush]

/-- A worker that is to pop from a stack that is not empty pops a value. -/
theorem turn_pop (hS : Reliable Holds) {value : UInt64}
    (hs : Holds s threads (value :: values) pushed) (hthread : worker.thread ∈ threads)
    (hw : worker.Fits operations) (hpushed : worker.pushed) :
    ∃ s', worker.turn operations s = (worker.afterPop, s') ∧ Holds s' threads values pushed := by
  obtain ⟨hok, hafter⟩ := hS.pop _ _ _ _ worker.thread hs hthread
  refine ⟨(SharedStack.pop s worker.thread).state, ?_, hafter⟩
  have hlt : ¬ operations ≤ worker.rounds := by
    have := hw.room hpushed
    rw [UInt64.le_iff_toNat_le]
    omega
  rcases hpop : SharedStack.pop s worker.thread with ⟨s', dropped, result⟩
  rw [hpop] at hok
  obtain rfl : result = .ok (some value) := hok
  simp [turn, hw.healthy, hlt, hpushed, hpop, Worker.afterPop]

end

end Worker

variable {σ : Type} [SharedStack σ UInt64]
  {Holds : σ → List ThreadId → List UInt64 → List UInt64 → Prop}

theorem checkedAdd_eq {a b : UInt64} (hfits : a.toNat + b.toNat < 2 ^ 64) :
    Checked.add a b = .ok (a + b) ∧ (a + b).toNat = a.toNat + b.toNat := by
  refine ⟨if_pos hfits, ?_⟩
  rw [UInt64.toNat_add, Nat.mod_eq_of_lt hfits]

/-- The drain pops all values, and adds their number to what was popped before. -/
theorem drain_eq (hS : SharedStack.Reliable Holds) {s : σ} {threads : List ThreadId}
    {values pushed : List UInt64} (hs : Holds s threads values pushed) (hthread : 0 ∈ threads)
    (count : Nat) (hcount : values.length < count) (popped : UInt64)
    (hfits : popped.toNat + values.length < 2 ^ 64) :
    ∃ s', drain count popped s = (s', .ok (popped + .ofNat values.length)) ∧
      Holds s' threads [] pushed := by
  induction count generalizing s values popped with
  | zero => omega
  | succ count ih =>
    obtain ⟨hok, hafter⟩ := hS.pop _ _ _ _ 0 hs hthread
    rcases hpop : SharedStack.pop s 0 with ⟨s', dropped, result⟩
    rw [hpop] at hok hafter
    cases values with
    | nil =>
      obtain rfl : result = .ok none := hok
      refine ⟨s', ?_, hafter⟩
      simp [drain, hpop]
    | cons value values =>
      obtain rfl : result = .ok (some value) := hok
      rw [List.length_cons] at hcount hfits
      rw [List.tail_cons] at hafter
      obtain ⟨hadd, hsum⟩ := checkedAdd_eq (b := 1) (a := popped) (by
        rw [UInt64.toNat_one]
        omega)
      rw [UInt64.toNat_one] at hsum
      obtain ⟨s'', hdrain, hempty⟩ := ih hafter (by omega) (popped + 1) (by omega)
      refine ⟨s'', ?_, hempty⟩
      have hlength : popped + 1 + UInt64.ofNat values.length =
          popped + UInt64.ofNat (values.length + 1) := by
        rw [UInt64.ofNat_add, UInt64.add_assoc, UInt64.add_comm 1]
        rfl
      simp [drain, hpop, hadd, hdrain, hlength]

/-- The closing check holds exactly if as many values were popped as the workers put in. -/
theorem check_eq {w : Workload} {popped : UInt64} {excess : Nat}
    (hpopped : popped.toNat = w.threads.toNat * w.operations.toNat + excess) :
    w.check popped = if excess = 0 then .ok ()
      else .error (.countMismatch popped (w.threads * w.operations)) := by
  have hlt := popped.toNat_lt
  have hmul : w.threads.toNat * w.operations.toNat < UInt64.size := by
    have hsize : UInt64.size = 2 ^ 64 := rfl
    omega
  have hproduct : (w.threads * w.operations).toNat = w.threads.toNat * w.operations.toNat := by
    rw [UInt64.toNat_mul, Nat.mod_eq_of_lt hmul]
  have hequal : popped = w.threads * w.operations ↔ excess = 0 := by
    rw [← UInt64.toNat_inj, hproduct]
    omega
  simp only [check, Checked.mul, if_pos hmul, bind, Except.bind, hequal]

end Reclaim.Workload
