import Reclaim.Lists
import Reclaim.Proofs.Workload.Workers

/-!
# Crews

The workers of a workload take their turns in any order, and a worker that is done ends its thread
at any time. What one turn keeps is kept by every schedule: the stack holds what it held at the
start and one value more for each worker between its push and its pop.
-/

namespace Reclaim.Workload

open Hazard (ThreadId)
open SharedStack (Reliable)

variable {σ : Type}

/-- Workers, the threads of those that ended, and the stack that they share. -/
structure Crew (σ : Type) where
  workers : List Worker
  ended : List ThreadId := []
  «stack» : σ

/-- A worker makes its next call, or ends its thread. -/
inductive Action where
  | turn (i : Nat)
  | leave (i : Nat)
deriving DecidableEq

def crew (w : Workload) (s : σ) : Crew σ where
  workers := (List.range w.threads.toNat).map fun t ↦ { number := .ofNat t }
  «stack» := s

def poppers (w : Workload) : List ThreadId :=
  if w.operations = 0 then [] else (List.range w.threads.toNat).map (· + 1)

theorem mem_poppers {w : Workload} {t : ThreadId} :
    t ∈ w.poppers ↔ 0 < w.operations.toNat ∧ 0 < t ∧ t ≤ w.threads.toNat := by
  have hzero : w.operations = 0 ↔ w.operations.toNat = 0 := UInt64.toNat_inj.symm
  unfold poppers
  split
  · next hnone =>
    simp [hzero.mp hnone]
  · next hsome =>
    rw [hzero] at hsome
    simp only [List.mem_map, List.mem_range]
    constructor
    · rintro ⟨i, hi, rfl⟩
      exact ⟨Nat.pos_of_ne_zero hsome, Nat.succ_pos i, hi⟩
    · rintro ⟨-, hpositive, hle⟩
      exact ⟨t - 1, Nat.lt_of_lt_of_le (Nat.sub_lt hpositive Nat.one_pos) hle,
        Nat.sub_add_cancel hpositive⟩

def Worker.isDone (operations : UInt64) (worker : Worker) : Bool :=
  worker.fault.isSome || operations ≤ worker.rounds

theorem Worker.Fits.isDone_iff {operations : UInt64} {worker : Worker}
    (hw : worker.Fits operations) :
    worker.isDone operations ↔ operations.toNat ≤ worker.rounds.toNat := by
  rw [Worker.isDone, hw.healthy, Option.isSome_none, Bool.false_or, decide_eq_true_iff,
    UInt64.le_iff_toNat_le]

namespace Crew

def Over (c : Crew σ) : Prop := ∀ worker ∈ c.workers, worker.thread ∈ c.ended

def total (c : Crew σ) : Except Fault UInt64 :=
  c.workers.foldlM (fun popped worker ↦ Checked.add popped worker.popped) 0

variable [SharedStack σ UInt64]

/-- Only a worker that is done ends its thread, and only once. -/
def act (operations : UInt64) (c : Crew σ) : Action → Crew σ
  | .turn i =>
    match c.workers[i]? with
    | none => c
    | some worker =>
      let next := worker.turn operations c.stack
      { c with workers := c.workers.set i next.1, «stack» := next.2 }
  | .leave i =>
    match c.workers[i]? with
    | none => c
    | some worker =>
      if worker.isDone operations && !c.ended.contains worker.thread then
        { c with
          ended := worker.thread :: c.ended
          «stack» := SharedStack.finish c.stack worker.thread }
      else c

def follow (operations : UInt64) (c : Crew σ) (schedule : List Action) : Crew σ :=
  schedule.foldl (act operations) c

end Crew

variable {Holds : σ → List ThreadId → List UInt64 → List UInt64 → Prop} {w : Workload} {k : Nat}
  {c : Crew σ}

/-- The crew is in order: all its workers are, the stack holds `k` values besides those of workers
between push and pop, and what was pushed is what the workers gave. -/
structure Crew.Fits (w : Workload) (Holds : σ → List ThreadId → List UInt64 → List UInt64 → Prop)
    (k : Nat) (c : Crew σ) : Prop where
  numbers : (c.workers.map fun worker ↦ worker.number.toNat) = List.range w.threads.toNat
  workers : ∀ worker ∈ c.workers, worker.Fits w.operations
  ended : ∀ worker ∈ c.workers, worker.thread ∈ c.ended →
    w.operations.toNat ≤ worker.rounds.toNat
  holds : ∃ values pushed, Holds c.stack (w.poppers.filter (· ∉ c.ended)) values pushed ∧
    values.length = k + c.workers.countP (·.pushed) ∧
    (pushed.map UInt64.toNat).Perm (c.workers.flatMap (Worker.given w.operations))

namespace Crew

/-- A crew whose workers have done nothing is in order. -/
theorem fits_crew {s : σ} {values : List UInt64} (hs : Holds s w.poppers values []) :
    (w.crew s).Fits w Holds values.length where
  numbers := by
    simp only [crew, List.map_map]
    refine (List.map_congr_left fun t ht ↦ ?_).trans (List.map_id _)
    exact UInt64.toNat_ofNat_of_lt' (Nat.lt_trans (List.mem_range.mp ht) w.threads.toNat_lt)
  workers := by
    simp only [crew, List.forall_mem_map]
    exact fun t _ ↦ ⟨rfl, Nat.zero_le _, nofun, rfl⟩
  ended _ _ hended := nomatch hended
  holds := by
    have hactive : w.poppers.filter (· ∉ (w.crew s).ended) = w.poppers :=
      List.filter_eq_self.mpr fun _ _ ↦ decide_eq_true (List.not_mem_nil)
    refine ⟨values, [], hactive.symm ▸ hs, ?_, ?_⟩
    · simp [crew, List.countP_map, Function.comp_def]
    · simp [crew, List.flatMap_map, Worker.given]

namespace Fits

theorem number_eq (hc : c.Fits w Holds k) {i : Nat} {worker : Worker}
    (hget : c.workers[i]? = some worker) :
    worker.number.toNat = i ∧ i < w.threads.toNat := by
  have hnumber : (List.range w.threads.toNat)[i]? = some worker.number.toNat := by
    rw [← hc.numbers, List.getElem?_map, hget]
    rfl
  obtain ⟨hlt, hget⟩ := List.getElem?_eq_some_iff.mp hnumber
  rw [List.getElem_range] at hget
  rw [List.length_range] at hlt
  exact ⟨hget.symm, hlt⟩

theorem length_workers (hc : c.Fits w Holds k) : c.workers.length = w.threads.toNat := by
  have hlength := congrArg List.length hc.numbers
  rwa [List.length_map, List.length_range] at hlength

theorem number_lt (hc : c.Fits w Holds k) {worker : Worker} (hmem : worker ∈ c.workers) :
    worker.number.toNat < w.threads.toNat := by
  obtain ⟨i, hget⟩ := List.mem_iff_getElem?.mp hmem
  obtain ⟨rfl, hlt⟩ := hc.number_eq hget
  exact hlt

/-- No two workers run on the same thread. -/
theorem eq_of_thread_eq (hc : c.Fits w Holds k) {worker other : Worker}
    (hmem : worker ∈ c.workers) (hother : other ∈ c.workers)
    (hthread : other.thread = worker.thread) : other = worker := by
  obtain ⟨i, hget⟩ := List.mem_iff_getElem?.mp hmem
  obtain ⟨j, hget'⟩ := List.mem_iff_getElem?.mp hother
  have hi := (hc.number_eq hget).1
  have hj := (hc.number_eq hget').1
  have hij : j = i := hj.symm.trans ((Nat.succ.inj hthread).trans hi)
  exact Option.some.inj (hget'.symm.trans (hij ▸ hget))

/-- A worker that goes on can pop. -/
theorem mem_active (hc : c.Fits w Holds k) {worker : Worker} (hmem : worker ∈ c.workers)
    (hround : worker.rounds.toNat < w.operations.toNat) :
    worker.thread ∈ w.poppers.filter (· ∉ c.ended) := by
  rw [List.mem_filter]
  refine ⟨?_, decide_eq_true fun hended ↦ ?_⟩
  · rw [mem_poppers]
    exact ⟨Nat.zero_lt_of_lt hround, Nat.succ_pos _, hc.number_lt hmem⟩
  · have := hc.ended worker hmem hended
    omega

theorem value_fits (hc : c.Fits w Holds k) (hfits : w.threads.toNat * w.operations.toNat < 2 ^ 64)
    {worker : Worker} (hmem : worker ∈ c.workers) :
    (worker.number.toNat + 1) * w.operations.toNat < 2 ^ 64 :=
  Nat.lt_of_le_of_lt (Nat.mul_le_mul_right _ (hc.number_lt hmem)) hfits

/-- A worker that goes on is replaced by one that is in order and has the same number. -/
theorem set (hc : c.Fits w Holds k) {i : Nat} {worker next : Worker} {s : σ}
    (hget : c.workers[i]? = some worker) (hround : worker.rounds.toNat < w.operations.toNat)
    (hnumber : next.number = worker.number) (hnext : next.Fits w.operations)
    (hholds : ∃ values pushed, Holds s (w.poppers.filter (· ∉ c.ended)) values pushed ∧
      values.length = k + (c.workers.set i next).countP (·.pushed) ∧
      (pushed.map UInt64.toNat).Perm ((c.workers.set i next).flatMap (Worker.given w.operations))) :
    Fits w Holds k { c with workers := c.workers.set i next, «stack» := s } where
  numbers := (map_set_of_eq hget (congrArg UInt64.toNat hnumber)).trans hc.numbers
  workers := by
    intro other hother
    rcases List.mem_or_eq_of_mem_set hother with hother | rfl
    · exact hc.workers other hother
    · exact hnext
  ended := by
    intro other hother hended
    rcases List.mem_or_eq_of_mem_set hother with hother | rfl
    · exact hc.ended other hother hended
    · have hthread : other.thread = worker.thread := by rw [Worker.thread, hnumber, Worker.thread]
      have := hc.ended worker (List.mem_of_getElem? hget) (hthread ▸ hended)
      omega
  holds := hholds

variable [SharedStack σ UInt64]

/-- The turn of a worker that is not done makes one call and leaves the crew in order. -/
theorem exists_turn (hS : Reliable Holds) (hc : c.Fits w Holds k)
    (hfits : w.threads.toNat * w.operations.toNat < 2 ^ 64) {i : Nat} {worker : Worker}
    (hget : c.workers[i]? = some worker) (hround : worker.rounds.toNat < w.operations.toNat) :
    ∃ next s, worker.turn w.operations c.stack = (next, s) ∧ next.calls = worker.calls + 1 ∧
      Fits w Holds k { c with workers := c.workers.set i next, «stack» := s } := by
  have hmem := List.mem_of_getElem? hget
  have hworker := hc.workers worker hmem
  have hthread := hc.mem_active hmem hround
  obtain ⟨values, pushed, hholds, hlength, hperm⟩ := hc.holds
  cases hpushed : worker.pushed with
  | false =>
    obtain ⟨value, s, hturn, hvalue, hafter⟩ := Worker.turn_push hS hholds hworker hround
      (hc.value_fits hfits hmem) hpushed
    refine ⟨_, s, hturn, Worker.calls_afterPush hpushed,
      hc.set hget hround rfl (hworker.afterPush hround) ⟨_, _, hafter, ?_, ?_⟩⟩
    · rw [List.length_cons, hlength, countP_set_succ hget hpushed rfl, Nat.add_assoc]
    · rw [List.map_cons, hvalue]
      exact (hperm.cons _).trans (flatMap_set_perm hget (Worker.given_afterPush hpushed)).symm
  | true =>
    rw [countP_eq_succ_set (b := worker.afterPop) hget hpushed rfl] at hlength
    obtain ⟨value, values, rfl⟩ := List.exists_cons_of_length_eq_add_one hlength
    obtain ⟨s, hturn, hafter⟩ := Worker.turn_pop hS hholds hthread hworker hpushed
    refine ⟨_, s, hturn, Worker.calls_afterPop hround hpushed,
      hc.set hget hround rfl (hworker.afterPop hpushed) ⟨_, _, hafter, ?_, ?_⟩⟩
    · exact Nat.succ.inj hlength
    · rw [flatMap_set_of_eq hget (Worker.given_afterPop hround hpushed)]
      exact hperm

theorem act_turn_of_done (c : Crew σ) {i : Nat} {worker : Worker}
    (hget : c.workers[i]? = some worker)
    (hdone : w.operations.toNat ≤ worker.rounds.toNat) :
    c.act w.operations (.turn i) = c := by
  rw [Crew.act, hget]
  dsimp only
  rw [Worker.turn_of_done hdone, set_of_getElem? hget]

theorem turn (hS : Reliable Holds) (hc : c.Fits w Holds k)
    (hfits : w.threads.toNat * w.operations.toNat < 2 ^ 64) (i : Nat) :
    (c.act w.operations (.turn i)).Fits w Holds k := by
  cases hget : c.workers[i]? with
  | none =>
    rw [Crew.act, hget]
    exact hc
  | some worker =>
    by_cases hround : worker.rounds.toNat < w.operations.toNat
    · obtain ⟨next, s, hturn, -, hnext⟩ := hc.exists_turn hS hfits hget hround
      rw [Crew.act, hget]
      dsimp only
      rw [hturn]
      exact hnext
    · rw [act_turn_of_done c hget (Nat.not_lt.mp hround)]
      exact hc

theorem leave (hS : Reliable Holds) (hc : c.Fits w Holds k) (i : Nat) :
    (c.act w.operations (.leave i)).Fits w Holds k := by
  dsimp only [Crew.act]
  split
  · exact hc
  · next worker hget =>
    have hmem := List.mem_of_getElem? hget
    split
    · next hleaves =>
      have hdone := (hc.workers worker hmem).isDone_iff.mp (Bool.and_eq_true_iff.mp hleaves).1
      obtain ⟨values, pushed, hholds, hlength, hperm⟩ := hc.holds
      refine ⟨hc.numbers, hc.workers, ?_, values, pushed, ?_, hlength, hperm⟩
      · intro other hother hended
        rcases List.mem_cons.mp hended with hthread | hended
        · rw [hc.eq_of_thread_eq hmem hother hthread]
          exact hdone
        · exact hc.ended other hother hended
      · have hafter := hS.finish _ _ _ _ worker.thread hholds (Nat.succ_ne_zero _)
        rw [List.filter_filter] at hafter
        simpa only [List.mem_cons, not_or, Bool.decide_and, ne_eq] using hafter
    · exact hc

theorem act (hS : Reliable Holds) (hc : c.Fits w Holds k)
    (hfits : w.threads.toNat * w.operations.toNat < 2 ^ 64) (action : Action) :
    (c.act w.operations action).Fits w Holds k := by
  cases action with
  | turn i => exact hc.turn hS hfits i
  | leave i => exact hc.leave hS i

/-- A crew stays in order, whatever the schedule. -/
theorem follow (hS : Reliable Holds) (hc : c.Fits w Holds k)
    (hfits : w.threads.toNat * w.operations.toNat < 2 ^ 64) (schedule : List Action) :
    (c.follow w.operations schedule).Fits w Holds k := by
  induction schedule generalizing c with
  | nil => exact hc
  | cons action schedule ih => exact ih (hc.act hS hfits action)

end Fits

end Crew

end Reclaim.Workload
