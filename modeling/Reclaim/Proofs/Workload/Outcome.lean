import Reclaim.Proofs.Workload.Schedules

/-!
# What comes of a workload

On a reliable stack the workers put in and take out all their values, whatever the schedule, and
what was there at the start is left for the closing drain. So the closing check holds exactly if the
stack was empty at the start.
-/

namespace Reclaim.Workload

open Hazard (ThreadId)
open SharedStack (Reliable)

variable {σ : Type}

section

variable {Holds : σ → List ThreadId → List UInt64 → List UInt64 → Prop} {w : Workload} {k : Nat}
  {c : Crew σ}

theorem foldlM_add {operations : UInt64} (workers : List Worker)
    (hworkers : ∀ worker ∈ workers, worker.popped = operations) (popped : UInt64)
    (hfits : popped.toNat + workers.length * operations.toNat < 2 ^ 64) :
    ∃ total, workers.foldlM (fun popped worker ↦ Checked.add popped worker.popped) popped =
      .ok total ∧ total.toNat = popped.toNat + workers.length * operations.toNat := by
  induction workers generalizing popped with
  | nil => exact ⟨popped, rfl, by rw [List.length_nil, Nat.zero_mul, Nat.add_zero]⟩
  | cons worker workers ih =>
    obtain ⟨hpopped, hworkers⟩ := List.forall_mem_cons.mp hworkers
    rw [List.length_cons, Nat.succ_mul] at hfits
    obtain ⟨hadd, hsum⟩ := checkedAdd_eq (a := popped) (b := operations) (by omega)
    obtain ⟨total, htotal, hexact⟩ := ih hworkers (popped + operations) (by omega)
    refine ⟨total, ?_, ?_⟩
    · rw [List.foldlM_cons, hpopped, hadd]
      exact htotal
    · rw [List.length_cons, Nat.succ_mul]
      omega

namespace Crew

/-- When all threads have ended, all rounds were made. -/
theorem Fits.rounds_eq (hc : c.Fits w Holds k) (hover : c.Over) {worker : Worker}
    (hmem : worker ∈ c.workers) :
    worker.rounds = w.operations ∧ worker.pushed = false := by
  have hworker := hc.workers worker hmem
  have hended := hc.ended worker hmem (hover worker hmem)
  refine ⟨UInt64.toNat_inj.mp (Nat.le_antisymm hworker.within hended), ?_⟩
  cases hpushed : worker.pushed with
  | false => rfl
  | true =>
    have := hworker.room hpushed
    omega

/-- When all threads have ended, their pops add up to the number of all rounds. -/
theorem Fits.total_eq (hc : c.Fits w Holds k) (hover : c.Over)
    (hfits : w.threads.toNat * w.operations.toNat < 2 ^ 64) :
    ∃ total, c.total = .ok total ∧ total.toNat = w.threads.toNat * w.operations.toNat := by
  have hpopped : ∀ worker ∈ c.workers, worker.popped = w.operations :=
    fun worker hmem ↦ (hc.workers worker hmem).popped.trans (hc.rounds_eq hover hmem).1
  have hzero : (0 : UInt64).toNat = 0 := rfl
  obtain ⟨total, htotal, hexact⟩ := foldlM_add c.workers hpopped 0 (by
    rw [hc.length_workers, hzero]
    omega)
  rw [hc.length_workers, hzero, Nat.zero_add] at hexact
  exact ⟨total, htotal, hexact⟩

/-- When all threads have ended, only what was there at the start is left. -/
theorem Fits.holds_over (hc : c.Fits w Holds k) (hover : c.Over) :
    ∃ values pushed, Holds c.stack [] values pushed ∧ values.length = k ∧
      (pushed.map UInt64.toNat).Perm (List.range (w.threads.toNat * w.operations.toNat)) := by
  obtain ⟨values, pushed, hholds, hlength, hperm⟩ := hc.holds
  refine ⟨values, pushed, ?_, ?_, ?_⟩
  · have hnone : w.poppers.filter (· ∉ c.ended) = [] := by
      rw [List.filter_eq_nil_iff]
      intro t ht
      unfold poppers at ht
      split at ht
      · cases ht
      · obtain ⟨i, hi, rfl⟩ := List.mem_map.mp ht
        rw [← hc.numbers, List.mem_map] at hi
        obtain ⟨worker, hmem, rfl⟩ := hi
        exact fun hactive ↦ of_decide_eq_true hactive (hover worker hmem)
    rwa [hnone] at hholds
  · have hnone : c.workers.countP (·.pushed) = 0 := by
      rw [List.countP_eq_zero]
      intro worker hmem
      rw [(hc.rounds_eq hover hmem).2]
      exact Bool.false_ne_true
    rw [hlength, hnone, Nat.add_zero]
  · have hgiven : c.workers.flatMap (Worker.given w.operations) =
        (c.workers.map fun worker ↦ worker.number.toNat).flatMap fun row ↦
          (List.range w.operations.toNat).map (row * w.operations.toNat + ·) := by
      rw [List.flatMap_map, List.flatMap_def, List.flatMap_def]
      refine congrArg List.flatten (List.map_congr_left fun worker hmem ↦ ?_)
      obtain ⟨hrounds, hpushed⟩ := hc.rounds_eq hover hmem
      rw [Worker.given, hrounds, hpushed]
      rfl
    rwa [hgiven, hc.numbers, flatMap_range_map] at hperm

end Crew

end

variable [SharedStack σ UInt64]
  {Holds : σ → List ThreadId → List UInt64 → List UInt64 → Prop}

/-- A worker alone pushes and pops its values and leaves the rest where it is. -/
theorem Worker.runAlone_eq (hS : Reliable Holds) {operations : UInt64} {threads : List ThreadId}
    {values : List UInt64} (count : Nat) {worker : Worker} {s : σ} {pushed : List UInt64}
    (hs : Holds s threads values pushed) (hw : worker.Fits operations)
    (hpushed : worker.pushed = false) (hrounds : worker.rounds.toNat + count = operations.toNat)
    (hfits : (worker.number.toNat + 1) * operations.toNat < 2 ^ 64)
    (hthread : 0 < count → worker.thread ∈ threads) :
    ∃ worker' s' pushed', worker.runAlone operations count s = (worker', s') ∧
      worker'.Fits operations ∧ worker'.number = worker.number ∧ worker'.rounds = operations ∧
      Holds s' threads values pushed' := by
  induction count generalizing worker s pushed with
  | zero => exact ⟨worker, s, pushed, rfl, hw, rfl, UInt64.toNat_inj.mp hrounds, hs⟩
  | succ count ih =>
    have hround : worker.rounds.toNat < operations.toNat := by omega
    have hmem := hthread (Nat.succ_pos _)
    obtain ⟨value, s₁, hturn, -, hs₁⟩ := turn_push hS hs hw hround hfits hpushed
    have hw₁ := hw.afterPush hround
    have hpushed₁ : worker.afterPush.pushed = true := rfl
    have hmem₁ : worker.afterPush.thread ∈ threads := hmem
    obtain ⟨s₂, hturn', hs₂⟩ := turn_pop hS hs₁ hmem₁ hw₁ hpushed₁
    have hw₂ := hw₁.afterPop hpushed₁
    have hrounds₂ : worker.afterPush.afterPop.rounds.toNat + count = operations.toNat := by
      have hsucc : worker.afterPush.afterPop.rounds.toNat = worker.rounds.toNat + 1 :=
        toNat_rounds_succ hround
      omega
    obtain ⟨worker', s', pushed', hrun, hw', hnumber, hdone, hs'⟩ :=
      ih hs₂ hw₂ rfl hrounds₂ hfits fun _ ↦ hmem
    refine ⟨worker', s', pushed', ?_, hw', hnumber, hdone, hs'⟩
    simp [runAlone, hw.healthy, hturn, hturn', hrun]

theorem runInOrder_eq (hS : Reliable Holds) {w : Workload} {values : List UInt64} (count : Nat)
    {number popped : UInt64} {s : σ} {pushed : List UInt64}
    (hs : Holds s (w.poppers.filter (number.toNat < ·)) values pushed)
    (hcount : number.toNat + count = w.threads.toNat)
    (hpopped : popped.toNat = number.toNat * w.operations.toNat)
    (hfits : w.threads.toNat * w.operations.toNat < 2 ^ 64) :
    ∃ s' total pushed', runInOrder w.operations count number popped s = (s', .ok total) ∧
      total.toNat = w.threads.toNat * w.operations.toNat ∧ Holds s' [] values pushed' := by
  induction count generalizing number popped s pushed with
  | zero =>
    have hnone : w.poppers.filter (number.toNat < ·) = [] := by
      rw [List.filter_eq_nil_iff]
      intro t ht hlt
      have hlt : number.toNat < t := of_decide_eq_true hlt
      exact Nat.not_lt.mpr (mem_poppers.mp ht).2.2 (hcount ▸ hlt)
    rw [hnone] at hs
    exact ⟨s, popped, pushed, rfl, hcount ▸ hpopped, hs⟩
  | succ count ih =>
    have hlt := w.threads.toNat_lt
    have hnext : (number + 1).toNat = number.toNat + 1 := by
      rw [UInt64.toNat_add, UInt64.toNat_one, Nat.mod_eq_of_lt (by omega)]
    have hnumber : number.toNat + 1 ≤ w.threads.toNat := by omega
    have hvalues : (number.toNat + 1) * w.operations.toNat ≤
        w.threads.toNat * w.operations.toNat := Nat.mul_le_mul_right _ hnumber
    have hthread : 0 < w.operations.toNat →
        number.toNat + 1 ∈ w.poppers.filter (number.toNat < ·) := by
      intro hpositive
      rw [List.mem_filter, mem_poppers]
      exact ⟨⟨hpositive, Nat.succ_pos _, hnumber⟩, decide_eq_true (Nat.lt_succ_self _)⟩
    have hfresh : Worker.Fits w.operations { number } := ⟨rfl, Nat.zero_le _, nofun, rfl⟩
    obtain ⟨worker, s₁, pushed₁, hrun, hw, hsame, hrounds, hs₁⟩ :=
      Worker.runAlone_eq hS w.operations.toNat hs hfresh rfl (Nat.zero_add _)
        (Nat.lt_of_le_of_lt hvalues hfits) hthread
    have hfinish := hS.finish _ _ _ _ worker.thread hs₁ (Nat.succ_ne_zero _)
    have hactive : (w.poppers.filter (number.toNat < ·)).filter (· ≠ worker.thread) =
        w.poppers.filter ((number + 1).toNat < ·) := by
      rw [List.filter_filter, Worker.thread, hsame, hnext]
      refine List.filter_congr fun t _ ↦ ?_
      rw [Bool.eq_iff_iff, Bool.and_eq_true, decide_eq_true_eq, decide_eq_true_eq,
        decide_eq_true_eq]
      exact ⟨fun h ↦ Nat.lt_of_le_of_ne h.2 (Ne.symm h.1),
        fun h ↦ ⟨Nat.ne_of_gt h, Nat.lt_of_succ_lt h⟩⟩
    have hpops : worker.popped = w.operations := hw.popped.trans hrounds
    rw [Nat.succ_mul] at hvalues
    obtain ⟨hadd, hsum⟩ := checkedAdd_eq (a := popped) (b := w.operations) (by omega)
    obtain ⟨s', total, pushed', hrest, htotal, hs'⟩ :=
      ih (hactive ▸ hfinish) (by omega) (hsum.trans (by rw [hnext, Nat.succ_mul, hpopped]))
    refine ⟨s', total, pushed', ?_, htotal, hs'⟩
    simp [runInOrder, hrun, hw.healthy, hpops, hadd, hrest]

/-- What the closing check says if `k` values too many came out. -/
def verdict (w : Workload) (k : Nat) : Except Fault Unit :=
  if k = 0 then .ok ()
  else .error (.countMismatch (w.threads * w.operations + .ofNat k) (w.threads * w.operations))

def after (w : Workload) (s : σ) (schedule : List Action) : Crew σ :=
  (w.crew s).follow w.operations schedule

/-- What comes of a workload on a stack that holds `k` values at the start. -/
structure ComesOut (w : Workload) (s : σ) (k : Nat) : Prop where
  /-- Each worker makes its calls one by one, a call for every turn until it has made all. -/
  calls : ∀ schedule, ∀ i < w.threads.toNat, ∃ worker,
    (w.after s schedule).workers[i]? = some worker ∧ worker.number.toNat = i ∧
      worker.calls = min (schedule.count (.turn i)) (2 * w.operations.toNat)
  /-- All threads have ended once each has made its calls and left. -/
  over_iff : ∀ schedule, (w.after s schedule).Over ↔ w.Completes schedule
  /-- This can always be brought about. -/
  extends_to : ∀ schedule, ∃ rest, (w.after s (schedule ++ rest)).Over
  /-- At every moment the stack holds one value more for each worker between push and pop. -/
  size : ∀ schedule, SharedStack.size (w.after s schedule).stack =
    k + (w.after s schedule).workers.countP (·.pushed)
  /-- No worker is ever stopped, and all pops find a value. -/
  pops : ∀ schedule, ∀ worker ∈ (w.after s schedule).workers,
    worker.fault = none ∧ worker.popped = worker.rounds
  /-- No value of a worker overflows. -/
  values : ∀ worker : Worker, worker.number < w.threads → worker.rounds < w.operations →
    ∃ value, worker.value w.operations = .ok value ∧
      value.toNat = worker.number.toNat * w.operations.toNat + worker.rounds.toNat
  /-- The workers push the numbers from zero on, each once. -/
  pushed : ∀ schedule, w.Completes schedule →
    (w.after (⟨s, {}, []⟩ : Front σ) schedule).Over ∧
      (w.after (⟨s, {}, []⟩ : Front σ) schedule).stack.pushed =
        (List.range (w.threads.toNat * w.operations.toNat)).map .ofNat
  /-- In the end the workers have popped as often as they pushed, and the drain pops what was there
  at the start. -/
  close : ∀ schedule, (w.after s schedule).Over →
    (w.after s schedule).total = .ok (w.threads * w.operations) ∧
      ∃ s', drain (SharedStack.size (w.after s schedule).stack + 1) (w.threads * w.operations)
          (w.after s schedule).stack = (s', .ok (w.threads * w.operations + .ofNat k)) ∧
        SharedStack.size s' = 0
  check : w.check (w.threads * w.operations + .ofNat k) = w.verdict k
  /-- So it is too if each worker finishes before the next one starts. -/
  run : (w.run s).2 = w.verdict k

variable {w : Workload}

theorem toNat_product (hfits : w.threads.toNat * w.operations.toNat < 2 ^ 64) :
    (w.threads * w.operations).toNat = w.threads.toNat * w.operations.toNat := by
  rw [UInt64.toNat_mul, Nat.mod_eq_of_lt hfits]

theorem toNat_product_add {k : Nat}
    (hfits : w.threads.toNat * w.operations.toNat + k < 2 ^ 64) :
    (w.threads * w.operations + .ofNat k).toNat = w.threads.toNat * w.operations.toNat + k := by
  have hk : (UInt64.ofNat k).toNat = k :=
    UInt64.toNat_ofNat_of_lt' (Nat.lt_of_le_of_lt (Nat.le_add_left _ _) hfits)
  rw [UInt64.toNat_add, toNat_product (by omega), hk, Nat.mod_eq_of_lt hfits]

theorem check_product {k : Nat} (hfits : w.threads.toNat * w.operations.toNat + k < 2 ^ 64) :
    w.check (w.threads * w.operations + .ofNat k) = w.verdict k :=
  check_eq (toNat_product_add hfits)

/-- The drain after all rounds pops what was there at the start. -/
theorem drain_product (hS : Reliable Holds) {s : σ} {values pushed : List UInt64}
    (hs : Holds s [] values pushed)
    (hfits : w.threads.toNat * w.operations.toNat + values.length < 2 ^ 64) :
    ∃ s', drain (SharedStack.size s + 1) (w.threads * w.operations) s =
      (s', .ok (w.threads * w.operations + .ofNat values.length)) ∧ SharedStack.size s' = 0 := by
  have hwait := hS.wait _ _ _ hs
  have hsize := hS.size _ _ _ _ hs
  have hproduct := toNat_product (w := w) (by omega)
  obtain ⟨s', hdrain, hs'⟩ := drain_eq hS hwait List.mem_cons_self (SharedStack.size s + 1)
    (by omega) (w.threads * w.operations) (by omega)
  exact ⟨s', hdrain, hS.size _ _ _ _ hs'⟩

theorem run_eq (hS : Reliable Holds) {s : σ} {values : List UInt64}
    (hs : Holds s w.poppers values [])
    (hfits : w.threads.toNat * w.operations.toNat + values.length < 2 ^ 64) :
    (w.run s).2 = w.verdict values.length := by
  have hall : w.poppers.filter ((0 : UInt64).toNat < ·) = w.poppers :=
    List.filter_eq_self.mpr fun t ht ↦ decide_eq_true (mem_poppers.mp ht).2.1
  have hzero : (0 : UInt64).toNat = (0 : UInt64).toNat * w.operations.toNat :=
    (Nat.zero_mul _).symm
  obtain ⟨s₁, total, pushed, hrun, htotal, hs₁⟩ := runInOrder_eq hS w.threads.toNat
    (hall.symm ▸ hs) (Nat.zero_add _) hzero (by omega)
  obtain rfl : total = w.threads * w.operations := by
    rw [← UInt64.toNat_inj, htotal, toNat_product (by omega)]
  obtain ⟨s₂, hdrain, -⟩ := drain_product hS hs₁ hfits
  simp only [run, hrun, hdrain, check_product hfits]

/-- This is what comes of a workload on a reliable stack. -/
theorem comesOut_of_reliable (hS : Reliable Holds) {s : σ} {values : List UInt64}
    (hs : Holds s w.poppers values [])
    (hfits : w.threads.toNat * w.operations.toNat + values.length < 2 ^ 64) :
    w.ComesOut s values.length := by
  have hproduct : w.threads.toNat * w.operations.toNat < 2 ^ 64 := by omega
  have hafter (schedule : List Action) :
      (w.after s schedule).Fits w Holds values.length :=
    (Crew.fits_crew hs).follow hS hproduct schedule
  have hfollows (schedule : List Action) : (w.after s schedule).Follows w schedule :=
    .follow hS hs hproduct schedule
  constructor
  · intro schedule i hi
    have hget := List.getElem?_eq_getElem ((hafter schedule).length_workers.symm ▸ hi)
    exact ⟨_, hget, ((hafter schedule).number_eq hget).1, (hfollows schedule).calls i _ hget⟩
  · exact fun schedule ↦ (hfollows schedule).over_iff (hafter schedule)
  · intro schedule
    have hcompletes := completes_append_oneByOne w schedule
    exact ⟨w.oneByOne, ((hfollows _).over_iff (hafter _)).mpr hcompletes⟩
  · intro schedule
    obtain ⟨present, pushed, hholds, hlength, -⟩ := (hafter schedule).holds
    exact (hS.size _ _ _ _ hholds).trans hlength
  · intro schedule worker hmem
    have hworker := (hafter schedule).workers worker hmem
    exact ⟨hworker.healthy, hworker.popped⟩
  · intro worker hnumber hrounds
    have hnumber : worker.number.toNat < w.threads.toNat := UInt64.lt_iff_toNat_lt.mp hnumber
    refine Worker.value_eq (UInt64.lt_iff_toNat_lt.mp hrounds) ?_
    exact Nat.lt_of_le_of_lt (Nat.mul_le_mul_right _ hnumber) hproduct
  · intro schedule hcompletes
    have hfront : Front.Records Holds (⟨s, {}, []⟩ : Front σ) w.poppers values [] := ⟨rfl, hs, rfl⟩
    have hcrew := (Crew.fits_crew hfront).follow (Front.reliable hS) hproduct schedule
    have hover := ((Crew.Follows.follow (Front.reliable hS) hfront hproduct schedule).over_iff
      hcrew).mpr hcompletes
    obtain ⟨present, pushed, hholds, -, hperm⟩ := hcrew.holds_over hover
    refine ⟨hover, ?_⟩
    rw [Front.pushed_eq]
    exact mergeSort_eq_range (hholds.pushes ▸ hperm)
  · intro schedule hover
    obtain ⟨total, htotal, hexact⟩ := (hafter schedule).total_eq hover hproduct
    obtain rfl : total = w.threads * w.operations := by
      rw [← UInt64.toNat_inj, hexact, toNat_product hproduct]
    obtain ⟨present, pushed, hholds, hlength, -⟩ := (hafter schedule).holds_over hover
    have hdrain := drain_product hS hholds (hlength ▸ hfits)
    rw [hlength] at hdrain
    exact ⟨htotal, hdrain⟩
  · exact check_product hfits
  · exact run_eq hS hs hfits

end Reclaim.Workload
