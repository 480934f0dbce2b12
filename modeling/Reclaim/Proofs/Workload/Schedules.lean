import Mathlib.Data.List.Induction
import Reclaim.Proofs.Workload.Crew

/-!
# Schedules and progress

Each turn of a worker that is not done makes one of its calls, so a worker has made as many calls as
it had turns, until it has made all. It can then end its thread. A schedule is complete if it gives
every worker all its turns and then lets it leave; a crew is over exactly after such a schedule, and
every schedule can be extended to one.
-/

namespace Reclaim.Workload

open Hazard (ThreadId)
open SharedStack (Reliable)

variable {σ : Type} {w : Workload} {schedule : List Action}

/-- A worker leaves after it had all its turns. -/
def LeavesIn (w : Workload) (schedule : List Action) (i : Nat) : Prop :=
  ∃ before, before ++ [.leave i] <+: schedule ∧ 2 * w.operations.toNat ≤ before.count (.turn i)

def Completes (w : Workload) (schedule : List Action) : Prop :=
  ∀ i < w.threads.toNat, w.LeavesIn schedule i

theorem leavesIn_concat (action : Action) (i : Nat) :
    w.LeavesIn (schedule ++ [action]) i ↔ w.LeavesIn schedule i ∨
      action = .leave i ∧ 2 * w.operations.toNat ≤ schedule.count (.turn i) := by
  constructor
  · rintro ⟨before, hprefix, hcount⟩
    rcases List.prefix_concat_iff.mp hprefix with hsame | hprefix
    · obtain ⟨rfl, hlast⟩ := List.append_inj' hsame rfl
      exact Or.inr ⟨(List.singleton_inj.mp hlast).symm, hcount⟩
    · exact Or.inl ⟨before, hprefix, hcount⟩
  · rintro (⟨before, hprefix, hcount⟩ | ⟨rfl, hcount⟩)
    · exact ⟨before, hprefix.trans (List.prefix_append _ _), hcount⟩
    · exact ⟨schedule, List.prefix_refl _, hcount⟩

def oneByOne (w : Workload) : List Action :=
  (List.range w.threads.toNat).flatMap fun i ↦
    List.replicate (2 * w.operations.toNat) (.turn i) ++ [.leave i]

/-- Every schedule can be extended to a complete one. -/
theorem completes_append_oneByOne (w : Workload) (schedule : List Action) :
    w.Completes (schedule ++ w.oneByOne) := by
  intro i hi
  obtain ⟨earlier, later, hsplit⟩ := List.append_of_mem (List.mem_range.mpr hi)
  let turns (i : Nat) : List Action := List.replicate (2 * w.operations.toNat) (.turn i)
  let rows := earlier.flatMap fun i ↦ turns i ++ [.leave i]
  refine ⟨schedule ++ rows ++ turns i, ⟨later.flatMap fun i ↦ turns i ++ [.leave i], ?_⟩, ?_⟩
  · rw [oneByOne, hsplit, List.flatMap_append, List.flatMap_cons]
    simp only [rows, turns, List.append_assoc]
  · rw [List.count_append, List.count_replicate_self]
    exact Nat.le_add_left _ _

/-- The workers have made as many calls as they had turns, until they had made all, and those have
left that were to leave after that. -/
structure Crew.Follows (w : Workload) (schedule : List Action) (c : Crew σ) : Prop where
  calls : ∀ i worker, c.workers[i]? = some worker →
    worker.calls = min (schedule.count (.turn i)) (2 * w.operations.toNat)
  ended : ∀ i < w.threads.toNat, i + 1 ∈ c.ended ↔ w.LeavesIn schedule i

namespace Crew

variable {Holds : σ → List ThreadId → List UInt64 → List UInt64 → Prop} {k : Nat} {c : Crew σ}

theorem follows_crew (w : Workload) (s : σ) : (w.crew s).Follows w [] where
  calls i worker hget := by
    obtain ⟨t, -, rfl⟩ := List.mem_map.mp (List.mem_of_getElem? hget)
    rw [List.count_nil, Nat.zero_min]
    rfl
  ended i _ := by
    refine ⟨fun hmem ↦ absurd hmem List.not_mem_nil, ?_⟩
    rintro ⟨before, hprefix, -⟩
    exact absurd (List.prefix_nil.mp hprefix) (List.concat_ne_nil _ _)

namespace Follows

/-- A worker is done if it had all its turns. -/
theorem done_iff (hfollows : c.Follows w schedule) (hc : c.Fits w Holds k) {i : Nat}
    {worker : Worker} (hget : c.workers[i]? = some worker) :
    w.operations.toNat ≤ worker.rounds.toNat ↔
      2 * w.operations.toNat ≤ schedule.count (.turn i) := by
  have hcalls := hfollows.calls i worker hget
  have hworker := hc.workers worker (List.mem_of_getElem? hget)
  constructor
  · intro hdone
    have := hworker.calls_eq hdone
    omega
  · intro hcount
    refine Nat.le_of_not_lt fun hround ↦ ?_
    have := Worker.calls_lt hround
    omega

variable [SharedStack σ UInt64]

theorem turn (hS : Reliable Holds) (hc : c.Fits w Holds k)
    (hfits : w.threads.toNat * w.operations.toNat < 2 ^ 64) (hfollows : c.Follows w schedule)
    (j : Nat) : (c.act w.operations (.turn j)).Follows w (schedule ++ [.turn j]) where
  calls i worker hget := by
    have hcount : (schedule ++ [Action.turn j]).count (.turn i) =
        schedule.count (.turn i) + if j = i then 1 else 0 := by
      rw [List.count_append, List.count_singleton]
      simp
    rw [hcount]
    cases hbefore : c.workers[j]? with
    | none =>
      rw [Crew.act, hbefore] at hget
      have hne : j ≠ i := by
        rintro rfl
        cases hbefore.symm.trans hget
      rw [if_neg hne]
      exact hfollows.calls i worker hget
    | some before =>
      by_cases hround : before.rounds.toNat < w.operations.toNat
      · obtain ⟨next, s, hturn, hcalls, -⟩ := hc.exists_turn hS hfits hbefore hround
        rw [Crew.act, hbefore] at hget
        dsimp only at hget
        rw [hturn, List.getElem?_set] at hget
        by_cases hsame : j = i
        · subst hsame
          rw [if_pos rfl, if_pos (List.getElem?_eq_some_iff.mp hbefore).1] at hget
          obtain rfl : next = worker := Option.some.inj hget
          have hless := Worker.calls_lt hround
          have := hfollows.calls j before hbefore
          rw [if_pos rfl]
          omega
        · rw [if_neg hsame] at hget ⊢
          exact hfollows.calls i worker hget
      · have hdone := Nat.not_lt.mp hround
        rw [Fits.act_turn_of_done c hbefore hdone] at hget
        have hcalls := hfollows.calls i worker hget
        split
        · next hsame =>
          have := (hfollows.done_iff hc (hsame ▸ hbefore)).mp hdone
          omega
        · exact hcalls
  ended i hi := by
    have hended : (c.act w.operations (.turn j)).ended = c.ended := by
      rw [Crew.act]
      split <;> rfl
    rw [hended, hfollows.ended i hi, leavesIn_concat]
    exact ⟨Or.inl, fun h ↦ h.resolve_right fun hleaves ↦ Action.noConfusion hleaves.1⟩

theorem leave (hc : c.Fits w Holds k) (hfollows : c.Follows w schedule) (j : Nat) :
    (c.act w.operations (.leave j)).Follows w (schedule ++ [.leave j]) where
  calls i worker hget := by
    have hworkers : (c.act w.operations (.leave j)).workers = c.workers := by
      rw [Crew.act]
      split
      · rfl
      · split <;> rfl
    have hnone : [Action.leave j].count (.turn i) = 0 := rfl
    rw [List.count_append, hnone]
    exact hfollows.calls i worker (hworkers ▸ hget)
  ended i hi := by
    rw [leavesIn_concat, ← hfollows.ended i hi]
    cases hget : c.workers[j]? with
    | none =>
      rw [Crew.act, hget]
      refine ⟨Or.inl, fun h ↦ h.resolve_right ?_⟩
      rintro ⟨hsame, -⟩
      cases hsame
      rw [List.getElem?_eq_none_iff, hc.length_workers] at hget
      omega
    | some worker =>
      have hworker := hc.workers worker (List.mem_of_getElem? hget)
      have hthread : worker.thread = j + 1 := congrArg (· + 1) (hc.number_eq hget).1
      have hdone := hworker.isDone_iff.trans (hfollows.done_iff hc hget)
      rw [Crew.act, hget]
      dsimp only
      split
      · next hleaves =>
        obtain ⟨hleaves, -⟩ := Bool.and_eq_true_iff.mp hleaves
        rw [List.mem_cons, hthread, Nat.add_left_inj]
        constructor
        · rintro (rfl | hended)
          · exact Or.inr ⟨rfl, hdone.mp hleaves⟩
          · exact Or.inl hended
        · rintro (hended | ⟨hsame, -⟩)
          · exact Or.inr hended
          · cases hsame
            exact Or.inl rfl
      · next hstays =>
        refine ⟨Or.inl, ?_⟩
        rintro (hended | ⟨hsame, hcount⟩)
        · exact hended
        · cases hsame
          rw [hdone.mpr hcount, Bool.true_and, Bool.not_eq_true', Bool.not_eq_false,
            List.contains_iff_mem, hthread] at hstays
          exact hstays

/-- The crew follows every schedule. -/
theorem follow (hS : Reliable Holds) {s : σ} {values : List UInt64}
    (hs : Holds s w.poppers values []) (hfits : w.threads.toNat * w.operations.toNat < 2 ^ 64)
    (schedule : List Action) : ((w.crew s).follow w.operations schedule).Follows w schedule := by
  induction schedule using List.reverseRecOn with
  | nil => exact follows_crew w s
  | append_singleton schedule action ih =>
    have hc := (fits_crew hs).follow hS hfits schedule
    rw [Crew.follow, List.foldl_append]
    cases action with
    | turn j => exact ih.turn hS hc hfits j
    | leave j => exact ih.leave hc j

end Follows

/-- A crew that follows a schedule is over if and only if the schedule is complete. -/
theorem Follows.over_iff (hfollows : c.Follows w schedule) (hc : c.Fits w Holds k) :
    c.Over ↔ w.Completes schedule := by
  constructor
  · intro hover i hi
    rw [← hfollows.ended i hi]
    obtain ⟨worker, hget⟩ : ∃ worker, c.workers[i]? = some worker :=
      ⟨_, List.getElem?_eq_getElem (hc.length_workers.symm ▸ hi)⟩
    have hended := hover worker (List.mem_of_getElem? hget)
    rwa [Worker.thread, (hc.number_eq hget).1] at hended
  · intro hcompletes worker hmem
    exact (hfollows.ended _ (hc.number_lt hmem)).mpr (hcompletes _ (hc.number_lt hmem))

end Crew

end Reclaim.Workload
