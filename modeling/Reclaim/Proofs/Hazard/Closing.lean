import Reclaim.Proofs.Hazard.Values

/-!
# The end of a registry

What is parked in a registry at its end is freed, whatever slots publish. The deleters may give
commands of their own, but values are destroyed only when one of them faults. The deleters of nodes
do nothing but free, so where only nodes are parked all of them are freed.
-/

namespace Reclaim.Hazard

variable {n : Nat} {α : Type}

namespace Machine

theorem destroyed_resume (w : World n α) (t : ThreadId) (answer : Answer α)
    (frames : List (Frame n α)) : (resume w t answer frames).world.destroyed = w.destroyed := by
  unfold resume
  split
  · rfl
  · cases answer <;> rfl
  · rfl
  · rfl

/-- A step that does not fault destroys nothing. -/
theorem destroyed_step {m : Machine n α} (hfine : ¬ m.step.Faulted) :
    m.step.world.destroyed = m.world.destroyed := by
  obtain ⟨w, t, frames⟩ := m
  cases frames with
  | nil => rfl
  | cons frame frames =>
    rcases step_values w t frame frames with
      ⟨command, rest, rfl⟩ | ⟨r, value, hold, -, hstep⟩ | ⟨-, -, hcarries⟩
    · change (execute w t command (.deleter rest :: frames)).world.destroyed = w.destroyed
      rcases (executes w t (.deleter rest :: frames) command).values with
        ⟨id, value, stack, -, -, hturn⟩ | ⟨id, -, htakes⟩ | ⟨-, hcarries⟩
      · rw [hturn]
        exact destroyed_resume _ t _ _
      · obtain ⟨stack, node, contents, v, t', r, hold, -, -, hspares, hturn⟩ := htakes
        rw [hturn]
        exact hspares.destroyed
      · exact (hcarries.fine hfine).2
    · rw [hstep, destroyed_resume]
      exact (w.spares_giveBack t hold).destroyed
    · exact (hcarries.fine hfine).2

/-- A command that comes to its end without a fault has destroyed nothing. -/
theorem destroyed_run {m : Machine n α} {answer : Answer α} (hrun : m.run.2 = .ok answer) :
    m.run.1.destroyed = m.world.destroyed := by
  fun_induction run m with
  | case1 m world result hstep =>
    subst hrun
    have hfine : ¬ m.step.Faulted := by
      rw [hstep]
      exact id
    rw [← destroyed_step hfine, hstep]
    rfl
  | case2 m m' hstep ih =>
    have hfine : ¬ m.step.Faulted := by
      rw [hstep]
      exact id
    rw [ih hrun, ← destroyed_step hfine, hstep]
    rfl

end Machine

namespace World

/-- Entries that are freed up to the last take no value with them. -/
theorem destroyed_freeAll {r : RegistryId} {t : ThreadId} {entries : List (Entry α)}
    {w : World n α} (hfreed : (freeAll r t entries w).2 = .ok ()) :
    (freeAll r t entries w).1.destroyed = w.destroyed := by
  induction entries generalizing w with
  | nil => rfl
  | cons entry rest ih =>
    rw [freeAll] at hfreed ⊢
    split at hfreed
    · next v answer hrun =>
      have hdeleter := Machine.destroyed_run (congrArg Prod.snd hrun)
      rw [hrun] at hdeleter
      calc
        (freeAll r t rest v).1.destroyed = v.destroyed := ih hfreed
        _ = (w.start entry).destroyed := hdeleter
        _ = w.destroyed := w.destroyed_start entry
    · cases hfreed

/-- Entries without programs are all freed. -/
theorem freeAll_of_plain (r : RegistryId) (t : ThreadId) {entries : List (Entry α)}
    (hplain : ∀ entry ∈ entries, entry.program = []) (w : World n α) :
    freeAll r t entries w = (entries.foldl start w, .ok ()) := by
  induction entries generalizing w with
  | nil => rfl
  | cons entry rest ih =>
    obtain ⟨hprogram, hrest⟩ := List.forall_mem_cons.mp hplain
    rw [freeAll, Machine.run_deleter_of_nil hprogram]
    exact ih hrest (w.start entry)

/-- The end of a registry destroys nothing unless a deleter faults. -/
theorem destroyed_close {w : World n α} {t : ThreadId} {r : RegistryId}
    (hclosed : (w.close t r).2 = .ok ()) : (w.close t r).1.destroyed = w.destroyed :=
  (destroyed_freeAll hclosed).trans (w.spares_detachLimbo r).destroyed

/-- Where no deleter has a program, everything parked is freed. -/
theorem close_of_plain {w : World n α} {r : RegistryId}
    (hplain : ∀ entry ∈ (w.limbo r).entries, entry.program = []) (t : ThreadId) :
    w.close t r = ((w.limbo r).entries.foldl start (w.detachLimbo r).2, .ok ()) := by
  rw [← w.detachLimbo_fst r] at hplain ⊢
  exact freeAll_of_plain r t hplain _

end World

end Reclaim.Hazard
