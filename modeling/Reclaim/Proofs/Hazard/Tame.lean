import Reclaim.Proofs.Hazard.Seats

/-!
# Tame pops

A pop is tame if no deleter that waits in its registry does anything but free. Step by step it
retires its node, reclaims the registry and answers, gives no command and touches no slot and no
cell until it gives its own slot back.
-/

namespace Reclaim.Hazard

variable {n : Nat} {α : Type} {r : RegistryId} {hold : Hold n}

/-- The deleters that wait in a registry do nothing but free. -/
def World.Plain (w : World n α) (r : RegistryId) : Prop :=
  ∀ entry ∈ (w.limbo r).entries, entry.program = []

instance (w : World n α) (r : RegistryId) : Decidable (w.Plain r) :=
  inferInstanceAs (Decidable (∀ entry ∈ (w.limbo r).entries, entry.program = []))

namespace World.Plain

variable {w v : World n α} {entry : Entry α}

theorem congr (hw : w.Plain r) (hlimbo : v.limbo r = w.limbo r) : v.Plain r := by
  rw [Plain, hlimbo]
  exact hw

theorem start (hw : w.Plain r) (entry : Entry α) : (w.start entry).Plain r :=
  hw.congr (w.limbo_start entry r)

/-- Entries may be added whose deleters do nothing but free. -/
theorem modifyLimbo (hw : w.Plain r) {f : LimboList (Entry α) → LimboList (Entry α)}
    (hf : ∀ entry ∈ (f (w.limbo r)).entries,
      entry ∈ (w.limbo r).entries ∨ entry.program = []) : (w.modifyLimbo r f).Plain r := by
  intro entry hmem
  rcases World.mem_limbo_modifyLimbo hmem with hmem | hmem
  · exact hw entry hmem
  · exact (hf entry hmem).elim (hw entry) id

theorem detachLimbo (w : World n α) (r : RegistryId) : (w.detachLimbo r).2.Plain r := by
  intro entry hmem
  rw [limbo_detachLimbo, if_pos rfl] at hmem
  cases hmem

end World.Plain

/-- What a pop has left to do if all deleters that it runs do nothing but free. -/
inductive TameFrames (r : RegistryId) (hold : Hold n) : List (Frame n α) → Prop
  | retire (value : α) (node : NodeId) : TameFrames r hold [.pop ⟨r, value, hold, .retire node⟩]
  | freed (value : α) : TameFrames r hold [.deleter [], .pop ⟨r, value, hold, .reclaim⟩]
  | reclaim (value : α) : TameFrames r hold [.pop ⟨r, value, hold, .reclaim⟩]
  | sweep (value : α) (sweep : Sweep α) (hregistry : sweep.registry = r)
      (hrest : ∀ entry ∈ sweep.rest, entry.program = []) :
      TameFrames r hold [.sweep sweep, .pop ⟨r, value, hold, .answer⟩]
  | deleter (value : α) (sweep : Sweep α) (hregistry : sweep.registry = r)
      (hrest : ∀ entry ∈ sweep.rest, entry.program = []) :
      TameFrames r hold [.deleter [], .sweep sweep, .pop ⟨r, value, hold, .answer⟩]
  | answer (value : α) : TameFrames r hold [.pop ⟨r, value, hold, .answer⟩]

namespace Machine

/-- A pop is on its way that runs no deleter that does anything but free. -/
structure Tame (r : RegistryId) (hold : Hold n) (m : Machine n α) : Prop where
  frames : TameFrames r hold m.frames
  plain : m.world.Plain r

/-- A tame pop goes on as one, or answers and gives its slot back. -/
theorem Tame.step {m : Machine n α} (hm : m.Tame r hold) :
    (∃ m', m.step = .next m' ∧ m'.Tame r hold ∧ m.world.SameSeats m'.world ∧
      m'.thread = m.thread) ∨
    ∃ value, m.step =
      .done (m.world.giveBack m.thread hold) (.ok (.popped (some value))) := by
  obtain ⟨w, t, frames⟩ := m
  obtain ⟨hframes, hplain⟩ := hm
  have hplain : w.Plain r := hplain
  cases hframes with
  | retire value node =>
    left
    change ∃ m', retire w t r (.ofNode node) [.pop ⟨r, value, hold, .reclaim⟩] = .next m' ∧ _
    unfold retire
    split
    · refine ⟨_, rfl, ⟨.reclaim value, hplain.modifyLimbo ?_⟩,
        w.sameSeats_modifyLimbo r (·.park (.ofNode node)), rfl⟩
      intro entry hmem
      rcases List.mem_cons.mp hmem with rfl | hmem
      · exact Or.inr rfl
      · exact Or.inl hmem
    · exact ⟨_, rfl, ⟨.freed value, hplain.start _⟩, w.sameSeats_start (.ofNode node), rfl⟩
  | freed value => exact Or.inl ⟨_, rfl, ⟨.reclaim value, hplain⟩, .refl w, rfl⟩
  | reclaim value =>
    have hrest : ∀ entry ∈ (w.detachLimbo r).1, entry.program = [] := w.detachLimbo_fst r ▸ hplain
    exact Or.inl ⟨_, rfl, ⟨.sweep value _ rfl hrest, .detachLimbo w r⟩, w.sameSeats_detachLimbo r,
      rfl⟩
  | sweep value sweep hregistry hrest =>
    subst hregistry
    obtain ⟨r, current, rest, freed⟩ := sweep
    cases rest with
    | nil => exact Or.inl ⟨_, rfl, ⟨.answer value, hplain⟩, .refl w, rfl⟩
    | cons entry rest =>
      obtain ⟨hprogram, hrest⟩ := List.forall_mem_cons.mp hrest
      left
      simp only [Machine.step]
      split
      · refine ⟨_, rfl, ⟨.sweep value _ rfl hrest, hplain.modifyLimbo ?_⟩,
          w.sameSeats_modifyLimbo r (·.putBack entry), rfl⟩
        intro other hmem
        rcases List.mem_cons.mp hmem with rfl | hmem
        · exact Or.inr hprogram
        · exact Or.inl hmem
      · rw [hprogram]
        exact ⟨_, rfl, ⟨.deleter value _ rfl hrest, hplain.start _⟩, w.sameSeats_start entry, rfl⟩
  | deleter value sweep hregistry hrest =>
    subst hregistry
    exact Or.inl ⟨_, rfl, ⟨.sweep value _ rfl hrest, hplain.modifyLimbo fun _ ↦ Or.inl⟩,
      w.sameSeats_modifyLimbo sweep.registry (·.countFreed), rfl⟩
  | answer value => exact Or.inr ⟨value, rfl⟩

/-- A tame pop changes slots and cells only when it gives its slot back at its end. -/
theorem Tame.run {m : Machine n α} (hm : m.Tame r hold) :
    ∃ w, m.run.1 = w.giveBack m.thread hold ∧ m.world.SameSeats w ∧ w.Plain r := by
  fun_induction Machine.run m with
  | case1 m world result hstep =>
    rcases hm.step with ⟨m', hnext, -⟩ | ⟨value, hdone⟩
    · cases hstep.symm.trans hnext
    · cases hstep.symm.trans hdone
      exact ⟨m.world, rfl, .refl _, hm.plain⟩
  | case2 m m' hstep ih =>
    rcases hm.step with ⟨m'', hnext, htame, hseats, hthread⟩ | ⟨value, hdone⟩
    · cases hstep.symm.trans hnext
      obtain ⟨w, hrun, hseats', hplain⟩ := ih htame
      exact ⟨w, hthread ▸ hrun, hseats.trans hseats', hplain⟩
    · cases hstep.symm.trans hdone

/-- A tame pop gives no command. -/
theorem Tame.command?_eq {m : Machine n α} (hm : m.Tame r hold) (turn : Turn n α) :
    (Move.mk m .proceed turn).command? = none := by
  obtain ⟨w, t, frames⟩ := m
  obtain ⟨hframes, -⟩ := hm
  cases hframes <;> rfl

/-- So no move of a tame pop breaks or operates on a stack. -/
theorem Tame.trace {m : Machine n α} (hm : m.Tame r hold) (id : StackId) :
    ∀ move ∈ m.trace, ¬ move.Breaks ∧ move.stack? ≠ some id := by
  have quiet {m : Machine n α} (hm : m.Tame r hold) (turn : Turn n α) :
      ¬ (Move.mk m .proceed turn).Breaks ∧ (Move.mk m .proceed turn).stack? ≠ some id := by
    have hcommand := hm.command?_eq turn
    constructor
    · rintro ⟨-, hcalls⟩
      rw [Move.callsOut, hcommand] at hcalls
      cases hcalls
    · intro hstack
      rw [Move.stack?, hcommand] at hstack
      cases hstack
  fun_induction Machine.trace m with
  | case1 => exact List.forall_mem_nil _
  | case2 m world result hstep => exact List.forall_mem_singleton.mpr (quiet hm _)
  | case3 m m' hstep ih =>
    refine List.forall_mem_cons.mpr ⟨quiet hm _, ?_⟩
    rcases hm.step with ⟨m'', hnext, htame, -⟩ | ⟨value, hdone⟩
    · cases hstep.symm.trans hnext
      exact ih htame
    · cases hstep.symm.trans hdone

end Machine

end Reclaim.Hazard
