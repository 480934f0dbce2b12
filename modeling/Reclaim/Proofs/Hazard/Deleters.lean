import Reclaim.Proofs.Hazard.Clearing
import Reclaim.Proofs.Hazard.Service

/-!
# Deleters on their way

The moves of a command are its own or those of the deleters that it starts. A deleter that meets no
fault comes to its end, and whoever waited for it still waits. What none of its moves changes, it
leaves as it was.
-/

namespace Reclaim.Hazard

variable {n : Nat} {α : Type}

def Frame.isDeleter : Frame n α → Bool
  | .deleter _ => true
  | _ => false

/-- A deleter is on its way. One that has nothing left to do has come to its end. -/
def Machine.inDeleter (m : Machine n α) : Bool :=
  match m.frames with
  | .deleter [] :: outer => outer.any (·.isDeleter)
  | frames => frames.any (·.isDeleter)

namespace Move

/-- The parked entry that a command looks at in a move of its own. -/
def visited? (move : Move n α) : Option (Entry α) :=
  match move.before.inDeleter, move.before.frames with
  | false, .sweep sweep :: _ => sweep.rest.head?
  | _, _ => none

/-- The entry whose deleter a command starts in a move of its own: its address is logged, and its
program is what is to be done next. -/
def opened? (move : Move n α) : Option (Entry α) :=
  match move.before.inDeleter, move.turn with
  | false, .next ⟨world, _, .deleter program :: _⟩ =>
    if world.started = move.before.world.started then none
    else world.started.head?.map fun address ↦ ⟨address, program⟩
  | _, _ => none

theorem visited?_of_inDeleter {move : Move n α} (hmove : move.before.inDeleter = true) :
    move.visited? = none := by
  rw [visited?, hmove]

theorem opened?_of_inDeleter {move : Move n α} (hmove : move.before.inDeleter = true) :
    move.opened? = none := by
  rw [opened?, hmove]

theorem opened?_start {w : World n α} {t : ThreadId} {frames frames' : List (Frame n α)}
    (hown : (⟨w, t, frames⟩ : Machine n α).inDeleter = false) (entry : Entry α) (deed : Deed α) :
    opened? ⟨⟨w, t, frames⟩, deed, .next ⟨w.start entry, t, .deleter entry.program :: frames'⟩⟩ =
      some entry := by
  have hstarted := w.started_start entry
  have hne : (w.start entry).started ≠ w.started := by
    rw [hstarted]
    exact List.cons_ne_self _ _
  rw [opened?, hown]
  refine (if_neg hne).trans ?_
  rw [hstarted]
  rfl

end Move

/-- The deleters leave as it is what can be seen of the world in this way. -/
def DeletersLeave {β : Type} (moves : List (Move n α)) (view : World n α → β) : Prop :=
  ∀ move ∈ moves, move.before.inDeleter → view move.turn.world = view move.before.world

/-- No deleter faults, and none touches the registry. -/
structure GentleOn (r : RegistryId) (moves : List (Move n α)) : Prop where
  faultless : ∀ move ∈ moves, move.before.inDeleter → ¬ move.turn.Faulted
  registry : DeletersLeave moves (·.registryAt? r)

instance {β : Type} [DecidableEq β] (moves : List (Move n α)) (view : World n α → β) :
    Decidable (DeletersLeave moves view) :=
  inferInstanceAs (Decidable (∀ move ∈ moves, move.before.inDeleter → _ = _))

instance [DecidableEq α] (r : RegistryId) (moves : List (Move n α)) :
    Decidable (GentleOn r moves) :=
  have hfields : (∀ move ∈ moves, move.before.inDeleter → ¬ move.turn.Faulted) ∧
      DeletersLeave moves (·.registryAt? r) ↔ GentleOn r moves :=
    ⟨fun ⟨hfaultless, hregistry⟩ ↦ ⟨hfaultless, hregistry⟩,
      fun ⟨hfaultless, hregistry⟩ ↦ ⟨hfaultless, hregistry⟩⟩
  decidable_of_iff _ hfields

theorem GentleOn.of_subset {r : RegistryId} {moves moves' : List (Move n α)}
    (hgentle : GentleOn r moves) (hsub : moves' ⊆ moves) : GentleOn r moves' :=
  ⟨fun move hmem ↦ hgentle.faultless move (hsub hmem),
    fun move hmem ↦ hgentle.registry move (hsub hmem)⟩

/-- What can be seen of the world in this way has nothing to do with what is parked in a registry,
nor with the entries whose deleters are started. -/
structure Aloof {β : Type} (r : RegistryId) (view : World n α → β) : Prop where
  start : ∀ w entry, view (w.start entry) = view w
  limbo : ∀ w f, view (w.modifyLimbo r f) = view w

/-- On its way to the end of its command, a machine comes to another. Between the two it visits and
opens these entries, and of all that is aloof it changes no more than the deleters do. -/
structure Machine.Passes (r : RegistryId) (m : Machine n α) (visited opened : List (Entry α))
    (m' : Machine n α) : Prop where
  run : m.run = m'.run
  subset : m'.trace ⊆ m.trace
  visited : m.trace.filterMap Move.visited? = visited ++ m'.trace.filterMap Move.visited?
  opened : m.trace.filterMap Move.opened? = opened ++ m'.trace.filterMap Move.opened?
  view : ∀ {β : Type} {view : World n α → β}, Aloof r view → DeletersLeave m.trace view →
    view m'.world = view m.world

namespace Machine

variable {r : RegistryId} {m m' m'' : Machine n α}
  {visited visited' opened opened' : List (Entry α)}

theorem Passes.refl (m : Machine n α) : m.Passes r [] [] m :=
  ⟨rfl, List.Subset.refl _, rfl, rfl, fun _ _ ↦ rfl⟩

theorem Passes.trans (hfirst : m.Passes r visited opened m')
    (hsecond : m'.Passes r visited' opened' m'') :
    m.Passes r (visited ++ visited') (opened ++ opened') m'' where
  run := hfirst.run.trans hsecond.run
  subset := List.Subset.trans hsecond.subset hfirst.subset
  visited := by rw [hfirst.visited, hsecond.visited, List.append_assoc]
  opened := by rw [hfirst.opened, hsecond.opened, List.append_assoc]
  view := fun haloof hleave ↦
    (hsecond.view haloof fun move hmem ↦ hleave move (hfirst.subset hmem)).trans
      (hfirst.view haloof hleave)

theorem step_mem_trace (hframes : m.frames ≠ []) : ⟨m, .proceed, m.step⟩ ∈ m.trace := by
  cases hstep : m.step with
  | done world result =>
    rw [trace_of_done hframes hstep, hstep]
    exact List.mem_cons_self
  | next m' =>
    rw [trace_of_next hstep, hstep]
    exact List.mem_cons_self

/-- A step that does not end the command. -/
theorem passes_next (hstep : m.step = .next m')
    (hview : ∀ {β : Type} {view : World n α → β}, Aloof r view →
      (m.inDeleter → view m'.world = view m.world) → view m'.world = view m.world) :
    m.Passes r (Move.visited? ⟨m, .proceed, .next m'⟩).toList
      (Move.opened? ⟨m, .proceed, .next m'⟩).toList m' := by
  have htrace : m.trace = ⟨m, .proceed, .next m'⟩ :: m'.trace := by rw [trace_of_next hstep, hstep]
  refine ⟨run_of_next hstep, ?_, ?_, ?_, fun haloof hleave ↦ hview haloof fun hdeleter ↦ ?_⟩
  · rw [htrace]
    exact List.subset_cons_self _ _
  · rw [htrace, List.filterMap_cons]
    cases Move.visited? ⟨m, .proceed, .next m'⟩ <;> rfl
  · rw [htrace, List.filterMap_cons]
    cases Move.opened? ⟨m, .proceed, .next m'⟩ <;> rfl
  · exact hleave ⟨m, .proceed, .next m'⟩ (htrace ▸ List.mem_cons_self) hdeleter

end Machine

inductive RunsOver (outer : List (Frame n α)) : List (Frame n α) → Prop
  | deleter (rest : List (Command α)) : RunsOver outer (.deleter rest :: outer)
  | cons (frame : Frame n α) {frames : List (Frame n α)} (hframes : RunsOver outer frames) :
      RunsOver outer (frame :: frames)

def Turn.GoesOn (outer : List (Frame n α)) (t : ThreadId) (turn : Turn n α) : Prop :=
  ¬ turn.Faulted → ∃ v frames, turn = .next ⟨v, t, frames⟩ ∧ RunsOver outer frames

namespace RunsOver

variable {outer frames : List (Frame n α)}

theorem any_isDeleter (hframes : RunsOver outer frames) : frames.any (·.isDeleter) = true := by
  induction hframes with
  | deleter rest => rfl
  | cons frame _ ih => rw [List.any_cons, ih, Bool.or_true]

theorem exists_append (hframes : RunsOver outer frames) : ∃ inner, frames = inner ++ outer := by
  induction hframes with
  | deleter rest => exact ⟨[.deleter rest], rfl⟩
  | cons frame _ ih =>
    obtain ⟨inner, rfl⟩ := ih
    exact ⟨frame :: inner, rfl⟩

/-- Until the deleter comes to its end it is on its way. -/
theorem inDeleter (hframes : RunsOver outer frames) (hend : frames ≠ .deleter [] :: outer)
    (w : World n α) (t : ThreadId) : (⟨w, t, frames⟩ : Machine n α).inDeleter = true := by
  cases hframes with
  | deleter rest =>
    cases rest with
    | nil => exact absurd rfl hend
    | cons command rest => rfl
  | cons frame hframes =>
    unfold Machine.inDeleter
    split
    · next hsame =>
      cases hsame
      exact hframes.any_isDeleter
    · exact (hframes.cons frame).any_isDeleter

theorem resume (hframes : RunsOver outer frames) (w : World n α) (t : ThreadId)
    (answer : Answer α) : (Machine.resume w t answer frames).GoesOn outer t := by
  intro _
  cases hframes with
  | deleter rest => exact ⟨_, _, rfl, .deleter rest⟩
  | cons frame hframes => cases frame <;> exact ⟨_, _, rfl, .cons _ hframes⟩

theorem raise (w : World n α) (t : ThreadId) (fault : Fault) :
    (Machine.raise w t frames fault).GoesOn outer t :=
  fun hfaulted ↦ absurd trivial hfaulted

theorem retire (hframes : RunsOver outer frames) (w : World n α) (t : ThreadId) (r : RegistryId)
    (entry : Entry α) : (Machine.retire w t r entry frames).GoesOn outer t := by
  unfold Machine.retire
  split
  · exact hframes.resume _ t .done
  · exact fun _ ↦ ⟨_, _, rfl, .cons _ hframes⟩

theorem reclaim (hframes : RunsOver outer frames) (w : World n α) (t : ThreadId) (r : RegistryId) :
    (Machine.reclaim w t r frames).GoesOn outer t :=
  fun _ ↦ ⟨_, _, rfl, .cons _ hframes⟩

theorem startPop (hframes : RunsOver outer frames) (w : World n α) (t : ThreadId) (id : StackId)
    (stack : Stack) (slot : Handle n) (hold : Hold n) :
    (Machine.startPop w t id stack slot hold frames).GoesOn outer t := by
  unfold Machine.startPop
  split
  · exact raise _ t _
  · split
    · exact hframes.resume _ t _
    · exact fun _ ↦ ⟨_, _, rfl, .cons _ hframes⟩

theorem execute (hframes : RunsOver outer frames) {w : World n α} {t : ThreadId}
    {command : Command α} {turn : Turn n α} (h : Machine.Executes w t frames command turn) :
    turn.GoesOn outer t := by
  cases h with
  | faulted => exact raise w t _
  | unseated => exact raise _ t _
  | lent => exact hframes.startPop w t _ _ _ _
  | seated => exact hframes.startPop _ t _ _ _ _
  | retired => exact hframes.retire _ t _ _
  | reclaimed => exact hframes.reclaim w t _
  | _ => exact hframes.resume _ t _

/-- Until the deleter comes to its end it goes on with every step. -/
theorem step (hframes : RunsOver outer frames) (hend : frames ≠ .deleter [] :: outer)
    (w : World n α) (t : ThreadId) : (Machine.step ⟨w, t, frames⟩).GoesOn outer t := by
  cases hframes with
  | deleter rest =>
    cases rest with
    | nil => exact absurd rfl hend
    | cons command rest => exact (RunsOver.deleter rest).execute (Machine.executes w t _ command)
  | cons frame hframes =>
    cases frame with
    | deleter rest =>
      cases rest with
      | nil => exact hframes.resume w t .done
      | cons command rest =>
        exact (hframes.cons (.deleter rest)).execute (Machine.executes w t _ command)
    | sweep sweep =>
      obtain ⟨r, current, entries, freed⟩ := sweep
      cases entries with
      | nil => exact hframes.resume w t (.reclaimed freed)
      | cons entry rest =>
        dsimp only [Machine.step]
        split
        · exact fun _ ↦ ⟨_, _, rfl, .cons _ hframes⟩
        · exact fun _ ↦ ⟨_, _, rfl, .cons _ (.cons _ hframes)⟩
    | pop popping =>
      obtain ⟨r, value, hold, stage⟩ := popping
      cases stage with
      | retire node => exact (hframes.cons (.pop ⟨r, value, hold, .reclaim⟩)).retire w t r _
      | reclaim => exact (hframes.cons (.pop ⟨r, value, hold, .answer⟩)).reclaim w t r
      | answer => exact hframes.resume _ t _

end RunsOver

namespace Machine

variable {m : Machine n α} {outer : List (Frame n α)} {r : RegistryId}

/-- Until a deleter that meets no fault comes to its end it goes on. -/
theorem exists_next (hframes : RunsOver outer m.frames) (hend : m.frames ≠ .deleter [] :: outer)
    (hgentle : GentleOn r m.trace) : ∃ v frames, m.step = .next ⟨v, m.thread, frames⟩ ∧
      RunsOver outer frames ∧ v.registryAt? r = m.world.registryAt? r := by
  have hne : m.frames ≠ [] := by
    intro hnil
    rw [hnil] at hframes
    cases hframes
  have hmem := step_mem_trace hne
  have hdeleter := hframes.inDeleter hend m.world m.thread
  obtain ⟨v, frames, hnext, hframes'⟩ :=
    hframes.step hend m.world m.thread (hgentle.faultless _ hmem hdeleter)
  refine ⟨v, frames, hnext, hframes', ?_⟩
  have hregistry : m.step.world.registryAt? r = m.world.registryAt? r :=
    hgentle.registry _ hmem hdeleter
  rw [← hregistry, show m.step = _ from hnext]
  rfl

/-- A deleter that meets no fault comes to its end, and leaves alone the registry that it does not
touch. -/
theorem exists_deleted {m : Machine n α} (hframes : RunsOver outer m.frames)
    (hgentle : GentleOn r m.trace) :
    ∃ v, m.Passes r [] [] ⟨v, m.thread, .deleter [] :: outer⟩ ∧
      v.registryAt? r = m.world.registryAt? r := by
  by_cases hend : m.frames = .deleter [] :: outer
  · obtain ⟨w, t, frames⟩ := m
    obtain rfl : frames = .deleter [] :: outer := hend
    exact ⟨w, .refl _, rfl⟩
  -- The deleter may start others, so its frames do not count down. What it has to do still shrinks.
  obtain ⟨u, frames, hnext, hframes', hregistry⟩ := exists_next hframes hend hgentle
  have hdeleter := hframes.inDeleter hend m.world m.thread
  have hfirst : m.Passes r _ _ ⟨u, m.thread, frames⟩ :=
    passes_next hnext fun _ hleave ↦ hleave hdeleter
  rw [Move.visited?_of_inDeleter hdeleter, Move.opened?_of_inDeleter hdeleter] at hfirst
  obtain ⟨v, hpasses, hregistry'⟩ := exists_deleted hframes' (hgentle.of_subset hfirst.subset)
  exact ⟨v, hfirst.trans hpasses, hregistry'.trans hregistry⟩
termination_by (m.cost, m.work)
decreasing_by
  rcases step_decreases hnext with hless | ⟨hsame, hless⟩
  · exact Prod.Lex.left _ _ hless
  · exact Prod.Lex.right' _ hsame hless

end Machine

end Reclaim.Hazard
