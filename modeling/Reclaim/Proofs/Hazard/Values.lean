import Reclaim.Proofs.Hazard.LifeCycle

/-!
# What a turn does with values

A value is linked in a stack, then held by the pop that took it out, until the pop hands it out or a
fault destroys it; dropping a stack destroys the values that are linked. Here is what becomes of
values in a command, in a step and in a deed. To retire, park, sweep and free is to deal with nodes
whose values are gone, so these touch no value.
-/

namespace Reclaim.Hazard

variable {n : Nat} {α : Type}

def Event.dropped? : Event α → Option α
  | .dropped value => some value
  | _ => none

def Answer.value? : Answer α → Option α
  | .popped value => value
  | _ => none

/-- The value that a pop of a deleter is noted to have answered with. -/
def Event.answered? : Event α → Option α
  | .answered answer => answer.value?
  | _ => none

/-- The value that a pop at top level answers with at the end of this turn. -/
def Turn.answered? : Turn n α → Option α
  | .done _ (.ok answer) => answer.value?
  | _ => none

def Frame.value? : Frame n α → Option α
  | .pop popping => some popping.value
  | _ => none

def valuesOf (frames : List (Frame n α)) : List α := frames.filterMap Frame.value?

def outermost? : List (Frame n α) → Option α
  | [] => none
  | [frame] => frame.value?
  | _ :: frames => outermost? frames

theorem outermost?_cons {frames : List (Frame n α)} {value : α}
    (houter : outermost? frames = some value) (frame : Frame n α) :
    outermost? (frame :: frames) = some value := by
  cases frames with
  | nil => cases houter
  | cons next frames => exact houter

/-- A frame that holds no value is not the outermost pop. -/
theorem outermost?_of_cons {frame : Frame n α} {frames : List (Frame n α)} {value : α}
    (houter : outermost? (frame :: frames) = some value) (hvalue : frame.value? = none) :
    outermost? frames = some value := by
  cases frames with
  | nil => cases hvalue.symm.trans houter
  | cons next frames => exact houter

theorem outermost?_congr {frame frame' : Frame n α} (hvalue : frame'.value? = frame.value?)
    (frames : List (Frame n α)) : outermost? (frame' :: frames) = outermost? (frame :: frames) := by
  cases frames with
  | nil => exact hvalue
  | cons next frames => rfl

/-- Every pop was called at top level or by a deleter. -/
def Called : List (Frame n α) → Prop
  | [] => True
  | .pop _ :: frames =>
    (frames = [] ∨ ∃ rest outer, frames = .deleter rest :: outer) ∧ Called frames
  | _ :: frames => Called frames

namespace World

variable {w v u : World n α}

/-- The values destroyed so far, the latest first. -/
def destroyed (w : World n α) : List α := w.log.filterMap Event.dropped?

/-- The values that pops of deleters answered with so far, the latest first. -/
def answered (w : World n α) : List α := w.log.filterMap Event.answered?

def valuesIn (w : World n α) (id : StackId) : List α := (w.links id).map fun link ↦ link.2.value

/-- From `w` to `v` no value was moved, destroyed or answered with. -/
structure Spares (w v : World n α) : Prop where
  «stacks» : v.stacks = w.stacks
  heap : v.heap = w.heap
  destroyed : v.destroyed = w.destroyed
  answered : v.answered = w.answered

namespace Spares

theorem refl (w : World n α) : w.Spares w := ⟨rfl, rfl, rfl, rfl⟩

theorem trans (hwv : w.Spares v) (hvu : v.Spares u) : w.Spares u where
  «stacks» := hvu.stacks.trans hwv.stacks
  heap := hvu.heap.trans hwv.heap
  destroyed := hvu.destroyed.trans hwv.destroyed
  answered := hvu.answered.trans hwv.answered

theorem stack? (hspares : w.Spares v) (id : StackId) : v.stack? id = w.stack? id := by
  rw [World.stack?, hspares.stacks, World.stack?]

theorem top? (hspares : w.Spares v) (stack : Stack) : v.top? stack = w.top? stack := by
  rw [World.top?, hspares.heap, World.top?]

theorem links (hspares : w.Spares v) (id : StackId) : v.links id = w.links id :=
  links_congr hspares.stacks hspares.heap id

theorem setHead (hspares : w.Spares v) (id : StackId) (head : Option NodeId) :
    (w.setHead id head).Spares (v.setHead id head) where
  «stacks» := congrArg (List.modify · id _) hspares.stacks
  heap := hspares.heap
  destroyed := hspares.destroyed
  answered := hspares.answered

end Spares

theorem spares_modifyRegistry (w : World n α) (r : RegistryId)
    (f : Registry n (Entry α) → Registry n (Entry α)) : w.Spares (w.modifyRegistry r f) :=
  ⟨rfl, rfl, rfl, rfl⟩

theorem spares_modifyThread (w : World n α) (t : ThreadId) (f : Thread n → Thread n) :
    w.Spares (w.modifyThread t f) := ⟨rfl, rfl, rfl, rfl⟩

theorem spares_claimSlot {r : RegistryId} {t : ThreadId} {slot : Handle n}
    (hclaim : w.claimSlot r t = some (slot, v)) : w.Spares v := by
  simp only [claimSlot, Option.bind_eq_bind, Option.bind_eq_some_iff, Option.pure_def,
    Option.some.injEq, Prod.mk.injEq] at hclaim
  obtain ⟨registry, -, claimed, -, -, rfl⟩ := hclaim
  exact spares_modifyRegistry _ _ _

theorem Seating.spares {t : ThreadId} {key : CellKey} {r : RegistryId} {slot : Handle n}
    {hold : Hold n} (hseating : w.Seating t key r slot v hold) : w.Spares v := by
  cases hseating with
  | kept => exact w.spares_modifyThread t _
  | claimed _ _ hclaim => exact (spares_claimSlot hclaim).trans (spares_modifyThread _ t _)
  | once _ hclaim => exact spares_claimSlot hclaim

theorem spares_giveBack (w : World n α) (t : ThreadId) (hold : Hold n) :
    w.Spares (w.giveBack t hold) := by
  cases hold with
  | lent => exact .refl w
  | cell key => exact spares_modifyThread _ _ _
  | temporary slot => exact spares_modifyRegistry _ _ _

theorem spares_note (w : World n α) {answer : Answer α} (hanswer : answer.value? = none) :
    w.Spares (w.note answer) := by
  cases answer with
  | popped value =>
    obtain rfl : value = none := hanswer
    exact ⟨rfl, rfl, rfl, rfl⟩
  | _ => exact ⟨rfl, rfl, rfl, rfl⟩

theorem spares_detachLimbo (w : World n α) (r : RegistryId) : w.Spares (w.detachLimbo r).2 := by
  unfold detachLimbo
  split
  · exact .refl w
  · exact spares_modifyRegistry _ _ _

theorem destroyed_start (w : World n α) (entry : Entry α) :
    (w.start entry).destroyed = w.destroyed := by
  rw [start]
  split <;> rfl

theorem answered_start (w : World n α) (entry : Entry α) :
    (w.start entry).answered = w.answered := by
  rw [start]
  split <;> rfl

/-- A fault destroys the values that pops hold, from the innermost outwards. -/
theorem destroyed_unwind (w : World n α) (t : ThreadId) (frames : List (Frame n α)) :
    (w.unwind t frames).stacks = w.stacks ∧
      (w.unwind t frames).destroyed = (valuesOf frames).reverse ++ w.destroyed ∧
      (w.unwind t frames).answered = w.answered := by
  induction frames generalizing w with
  | nil => exact ⟨rfl, rfl, rfl⟩
  | cons frame frames ih =>
    cases frame with
    | deleter rest => exact ih w
    | sweep sweep => exact ih _
    | pop popping =>
      have hspares := (w.record (.dropped popping.value)).spares_giveBack t popping.hold
      obtain ⟨hstacks, hdestroyed, hanswered⟩ :=
        ih ((w.record (.dropped popping.value)).giveBack t popping.hold)
      refine ⟨hstacks.trans hspares.stacks, hdestroyed.trans ?_, hanswered.trans hspares.answered⟩
      rw [hspares.destroyed]
      change _ = (popping.value :: valuesOf frames).reverse ++ w.destroyed
      rw [List.reverse_cons, List.append_assoc]
      rfl

end World

/-! ## Turns that leave the values where they are -/

/-- A turn touches no stack, and pops keep the values that they hold, unless a fault destroys all of
them. -/
structure Turn.Carries (w : World n α) (frames : List (Frame n α)) (turn : Turn n α) : Prop where
  «stacks» : turn.world.stacks = w.stacks
  answered : turn.answered?.toList ++ turn.world.answered = w.answered
  called : Called frames → Called turn.frames
  outermost : ∀ value, outermost? frames = some value → ¬ turn.Faulted →
    ∃ m, turn = .next m ∧ outermost? m.frames = some value
  fine : ¬ turn.Faulted → valuesOf turn.frames = valuesOf frames ∧
    turn.world.destroyed = w.destroyed
  faulted : turn.Faulted → turn.world.destroyed = (valuesOf frames).reverse ++ w.destroyed

/-- A turn takes the top value out of a stack for a pop to hold. -/
def Turn.Takes (w : World n α) (frames : List (Frame n α)) (id : StackId) (turn : Turn n α) :
    Prop :=
  ∃ stack node contents v t r hold, w.stack? id = some stack ∧
    w.top? stack = some (node, contents) ∧ (w.setHead id contents.next).Spares v ∧
    turn = .next ⟨v, t, .pop ⟨r, contents.value, hold, .retire node⟩ :: frames⟩

namespace Turn

variable {w v : World n α} {frames : List (Frame n α)} {turn : Turn n α} {id : StackId}

theorem Carries.spared (hspares : w.Spares v) (hcarries : Carries v frames turn) :
    Carries w frames turn where
  «stacks» := hcarries.stacks.trans hspares.stacks
  answered := hcarries.answered.trans hspares.answered
  called := hcarries.called
  outermost := hcarries.outermost
  fine hfine := by
    rw [← hspares.destroyed]
    exact hcarries.fine hfine
  faulted hfaulted := by
    rw [← hspares.destroyed]
    exact hcarries.faulted hfaulted

theorem Takes.spared (hspares : w.Spares v) (htakes : Takes v frames id turn) :
    Takes w frames id turn := by
  obtain ⟨stack, node, contents, u, t, r, hold, hstack, htop, hafter, hturn⟩ := htakes
  refine ⟨stack, node, contents, u, t, r, hold, ?_, ?_, (hspares.setHead id _).trans hafter, hturn⟩
  · rw [← hspares.stack?, hstack]
  · rw [← hspares.top?, htop]

end Turn

namespace Machine

variable {w : World n α} {frames : List (Frame n α)}

theorem spares_resume (w : World n α) (t : ThreadId) {answer : Answer α}
    (hanswer : answer.value? = none) (frames : List (Frame n α)) :
    w.Spares (resume w t answer frames).world := by
  unfold resume
  split
  · exact .refl w
  · exact w.spares_note hanswer
  · exact w.spares_modifyRegistry _ _
  · exact .refl w

theorem answered?_resume (w : World n α) (t : ThreadId) {answer : Answer α}
    (hanswer : answer.value? = none) (frames : List (Frame n α)) :
    (resume w t answer frames).answered? = none := by
  unfold resume
  split
  · exact hanswer
  · rfl
  · rfl
  · rfl

theorem valuesOf_resume (w : World n α) (t : ThreadId) (answer : Answer α)
    (frames : List (Frame n α)) : valuesOf (resume w t answer frames).frames = valuesOf frames := by
  unfold resume
  split <;> rfl

theorem called_resume (w : World n α) (t : ThreadId) (answer : Answer α)
    {frames : List (Frame n α)} (hcalled : Called frames) :
    Called (resume w t answer frames).frames := by
  unfold resume
  split <;> exact hcalled

theorem outermost_resume (w : World n α) (t : ThreadId) (answer : Answer α)
    {frames : List (Frame n α)} {value : α} (houter : outermost? frames = some value) :
    ∃ m, resume w t answer frames = .next m ∧ outermost? m.frames = some value := by
  unfold resume
  split
  · cases houter
  · exact ⟨_, rfl, houter⟩
  · next frames => exact ⟨_, rfl, (outermost?_congr (by rfl) frames).trans houter⟩
  · exact ⟨_, rfl, houter⟩

theorem carries_resume (w : World n α) (t : ThreadId) {answer : Answer α}
    (hanswer : answer.value? = none) (frames : List (Frame n α)) :
    (resume w t answer frames).Carries w frames where
  «stacks» := (spares_resume w t hanswer frames).stacks
  answered := by
    rw [answered?_resume w t hanswer frames]
    exact (spares_resume w t hanswer frames).answered
  called := called_resume w t answer
  outermost _ houter _ := outermost_resume w t answer houter
  fine _ := ⟨valuesOf_resume w t answer frames, (spares_resume w t hanswer frames).destroyed⟩
  faulted hfaulted := absurd hfaulted (not_faulted_resume w t answer frames)

theorem carries_raise (w : World n α) (t : ThreadId) (frames : List (Frame n α)) (fault : Fault) :
    (raise w t frames fault).Carries w frames where
  «stacks» := (w.destroyed_unwind t frames).1
  answered := (w.destroyed_unwind t frames).2.2
  called _ := trivial
  outermost _ _ hfine := absurd trivial hfine
  fine hfine := absurd trivial hfine
  faulted _ := (w.destroyed_unwind t frames).2.1

theorem carries_retire (w : World n α) (t : ThreadId) (r : RegistryId) (entry : Entry α)
    (frames : List (Frame n α)) : (retire w t r entry frames).Carries w frames := by
  unfold retire
  split
  · exact (carries_resume _ t rfl frames).spared (w.spares_modifyRegistry _ _)
  · exact ⟨w.stacks_start entry, w.answered_start entry, id,
      fun _ houter _ ↦ ⟨_, rfl, outermost?_cons houter _⟩,
      fun _ ↦ ⟨rfl, w.destroyed_start entry⟩, fun h ↦ h.elim⟩

theorem carries_reclaim (w : World n α) (t : ThreadId) (r : RegistryId)
    (frames : List (Frame n α)) : (reclaim w t r frames).Carries w frames where
  «stacks» := (w.spares_detachLimbo r).stacks
  answered := (w.spares_detachLimbo r).answered
  called := id
  outermost _ houter _ := ⟨_, rfl, outermost?_cons houter _⟩
  fine _ := ⟨rfl, (w.spares_detachLimbo r).destroyed⟩
  faulted hfaulted := hfaulted.elim

/-- With a slot of the stack's registry a pop finds nothing, or takes the top value out. -/
theorem startPop_of_eq {id : StackId} {stack : Stack} (hstack : w.stack? id = some stack)
    {slot : Handle n} (hregistry : slot.registry = stack.registry) (t : ThreadId) (hold : Hold n)
    (frames : List (Frame n α)) :
    (w.top? stack = none ∧ ∃ v, w.Spares v ∧
      startPop w t id stack slot hold frames = resume v t (.popped none) frames) ∨
    (startPop w t id stack slot hold frames).Takes w frames id := by
  unfold startPop
  rw [if_neg (not_not_intro hregistry)]
  split
  · next htop =>
    have hspares := (w.spares_modifyRegistry slot.registry (·.publish slot.index none)).trans
      (World.spares_giveBack _ t hold)
    exact Or.inl ⟨htop, _, hspares, rfl⟩
  · next node contents htop =>
    refine Or.inr ⟨stack, node, contents, _, t, stack.registry, hold, hstack, htop, ?_, rfl⟩
    exact ⟨rfl, rfl, rfl, rfl⟩

theorem startPop_cases {id : StackId} {stack : Stack} (hstack : w.stack? id = some stack)
    (t : ThreadId) (slot : Handle n) (hold : Hold n) (frames : List (Frame n α)) :
    (startPop w t id stack slot hold frames).Carries w frames ∨
      (startPop w t id stack slot hold frames).Takes w frames id := by
  by_cases hregistry : slot.registry = stack.registry
  · rcases startPop_of_eq hstack hregistry t hold frames with ⟨-, v, hspares, hturn⟩ | htakes
    · left
      rw [hturn]
      exact (carries_resume v t rfl frames).spared hspares
    · exact Or.inr htakes
  · left
    unfold startPop
    rw [if_pos hregistry]
    exact (carries_raise _ t frames _).spared (w.spares_giveBack t hold)

end Machine

def Command.pops? : Command α → Option StackId
  | .popUsing id _ | .pop _ id => some id
  | _ => none

def Command.pushes? : Command α → Option (StackId × α)
  | .push id value => some (id, value)
  | _ => none

namespace Machine

theorem execute_push {w : World n α} {id : StackId} {stack : Stack}
    (hstack : w.stack? id = some stack) (t : ThreadId) (value : α) (frames : List (Frame n α)) :
    execute w t (.push id value) frames =
      resume (w.push id stack value).2 t (.pushed w.heap.size) frames := by
  simp only [execute, hstack]
  rfl

/-- A command that pushes is refused if the stack is not there. -/
theorem stack?_of_refuses {w : World n α} {t : ThreadId} {command : Command α}
    (hrefuses : w.Refuses t command) {id : StackId} {value : α}
    (hpushes : command.pushes? = some (id, value)) : w.stack? id = none := by
  cases command with
  | push s pushed =>
    cases hpushes
    exact hrefuses
  | _ => cases hpushes

/-- A command on a stack that is there pushes a value or may take one out; no other command does
anything with values. -/
theorem Executes.values {w : World n α} {t : ThreadId} {frames : List (Frame n α)}
    {command : Command α} {turn : Turn n α} (h : Executes w t frames command turn) :
    (∃ id value stack, command.pushes? = some (id, value) ∧ w.stack? id = some stack ∧
      turn = resume (w.push id stack value).2 t (.pushed w.heap.size) frames) ∨
    (∃ id, command.pops? = some id ∧ turn.Takes w frames id) ∨
    (∀ id value, command.pushes? = some (id, value) → w.stack? id = none) ∧
      turn.Carries w frames := by
  have carried (hpushes : command.pushes? = none) (hcarries : turn.Carries w frames) :
      (∀ id value, command.pushes? = some (id, value) → w.stack? id = none) ∧
        turn.Carries w frames := by
    refine ⟨fun id value hpushed ↦ ?_, hcarries⟩
    rw [hpushes] at hpushed
    cases hpushed
  have answered {v : World n α} (hspares : w.Spares v) {answer : Answer α}
      (hanswer : answer.value? = none) : (resume v t answer frames).Carries w frames :=
    (carries_resume v t hanswer frames).spared hspares
  cases h with
  | refused hrefuses =>
    exact Or.inr (Or.inr ⟨fun _ _ ↦ stack?_of_refuses hrefuses, answered (.refl w) rfl⟩)
  | faulted hfaults =>
    exact Or.inr (Or.inr (carried (by cases hfaults <;> rfl) (carries_raise w t frames _)))
  | exhausted => exact Or.inr (Or.inr (carried rfl (answered (.refl w) rfl)))
  | @claimed _ _ slot v hcommand hclaim =>
    have hadded : v.Spares (v.addHandle slot).2 := ⟨rfl, rfl, rfl, rfl⟩
    have hpushes : command.pushes? = none := by rcases hcommand with rfl | rfl <;> rfl
    exact Or.inr (Or.inr (carried hpushes
      (answered ((World.spares_claimSlot hclaim).trans hadded) rfl)))
  | released => exact Or.inr (Or.inr (carried rfl (answered (by exact ⟨rfl, rfl, rfl, rfl⟩) rfl)))
  | published => exact Or.inr (Or.inr (carried rfl (answered (w.spares_modifyRegistry _ _) rfl)))
  | @pushed id stack hstack value => exact Or.inl ⟨id, value, stack, rfl, hstack, rfl⟩
  | @lent id stack h slot hstack =>
    rcases startPop_cases hstack t slot .lent frames with hcarries | htakes
    · exact Or.inr (Or.inr (carried rfl hcarries))
    · exact Or.inr (Or.inl ⟨id, rfl, htakes⟩)
  | @seated key id stack slot v hold hstack hseating =>
    have hspares := hseating.spares
    rcases startPop_cases ((hspares.stack? id).trans hstack) t slot hold frames with
      hcarries | htakes
    · exact Or.inr (Or.inr (carried rfl (hcarries.spared hspares)))
    · exact Or.inr (Or.inl ⟨id, rfl, htakes.spared hspares⟩)
  | unseated =>
    exact Or.inr (Or.inr (carried rfl
      ((carries_raise _ t frames _).spared (w.spares_modifyThread t _))))
  | vacated => exact Or.inr (Or.inr (carried rfl (answered (by exact ⟨rfl, rfl, rfl, rfl⟩) rfl)))
  | vacant => exact Or.inr (Or.inr (carried rfl (answered (w.spares_modifyThread t _) rfl)))
  | destroyed => exact Or.inr (Or.inr (carried rfl (answered (.refl w) rfl)))
  | @retired r o object =>
    have hspares : w.Spares (w.markRetired o) := ⟨rfl, rfl, rfl, rfl⟩
    exact Or.inr (Or.inr (carried rfl ((carries_retire _ t r _ frames).spared hspares)))
  | @reclaimed r => exact Or.inr (Or.inr (carried rfl (carries_reclaim w t r frames)))

end Machine

/-! ## Steps and deeds -/

/-- A step carries out a command of a deleter, or hands out the value that the innermost pop holds,
or leaves all values where they are. -/
theorem Machine.step_values (w : World n α) (t : ThreadId) (frame : Frame n α)
    (frames : List (Frame n α)) :
    (∃ command rest, frame = .deleter (command :: rest)) ∨
    (∃ r value hold, frame = .pop ⟨r, value, hold, .answer⟩ ∧
      step ⟨w, t, frame :: frames⟩ =
        resume (w.giveBack t hold) t (.popped (some value)) frames) ∨
    (∀ command rest, frame ≠ .deleter (command :: rest)) ∧
      (∀ r value hold, frame ≠ .pop ⟨r, value, hold, .answer⟩) ∧
      (step ⟨w, t, frame :: frames⟩).Carries w (frame :: frames) := by
  have same {outer : List (Frame n α)} {turn : Turn n α} (hcarries : turn.Carries w outer)
      (hvalues : valuesOf outer = valuesOf (frame :: frames))
      (hcalled : Called (frame :: frames) → Called outer)
      (houter : ∀ value, outermost? (frame :: frames) = some value →
        outermost? outer = some value) : turn.Carries w (frame :: frames) := by
    obtain ⟨hstacks, hanswered, houter', houtermost, hfine, hfaulted⟩ := hcarries
    rw [hvalues] at hfine hfaulted
    exact ⟨hstacks, hanswered, houter' ∘ hcalled, fun value hvalue ↦ houtermost value
      (houter value hvalue), hfine, hfaulted⟩
  cases frame with
  | deleter program =>
    cases program with
    | nil =>
      exact Or.inr (Or.inr ⟨nofun, nofun, same (carries_resume w t rfl frames) rfl id
        fun _ houter ↦ outermost?_of_cons houter rfl⟩)
    | cons command rest => exact Or.inl ⟨command, rest, rfl⟩
  | sweep sweep =>
    refine Or.inr (Or.inr ⟨nofun, nofun, ?_⟩)
    obtain ⟨r, current, rest, freed⟩ := sweep
    cases rest with
    | nil =>
      exact same (carries_resume w t rfl frames) rfl id
        fun _ houter ↦ outermost?_of_cons houter rfl
    | cons entry rest =>
      dsimp only [step]
      split
      · exact ⟨rfl, rfl, id,
          fun _ houter _ ↦ ⟨_, rfl, (outermost?_congr (by rfl) frames).trans houter⟩,
          fun _ ↦ ⟨rfl, rfl⟩, fun h ↦ h.elim⟩
      · exact ⟨w.stacks_start entry, w.answered_start entry, id,
          fun _ houter _ ↦ ⟨_, rfl,
            outermost?_cons ((outermost?_congr (by rfl) frames).trans houter) _⟩,
          fun _ ↦ ⟨rfl, w.destroyed_start entry⟩, fun h ↦ h.elim⟩
  | pop popping =>
    obtain ⟨r, value, hold, stage⟩ := popping
    cases stage with
    | retire node =>
      exact Or.inr (Or.inr ⟨nofun, nofun, same (carries_retire w t r (.ofNode node)
        (.pop ⟨r, value, hold, .reclaim⟩ :: frames)) rfl id
        fun _ ↦ (outermost?_congr (by rfl) frames).trans⟩)
    | reclaim =>
      exact Or.inr (Or.inr ⟨nofun, nofun, same (carries_reclaim w t r
        (.pop ⟨r, value, hold, .answer⟩ :: frames)) rfl id
        fun _ ↦ (outermost?_congr (by rfl) frames).trans⟩)
    | answer => exact Or.inr (Or.inl ⟨r, value, hold, rfl, rfl⟩)

namespace World

theorem log_foldl_releaseSlot (slots : List (Handle n)) (w : World n α) :
    (slots.foldl releaseSlot w).log = w.log := by
  induction slots generalizing w with
  | nil => rfl
  | cons slot rest ih => exact ih (w.releaseSlot slot)

theorem spares_releaseHandles (w : World n α) (t : ThreadId) :
    w.Spares (w.releaseHandles (·.thread = t)) where
  «stacks» := (w.aside_releaseHandles t).stacks
  heap := (w.aside_releaseHandles t).heap
  destroyed := congrArg (List.filterMap Event.dropped?) (log_foldl_releaseSlot _ w)
  answered := congrArg (List.filterMap Event.answered?) (log_foldl_releaseSlot _ w)

theorem spares_destroyCell (w : World n α) (t : ThreadId) (key : CellKey) :
    w.Spares (w.destroyCell t key) := by
  unfold destroyCell
  split
  · exact ⟨rfl, rfl, rfl, rfl⟩
  · exact ⟨rfl, rfl, rfl, rfl⟩
  · exact .refl w

/-- Between commands values are dealt with by commands and by dropping stacks only. -/
theorem perform_values [Destructor α] {w : World n α} {deed : Deed α} {turn : Turn n α}
    (hperform : w.perform deed = some turn) :
    (∃ t command, deed = .issue t command ∧ turn = Machine.execute w t command []) ∨
    (∃ id, deed = .dropStack id ∧
      turn = .done (w.dropStack id).1 ((w.dropStack id).2.map fun _ ↦ .done)) ∨
    ∃ v, turn = .done v (.ok .done) ∧ v.links = w.links ∧ v.destroyed = w.destroyed ∧
      v.answered = w.answered ∧ (∀ t command, deed ≠ .issue t command) ∧
      ∀ id, deed ≠ .dropStack id := by
  have spared {v : World n α} (hspares : w.Spares v) :
      v.links = w.links ∧ v.destroyed = w.destroyed ∧ v.answered = w.answered :=
    ⟨funext hspares.links, hspares.destroyed, hspares.answered⟩
  cases deed with
  | addRegistry =>
    cases hperform
    exact Or.inr (Or.inr ⟨_, rfl, rfl, rfl, rfl, nofun, nofun⟩)
  | addStack r =>
    obtain ⟨-, hturn⟩ := Option.ite_none_right_eq_some.mp hperform
    cases hturn
    exact Or.inr (Or.inr ⟨_, rfl, funext (w.links_addStack r), rfl, rfl, nofun, nofun⟩)
  | addObject program =>
    cases hperform
    exact Or.inr (Or.inr ⟨_, rfl, rfl, rfl, rfl, nofun, nofun⟩)
  | spawn =>
    cases hperform
    exact Or.inr (Or.inr ⟨_, rfl, rfl, rfl, rfl, nofun, nofun⟩)
  | issue t command =>
    cases hperform
    exact Or.inl ⟨t, command, rfl, rfl⟩
  | proceed => cases hperform
  | letGo t =>
    cases hperform
    obtain ⟨hlinks, hdestroyed, hanswered⟩ := spared (w.spares_releaseHandles t)
    exact Or.inr (Or.inr ⟨_, rfl, hlinks, hdestroyed, hanswered, nofun, nofun⟩)
  | destroyCell t key =>
    cases hperform
    obtain ⟨hlinks, hdestroyed, hanswered⟩ := spared (w.spares_destroyCell t key)
    exact Or.inr (Or.inr ⟨_, rfl, hlinks, hdestroyed, hanswered, nofun, nofun⟩)
  | finish t =>
    cases hperform
    obtain ⟨hlinks, hdestroyed, hanswered⟩ :=
      spared (w.spares_modifyThread t ({ · with ended := true }))
    exact Or.inr (Or.inr ⟨_, rfl, hlinks, hdestroyed, hanswered, nofun, nofun⟩)
  | dropStack id =>
    cases hperform
    exact Or.inr (Or.inl ⟨id, rfl, rfl⟩)

end World

namespace Machine

theorem called_execute (w : World n α) (t : ThreadId) (command : Command α)
    {frames : List (Frame n α)} (hcalled : Called frames)
    (hcaller : frames = [] ∨ ∃ rest outer, frames = .deleter rest :: outer) :
    Called (execute w t command frames).frames := by
  rcases (executes w t frames command).values with
    ⟨id, value, stack, -, -, hexecute⟩ | ⟨id, -, htakes⟩ | ⟨-, hcarries⟩
  · rw [hexecute]
    exact called_resume _ t _ hcalled
  · obtain ⟨stack, node, contents, v, t', r, hold, -, -, -, hturn⟩ := htakes
    rw [hturn]
    exact ⟨hcaller, hcalled⟩
  · exact hcarries.called hcalled

theorem called_of_carryOut [Destructor α] {m : Machine n α} {deed : Deed α} {turn : Turn n α}
    (hcalled : Called m.frames) (hcarry : m.carryOut deed = some turn) : Called turn.frames := by
  obtain ⟨w, t, frames⟩ := m
  cases frames with
  | nil =>
    rcases World.perform_values hcarry with
      ⟨t', command, -, rfl⟩ | ⟨id, -, rfl⟩ | ⟨v, rfl, -⟩
    · exact called_execute w t' command hcalled (Or.inl rfl)
    · trivial
    · trivial
  | cons frame frames =>
    cases deed with
    | proceed =>
      obtain rfl := Option.some.inj hcarry
      rcases step_values w t frame frames with
        ⟨command, rest, rfl⟩ | ⟨r, value, hold, rfl, hstep⟩ | ⟨-, -, hcarries⟩
      · exact called_execute w t command hcalled (Or.inr ⟨rest, frames, rfl⟩)
      · rw [hstep]
        exact called_resume _ t _ hcalled.2
      · exact hcarries.called hcalled
    | _ => cases hcarry

end Machine

namespace World

variable {w v u : World n α}

/-- A node that is live in `v` and was made before was live in `w`, with the same contents. -/
structure Older (w v : World n α) : Prop where
  size : w.heap.size ≤ v.heap.size
  get : ∀ node < w.heap.size, v.heap.get? node = none ∨ v.heap.get? node = w.heap.get? node

theorem Older.refl (w : World n α) : w.Older w := ⟨Nat.le_refl _, fun _ _ ↦ Or.inr rfl⟩

theorem Older.trans (hwv : w.Older v) (hvu : v.Older u) : w.Older u where
  size := Nat.le_trans hwv.size hvu.size
  get node hlt := by
    rcases hvu.get node (Nat.lt_of_lt_of_le hlt hwv.size) with hnone | hsame
    · exact Or.inl hnone
    · rw [hsame]
      exact hwv.get node hlt

theorem older_of_heap (hheap : v.heap = w.heap) : w.Older v := by
  refine ⟨Nat.le_of_eq (by rw [hheap]), fun node _ ↦ Or.inr (by rw [hheap])⟩

theorem older_start (w : World n α) (entry : Entry α) : w.Older (w.start entry) := by
  refine ⟨Nat.le_of_eq (w.size_start entry).symm, ?_⟩
  intro node _
  by_cases hentry : entry.address = .node node
  · left
    rw [start, hentry]
    exact (w.heap.get?_free node node).trans (if_pos rfl)
  · exact Or.inr (get?_start_of_ne hentry)

/-- Nodes do not change their contents, so a stack whose head stays keeps all its links. -/
theorem links_of_older (hw : w.Tidy) (hv : v.Tidy) (holder : w.Older v) {id : StackId}
    (hstack : v.stack? id = w.stack? id) : v.links id = w.links id := by
  cases hbefore : w.stack? id with
  | none => rw [links_of_dropped hbefore, links_of_dropped (hstack.trans hbefore)]
  | some stack =>
    have hpath := (hw id stack hbefore).path
    have hpath' := (hv id stack (hstack.trans hbefore)).path
    generalize stack.head = head at hpath hpath'
    generalize w.links id = links at hpath ⊢
    generalize v.links id = links' at hpath' ⊢
    induction links generalizing head links' with
    | nil =>
      cases links' with
      | nil => rfl
      | cons link' rest' => cases hpath.symm.trans hpath'.1
    | cons link rest ih =>
      obtain ⟨rfl, hget, hrest⟩ := hpath
      cases links' with
      | nil => cases hpath'
      | cons link' rest' =>
        obtain ⟨hstart, hget', hrest'⟩ := hpath'
        have hnode : link.1 = link'.1 := Option.some.inj hstart
        rw [← hnode] at hget'
        rcases holder.get link.1 (Heap.lt_size_of_get? hget) with hnone | hsame
        · rw [hnone] at hget'
          cases hget'
        · rw [hsame, hget] at hget'
          obtain rfl : link = link' := Prod.ext hnode (Option.some.inj hget')
          rw [ih _ hrest _ hrest']

end World

theorem Effect.older {s t : Stock n α} {marks : List (Mark n)} (heffect : Effect s marks t) :
    s.world.Older t.world := by
  cases heffect with
  | aside haside => exact World.older_of_heap haside.heap
  | push hstack value =>
    refine ⟨?_, ?_⟩
    · change s.world.heap.size ≤ (s.world.heap.alloc _).2.size
      rw [Heap.size_alloc]
      exact Nat.le_succ _
    · intro node hlt
      exact Or.inr ((s.world.heap.get?_alloc _ node).trans (if_neg (Nat.ne_of_lt hlt)))
  | free => exact World.older_start _ _
  | sweep => exact World.older_start _ _
  | @discard id stack node contents =>
    exact World.Older.trans (v := s.world.setHead id contents.next) (World.older_of_heap rfl)
      (World.older_start (s.world.setHead id contents.next) (.ofNode node))
  | detach r => exact World.older_of_heap (s.world.spares_detachLimbo r).heap
  | _ => exact World.older_of_heap rfl

theorem Effects.older {s t : Stock n α} {marks : List (Mark n)} (heffects : Effects s marks t) :
    s.world.Older t.world := by
  induction heffects with
  | refl => exact .refl _
  | tail _ heffect ih => exact ih.trans heffect.older

/-! ## Dropping a stack -/

section

variable [Destructor α]

/-- What is destroyed of these values, up to the first whose destructor faults. -/
def gone : List α → List α
  | [] => []
  | value :: rest => value :: if (Destructor.fault? value).isSome then [] else gone rest

/-- What is spared of these values because a destructor faults before. -/
def spared : List α → List α
  | [] => []
  | value :: rest => if (Destructor.fault? value).isSome then rest else spared rest

theorem gone_append_spared (values : List α) : gone values ++ spared values = values := by
  induction values with
  | nil => rfl
  | cons value rest ih =>
    rw [gone, spared, List.cons_append]
    split
    · rfl
    · rw [ih]

namespace World

/-- Nodes are destroyed from the top, their values first, until a destructor faults. -/
theorem destroyed_destroyNodes (links : List (NodeId × Node α)) (w : World n α) :
    (destroyNodes links w).1.stacks = w.stacks ∧
      (destroyNodes links w).1.destroyed =
        (gone (links.map fun link ↦ link.2.value)).reverse ++ w.destroyed ∧
      (destroyNodes links w).1.answered = w.answered ∧
      ((destroyNodes links w).2 = .ok () → spared (links.map fun link ↦ link.2.value) = []) := by
  induction links generalizing w with
  | nil => exact ⟨rfl, rfl, rfl, fun _ ↦ rfl⟩
  | cons link rest ih =>
    rw [destroyNodes, List.map_cons, gone, spared]
    cases Destructor.fault? link.2.value with
    | some fault =>
      refine ⟨stacks_start _ _, destroyed_start _ _, answered_start _ _, ?_⟩
      intro hok
      cases hok
    | none =>
      obtain ⟨hstacks, hdestroyed, hanswered, hspared⟩ :=
        ih ((w.record (.dropped link.2.value)).start (.ofNode link.1))
      refine ⟨hstacks.trans (stacks_start _ _), ?_, hanswered.trans (answered_start _ _), hspared⟩
      dsimp only
      rw [hdestroyed, destroyed_start, Option.isSome_none, if_neg Bool.false_ne_true,
        List.reverse_cons, List.append_assoc]
      rfl

theorem destroyed_dropStack (w : World n α) (id : StackId) :
    (∀ j, (w.dropStack id).1.stack? j = if id = j then none else w.stack? j) ∧
      (w.dropStack id).1.destroyed = (gone (w.valuesIn id)).reverse ++ w.destroyed ∧
      (w.dropStack id).1.answered = w.answered ∧
      ((w.dropStack id).2 = .ok () → spared (w.valuesIn id) = []) := by
  cases hstack : w.stack? id with
  | none =>
    have hdrop : w.dropStack id = (w, .ok ()) := by rw [dropStack, hstack]
    rw [valuesIn, links_of_dropped hstack, hdrop]
    refine ⟨?_, rfl, rfl, fun _ ↦ rfl⟩
    intro j
    by_cases hj : id = j
    · rw [if_pos hj, ← hj, hstack]
    · rw [if_neg hj]
  | some stack =>
    rw [dropStack_eq hstack]
    obtain ⟨hstacks, hdestroyed, hanswered, hspared⟩ :=
      destroyed_destroyNodes (w.links id) (w.forget id)
    refine ⟨?_, hdestroyed, hanswered, hspared⟩
    intro j
    rw [stack?, hstacks, ← stack?, stack?_forget]

end World

end

end Reclaim.Hazard
