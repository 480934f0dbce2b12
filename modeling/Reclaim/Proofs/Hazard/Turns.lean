import Reclaim.Proofs.Hazard.Shift

/-!
# Turns are effects

A turn of a machine is a row of effects on its stock. A turn that starts a deleter disturbs nothing;
all other turns disturb no slots but those that the command names or uses and those that pops give
back, and only a fault cuts sweeps short.

The frames of a machine are nested: only the innermost pop can have a node to retire, and of the
sweeps just those outside the innermost frame wait for a deleter.
-/

namespace Reclaim.Hazard

variable {n : Nat} {α : Type}

namespace Frame

def sweep? : Frame n α → Option (Sweep α)
  | .sweep s => some s
  | _ => none

def taken? : Frame n α → Option (RegistryId × Entry α)
  | .pop ⟨r, _, _, .retire node⟩ => some (r, .ofNode node)
  | _ => none

/-- What is disturbed if a fault passes through the frame. -/
def marks : Frame n α → List (Mark n)
  | .pop popping => popping.hold.slots.map .slot
  | .sweep s => [.cut s.registry (s.rest.map (·.address))]
  | .deleter _ => []

def Ready : Frame n α → Prop
  | .sweep s => s.current = none
  | _ => True

def Waiting : Frame n α → Prop
  | .sweep s => s.current.isSome
  | .pop popping => ∀ node, popping.stage ≠ .retire node
  | .deleter _ => True

end Frame

/-- The innermost frame is ready and the others wait. -/
def Nested : List (Frame n α) → Prop
  | [] => True
  | frame :: frames => frame.Ready ∧ ∀ other ∈ frames, other.Waiting

def stockOf (w : World n α) (frames : List (Frame n α)) : Stock n α :=
  ⟨w, frames.filterMap Frame.sweep?, frames.filterMap Frame.taken?⟩

def Machine.stock (m : Machine n α) : Stock n α := stockOf m.world m.frames

namespace Turn

def world : Turn n α → World n α
  | .next m => m.world
  | .done world _ => world

def frames : Turn n α → List (Frame n α)
  | .next m => m.frames
  | .done _ _ => []

def stock (turn : Turn n α) : Stock n α := stockOf turn.world turn.frames

/-- What is disturbed if the turn is a fault on its way through these frames. -/
def unwound (frames : List (Frame n α)) : Turn n α → List (Mark n)
  | .done _ (.error _) => frames.flatMap Frame.marks
  | _ => []

theorem unwound_nil (turn : Turn n α) : turn.unwound [] = [] := by
  unfold unwound
  split <;> rfl

theorem mem_unwound {turn : Turn n α} {frames : List (Frame n α)} {mark : Mark n}
    (hmem : mark ∈ turn.unwound frames) :
    (∃ r rest, mark = .cut r rest) ∨ ∃ slot, mark = .slot slot := by
  unfold unwound at hmem
  split at hmem
  · obtain ⟨frame, -, hframe⟩ := List.mem_flatMap.mp hmem
    cases frame with
    | deleter rest => cases hframe
    | sweep sweep => exact Or.inl ⟨_, _, List.mem_singleton.mp hframe⟩
    | pop popping =>
      obtain ⟨slot, -, hslot⟩ := List.mem_map.mp hframe
      exact Or.inr ⟨slot, hslot.symm⟩
  · cases hmem

/-- A turn leads from `s` on without starting a deleter, and disturbs no more than what is
marked. -/
structure Quiet (s : Stock n α) (marks : List (Mark n)) (turn : Turn n α) : Prop where
  effects : ∃ marks' ⊆ marks, Effects s marks' turn.stock
  started : turn.world.started = s.world.started
  nested : Nested turn.frames

/-- A turn leads from `s` on and disturbs nothing. -/
structure Still (s : Stock n α) (turn : Turn n α) : Prop where
  effects : Effects s [] turn.stock
  nested : Nested turn.frames

end Turn

namespace World

/-- The slot that a thread keeps in a cell that no pop borrows. -/
def idle (w : World n α) (t : ThreadId) (key : CellKey) : List (Handle n) :=
  match w.cell? t key with
  | some (.live (some slot) false) => [slot]
  | _ => []

/-- The slot that a pop uses for which the caller names none. -/
def popSlots (w : World n α) (t : ThreadId) (key : CellKey) (stack : Stack) : List (Handle n) :=
  match w.cell? t key with
  | none | some (.live _ true) => []
  | some (.live (some slot) false) => [slot]
  | some _ => ((w.claimSlot (key.registry stack) t).map (·.1)).toList

namespace Seating

variable {w v : World n α} {t : ThreadId} {key : CellKey} {r : RegistryId} {slot : Handle n}
  {hold : Hold n}

theorem aside (hseating : w.Seating t key r slot v hold) : w.Aside [] v := by
  cases hseating with
  | kept => exact w.aside_setCell t key _
  | claimed _ _ hclaim => exact (aside_claimSlot hclaim).trans (aside_setCell _ t key _)
  | once _ hclaim => exact aside_claimSlot hclaim

theorem slots_subset (hseating : w.Seating t key r slot v hold) : hold.slots ⊆ [slot] := by
  cases hseating with
  | once => exact List.Subset.refl _
  | _ => exact List.nil_subset _

theorem popSlots_eq {stack : Stack}
    (hseating : w.Seating t key (key.registry stack) slot v hold) :
    w.popSlots t key stack = [slot] := by
  rw [popSlots]
  cases hseating with
  | kept hcell => rw [hcell]
  | @claimed cell _ hcell hfree hclaim =>
    rw [hcell, hclaim]
    rcases cell with _ | ⟨_ | _, _ | _⟩ | _
    case unused | live.none.false => rfl
    all_goals cases hfree
  | once hcell hclaim =>
    rw [hcell, hclaim]
    rfl

end Seating

end World

def Command.slots (w : World n α) (t : ThreadId) : Command α → List (Handle n)
  | .release h | .publish h _ | .popUsing _ h => (w.handle? h).toList
  | .pop key s => (w.stack? s).elim [] (w.popSlots t key)
  | .unregister key => w.idle t key
  | _ => []

def Machine.slots (m : Machine n α) : List (Handle n) :=
  match m.frames with
  | .deleter (command :: _) :: _ => command.slots m.world m.thread
  | .pop ⟨_, _, hold, .answer⟩ :: _ => hold.slots
  | _ => []

/-! ## Turns one by one -/

namespace Turn.Quiet

variable {s u : Stock n α} {marks marks' : List (Mark n)} {turn : Turn n α}

theorem mono (hturn : Quiet s marks turn) (hsub : marks ⊆ marks') : Quiet s marks' turn where
  effects := by
    obtain ⟨marks₀, hmarks, heffects⟩ := hturn.effects
    exact ⟨marks₀, List.Subset.trans hmarks hsub, heffects⟩
  started := hturn.started
  nested := hturn.nested

/-- An effect that starts nothing can go before a quiet turn. -/
theorem before (heffect : Effect s marks u) (hstarted : u.world.started = s.world.started)
    (hturn : Quiet u marks' turn) : Quiet s (marks ++ marks') turn where
  effects := by
    obtain ⟨marks₀, hmarks, heffects⟩ := hturn.effects
    refine ⟨marks ++ marks₀, ?_, (Effects.single heffect).trans heffects⟩
    exact List.append_subset.mpr
      ⟨List.subset_append_left _ _, List.subset_append_of_subset_right _ hmarks⟩
  started := hturn.started.trans hstarted
  nested := hturn.nested

theorem effect (heffect : Effect s [] u) (hstarted : u.world.started = s.world.started)
    (hturn : Quiet u marks turn) : Quiet s marks turn := by
  have hbefore : Quiet s ([] ++ marks) turn := before heffect hstarted hturn
  exact hbefore

/-- What happens aside can go before a quiet turn. -/
theorem aside {w v : World n α} {frames : List (Frame n α)} {touched : List (Handle n)}
    (haside : w.Aside touched v) (hturn : Quiet (stockOf v frames) marks turn) :
    Quiet (stockOf w frames) (touched.map .slot ++ marks) turn :=
  before (Effect.aside haside) haside.started hturn

theorem quietly {w v : World n α} {frames : List (Frame n α)} (haside : w.Aside [] v)
    (hturn : Quiet (stockOf v frames) marks turn) : Quiet (stockOf w frames) marks turn := by
  have hbefore : Quiet (stockOf w frames) ([] ++ marks) turn := aside haside hturn
  exact hbefore

theorem done (w : World n α) (result : Except Fault (Answer α)) :
    Quiet (stockOf w []) [] (.done w result) where
  effects := ⟨[], List.Subset.refl _, .refl⟩
  started := rfl
  nested := trivial

theorem next {m : Machine n α} (hstock : s = m.stock) (hnested : Nested m.frames) :
    Quiet s [] (.next m) where
  effects := ⟨[], List.Subset.refl _, hstock ▸ .refl⟩
  started := by
    rw [hstock]
    rfl
  nested := hnested

end Turn.Quiet

namespace Machine

variable {w : World n α} {t : ThreadId} {frames : List (Frame n α)}

theorem quiet_resume (hframes : ∀ frame ∈ frames, frame.Waiting) (answer : Answer α) :
    (resume w t answer frames).Quiet (stockOf w frames) [] := by
  have hrest {frame : Frame n α} {rest : List (Frame n α)} (hcons : frames = frame :: rest) :
      ∀ other ∈ rest, other.Waiting :=
    fun other hmem ↦ hframes other (hcons ▸ List.mem_cons_of_mem frame hmem)
  unfold resume
  split
  · exact .done _ _
  · exact .aside (w.aside_note answer) (.next rfl ⟨trivial, hrest rfl⟩)
  · next sweep frames =>
    have hcurrent : sweep.current.isSome := hframes (.sweep sweep) List.mem_cons_self
    exact .effect (.countFreed rfl hcurrent) rfl (.next rfl ⟨rfl, hrest rfl⟩)
  · exact .next rfl ⟨trivial, hrest rfl⟩

theorem stockOf_pop (w : World n α) {popping : Popping n α}
    (hwaiting : Frame.Waiting (.pop popping)) (frames : List (Frame n α)) :
    stockOf w (.pop popping :: frames) = stockOf w frames := by
  obtain ⟨r, value, hold, stage⟩ := popping
  cases stage with
  | retire node => exact absurd rfl (hwaiting node)
  | _ => rfl

/-- A fault on its way through frames that wait cuts sweeps short and gives up slots. -/
theorem quiet_unwind (hframes : ∀ frame ∈ frames, frame.Waiting) (w : World n α) (t : ThreadId)
    (result : Except Fault (Answer α)) :
    (Turn.done (w.unwind t frames) result).Quiet (stockOf w frames)
      (frames.flatMap Frame.marks) := by
  induction frames generalizing w with
  | nil => exact .done w result
  | cons frame frames ih =>
    have hfirst := hframes frame List.mem_cons_self
    have hrest := fun other hmem ↦ hframes other (List.mem_cons_of_mem frame hmem)
    cases frame with
    | deleter rest => exact ih hrest w
    | sweep sweep => exact .before (.cut rfl) rfl (ih hrest _)
    | pop popping =>
      rw [stockOf_pop w hfirst]
      have haside := (w.aside_record (.dropped popping.value) rfl).trans
        (World.aside_giveBack _ t popping.hold)
      exact .aside haside (ih hrest _)

theorem quiet_raise (hframes : ∀ frame ∈ frames, frame.Waiting) (w : World n α) (t : ThreadId)
    (fault : Fault) :
    (raise w t frames fault).Quiet (stockOf w frames) ((raise w t frames fault).unwound frames) :=
  quiet_unwind hframes w t _

/-- Retiring parks an entry, or starts its deleter and overwrites nothing. -/
theorem retire_cases (hframes : ∀ frame ∈ frames, frame.Waiting) (w : World n α) (t : ThreadId)
    (r : RegistryId) (entry : Entry α) {s : Stock n α}
    (hstock : s = { stockOf w frames with taken := (r, entry) :: (stockOf w frames).taken }) :
    (retire w t r entry frames).Quiet s [] ∨ (retire w t r entry frames).Still s := by
  subst hstock
  unfold retire
  cases hprotected : w.isProtected r (some entry.address) with
  | true => exact Or.inl (.effect (.park rfl) rfl (quiet_resume hframes .done))
  | false => exact Or.inr ⟨.single (.free rfl hprotected), trivial, hframes⟩

theorem quiet_reclaim (hframes : ∀ frame ∈ frames, frame.Waiting) (w : World n α) (t : ThreadId)
    (r : RegistryId) : (reclaim w t r frames).Quiet (stockOf w frames) [] :=
  .effect (.detach r) (w.started_detachLimbo r) (.next rfl ⟨rfl, hframes⟩)

/-- A pop takes the top node out of its stack, or answers that there is none. -/
theorem quiet_startPop (hframes : ∀ frame ∈ frames, frame.Waiting) {s : StackId} {stack : Stack}
    (hstack : w.stack? s = some stack) (t : ThreadId) (slot : Handle n) {hold : Hold n}
    (hhold : hold.slots ⊆ [slot]) :
    (startPop w t s stack slot hold frames).Quiet (stockOf w frames)
      (.slot slot :: (startPop w t s stack slot hold frames).unwound frames) := by
  have hslot {touched : List (Handle n)} (hsub : touched ⊆ [slot]) (rest : List (Mark n)) :
      touched.map .slot ⊆ .slot slot :: rest := by
    have hone : [slot].map Mark.slot ⊆ [.slot slot] ++ rest := List.subset_append_left _ _
    exact List.Subset.trans (List.map_subset _ hsub) hone
  unfold startPop
  split
  · refine (Turn.Quiet.aside (w.aside_giveBack t hold) (quiet_raise hframes _ t _)).mono ?_
    exact List.append_subset.mpr ⟨hslot hhold _, List.subset_cons_self _ _⟩
  · split
    · have haside := (w.aside_publish slot none).trans (World.aside_giveBack _ t hold)
      refine (Turn.Quiet.aside haside (quiet_resume hframes _)).mono ?_
      rw [List.append_nil]
      exact hslot (List.append_subset.mpr ⟨List.Subset.refl _, hhold⟩) _
    · next node contents htop =>
      let popping : Popping n α := ⟨stack.registry, contents.value, hold, .retire node⟩
      have hcleared (v : World n α) : Turn.Quiet (stockOf v (.pop popping :: frames)) [.slot slot]
          (.next ⟨v.publish slot none, t, .pop popping :: frames⟩) :=
        .aside (v.aside_publish slot none) (.next rfl ⟨trivial, hframes⟩)
      refine (Turn.Quiet.aside (w.aside_publish slot _)
        (.effect (.unlink hstack htop) rfl (hcleared _))).mono ?_
      simp

/-- Every command is quiet, but for retirements that start a deleter at once. -/
theorem Executes.quiet_or_still (hframes : ∀ frame ∈ frames, frame.Waiting) {command : Command α}
    {turn : Turn n α} (h : Executes w t frames command turn) :
    turn.Quiet (stockOf w frames) ((command.slots w t).map .slot ++ turn.unwound frames) ∨
      turn.Still (stockOf w frames) := by
  have answered {v : World n α} {touched : List (Handle n)} {marks : List (Mark n)}
      (haside : w.Aside touched v) (hsub : touched.map .slot ⊆ marks) (answer : Answer α) :
      (resume v t answer frames).Quiet (stockOf w frames) marks :=
    (Turn.Quiet.aside haside (quiet_resume hframes answer)).mono (by rwa [List.append_nil])
  have raised {marks : List (Mark n)} (v : World n α) (fault : Fault) :
      (raise v t frames fault).Quiet (stockOf v frames)
        (marks ++ (raise v t frames fault).unwound frames) :=
    (quiet_raise hframes v t fault).mono (List.subset_append_right _ _)
  have named {slots : List (Handle n)} (hslots : command.slots w t = slots) (rest : List (Mark n)) :
      slots.map .slot ⊆ (command.slots w t).map .slot ++ rest :=
    hslots ▸ List.subset_append_left _ _
  cases h with
  | refused => exact Or.inl (answered (.refl w) (List.nil_subset _) _)
  | faulted => exact Or.inl (raised w _)
  | exhausted => exact Or.inl (answered (.refl w) (List.nil_subset _) _)
  | @claimed _ _ slot _ _ hclaim =>
    have haside := (World.aside_claimSlot hclaim).trans (World.aside_addHandle _ slot)
    exact Or.inl (answered haside (List.nil_subset _) _)
  | @released h slot hhandle =>
    have haside := (w.aside_releaseSlot slot).trans (World.aside_removeHandle _ h)
    exact Or.inl (answered haside (named (by rw [Command.slots, hhandle]; rfl) _) _)
  | @published h slot hhandle address =>
    exact Or.inl (answered (w.aside_publish slot address)
      (named (by rw [Command.slots, hhandle]; rfl) _) _)
  | pushed hstack value =>
    exact Or.inl (.effect (.push hstack value) rfl
      ((quiet_resume hframes _).mono (List.nil_subset _)))
  | @lent s stack h slot hstack hhandle =>
    have hnone : (Hold.lent : Hold n).slots ⊆ [slot] := List.nil_subset _
    have hquiet := quiet_startPop hframes hstack t slot hnone
    rw [Command.slots, hhandle]
    exact Or.inl hquiet
  | @seated key s stack slot v hold hstack hseating =>
    have hquiet := quiet_startPop hframes ((hseating.aside.stack? s).trans hstack) t slot
      hseating.slots_subset
    rw [Command.slots, hstack, Option.elim_some, hseating.popSlots_eq]
    exact Or.inl (.quietly hseating.aside hquiet)
  | @unseated key => exact Or.inl (.quietly (w.aside_setCell t key _) (raised _ _))
  | @vacated key slot hcell =>
    have haside := (w.aside_releaseSlot slot).trans
      (World.aside_setCell _ t key (.live none false))
    exact Or.inl (answered haside (named (by rw [Command.slots, World.idle, hcell]; rfl) _) _)
  | @vacant key => exact Or.inl (answered (w.aside_setCell t key _) (List.nil_subset _) _)
  | destroyed => exact Or.inl (answered (.refl w) (List.nil_subset _) _)
  | @retired r o object hregistry hobject hfresh =>
    have hhome : Effect (stockOf w frames) [] _ := .handOver hregistry hobject hfresh
    rcases retire_cases hframes (w.markRetired o) t r _ rfl with hquiet | hstill
    · exact Or.inl (.effect hhome rfl (hquiet.mono (List.nil_subset _)))
    · exact Or.inr ⟨(Effects.single hhome).trans hstill.effects, hstill.nested⟩
  | @reclaimed r => exact Or.inl ((quiet_reclaim hframes w t r).mono (List.nil_subset _))

theorem slots_deleter (rest : List (Command α)) (frames : List (Frame n α)) (turn : Turn n α) :
    turn.unwound (.deleter rest :: frames) = turn.unwound frames := by
  cases turn with
  | next m => rfl
  | done world result => cases result <;> rfl

/-- A step of a machine whose frames are nested is quiet, or starts a deleter and does nothing
else. -/
theorem step_cases {m : Machine n α} (hnested : Nested m.frames) :
    m.step.Quiet m.stock (m.slots.map .slot ++ m.step.unwound m.frames.tail) ∨
      m.step.Still m.stock := by
  obtain ⟨w, t, frames⟩ := m
  cases frames with
  | nil => exact Or.inl ((Turn.Quiet.done w _).mono (List.nil_subset _))
  | cons frame frames =>
    obtain ⟨hready, hframes⟩ := hnested
    cases frame with
    | deleter program =>
      cases program with
      | nil => exact Or.inl ((quiet_resume hframes _).mono (List.nil_subset _))
      | cons command rest =>
        have hwaiting : ∀ other ∈ Frame.deleter rest :: frames, other.Waiting :=
          List.forall_mem_cons.mpr ⟨trivial, hframes⟩
        have hcases := (executes w t _ command).quiet_or_still hwaiting
        rw [slots_deleter] at hcases
        exact hcases
    | sweep sweep =>
      obtain ⟨r, current, rest, freed⟩ := sweep
      obtain rfl : current = none := hready
      cases rest with
      | nil =>
        exact Or.inl (.effect (.finish rfl rfl rfl)
          rfl ((quiet_resume hframes _).mono (List.nil_subset _)))
      | cons entry rest =>
        have hsweeps : (stockOf w (.sweep ⟨r, none, entry :: rest, freed⟩ :: frames)).sweeps =
          ⟨r, none, entry :: rest, freed⟩ :: frames.filterMap Frame.sweep? := rfl
        dsimp only [step]
        cases hprotected : w.isProtected r (some entry.address) with
        | true =>
          rw [if_pos rfl]
          have hnext : Turn.Quiet _ [] (.next ⟨w.modifyLimbo r (·.putBack entry), t,
              .sweep ⟨r, none, rest, freed⟩ :: frames⟩) := .next rfl ⟨rfl, hframes⟩
          have hputBack := Turn.Quiet.effect (.putBack hsweeps rfl) rfl hnext
          exact Or.inl (hputBack.mono (List.nil_subset _))
        | false =>
          rw [if_neg Bool.false_ne_true]
          refine Or.inr ⟨.single (.sweep hsweeps rfl rfl hprotected), trivial, ?_⟩
          exact List.forall_mem_cons.mpr ⟨rfl, hframes⟩
    | pop popping =>
      obtain ⟨r, value, hold, stage⟩ := popping
      have hwaiting (stage : PopStage) (hstage : ∀ node, stage ≠ .retire node) :
          ∀ other ∈ Frame.pop ⟨r, value, hold, stage⟩ :: frames, other.Waiting :=
        List.forall_mem_cons.mpr ⟨hstage, hframes⟩
      cases stage with
      | retire node =>
        have hcases := retire_cases (hwaiting .reclaim nofun) w t r (.ofNode node) rfl
        exact hcases.imp_left fun hquiet ↦ hquiet.mono (List.nil_subset _)
      | reclaim =>
        have hquiet := quiet_reclaim (hwaiting .answer nofun) w t r
        exact Or.inl (hquiet.mono (List.nil_subset _))
      | answer =>
        left
        refine (Turn.Quiet.aside (w.aside_giveBack t hold) (quiet_resume hframes _)).mono ?_
        rw [List.append_nil]
        exact List.subset_append_left _ _

end Machine

end Reclaim.Hazard
