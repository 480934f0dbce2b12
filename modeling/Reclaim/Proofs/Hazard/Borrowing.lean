import Reclaim.Proofs.Hazard.Popping
import Reclaim.Proofs.Hazard.Registration
import Reclaim.Proofs.Hazard.Whereabouts

/-!
# Slots of pops under way

A pop borrows the cell of its thread until it ends, so also while it runs deleters. A deleter that
unregisters the thread or pops through the same cell faults before it has changed anything. When the
fault has unwound the pop, its node is retired, its value destroyed, and the thread keeps its slot
and pops with it.
-/

namespace Reclaim.Hazard

variable {n : Nat} {α : Type}

/-- A pop is under way that the outer frames wait for. Its own frame is the innermost, or the
deleter of its node stands on it, or a sweep of its registry, which may wait for a deleter. -/
inductive PopsOver (r : RegistryId) (value : α) (hold : Hold n) (outer : List (Frame n α)) :
    List (Frame n α) → Prop
  | own (stage : PopStage) : PopsOver r value hold outer (.pop ⟨r, value, hold, stage⟩ :: outer)
  | freeing : PopsOver r value hold outer (.deleter [] :: .pop ⟨r, value, hold, .reclaim⟩ :: outer)
  | sweeping (sweep : Sweep α) :
      PopsOver r value hold outer (.sweep sweep :: .pop ⟨r, value, hold, .answer⟩ :: outer)
  | deleting (sweep : Sweep α) {frames : List (Frame n α)}
      (hframes : RunsOver (.sweep sweep :: .pop ⟨r, value, hold, .answer⟩ :: outer) frames) :
      PopsOver r value hold outer frames

theorem Machine.length_frames_resume (w : World n α) (t : ThreadId) (answer : Answer α)
    (frames : List (Frame n α)) : (resume w t answer frames).frames.length = frames.length := by
  unfold resume
  split <;> rfl

theorem valuesOf_append_pop (inner outer : List (Frame n α)) (popping : Popping n α) :
    valuesOf (inner ++ .pop popping :: outer) = valuesOf inner ++ popping.value :: valuesOf outer :=
  List.filterMap_append

namespace PopsOver

variable {r : RegistryId} {value : α} {hold : Hold n} {outer frames : List (Frame n α)}

theorem mem_holds (hframes : PopsOver r value hold outer frames) :
    hold ∈ frames.filterMap Frame.hold? := by
  cases hframes with
  | own stage => exact List.mem_cons_self
  | freeing => exact List.mem_cons_self
  | sweeping sweep => exact List.mem_cons_self
  | deleting sweep hframes =>
    obtain ⟨inner, rfl⟩ := hframes.exists_append
    rw [List.filterMap_append]
    exact List.mem_append_right _ List.mem_cons_self

theorem mem_keys {w : World n α} {t : ThreadId} {key : CellKey}
    (hframes : PopsOver r value (.cell key) outer frames) : key ∈ (deskOf w t frames).keys :=
  List.mem_filterMap.mpr ⟨_, hframes.mem_holds, rfl⟩

/-- A deleter that has something to do runs in a sweep, when the pop has only to answer. -/
theorem exists_append {command : Command α} {rest : List (Command α)}
    (hframes : PopsOver r value hold outer (.deleter (command :: rest) :: frames)) :
    ∃ inner, .deleter (command :: rest) :: frames =
      inner ++ .pop ⟨r, value, hold, .answer⟩ :: outer := by
  cases hframes with
  | deleting sweep hframes =>
    obtain ⟨inner, hinner⟩ := hframes.exists_append
    refine ⟨inner ++ [.sweep sweep], hinner.trans ?_⟩
    rw [List.append_assoc]
    rfl

/-- As long as a step leaves more than the outer frames, the pop goes on. -/
theorem step (hframes : PopsOver r value hold outer frames) (w : World n α) (t : ThreadId)
    (hlonger : outer.length < (Machine.step ⟨w, t, frames⟩).frames.length) :
    ∃ v frames', Machine.step ⟨w, t, frames⟩ = .next ⟨v, t, frames'⟩ ∧
      PopsOver r value hold outer frames' := by
  cases hframes with
  | own stage =>
    cases stage with
    | retire node =>
      dsimp only [Machine.step, Machine.retire]
      split
      · exact ⟨_, _, rfl, .own .reclaim⟩
      · exact ⟨_, _, rfl, .freeing⟩
    | reclaim => exact ⟨_, _, rfl, .sweeping _⟩
    | answer =>
      have hsame := Machine.length_frames_resume (w.giveBack t hold) t (.popped (some value)) outer
      exact absurd (hsame ▸ hlonger) (Nat.lt_irrefl _)
  | freeing => exact ⟨_, _, rfl, .own .reclaim⟩
  | sweeping sweep =>
    obtain ⟨q, current, entries, freed⟩ := sweep
    cases entries with
    | nil => exact ⟨_, _, rfl, .own .answer⟩
    | cons entry rest =>
      dsimp only [Machine.step]
      split
      · exact ⟨_, _, rfl, .sweeping _⟩
      · exact ⟨_, _, rfl, .deleting _ (.deleter _)⟩
  | deleting sweep hframes =>
    by_cases hend : frames = .deleter [] :: .sweep sweep :: .pop ⟨r, value, hold, .answer⟩ :: outer
    · subst hend
      exact ⟨_, _, rfl, .sweeping _⟩
    · have hfine : ¬ (Machine.step ⟨w, t, frames⟩).Faulted := by
        intro hfaulted
        rw [Turn.frames_of_faulted hfaulted] at hlonger
        cases hlonger
      obtain ⟨v, frames', hnext, hframes'⟩ := hframes.step hend w t hfine
      exact ⟨v, frames', hnext, .deleting sweep hframes'⟩

end PopsOver

namespace World

variable {w : World n α} {t : ThreadId} {key key' : CellKey} {slot other : Handle n}

/-- Two cells of a thread do not keep the same slot. -/
theorem key_of_kept (hnodup : w.keptSlots.Nodup) (hmem : slot ∈ w.kept t key)
    (hmem' : slot ∈ w.kept t key') : key = key' := by
  by_contra hne
  rw [kept_eq] at hmem
  obtain ⟨cell, hcell, hslot⟩ := Option.bind_eq_some_iff.mp (Option.mem_toList.mp hmem)
  obtain ⟨rest, hbefore, hafter⟩ := exists_perm_setCell hcell
  have hfirst : (slot :: rest).Nodup := by
    rw [hslot] at hbefore
    exact hbefore.nodup_iff.mp hnodup
  have hrest : slot ∈ (w.setCell t key .destroyed).keptSlots := by
    refine mem_keptSlots.mpr ⟨t, key', ?_⟩
    rw [kept_eq, cell?_setCell, if_neg fun hsame ↦ hne hsame.2, ← kept_eq]
    exact hmem'
  exact (List.nodup_cons.mp hfirst).1 ((hafter .destroyed).mem_iff.mp hrest)

/-- The slots that a command overwrites are claimed explicitly, idle in a cell of its thread, or
free. -/
theorem slots_cases {command : Command α} (hmem : other ∈ command.slots w t) :
    other ∈ w.explicit ∨ (∃ key, w.cell? t key = some (.live (some other) false)) ∨
      w.owner? other.registry other.index = none := by
  have hexplicit {h : HandleId} (hmem : other ∈ (w.handle? h).toList) : other ∈ w.explicit :=
    mem_explicit (Option.mem_toList.mp hmem)
  cases command with
  | release h => exact Or.inl (hexplicit hmem)
  | publish h address => exact Or.inl (hexplicit hmem)
  | popUsing id h => exact Or.inl (hexplicit hmem)
  | pop key id =>
    right
    cases hstack : w.stack? id with
    | none =>
      rw [Command.slots, hstack] at hmem
      cases hmem
    | some stack =>
      have hmem : other ∈ w.popSlots t key stack := by
        rw [Command.slots, hstack] at hmem
        exact hmem
      unfold popSlots at hmem
      split at hmem
      · cases hmem
      · cases hmem
      · next slot hcell =>
        rw [List.mem_singleton.mp hmem]
        exact Or.inl ⟨key, hcell⟩
      · obtain ⟨⟨_, v⟩, hclaim, rfl⟩ := Option.map_eq_some_iff.mp (Option.mem_toList.mp hmem)
        obtain ⟨found, hfound, hfree⟩ := exists_slotAt?_of_claimSlot hclaim
        exact Or.inr (by rw [owner?, hfound]; exact hfree)
  | unregister key =>
    right
    left
    change other ∈ w.idle t key at hmem
    unfold idle at hmem
    split at hmem
    · next slot hcell =>
      rw [List.mem_singleton.mp hmem]
      exact ⟨key, hcell⟩
    · cases hmem
  | _ => cases hmem

end World

theorem Turn.mem_holds_of_unwound {turn : Turn n α} {frames : List (Frame n α)} {slot : Handle n}
    (hmem : .slot slot ∈ turn.unwound frames) :
    .temporary slot ∈ frames.filterMap Frame.hold? := by
  unfold unwound at hmem
  split at hmem
  · obtain ⟨frame, hframe, hmark⟩ := List.mem_flatMap.mp hmem
    cases frame with
    | deleter rest => cases hmark
    | sweep sweep => cases List.mem_singleton.mp hmark
    | pop popping =>
      obtain ⟨slot', hslot, heq⟩ := List.mem_map.mp hmark
      cases heq
      exact List.mem_filterMap.mpr ⟨_, hframe, congrArg some (Hold.mem_slots.mp hslot)⟩
  · cases hmem

/-- What a step overwrites is claimed explicitly, idle in a cell of the thread, had by a pop for
itself, or free. -/
theorem Machine.mem_marks_step {m : Machine n α} {slot : Handle n}
    (hmem : .slot slot ∈ (Move.mk m .proceed m.step).marks) :
    slot ∈ m.world.explicit ∨
      (∃ key, m.world.cell? m.thread key = some (.live (some slot) false)) ∨
      .temporary slot ∈ m.desk.holds ∨ m.world.owner? slot.registry slot.index = none := by
  obtain ⟨w, t, frames⟩ := m
  rcases List.mem_append.mp hmem with hmem | hmem
  · obtain ⟨slot', hslot, heq⟩ := List.mem_map.mp hmem
    cases heq
    unfold slots at hslot
    split at hslot
    · rcases World.slots_cases hslot with hexplicit | hidle | hfree
      · exact Or.inl hexplicit
      · exact Or.inr (Or.inl hidle)
      · exact Or.inr (Or.inr (Or.inr hfree))
    · next r value hold frames' hframes =>
      obtain rfl : frames = .pop ⟨r, value, hold, .answer⟩ :: frames' := hframes
      obtain rfl := Hold.mem_slots.mp hslot
      exact Or.inr (Or.inr (Or.inl List.mem_cons_self))
    · cases hslot
  · refine Or.inr (Or.inr (Or.inl ?_))
    have htail := Turn.mem_holds_of_unwound hmem
    cases frames with
    | nil => cases htail
    | cons frame frames =>
      rw [desk, deskOf, List.filterMap_cons]
      split
      · exact htail
      · exact List.mem_cons_of_mem _ htail

/-- A step does not overwrite the slot that a pop of its thread uses through a cell. -/
theorem Machine.not_overwrites_step {m : Machine n α} {key : CellKey} {slot : Handle n}
    (hheld : m.world.HeldBy m.held) (hlending : m.desk.Lending) (hkey : key ∈ m.desk.keys)
    (hslot : slot ∈ m.world.kept m.thread key) :
    ¬ (Move.mk m .proceed m.step).Overwrites slot.registry slot.index := by
  rintro ⟨mark, hmark, hon⟩
  cases mark with
  | slot other =>
    obtain ⟨hregistry, hindex⟩ : other.registry = slot.registry ∧ other.index = slot.index := hon
    have hmem : slot ∈ m.held := Desk.mem_held.mpr (Or.inr (Or.inl ⟨_, _, hslot⟩))
    have hsame (hother : other ∈ m.held) : other = slot :=
      hheld.eq_of_same hother hmem hregistry hindex
    have hkept : slot ∈ m.world.keptSlots := World.mem_keptSlots.mpr ⟨_, _, hslot⟩
    obtain ⟨hfirst, -, htemporary⟩ := List.nodup_append'.mp hheld.nodup
    obtain ⟨-, hcells, hexplicit⟩ := List.nodup_append'.mp hfirst
    -- A taken slot has one holder, and this one is the borrowed cell.
    rcases mem_marks_step hmark with hother | ⟨key', hcell⟩ | hother | hfree
    · obtain rfl := hsame (Desk.mem_held.mpr (Or.inl hother))
      exact hexplicit hother hkept
    · have hother : other ∈ m.world.kept m.thread key' := by
        rw [World.kept_of_cell? hcell]
        exact List.mem_cons_self
      obtain rfl := hsame (Desk.mem_held.mpr (Or.inr (Or.inl ⟨_, _, hother⟩)))
      obtain rfl := World.key_of_kept hcells hslot hother
      obtain ⟨_, hlent⟩ := hlending.lent key hkey
      cases hlent.symm.trans hcell
    · obtain rfl := hsame (Desk.mem_held.mpr (Or.inr (Or.inr hother)))
      exact htemporary (List.mem_append_right _ hkept) (Hold.mem_flatMap_slots.mpr hother)
    · have howner := (hheld.owner slot).mp hmem
      rw [← hregistry, ← hindex, hfree] at howner
      cases howner
  | cut r rest => exact hon
  | drop id => exact hon
  | leak node => exact hon

/-! ## Pops under way -/

/-- A thread keeps a slot in a cell, borrowed or not, and owns it; the slot publishes nothing. -/
structure World.Registered (w : World n α) (t : ThreadId) (key : CellKey) (slot : Handle n)
    (borrowed : Bool) : Prop where
  cell : w.cell? t key = some (.live (some slot) borrowed)
  owner : w.owner? slot.registry slot.index = some t
  null : w.published? slot.registry slot.index = none

/-- A pop of a thread through a cell is under way. It took this link out of its stack, with the slot
that the cell keeps, and so far these values were destroyed. -/
structure Machine.Pops (m : Machine n α) (t : ThreadId) (key : CellKey) (slot : Handle n)
    (link : NodeId × Node α) (outer : List (Frame n α)) (destroyed : List α) : Prop where
  thread : m.thread = t
  frames : PopsOver slot.registry link.2.value (.cell key) outer m.frames
  kept : m.world.kept t key = [slot]
  null : m.world.published? slot.registry slot.index = none
  node : m.stock.Holds slot.registry (.node link.1)
  destroyed : m.world.destroyed = destroyed

section

variable {w : World n α} {m m₀ : Machine n α} {t : ThreadId} {key : CellKey} {id : StackId}
  {stack : Stack} {slot : Handle n} {link : NodeId × Node α}
  {frames outer : List (Frame n α)} {destroyed : List α}

theorem World.published?_publish (w : World n α) (slot : Handle n) :
    (w.publish slot none).published? slot.registry slot.index = none := by
  rw [published?_eq, slotAt?_publish, if_pos ⟨rfl, rfl⟩, Option.bind_map]
  exact Option.bind_eq_none_iff.mpr fun _ _ ↦ rfl

/-- A pop through a cell that is not destroyed takes the top node out of its stack, or faults. -/
theorem World.exists_unlink (hstack : w.stack? id = some stack) (htop : w.top? stack = some link)
    (hcell : (w.cell? t key).isSome) (hlive : w.cell? t key ≠ some .destroyed)
    (hfine : ¬ (Machine.execute w t (.pop key id) frames).Faulted) :
    ∃ slot v, slot.registry = stack.registry ∧ w.Spares v ∧
      v.cell? t key = some (.live (some slot) true) ∧
      Machine.execute w t (.pop key id) frames = .next ⟨v.unlink id slot link, t,
        .pop ⟨slot.registry, link.2.value, .cell key, .retire link.1⟩ :: frames⟩ := by
  rcases (Machine.executes w t frames _).pop_cases hstack hcell with
    ⟨slot, v, hold, hseating, hturn⟩ | ⟨v, hturn⟩ | ⟨slot, -, hturn⟩
  · obtain ⟨rfl, hlent⟩ := hseating.lent hlive
    rw [hturn, Machine.startPop] at hfine ⊢
    by_cases hregistry : slot.registry = stack.registry
    · refine ⟨slot, v, hregistry, hseating.spares, hlent, ?_⟩
      rw [if_neg (not_not_intro hregistry), hseating.spares.top?, htop, hregistry]
      rfl
    · rw [if_pos hregistry] at hfine
      exact absurd trivial hfine
  · rw [hturn] at hfine
    exact absurd trivial hfine
  · rw [hturn] at hfine
    exact absurd trivial hfine

theorem World.frame_unwind (w : World n α) (t : ThreadId) (frames : List (Frame n α)) :
    (w.unwind t frames).heap = w.heap ∧ (w.unwind t frames).handles = w.handles := by
  induction frames generalizing w with
  | nil => exact ⟨rfl, rfl⟩
  | cons frame frames ih =>
    cases frame with
    | deleter rest => exact ih w
    | sweep sweep => exact ih _
    | pop popping =>
      obtain ⟨hheap, hhandles⟩ :=
        ih ((w.record (.dropped popping.value)).giveBack t popping.hold)
      rw [unwind, hheap, hhandles]
      cases popping.hold <;> exact ⟨rfl, rfl⟩

/-- A deleter that unregisters the thread, or pops through the cell, finds it borrowed. -/
theorem Machine.step_of_borrowed {slot? : Option (Handle n)} {command : Command α}
    {rest : List (Command α)} (hcell : m.world.cell? m.thread key = some (.live slot? true))
    (hframes : m.frames = .deleter (command :: rest) :: frames)
    (hcommand : command = .unregister key ∨
      ∃ id, command = .pop key id ∧ (m.world.stack? id).isSome) :
    m.step = raise m.world m.thread (.deleter rest :: frames) .alreadyBorrowed := by
  rw [step, hframes]
  rcases hcommand with rfl | ⟨id, rfl, hstack⟩
  · simp only [execute, hcell]
  · obtain ⟨stack, hstack⟩ := Option.isSome_iff_exists.mp hstack
    simp only [execute_pop hstack, popImplicit, hcell]

structure Stock.Retired (s : Stock n α) (r : RegistryId) (node : NodeId) : Prop where
  keeps : s.Keeps r (.node node)
  unlinked : ∀ id, .node node ∉ s.addresses (.linked id)

/-- What a registry has when nothing is taken is retired. -/
theorem Stock.Holds.retired {s : Stock n α} {r : RegistryId} {node : NodeId}
    (hholds : s.Holds r (.node node)) (hs : s.Sound) (htaken : s.taken = []) :
    s.Retired r node := by
  obtain ⟨p, hp, hmem⟩ := hholds.keeps htaken
  refine ⟨⟨p, hp, hmem⟩, fun id ↦ hs.not_mem_of_mem hmem ?_⟩
  rintro rfl
  exact hp

/-- A fault has unwound a pop of a thread through a cell. Stacks are as they were, and so are all
slots but those that pops had for themselves. The node of the pop is retired, and the thread goes on
to pop with its slot. -/
structure World.Unwound [Destructor α] (w v : World n α) (t : ThreadId) (key : CellKey)
    (slot : Handle n) (node : NodeId) : Prop where
  «stacks» : v.stacks = w.stacks
  heap : v.heap = w.heap
  handles : v.handles = w.handles
  kept : ∀ t key, v.kept t key = w.kept t key
  retired : (stockOf v []).Retired slot.registry node
  answered : v.answered = w.answered
  registered : v.Registered t key slot false
  next : ∀ later m, Run ⟨v, t, []⟩ later m → (∀ move ∈ later, move.vacated? ≠ some (t, key)) →
    m.frames = [] → ∀ id stack, m.world.stack? id = some stack →
      m.PopsWith t key id stack [] slot

variable [Destructor α] {moves during : List (Move n α)} {deed : Deed α} {turn : Turn n α}

/-- A pop under way borrows the cell of its thread. -/
theorem Run.exists_lent {r : RegistryId} {value : α} (hrun : Run Machine.empty moves m)
    (hframes : PopsOver r value (.cell key) outer m.frames) :
    ∃ slot, m.world.cell? m.thread key = some (.live (some slot) true) :=
  hrun.lending.lent key hframes.mem_keys

namespace Machine.Pops

theorem registered (hm : m.Pops t key slot link outer destroyed)
    (hrun : Run Machine.empty moves m) : m.world.Registered t key slot true where
  cell := by
    obtain ⟨slot', hlent⟩ := hrun.exists_lent hm.frames
    rw [hm.thread] at hlent
    have hsame := (World.kept_of_cell? hlent).symm.trans hm.kept
    rw [hlent, List.singleton_inj.mp hsame]
  owner := hrun.owner?_of_kept hm.kept
  null := hm.null

/-- Nothing else can be done than to proceed with the pop. -/
theorem carryOut_eq (hm : m.Pops t key slot link outer destroyed)
    (hcarry : m.carryOut deed = some turn) : deed = .proceed ∧ turn = m.step := by
  have hholds := hm.frames.mem_holds
  obtain ⟨w, t', frames⟩ := m
  cases frames with
  | nil => cases hholds
  | cons frame frames =>
    cases deed with
    | proceed => exact ⟨rfl, (Option.some.inj hcarry).symm⟩
    | _ => cases hcarry

/-- The next step does not touch the slot, and the node stays with the registry. -/
theorem null_and_node (hm : m.Pops t key slot link outer destroyed)
    (hrun : Run Machine.empty moves m) (hcarry : m.carryOut deed = some turn) :
    turn.world.published? slot.registry slot.index = none ∧
      turn.stock.Holds slot.registry (.node link.1) := by
  have hsound := hrun.sound Machine.sound_empty
  obtain ⟨marks, hmarks, heffects, -⟩ := hsound.marked hcarry
  obtain ⟨rfl, rfl⟩ := hm.carryOut_eq hcarry
  have hslot : slot ∈ m.world.kept m.thread key := by
    rw [hm.thread, hm.kept]
    exact List.mem_cons_self
  have hnot := Machine.not_overwrites_step (hrun.heldBy World.heldBy_empty) hrun.lending
    hm.frames.mem_keys hslot
  have hsame := heffects.published?_eq hsound.stock (Move.spares hnot hmarks)
  exact ⟨hsame.trans hm.null, heffects.holds hsound.stock hm.node⟩

/-- As long as a move leaves more than the outer frames, the pop goes on. -/
theorem step (hm : m.Pops t key slot link outer destroyed) (hrun : Run Machine.empty moves m)
    (hcarry : m.carryOut deed = some turn) (hlonger : outer.length < turn.frames.length) :
    (turn.machine m.thread).Pops t key slot link outer destroyed := by
  obtain ⟨hnull, hnode⟩ := hm.null_and_node hrun hcarry
  have hafter := hrun.move hcarry
  have hsound := hrun.sound Machine.sound_empty
  obtain ⟨rfl, rfl⟩ := hm.carryOut_eq hcarry
  obtain ⟨v, frames, hnext, hframes⟩ := hm.frames.step m.world m.thread hlonger
  have hnext : m.step = .next ⟨v, m.thread, frames⟩ := hnext
  have hvalues := Move.destroyed_of_ne hsound hrun.called hcarry nofun
  -- Had the step emptied the cell, the pop would have nothing to borrow afterwards.
  have hvacated : (Move.mk m .proceed m.step).vacated? ≠ some (t, key) := by
    intro hvacated
    have hnone := hsound.kept_of_vacated hcarry hvacated
    rw [hnext] at hafter hnone
    obtain ⟨slot', hlent⟩ := hafter.exists_lent hframes
    have hkept : v.kept m.thread key = [slot'] := World.kept_of_cell? hlent
    rw [hm.thread] at hkept
    cases hkept.symm.trans hnone
  have hkept := (Run.single hcarry).kept_eq hm.kept
    fun move hmem ↦ (List.mem_singleton.mp hmem) ▸ hvacated
  rw [hnext] at hnull hnode hvalues hkept ⊢
  exact ⟨hm.thread, hframes, hkept, hnull, hnode, hvalues.trans hm.destroyed⟩

theorem run (hm : m.Pops t key slot link outer destroyed) (hrun : Run Machine.empty moves m)
    {m' : Machine n α} (hduring : Run m during m')
    (hunder : ∀ move ∈ during, outer.length < move.turn.frames.length) :
    m'.Pops t key slot link outer destroyed := by
  induction hduring with
  | start => exact hm
  | move hduring hcarry ih =>
    have hpre := ih fun move hmem ↦ hunder move (List.mem_append_left _ hmem)
    exact hpre.step (hrun.trans hduring) hcarry
      (hunder _ (List.mem_append_right _ List.mem_cons_self))

/-- When a deleter has something to do, the node is retired. -/
theorem retired (hm : m.Pops t key slot link outer destroyed) (hrun : Run Machine.empty moves m)
    {program : List (Command α)} (hframes : m.frames = .deleter program :: frames) :
    m.stock.Retired slot.registry link.1 := by
  obtain ⟨hs, hnested⟩ := hrun.sound Machine.sound_empty
  refine hm.node.retired hs ?_
  rw [hframes] at hnested
  have htaken : m.frames.filterMap Frame.taken? = [] := by
    rw [hframes]
    exact taken_eq_nil (List.forall_mem_cons.mpr ⟨trivial, hnested.2⟩)
  exact htaken

/-- What a fault in a deleter leaves behind, once it has unwound the pop. -/
theorem unwound (hm : m.Pops t key slot link outer destroyed) (hrun : Run Machine.empty moves m)
    {command : Command α} {rest : List (Command α)} {fault : Fault}
    (hframes : m.frames = .deleter (command :: rest) :: frames)
    (hraise : m.step = .done (m.world.unwind t frames) (.error fault)) :
    m.world.Unwound (m.world.unwind t frames) t key slot link.1 := by
  have hcarry : m.carryOut .proceed = some m.step :=
    Machine.carryOut_proceed (by rw [hframes]; exact List.cons_ne_nil _ _)
  obtain ⟨hnull, hnode⟩ := hm.null_and_node hrun hcarry
  have hafter := hrun.move hcarry
  rw [hraise] at hnull hnode hafter
  have hafter : Run Machine.empty _ (⟨m.world.unwind t frames, t, []⟩ : Machine n α) :=
    hm.thread ▸ hafter
  have hsame (t' : ThreadId) (key' : CellKey) :
      (m.world.unwind t frames).kept t' key' = m.world.kept t' key' :=
    (Machine.handlings_unwind frames m.world t).kept_eq t' key'
  have hkept := (hsame t key).trans hm.kept
  obtain ⟨hstacks, -, hanswered⟩ := m.world.destroyed_unwind t frames
  obtain ⟨hheap, hhandles⟩ := m.world.frame_unwind t frames
  have hs : (stockOf (m.world.unwind t frames) []).Sound :=
    (hafter.sound Machine.sound_empty).stock
  refine ⟨hstacks, hheap, hhandles, hsame, hnode.retired hs rfl, hanswered,
    ⟨hafter.cell?_of_kept rfl hkept, hafter.owner?_of_kept hkept, hnull⟩, ?_⟩
  intro later m' hlater hmoves hidle id stack hstack
  have hkept' := hlater.kept_eq hkept hmoves
  have hcell := (hafter.trans hlater).cell?_of_kept hidle hkept'
  exact Machine.popsWith hstack (by rw [World.slot?, hcell]) []

end Machine.Pops

/-- A pop through a cell that is not destroyed takes the top node, unless it faults, and is then
under way. -/
theorem Run.exists_pops (hrun : Run Machine.empty moves m₀) (hcarry : m₀.carryOut deed = some turn)
    (hcommand : (Move.mk m₀ deed turn).command? = some (t, .pop key id))
    (hstack : m₀.world.stack? id = some stack) (htop : m₀.world.top? stack = some link)
    (hcell : (m₀.world.cell? t key).isSome) (hlive : m₀.world.cell? t key ≠ some .destroyed)
    (hfine : ¬ turn.Faulted) :
    ∃ slot, slot.registry = stack.registry ∧ turn.frames.length = turn.frames.tail.length + 1 ∧
      (turn.machine m₀.thread).Pops t key slot link turn.frames.tail m₀.world.destroyed := by
  obtain ⟨frames, -, -, rfl⟩ :=
    Move.exists_execute (hrun.sound Machine.sound_empty).nested hcarry hcommand
  obtain ⟨slot, v, hregistry, hspares, hlent, hturn⟩ :=
    World.exists_unlink hstack htop hcell hlive hfine
  rw [hturn]
  refine ⟨slot, hregistry, rfl, rfl, .own _, ?_, World.published?_publish _ slot, ?_,
    hspares.destroyed⟩
  · exact World.kept_of_cell? hlent
  · refine ⟨.taken slot.registry, Or.inl rfl, ?_⟩
    simp [Stock.addresses, Turn.machine, Machine.stock, stockOf, Frame.taken?, Entry.ofNode]

/-- While a pop through a cell is under way, its thread cannot lose the slot. A deleter that the pop
runs, at any depth, faults when it unregisters the thread or pops through the same cell, before
anything has changed. The fault unwinds the pop: its node is retired, its value destroyed with those
of the other pops under way and no others, and the thread keeps its slot and pops with it. -/
theorem slot_stays_under_pop (hrun : Run Machine.empty moves m₀)
    (hcarry : m₀.carryOut deed = some turn)
    (hcommand : (Move.mk m₀ deed turn).command? = some (t, .pop key id))
    (hstack : m₀.world.stack? id = some stack) (htop : m₀.world.top? stack = some link)
    (hcell : (m₀.world.cell? t key).isSome) (hlive : m₀.world.cell? t key ≠ some .destroyed)
    (hfine : ¬ turn.Faulted) (hduring : Run (turn.machine m₀.thread) during m)
    (hunder : ∀ move ∈ during, turn.frames.length ≤ move.turn.frames.length) :
    ∃ slot, slot.registry = stack.registry ∧ turn.world.Registered t key slot true ∧
      m.world.Registered t key slot true ∧
      ∀ command rest frames, m.frames = .deleter (command :: rest) :: frames →
        (command = .unregister key ∨
          ∃ id', command = .pop key id' ∧ (m.world.stack? id').isSome) →
        m.step = Machine.raise m.world t (.deleter rest :: frames) .alreadyBorrowed ∧
        m.stock.Retired stack.registry link.1 ∧
        ∃ inner v, m.step = .done v (.error .alreadyBorrowed) ∧
          m.frames =
            inner ++ .pop ⟨stack.registry, link.2.value, .cell key, .answer⟩ :: turn.frames.tail ∧
          m.world.Unwound v t key slot link.1 ∧
          v.destroyed = (valuesOf inner ++ link.2.value :: valuesOf turn.frames.tail).reverse ++
            m₀.world.destroyed := by
  obtain ⟨slot, hregistry, hlength, hfirst⟩ :=
    hrun.exists_pops hcarry hcommand hstack htop hcell hlive hfine
  have hbefore := hrun.move hcarry
  have hm := hfirst.run hbefore hduring fun move hmem ↦
    Nat.lt_of_lt_of_le (by rw [hlength]; exact Nat.lt_succ_self _) (hunder move hmem)
  have hrun' := hbefore.trans hduring
  have hregistered := hm.registered hrun'
  refine ⟨slot, hregistry, ?_, hregistered, fun command rest frames hframes hdenied ↦ ?_⟩
  · rw [← turn.world_machine m₀.thread]
    exact hfirst.registered hbefore
  · have hraise := Machine.step_of_borrowed (hm.thread.symm ▸ hregistered.cell) hframes hdenied
    rw [hm.thread] at hraise
    have hover := hm.frames
    rw [hframes] at hover
    obtain ⟨inner, hinner⟩ := hover.exists_append
    have hunwound := hm.unwound hrun' hframes hraise
    have hdestroyed : (m.world.unwind t frames).destroyed =
        (valuesOf (.deleter (command :: rest) :: frames)).reverse ++ m.world.destroyed :=
      (m.world.destroyed_unwind t frames).2.1
    refine ⟨hraise, hregistry ▸ hm.retired hrun' hframes, inner, m.world.unwind t frames, hraise,
      ?_, hunwound, ?_⟩
    · rw [hframes, hinner, hregistry]
    · rw [hdestroyed, hinner, valuesOf_append_pop, hm.destroyed]

end

/-- A thread claims a slot and parks an object. Its deleter parks another one, whose deleter will
unregister the thread, and pops. -/
def nestingDeeds : List (Deed Nat) :=
  [.addRegistry, .addStack 0, .spawn,
    .addObject [.publish 0 (some (.object 1)), .retire 0 (some 1), .publish 0 none,
      .pop .processWide 0],
    .addObject [.unregister .ordinary], .issue 0 (.push 0 5), .issue 0 (.push 0 6),
    .issue 0 (.tryClaim 0), .issue 0 (.publish 0 (some (.object 0))), .issue 0 (.retire 0 (some 0)),
    .issue 0 (.publish 0 none)]

def beforeNesting : Machine 3 Nat := (Machine.empty.follow nestingDeeds).2

def nestingTurn : Turn 3 Nat := Machine.execute beforeNesting.world 0 (.pop .ordinary 0) []

/-- The moves of the pop until the second deleter is about to unregister the thread. -/
def nesting : List (Move 3 Nat) × Machine 3 Nat :=
  (nestingTurn.machine beforeNesting.thread).follow (List.replicate 12 .proceed)

/-- The fault destroys the values of both pops, and the thread keeps its slot. -/
theorem slot_stays_under_pop_nesting :
    ∃ v, nesting.2.step = .done v (.error .alreadyBorrowed) ∧ v.destroyed = [6, 5] ∧
      v.kept 0 .ordinary = [⟨0, 1, 0⟩] ∧ v.published? 0 1 = none := by
  have hrun : Run Machine.empty _ beforeNesting := Machine.empty.run_follow nestingDeeds
  have hidle : beforeNesting.frames = [] := List.isEmpty_iff.mp (by decide +kernel)
  have hcarry : beforeNesting.carryOut (.issue 0 (.pop .ordinary 0)) = some nestingTurn :=
    Machine.carryOut_issue hidle 0 _
  have hduring : Run (nestingTurn.machine beforeNesting.thread) nesting.1 nesting.2 :=
    Machine.run_follow _ _
  have hstack : beforeNesting.world.stack? 0 = some ⟨0, some 1⟩ := by decide +kernel
  have htop : beforeNesting.world.top? ⟨0, some 1⟩ = some (1, ⟨6, some 0⟩) := by decide +kernel
  obtain ⟨slot, -, -, -, hdenied⟩ := slot_stays_under_pop hrun hcarry rfl hstack htop
    (by decide +kernel) (by decide +kernel) (by decide +kernel) hduring (by decide +kernel)
  obtain ⟨command, rest, frames, hframes⟩ :=
    Machine.exists_command_of_faulted (show nesting.2.step.Faulted by decide +kernel)
  have hcommand : (Move.mk nesting.2 .proceed nesting.2.step).command? =
      some (0, .unregister .ordinary) := by decide +kernel
  rw [Move.command?, hframes] at hcommand
  obtain ⟨-, rfl⟩ := Prod.mk.inj (Option.some.inj hcommand)
  obtain ⟨-, -, inner, v, hstep, hinner, hunwound, hdestroyed⟩ :=
    hdenied _ rest frames hframes (Or.inl rfl)
  have hkept := (hunwound.kept 0 .ordinary).trans
    (show nesting.2.world.kept 0 .ordinary = [⟨0, 1, 0⟩] by decide +kernel)
  have hvalues : valuesOf inner ++ 6 :: valuesOf nestingTurn.frames.tail = [5, 6] := by
    rw [← show valuesOf nesting.2.frames = [5, 6] by decide +kernel, hinner, valuesOf_append_pop]
  obtain rfl : slot = ⟨0, 1, 0⟩ := by
    have hsame := (World.kept_of_cell? hunwound.registered.cell).symm.trans hkept
    exact List.singleton_inj.mp hsame
  refine ⟨v, hstep, ?_, hkept, hunwound.registered.null⟩
  rw [hdestroyed, hvalues]
  decide +kernel

end Reclaim.Hazard
