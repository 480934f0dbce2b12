import Reclaim.Proofs.Hazard.Closing
import Reclaim.Proofs.Hazard.Holdings

/-!
# Every value leaves once

The moves of a run tell of every value that was pushed, and of the stack it was pushed to, whether
it is linked or held, was handed out or destroyed, or was left behind by a drop that faulted. Every
dealing keeps the balance of each stack, and the held and destroyed values are those of the machine.
-/

namespace Reclaim.Hazard

variable {n : Nat} {α : Type}

/-- What moves did with values: those that were pushed, that pops hold, that were handed out, that
were destroyed and that were left behind, each with its stack and the latest first. -/
structure Whereabouts (α : Type) where
  pushed : List (StackId × α) := []
  held : List (StackId × α) := []
  handedOut : List (StackId × α) := []
  destroyed : List (StackId × α) := []
  left : List (StackId × α) := []

namespace Whereabouts

def after (x : Whereabouts α) : Dealing α → Whereabouts α
  | .none => x
  | .push id value => { x with pushed := (id, value) :: x.pushed }
  | .take id value => { x with held := (id, value) :: x.held }
  | .answer _ =>
    match x.held with
    | [] => x
    | value :: held => { x with held, handedOut := value :: x.handedOut }
  | .fault => { x with held := [], destroyed := x.held.reverse ++ x.destroyed }
  | .drop id gone spared =>
    { x with
      destroyed := (gone.map (Prod.mk id)).reverse ++ x.destroyed
      left := spared.map (Prod.mk id) ++ x.left }

end Whereabouts

def whereabouts [Destructor α] (moves : List (Move n α)) : Whereabouts α :=
  moves.foldl (fun x move ↦ x.after move.dealing) {}

def valuesOn (id : StackId) (values : List (StackId × α)) : List α :=
  values.filterMap fun x ↦ if x.1 = id then some x.2 else none

section

variable (id : StackId)

@[simp]
theorem valuesOn_nil : valuesOn id ([] : List (StackId × α)) = [] := rfl

theorem valuesOn_cons (j : StackId) (value : α) (values : List (StackId × α)) :
    valuesOn id ((j, value) :: values) =
      if j = id then value :: valuesOn id values else valuesOn id values := by
  simp only [valuesOn, List.filterMap_cons]
  by_cases hj : j = id <;> simp only [hj, if_true, if_false]

@[simp]
theorem valuesOn_append (values values' : List (StackId × α)) :
    valuesOn id (values ++ values') = valuesOn id values ++ valuesOn id values' :=
  List.filterMap_append

@[simp]
theorem valuesOn_reverse (values : List (StackId × α)) :
    valuesOn id values.reverse = (valuesOn id values).reverse := List.filterMap_reverse

theorem valuesOn_map (j : StackId) (values : List α) :
    valuesOn id (values.map (Prod.mk j)) = if j = id then values else [] := by
  induction values with
  | nil => exact (ite_self _).symm
  | cons value values ih =>
    rw [List.map_cons, valuesOn_cons, ih]
    split <;> rfl

end

/-- The whereabouts agree with the holdings, given what was answered before at top level. -/
structure Tracks (x : Whereabouts α) (h : Holdings α) (answers : List α) : Prop where
  held : x.held.map Prod.snd = h.held
  handedOut : (x.handedOut.map Prod.snd).Perm (answers ++ h.answered)
  destroyed : x.destroyed.map Prod.snd = h.destroyed
  balance : ∀ id, (valuesOn id x.pushed).Perm
    (valuesOn id x.handedOut ++ valuesOn id x.destroyed ++ valuesOn id x.held ++
      valuesOn id x.left ++ h.linked id)

theorem tracks_empty : Tracks ({} : Whereabouts α) (Machine.empty : Machine n α).holdings [] :=
  ⟨rfl, .refl _, rfl, fun _ ↦ .refl _⟩

/-- Every dealing keeps the balance. -/
theorem Deals.tracks {x : Whereabouts α} {h h' : Holdings α} {dealing : Dealing α}
    {answers : List α} (hdeals : Deals h dealing h') (hx : Tracks x h answers) :
    Tracks (x.after dealing) h' answers := by
  classical
  obtain ⟨hheld, hout, hdestroyed, hbalance⟩ := hx
  have hcount (j : StackId) (value : α) := (hbalance j).count_eq value
  simp only [List.count_append] at hcount
  cases hdeals with
  | none => exact ⟨hheld, hout, hdestroyed, hbalance⟩
  | push id value =>
    refine ⟨hheld, hout, hdestroyed, fun j ↦ List.perm_iff_count.mpr fun a ↦ ?_⟩
    have hbefore := hcount j a
    simp only [Whereabouts.after, valuesOn_cons, List.count_append]
    split
    · simp only [List.count_cons]
      omega
    · exact hbefore
  | @take id value rest hlinked =>
    refine ⟨congrArg (value :: ·) hheld, hout, hdestroyed,
      fun j ↦ List.perm_iff_count.mpr fun a ↦ ?_⟩
    have hbefore := hcount j a
    simp only [Whereabouts.after, valuesOn_cons, List.count_append]
    split
    · next hj =>
      rw [← hj, hlinked] at hbefore
      simp only [← hj, List.count_cons] at hbefore ⊢
      omega
    · exact hbefore
  | @answer value held heq =>
    obtain ⟨pushed, xheld, out, destroyed, left⟩ := x
    cases xheld with
    | nil => cases hheld.trans heq
    | cons first xheld =>
      obtain ⟨hfirst, hrest⟩ := List.cons.inj (hheld.trans heq)
      refine ⟨hrest, ?_, hdestroyed, fun j ↦ List.perm_iff_count.mpr fun a ↦ ?_⟩
      · change (first.2 :: out.map Prod.snd).Perm _
        rw [hfirst]
        exact (hout.cons value).trans List.perm_middle.symm
      · have hbefore := hcount j a
        obtain ⟨id, value'⟩ := first
        simp only [Whereabouts.after, valuesOn_cons, List.count_append] at hbefore ⊢
        by_cases hj : id = j
        · simp only [if_pos hj, List.count_cons] at hbefore ⊢
          omega
        · rw [if_neg hj] at hbefore ⊢
          exact hbefore
  | fault =>
    refine ⟨rfl, hout, ?_, fun j ↦ List.perm_iff_count.mpr fun a ↦ ?_⟩
    · simp only [Whereabouts.after, List.map_append, List.map_reverse, hheld, hdestroyed]
    · have hbefore := hcount j a
      simp only [Whereabouts.after, valuesOn_append, valuesOn_reverse, List.count_append,
        List.count_reverse, valuesOn_nil, List.count_nil]
      omega
  | @drop id gone spared hlinked =>
    refine ⟨hheld, hout, ?_, fun j ↦ List.perm_iff_count.mpr fun a ↦ ?_⟩
    · have hgone : (gone.map (Prod.mk id)).map Prod.snd = gone := by
        rw [List.map_map]
        exact List.map_id gone
      simp only [Whereabouts.after, List.map_append, List.map_reverse, hgone, hdestroyed]
    · have hbefore := hcount j a
      simp only [Whereabouts.after, valuesOn_append, valuesOn_reverse, valuesOn_map,
        List.count_append, List.count_reverse]
      split
      · next hj =>
        rw [← hj, hlinked, List.count_append] at hbefore
        rw [← hj, List.count_nil]
        omega
      · simp only [List.count_nil]
        omega

/-- Only dropping a stack leaves values behind. -/
theorem Whereabouts.left_after (x : Whereabouts α) {dealing : Dealing α}
    (hdealing : ∀ id gone spared, dealing ≠ .drop id gone spared) :
    (x.after dealing).left = x.left := by
  cases dealing with
  | answer value =>
    dsimp only [after]
    split <;> rfl
  | drop id gone spared => exact absurd rfl (hdealing id gone spared)
  | _ => rfl

theorem Deals.destroyed_of_fault {h h' : Holdings α} (hdeals : Deals h .fault h') :
    h'.destroyed = h.held.reverse ++ h.destroyed := by
  cases hdeals
  rfl

theorem Deals.destroyed_of_ne {h h' : Holdings α} {dealing : Dealing α}
    (hdeals : Deals h dealing h') (hfault : dealing ≠ .fault)
    (hdrop : ∀ id gone spared, dealing ≠ .drop id gone spared) : h'.destroyed = h.destroyed := by
  cases hdeals with
  | fault => exact absurd rfl hfault
  | drop => exact absurd rfl (hdrop _ _ _)
  | _ => rfl

def Dealing.Destroys : Dealing α → Prop
  | .fault | .drop _ _ _ => True
  | _ => False

/-- A command destroys nothing unless it faults. -/
theorem Move.not_destroys_commanded (move : Move n α) (command : Command α) :
    ¬ (move.commanded command).Destroys := by
  unfold commanded
  split
  · split <;> exact not_false
  · exact not_false
  · exact not_false

section

variable [Destructor α] {move : Move n α}

theorem Move.dealing_ne_drop (hdeed : ∀ id, move.deed ≠ .dropStack id) (id : StackId)
    (gone spared : List α) : move.dealing ≠ .drop id gone spared := by
  unfold dealing
  split
  · next j hdrop => exact absurd hdrop (hdeed j)
  · nofun
  · split
    · nofun
    · cases move.command? with
      | none => nofun
      | some given =>
        intro hdrop
        apply move.not_destroys_commanded given.2
        rw [show move.commanded given.2 = _ from hdrop]
        trivial

theorem Move.dealing_ne_fault (hfaulted : ¬ move.turn.Faulted) : move.dealing ≠ .fault := by
  unfold dealing
  split
  · nofun
  · nofun
  · rw [if_neg hfaulted]
    cases move.command? with
    | none => nofun
    | some given =>
      intro hfault
      apply move.not_destroys_commanded given.2
      rw [show move.commanded given.2 = _ from hfault]
      trivial

end

/-! ## Runs -/

def answersIn (moves : List (Move n α)) : List α := moves.filterMap fun move ↦ move.turn.answered?

section

variable [Destructor α] {m : Machine n α} {moves : List (Move n α)} {deed : Deed α}
  {turn : Turn n α}

theorem whereabouts_append (moves : List (Move n α)) (move : Move n α) :
    whereabouts (moves ++ [move]) = (whereabouts moves).after move.dealing := List.foldl_append

theorem Run.called (hrun : Run Machine.empty moves m) : Called m.frames := by
  induction hrun with
  | start => trivial
  | move _ hcarry ih =>
    rw [Turn.frames_machine]
    exact Machine.called_of_carryOut ih hcarry

/-- A run keeps track of all values. -/
theorem Run.tracks (hrun : Run Machine.empty moves m) :
    Tracks (whereabouts moves) m.holdings (answersIn moves) := by
  induction hrun with
  | start => exact tracks_empty
  | @move moves m' deed turn hrun hcarry ih =>
    have hdeals := Move.deals (hrun.sound Machine.sound_empty) hrun.called hcarry
    obtain ⟨hheld, hout, hdestroyed, hbalance⟩ := hdeals.tracks ih
    have hafter : (turn.machine m'.thread).holdings =
        ⟨turn.world.valuesIn, valuesOf turn.frames, turn.world.answered, turn.world.destroyed⟩ := by
      rw [Machine.holdings, Turn.world_machine, Turn.frames_machine]
    have hanswers : answersIn (moves ++ [⟨m', deed, turn⟩]) =
        answersIn moves ++ turn.answered?.toList := by
      rw [answersIn, List.filterMap_append]
      cases hanswer : turn.answered? with
      | none => rw [List.filterMap_cons_none (by exact hanswer)]; rfl
      | some value => rw [List.filterMap_cons_some (by exact hanswer)]; rfl
    rw [whereabouts_append, hafter, hanswers]
    refine ⟨hheld, ?_, hdestroyed, hbalance⟩
    rw [List.append_assoc]
    exact hout

/-- A drop that does not fault spares no value. -/
theorem Machine.faulted_of_spared {id : StackId} (hcarry : m.carryOut (.dropStack id) = some turn)
    (hspared : spared (m.world.valuesIn id) ≠ []) : turn.Faulted := by
  obtain ⟨w, t, frames⟩ := m
  cases frames with
  | cons frame frames => cases hcarry
  | nil =>
    obtain rfl := Option.some.inj hcarry
    obtain ⟨-, -, -, hok⟩ := w.destroyed_dropStack id
    cases hresult : (w.dropStack id).2 with
    | error fault => trivial
    | ok _ => exact absurd (hok hresult) hspared

/-- Values are left behind only by a drop that faults. -/
theorem Run.exists_drop_of_left (hrun : Run Machine.empty moves m) {id : StackId}
    (hleft : valuesOn id (whereabouts moves).left ≠ []) :
    ∃ move ∈ moves, move.deed = .dropStack id ∧ move.turn.Faulted := by
  induction hrun with
  | start => exact absurd rfl hleft
  | @move moves m' deed turn hrun hcarry ih =>
    have hbefore (hleft : valuesOn id (whereabouts moves).left ≠ []) :
        ∃ move ∈ moves ++ [⟨m', deed, turn⟩], move.deed = .dropStack id ∧ move.turn.Faulted := by
      obtain ⟨move, hmem, hmove⟩ := ih hleft
      exact ⟨move, List.mem_append_left _ hmem, hmove⟩
    rw [whereabouts_append] at hleft
    by_cases hdeed : ∃ j, deed = .dropStack j
    · obtain ⟨j, rfl⟩ := hdeed
      change valuesOn id ((spared (m'.world.valuesIn j)).map (Prod.mk j) ++
        (whereabouts moves).left) ≠ [] at hleft
      rw [valuesOn_append, valuesOn_map] at hleft
      by_cases hj : j = id ∧ spared (m'.world.valuesIn j) ≠ []
      · obtain ⟨rfl, hspared⟩ := hj
        exact ⟨_, List.mem_append_right _ List.mem_cons_self, rfl,
          Machine.faulted_of_spared hcarry hspared⟩
      · apply hbefore
        rwa [show (if j = id then spared (m'.world.valuesIn j) else []) = [] by grind] at hleft
    · have hdealing : ∀ j gone spared, (Move.mk m' deed turn).dealing ≠ .drop j gone spared :=
        Move.dealing_ne_drop fun j hj ↦ hdeed ⟨j, hj⟩
      rw [Whereabouts.left_after _ hdealing] at hleft
      exact hbefore hleft

theorem Move.dealing_of_faulted (hcarry : m.carryOut deed = some turn)
    (hdeed : ∀ id, deed ≠ .dropStack id) (hfaulted : turn.Faulted) :
    (Move.mk m deed turn).dealing = .fault := by
  unfold dealing
  split
  · next j hdrop => exact absurd hdrop (hdeed j)
  · next r value hold frames hproceed hframes =>
    obtain ⟨w, t, frames⟩ := m
    obtain rfl : deed = .proceed := hproceed
    obtain rfl : frames = _ := hframes
    obtain rfl := Option.some.inj hcarry
    exact absurd hfaulted (Machine.not_faulted_resume _ _ _ _)
  · exact if_pos hfaulted

/-- Unless it drops a stack, a move destroys what pops hold if it faults, and nothing else. -/
theorem Move.destroyed_of_ne (hm : m.Sound) (hcalled : Called m.frames)
    (hcarry : m.carryOut deed = some turn) (hdeed : ∀ id, deed ≠ .dropStack id) :
    turn.world.destroyed =
      (if turn.Faulted then (valuesOf m.frames).reverse else []) ++ m.world.destroyed := by
  have hdeals := Move.deals hm hcalled hcarry
  by_cases hfaulted : turn.Faulted
  · rw [if_pos hfaulted]
    rw [dealing_of_faulted hcarry hdeed hfaulted] at hdeals
    exact hdeals.destroyed_of_fault
  · rw [if_neg hfaulted]
    exact hdeals.destroyed_of_ne (dealing_ne_fault hfaulted) (dealing_ne_drop hdeed)

end

/-- Every value leaves a stack over a registry exactly once: each that was pushed to a stack was
handed out by one answer of a pop, was destroyed, is held by a pop, is linked, or was left behind
when a drop of the stack faulted. -/
structure LeaveOnce [Destructor α] (moves : List (Move n α)) (m : Machine n α) : Prop where
  balance : ∀ id, (valuesOn id (whereabouts moves).pushed).Perm
    (valuesOn id (whereabouts moves).handedOut ++ valuesOn id (whereabouts moves).destroyed ++
      valuesOn id (whereabouts moves).held ++ valuesOn id (whereabouts moves).left ++
      m.world.valuesIn id)
  handedOut : ((whereabouts moves).handedOut.map Prod.snd).Perm
    (answersIn moves ++ m.world.answered)
  destroyed : (whereabouts moves).destroyed.map Prod.snd = m.world.destroyed
  held : (whereabouts moves).held.map Prod.snd = valuesOf m.frames
  left : ∀ id, valuesOn id (whereabouts moves).left ≠ [] →
    ∃ move ∈ moves, move.deed = .dropStack id ∧ move.turn.Faulted
  /-- Between commands, when a stack is gone, each of its values has left. -/
  dropped : ∀ id, m.frames = [] → m.world.stack? id = none →
    (valuesOn id (whereabouts moves).pushed).Perm
      (valuesOn id (whereabouts moves).handedOut ++ valuesOn id (whereabouts moves).destroyed ++
        valuesOn id (whereabouts moves).left)
  /-- Commands and steps destroy nothing, but for the values that pops hold when one faults. -/
  spares : ∀ move ∈ moves, (∀ id, move.deed ≠ .dropStack id) → move.turn.world.destroyed =
    (if move.turn.Faulted then (valuesOf move.before.frames).reverse else []) ++
      move.before.world.destroyed
  /-- The end of a registry destroys nothing, unless a deleter faults. -/
  close : ∀ t r, (m.world.close t r).2 = .ok () →
    (m.world.close t r).1.destroyed = m.world.destroyed
  /-- Nodes are all freed at the end of a registry, the head of its list first. -/
  closeNodes : ∀ t r, (∀ entry ∈ (m.world.limbo r).entries, ∃ node, entry.address = .node node) →
    m.world.close t r =
      ((m.world.limbo r).entries.foldl World.start (m.world.detachLimbo r).2, .ok ())

theorem Run.leaveOnce [Destructor α] {m : Machine n α} {moves : List (Move n α)}
    (hrun : Run Machine.empty moves m) : LeaveOnce moves m := by
  obtain ⟨hheld, hout, hdestroyed, hbalance⟩ := hrun.tracks
  refine ⟨hbalance, hout, hdestroyed, hheld, fun _ ↦ hrun.exists_drop_of_left, ?_, ?_,
    fun _ _ ↦ World.destroyed_close, fun t r hnodes ↦ World.close_of_plain (fun entry hmem ↦ ?_) t⟩
  · intro id hidle hgone
    have hnone : (whereabouts moves).held = [] := by
      rw [Machine.holdings, hidle] at hheld
      exact List.map_eq_nil_iff.mp hheld
    have hlinked : m.world.valuesIn id = [] := by
      rw [World.valuesIn, World.links_of_dropped hgone]
      rfl
    have hperm := hbalance id
    rw [hnone, show m.holdings.linked id = [] from hlinked] at hperm
    simpa using hperm
  · intro move hmem hdeed
    obtain ⟨before, after, -, hbefore, hcarry, -⟩ := hrun.exists_before hmem
    exact Move.destroyed_of_ne (hbefore.sound Machine.sound_empty) hbefore.called hcarry hdeed
  · obtain ⟨node, hnode⟩ := hnodes entry hmem
    exact hrun.program_of_node hmem hnode

end Reclaim.Hazard
