import Reclaim.Proofs.Hazard.Handling

/-!
# Moves are rows of handlings

Whatever a machine does, it handles slots in one of few ways. A move claims a slot only for a
command that asks for one, and takes the slot out of a cell only if its thread unregisters or the
cell is destroyed.
-/

namespace Reclaim.Hazard

variable {n : Nat} {α : Type}

/-- What a command of a thread can do, given the turn that comes of it. -/
def Command.Transfers (command : Command α) (w : World n α) (t : ThreadId) (turn : Turn n α) :
    Transfer n → Prop
  | .take slot =>
    slot.thread = t ∧ (command = .tryClaim slot.registry ∨ command = .claim slot.registry)
  | .keep key slot =>
    slot.thread = t ∧ ∃ id, command = .pop key id ∧ w.claimsIn? key id = some slot.registry
  | .once key slot =>
    slot.thread = t ∧ ∃ id, command = .pop key id ∧ w.claimsIn? key id = some slot.registry
  | .vacate t' key => t' = t ∧ command = .unregister key ∧ ¬ turn.Faulted

def Move.Transfers (move : Move n α) (transfer : Transfer n) : Prop :=
  (∃ t command, move.command? = some (t, command) ∧
    command.Transfers move.before.world t move.turn transfer) ∨
  ∃ t key, move.deed = .destroyCell t key ∧ transfer = .vacate t key

section

variable {P : Transfer n → Prop} {w v : World n α} {t : ThreadId}

theorem Handlings.beside (hbeside : w.Beside v) (t : ThreadId) (holds : List (Hold n)) :
    Handlings P ⟨w, t, holds⟩ ⟨v, t, holds⟩ :=
  .single (.beside t holds hbeside)

/-- What every handling keeps, a row of handlings keeps. -/
theorem Handlings.kept {d e : Desk n α} {Q : Desk n α → Prop} (hrow : Handlings P d e)
    (hQ : ∀ d e, Handling P d e → Q d → Q e) (hd : Q d) : Q e := by
  induction hrow with
  | refl => exact hd
  | tail _ hhandling ih => exact hQ _ _ hhandling ih

namespace Machine

theorem handlings_resume (w : World n α) (t : ThreadId) (answer : Answer α)
    (frames : List (Frame n α)) :
    Handlings P (deskOf w t frames) ((resume w t answer frames).machine t).desk := by
  unfold resume
  split
  · exact .refl
  · exact .beside (w.beside_note answer) t _
  · exact .beside (w.beside_modifyLimbo _ _) t _
  · exact .refl

theorem handlings_unwind (frames : List (Frame n α)) (w : World n α) (t : ThreadId) :
    Handlings P (deskOf w t frames) ⟨w.unwind t frames, t, []⟩ := by
  induction frames generalizing w with
  | nil => exact .refl
  | cons frame frames ih =>
    cases frame with
    | deleter rest => exact ih w
    | sweep sweep =>
      have hcut : w.Beside { w with cutShort := sweep :: w.cutShort } := .of_eq rfl rfl rfl
      exact (Handlings.beside hcut t _).trans (ih _)
    | pop popping =>
      have hdropped : w.Beside (w.record (.dropped popping.value)) := .of_eq rfl rfl rfl
      exact ((Handlings.beside hdropped t _).tail (.giveBack _ t popping.hold _)).trans (ih _)

theorem handlings_raise (w : World n α) (t : ThreadId) (frames : List (Frame n α)) (fault : Fault) :
    Handlings P (deskOf w t frames) ((raise w t frames fault).machine t).desk :=
  handlings_unwind frames w t

theorem handlings_retire (w : World n α) (t : ThreadId) (r : RegistryId) (entry : Entry α)
    (frames : List (Frame n α)) :
    Handlings P (deskOf w t frames) ((retire w t r entry frames).machine t).desk := by
  unfold retire
  split
  · exact (Handlings.beside (w.beside_modifyLimbo r (·.park entry)) t _).trans
      (handlings_resume _ t .done frames)
  · exact .beside (w.beside_start entry) t _

theorem handlings_reclaim (w : World n α) (t : ThreadId) (r : RegistryId)
    (frames : List (Frame n α)) :
    Handlings P (deskOf w t frames) ((reclaim w t r frames).machine t).desk :=
  .beside (w.beside_detachLimbo r) t _

/-- A pop publishes in its slot, clears it, and gives it back if it ends at once. -/
theorem handlings_startPop {slot : Handle n} {hold : Hold n} {frames : List (Frame n α)}
    (hslot : slot ∈ Desk.held ⟨w, t, hold :: frames.filterMap Frame.hold?⟩) (id : StackId)
    (stack : Stack) :
    Handlings P ⟨w, t, hold :: frames.filterMap Frame.hold?⟩
      ((startPop w t id stack slot hold frames).machine t).desk := by
  unfold startPop
  split
  · exact (Relation.ReflTransGen.single (.giveBack w t hold _)).trans
      (handlings_raise _ t frames _)
  · split
    · exact ((Relation.ReflTransGen.single (.publish hslot none)).tail (.giveBack _ t hold _)).trans
        (handlings_resume _ t _ frames)
    · next node contents htop =>
      let published := w.publish slot (some (.node node))
      let unlinked := published.setHead id contents.next
      have hunlinked : published.Beside unlinked := .of_eq rfl rfl rfl
      have hslot' : slot ∈ Desk.held ⟨unlinked, t, hold :: frames.filterMap Frame.hold?⟩ := hslot
      exact ((Relation.ReflTransGen.single (.publish hslot _)).trans
        (Handlings.beside hunlinked t _)).tail (.publish hslot' none)

theorem mem_held_of_handle {h : HandleId} {slot : Handle n} (hhandle : w.handle? h = some slot)
    (holds : List (Hold n)) : slot ∈ Desk.held ⟨w, t, holds⟩ :=
  List.mem_append_left _ (List.mem_append_left _ (World.mem_explicit hhandle))

theorem mem_held_of_cell {key : CellKey} {cell : Cell n} {slot : Handle n} {holds : List (Hold n)}
    (hcell : w.cell? t key = some cell) (hslot : cell.slot? = some slot) :
    slot ∈ Desk.held ⟨w, t, holds⟩ := by
  obtain ⟨rest, hkept, -⟩ := World.exists_perm_setCell hcell
  have hmem : slot ∈ w.keptSlots := hkept.mem_iff.mpr (by rw [hslot]; exact List.mem_cons_self)
  exact List.mem_append_left _ (List.mem_append_right _ hmem)

end Machine

namespace World.Seating

variable {key : CellKey} {r : RegistryId} {slot : Handle n} {hold : Hold n}

theorem mem_held (hseating : w.Seating t key r slot v hold) (holds : List (Hold n)) :
    slot ∈ Desk.held ⟨v, t, hold :: holds⟩ := by
  cases hseating with
  | kept hcell => exact Machine.mem_held_of_cell (cell?_setCell_self hcell _) rfl
  | claimed hcell _ hclaim =>
    have hcell' := (cell?_of_claimSlot hclaim t key).trans hcell
    exact Machine.mem_held_of_cell (cell?_setCell_self hcell' _) rfl
  | once => exact List.mem_append_right _ List.mem_cons_self

/-- A pop comes by its slot in one handling. -/
theorem handling (hseating : w.Seating t key r slot v hold) (holds : List (Hold n))
    (hP : slot.thread = t → slot.registry = r → P (.keep key slot) ∧ P (.once key slot)) :
    Handling P ⟨w, t, holds⟩ ⟨v, t, hold :: holds⟩ := by
  cases hseating with
  | kept hcell => exact .borrow holds hcell
  | claimed hcell hfree hclaim =>
    obtain ⟨-, -, -, hregistry, hthread, -⟩ := exists_of_claimSlot hclaim
    exact .keep holds hcell hfree.vacant hclaim (hP hthread hregistry).1
  | once hcell hclaim =>
    obtain ⟨-, -, -, hregistry, hthread, -⟩ := exists_of_claimSlot hclaim
    exact .once holds hcell hclaim (hP hthread hregistry).2

end World.Seating

namespace Machine

/-- A command is a row of handlings, none of which does what the command cannot do. -/
theorem Executes.handlings {command : Command α} {frames : List (Frame n α)} {turn : Turn n α}
    (h : Executes w t frames command turn)
    (hP : ∀ transfer, command.Transfers w t turn transfer → P transfer) :
    Handlings P (deskOf w t frames) (turn.machine t).desk := by
  have handled {v : World n α} (answer : Answer α)
      (hhandling : Handling P (deskOf w t frames) (deskOf v t frames)) :
      Handlings P (deskOf w t frames) ((resume v t answer frames).machine t).desk :=
    (Relation.ReflTransGen.single hhandling).trans (handlings_resume v t answer frames)
  cases h with
  | refused => exact handlings_resume w t _ frames
  | faulted => exact handlings_raise w t frames _
  | exhausted => exact handlings_resume w t _ frames
  | claimed hcommand hclaim =>
    obtain ⟨-, -, -, hregistry, hthread, -⟩ := World.exists_of_claimSlot hclaim
    exact handled _ (.take _ hclaim (hP _ ⟨hthread, hregistry ▸ hcommand⟩))
  | released hhandle => exact handled _ (.release t _ hhandle)
  | published hhandle address => exact handled _ (.publish (mem_held_of_handle hhandle _) address)
  | pushed => exact handled _ (.beside t _ (.of_eq rfl rfl rfl))
  | @lent id stack h slot _ hhandle =>
    exact (Relation.ReflTransGen.single (.lend w t _)).trans
      (handlings_startPop (mem_held_of_handle hhandle _) id stack)
  | @seated key id stack slot v hold hstack hseating =>
    have hclaims : w.claimsIn? key id = some (key.registry stack) := by
      rw [World.claimsIn?, hstack]
      rfl
    have hhandling := hseating.handling (P := P) (frames.filterMap Frame.hold?)
      fun hthread hregistry ↦ ⟨hP _ ⟨hthread, id, rfl, hregistry ▸ hclaims⟩,
        hP _ ⟨hthread, id, rfl, hregistry ▸ hclaims⟩⟩
    exact (Relation.ReflTransGen.single hhandling).trans
      (handlings_startPop (hseating.mem_held _) id stack)
  | unseated _ hcell hfree =>
    exact (Relation.ReflTransGen.single (.leave _ hcell hfree.vacant (Or.inl rfl))).trans
      (handlings_raise _ t frames _)
  | @vacated key slot hcell =>
    have hvacate : P (.vacate t key) := hP _ ⟨rfl, rfl, not_faulted_resume _ t .done frames⟩
    exact handled _ (.vacate hcell (Or.inl rfl) (Or.inl rfl) hvacate)
  | vacant hcell hfree => exact handled _ (.leave _ hcell hfree.vacant (Or.inl rfl))
  | destroyed => exact handlings_resume w t _ frames
  | @retired r o =>
    have hmarked : w.Beside (w.markRetired o) := .of_eq rfl rfl rfl
    exact (Handlings.beside hmarked t _).trans (handlings_retire _ t r _ frames)
  | @reclaimed r => exact handlings_reclaim w t r frames

/-- A step is a row of handlings. -/
theorem handlings_step (m : Machine n α)
    (hP : ∀ transfer, (Move.mk m .proceed m.step).Transfers transfer → P transfer) :
    Handlings P m.desk (m.step.machine m.thread).desk := by
  obtain ⟨w, t, frames⟩ := m
  cases frames with
  | nil => exact .refl
  | cons frame frames =>
    cases frame with
    | deleter program =>
      cases program with
      | nil => exact handlings_resume w t .done frames
      | cons command rest =>
        have hcommand : ∀ transfer, command.Transfers w t
            (execute w t command (.deleter rest :: frames)) transfer → P transfer :=
          fun transfer htransfer ↦ hP transfer (Or.inl ⟨t, command, rfl, htransfer⟩)
        exact (executes w t _ command).handlings hcommand
    | sweep sweep =>
      obtain ⟨r, current, rest, freed⟩ := sweep
      cases rest with
      | nil => exact handlings_resume w t _ frames
      | cons entry rest =>
        dsimp only [step]
        split
        · exact .beside (w.beside_modifyLimbo r (·.putBack entry)) t _
        · exact .beside (w.beside_start entry) t _
    | pop popping =>
      obtain ⟨r, value, hold, stage⟩ := popping
      cases stage with
      | retire node =>
        exact handlings_retire w t r (.ofNode node) (.pop ⟨r, value, hold, .reclaim⟩ :: frames)
      | reclaim => exact handlings_reclaim w t r (.pop ⟨r, value, hold, .answer⟩ :: frames)
      | answer =>
        exact (Relation.ReflTransGen.single (.giveBack w t hold _)).trans
          (handlings_resume _ t _ frames)

theorem handlings_destroyCell (t : ThreadId) {t' : ThreadId} {key : CellKey}
    (hP : P (.vacate t' key)) : Handlings P ⟨w, t, []⟩ ⟨w.destroyCell t' key, t, []⟩ := by
  unfold World.destroyCell
  rcases hcell : w.cell? t' key with _ | _ | ⟨_ | slot, borrowed⟩ | _
  case some.live.none => exact .single (.leave _ hcell trivial (Or.inr rfl))
  case some.live.some => exact .single (.vacate hcell (Or.inr rfl) (Or.inr rfl) hP)
  all_goals exact .refl

/-- Every move is a row of handlings that do no more than the move can. -/
theorem handlings_carryOut [Destructor α] {m : Machine n α} {deed : Deed α} {turn : Turn n α}
    (hcarry : m.carryOut deed = some turn) :
    Handlings (Move.mk m deed turn).Transfers m.desk (turn.machine m.thread).desk := by
  obtain ⟨w, t, frames⟩ := m
  cases frames with
  | cons frame frames =>
    cases deed with
    | proceed =>
      obtain rfl := Option.some.inj hcarry
      exact handlings_step _ fun _ htransfer ↦ htransfer
    | _ => cases hcarry
  | nil =>
    have hbeside {v : World n α} (hbeside : w.Beside v) (result : Except Fault (Answer α)) :
        Handlings (Move.mk ⟨w, t, []⟩ deed (.done v result)).Transfers ⟨w, t, []⟩ ⟨v, t, []⟩ :=
      .beside hbeside t []
    cases deed with
    | addRegistry =>
      obtain rfl := Option.some.inj hcarry
      exact .single (.addRegistry w t)
    | addStack r =>
      obtain ⟨-, hturn⟩ := Option.ite_none_right_eq_some.mp hcarry
      obtain rfl := Option.some.inj hturn
      have hadded : w.Beside (w.addStack r) := .of_eq rfl rfl rfl
      exact hbeside hadded _
    | addObject program =>
      obtain rfl := Option.some.inj hcarry
      have hadded : w.Beside (w.addObject program) := .of_eq rfl rfl rfl
      exact hbeside hadded _
    | spawn =>
      obtain rfl := Option.some.inj hcarry
      exact .single (.spawn w t)
    | issue t' command =>
      obtain rfl := Option.some.inj hcarry
      have hcommand : ∀ transfer, command.Transfers w t' (execute w t' command []) transfer →
          (Move.mk ⟨w, t, []⟩ (.issue t' command) (execute w t' command [])).Transfers transfer :=
        fun transfer htransfer ↦ Or.inl ⟨t', command, rfl, htransfer⟩
      have hrow := (Relation.ReflTransGen.single (Handling.turnTo w t t')).trans
        ((executes w t' [] command).handlings hcommand)
      revert hrow
      generalize execute w t' command [] = turn
      intro hrow
      cases turn with
      | next m => exact hrow
      | done v result => exact hrow.tail (.turnTo v t' t)
    | proceed => cases hcarry
    | letGo t' =>
      obtain rfl := Option.some.inj hcarry
      exact .single (.letGo w t t')
    | destroyCell t' key =>
      obtain rfl := Option.some.inj hcarry
      exact handlings_destroyCell t (Or.inr ⟨t', key, rfl, rfl⟩)
    | finish t' =>
      obtain rfl := Option.some.inj hcarry
      exact hbeside (w.beside_finish t') _
    | dropStack id =>
      obtain rfl := Option.some.inj hcarry
      exact hbeside (w.beside_dropStack id) _

end Machine

/-- What every handling that moves can do keeps, a run keeps. -/
theorem Run.handled [Destructor α] {m m' : Machine n α} {moves : List (Move n α)}
    {Q : Desk n α → Prop} (hrun : Run m moves m')
    (hQ : ∀ move ∈ moves, ∀ d e, Handling move.Transfers d e → Q d → Q e) (hm : Q m.desk) :
    Q m'.desk := by
  induction hrun with
  | start => exact hm
  | @move moves pre deed turn hrun hcarry ih =>
    have hpre := ih fun move hmem ↦ hQ move (List.mem_append_left _ hmem)
    have hstep := hQ _ (List.mem_append_right _ List.mem_cons_self)
    exact (Machine.handlings_carryOut hcarry).kept hstep hpre

end

end Reclaim.Hazard
