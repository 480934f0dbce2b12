import Mathlib.Logic.Relation
import Reclaim.Lists
import Reclaim.Proofs.Hazard.Holders

/-!
# How slots change hands

A slot has a handle where a thread claimed it explicitly, in the cell of a thread that keeps it, or
with a pop that claimed it for itself. Whatever a machine does with slots is a row of few kinds of
handlings, each of which keeps all handles right. So the slots are held by the handles at every
moment of a run.
-/

namespace Reclaim.Hazard

variable {n : Nat} {α : Type}

def Cell.slot? : Cell n → Option (Handle n)
  | .live slot _ => slot
  | _ => none

/-- The cell keeps no slot, but can. -/
def Cell.Vacant : Cell n → Prop
  | .unused | .live none _ => True
  | _ => False

theorem Cell.Free.vacant {cell : Cell n} (hfree : cell.Free) : cell.Vacant := by
  rcases cell with _ | ⟨_ | _, _ | _⟩ | _
  case unused | live.none.false => trivial
  all_goals cases hfree

theorem Cell.Vacant.slot?_eq {cell : Cell n} (hvacant : cell.Vacant) : cell.slot? = none := by
  rcases cell with _ | ⟨_ | _, _⟩ | _ <;> first | rfl | cases hvacant

theorem Thread.cell_setCell (thread : Thread n) (key key' : CellKey) (cell : Cell n) :
    (thread.setCell key cell).cell key' = if key = key' then cell else thread.cell key' := by
  cases key <;> cases key' <;> rfl

def Thread.slots (thread : Thread n) : List (Handle n) :=
  (thread.cell .processWide).slot?.toList ++ (thread.cell .ordinary).slot?.toList

namespace World

def explicit (w : World n α) : List (Handle n) := w.handles.flatMap Option.toList

def keptSlots (w : World n α) : List (Handle n) := w.threads.flatMap Thread.slots

end World

/-- The slots at one moment: the world, the thread whose command is under way, and how its pops came
by their slots. -/
structure Desk (n : Nat) (α : Type) where
  world : World n α
  thread : ThreadId
  holds : List (Hold n)

def Desk.held (d : Desk n α) : List (Handle n) :=
  d.world.explicit ++ d.world.keptSlots ++ d.holds.flatMap Hold.slots

def Frame.hold? : Frame n α → Option (Hold n)
  | .pop popping => some popping.hold
  | _ => none

def deskOf (w : World n α) (t : ThreadId) (frames : List (Frame n α)) : Desk n α :=
  ⟨w, t, frames.filterMap Frame.hold?⟩

def Machine.desk (m : Machine n α) : Desk n α := deskOf m.world m.thread m.frames

def Machine.held (m : Machine n α) : List (Handle n) := m.desk.held

namespace World

variable {w v : World n α} {t : ThreadId} {key : CellKey} {slot : Handle n}

theorem cell?_setCell (w : World n α) (t : ThreadId) (key : CellKey) (cell : Cell n)
    (t' : ThreadId) (key' : CellKey) :
    (w.setCell t key cell).cell? t' key' =
      if t = t' ∧ key = key' then (w.cell? t' key').map fun _ ↦ cell else w.cell? t' key' := by
  rw [setCell, cell?_modifyThread]
  by_cases ht : t = t'
  · subst ht
    simp only [if_true, Thread.cell_setCell, true_and, cell?]
    cases w.threads[t]? <;> by_cases hkey : key = key' <;> simp [hkey]
  · simp [ht]

theorem cell?_setCell_self {cell : Cell n} (hcell : w.cell? t key = some cell) (put : Cell n) :
    (w.setCell t key put).cell? t key = some put := by
  rw [cell?_setCell, if_pos ⟨rfl, rfl⟩, hcell]
  rfl

theorem setBorrowed_of_live {slot? : Option (Handle n)} {borrowed : Bool}
    (hcell : w.cell? t key = some (.live slot? borrowed)) (borrowed' : Bool) :
    w.setBorrowed t key borrowed' = w.setCell t key (.live slot? borrowed') := by
  obtain ⟨thread, hthread, hlive⟩ := Option.map_eq_some_iff.mp hcell
  refine congrArg (fun threads ↦ { w with threads }) (List.ext_getElem? fun i ↦ ?_)
  simp only [List.getElem?_modify]
  split
  · next hi =>
    rw [← hi, hthread]
    simp [hlive]
  · rfl

theorem setBorrowed_of_not_live (hcell : ∀ slot? borrowed,
      w.cell? t key ≠ some (.live slot? borrowed)) (borrowed : Bool) :
    w.setBorrowed t key borrowed = w := by
  refine congrArg (fun threads ↦ { w with threads }) (List.ext_getElem? fun i ↦ ?_)
  simp only [List.getElem?_modify]
  split
  · next hi =>
    rw [← hi]
    cases hthread : w.threads[t]? with
    | none => rfl
    | some thread =>
      have hthis := hcell
      simp only [cell?, hthread, Option.map_some, ne_eq, Option.some.injEq] at hthis
      cases hlive : thread.cell key with
      | live slot? borrowed' => exact absurd hlive (hthis slot? borrowed')
      | _ => simp [hlive]
  · simp

/-- A cell contributes the slot that it keeps. -/
theorem exists_perm_setCell {cell : Cell n} (hcell : w.cell? t key = some cell) :
    ∃ rest, w.keptSlots.Perm (cell.slot?.toList ++ rest) ∧
      ∀ cell', (w.setCell t key cell').keptSlots.Perm (cell'.slot?.toList ++ rest) := by
  obtain ⟨thread, hthread, rfl⟩ := Option.map_eq_some_iff.mp hcell
  obtain ⟨rest, hbefore, hset⟩ := exists_perm_set hthread Thread.slots
  have hafter (cell' : Cell n) :
      (w.setCell t key cell').keptSlots.Perm ((thread.setCell key cell').slots ++ rest) := by
    rw [keptSlots, setCell, modifyThread, List.modify_eq_set_getElem?, hthread]
    exact hset _
  cases key with
  | processWide =>
    refine ⟨thread.ordinary.slot?.toList ++ rest, ?_, fun cell' ↦ ?_⟩
    · rw [← List.append_assoc]
      exact hbefore
    · rw [← List.append_assoc]
      exact hafter _
  | ordinary =>
    have hswap (xs : List (Handle n)) : (thread.processWide.slot?.toList ++ xs ++ rest).Perm
        (xs ++ (thread.processWide.slot?.toList ++ rest)) := by
      rw [← List.append_assoc]
      exact List.perm_append_comm.append_right rest
    exact ⟨_, hbefore.trans (hswap _), fun cell' ↦ (hafter _).trans (hswap _)⟩

theorem keptSlots_setCell {cell cell' : Cell n} (hcell : w.cell? t key = some cell)
    (hsame : cell'.slot? = cell.slot?) : (w.setCell t key cell').keptSlots.Perm w.keptSlots := by
  obtain ⟨rest, hbefore, hafter⟩ := exists_perm_setCell hcell
  have hsame' := hafter cell'
  rw [hsame] at hsame'
  exact hsame'.trans hbefore.symm

theorem keptSlots_setBorrowed (w : World n α) (t : ThreadId) (key : CellKey) (borrowed : Bool) :
    (w.setBorrowed t key borrowed).keptSlots.Perm w.keptSlots := by
  by_cases hlive : ∃ slot? borrowed', w.cell? t key = some (.live slot? borrowed')
  · obtain ⟨slot?, borrowed', hcell⟩ := hlive
    rw [setBorrowed_of_live hcell]
    exact keptSlots_setCell hcell rfl
  · rw [setBorrowed_of_not_live fun slot? borrowed' hcell ↦ hlive ⟨_, _, hcell⟩]

theorem explicit_addHandle (w : World n α) (slot : Handle n) :
    (w.addHandle slot).2.explicit = w.explicit ++ [slot] := by
  rw [explicit, addHandle, List.flatMap_append]
  rfl

theorem explicit_removeHandle {h : HandleId} (hhandle : w.handle? h = some slot) :
    w.explicit.Perm (slot :: (w.removeHandle h).explicit) := by
  have hget : w.handles[h]? = some (some slot) := Option.join_eq_some_iff.mp hhandle
  obtain ⟨rest, hbefore, hafter⟩ := exists_perm_set hget Option.toList
  exact hbefore.trans ((hafter none).symm.cons slot)

theorem mem_explicit {h : HandleId} (hhandle : w.handle? h = some slot) : slot ∈ w.explicit :=
  (explicit_removeHandle hhandle).mem_iff.mpr List.mem_cons_self

/-- The slots that a thread gives up when it ends are among those claimed explicitly. -/
theorem explicit_releaseHandles (w : World n α) (t : ThreadId) :
    w.explicit.Perm (w.handlesOf t ++ (w.releaseHandles (·.thread = t)).explicit) := by
  have hsplit (handles : List (Option (Handle n))) :
      (handles.flatMap Option.toList).Perm
        ((handles.filterMap fun handle ↦ handle.filter (·.thread = t)) ++
          (handles.map fun handle ↦ handle.filter fun slot ↦ !decide (slot.thread = t)).flatMap
            Option.toList) := by
    induction handles with
    | nil => exact .refl _
    | cons handle rest ih =>
      cases handle with
      | none => exact ih
      | some slot =>
        by_cases hmine : slot.thread = t
        · simpa [Option.filter_some, hmine] using ih
        · simpa [Option.filter_some, hmine] using (ih.cons slot).trans List.perm_middle.symm
  exact hsplit w.handles

/-- From `w` to `v` no slot, no cell and none of the handles changed. -/
structure Beside (w v : World n α) : Prop where
  slots : v.registries.map (·.slots) = w.registries.map (·.slots)
  handles : v.handles = w.handles
  cells : v.threads.map Thread.cell = w.threads.map Thread.cell

namespace Beside

theorem of_eq (hregistries : v.registries = w.registries) (hhandles : v.handles = w.handles)
    (hthreads : v.threads = w.threads) : w.Beside v :=
  ⟨congrArg _ hregistries, hhandles, congrArg _ hthreads⟩

theorem refl (w : World n α) : w.Beside w := ⟨rfl, rfl, rfl⟩

theorem trans {u : World n α} (hwv : w.Beside v) (hvu : v.Beside u) : w.Beside u :=
  ⟨hvu.slots.trans hwv.slots, hvu.handles.trans hwv.handles, hvu.cells.trans hwv.cells⟩

theorem cell? (hbeside : w.Beside v) (t : ThreadId) (key : CellKey) :
    v.cell? t key = w.cell? t key := by
  have hat (u : World n α) : u.cell? t key = (u.threads.map Thread.cell)[t]?.map (· key) := by
    rw [World.cell?, List.getElem?_map, Option.map_map]
    rfl
  rw [hat, hat, hbeside.cells]

theorem keptSlots (hbeside : w.Beside v) : v.keptSlots = w.keptSlots := by
  have hcells (u : World n α) : u.keptSlots = (u.threads.map Thread.cell).flatMap fun cell ↦
      (cell .processWide).slot?.toList ++ (cell .ordinary).slot?.toList := by
    rw [List.flatMap_map]
    rfl
  rw [hcells, hcells, hbeside.cells]

end Beside

theorem beside_modifyLimbo (w : World n α) (r : RegistryId)
    (f : LimboList (Entry α) → LimboList (Entry α)) : w.Beside (w.modifyLimbo r f) where
  slots := by
    apply List.ext_getElem?
    intro q
    simp only [modifyLimbo, modifyRegistry, List.getElem?_map, List.getElem?_modify]
    by_cases hq : r = q
    · subst hq
      cases w.registries[r]? <;> simp
    · simp [hq]
  handles := rfl
  cells := rfl

theorem beside_detachLimbo (w : World n α) (r : RegistryId) : w.Beside (w.detachLimbo r).2 := by
  unfold detachLimbo
  split
  · exact .refl w
  · exact w.beside_modifyLimbo r (·.detach.2)

theorem beside_start (w : World n α) (entry : Entry α) : w.Beside (w.start entry) := by
  unfold start
  split <;> exact .of_eq rfl rfl rfl

theorem beside_note (w : World n α) (answer : Answer α) : w.Beside (w.note answer) := by
  cases answer <;> exact .of_eq rfl rfl rfl

theorem beside_dropStack [Destructor α] (w : World n α) (id : StackId) :
    w.Beside (w.dropStack id).1 := by
  have hnodes (links : List (NodeId × Node α)) (w : World n α) :
      w.Beside (destroyNodes links w).1 := by
    induction links generalizing w with
    | nil => exact .refl w
    | cons link rest ih =>
      have hdropped : w.Beside (w.record (.dropped link.2.value)) := .of_eq rfl rfl rfl
      have hfirst := hdropped.trans (beside_start _ (.ofNode link.1))
      rw [destroyNodes]
      split
      · exact hfirst
      · exact hfirst.trans (ih _)
  unfold dropStack
  split
  · exact .refl w
  · have hforgotten : w.Beside { w with «stacks» := w.stacks.set id none } := .of_eq rfl rfl rfl
    exact hforgotten.trans (hnodes _ _)

theorem beside_finish (w : World n α) (t : ThreadId) :
    w.Beside (w.modifyThread t ({ · with ended := true })) where
  slots := rfl
  handles := rfl
  cells := by
    apply List.ext_getElem?
    intro i
    simp only [modifyThread, List.getElem?_map, List.getElem?_modify]
    split <;> cases w.threads[i]? <;> rfl

end World

/-! ## Handlings -/

/-- What can become of a slot that is claimed, and a cell that gives its slot up. -/
inductive Transfer (n : Nat) where
  /-- The slot is claimed explicitly. -/
  | take (slot : Handle n)
  /-- The slot is claimed for a cell of its thread. -/
  | keep (key : CellKey) (slot : Handle n)
  /-- The slot is claimed for one pop through a destroyed cell. -/
  | once (key : CellKey) (slot : Handle n)
  | vacate (t : ThreadId) (key : CellKey)

/-- A single thing that happens to the slots. Claims, and cells that give their slot up, are limited
to what `P` admits. -/
inductive Handling (P : Transfer n → Prop) : Desk n α → Desk n α → Prop
  | beside {w v : World n α} (t : ThreadId) (holds : List (Hold n)) (hbeside : w.Beside v) :
      Handling P ⟨w, t, holds⟩ ⟨v, t, holds⟩
  | addRegistry (w : World n α) (t : ThreadId) : Handling P ⟨w, t, []⟩ ⟨w.addRegistry, t, []⟩
  | spawn (w : World n α) (t : ThreadId) : Handling P ⟨w, t, []⟩ ⟨w.spawn, t, []⟩
  | turnTo (w : World n α) (t t' : ThreadId) : Handling P ⟨w, t, []⟩ ⟨w, t', []⟩
  | take {w v : World n α} {r : RegistryId} {t t' : ThreadId} {slot : Handle n}
      (holds : List (Hold n)) (hclaim : w.claimSlot r t' = some (slot, v)) (hP : P (.take slot)) :
      Handling P ⟨w, t, holds⟩ ⟨(v.addHandle slot).2, t, holds⟩
  | keep {w v : World n α} {r : RegistryId} {t : ThreadId} {key : CellKey} {cell : Cell n}
      {slot : Handle n} (holds : List (Hold n)) (hcell : w.cell? t key = some cell)
      (hvacant : cell.Vacant) (hclaim : w.claimSlot r t = some (slot, v))
      (hP : P (.keep key slot)) :
      Handling P ⟨w, t, holds⟩ ⟨v.setCell t key (.live (some slot) true), t, .cell key :: holds⟩
  | borrow {w : World n α} {t : ThreadId} {key : CellKey} {slot : Handle n} (holds : List (Hold n))
      (hcell : w.cell? t key = some (.live (some slot) false)) :
      Handling P ⟨w, t, holds⟩ ⟨w.setCell t key (.live (some slot) true), t, .cell key :: holds⟩
  | once {w v : World n α} {r : RegistryId} {t : ThreadId} {key : CellKey} {slot : Handle n}
      (holds : List (Hold n)) (hcell : w.cell? t key = some .destroyed)
      (hclaim : w.claimSlot r t = some (slot, v)) (hP : P (.once key slot)) :
      Handling P ⟨w, t, holds⟩ ⟨v, t, .temporary slot :: holds⟩
  | lend (w : World n α) (t : ThreadId) (holds : List (Hold n)) :
      Handling P ⟨w, t, holds⟩ ⟨w, t, .lent :: holds⟩
  | giveBack (w : World n α) (t : ThreadId) (hold : Hold n) (holds : List (Hold n)) :
      Handling P ⟨w, t, hold :: holds⟩ ⟨w.giveBack t hold, t, holds⟩
  | publish {w : World n α} {t : ThreadId} {holds : List (Hold n)} {slot : Handle n}
      (hheld : slot ∈ Desk.held ⟨w, t, holds⟩) (address : Option Address) :
      Handling P ⟨w, t, holds⟩ ⟨w.publish slot address, t, holds⟩
  | release {w : World n α} {h : HandleId} {slot : Handle n} (t : ThreadId) (holds : List (Hold n))
      (hhandle : w.handle? h = some slot) :
      Handling P ⟨w, t, holds⟩ ⟨(w.releaseSlot slot).removeHandle h, t, holds⟩
  | vacate {w : World n α} {t t' : ThreadId} {key : CellKey} {slot : Handle n} {borrowed : Bool}
      {holds : List (Hold n)} {cell' : Cell n}
      (hcell : w.cell? t' key = some (.live (some slot) borrowed))
      (hidle : borrowed = false ∨ holds = [])
      (hcell' : cell' = .live none false ∨ cell' = .destroyed) (hP : P (.vacate t' key)) :
      Handling P ⟨w, t, holds⟩ ⟨(w.releaseSlot slot).setCell t' key cell', t, holds⟩
  | leave {w : World n α} {t t' : ThreadId} {key : CellKey} {cell cell' : Cell n}
      (holds : List (Hold n)) (hcell : w.cell? t' key = some cell) (hvacant : cell.Vacant)
      (hcell' : cell' = .live none false ∨ cell' = .destroyed) :
      Handling P ⟨w, t, holds⟩ ⟨w.setCell t' key cell', t, holds⟩
  | letGo (w : World n α) (t t' : ThreadId) :
      Handling P ⟨w, t, []⟩ ⟨w.releaseHandles (·.thread = t'), t, []⟩

abbrev Handlings (P : Transfer n → Prop) : Desk n α → Desk n α → Prop :=
  Relation.ReflTransGen (Handling P)

section

variable {P : Transfer n → Prop} {d e : Desk n α} {w v : World n α} {t : ThreadId}
  {holds : List (Hold n)}

theorem World.keptSlots_of_claimSlot {r : RegistryId} {slot : Handle n}
    (hclaim : w.claimSlot r t = some (slot, v)) : v.keptSlots = w.keptSlots := by
  obtain ⟨registry, -, -, -, -, rfl⟩ := World.exists_of_claimSlot hclaim
  rfl

theorem World.explicit_of_claimSlot {r : RegistryId} {slot : Handle n}
    (hclaim : w.claimSlot r t = some (slot, v)) : v.explicit = w.explicit := by
  obtain ⟨registry, -, -, -, -, rfl⟩ := World.exists_of_claimSlot hclaim
  rfl

theorem World.cell?_of_claimSlot {r : RegistryId} {slot : Handle n}
    (hclaim : w.claimSlot r t = some (slot, v)) (t' : ThreadId) (key : CellKey) :
    v.cell? t' key = w.cell? t' key := by
  obtain ⟨registry, -, -, -, -, rfl⟩ := World.exists_of_claimSlot hclaim
  rfl

/-- The handles of a desk are right if they are so part by part. -/
theorem World.HeldBy.onDesk {explicit kept held : List (Handle n)} (hw : w.HeldBy held)
    (hslots : ∀ r i, e.world.slotAt? r i = w.slotAt? r i)
    (hexplicit : e.world.explicit.Perm explicit) (hkept : e.world.keptSlots.Perm kept)
    (hheld : (explicit ++ kept ++ e.holds.flatMap Hold.slots).Perm held) :
    e.world.HeldBy e.held :=
  (hw.congr hslots).perm (hheld.symm.trans ((hexplicit.append hkept).append_right _).symm)

/-- Every handling keeps the handles right. -/
theorem Handling.heldBy (hhandling : Handling P d e) (hd : d.world.HeldBy d.held) :
    e.world.HeldBy e.held := by
  cases hhandling with
  | @beside w v t holds hbeside =>
    have hexplicit : v.explicit = w.explicit := by
      rw [World.explicit, hbeside.handles, World.explicit]
    exact hd.onDesk (World.slotAt?_congr hbeside.slots) (.of_eq hexplicit)
      (.of_eq hbeside.keptSlots) (.refl _)
  | addRegistry w t => exact hd.addRegistry
  | spawn w t =>
    have hkept : w.spawn.keptSlots = w.keptSlots := by
      rw [World.keptSlots, World.spawn, List.flatMap_append]
      exact List.append_nil _
    exact hd.onDesk (fun _ _ ↦ rfl) (.refl _) (.of_eq hkept) (.refl _)
  | turnTo w t t' => exact hd
  | @take w v r t t' slot holds hclaim hP =>
    have hexplicit : (v.addHandle slot).2.explicit = w.explicit ++ [slot] := by
      rw [World.explicit_addHandle, World.explicit_of_claimSlot hclaim]
    have hkept := World.keptSlots_of_claimSlot hclaim
    refine (hd.claim hclaim).onDesk (fun _ _ ↦ rfl) (.of_eq hexplicit) (.of_eq hkept) ?_
    simp [Desk.held, List.perm_middle]
  | @keep w v r t key cell slot holds hcell hvacant hclaim hP =>
    have hexplicit := World.explicit_of_claimSlot hclaim
    have hkept : (v.setCell t key (.live (some slot) true)).keptSlots.Perm
        (slot :: w.keptSlots) := by
      have hcell' := (World.cell?_of_claimSlot hclaim t key).trans hcell
      obtain ⟨rest, hbefore, hset⟩ := World.exists_perm_setCell hcell'
      rw [hvacant.slot?_eq, World.keptSlots_of_claimSlot hclaim] at hbefore
      exact (hset _).trans (hbefore.symm.cons slot)
    refine (hd.claim hclaim).onDesk (fun _ _ ↦ rfl) (.of_eq hexplicit) hkept ?_
    simp [Desk.held, Hold.slots, List.perm_middle]
  | borrow holds hcell =>
    exact hd.onDesk (fun _ _ ↦ rfl) (.refl _) (World.keptSlots_setCell hcell rfl) (.refl _)
  | @once w v r t key slot holds hcell hclaim hP =>
    exact (hd.claim hclaim).onDesk (fun _ _ ↦ rfl) (.of_eq (World.explicit_of_claimSlot hclaim))
      (.of_eq (World.keptSlots_of_claimSlot hclaim)) List.perm_middle
  | lend w t holds => exact hd
  | giveBack w t hold holds =>
    cases hold with
    | lent => exact hd
    | cell key =>
      exact hd.onDesk (fun _ _ ↦ rfl) (.refl _) (w.keptSlots_setBorrowed t key false) (.refl _)
    | temporary slot => exact (hd.perm List.perm_middle).release
  | publish hheld address => exact hd.publish hheld address
  | @release w h slot t holds hhandle =>
    have hheld : (Desk.held ⟨w, t, holds⟩).Perm
        (slot :: Desk.held ⟨w.removeHandle h, t, holds⟩) :=
      ((World.explicit_removeHandle hhandle).append_right _).append_right _
    exact (hd.perm hheld).release.congr fun _ _ ↦ rfl
  | @vacate w t t' key slot borrowed holds cell' hcell hidle hcell' hP =>
    obtain ⟨rest, hbefore, hset⟩ := World.exists_perm_setCell hcell
    have hkept : ((w.releaseSlot slot).setCell t' key cell').keptSlots.Perm rest := by
      have hset' := hset cell'
      rcases hcell' with rfl | rfl <;> exact hset'
    have hheld : (Desk.held ⟨w, t, holds⟩).Perm
        (slot :: (w.explicit ++ rest ++ holds.flatMap Hold.slots)) := by
      refine ((hbefore.append_left w.explicit).append_right _).trans ?_
      simp [Cell.slot?, List.perm_middle]
    exact (hd.perm hheld).release.onDesk (fun _ _ ↦ rfl) (.refl _) hkept (.refl _)
  | @leave w t t' key cell cell' holds hcell hvacant hcell' =>
    have hnone : cell'.slot? = cell.slot? := by
      rw [hvacant.slot?_eq]
      rcases hcell' with rfl | rfl <;> rfl
    exact hd.onDesk (fun _ _ ↦ rfl) (.refl _) (World.keptSlots_setCell hcell hnone) (.refl _)
  | letGo w t t' =>
    have hkept : (w.releaseHandles (·.thread = t')).keptSlots = w.keptSlots :=
      congrArg (fun threads ↦ threads.flatMap Thread.slots) (World.threads_foldl_releaseSlot _ w)
    have hheld : (Desk.held ⟨w, t, []⟩).Perm
        (w.handlesOf t' ++ Desk.held ⟨w.releaseHandles (·.thread = t'), t, []⟩) := by
      rw [Desk.held, Desk.held, hkept, ← List.append_assoc, ← List.append_assoc]
      exact ((w.explicit_releaseHandles t').append_right _).append_right _
    exact (hd.perm hheld).foldl_release.congr fun _ _ ↦ rfl

/-! ## Places of handles -/

/-- A slot gets an explicit handle only by being claimed explicitly. -/
theorem Handling.explicit_cases (hhandling : Handling P d e) {slot : Handle n}
    (hmem : slot ∈ e.world.explicit) : slot ∈ d.world.explicit ∨ P (.take slot) := by
  cases hhandling with
  | beside t holds hbeside =>
    rw [World.explicit, hbeside.handles] at hmem
    exact Or.inl hmem
  | @take w v r t t' taken holds hclaim hP =>
    rw [World.explicit_addHandle, World.explicit_of_claimSlot hclaim] at hmem
    rcases List.mem_append.mp hmem with hmem | hmem
    · exact Or.inl hmem
    · rw [List.mem_singleton.mp hmem]
      exact Or.inr hP
  | keep holds hcell hvacant hclaim hP =>
    rw [← World.explicit_of_claimSlot hclaim]
    exact Or.inl hmem
  | once holds hcell hclaim hP =>
    rw [← World.explicit_of_claimSlot hclaim]
    exact Or.inl hmem
  | giveBack w t hold holds => cases hold <;> exact Or.inl hmem
  | release t holds hhandle =>
    exact Or.inl ((World.explicit_removeHandle hhandle).mem_iff.mpr (List.mem_cons_of_mem _ hmem))
  | letGo w t t' =>
    exact Or.inl ((w.explicit_releaseHandles t').mem_iff.mpr (List.mem_append_right _ hmem))
  | _ => exact Or.inl hmem

inductive CellStep (P : Transfer n → Prop) (t : ThreadId) (key : CellKey) :
    Option (Cell n) → Option (Cell n) → Prop
  | same (cell : Option (Cell n)) : CellStep P t key cell cell
  | spawn : CellStep P t key none (some .unused)
  | keep {cell : Cell n} {slot : Handle n} (hvacant : cell.Vacant) (hthread : slot.thread = t)
      (hP : P (.keep key slot)) : CellStep P t key (some cell) (some (.live (some slot) true))
  | borrow (slot? : Option (Handle n)) (borrowed borrowed' : Bool) :
      CellStep P t key (some (.live slot? borrowed)) (some (.live slot? borrowed'))
  | vacate {slot : Handle n} {borrowed : Bool} {cell' : Cell n}
      (hcell' : cell' = .live none false ∨ cell' = .destroyed) (hP : P (.vacate t key)) :
      CellStep P t key (some (.live (some slot) borrowed)) (some cell')
  | leave {cell cell' : Cell n} (hvacant : cell.Vacant)
      (hcell' : cell' = .live none false ∨ cell' = .destroyed) :
      CellStep P t key (some cell) (some cell')

/-- One cell takes a step if another world differs from this one in it alone. -/
theorem CellStep.setCell {key : CellKey} {t' : ThreadId} {key' : CellKey} {cell cell' : Cell n}
    (hcell : w.cell? t' key' = some cell)
    (hstep : CellStep P t' key' (some cell) (some cell')) :
    CellStep P t key (w.cell? t key) ((w.setCell t' key' cell').cell? t key) := by
  rw [World.cell?_setCell]
  split
  · next hsame =>
    obtain ⟨rfl, rfl⟩ := hsame
    rw [hcell]
    exact hstep
  · exact .same _

theorem CellStep.of_eq {key : CellKey} (hcell : v.cell? t key = w.cell? t key) :
    CellStep P t key (w.cell? t key) (v.cell? t key) := by
  rw [hcell]
  exact .same _

theorem Handling.cellStep (hhandling : Handling P d e) (t : ThreadId) (key : CellKey) :
    CellStep P t key (d.world.cell? t key) (e.world.cell? t key) := by
  cases hhandling with
  | beside t' holds hbeside => exact .of_eq (hbeside.cell? t key)
  | spawn w t' =>
    rw [World.cell?, World.cell?, World.spawn, List.getElem?_append]
    split
    · exact .same _
    · next hge =>
      rw [List.getElem?_eq_none (Nat.not_lt.mp hge), List.getElem?_singleton]
      split
      · cases key <;> exact .spawn
      · exact .same _
  | take holds hclaim hP => exact .of_eq (World.cell?_of_claimSlot hclaim t key)
  | keep holds hcell hvacant hclaim hP =>
    obtain ⟨-, -, -, -, hthread, -⟩ := World.exists_of_claimSlot hclaim
    have hcell' := (World.cell?_of_claimSlot hclaim _ _).trans hcell
    rw [← World.cell?_of_claimSlot hclaim]
    exact .setCell hcell' (.keep hvacant hthread hP)
  | borrow holds hcell => exact .setCell hcell (.borrow _ _ _)
  | once holds hcell hclaim hP => exact .of_eq (World.cell?_of_claimSlot hclaim t key)
  | giveBack w t' hold holds =>
    cases hold with
    | cell key' =>
      change CellStep P t key (w.cell? t key) ((w.setBorrowed t' key' false).cell? t key)
      by_cases hlive : ∃ slot? borrowed, w.cell? t' key' = some (.live slot? borrowed)
      · obtain ⟨slot?, borrowed, hcell⟩ := hlive
        rw [World.setBorrowed_of_live hcell]
        exact .setCell hcell (.borrow _ _ _)
      · rw [World.setBorrowed_of_not_live fun slot? borrowed hcell ↦ hlive ⟨_, _, hcell⟩]
        exact .same _
    | _ => exact .same _
  | @vacate w t' t'' key' slot borrowed holds cell' hcell hidle hcell' hP =>
    exact .setCell (w := w.releaseSlot slot) hcell (.vacate hcell' hP)
  | leave holds hcell hvacant hcell' => exact .setCell hcell (.leave hvacant hcell')
  | letGo w t' t'' =>
    have hthreads : (w.releaseHandles (·.thread = t'')).threads = w.threads :=
      World.threads_foldl_releaseSlot _ w
    exact .of_eq (by rw [World.cell?, hthreads, World.cell?])
  | _ => exact .same _

theorem World.kept_eq (w : World n α) (t : ThreadId) (key : CellKey) :
    w.kept t key = ((w.cell? t key).bind Cell.slot?).toList := by
  unfold World.kept
  rcases w.cell? t key with _ | _ | ⟨_ | slot, _⟩ | _ <;> rfl

/-- What a cell keeps stays there unless the cell gives it up. -/
theorem Handling.kept_cases (hhandling : Handling P d e) (t : ThreadId) (key : CellKey) :
    e.world.kept t key = d.world.kept t key ∨
      (∃ slot, slot.thread = t ∧ P (.keep key slot) ∧ d.world.kept t key = [] ∧
        e.world.kept t key = [slot]) ∨
      P (.vacate t key) ∧ e.world.kept t key = [] := by
  have hstep := hhandling.cellStep t key
  rw [World.kept_eq, World.kept_eq]
  generalize e.world.cell? t key = after at hstep
  generalize d.world.cell? t key = before at hstep
  cases hstep with
  | @keep cell slot hvacant hthread hP =>
    exact Or.inr (Or.inl ⟨slot, hthread, hP, by simp [hvacant.slot?_eq], rfl⟩)
  | vacate hcell' hP => exact Or.inr (Or.inr ⟨hP, by rcases hcell' with rfl | rfl <;> rfl⟩)
  | leave hvacant hcell' =>
    left
    rw [Option.bind_some, Option.bind_some, hvacant.slot?_eq]
    rcases hcell' with rfl | rfl <;> rfl
  | _ => exact Or.inl rfl

/-- A destroyed cell stays destroyed. -/
theorem Handling.cell?_destroyed (hhandling : Handling P d e) {t : ThreadId} {key : CellKey}
    (hcell : d.world.cell? t key = some .destroyed) :
    e.world.cell? t key = some .destroyed := by
  have hstep := hhandling.cellStep t key
  rw [hcell] at hstep
  generalize e.world.cell? t key = after at hstep
  cases hstep with
  | same => rfl
  | keep hvacant => exact hvacant.elim
  | leave hvacant => exact hvacant.elim

/-- A pop has a slot for itself only if it claimed one, because the cell of its thread is
destroyed. -/
theorem Handling.temporary_cases (hhandling : Handling P d e) {slot : Handle n}
    (hmem : .temporary slot ∈ e.holds) :
    .temporary slot ∈ d.holds ∧ d.thread = e.thread ∨
      ∃ key, P (.once key slot) ∧ slot.thread = e.thread ∧
        e.world.cell? e.thread key = some .destroyed := by
  cases hhandling with
  | turnTo w t t' => cases hmem
  | keep holds hcell hvacant hclaim hP =>
    exact Or.inl ⟨(List.mem_cons.mp hmem).resolve_left nofun, rfl⟩
  | borrow holds hcell => exact Or.inl ⟨(List.mem_cons.mp hmem).resolve_left nofun, rfl⟩
  | @once w v r t key taken holds hcell hclaim hP =>
    rcases List.mem_cons.mp hmem with heq | hmem
    · obtain ⟨-, -, -, -, hthread, -⟩ := World.exists_of_claimSlot hclaim
      cases heq
      exact Or.inr ⟨key, hP, hthread, (World.cell?_of_claimSlot hclaim t key).trans hcell⟩
    · exact Or.inl ⟨hmem, rfl⟩
  | lend w t holds => exact Or.inl ⟨(List.mem_cons.mp hmem).resolve_left nofun, rfl⟩
  | giveBack w t hold holds => exact Or.inl ⟨List.mem_cons_of_mem hold hmem, rfl⟩
  | _ => exact Or.inl ⟨hmem, rfl⟩

end

theorem World.mem_keptSlots {w : World n α} {slot : Handle n} :
    slot ∈ w.keptSlots ↔ ∃ t key, slot ∈ w.kept t key := by
  rw [keptSlots, List.mem_flatMap]
  constructor
  · rintro ⟨thread, hthread, hmem⟩
    obtain ⟨t, ht, rfl⟩ := List.getElem_of_mem hthread
    have hcell (key : CellKey) : w.kept t key = (w.threads[t].cell key).slot?.toList := by
      rw [kept_eq, cell?, List.getElem?_eq_getElem ht]
      rfl
    rcases List.mem_append.mp hmem with hmem | hmem
    · exact ⟨t, .processWide, hcell .processWide ▸ hmem⟩
    · exact ⟨t, .ordinary, hcell .ordinary ▸ hmem⟩
  · rintro ⟨t, key, hmem⟩
    rw [kept_eq] at hmem
    obtain ⟨cell, hcell, hslot⟩ := Option.bind_eq_some_iff.mp (Option.mem_toList.mp hmem)
    obtain ⟨thread, hthread, rfl⟩ := Option.map_eq_some_iff.mp hcell
    refine ⟨thread, List.mem_of_getElem? hthread, ?_⟩
    cases key with
    | processWide => exact List.mem_append_left _ (Option.mem_toList.mpr hslot)
    | ordinary => exact List.mem_append_right _ (Option.mem_toList.mpr hslot)

theorem Hold.mem_slots {hold : Hold n} {slot : Handle n} :
    slot ∈ hold.slots ↔ hold = .temporary slot := by
  cases hold with
  | temporary slot' => simp [slots, eq_comm]
  | _ => simp [slots]

theorem Hold.mem_flatMap_slots {holds : List (Hold n)} {slot : Handle n} :
    slot ∈ holds.flatMap slots ↔ .temporary slot ∈ holds := by
  simp [List.mem_flatMap, mem_slots]

/-- The places where a slot can have its handle. -/
theorem Desk.mem_held {d : Desk n α} {slot : Handle n} :
    slot ∈ d.held ↔ slot ∈ d.world.explicit ∨ (∃ t key, slot ∈ d.world.kept t key) ∨
      .temporary slot ∈ d.holds := by
  rw [Desk.held, List.mem_append, List.mem_append, World.mem_keptSlots, Hold.mem_flatMap_slots,
    or_assoc]

end Reclaim.Hazard
