import Reclaim.Hazard.Machine

/-!
# What commands come to

A command of a thread is refused because something is not there, or faults at once, or does one of
the few things that commands do.  Here are all these cases, each with what holds when it occurs;
whatever is to be shown of all commands is shown case by case.
-/

namespace Reclaim.Hazard

variable {n : Nat} {α : Type}

/-- The cell keeps no slot, and a pop can find one for it to keep. -/
def Cell.Free : Cell n → Prop
  | .unused | .live none false => True
  | _ => False

namespace World

/-- An object can be retired to a registry, which happens at most once. -/
def Retirable (w : World n α) (r : RegistryId) (o : ObjectId) : Prop :=
  (w.registryAt? r).isSome ∧ (w.objects[o]?).any fun object ↦ !object.retired

instance (w : World n α) (r : RegistryId) (o : ObjectId) : Decidable (w.Retirable r o) :=
  inferInstanceAs (Decidable (_ ∧ _))

theorem Retirable.exists_object {w : World n α} {r : RegistryId} {o : ObjectId}
    (h : w.Retirable r o) : ∃ object, w.objects[o]? = some object ∧ object.retired = false := by
  obtain ⟨-, hfresh⟩ := h
  cases hobject : w.objects[o]? with
  | none =>
    rw [hobject] at hfresh
    cases hfresh
  | some object =>
    rw [hobject, Option.any_some, Bool.not_eq_true'] at hfresh
    exact ⟨object, rfl, hfresh⟩

/-- Something that the command names is not there, or was retired before. -/
def Refuses (w : World n α) (t : ThreadId) : Command α → Prop
  | .tryClaim r | .claim r | .reclaim r => w.registryAt? r = none
  | .release h | .publish h _ => w.handle? h = none
  | .push s _ => w.stack? s = none
  | .popUsing s h => w.stack? s = none ∨ w.handle? h = none
  | .pop key s => w.stack? s = none ∨ w.cell? t key = none
  | .unregister key => w.cell? t key = none
  | .retire r (some o) => ¬ w.Retirable r o
  | .retire _ none | .raise _ => False

/-- The command faults before it has changed anything. -/
inductive Faults (w : World n α) (t : ThreadId) : Command α → Fault → Prop
  | claim {r : RegistryId} (hregistry : (w.registryAt? r).isSome)
      (hfull : w.claimSlot r t = none) : Faults w t (.claim r) (.noFreeSlot n)
  | pop {key : CellKey} {s : StackId} {stack : Stack} (hstack : w.stack? s = some stack)
      (hcell : w.cell? t key = some .destroyed)
      (hfull : w.claimSlot (key.registry stack) t = none) : Faults w t (.pop key s) (.noFreeSlot n)
  | popBorrowed {key : CellKey} {s : StackId} {stack : Stack} {slot : Option (Handle n)}
      (hstack : w.stack? s = some stack) (hcell : w.cell? t key = some (.live slot true)) :
      Faults w t (.pop key s) .alreadyBorrowed
  | unregister {key : CellKey} {slot : Option (Handle n)}
      (hcell : w.cell? t key = some (.live slot true)) :
      Faults w t (.unregister key) .alreadyBorrowed
  | retire (r : RegistryId) : Faults w t (.retire r none) .nullRetired
  | raise (fault : Fault) : Faults w t (.raise fault) fault

/-- How a pop comes by the slot that it starts with: its thread keeps the slot in its cell, or
claims it to keep it there, or, when the cell is destroyed, claims it for this pop alone. -/
inductive Seating (w : World n α) (t : ThreadId) (key : CellKey) (r : RegistryId)
    (slot : Handle n) : World n α → Hold n → Prop
  | kept (hcell : w.cell? t key = some (.live (some slot) false)) :
      Seating w t key r slot (w.setCell t key (.live (some slot) true)) (.cell key)
  | claimed {cell : Cell n} {v : World n α} (hcell : w.cell? t key = some cell)
      (hfree : cell.Free) (hclaim : w.claimSlot r t = some (slot, v)) :
      Seating w t key r slot (v.setCell t key (.live (some slot) true)) (.cell key)
  | once {v : World n α} (hcell : w.cell? t key = some .destroyed)
      (hclaim : w.claimSlot r t = some (slot, v)) : Seating w t key r slot v (.temporary slot)

end World

namespace Machine

/-- What comes of a command of a thread within the frames that are left to do. -/
inductive Executes (w : World n α) (t : ThreadId) (frames : List (Frame n α)) :
    Command α → Turn n α → Prop
  | refused {command : Command α} (hrefuses : w.Refuses t command) :
      Executes w t frames command (resume w t .refused frames)
  | faulted {command : Command α} {fault : Fault} (hfaults : w.Faults t command fault) :
      Executes w t frames command (raise w t frames fault)
  | exhausted {r : RegistryId} (hregistry : (w.registryAt? r).isSome)
      (hfull : w.claimSlot r t = none) :
      Executes w t frames (.tryClaim r) (resume w t (.exhausted n) frames)
  | claimed {command : Command α} {r : RegistryId} {slot : Handle n} {v : World n α}
      (hcommand : command = .tryClaim r ∨ command = .claim r)
      (hclaim : w.claimSlot r t = some (slot, v)) :
      Executes w t frames command
        (resume (v.addHandle slot).2 t (.claimed (v.addHandle slot).1) frames)
  | released {h : HandleId} {slot : Handle n} (hhandle : w.handle? h = some slot) :
      Executes w t frames (.release h)
        (resume ((w.releaseSlot slot).removeHandle h) t .done frames)
  | published {h : HandleId} {slot : Handle n} (hhandle : w.handle? h = some slot)
      (address : Option Address) :
      Executes w t frames (.publish h address) (resume (w.publish slot address) t .done frames)
  | pushed {s : StackId} {stack : Stack} (hstack : w.stack? s = some stack) (value : α) :
      Executes w t frames (.push s value)
        (resume (w.push s stack value).2 t (.pushed (w.push s stack value).1) frames)
  | lent {s : StackId} {stack : Stack} {h : HandleId} {slot : Handle n}
      (hstack : w.stack? s = some stack) (hhandle : w.handle? h = some slot) :
      Executes w t frames (.popUsing s h) (startPop w t s stack slot .lent frames)
  | seated {key : CellKey} {s : StackId} {stack : Stack} {slot : Handle n} {v : World n α}
      {hold : Hold n} (hstack : w.stack? s = some stack)
      (hseating : w.Seating t key (key.registry stack) slot v hold) :
      Executes w t frames (.pop key s) (startPop v t s stack slot hold frames)
  /-- A pop looks for a slot to keep and finds none.  The cell is in use from then on. -/
  | unseated {key : CellKey} {s : StackId} {stack : Stack} {cell : Cell n}
      (hstack : w.stack? s = some stack) (hcell : w.cell? t key = some cell)
      (hfree : cell.Free) (hfull : w.claimSlot (key.registry stack) t = none) :
      Executes w t frames (.pop key s) (raiseFull (w.setCell t key (.live none false)) t frames)
  | vacated {key : CellKey} {slot : Handle n}
      (hcell : w.cell? t key = some (.live (some slot) false)) :
      Executes w t frames (.unregister key)
        (resume ((w.releaseSlot slot).setCell t key (.live none false)) t .done frames)
  | vacant {key : CellKey} {cell : Cell n} (hcell : w.cell? t key = some cell)
      (hfree : cell.Free) :
      Executes w t frames (.unregister key)
        (resume (w.setCell t key (.live none false)) t .done frames)
  | destroyed {key : CellKey} (hcell : w.cell? t key = some .destroyed) :
      Executes w t frames (.unregister key) (resume w t .done frames)
  | retired {r : RegistryId} {o : ObjectId} {object : Object α}
      (hregistry : (w.registryAt? r).isSome) (hobject : w.objects[o]? = some object)
      (hfresh : object.retired = false) :
      Executes w t frames (.retire r (some o))
        (retire (w.markRetired o) t r ⟨.object o, object.program⟩ frames)
  | reclaimed {r : RegistryId} (hregistry : (w.registryAt? r).isSome) :
      Executes w t frames (.reclaim r) (reclaim w t r frames)

variable {w : World n α} {t : ThreadId} {frames : List (Frame n α)}

theorem executes_claimSlot {r : RegistryId} (hfull : w.claimSlot r t = none) :
    Executes w t frames (.tryClaim r) (execute w t (.tryClaim r) frames) ∧
      Executes w t frames (.claim r) (execute w t (.claim r) frames) := by
  simp only [execute, hfull]
  cases hregistry : w.registryAt? r with
  | none => exact ⟨.refused hregistry, .refused hregistry⟩
  | some registry =>
    have hsome : (w.registryAt? r).isSome := by rw [hregistry]; rfl
    exact ⟨.exhausted hsome hfull, .faulted (.claim hsome hfull)⟩

theorem executes_popImplicit {s : StackId} {stack : Stack} (hstack : w.stack? s = some stack)
    (key : CellKey) :
    Executes w t frames (.pop key s) (popImplicit w t key s stack frames) := by
  unfold popImplicit
  rcases hcell : w.cell? t key with _ | _ | ⟨_ | slot, _ | _⟩ | _
  case none => exact .refused (Or.inr hcell)
  case some.unused | some.live.none.false =>
    cases hclaim : w.claimSlot (key.registry stack) t with
    | none => exact .unseated hstack hcell trivial hclaim
    | some claimed => exact .seated hstack (.claimed hcell trivial hclaim)
  case some.live.none.true | some.live.some.true => exact .faulted (.popBorrowed hstack hcell)
  case some.live.some.false => exact .seated hstack (.kept hcell)
  case some.destroyed =>
    cases hclaim : w.claimSlot (key.registry stack) t with
    | none => exact .faulted (.pop hstack hcell hclaim)
    | some claimed => exact .seated hstack (.once hcell hclaim)

theorem execute_retire {r : RegistryId} {o : ObjectId} {object : Object α}
    (hregistry : (w.registryAt? r).isSome) (hobject : w.objects[o]? = some object)
    (hfresh : object.retired = false) (t : ThreadId) :
    execute w t (.retire r (some o)) frames =
      retire (w.markRetired o) t r ⟨.object o, object.program⟩ frames := by
  obtain ⟨registry, hregistry⟩ := Option.isSome_iff_exists.mp hregistry
  simp only [execute, hregistry, hobject, hfresh, Bool.false_eq_true, if_false]

theorem execute_retire_of_not {r : RegistryId} {o : ObjectId} (hnot : ¬ w.Retirable r o)
    (t : ThreadId) : execute w t (.retire r (some o)) frames = resume w t .refused frames := by
  simp only [execute]
  split
  · next registry object hregistry hobject =>
    split
    · rfl
    · next hretired =>
      refine absurd ⟨by rw [hregistry]; rfl, ?_⟩ hnot
      rw [hobject, Option.any_some]
      simpa using hretired
  · rfl

/-- Every command comes to one of the cases. -/
theorem executes (w : World n α) (t : ThreadId) (frames : List (Frame n α)) (command : Command α) :
    Executes w t frames command (execute w t command frames) := by
  cases command with
  | tryClaim r =>
    cases hclaim : w.claimSlot r t with
    | none => exact (executes_claimSlot hclaim).1
    | some claimed =>
      simp only [execute, hclaim]
      exact .claimed (Or.inl rfl) hclaim
  | claim r =>
    cases hclaim : w.claimSlot r t with
    | none => exact (executes_claimSlot hclaim).2
    | some claimed =>
      simp only [execute, hclaim]
      exact .claimed (Or.inr rfl) hclaim
  | release h =>
    dsimp only [execute]
    cases hhandle : w.handle? h with
    | none => exact .refused hhandle
    | some slot => exact .released hhandle
  | publish h address =>
    dsimp only [execute]
    cases hhandle : w.handle? h with
    | none => exact .refused hhandle
    | some slot => exact .published hhandle address
  | push s value =>
    dsimp only [execute]
    cases hstack : w.stack? s with
    | none => exact .refused hstack
    | some stack => exact .pushed hstack value
  | popUsing s h =>
    dsimp only [execute]
    cases hstack : w.stack? s with
    | none => exact .refused (Or.inl hstack)
    | some stack =>
      cases hhandle : w.handle? h with
      | none => exact .refused (Or.inr hhandle)
      | some slot => exact .lent hstack hhandle
  | pop key s =>
    dsimp only [execute]
    cases hstack : w.stack? s with
    | none => exact .refused (Or.inl hstack)
    | some stack => exact executes_popImplicit hstack key
  | unregister key =>
    dsimp only [execute]
    rcases hcell : w.cell? t key with _ | _ | ⟨_ | slot, _ | _⟩ | _
    case none => exact .refused hcell
    case some.unused | some.live.none.false => exact .vacant hcell trivial
    case some.live.none.true | some.live.some.true => exact .faulted (.unregister hcell)
    case some.live.some.false => exact .vacated hcell
    case some.destroyed => exact .destroyed hcell
  | retire r object =>
    cases object with
    | none => exact .faulted (.retire r)
    | some o =>
      by_cases hfresh : w.Retirable r o
      · obtain ⟨object, hobject, hretired⟩ := hfresh.exists_object
        rw [execute_retire hfresh.1 hobject hretired]
        exact .retired hfresh.1 hobject hretired
      · rw [execute_retire_of_not hfresh]
        exact .refused hfresh
  | reclaim r =>
    dsimp only [execute]
    cases hregistry : w.registryAt? r with
    | none => exact .refused hregistry
    | some registry => exact .reclaimed (by rw [hregistry]; rfl)
  | raise fault => exact .faulted (.raise fault)

/-- A pop through a cell starts with a slot, finds all slots taken, or finds the cell borrowed. -/
theorem Executes.pop_cases {key : CellKey} {s : StackId} {stack : Stack} {turn : Turn n α}
    (h : Executes w t frames (.pop key s) turn) (hstack : w.stack? s = some stack)
    (hcell : (w.cell? t key).isSome) :
    (∃ slot v hold, w.Seating t key (key.registry stack) slot v hold ∧
      turn = startPop v t s stack slot hold frames) ∨
    (∃ v, turn = raise v t frames (.noFreeSlot n)) ∨
    ∃ slot, w.cell? t key = some (.live slot true) ∧ turn = raise w t frames .alreadyBorrowed := by
  cases h with
  | refused hrefuses =>
    rcases hrefuses with hnone | hnone
    · cases hnone.symm.trans hstack
    · rw [hnone] at hcell
      cases hcell
  | faulted hfaults =>
    cases hfaults with
    | pop => exact Or.inr (Or.inl ⟨w, rfl⟩)
    | popBorrowed _ hborrowed => exact Or.inr (Or.inr ⟨_, hborrowed, rfl⟩)
  | claimed hcommand => rcases hcommand with hcommand | hcommand <;> cases hcommand
  | seated hstack' hseating =>
    cases hstack'.symm.trans hstack
    exact Or.inl ⟨_, _, _, hseating, rfl⟩
  | unseated => exact Or.inr (Or.inl ⟨_, rfl⟩)

end Machine

end Reclaim.Hazard
