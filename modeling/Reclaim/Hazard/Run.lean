import Reclaim.Hazard.Commands
import Reclaim.Lists

/-!
# Commands from beginning to end

Every command comes to its end.  The programs that are still to run, of objects not yet retired, of
parked entries and of everything in the frames, have a total cost, and whatever starts a deleter or
gives a command lowers it; a step that does neither lowers the work left in the frames.
-/

namespace Reclaim.Hazard

variable {n : Nat} {α : Type}

/-- A pop pays for the entry of the node it retires and for the reclaim after it. -/
def Command.cost : Command α → Nat
  | .popUsing _ _ | .pop _ _ => 3
  | _ => 1

def programCost (program : List (Command α)) : Nat := program.foldr (·.cost + ·) 0

/-- The cost of an entry: starting its deleter, and the deleter's program. -/
def Entry.cost (entry : Entry α) : Nat := 1 + programCost entry.program

def entriesCost (entries : List (Entry α)) : Nat := entries.foldr (·.cost + ·) 0

/-- The cost of an object that may still be retired. -/
def Object.cost (object : Object α) : Nat :=
  if object.retired then 0 else 1 + programCost object.program

def Registry.cost (registry : Registry n (Entry α)) : Nat := entriesCost registry.limbo.entries

/-- The cost of all that is parked or may be retired. -/
def World.cost (w : World n α) : Nat :=
  w.objects.foldr (·.cost + ·) 0 + w.registries.foldr (·.cost + ·) 0

def PopStage.cost : PopStage → Nat
  | .retire _ => 2
  | .reclaim => 1
  | .answer => 0

def Frame.cost : Frame n α → Nat
  | .deleter rest => programCost rest
  | .sweep s => entriesCost s.rest
  | .pop p => p.stage.cost

/-- The steps a frame can take by itself. -/
def Frame.work : Frame n α → Nat
  | .deleter _ => 1
  | .sweep s => s.rest.length + 1
  | .pop p => p.stage.cost + 1

def framesCost (frames : List (Frame n α)) : Nat := frames.foldr (·.cost + ·) 0

def framesWork (frames : List (Frame n α)) : Nat := frames.foldr (·.work + ·) 0

def Machine.cost (m : Machine n α) : Nat := m.world.cost + framesCost m.frames

def Machine.work (m : Machine n α) : Nat := framesWork m.frames

theorem Command.cost_pos (command : Command α) : 0 < command.cost := by
  cases command <;> simp [cost]

namespace World

theorem cost_modifyRegistry (w : World n α) (r : RegistryId)
    (f : Registry n (Entry α) → Registry n (Entry α))
    (kept : ∀ registry, (f registry).cost = registry.cost) :
    (w.modifyRegistry r f).cost = w.cost := by
  unfold modifyRegistry cost
  cases found : w.registries[r]? with
  | none => rw [List.modify_eq_self (List.getElem?_eq_none_iff.mp found)]
  | some registry =>
    have := foldr_add_modify Registry.cost f found
    have := kept registry
    simp only
    omega

theorem cost_modifyLimbo (w : World n α) (r : RegistryId)
    (f : LimboList (Entry α) → LimboList (Entry α)) {extra : Nat}
    (bound : ∀ list, entriesCost (f list).entries ≤ entriesCost list.entries + extra) :
    (w.modifyLimbo r f).cost ≤ w.cost + extra := by
  unfold modifyLimbo modifyRegistry cost
  cases found : w.registries[r]? with
  | none =>
    simp only [List.modify_eq_self (List.getElem?_eq_none_iff.mp found)]
    omega
  | some registry =>
    have := foldr_add_modify Registry.cost
      (fun registry ↦ { registry with limbo := f registry.limbo }) found
    have := bound registry.limbo
    simp only [Registry.cost] at *
    omega

@[simp]
theorem cost_note (w : World n α) (answer : Answer α) : (w.note answer).cost = w.cost := by
  cases answer <;> rfl

@[simp]
theorem cost_setCell (w : World n α) (t : ThreadId) (key : CellKey) (cell : Cell n) :
    (w.setCell t key cell).cost = w.cost := rfl

@[simp]
theorem cost_setHead (w : World n α) (s : StackId) (head : Option NodeId) :
    (w.setHead s head).cost = w.cost := rfl

@[simp]
theorem cost_publish (w : World n α) (slot : Handle n) (address : Option Address) :
    (w.publish slot address).cost = w.cost :=
  w.cost_modifyRegistry _ _ fun _ ↦ rfl

@[simp]
theorem cost_releaseSlot (w : World n α) (slot : Handle n) : (w.releaseSlot slot).cost = w.cost :=
  w.cost_modifyRegistry _ _ fun _ ↦ rfl

@[simp]
theorem cost_giveBack (w : World n α) (t : ThreadId) (hold : Hold n) :
    (w.giveBack t hold).cost = w.cost := by
  cases hold with
  | lent => rfl
  | cell key => rfl
  | temporary slot => exact w.cost_releaseSlot slot

@[simp]
theorem cost_start (w : World n α) (entry : Entry α) : (w.start entry).cost = w.cost := by
  unfold start
  split <;> rfl

@[simp]
theorem cost_addHandle (w : World n α) (slot : Handle n) : (w.addHandle slot).2.cost = w.cost := rfl

@[simp]
theorem cost_push (w : World n α) (s : StackId) (stack : Stack) (value : α) :
    (w.push s stack value).2.cost = w.cost := rfl

theorem cost_claimSlot {w v : World n α} {r : RegistryId} {t : ThreadId} {slot : Handle n}
    (claimed : w.claimSlot r t = some (slot, v)) : v.cost = w.cost := by
  unfold claimSlot registryAt? at claimed
  cases found : w.registries[r]? with
  | none => simp [found] at claimed
  | some registry =>
    cases taken : registry.claim t with
    | none => simp [found, taken] at claimed
    | some pair =>
      simp only [found, taken, Option.bind_eq_bind, Option.bind_some, pure, Option.some.injEq,
        Prod.mk.injEq] at claimed
      obtain ⟨_, rfl⟩ := claimed
      have changed := foldr_add_modify Registry.cost (fun _ ↦ pair.2) found
      have kept : Registry.cost pair.2 = registry.cost := by
        unfold Registry.cost
        rw [Registry.claim_limbo taken]
      unfold modifyRegistry cost
      simp only
      omega

theorem Seating.cost_eq {w v : World n α} {t : ThreadId} {key : CellKey} {r : RegistryId}
    {slot : Handle n} {hold : Hold n} (h : w.Seating t key r slot v hold) : v.cost = w.cost := by
  cases h with
  | kept => rfl
  | claimed _ _ hclaim => exact (cost_setCell _ t key _).trans (cost_claimSlot hclaim)
  | once _ hclaim => exact cost_claimSlot hclaim

theorem cost_countFreed (w : World n α) (r : RegistryId) :
    (w.modifyLimbo r (·.countFreed)).cost ≤ w.cost :=
  w.cost_modifyLimbo r (·.countFreed) fun _ ↦ Nat.le_refl (_ + 0)

theorem cost_putBack (w : World n α) (r : RegistryId) (entry : Entry α) :
    (w.modifyLimbo r (·.putBack entry)).cost ≤ w.cost + entry.cost :=
  w.cost_modifyLimbo r (·.putBack entry) fun list ↦ by
    simp [LimboList.putBack, entriesCost]
    omega

theorem cost_park (w : World n α) (r : RegistryId) (entry : Entry α) :
    (w.modifyLimbo r (·.park entry)).cost ≤ w.cost + entry.cost :=
  w.cost_modifyLimbo r (·.park entry) fun list ↦ by
    simp [LimboList.park, entriesCost]
    omega

theorem cost_detachLimbo (w : World n α) (r : RegistryId) :
    (w.detachLimbo r).2.cost + entriesCost (w.detachLimbo r).1 = w.cost := by
  unfold detachLimbo registryAt?
  cases found : w.registries[r]? with
  | none => simp [entriesCost]
  | some registry =>
    have := foldr_add_modify Registry.cost
      (fun registry ↦ { registry with limbo := registry.limbo.detach.2 }) found
    simp only [modifyLimbo, modifyRegistry, cost, Registry.cost, LimboList.detach] at *
    simp only [entriesCost, List.foldr_nil] at *
    omega

theorem cost_markRetired (w : World n α) (o : ObjectId) {object : Object α}
    (found : w.objects[o]? = some object) (fresh : object.retired = false) :
    (w.markRetired o).cost + (1 + programCost object.program) = w.cost := by
  have := foldr_add_modify Object.cost (fun object ↦ { object with retired := true }) found
  simp only [markRetired, cost, Object.cost, fresh] at *
  simp only [Bool.false_eq_true, ↓reduceIte] at *
  omega

end World

namespace Machine

theorem cost_resume {w : World n α} {t : ThreadId} {answer : Answer α} {frames : List (Frame n α)}
    {m : Machine n α} (h : resume w t answer frames = .next m) :
    m.cost ≤ w.cost + framesCost frames ∧ m.work = framesWork frames := by
  unfold resume at h
  split at h <;> cases h
  · simp [Machine.cost, Machine.work]
  · next sweep frames =>
    have := w.cost_countFreed sweep.registry
    refine ⟨?_, rfl⟩
    simp only [Machine.cost, framesCost, Frame.cost, List.foldr_cons]
    omega
  · simp [Machine.cost, Machine.work]

theorem cost_retire {w : World n α} {t : ThreadId} {r : RegistryId} {entry : Entry α}
    {frames : List (Frame n α)} {m : Machine n α} (h : retire w t r entry frames = .next m) :
    m.cost ≤ w.cost + framesCost frames + programCost entry.program
      ∨ m.cost ≤ w.cost + framesCost frames + entry.cost ∧ m.work = framesWork frames := by
  unfold retire at h
  split at h
  · have ⟨cost, work⟩ := cost_resume h
    have := w.cost_park r entry
    exact .inr ⟨by omega, work⟩
  · cases h
    left
    simp only [Machine.cost, World.cost_start, framesCost, Frame.cost, List.foldr_cons]
    omega

theorem cost_reclaim {w : World n α} {t : ThreadId} {r : RegistryId} {frames : List (Frame n α)}
    {m : Machine n α} (h : reclaim w t r frames = .next m) :
    m.cost = w.cost + framesCost frames := by
  have kept := w.cost_detachLimbo r
  unfold reclaim at h
  generalize w.detachLimbo r = taken at h kept
  cases h
  simp only [Machine.cost, framesCost, Frame.cost, List.foldr_cons]
  omega

theorem cost_startPop {w : World n α} {t : ThreadId} {s : StackId} {stack : Stack}
    {slot : Handle n} {hold : Hold n} {frames : List (Frame n α)} {m : Machine n α}
    (h : startPop w t s stack slot hold frames = .next m) :
    m.cost ≤ w.cost + framesCost frames + 2 := by
  unfold startPop at h
  split at h
  · cases h
  · split at h
    · have := (cost_resume h).1
      simp only [World.cost_giveBack, World.cost_publish] at this
      omega
    · cases h
      simp [Machine.cost, framesCost, Frame.cost, PopStage.cost]
      omega

/-- A command pays for what it starts. -/
theorem Executes.cost_lt {w : World n α} {t : ThreadId} {frames : List (Frame n α)}
    {command : Command α} {turn : Turn n α} (h : Executes w t frames command turn)
    {m : Machine n α} (hm : turn = .next m) :
    m.cost < w.cost + command.cost + framesCost frames := by
  have resumed {v : World n α} {answer : Answer α} (hm : resume v t answer frames = .next m)
      (kept : v.cost = w.cost) : m.cost < w.cost + command.cost + framesCost frames := by
    have := (cost_resume hm).1
    have := command.cost_pos
    omega
  have popped {v : World n α} {s : StackId} {stack : Stack} {slot : Handle n} {hold : Hold n}
      (hm : startPop v t s stack slot hold frames = .next m) (kept : v.cost = w.cost)
      (pays : command.cost = 3) : m.cost < w.cost + command.cost + framesCost frames := by
    have := cost_startPop hm
    omega
  cases h with
  | refused => exact resumed hm rfl
  | faulted => cases hm
  | exhausted => exact resumed hm rfl
  | @claimed _ _ slot v _ hclaim =>
    exact resumed hm ((v.cost_addHandle slot).trans (World.cost_claimSlot hclaim))
  | @released _ slot => exact resumed hm (w.cost_releaseSlot slot)
  | @published _ slot _ address => exact resumed hm (w.cost_publish slot address)
  | @pushed s stack _ value => exact resumed hm (w.cost_push s stack value)
  | lent => exact popped hm rfl rfl
  | seated _ hseating => exact popped hm hseating.cost_eq rfl
  | unseated => cases hm
  | @vacated _ slot => exact resumed hm (w.cost_releaseSlot slot)
  | vacant => exact resumed hm rfl
  | destroyed => exact resumed hm rfl
  | @retired r o object _ hobject hfresh =>
    have kept := w.cost_markRetired o hobject hfresh
    have paid := Command.cost_pos (α := α) (.retire r (some o))
    rcases cost_retire hm with started | ⟨parked, _⟩
    · simp only at started
      omega
    · simp only [Entry.cost] at parked
      omega
  | @reclaimed r =>
    have := cost_reclaim hm
    have := Command.cost_pos (α := α) (.reclaim r)
    omega

/-- A step lowers the cost, or keeps the cost and lowers the work. -/
theorem step_decreases {m m' : Machine n α} (h : m.step = .next m') :
    m'.cost < m.cost ∨ m'.cost ≤ m.cost ∧ m'.work < m.work := by
  obtain ⟨w, t, frames⟩ := m
  unfold step at h
  split at h
  · cases h
  · next frames same =>
    obtain ⟨cost, work⟩ := cost_resume h
    simp only at same cost work
    subst same
    right
    simp only [Machine.cost, Machine.work, framesCost, framesWork, Frame.cost, Frame.work,
      programCost, List.foldr_cons, List.foldr_nil] at *
    omega
  · next command rest frames same =>
    have cost := (executes w t _ command).cost_lt h
    simp only at same cost
    subst same
    left
    simp only [Machine.cost, framesCost, Frame.cost, programCost, List.foldr_cons] at *
    omega
  · next sweep frames same =>
    simp only at same
    subst same
    split at h
    · next last =>
      obtain ⟨cost, work⟩ := cost_resume h
      right
      simp only [Machine.cost, Machine.work, framesCost, framesWork, Frame.cost, Frame.work,
        List.foldr_cons] at *
      omega
    · next entry rest more =>
      split at h <;> cases h
      · have := w.cost_putBack sweep.registry entry
        right
        simp only [Machine.cost, Machine.work, framesCost, framesWork, Frame.cost, Frame.work,
          entriesCost, more, List.foldr_cons, List.length_cons] at *
        omega
      · left
        simp only [Machine.cost, framesCost, Frame.cost, entriesCost, Entry.cost, more,
          World.cost_start, List.foldr_cons]
        omega
  · next popping frames same =>
    simp only at same
    subst same
    split at h
    · next node stage =>
      rcases cost_retire h with started | ⟨parked, work⟩
      · left
        simp only [Machine.cost, framesCost, Frame.cost, PopStage.cost, Entry.ofNode, programCost,
          stage, List.foldr_cons, List.foldr_nil] at *
        omega
      · right
        simp only [Machine.cost, Machine.work, framesCost, framesWork, Frame.cost, Frame.work,
          PopStage.cost, Entry.ofNode, Entry.cost, programCost, stage, List.foldr_cons,
          List.foldr_nil] at *
        omega
    · next stage =>
      have cost := cost_reclaim h
      left
      simp only [Machine.cost, framesCost, Frame.cost, PopStage.cost, stage, List.foldr_cons] at *
      omega
    · next stage =>
      obtain ⟨cost, work⟩ := cost_resume h
      right
      simp only [Machine.cost, Machine.work, framesCost, framesWork, Frame.cost, Frame.work,
        PopStage.cost, stage, World.cost_giveBack, List.foldr_cons] at *
      omega

/-! ## Whole commands -/

/-- Steps until the command ends. -/
def run (m : Machine n α) : World n α × Except Fault (Answer α) :=
  match _turn : m.step with
  | .done world result => (world, result)
  | .next m => m.run
termination_by (m.cost, m.work)
decreasing_by
  rcases step_decreases _turn with less | ⟨same, less⟩
  · exact Prod.Lex.left _ _ less
  · exact Prod.Lex.right' _ same less

end Machine

/-- Carries out one command of a thread from beginning to end. -/
def World.run (w : World n α) (t : ThreadId) (command : Command α) :
    World n α × Except Fault (Answer α) :=
  match Machine.execute w t command [] with
  | .done world result => (world, result)
  | .next m => m.run

end Reclaim.Hazard
