import Mathlib.Data.List.Infix
import Reclaim.Proofs.Hazard.CellPops

/-!
# Registration of threads

A thread registers with its first pop, which claims the lowest free slot and keeps it in a cell.
From then on all pops of the thread through this cell use the slot, until the thread unregisters or
ends. A pop fails for want of a slot only if its thread keeps none and all slots are taken, so it
never fails if no slots are claimed explicitly and no more threads are registered than there are
slots.
-/

namespace Reclaim.Hazard

variable {n : Nat} {α : Type}

namespace Move

def vacated? (move : Move n α) : Option (ThreadId × CellKey) :=
  match move.deed, move.command? with
  | .destroyCell t key, _ => some (t, key)
  | _, some (t, .unregister key) => if move.turn.Faulted then none else some (t, key)
  | _, _ => none

def popper? (r : RegistryId) (move : Move n α) : Option (ThreadId × CellKey) :=
  match move.command? with
  | some (t, .pop key id) =>
    if move.before.world.claimsIn? key id = some r then some (t, key) else none
  | _ => none

def claimed? (move : Move n α) : Option RegistryId :=
  match move.command? with
  | some (_, .tryClaim r) | some (_, .claim r) => some r
  | _ => none

def register (r : RegistryId) (key : CellKey) (threads : List ThreadId) (move : Move n α) :
    List ThreadId :=
  match move.vacated?, move.popper? r with
  | some (t, key'), _ => if key' = key then threads.erase t else threads
  | none, some (t, key') => if key' = key then threads.insert t else threads
  | none, none => threads

/-- Popping a stack is to give a command of that kind. -/
theorem exists_of_popper? {move : Move n α} {r : RegistryId} {t : ThreadId} {key : CellKey}
    (hpopper : move.popper? r = some (t, key)) :
    ∃ id, move.command? = some (t, .pop key id) ∧
      move.before.world.claimsIn? key id = some r := by
  unfold popper? at hpopper
  split at hpopper
  · next t' key' id hcommand =>
    obtain ⟨hclaims, hsame⟩ := Option.ite_none_right_eq_some.mp hpopper
    cases hsame
    exact ⟨id, hcommand, hclaims⟩
  · cases hpopper

/-- The command of a deleter is given by the thread whose command is under way. -/
theorem thread_of_proceed {m : Machine n α} {turn : Turn n α} {t : ThreadId} {command : Command α}
    (hcommand : (Move.mk m .proceed turn).command? = some (t, command)) : m.thread = t := by
  unfold command? at hcommand
  split at hcommand
  · next hdeed => cases hdeed
  · cases hcommand
    rfl
  · cases hcommand

/-- A thread that pops is registered. -/
theorem register_of_popper? {move : Move n α} {r : RegistryId} {t : ThreadId} {key : CellKey}
    (hpopper : move.popper? r = some (t, key)) (threads : List ThreadId) :
    register r key threads move = threads.insert t := by
  obtain ⟨id, hcommand, -⟩ := exists_of_popper? hpopper
  have hvacated : move.vacated? = none := by
    obtain ⟨m, deed, turn⟩ := move
    cases deed with
    | destroyCell t' key' => cases hcommand
    | _ => rw [vacated?, hcommand]
  rw [register, hvacated, hpopper]
  exact if_pos rfl

theorem vacated?_of_transfers {move : Move n α} {t : ThreadId} {key : CellKey}
    (htransfers : move.Transfers (.vacate t key)) : move.vacated? = some (t, key) := by
  obtain ⟨m, deed, turn⟩ := move
  obtain ⟨t', command, hcommand, rfl, rfl, hfaulted⟩ | ⟨t', key', hdeed, hvacate⟩ := htransfers
  · cases deed with
    | destroyCell t' key' => cases hcommand
    | _ => rw [vacated?, hcommand]; exact if_neg hfaulted
  · obtain rfl : deed = .destroyCell t' key' := hdeed
    cases hvacate
    rfl

theorem popper?_of_transfers {move : Move n α} {key : CellKey} {slot : Handle n}
    (htransfers : move.Transfers (.keep key slot)) :
    move.popper? slot.registry = some (slot.thread, key) := by
  obtain ⟨t, command, hcommand, rfl, id, rfl, hclaims⟩ | ⟨t, key', -, hvacate⟩ := htransfers
  · rw [popper?, hcommand]
    exact if_pos hclaims
  · cases hvacate

theorem popper?_of_once {move : Move n α} {key : CellKey} {slot : Handle n}
    (htransfers : move.Transfers (.once key slot)) :
    move.popper? slot.registry = some (slot.thread, key) := by
  obtain ⟨t, command, hcommand, rfl, id, rfl, hclaims⟩ | ⟨t, key', -, hvacate⟩ := htransfers
  · rw [popper?, hcommand]
    exact if_pos hclaims
  · cases hvacate

theorem claimed?_of_transfers {move : Move n α} {slot : Handle n}
    (htransfers : move.Transfers (.take slot)) : move.claimed? = some slot.registry := by
  obtain ⟨t, command, hcommand, rfl, hclaim⟩ | ⟨t, key, -, hvacate⟩ := htransfers
  · rcases hclaim with rfl | rfl <;> rw [claimed?, hcommand]
  · cases hvacate

end Move

def registered (r : RegistryId) (key : CellKey) (moves : List (Move n α)) : List ThreadId :=
  moves.foldl (Move.register r key) []

/-! ## From the first pop to the last -/

section

variable [Destructor α] {m m' : Machine n α} {moves : List (Move n α)} {t : ThreadId}
  {key : CellKey} {slot : Handle n} {r : RegistryId}

/-- A cell keeps its slot until a move empties it. -/
theorem Run.kept_eq (hrun : Run m moves m') (hkept : m.world.kept t key = [slot])
    (hmoves : ∀ move ∈ moves, move.vacated? ≠ some (t, key)) :
    m'.world.kept t key = [slot] := by
  refine hrun.handled (Q := fun d ↦ d.world.kept t key = [slot]) ?_ hkept
  intro move hmem d e hhandling hd
  rcases hhandling.kept_cases t key with hsame | ⟨_, -, -, hnone, -⟩ | ⟨hvacate, -⟩
  · exact hsame.trans hd
  · cases hnone.symm.trans hd
  · exact absurd (Move.vacated?_of_transfers hvacate) (hmoves move hmem)

/-- A move that empties a cell leaves nothing in it. -/
theorem Machine.Sound.kept_of_vacated (hm : m.Sound) {deed : Deed α} {turn : Turn n α}
    (hcarry : m.carryOut deed = some turn)
    (hvacated : (Move.mk m deed turn).vacated? = some (t, key)) :
    turn.world.kept t key = [] := by
  unfold Move.vacated? at hvacated
  split at hvacated
  · next t' key' hdeed =>
    cases hvacated
    obtain rfl : deed = .destroyCell t key := hdeed
    obtain ⟨w, t₀, frames⟩ := m
    cases frames with
    | nil =>
      obtain rfl := Option.some.inj hcarry
      exact w.kept_destroyCell t key
    | cons frame frames => cases hcarry
  · next t' key' hcommand _ =>
    obtain ⟨hfaulted, hsame⟩ := Option.ite_none_left_eq_some.mp hvacated
    cases hsame
    obtain ⟨frames, -, -, rfl⟩ := Move.exists_execute hm.nested hcarry hcommand
    exact kept_of_unregister hfaulted
  · cases hvacated

/-- A thread whose cell keeps a slot of a registry is registered there. -/
theorem Run.mem_registered (hrun : Run Machine.empty moves m) (hmem : slot ∈ m.world.kept t key)
    (hregistry : slot.registry = r) : t ∈ registered r key moves := by
  generalize hempty : (Machine.empty : Machine n α) = start at hrun
  induction hrun with
  | start =>
    rw [← hempty] at hmem
    cases hmem
  | @move moves pre deed turn hrun hcarry ih =>
    subst hempty
    have hafter : slot ∈ turn.world.kept t key := (turn.world_machine pre.thread) ▸ hmem
    have hrow := (Machine.handlings_carryOut hcarry).kept_cases t key
    have hsame : (turn.machine pre.thread).desk.world = turn.world := turn.world_machine pre.thread
    rw [hsame] at hrow
    have hnot : (Move.mk pre deed turn).vacated? ≠ some (t, key) := by
      intro hvacated
      have hnone := (hrun.sound Machine.sound_empty).kept_of_vacated hcarry hvacated
      rw [hnone] at hafter
      cases hafter
    rw [registered, List.foldl_append]
    change t ∈ Move.register r key (registered r key moves) ⟨pre, deed, turn⟩
    rcases hrow with hkept | ⟨slot', hthread, hkeep, hkept⟩ | ⟨-, hkept⟩
    · have hbefore := ih (hkept ▸ hafter)
      unfold Move.register
      split
      · next t' key' hvacated =>
        split
        · next hkey =>
          have hne : t ≠ t' := by
            rintro rfl
            exact hnot (hkey ▸ hvacated)
          exact (List.mem_erase_of_ne hne).mpr hbefore
        · exact hbefore
      · split
        · exact List.mem_insert_of_mem hbefore
        · exact hbefore
      · exact hbefore
    · rw [hkept] at hafter
      obtain rfl := List.mem_singleton.mp hafter
      have hpopper := Move.popper?_of_transfers hkeep
      rw [hregistry, hthread] at hpopper
      rw [Move.register_of_popper? hpopper]
      exact List.mem_insert_self
    · rw [hkept] at hafter
      cases hafter

/-- The cell for the process-wide registry keeps only slots of that registry. -/
theorem Run.registry_of_kept (hrun : Run Machine.empty moves m)
    (hmem : slot ∈ m.world.kept t .processWide) : slot.registry = processWide := by
  refine hrun.handled (Q := fun d ↦ slot ∈ d.world.kept t .processWide →
    slot.registry = processWide) ?_ nofun hmem
  intro move _ d e hhandling hd hmem
  rcases hhandling.kept_cases t .processWide with
    hsame | ⟨slot', -, hkeep, -, hafter⟩ | ⟨-, hnone⟩
  · exact hd (hsame ▸ hmem)
  · rw [hafter] at hmem
    obtain rfl := List.mem_singleton.mp hmem
    obtain ⟨id, -, hclaims⟩ := Move.exists_of_popper? (Move.popper?_of_transfers hkeep)
    obtain ⟨stack, -, hregistry⟩ := Option.map_eq_some_iff.mp hclaims
    exact hregistry.symm
  · rw [hnone] at hmem
    cases hmem

/-- Only a cell that keeps a slot is borrowed. -/
theorem Run.cell?_ne (hrun : Run Machine.empty moves m) (t : ThreadId) (key : CellKey) :
    m.world.cell? t key ≠ some (.live none true) := by
  intro hcell
  obtain ⟨rfl, hmem⟩ := hrun.lending.borrowed t key none hcell
  obtain ⟨slot, hlent⟩ := hrun.lending.lent key hmem
  cases hcell.symm.trans hlent

/-- How a pop of a thread through a cell comes by its slot. -/
structure Machine.PopsThrough (m : Machine n α) (t : ThreadId) (key : CellKey) (id : StackId)
    (stack : Stack) (frames : List (Frame n α)) : Prop where
  /-- It fails for want of a slot if and only if the thread keeps none and all are taken. -/
  full_iff : (∃ v, execute m.world t (.pop key id) frames = .done v (.error (.noFreeSlot n))) ↔
    m.world.kept t key = [] ∧ (m.heldOn (key.registry stack)).length = n
  /-- If it fails so, nothing has happened, but that the cell may be marked as used. -/
  full : m.world.kept t key = [] → (m.heldOn (key.registry stack)).length = n →
    ∃ v, (v = m.world ∨ v = m.world.setCell t key (.live none false)) ∧ v.kept t key = [] ∧
      execute m.world t (.pop key id) frames = raise v t frames (.noFreeSlot n)
  /-- A thread that keeps no slot claims the lowest one that is free. -/
  first : m.world.kept t key = [] → (m.heldOn (key.registry stack)).length < n →
    ∃ i, (∀ slot ∈ m.heldOn (key.registry stack), slot.index ≠ i) ∧
      (∀ j < i, ∃ slot ∈ m.heldOn (key.registry stack), slot.index = j) ∧
      m.PopsWith t key id stack frames ⟨key.registry stack, i, t⟩
  /-- A thread that keeps a slot uses it. -/
  later : ∀ slot, m.world.cell? t key = some (.live (some slot) false) →
    m.PopsWith t key id stack frames slot

section

variable {id : StackId} {stack : Stack}

/-- The registry in which a pop claims its slot exists if the stack does. -/
theorem Run.exists_registry (hrun : Run Machine.empty moves m)
    (hstack : m.world.stack? id = some stack) (key : CellKey) :
    ∃ registry, m.world.registryAt? (key.registry stack) = some registry := by
  have hhome : stack.registry < m.world.registries.length :=
    (hrun.sound Machine.sound_empty).stock.homes id stack hstack
  have hlt : key.registry stack < m.world.registries.length := by
    cases key with
    | processWide => exact Nat.zero_lt_of_lt hhome
    | ordinary => exact hhome
  exact ⟨_, List.getElem?_eq_getElem hlt⟩

/-- A cell that keeps no slot is not borrowed. -/
theorem Run.exists_cell (hrun : Run Machine.empty moves m)
    (hcell : (m.world.cell? t key).isSome) (hkept : m.world.kept t key = []) :
    ∃ cell, m.world.cell? t key = some cell ∧ cell.slot? = none ∧ cell ≠ .live none true := by
  obtain ⟨cell, hcell⟩ := Option.isSome_iff_exists.mp hcell
  rw [World.kept_eq, hcell, Option.bind_some, Option.toList_eq_nil_iff] at hkept
  exact ⟨cell, hcell, hkept, fun hborrowed ↦ hrun.cell?_ne t key (hborrowed ▸ hcell)⟩

/-- A thread that keeps no slot pops with the one that it claims. -/
theorem Run.slot?_of_claim (hrun : Run Machine.empty moves m)
    (hcell : (m.world.cell? t key).isSome) (hkept : m.world.kept t key = []) {v : World n α}
    (hclaim : m.world.claimSlot (key.registry stack) t = some (slot, v)) :
    m.world.slot? stack (.cell t key) = some slot := by
  obtain ⟨cell, hcell, hnone, hfree⟩ := hrun.exists_cell hcell hkept
  unfold World.slot?
  rcases cell with _ | ⟨_ | slot', _ | _⟩ | _ <;> simp only [hcell, hclaim, Option.map_some]
  case live.none.true => exact absurd rfl hfree
  all_goals cases hnone

/-- A thread that keeps no slot cannot pop when all are taken. -/
theorem Run.pop_full (hrun : Run Machine.empty moves m) (hstack : m.world.stack? id = some stack)
    (hcell : (m.world.cell? t key).isSome) (hkept : m.world.kept t key = [])
    (hlength : (m.heldOn (key.registry stack)).length = n) (frames : List (Frame n α)) :
    ∃ v, (v = m.world ∨ v = m.world.setCell t key (.live none false)) ∧ v.kept t key = [] ∧
      Machine.execute m.world t (.pop key id) frames =
        Machine.raise v t frames (.noFreeSlot n) := by
  obtain ⟨cell, hcell, hnone, hfree⟩ := hrun.exists_cell hcell hkept
  obtain ⟨registry, hregistry⟩ := hrun.exists_registry hstack key
  have hclaim := ((hrun.heldBy World.heldBy_empty).claimSlot_eq_none_iff hregistry t).mpr hlength
  obtain ⟨v, hv, hempty, hpop⟩ := Machine.popImplicit_of_full hcell hnone hfree hclaim
  rw [Machine.execute_pop hstack]
  exact ⟨v, hv.imp_right And.right, hempty, hpop id frames⟩

/-- A thread that keeps no slot pops with the lowest one that is free. -/
theorem Run.pop_first (hrun : Run Machine.empty moves m) (hstack : m.world.stack? id = some stack)
    (hcell : (m.world.cell? t key).isSome) (hkept : m.world.kept t key = [])
    (hroom : (m.heldOn (key.registry stack)).length < n) (frames : List (Frame n α)) :
    ∃ i, (∀ slot ∈ m.heldOn (key.registry stack), slot.index ≠ i) ∧
      (∀ j < i, ∃ slot ∈ m.heldOn (key.registry stack), slot.index = j) ∧
      m.PopsWith t key id stack frames ⟨key.registry stack, i, t⟩ := by
  have hheld := hrun.heldBy World.heldBy_empty
  obtain ⟨registry, hregistry⟩ := hrun.exists_registry hstack key
  obtain ⟨i, v, hclaim, hlowest⟩ := hheld.exists_claimSlot hregistry hroom t
  obtain ⟨hfree, hbelow⟩ := (hheld.lowestFree_iff hregistry).mp hlowest
  have hslot := hrun.slot?_of_claim hcell hkept hclaim
  exact ⟨i, hfree, hbelow, Machine.popsWith hstack hslot frames⟩

/-- A pop comes by its slot as described. A pop that finds its cell borrowed, inside another pop,
fails too, but for another reason. -/
theorem Run.popsThrough (hrun : Run Machine.empty moves m)
    (hstack : m.world.stack? id = some stack) (hcell : (m.world.cell? t key).isSome)
    (frames : List (Frame n α)) : m.PopsThrough t key id stack frames := by
  have hlater (slot : Handle n) (hkeeps : m.world.cell? t key = some (.live (some slot) false)) :
      m.PopsWith t key id stack frames slot :=
    Machine.popsWith hstack (by rw [World.slot?, hkeeps]) frames
  refine ⟨⟨?_, ?_⟩, fun hkept hlength ↦ hrun.pop_full hstack hcell hkept hlength frames,
    fun hkept hroom ↦ hrun.pop_first hstack hcell hkept hroom frames, hlater⟩
  · rintro ⟨v, hturn⟩
    rcases m.world.kept_cases t key with hkept | ⟨slot, hkept⟩
    · refine ⟨hkept, ?_⟩
      by_contra hroom
      obtain ⟨registry, hregistry⟩ := hrun.exists_registry hstack key
      have hle := (hrun.heldBy World.heldBy_empty).length_le hregistry
      obtain ⟨i, -, -, hpops⟩ :=
        hrun.pop_first hstack hcell hkept (Nat.lt_of_le_of_ne hle hroom) frames
      exact hpops.ne_full v hturn
    · exfalso
      unfold World.kept at hkept
      split at hkept
      · next slot' borrowed hkeeps =>
        cases borrowed with
        | false => exact (hlater slot' hkeeps).ne_full v hturn
        | true =>
          rw [Machine.execute_pop hstack, Machine.popImplicit, hkeeps] at hturn
          cases hturn
      · cases hkept
  · rintro ⟨hkept, hlength⟩
    obtain ⟨v, -, -, hturn⟩ := hrun.pop_full hstack hcell hkept hlength frames
    exact ⟨_, hturn⟩

end

/-- A thread keeps a slot in a cell, idle between its pops, until it unregisters or ends, and either
returns the slot. -/
structure Machine.KeepsUntil (m : Machine n α) (t : ThreadId) (key : CellKey)
    (slot : Handle n) : Prop where
  thread : slot.thread = t
  idle : m.frames = [] → m.world.cell? t key = some (.live (some slot) false)
  stays : ∀ moves m', Run m moves m' → (∀ move ∈ moves, move.vacated? ≠ some (t, key)) →
    m'.world.kept t key = [slot] ∧ m'.world.owner? slot.registry slot.index = some t
  unregister : m.world.cell? t key = some (.live (some slot) false) → ∀ frames, ∃ v,
    execute m.world t (.unregister key) frames = resume v t .done frames ∧
      v.kept t key = [] ∧ v.Returned slot
  exit : (m.world.exit t []).1.kept t key = [] ∧ (m.world.exit t []).1.Returned slot

theorem Run.owner?_of_kept (hrun : Run Machine.empty moves m)
    (hkept : m.world.kept t key = [slot]) :
    m.world.owner? slot.registry slot.index = some t := by
  have hmem : slot ∈ m.world.kept t key := hkept ▸ List.mem_cons_self
  rw [← hrun.thread_of_kept hmem, ← (hrun.heldBy World.heldBy_empty).owner]
  exact Desk.mem_held.mpr (Or.inr (Or.inl ⟨t, key, hmem⟩))

theorem Run.keepsUntil (hrun : Run Machine.empty moves m) (hkept : m.world.kept t key = [slot]) :
    m.KeepsUntil t key slot := by
  have hthread := hrun.thread_of_kept (hkept ▸ List.mem_cons_self : slot ∈ m.world.kept t key)
  have hslot : (m.world.slotAt? slot.registry slot.index).isSome := by
    obtain ⟨found, hfound, -⟩ := Option.bind_eq_some_iff.mp (hrun.owner?_of_kept hkept)
    rw [hfound]
    rfl
  refine ⟨hthread, fun hframes ↦ hrun.cell?_of_kept hframes hkept, fun moves' m' hrun' hmoves ↦ ?_,
    fun hcell frames ↦ ?_, (World.returned_exit hkept hslot).symm⟩
  · have hkept' := hrun'.kept_eq hkept hmoves
    exact ⟨hkept', (hrun.trans hrun').owner?_of_kept hkept'⟩
  · refine ⟨(m.world.releaseSlot slot).setCell t key (.live none false), ?_, ?_, ?_⟩
    · rw [Machine.execute, hcell]
    · have hreleased : (m.world.releaseSlot slot).cell? t key = _ := hcell
      exact World.kept_setCell hreleased _
    · exact World.returned_releaseSlot hslot

/-! ## Threads that share a registry -/

/-- A slot with an explicit handle was claimed explicitly. -/
theorem Run.ne_of_explicit (hrun : Run Machine.empty moves m)
    (hmoves : ∀ move ∈ moves, move.claimed? ≠ some r) (hmem : slot ∈ m.world.explicit) :
    slot.registry ≠ r := by
  refine hrun.handled (Q := fun d ↦ slot ∈ d.world.explicit → slot.registry ≠ r) ?_ nofun hmem
  intro move hmove d e hhandling hd hmem
  rcases hhandling.explicit_cases hmem with hbefore | htake
  · exact hd hbefore
  · rintro rfl
    exact hmoves move hmove (Move.claimed?_of_transfers htake)

/-- If all pops that use a registry go through one kind of cell, its slots are kept there. -/
theorem Run.key_of_kept (hrun : Run Machine.empty moves m)
    (hmoves : ∀ move ∈ moves, ∀ x ∈ move.popper? r, x.2 = key)
    {key' : CellKey} (hmem : slot ∈ m.world.kept t key') (hregistry : slot.registry = r) :
    key' = key := by
  refine hrun.handled (Q := fun d ↦ slot ∈ d.world.kept t key' → key' = key) ?_ nofun hmem
  intro move hmove d e hhandling hd hmem
  rcases hhandling.kept_cases t key' with hsame | ⟨slot', -, hkeep, -, hafter⟩ | ⟨-, hnone⟩
  · exact hd (hsame ▸ hmem)
  · rw [hafter] at hmem
    obtain rfl := List.mem_singleton.mp hmem
    exact hmoves move hmove _ (hregistry ▸ Move.popper?_of_transfers hkeep)
  · rw [hnone] at hmem
    cases hmem

/-- If all pops that use a registry go through one kind of cell, only a thread whose cell is
destroyed has a slot there for a single pop. -/
theorem Run.destroyed_of_temporary (hrun : Run Machine.empty moves m)
    (hmoves : ∀ move ∈ moves, ∀ x ∈ move.popper? r, x.2 = key)
    (hmem : .temporary slot ∈ m.desk.holds) (hregistry : slot.registry = r) :
    slot.thread = m.thread ∧ m.world.cell? m.thread key = some .destroyed := by
  refine hrun.handled (Q := fun d ↦ .temporary slot ∈ d.holds →
    slot.thread = d.thread ∧ d.world.cell? d.thread key = some .destroyed) ?_ nofun hmem
  intro move hmove d e hhandling hd hmem
  rcases hhandling.temporary_cases hmem with ⟨hbefore, hthread⟩ | ⟨key', honce, hthread, hcell⟩
  · obtain ⟨hsame, hdestroyed⟩ := hd hbefore
    rw [← hthread]
    exact ⟨hsame, hhandling.cell?_destroyed hdestroyed⟩
  · obtain rfl : key' = key := hmoves move hmove _ (hregistry ▸ Move.popper?_of_once honce)
    exact ⟨hthread, hcell⟩

/-- If nobody claims slots of a registry explicitly and no pop has one for itself, there are as many
handles as threads that keep a slot. -/
theorem Run.length_heldOn_le (hrun : Run Machine.empty moves m)
    (hclaims : ∀ move ∈ moves, move.claimed? ≠ some r)
    (hpops : ∀ move ∈ moves, ∀ x ∈ move.popper? r, x.2 = key)
    (hholds : ∀ slot, .temporary slot ∈ m.desk.holds → slot.registry ≠ r)
    {threads : List ThreadId} (hthreads : ∀ t slot, slot ∈ m.world.kept t key →
      slot.registry = r → t ∈ threads) : (m.heldOn r).length ≤ threads.length := by
  have hkept {slot : Handle n} (hmem : slot ∈ m.heldOn r) :
      slot.registry = r ∧ slot ∈ m.world.kept slot.thread key := by
    obtain ⟨hmem, hregistry⟩ := World.mem_onRegistry.mp hmem
    refine ⟨hregistry, ?_⟩
    rcases Desk.mem_held.mp hmem with hexplicit | ⟨t, key', hkept⟩ | htemporary
    · exact absurd hregistry (hrun.ne_of_explicit hclaims hexplicit)
    · obtain rfl := hrun.key_of_kept hpops hkept hregistry
      rw [hrun.thread_of_kept hkept]
      exact hkept
    · exact absurd hregistry (hholds slot htemporary)
  have hnodup : ((m.heldOn r).map (·.thread)).Nodup := by
    refine List.Nodup.map_on ?_ ((hrun.heldBy World.heldBy_empty).nodup.filter _)
    intro slot hmem slot' hmem' hthread
    have hslot := (hkept hmem).2
    have hslot' := (hkept hmem').2
    rw [hthread, World.kept_eq_of_mem hslot'] at hslot
    exact List.mem_singleton.mp hslot
  have hsub : (m.heldOn r).map (·.thread) ⊆ threads := by
    intro t hmem
    obtain ⟨slot, hslot, rfl⟩ := List.mem_map.mp hmem
    exact hthreads slot.thread slot (hkept hslot).2 (hkept hslot).1
  simpa using hnodup.length_le_of_subset hsub

/-- A thread that keeps no slot finds one free, as long as there are enough for it and for all
registered threads. -/
theorem Run.length_heldOn_lt (hrun : Run Machine.empty moves m)
    (hclaims : ∀ move ∈ moves, move.claimed? ≠ some r)
    (hpops : ∀ move ∈ moves, ∀ x ∈ move.popper? r, x.2 = key)
    (hholds : ∀ slot, .temporary slot ∈ m.desk.holds → slot.registry ≠ r)
    (hkept : m.world.kept t key = []) :
    (m.heldOn r).length < ((registered r key moves).insert t).length := by
  have hothers : ∀ t' slot, slot ∈ m.world.kept t' key → slot.registry = r →
      t' ∈ (registered r key moves).erase t := by
    intro t' slot hmem hregistry
    have hne : t' ≠ t := by
      rintro rfl
      rw [hkept] at hmem
      cases hmem
    exact (List.mem_erase_of_ne hne).mpr (hrun.mem_registered hmem hregistry)
  refine Nat.lt_of_le_of_lt (hrun.length_heldOn_le hclaims hpops hholds hothers) ?_
  by_cases hmem : t ∈ registered r key moves
  · rw [List.length_erase_of_mem hmem, List.length_insert_of_mem hmem]
    exact Nat.sub_one_lt (Nat.ne_of_gt (List.length_pos_of_mem hmem))
  · rw [List.erase_of_not_mem hmem, List.length_insert_of_not_mem hmem]
    exact Nat.lt_succ_self _

/-- No pop fails for want of a slot as long as no slots are claimed explicitly and no more threads
are registered than there are slots. -/
theorem Run.pop_ne_full (hrun : Run Machine.empty moves m)
    (hclaims : ∀ move ∈ moves, move.claimed? ≠ some r)
    (hpops : ∀ move ∈ moves, ∀ x ∈ move.popper? r, x.2 = key)
    (hwindow : ∀ before, before <+: moves → (registered r key before).length ≤ n)
    {move : Move n α} (hmem : move ∈ moves) (hpopper : move.popper? r = some (t, key))
    (hcell : move.before.world.cell? t key ≠ some .destroyed ∨ move.before.frames = [])
    (v : World n α) : move.turn ≠ .done v (.error (.noFreeSlot n)) := by
  obtain ⟨before, after, rfl, hbefore, hcarry, -⟩ := hrun.exists_before hmem
  obtain ⟨m₀, deed, turn⟩ := move
  intro hturn
  obtain ⟨id, hcommand, hclaimed⟩ := Move.exists_of_popper? hpopper
  obtain ⟨stack, hstack, rfl⟩ := Option.map_eq_some_iff.mp hclaimed
  obtain ⟨frames, -, -, hexecute⟩ :=
    Move.exists_execute (hbefore.sound Machine.sound_empty).nested hcarry hcommand
  have hturn : Machine.execute m₀.world t (.pop key id) frames =
      .done v (.error (.noFreeSlot n)) := hexecute.symm.trans hturn
  have hexists : (m₀.world.cell? t key).isSome := by
    cases hnone : m₀.world.cell? t key with
    | some cell => rfl
    | none =>
      rw [Machine.execute, hstack] at hturn
      simp only [Machine.popImplicit, hnone] at hturn
      unfold Machine.resume at hturn
      split at hturn <;> cases hturn
  obtain ⟨hkept, hlength⟩ := (hbefore.popsThrough hstack hexists frames).full_iff.mp ⟨v, hturn⟩
  have hearlier {move : Move n α} (hmem : move ∈ before) :
      move ∈ before ++ ⟨m₀, deed, turn⟩ :: after := List.mem_append_left _ hmem
  -- A slot that a pop under way has for itself would mean that the cell is destroyed.
  have hholds : ∀ slot, .temporary slot ∈ m₀.desk.holds →
      slot.registry ≠ key.registry stack := by
    intro slot hmem hregistry
    obtain ⟨-, hdestroyed⟩ := hbefore.destroyed_of_temporary
      (fun move hmem ↦ hpops move (hearlier hmem)) hmem hregistry
    obtain ⟨w, t₀, frames₀⟩ := m₀
    cases frames₀ with
    | nil => cases hmem
    | cons frame frames₀ =>
      have hthread : t = t₀ := by
        cases deed with
        | proceed => exact (Move.thread_of_proceed hcommand).symm
        | _ => cases hcarry
      exact hcell.elim (fun hlive ↦ hlive (hthread ▸ hdestroyed)) (List.cons_ne_nil _ _)
  have hless := hbefore.length_heldOn_lt (fun move hmem ↦ hclaims move (hearlier hmem))
    (fun move hmem ↦ hpops move (hearlier hmem)) hholds hkept
  have hafter := hwindow (before ++ [⟨m₀, deed, turn⟩]) ⟨after, by simp⟩
  rw [registered, List.foldl_append, ← registered, List.foldl_cons, List.foldl_nil,
    Move.register_of_popper? hpopper] at hafter
  omega

/-- Threads that pop through a cell come by their slots as `PopsThrough` says, and keep them as
`KeepsUntil` says. If all pops that use a registry go through one kind of cell, a thread has at most
one slot there besides those it claimed explicitly, in its cell, as long as the cell is not
destroyed. If no slots are claimed explicitly either, and never more threads are registered than
there are slots, then no pop fails for want of a slot. Only pops that are made through a destroyed
cell within another command are excepted, since their thread has ended and needs a slot for each. -/
theorem implicit_slots (hrun : Run Machine.empty moves m) (key : CellKey) :
    (∀ t id stack frames, m.world.stack? id = some stack → (m.world.cell? t key).isSome →
      m.PopsThrough t key id stack frames) ∧
    (∀ t slot, m.world.kept t key = [slot] → m.KeepsUntil t key slot) ∧
    ∀ r, (∀ move ∈ moves, ∀ x ∈ move.popper? r, x.2 = key) →
      (∀ t i, m.world.owner? r i = some t →
        ⟨r, i, t⟩ ∈ m.world.explicit ∨ m.world.kept t key = [⟨r, i, t⟩] ∨
          .temporary ⟨r, i, t⟩ ∈ m.desk.holds ∧ m.world.cell? t key = some .destroyed) ∧
      ((∀ move ∈ moves, move.claimed? ≠ some r) →
        (∀ before, before <+: moves → (registered r key before).length ≤ n) →
        ∀ move ∈ moves, ∀ t, move.popper? r = some (t, key) →
          (move.before.world.cell? t key ≠ some .destroyed ∨ move.before.frames = []) →
          ∀ v, move.turn ≠ .done v (.error (.noFreeSlot n))) := by
  refine ⟨fun t id stack frames hstack hcell ↦ hrun.popsThrough hstack hcell frames,
    fun t slot hkept ↦ hrun.keepsUntil hkept, fun r hpops ↦ ⟨fun t i howner ↦ ?_, ?_⟩⟩
  · have hmem := ((hrun.heldBy World.heldBy_empty).owner ⟨r, i, t⟩).mpr howner
    rcases Desk.mem_held.mp hmem with hexplicit | ⟨t', key', hkept⟩ | htemporary
    · exact Or.inl hexplicit
    · obtain rfl : t = t' := hrun.thread_of_kept hkept
      obtain rfl := hrun.key_of_kept hpops hkept rfl
      exact Or.inr (Or.inl (World.kept_eq_of_mem hkept))
    · obtain ⟨hthread, hcell⟩ := hrun.destroyed_of_temporary hpops htemporary rfl
      obtain rfl : t = m.thread := hthread
      exact Or.inr (Or.inr ⟨htemporary, hcell⟩)
  · intro hclaims hwindow move hmem t hpopper hcell v
    exact hrun.pop_ne_full hclaims hpops hwindow hmem hpopper hcell v

end

/-- Two threads share a single slot: the first pops and unregisters, the second pops and ends, the
first pops again. -/
def takingTurns : List (Deed Nat) :=
  [.addRegistry, .addStack 0, .spawn, .spawn, .issue 0 (.push 0 7), .issue 0 (.pop .ordinary 0),
    .proceed, .proceed, .proceed, .proceed, .proceed, .proceed, .issue 0 (.unregister .ordinary),
    .issue 1 (.pop .ordinary 0), .destroyCell 1 .ordinary, .issue 0 (.pop .ordinary 0)]

/-- The moves of two threads that take turns, and the machine after them. -/
def turnsTaken : List (Move 1 Nat) × Machine 1 Nat := Machine.empty.follow takingTurns

theorem implicit_slots_turns :
    turnsTaken.2.world.cell? 0 .ordinary = some (.live (some ⟨0, 0, 0⟩) false) ∧
      ∀ move ∈ turnsTaken.1, ∀ t, move.popper? 0 = some (t, .ordinary) →
        (move.before.world.cell? t .ordinary ≠ some .destroyed ∨ move.before.frames = []) →
        ∀ v, move.turn ≠ .done v (.error (.noFreeSlot 1)) := by
  have hrun : Run Machine.empty turnsTaken.1 turnsTaken.2 := Machine.empty.run_follow takingTurns
  have hwindow : ∀ before ∈ turnsTaken.1.inits, (registered 0 .ordinary before).length ≤ 1 := by
    decide +kernel
  have hkept : turnsTaken.2.world.kept 0 .ordinary = [⟨0, 0, 0⟩] := by
    decide +kernel
  have hframes : turnsTaken.2.frames.isEmpty := by decide +kernel
  obtain ⟨-, hkeeps, hshared⟩ := implicit_slots hrun .ordinary
  refine ⟨(hkeeps 0 _ hkept).idle (List.isEmpty_iff.mp hframes), ?_⟩
  exact (hshared 0 (by decide +kernel)).2 (by decide +kernel)
    fun before hbefore ↦ hwindow before ((List.mem_inits _ _).mpr hbefore)

end Reclaim.Hazard
