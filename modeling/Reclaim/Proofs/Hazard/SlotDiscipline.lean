import Reclaim.Proofs.Hazard.SlotMoves

/-!
# Slot discipline

Whatever a run does, the slots of a registry that have an owner are those that have a handle: an
explicit one, one in a cell, or one with a pop that claimed its slot for itself. So the registry
counts the handles, protects what they publish and nothing else, and lets a thread claim the lowest
slot without a handle, if there is one.
-/

namespace Reclaim.Hazard

variable {n : Nat} {α : Type} {m m' : Machine n α} {moves : List (Move n α)} {r : RegistryId}

def Machine.heldOn (m : Machine n α) (r : RegistryId) : List (Handle n) :=
  World.onRegistry m.held r

def Move.Claims (move : Move n α) (slot : Handle n) : Prop :=
  move.Transfers (.take slot) ∨ (∃ key, move.Transfers (.keep key slot)) ∨
    ∃ key, move.Transfers (.once key slot)

/-- Only commands that ask for a slot of a registry claim one there. -/
theorem Move.Claims.command?_eq {move : Move n α} {slot : Handle n} (hclaims : move.Claims slot) :
    ∃ command, move.command? = some (slot.thread, command) ∧
      (command = .tryClaim slot.registry ∨ command = .claim slot.registry ∨
        ∃ key id, command = .pop key id ∧
          move.before.world.claimsIn? key id = some slot.registry) := by
  rcases hclaims with htake | ⟨key, hkeep⟩ | ⟨key, honce⟩
  · obtain ⟨t, command, hcommand, rfl, hclaim⟩ | ⟨t, key, -, hvacate⟩ := htake
    · exact ⟨command, hcommand, hclaim.elim Or.inl fun h ↦ Or.inr (Or.inl h)⟩
    · cases hvacate
  · obtain ⟨t, command, hcommand, rfl, id, rfl, hclaims⟩ | ⟨t, key, -, hvacate⟩ := hkeep
    · exact ⟨_, hcommand, Or.inr (Or.inr ⟨key, id, rfl, hclaims⟩)⟩
    · cases hvacate
  · obtain ⟨t, command, hcommand, rfl, id, rfl, hclaims⟩ | ⟨t, key, -, hvacate⟩ := honce
    · exact ⟨_, hcommand, Or.inr (Or.inr ⟨key, id, rfl, hclaims⟩)⟩
    · cases hvacate

section

variable [Destructor α]

theorem Run.heldBy (hrun : Run m moves m') (hm : m.world.HeldBy m.held) :
    m'.world.HeldBy m'.held :=
  hrun.handled (Q := fun d ↦ d.world.HeldBy d.held)
    (fun _ _ _ _ hhandling hd ↦ hhandling.heldBy hd) hm

/-- A handle was there before, or its slot was claimed in a move. -/
theorem Run.claims (hrun : Run m moves m') {slot : Handle n} (hmem : slot ∈ m'.held) :
    slot ∈ m.held ∨ ∃ move ∈ moves, move.Claims slot := by
  refine hrun.handled (Q := fun d ↦ slot ∈ d.held →
    slot ∈ m.held ∨ ∃ move ∈ moves, move.Claims slot) ?_ Or.inl hmem
  intro move hmove d e hhandling hd hmem
  rcases Desk.mem_held.mp hmem with hexplicit | ⟨t, key, hkept⟩ | htemporary
  · rcases hhandling.explicit_cases hexplicit with hbefore | htake
    · exact hd (Desk.mem_held.mpr (Or.inl hbefore))
    · exact Or.inr ⟨move, hmove, Or.inl htake⟩
  · rcases hhandling.kept_cases t key with hsame | ⟨slot', -, hkeep, -, hafter⟩ | ⟨-, hnone⟩
    · exact hd (Desk.mem_held.mpr (Or.inr (Or.inl ⟨t, key, hsame ▸ hkept⟩)))
    · rw [hafter] at hkept
      rw [List.mem_singleton.mp hkept]
      exact Or.inr ⟨move, hmove, Or.inr (Or.inl ⟨key, hkeep⟩)⟩
    · rw [hnone] at hkept
      cases hkept
  · rcases hhandling.temporary_cases htemporary with ⟨hbefore, -⟩ | ⟨key, honce, -, -⟩
    · exact hd (Desk.mem_held.mpr (Or.inr (Or.inr hbefore)))
    · exact Or.inr ⟨move, hmove, Or.inr (Or.inr ⟨key, honce⟩)⟩

end

namespace World

variable {w : World n α} {held : List (Handle n)} {registry : Registry n (Entry α)} {i : Fin n}

/-- The lowest free slot, told by the handles. -/
theorem HeldBy.lowestFree_iff (hw : w.HeldBy held) (hregistry : w.registryAt? r = some registry) :
    LowestFree registry i ↔ (∀ slot ∈ onRegistry held r, slot.index ≠ i) ∧
      ∀ j < i, ∃ slot ∈ onRegistry held r, slot.index = j := by
  constructor
  · rintro ⟨hfree, hlowest⟩
    refine ⟨fun slot hmem hindex ↦ ?_, fun j hj ↦ ?_⟩
    · exact (hw.owner_ne_none_iff hregistry i).mpr ⟨slot, hmem, hindex⟩ hfree
    · exact (hw.owner_ne_none_iff hregistry j).mp (hlowest j hj)
  · rintro ⟨hfree, hlowest⟩
    refine ⟨?_, fun j hj ↦ (hw.owner_ne_none_iff hregistry j).mpr (hlowest j hj)⟩
    by_contra howned
    obtain ⟨slot, hmem, hindex⟩ := (hw.owner_ne_none_iff hregistry i).mp howned
    exact hfree slot hmem hindex

/-- A slot that nobody holds publishes nothing. -/
theorem HeldBy.published_eq_none (hw : w.HeldBy held)
    (hregistry : w.registryAt? r = some registry)
    (hfree : ∀ slot ∈ onRegistry held r, slot.index ≠ i) :
    (registry.slots.get i).published = none := by
  have hnone : w.owner? r i = none := by
    rw [owner?_of_registryAt? hregistry]
    by_contra howned
    obtain ⟨slot, hmem, hindex⟩ := (hw.owner_ne_none_iff hregistry i).mp howned
    exact hfree slot hmem hindex
  have hidle := hw.idle r i hnone
  rwa [published?, hregistry] at hidle

/-- If there is a slot without a handle, a claim takes the lowest one and names it. -/
theorem HeldBy.exists_claimSlot (hw : w.HeldBy held) (hregistry : w.registryAt? r = some registry)
    (hroom : (onRegistry held r).length < n) (t : ThreadId) :
    ∃ i v, w.claimSlot r t = some (⟨r, i, t⟩, v) ∧ LowestFree registry i := by
  cases hclaim : w.claimSlot r t with
  | none => exact absurd ((hw.claimSlot_eq_none_iff hregistry t).mp hclaim) (Nat.ne_of_lt hroom)
  | some claimed =>
    obtain ⟨⟨q, i, t'⟩, v⟩ := claimed
    obtain ⟨found, hfound, hlowest, rfl, rfl, -⟩ := exists_of_claimSlot hclaim
    obtain rfl := Option.some.inj (hregistry.symm.trans hfound)
    exact ⟨i, v, rfl, hlowest⟩

end World

/-- The slots of a registry with an owner are those with a handle, one each, and the owner is the
thread that claimed the slot. So the registry has as many claimed slots as there are handles, slots
without a handle publish nothing, and what is protected is what the handles publish. A claim takes
the lowest slot without a handle, and fails if and only if there is none. -/
theorem slots_have_holders [Destructor α] (hrun : Run Machine.empty moves m)
    {registry : Registry n (Entry α)} (hregistry : m.world.registryAt? r = some registry) :
    ((m.heldOn r).map (·.index)).Nodup ∧
    (∀ i t, (registry.slots.get i).owner = some t ↔ ⟨r, i, t⟩ ∈ m.heldOn r) ∧
    (∀ slot ∈ m.heldOn r, ∃ move ∈ moves, move.Claims slot) ∧
    registry.claimed = (m.heldOn r).length ∧ (m.heldOn r).length ≤ n ∧
    (∀ i, (∀ slot ∈ m.heldOn r, slot.index ≠ i) → (registry.slots.get i).published = none) ∧
    (∀ a, registry.isProtected (some a) ↔
      ∃ slot ∈ m.heldOn r, (registry.slots.get slot.index).published = some a) ∧
    ∀ t frames,
      if (m.heldOn r).length < n then
        ∃ i v, (∀ slot ∈ m.heldOn r, slot.index ≠ i) ∧
          (∀ j < i, ∃ slot ∈ m.heldOn r, slot.index = j) ∧
          v.handle? m.world.handles.length = some ⟨r, i, t⟩ ∧ v.owner? r i = some t ∧
          ∀ command ∈ [Command.tryClaim r, .claim r], Machine.execute m.world t command frames =
            Machine.resume v t (.claimed m.world.handles.length) frames
      else
        Machine.execute m.world t (.tryClaim r) frames =
            Machine.resume m.world t (.exhausted n) frames ∧
          Machine.execute m.world t (.claim r) frames =
            Machine.raise m.world t frames (.noFreeSlot n) := by
  have hheld : m.world.HeldBy m.held := hrun.heldBy World.heldBy_empty
  refine ⟨hheld.nodup_index r, fun i t ↦ ?_, fun slot hmem ↦ ?_, hheld.claimed_eq hregistry,
    hheld.length_le hregistry, fun i ↦ hheld.published_eq_none hregistry,
    hheld.isProtected_iff hregistry, fun t frames ↦ ?_⟩
  · rw [hheld.owner_iff hregistry, Machine.heldOn, World.mem_onRegistry]
    exact (and_iff_left rfl).symm
  · exact (hrun.claims (World.mem_onRegistry.mp hmem).1).resolve_left nofun
  · split
    · next hroom =>
      obtain ⟨i, v, hclaim, hlowest⟩ := hheld.exists_claimSlot hregistry hroom t
      obtain ⟨hfree, hbelow⟩ := (hheld.lowestFree_iff hregistry).mp hlowest
      have howner : v.owner? r i = some t :=
        ((hheld.claim hclaim).owner ⟨r, i, t⟩).mp List.mem_cons_self
      have hhandles : v.handles = m.world.handles := by
        obtain ⟨_, -, -, -, -, rfl⟩ := World.exists_of_claimSlot hclaim
        rfl
      refine ⟨i, (v.addHandle ⟨r, i, t⟩).2, hfree, hbelow, ?_, howner, ?_⟩
      · rw [← hhandles, World.handle?, World.addHandle, List.getElem?_concat_length]
        rfl
      · rw [← hhandles]
        refine List.forall_mem_cons.mpr ⟨?_, List.forall_mem_singleton.mpr ?_⟩
        all_goals
          rw [Machine.execute, hclaim]
          rfl
    · next hfull =>
      have hlength := Nat.le_antisymm (hheld.length_le hregistry) (Nat.not_lt.mp hfull)
      have hnone := (hheld.claimSlot_eq_none_iff hregistry t).mpr hlength
      rw [Machine.execute, Machine.execute, hnone, hregistry]
      exact ⟨rfl, rfl⟩

/-- One thread pops from an empty stack and keeps the first slot; another claims the second one. -/
def crowding : List (Deed Nat) :=
  [.addRegistry, .addStack 0, .spawn, .spawn, .issue 0 (.pop .ordinary 0), .issue 1 (.tryClaim 0)]

def crowded : Machine 2 Nat := (Machine.empty.follow crowding).2

theorem slots_have_holders_crowd :
    (crowded.heldOn 0).length = 2 ∧ Machine.execute crowded.world 0 (.tryClaim 0) [] =
      .done crowded.world (.ok (.exhausted 2)) := by
  have hlength : (crowded.heldOn 0).length = 2 := by decide +kernel
  obtain ⟨registry, hregistry⟩ := Option.isSome_iff_exists.mp
    (show (crowded.world.registryAt? 0).isSome by decide +kernel)
  obtain ⟨-, -, -, -, -, -, -, hclaims⟩ :=
    slots_have_holders (Machine.empty.run_follow crowding) hregistry
  have hfull := hclaims 0 []
  rw [if_neg (by rw [show (Machine.empty.follow crowding).2 = crowded from rfl, hlength]; decide)]
    at hfull
  exact ⟨hlength, hfull.1⟩

end Reclaim.Hazard
