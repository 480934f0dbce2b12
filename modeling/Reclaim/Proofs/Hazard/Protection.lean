import Reclaim.Proofs.Hazard.Custody
import Reclaim.Stress

/-!
# Protection

A slot that publishes an address guards it: as long as the slot is not overwritten and the stack in
which the address may be linked is not dropped, no effect starts the deleter of that address. All
ways to a deleter lead through a look at the slots, so no deleter of what was retired to a registry
is ever started while a slot of that registry publishes its address.
-/

namespace Reclaim.Hazard

variable {n : Nat} {α : Type} {s t : Stock n α} {marks : List (Mark n)} {a : Address}
  {r : RegistryId} {i : Fin n} {gone : StackId → Prop}

theorem World.published?_modifyLimbo (w : World n α) (q : RegistryId)
    (f : LimboList (Entry α) → LimboList (Entry α)) (r : RegistryId) (i : Fin n) :
    (w.modifyLimbo q f).published? r i = w.published? r i := by
  simp only [published?, registryAt?, modifyLimbo, modifyRegistry, List.getElem?_modify]
  by_cases hq : q = r
  · subst hq
    cases w.registries[q]? <;> simp
  · simp [hq]

theorem World.published?_congr {w v : World n α} (hregistries : v.registries = w.registries)
    (r : RegistryId) (i : Fin n) : v.published? r i = w.published? r i := by
  rw [published?, registryAt?, hregistries]
  rfl

/-- A new registry publishes nothing. -/
theorem World.published?_addRegistry (w : World n α) (r : RegistryId) (i : Fin n) :
    w.addRegistry.published? r i = w.published? r i := by
  simp only [published?, registryAt?, World.addRegistry, List.getElem?_append]
  split
  · rfl
  · next hge =>
    rw [List.getElem?_eq_none (Nat.not_lt.mp hge), List.getElem?_singleton]
    split
    · exact congrArg Slot.published (Vector.getElem_replicate _)
    · rfl

/-- The marks leave a slot alone. -/
def Spares (marks : List (Mark n)) (r : RegistryId) (i : Fin n) : Prop :=
  ∀ slot, .slot slot ∈ marks → slot.registry = r → slot.index ≠ i

/-- A slot that is not overwritten publishes what it published before. -/
theorem Effect.published?_eq (heffect : Effect s marks t) (hspares : Spares marks r i) :
    t.world.published? r i = s.world.published? r i := by
  cases heffect with
  | aside haside =>
    exact haside.published r i fun slot hmem ↦ hspares slot (List.mem_map_of_mem hmem)
  | addRegistry => exact s.world.published?_addRegistry r i
  | park => exact World.published?_modifyLimbo _ _ _ r i
  | putBack => exact World.published?_modifyLimbo _ _ _ r i
  | countFreed => exact World.published?_modifyLimbo _ _ _ r i
  | free => exact World.published?_congr (World.registries_start _ _) r i
  | sweep => exact World.published?_congr (World.registries_start _ _) r i
  | discard => exact World.published?_congr (World.registries_start _ _) r i
  | detach q =>
    show (s.world.detachLimbo q).2.published? r i = s.world.published? r i
    unfold World.detachLimbo
    split
    · rfl
    · exact World.published?_modifyLimbo _ _ _ r i
  | _ => rfl

theorem Effects.published?_eq (heffects : Effects s marks t) (hs : s.Sound)
    (hspares : Spares marks r i) : t.world.published? r i = s.world.published? r i := by
  refine heffects.kept (P := fun u ↦ u.world.published? r i = s.world.published? r i) hs ?_ rfl
  intro u v marks' hsub heffect _ hu
  exact (heffect.published?_eq fun slot hmem ↦ hspares slot (hsub hmem)).trans hu

/-- The places of what only this registry can free: its stacks, but those that are `gone`, and all
places between unlinking and freeing. -/
def Place.Awaits (s : Stock n α) (gone : StackId → Prop) (r : RegistryId) : Place → Prop
  | .linked id => s.world.home? id = some r ∧ ¬ gone id
  | .taken q | .parked q | .draining q | .lost q => q = r
  | .freed => False

/-- A slot publishes an address that only the slot's registry can free. -/
structure Stock.Guards (s : Stock n α) (gone : StackId → Prop) (r : RegistryId) (i : Fin n)
    (a : Address) : Prop where
  published : s.world.published? r i = some a
  awaits : ∃ p : Place, p.Awaits s gone r ∧ a ∈ s.addresses p

theorem Stock.Guards.mono {gone' : StackId → Prop} (hguards : s.Guards gone r i a)
    (hgone : ∀ id, a ∈ s.addresses (.linked id) → gone' id → gone id) : s.Guards gone' r i a where
  published := hguards.published
  awaits := by
    obtain ⟨p, hp, hmem⟩ := hguards.awaits
    refine ⟨p, ?_, hmem⟩
    cases p with
    | linked id => exact ⟨hp.1, fun h ↦ hp.2 (hgone id hmem h)⟩
    | _ => exact hp

/-- No route leads a guarded address to where it is freed. -/
theorem Route.awaits {moved : List Address} {p : Place} {dst : Option Place}
    (hroute : Route s marks moved (some p) dst) (hslot : s.world.published? r i = some a)
    (hgone : ∀ id, .drop id ∈ marks → gone id) (hp : p.Awaits s gone r) (hmem : a ∈ moved) :
    ∃ q : Place, dst = some q ∧ q.Awaits s gone r := by
  have hprotected {q : RegistryId} {b : Address} (hq : q = r)
      (hfree : s.world.isProtected q (some b) = false) (hmem : a ∈ [b]) : False := by
    subst hq
    obtain rfl := List.mem_singleton.mp hmem
    exact World.published?_ne_of_not_isProtected hfree i hslot
  cases hroute with
  | @unlink id stack hstack b =>
    have hhome : s.world.home? id = some stack.registry := by
      rw [World.home?, hstack]
      rfl
    exact ⟨_, rfl, Option.some.inj (hhome.symm.trans hp.1)⟩
  | park q b => exact ⟨_, rfl, hp⟩
  | free hfree => exact (hprotected hp hfree hmem).elim
  | detach q => exact ⟨_, rfl, hp⟩
  | putBack q b => exact ⟨_, rfl, hp⟩
  | sweep hfree => exact (hprotected hp hfree hmem).elim
  | cut q => exact ⟨_, rfl, hp⟩
  | discard id b => exact absurd (hgone id List.mem_cons_self) hp.2
  | forget id => exact absurd (hgone id List.mem_cons_self) hp.2

theorem Effect.guards (heffect : Effect s marks t) (hs : s.Sound) (hspares : Spares marks r i)
    (hgone : ∀ id, .drop id ∈ marks → gone id) (hguards : s.Guards gone r i a) :
    t.Guards gone r i a where
  published := (heffect.published?_eq hspares).trans hguards.published
  awaits := by
    obtain ⟨moved, src, dst, hroute, hshift⟩ := heffect.shift hs
    have hsame : ∃ p : Place, p.Awaits s gone r ∧ a ∈ t.addresses p := by
      refine hshift.follow (fun p hsrc hp hmem ↦ ?_) hguards.awaits
      subst hsrc
      exact hroute.awaits hguards.published hgone hp hmem
    obtain ⟨p, hp, hmem⟩ := hsame
    refine ⟨p, ?_, hmem⟩
    cases p with
    | linked id =>
      refine ⟨?_, hp.2⟩
      rcases heffect.home? id with hhome | ⟨hdrop, -⟩ | ⟨hnew, -⟩
      · exact hhome.trans hp.1
      · exact absurd (hgone id hdrop) hp.2
      · exact absurd hnew (Nat.ne_of_lt (World.lt_length_of_home hp.1))
    | _ => exact hp

theorem Effects.guards (heffects : Effects s marks t) (hs : s.Sound) (hspares : Spares marks r i)
    (hgone : ∀ id, .drop id ∈ marks → gone id) (hguards : s.Guards gone r i a) :
    t.Guards gone r i a := by
  refine heffects.kept (P := (·.Guards gone r i a)) hs ?_ hguards
  intro u v marks' hsub heffect hu
  exact heffect.guards hu (fun slot hmem ↦ hspares slot (hsub hmem))
    fun id hmem ↦ hgone id (hsub hmem)

/-- What is guarded is not freed. -/
theorem Stock.Guards.not_freed (hguards : s.Guards gone r i a) (hs : s.Sound) :
    a ∉ s.world.started := by
  obtain ⟨p, hp, hmem⟩ := hguards.awaits
  have hne : p ≠ .freed := by
    rintro rfl
    exact hp
  exact hs.not_mem_of_mem hmem hne

def Mark.IsOn (mark : Mark n) (r : RegistryId) (i : Fin n) : Prop :=
  match mark with
  | .slot h => h.registry = r ∧ h.index = i
  | _ => False

instance (mark : Mark n) (r : RegistryId) (i : Fin n) : Decidable (mark.IsOn r i) := by
  unfold Mark.IsOn
  split <;> infer_instance

/-- The move overwrites a slot: with another address or with null, by giving it up, or by using it
in a pop. -/
def Move.Overwrites (move : Move n α) (r : RegistryId) (i : Fin n) : Prop :=
  ∃ mark ∈ move.marks, mark.IsOn r i

instance (move : Move n α) (r : RegistryId) (i : Fin n) : Decidable (move.Overwrites r i) :=
  inferInstanceAs (Decidable (∃ mark ∈ move.marks, mark.IsOn r i))

def Move.Drops (move : Move n α) (a : Address) : Prop :=
  match move.deed with
  | .dropStack id => a ∈ move.before.stock.addresses (.linked id)
  | _ => False

instance (move : Move n α) (a : Address) : Decidable (move.Drops a) := by
  unfold Move.Drops
  split <;> infer_instance

def Move.Starts (move : Move n α) (a : Address) : Prop :=
  move.before.world.started.count a < move.after.world.started.count a

theorem Move.spares {move : Move n α} (hmove : ¬ move.Overwrites r i) {marks : List (Mark n)}
    (hmarks : marks ⊆ move.marks) : Spares marks r i :=
  fun slot hmem hr hi ↦ hmove ⟨.slot slot, hmarks hmem, hr, hi⟩

/-- A turn does not start what is guarded, whatever slots it overwrites. -/
theorem Stock.Guards.count_le {turn : Turn n α} (hguards : s.Guards gone r i a) (hs : s.Sound)
    (hturn : turn.Marked s marks) (hgone : ∀ id, .drop id ∈ marks → gone id) :
    turn.world.started.count a ≤ s.world.started.count a := by
  -- A turn that starts a deleter overwrites no slot, so the guard outlives it.
  obtain ⟨marks', hmarks, heffects, hstarted | hslots⟩ := hturn
  · exact Nat.le_of_eq (congrArg _ hstarted)
  · have hafter := heffects.guards hs (fun slot hmem ↦ absurd hmem (hslots slot))
      (fun id hmem ↦ hgone id (hmarks hmem)) hguards
    have hnot : a ∉ turn.world.started := hafter.not_freed (heffects.sound hs)
    rw [List.count_eq_zero_of_not_mem hnot]
    exact Nat.zero_le _

section

variable [Destructor α] {m m' : Machine n α} {deed : Deed α} {turn : Turn n α}
  {moves : List (Move n α)}

/-- A guard outlives every move that neither overwrites its slot nor drops its stack. -/
theorem Run.guards (hrun : Run m moves m') (hm : m.Sound)
    (hmoves : ∀ move ∈ moves, ¬ move.Overwrites r i ∧ ¬ move.Drops a)
    (hguards : m.stock.Guards (fun _ ↦ False) r i a) :
    m'.stock.Guards (fun _ ↦ False) r i a := by
  refine hrun.kept (P := (·.Guards (fun _ ↦ False) r i a)) hm ?_ hguards
  intro move hmem marks hmarks heffects hs hguards
  obtain ⟨hslot, hdrop⟩ := hmoves move hmem
  have hbefore : move.before.stock.Guards (fun id ↦ move.deed = .dropStack id) r i a := by
    refine hguards.mono fun id hlinked hdeed ↦ hdrop ?_
    rwa [Move.Drops, hdeed]
  have hafter := heffects.guards hs (Move.spares hslot hmarks)
    (fun id hmem ↦ Move.drop_mem_marks (hmarks hmem)) hbefore
  exact hafter.mono fun _ _ hfalse ↦ hfalse.elim

/-- A move does not start what only a registry can free, or what is freed, while one of the slots
publishes it. -/
theorem Machine.Sound.not_starts (hm : m.Sound) (hcarry : m.carryOut deed = some turn)
    (hslot : m.world.published? r i = some a)
    (hplace : ∃ p : Place, (p.Awaits m.stock (fun id ↦ deed = .dropStack id) r ∨ p = .freed) ∧
      a ∈ m.stock.addresses p) : ¬ (Move.mk m deed turn).Starts a := by
  intro hstarts
  have hturn : m.world.started.count a < turn.world.started.count a :=
    (turn.world_machine m.thread) ▸ hstarts
  obtain ⟨p, hawaits | rfl, hmem⟩ := hplace
  · have hguards : m.stock.Guards _ r i a := ⟨hslot, p, hawaits, hmem⟩
    have hle := hguards.count_le hm.stock (hm.marked hcarry) fun id ↦ Move.drop_mem_marks
    exact Nat.not_lt.mpr hle hturn
  · have hbefore : 0 < m.world.started.count a := List.count_pos_iff.mpr hmem
    have hafter := (hm.after hcarry m.thread).stock.count_le_one a .freed
    rw [turn.stock_machine] at hafter
    have honce : turn.world.started.count a ≤ 1 := hafter
    omega

theorem Machine.Sound.not_starts_of_holds (hm : m.Sound) (hcarry : m.carryOut deed = some turn)
    (hholds : m.stock.Holds r a) (hslot : m.world.published? r i = some a) :
    ¬ (Move.mk m deed turn).Starts a := by
  obtain ⟨p, hp, hmem⟩ := hholds
  refine hm.not_starts hcarry hslot ⟨p, ?_, hmem⟩
  rcases hp with rfl | hp
  · exact Or.inl rfl
  · cases p with
    | linked id => exact hp.elim
    | taken q => exact hp.elim
    | freed => exact Or.inr rfl
    | _ => exact Or.inl hp

/-- A move does not start what it retires while one of the slots publishes it. -/
theorem Machine.Sound.not_starts_of_retires (hm : m.Sound)
    (hcarry : m.carryOut deed = some turn) (hretires : (Move.mk m deed turn).Retires r a)
    (hslot : m.world.published? r i = some a) : ¬ (Move.mk m deed turn).Starts a := by
  intro hstarts
  have hturn : m.world.started.count a < turn.world.started.count a :=
    (turn.world_machine m.thread) ▸ hstarts
  obtain ⟨w, t, entry, frames, hframes, rfl, rfl, hregistries, hstarted, heffects⟩ :=
    hretires.exists_retire hm.nested hcarry
  have hguards : Stock.Guards { stockOf w frames with
      taken := (r, entry) :: (stockOf w frames).taken } (fun _ ↦ False) r i entry.address := by
    refine ⟨(World.published?_congr hregistries r i).trans hslot, .taken r, rfl, ?_⟩
    simp [Stock.addresses]
  have hmarked : (retire w t r entry frames).Marked { stockOf w frames with
      taken := (r, entry) :: (stockOf w frames).taken } [] :=
    (retire_cases hframes w t r entry rfl).elim (·.marked) (·.marked [])
  have hle := hguards.count_le (heffects.sound hm.stock) hmarked
    fun _ hmem ↦ absurd hmem List.not_mem_nil
  rw [← hstarted] at hturn
  exact Nat.not_lt.mpr hle hturn

/-- A move does not start what it pops while one of the slots publishes it. -/
theorem Machine.Sound.not_starts_of_pops (hm : m.Sound) (hcarry : m.carryOut deed = some turn)
    (hpops : (Move.mk m deed turn).Pops r a) (hslot : m.world.published? r i = some a) :
    ¬ (Move.mk m deed turn).Starts a := by
  obtain ⟨hdrop, id, hhome, hmem, -⟩ := hpops
  exact hm.not_starts hcarry hslot ⟨.linked id, Or.inl ⟨hhome, hdrop id⟩, hmem⟩

/-- No deleter of what was retired to a registry, or popped from a stack over it, is ever started
while a slot of the registry publishes its address. So what a slot publishes is not freed, if it is
linked in a stack over the registry or parked, as long as the slot is not overwritten and that stack
is not dropped. -/
theorem no_protected_deleter_starts (hrun : Run Machine.empty moves m) :
    (∀ deed turn, m.carryOut deed = some turn → ∀ r a,
      (∃ move ∈ moves ++ [⟨m, deed, turn⟩], move.Retires r a ∨ move.Pops r a) →
        (Move.mk m deed turn).Starts a → m.world.isProtected r (some a) = false) ∧
    ∀ r i a, m.world.published? r i = some a →
      ((∃ id, m.world.home? id = some r ∧ a ∈ m.stock.addresses (.linked id)) ∨
        a ∈ m.stock.addresses (.parked r)) →
      ∀ moves' m', Run m moves' m' →
        (∀ move ∈ moves', ¬ move.Overwrites r i ∧ ¬ move.Drops a) →
        a ∉ m'.world.started := by
  have hm := hrun.sound Machine.sound_empty
  constructor
  · rintro deed turn hcarry r a ⟨move, hmem, hmove⟩ hstarts
    apply Bool.eq_false_iff.mpr
    intro hprotected
    obtain ⟨i, hslot⟩ := World.isProtected_iff.mp hprotected
    rcases List.mem_append.mp hmem with hmem | hmem
    · have hholds : m.stock.Holds r a := by
        rcases hmove with hretires | hpops
        · obtain ⟨p, hp, hmem⟩ := hrun.keeps Machine.sound_empty hmem hretires
          exact ⟨p, Or.inr hp, hmem⟩
        · exact hrun.holds Machine.sound_empty hmem hpops
      exact hm.not_starts_of_holds hcarry hholds hslot hstarts
    · rw [List.mem_singleton.mp hmem] at hmove
      rcases hmove with hretires | hpops
      · exact hm.not_starts_of_retires hcarry hretires hslot hstarts
      · exact hm.not_starts_of_pops hcarry hpops hslot hstarts
  · intro r i a hslot hplace moves' m' hrun' hmoves
    have hguards : m.stock.Guards (fun _ ↦ False) r i a := by
      refine ⟨hslot, ?_⟩
      rcases hplace with ⟨id, hhome, hmem⟩ | hmem
      · exact ⟨.linked id, ⟨hhome, not_false⟩, hmem⟩
      · exact ⟨.parked r, rfl, hmem⟩
    exact (hrun'.guards hm hmoves hguards).not_freed (hrun'.sound hm).stock

end

/-- A thread pushes a node and publishes its address in the first of two slots; another thread
claims the second slot. -/
def reading : List (Deed Nat) :=
  [.addRegistry, .addStack 0, .spawn, .spawn, .issue 0 (.push 0 7), .issue 0 (.tryClaim 0),
    .issue 1 (.tryClaim 0), .issue 0 (.publish 0 (some (.node 0)))]

def poppingAside : List (Deed Nat) :=
  [.issue 1 (.popUsing 0 1), .proceed, .proceed, .proceed, .proceed, .proceed, .proceed,
    .issue 1 (.reclaim 0), .proceed, .proceed]

def whileReading : Machine 2 Nat := (Machine.empty.follow reading).2

theorem no_protected_deleter_starts_reader :
    .node 0 ∈ (whileReading.follow poppingAside).2.stock.addresses (.parked 0) ∧
      .node 0 ∉ (whileReading.follow poppingAside).2.world.started := by
  have hrun : Run Machine.empty _ whileReading := Machine.empty.run_follow reading
  have hlinked : ∃ id, whileReading.world.home? id = some 0 ∧
      .node 0 ∈ whileReading.stock.addresses (.linked id) := ⟨0, by decide +kernel⟩
  refine ⟨by decide +kernel, ?_⟩
  exact (no_protected_deleter_starts hrun).2 0 0 (.node 0) (by decide +kernel) (Or.inl hlinked)
    _ _ (whileReading.run_follow poppingAside) (by decide +kernel)

end Reclaim.Hazard
