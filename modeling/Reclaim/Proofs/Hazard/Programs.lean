import Reclaim.Proofs.Hazard.Custody

/-!
# The programs of entries

The entry of a node has an empty program, and the entry of an object carries the program of that
object from its retirement on, wherever it is put: parked, taken out in a sweep, put back. So if no
object has a program, no deleter does anything but free.
-/

namespace Reclaim.Hazard

variable {n : Nat} {α : Type} {s t : Stock n α} {marks : List (Mark n)} {entry : Entry α}

namespace World

variable {w v : World n α}

def program? (w : World n α) (o : ObjectId) : Option (List (Command α)) :=
  (w.objects[o]?).map (·.program)

/-- The entry carries the program that goes with its address. -/
def Issued (w : World n α) (entry : Entry α) : Prop :=
  match entry.address with
  | .node _ => entry.program = []
  | .object o => w.program? o = some entry.program

theorem Issued.mono (hissued : w.Issued entry)
    (hprograms : ∀ o program, w.program? o = some program → v.program? o = some program) :
    v.Issued entry := by
  unfold Issued at *
  split
  · next haddress =>
    rw [haddress] at hissued
    exact hissued
  · next haddress =>
    rw [haddress] at hissued
    exact hprograms _ _ hissued

theorem Issued.program_eq_nil (hissued : w.Issued entry)
    (hobjects : ∀ object ∈ w.objects, object.program = []) : entry.program = [] := by
  unfold Issued at hissued
  split at hissued
  · exact hissued
  · obtain ⟨object, hobject, hprogram⟩ := Option.map_eq_some_iff.mp hissued
    exact hprogram.symm.trans (hobjects object (List.mem_of_getElem? hobject))

theorem program?_markRetired (w : World n α) (o p : ObjectId) :
    (w.markRetired o).program? p = w.program? p := by
  simp only [program?, markRetired, List.getElem?_modify]
  by_cases hp : o = p
  · simp [hp, Function.comp_def]
  · simp [hp]

/-- What is parked after a change was parked before, or is in the list that was changed. -/
theorem mem_limbo_modifyLimbo {r q : RegistryId} {f : LimboList (Entry α) → LimboList (Entry α)}
    (hmem : entry ∈ ((w.modifyLimbo r f).limbo q).entries) :
    entry ∈ (w.limbo q).entries ∨ entry ∈ (f (w.limbo r)).entries := by
  by_cases hlt : r < w.registries.length
  · rw [limbo_modifyLimbo hlt] at hmem
    split at hmem
    · next hq => exact Or.inr (hq ▸ hmem)
    · exact Or.inl hmem
  · have hnone : w.registries[r]? = none := List.getElem?_eq_none (Nat.not_lt.mp hlt)
    have hsame : w.modifyLimbo r f = w := by
      rw [modifyLimbo, modifyRegistry, List.modify_eq_self (List.getElem?_eq_none_iff.mp hnone)]
    exact Or.inl (hsame ▸ hmem)

end World

/-- The entry is still to be freed: it is parked, taken, or to come in a running sweep. -/
inductive Stock.Waits (s : Stock n α) (entry : Entry α) : Prop
  | parked (r : RegistryId) (hmem : entry ∈ (s.world.limbo r).entries)
  | taken (r : RegistryId) (hmem : (r, entry) ∈ s.taken)
  | draining {sweep : Sweep α} (hsweep : sweep ∈ s.sweeps) (hmem : entry ∈ sweep.rest)

theorem Stock.Waits.of_cons {r : RegistryId} {other : Entry α} {world : World n α}
    (hwaits : Stock.Waits { s with world, taken := (r, other) :: s.taken } entry)
    (hlimbo : ∀ r, world.limbo r = s.world.limbo r) : s.Waits entry ∨ entry = other := by
  cases hwaits with
  | parked q hmem => exact Or.inl (.parked q (hlimbo q ▸ hmem))
  | taken q hmem =>
    rcases List.mem_cons.mp hmem with heq | hmem
    · exact Or.inr (Prod.mk.inj heq).2
    · exact Or.inl (.taken q hmem)
  | draining hsweep hmem => exact Or.inl (.draining hsweep hmem)

/-- What waits is not more if limbo lists, taken entries and sweeps are not. -/
theorem Stock.Waits.mono (hwaits : t.Waits entry)
    (hlimbo : ∀ r, entry ∈ (t.world.limbo r).entries → s.Waits entry)
    (htaken : t.taken ⊆ s.taken)
    (hsweeps : ∀ sweep ∈ t.sweeps, entry ∈ sweep.rest → s.Waits entry) : s.Waits entry := by
  cases hwaits with
  | parked r hmem => exact hlimbo r hmem
  | taken r hmem => exact .taken r (htaken hmem)
  | draining hsweep hmem => exact hsweeps _ hsweep hmem

namespace Effect

theorem program? (heffect : Effect s marks t) {o : ObjectId} {program : List (Command α)}
    (hprogram : s.world.program? o = some program) : t.world.program? o = some program := by
  have start (w : World n α) (entry : Entry α) : (w.start entry).program? o = w.program? o := by
    rw [World.program?, World.objects_start, World.program?]
  cases heffect with
  | aside haside =>
    rw [World.program?, haside.objects]
    exact hprogram
  | addObject =>
    obtain ⟨object, hobject, -⟩ := Option.map_eq_some_iff.mp hprogram
    rw [World.program?, World.addObject,
      List.getElem?_append_left (List.getElem?_eq_some_iff.mp hobject).1]
    exact hprogram
  | handOver => exact (World.program?_markRetired _ _ o).trans hprogram
  | free => exact (start _ _).trans hprogram
  | sweep => exact (start _ _).trans hprogram
  | discard => exact (start _ _).trans hprogram
  | detach r =>
    obtain ⟨registries, hdetach, -⟩ := s.world.detachLimbo_eq r
    show (s.world.detachLimbo r).2.program? o = _
    rw [hdetach]
    exact hprogram
  | _ => exact hprogram

/-- An entry that waits has waited before, or was issued just now. -/
theorem waits (heffect : Effect s marks t) (hwaits : t.Waits entry) :
    s.Waits entry ∨ t.world.Issued entry := by
  have hsame {world : World n α} (hlimbo : ∀ r, world.limbo r = s.world.limbo r) :
      ∀ r, entry ∈ (world.limbo r).entries → s.Waits entry :=
    fun r hmem ↦ .parked r (hlimbo r ▸ hmem)
  have hsweeps : ∀ sweep ∈ s.sweeps, entry ∈ sweep.rest → s.Waits entry :=
    fun _ hsweep hmem ↦ .draining hsweep hmem
  -- A sweep that goes on has no more to look at than before.
  have hfirst {sweep : Sweep α} {sweeps : List (Sweep α)} {next : Sweep α}
      (hcons : s.sweeps = sweep :: sweeps) (hrest : next.rest ⊆ sweep.rest) :
      ∀ sweep ∈ next :: sweeps, entry ∈ sweep.rest → s.Waits entry := by
    intro other hother hmem
    rcases List.mem_cons.mp hother with rfl | hother
    · exact .draining (hcons ▸ List.mem_cons_self) (hrest hmem)
    · exact .draining (hcons ▸ List.mem_cons_of_mem _ hother) hmem
  cases heffect with
  | aside haside => exact Or.inl (hwaits.mono (hsame haside.limbo) (fun _ h ↦ h) hsweeps)
  | addRegistry =>
    exact Or.inl (hwaits.mono (hsame s.world.limbo_addRegistry) (fun _ h ↦ h) hsweeps)
  | unlink =>
    refine (hwaits.of_cons fun _ ↦ rfl).imp_right fun heq ↦ ?_
    rw [heq]
    exact rfl
  | @handOver r o object hregistry hobject hfresh =>
    refine (hwaits.of_cons fun _ ↦ rfl).imp_right fun heq ↦ ?_
    rw [heq]
    exact (s.world.program?_markRetired o o).trans (congrArg (Option.map _) hobject)
  | @park r other taken htaken =>
    refine Or.inl (hwaits.mono (fun q hmem ↦ ?_) ?_ hsweeps)
    · rcases World.mem_limbo_modifyLimbo hmem with hmem | hmem
      · exact .parked q hmem
      · rcases List.mem_cons.mp hmem with rfl | hmem
        · exact .taken r (htaken ▸ List.mem_cons_self)
        · exact .parked r hmem
    · exact htaken ▸ List.subset_cons_self _ _
  | free htaken =>
    refine Or.inl (hwaits.mono (hsame (World.limbo_start _ _)) ?_ hsweeps)
    exact htaken ▸ List.subset_cons_self _ _
  | detach r =>
    refine Or.inl (hwaits.mono (fun q hmem ↦ ?_) (fun _ h ↦ h) fun sweep hsweep hmem ↦ ?_)
    · rw [World.limbo_detachLimbo] at hmem
      split at hmem
      · cases hmem
      · exact .parked q hmem
    · rcases List.mem_cons.mp hsweep with rfl | hsweep
      · rw [World.detachLimbo_fst] at hmem
        exact .parked r hmem
      · exact .draining hsweep hmem
  | @putBack sweep sweeps other rest hcons hrest =>
    have hsub : rest ⊆ sweep.rest := hrest ▸ List.subset_cons_self _ _
    refine Or.inl (hwaits.mono (fun q hmem ↦ ?_) (fun _ h ↦ h) (hfirst hcons hsub))
    rcases World.mem_limbo_modifyLimbo hmem with hmem | hmem
    · exact .parked q hmem
    · rcases List.mem_cons.mp hmem with rfl | hmem
      · exact .draining (hcons ▸ List.mem_cons_self) (hrest ▸ List.mem_cons_self)
      · exact .parked _ hmem
  | @sweep sweep sweeps other rest hcons hcurrent hrest hfree =>
    have hsub : rest ⊆ sweep.rest := hrest ▸ List.subset_cons_self _ _
    refine Or.inl (hwaits.mono (hsame (World.limbo_start _ _)) (fun _ h ↦ h) ?_)
    exact hfirst hcons hsub
  | countFreed hcons =>
    refine Or.inl (hwaits.mono (fun q hmem ↦ ?_) (fun _ h ↦ h) ?_)
    · rcases World.mem_limbo_modifyLimbo hmem with hmem | hmem
      · exact .parked q hmem
      · exact .parked _ hmem
    · exact hfirst hcons (List.Subset.refl _)
  | finish hcons =>
    refine Or.inl (hwaits.mono (hsame fun _ ↦ rfl) (fun _ h ↦ h) fun sweep hsweep hmem ↦ ?_)
    exact .draining (hcons ▸ List.mem_cons_of_mem _ hsweep) hmem
  | cut hcons =>
    refine Or.inl (hwaits.mono (hsame fun _ ↦ rfl) (fun _ h ↦ h) fun sweep hsweep hmem ↦ ?_)
    exact .draining (hcons ▸ List.mem_cons_of_mem _ hsweep) hmem
  | discard => exact Or.inl (hwaits.mono (hsame (World.limbo_start _ _)) (fun _ h ↦ h) hsweeps)
  | _ => exact Or.inl (hwaits.mono (hsame fun _ ↦ rfl) (fun _ h ↦ h) hsweeps)

end Effect

/-- All that waits carries the program that goes with its address. -/
def Stock.Issued (s : Stock n α) : Prop := ∀ entry, s.Waits entry → s.world.Issued entry

theorem Effect.issued (heffect : Effect s marks t) (hissued : s.Issued) : t.Issued := by
  intro entry hwaits
  rcases heffect.waits hwaits with hwaits | hnew
  · exact (hissued entry hwaits).mono fun _ _ ↦ heffect.program?
  · exact hnew

theorem Stock.issued_empty : (Stock.empty : Stock n α).Issued := by
  intro entry hwaits
  cases hwaits with
  | parked r hmem => cases hmem
  | taken r hmem => cases hmem
  | draining hsweep hmem => cases hsweep

theorem Run.issued [Destructor α] {m : Machine n α} {moves : List (Move n α)}
    (hrun : Run Machine.empty moves m) : m.stock.Issued :=
  hrun.kept Machine.sound_empty (fun _ _ _ _ heffects hs ↦
    heffects.kept hs fun _ _ heffect _ ↦ heffect.issued) Stock.issued_empty

/-- If no object has a program, no parked entry has one. -/
theorem Run.program_eq_nil [Destructor α] {m : Machine n α} {moves : List (Move n α)}
    (hrun : Run Machine.empty moves m) (hobjects : ∀ object ∈ m.world.objects, object.program = [])
    {r : RegistryId} (hmem : entry ∈ (m.world.limbo r).entries) : entry.program = [] :=
  (hrun.issued entry (.parked r hmem)).program_eq_nil hobjects

/-- The parked entry of a node has no program. -/
theorem Run.program_of_node [Destructor α] {m : Machine n α} {moves : List (Move n α)}
    (hrun : Run Machine.empty moves m) {r : RegistryId} {node : NodeId}
    (hmem : entry ∈ (m.world.limbo r).entries) (hnode : entry.address = .node node) :
    entry.program = [] := by
  have hissued : m.world.Issued entry := hrun.issued entry (.parked r hmem)
  unfold World.Issued at hissued
  rw [hnode] at hissued
  exact hissued

end Reclaim.Hazard
