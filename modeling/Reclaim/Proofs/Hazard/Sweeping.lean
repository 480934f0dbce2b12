import Reclaim.Proofs.Hazard.Deleters

/-!
# Exact sweeps

A reclaim visits every entry that is parked in its registry, in order, and frees those whose address
no slot publishes. The others go back one by one, so the list is reversed, and a second reclaim puts
it in order again. This holds for all states of the registry, if the deleters meet no fault and
leave the registry alone.
-/

namespace Reclaim.Hazard

variable {n : Nat} {α : Type}

namespace World

theorem registryAt?_modifyRegistry (w : World n α) (r : RegistryId)
    (f : Registry n (Entry α) → Registry n (Entry α)) (q : RegistryId) :
    (w.modifyRegistry r f).registryAt? q =
      if r = q then (w.registryAt? q).map f else w.registryAt? q := by
  simp only [registryAt?, modifyRegistry, List.getElem?_modify]
  by_cases hq : r = q <;> simp [hq]

theorem registryAt?_modifyLimbo {w : World n α} {r : RegistryId} {registry : Registry n (Entry α)}
    (hregistry : w.registryAt? r = some registry) (f : LimboList (Entry α) → LimboList (Entry α)) :
    (w.modifyLimbo r f).registryAt? r = some { registry with limbo := f registry.limbo } := by
  rw [modifyLimbo, registryAt?_modifyRegistry, if_pos rfl, hregistry]
  rfl

theorem registryAt?_start (w : World n α) (entry : Entry α) (q : RegistryId) :
    (w.start entry).registryAt? q = w.registryAt? q := by
  rw [registryAt?, registries_start, registryAt?]

theorem aloof_registryAt? {r q : RegistryId} (hq : r ≠ q) :
    Aloof r fun w : World n α ↦ w.registryAt? q where
  start w entry := w.registryAt?_start entry q
  limbo w _ := (w.registryAt?_modifyRegistry r _ q).trans (if_neg hq)

theorem aloof_stack? (r : RegistryId) (id : StackId) : Aloof r fun w : World n α ↦ w.stack? id where
  start w entry := w.stack?_start entry id
  limbo _ _ := rfl

end World

def Registry.guards (registry : Registry n (Entry α)) (entry : Entry α) : Bool :=
  registry.isProtected (some entry.address)

/-- What a sweep over entries makes of a registry. -/
def Registry.swept (registry : Registry n (Entry α)) (entries : List (Entry α)) :
    Registry n (Entry α) where
  slots := registry.slots
  limbo.entries := (entries.filter registry.guards).reverse ++ registry.limbo.entries
  limbo.pending :=
    registry.limbo.pending - .ofNat (entries.filter (!registry.guards ·)).length

namespace Registry

variable {registry : Registry n (Entry α)} {entry : Entry α}

theorem guards_limbo (registry : Registry n (Entry α)) (limbo : LimboList (Entry α)) :
    guards { registry with limbo } = registry.guards := rfl

theorem swept_nil (registry : Registry n (Entry α)) : registry.swept [] = registry := by
  rw [swept]
  exact congrArg (fun pending ↦ (⟨_, ⟨_, pending⟩⟩ : Registry n (Entry α)))
    (UInt64.sub_zero _)

/-- A guarded entry goes back to the head of the list. -/
theorem swept_cons_of_guards (hguards : registry.guards entry = true) (rest : List (Entry α)) :
    registry.swept (entry :: rest) =
      { registry with limbo := registry.limbo.putBack entry }.swept rest := by
  simp only [swept, List.filter_cons_of_pos hguards, List.filter_cons, hguards, List.reverse_cons,
    List.append_assoc, Bool.not_true, Bool.false_eq_true, if_false]
  rfl

/-- Any other entry is counted as freed. -/
theorem swept_cons_of_not_guards (hloose : registry.guards entry = false)
    (rest : List (Entry α)) :
    registry.swept (entry :: rest) =
      { registry with limbo := registry.limbo.countFreed }.swept rest := by
  have hcount (pending : UInt64) (count : Nat) :
      pending - .ofNat (count + 1) = pending - 1 - .ofNat count := by
    rw [UInt64.ofNat_add]
    change pending - (.ofNat count + 1) = pending - 1 - .ofNat count
    grind
  simp only [swept, List.filter_cons, hloose, Bool.false_eq_true, if_false, Bool.not_false,
    if_true, List.length_cons, hcount]
  rfl

end Registry

theorem World.isProtected_eq_guards {w : World n α} {r : RegistryId}
    {registry : Registry n (Entry α)} (hregistry : w.registryAt? r = some registry)
    (entry : Entry α) : w.isProtected r (some entry.address) = registry.guards entry := by
  rw [isProtected, hregistry]
  rfl

namespace Machine

variable {w : World n α} {t : ThreadId} {r : RegistryId} {registry : Registry n (Entry α)}
  {entry : Entry α} {rest : List (Entry α)} {freed : Nat} {outer : List (Frame n α)}

/-- The frames of a sweep whose command is not a deleter's. -/
theorem inDeleter_sweep (houter : outer.any (·.isDeleter) = false) (sweep : Sweep α) :
    (⟨w, t, .sweep sweep :: outer⟩ : Machine n α).inDeleter = false :=
  houter

/-- A guarded entry is put back. -/
theorem passes_putBack (houter : outer.any (·.isDeleter) = false)
    (hregistry : w.registryAt? r = some registry) (hguards : registry.guards entry = true)
    (t : ThreadId) (rest : List (Entry α)) (freed : Nat) :
    Passes r ⟨w, t, .sweep ⟨r, none, entry :: rest, freed⟩ :: outer⟩ [entry] []
      ⟨w.modifyLimbo r (·.putBack entry), t, .sweep ⟨r, none, rest, freed⟩ :: outer⟩ := by
  have hprotected := (World.isProtected_eq_guards hregistry entry).trans hguards
  have hstep := step_sweep_of_protected t rest freed outer hprotected
  have hpasses := passes_next (r := r) hstep fun haloof _ ↦ haloof.limbo w (·.putBack entry)
  simp only [Move.visited?, Move.opened?, inDeleter_sweep houter] at hpasses
  exact hpasses

/-- Any other entry is freed by its deleter and counted. -/
theorem exists_passes_free (houter : outer.any (·.isDeleter) = false)
    (hregistry : w.registryAt? r = some registry) (hloose : registry.guards entry = false)
    (hgentle : GentleOn r (trace ⟨w, t, .sweep ⟨r, none, entry :: rest, freed⟩ :: outer⟩)) :
    ∃ v, Passes r ⟨w, t, .sweep ⟨r, none, entry :: rest, freed⟩ :: outer⟩ [entry] [entry]
        ⟨v, t, .sweep ⟨r, none, rest, freed + 1⟩ :: outer⟩ ∧
      v.registryAt? r = some { registry with limbo := registry.limbo.countFreed } := by
  have hfree := (World.isProtected_eq_guards hregistry entry).trans hloose
  have hstep := step_sweep_of_free t rest freed outer hfree
  have hfirst := passes_next (r := r) hstep fun haloof _ ↦ haloof.start w entry
  rw [Move.opened?_start (inDeleter_sweep houter _), Move.visited?, inDeleter_sweep houter]
    at hfirst
  obtain ⟨u, hdeleted, hsame⟩ :=
    exists_deleted (.deleter entry.program) (hgentle.of_subset hfirst.subset)
  have hend : step ⟨u, t, .deleter [] :: .sweep ⟨r, some entry, rest, freed⟩ :: outer⟩ = _ :=
    step_deleted t rest freed outer
  have hown : (⟨u, t, .deleter [] :: .sweep ⟨r, some entry, rest, freed⟩ :: outer⟩ :
      Machine n α).inDeleter = false := houter
  have hlast := passes_next (r := r) hend fun haloof _ ↦ haloof.limbo u (·.countFreed)
  rw [Move.visited?, Move.opened?, hown] at hlast
  have hregistry' :=
    calc
      u.registryAt? r = (w.start entry).registryAt? r := hsame
      _ = w.registryAt? r := w.registryAt?_start entry r
      _ = some registry := hregistry
  exact ⟨_, (hfirst.trans hdeleted).trans hlast, World.registryAt?_modifyLimbo hregistry' _⟩

/-- A sweep visits all entries in order and frees those that no slot guards. -/
theorem exists_passes_sweep (houter : outer.any (·.isDeleter) = false)
    (hregistry : w.registryAt? r = some registry)
    (hgentle : GentleOn r (trace ⟨w, t, .sweep ⟨r, none, rest, freed⟩ :: outer⟩)) :
    ∃ v, Passes r ⟨w, t, .sweep ⟨r, none, rest, freed⟩ :: outer⟩ rest
        (rest.filter (!registry.guards ·))
        ⟨v, t, .sweep ⟨r, none, [], freed + (rest.filter (!registry.guards ·)).length⟩ :: outer⟩ ∧
      v.registryAt? r = some (registry.swept rest) := by
  -- The list and its count change with every entry, the slots do not. So the registry that the
  -- hypothesis is used for guards the same entries.
  induction rest generalizing w registry freed with
  | nil => exact ⟨w, .refl _, hregistry.trans (congrArg some registry.swept_nil.symm)⟩
  | cons entry rest ih =>
    cases hguards : registry.guards entry with
    | true =>
      have hfirst := passes_putBack houter hregistry hguards t rest freed
      have hput := World.registryAt?_modifyLimbo hregistry (·.putBack entry)
      obtain ⟨v, hrest, hswept⟩ := ih hput (hgentle.of_subset hfirst.subset)
      rw [List.filter_cons_of_neg (by rw [hguards]; decide), registry.swept_cons_of_guards hguards]
      exact ⟨v, hfirst.trans hrest, hswept⟩
    | false =>
      obtain ⟨u, hfirst, hcounted⟩ := exists_passes_free houter hregistry hguards hgentle
      obtain ⟨v, hrest, hswept⟩ := ih hcounted (hgentle.of_subset hfirst.subset)
      rw [List.filter_cons_of_pos (by rw [hguards]; decide), List.length_cons,
        registry.swept_cons_of_not_guards hguards, Nat.add_comm _ 1, ← Nat.add_assoc]
      exact ⟨v, hfirst.trans hrest, hswept⟩

theorem reclaim_eq (hregistry : w.registryAt? r = some registry) (frames : List (Frame n α)) :
    reclaim w t r frames = .next ⟨w.modifyLimbo r (·.detach.2), t,
      .sweep ⟨r, none, registry.limbo.entries, 0⟩ :: frames⟩ := by
  rw [reclaim, World.detachLimbo, hregistry]
  rfl

/-- The sweep of a reclaim leaves nothing in the list but the guarded entries. -/
theorem exists_passes_reclaim (houter : outer.any (·.isDeleter) = false)
    (hregistry : w.registryAt? r = some registry)
    (hgentle : GentleOn r (trace ⟨w.modifyLimbo r (·.detach.2), t,
      .sweep ⟨r, none, registry.limbo.entries, 0⟩ :: outer⟩)) :
    ∃ v, Passes r ⟨w.modifyLimbo r (·.detach.2), t,
          .sweep ⟨r, none, registry.limbo.entries, 0⟩ :: outer⟩
        registry.limbo.entries (registry.limbo.entries.filter (!registry.guards ·))
        ⟨v, t, .sweep ⟨r, none, [],
          (registry.limbo.entries.filter (!registry.guards ·)).length⟩ :: outer⟩ ∧
      v.registryAt? r = some { registry with
        limbo := ⟨(registry.limbo.entries.filter registry.guards).reverse, registry.limbo.pending -
          .ofNat (registry.limbo.entries.filter (!registry.guards ·)).length⟩ } := by
  have hdetached := World.registryAt?_modifyLimbo hregistry (·.detach.2)
  obtain ⟨v, hpasses, hswept⟩ := exists_passes_sweep houter hdetached hgentle
  rw [Nat.zero_add] at hpasses
  refine ⟨v, hpasses, hswept.trans ?_⟩
  rw [Registry.swept]
  exact congrArg (fun entries ↦ some (⟨_, ⟨entries, _⟩⟩ : Registry n (Entry α)))
    (List.append_nil _)

/-- A sweep that meets only guarded entries starts no deleter. -/
theorem not_inDeleter_of_guards (hregistry : w.registryAt? r = some registry)
    (hguards : ∀ entry ∈ rest, registry.guards entry = true) :
    ∀ move ∈ trace ⟨w, t, [.sweep ⟨r, none, rest, freed⟩]⟩, move.before.inDeleter = false := by
  induction rest generalizing w registry with
  | nil =>
    have hdone : step ⟨w, t, [.sweep ⟨r, none, [], freed⟩]⟩ =
        .done w (.ok (.reclaimed freed)) := rfl
    rw [trace_of_done (List.cons_ne_nil _ _) hdone]
    exact List.forall_mem_singleton.mpr rfl
  | cons entry rest ih =>
    obtain ⟨hguard, hrest⟩ := List.forall_mem_cons.mp hguards
    have hprotected := (World.isProtected_eq_guards hregistry entry).trans hguard
    have hput := World.registryAt?_modifyLimbo hregistry (·.putBack entry)
    rw [trace_of_next (step_sweep_of_protected t rest freed [] hprotected)]
    exact List.forall_mem_cons.mpr ⟨rfl, ih hput hrest⟩

end Machine

/-! ## A reclaim -/

/-- Counting down does not wrap around as long as enough is counted. -/
theorem toNat_sub_ofNat {pending : UInt64} {count : Nat} (hcount : count ≤ pending.toNat) :
    (pending - .ofNat count).toNat + count = pending.toNat := by
  have hsize : (UInt64.ofNat count).toNat = count :=
    UInt64.toNat_ofNat_of_lt' (Nat.lt_of_le_of_lt hcount pending.toNat_lt)
  have hle : UInt64.ofNat count ≤ pending := by
    rw [UInt64.le_iff_toNat_le, hsize]
    exact hcount
  rw [UInt64.toNat_sub_of_le _ _ hle, hsize]
  exact Nat.sub_add_cancel hcount

namespace World

def Published (w : World n α) (r : RegistryId) (a : Address) : Prop :=
  ∃ i, w.published? r i = some a

instance (w : World n α) (r : RegistryId) (a : Address) : Decidable (w.Published r a) :=
  inferInstanceAs (Decidable (∃ i, w.published? r i = some a))

def guarded (w : World n α) (r : RegistryId) : List (Entry α) :=
  (w.limbo r).entries.filter fun entry ↦ w.Published r entry.address

def loose (w : World n α) (r : RegistryId) : List (Entry α) :=
  (w.limbo r).entries.filter fun entry ↦ ¬ w.Published r entry.address

/-- A reclaim by a thread is an exact sweep: it visits the parked entries in order, runs the
deleters of the loose ones, in order, leaves the guarded ones in reversed order, and changes neither
a slot nor another registry. -/
structure SweptTo (w : World n α) (t : ThreadId) (r : RegistryId) (v : World n α) : Prop where
  answer : w.run t (.reclaim r) = (v, .ok (.reclaimed (w.loose r).length))
  visited : (w.trace t (.reclaim r)).filterMap Move.visited? = (w.limbo r).entries
  opened : (w.trace t (.reclaim r)).filterMap Move.opened? = w.loose r
  registry : v.registryAt? r = (w.registryAt? r).map fun registry ↦ { registry with
    limbo := ⟨(w.guarded r).reverse, registry.limbo.pending - .ofNat (w.loose r).length⟩ }
  others : ∀ q, r ≠ q → DeletersLeave (w.trace t (.reclaim r)) (·.registryAt? q) →
    v.registryAt? q = w.registryAt? q

variable {w v : World n α} {r : RegistryId} {registry : Registry n (Entry α)}

theorem guards_eq (hregistry : w.registryAt? r = some registry) (entry : Entry α) :
    registry.guards entry = decide (w.Published r entry.address) := by
  have hprotected : w.isProtected r (some entry.address) = registry.guards entry := by
    rw [isProtected, hregistry]
    rfl
  rw [← hprotected, Bool.eq_iff_iff, isProtected_iff, decide_eq_true_iff]
  rfl

theorem limbo_of_registryAt? (hregistry : w.registryAt? r = some registry) :
    w.limbo r = registry.limbo := by
  rw [limbo, hregistry]
  rfl

theorem execute_reclaim (hregistry : w.registryAt? r = some registry) (t : ThreadId) :
    Machine.execute w t (.reclaim r) [] = .next ⟨w.modifyLimbo r (·.detach.2), t,
      [.sweep ⟨r, none, registry.limbo.entries, 0⟩]⟩ := by
  simp only [Machine.execute, hregistry]
  exact Machine.reclaim_eq hregistry []

theorem trace_reclaim (hregistry : w.registryAt? r = some registry) (t : ThreadId) :
    w.trace t (.reclaim r) = Machine.trace ⟨w.modifyLimbo r (·.detach.2), t,
      [.sweep ⟨r, none, registry.limbo.entries, 0⟩]⟩ := by
  rw [trace, execute_reclaim hregistry]

theorem sweptTo (hregistry : w.registryAt? r = some registry) (t : ThreadId)
    (hgentle : GentleOn r (w.trace t (.reclaim r))) : ∃ v, w.SweptTo t r v := by
  have hlimbo := limbo_of_registryAt? hregistry
  have hguarded : registry.limbo.entries.filter registry.guards = w.guarded r := by
    rw [guarded, hlimbo, funext (guards_eq hregistry)]
  have hloose : registry.limbo.entries.filter (!registry.guards ·) = w.loose r := by
    simp only [loose, hlimbo, guards_eq hregistry, decide_not]
  have htrace := trace_reclaim hregistry t
  have hrun : w.run t (.reclaim r) = Machine.run ⟨w.modifyLimbo r (·.detach.2), t,
      [.sweep ⟨r, none, registry.limbo.entries, 0⟩]⟩ := by
    rw [run, execute_reclaim hregistry]
  rw [htrace] at hgentle
  obtain ⟨v, hpasses, hswept⟩ := Machine.exists_passes_reclaim rfl hregistry hgentle
  rw [hloose] at hpasses hswept
  rw [hguarded] at hswept
  have hdone : Machine.step ⟨v, t, [.sweep ⟨r, none, [], (w.loose r).length⟩]⟩ =
      .done v (.ok (.reclaimed (w.loose r).length)) := rfl
  have hlast := Machine.trace_of_done (List.cons_ne_nil _ _) hdone
  refine ⟨v, ?_, ?_, ?_, ?_, ?_⟩
  · rw [hrun, hpasses.run, Machine.run_of_done hdone]
  · rw [htrace, hpasses.visited, hlast, hlimbo]
    exact List.append_nil _
  · rw [htrace, hpasses.opened, hlast, hdone]
    exact List.append_nil _
  · rw [hswept, hregistry]
    rfl
  · intro q hq hleave
    rw [htrace] at hleave
    refine (hpasses.view (aloof_registryAt? hq) hleave).trans ?_
    exact (aloof_registryAt? hq).limbo w (·.detach.2)

/-- If all entries are guarded, a reclaim runs no deleter. -/
theorem gentleOn_of_guards (hregistry : w.registryAt? r = some registry)
    (hguards : ∀ entry ∈ registry.limbo.entries, registry.guards entry = true) (t : ThreadId) :
    GentleOn r (w.trace t (.reclaim r)) := by
  have hdetached := registryAt?_modifyLimbo hregistry (·.detach.2)
  have hnone : ∀ move ∈ w.trace t (.reclaim r), move.before.inDeleter = false := by
    rw [trace_reclaim hregistry]
    exact Machine.not_inDeleter_of_guards hdetached hguards
  have habsurd {P : Prop} {move : Move n α} (hmem : move ∈ w.trace t (.reclaim r))
      (hdeleter : move.before.inDeleter = true) : P :=
    absurd hdeleter (ne_true_of_eq_false (hnone move hmem))
  exact ⟨fun _ hmem hdeleter ↦ habsurd hmem hdeleter, fun _ hmem hdeleter ↦ habsurd hmem hdeleter⟩

namespace SweptTo

variable {t : ThreadId}

theorem registryAt?_eq (hv : w.SweptTo t r v) (hregistry : w.registryAt? r = some registry) :
    v.registryAt? r = some { registry with
      limbo := ⟨(w.guarded r).reverse, registry.limbo.pending - .ofNat (w.loose r).length⟩ } := by
  rw [hv.registry, hregistry, Option.map_some]

theorem published_iff (hv : w.SweptTo t r v) (hregistry : w.registryAt? r = some registry)
    (a : Address) : v.Published r a ↔ w.Published r a := by
  have hslots : ∀ i, v.published? r i = w.published? r i := by
    intro i
    rw [published?, hv.registryAt?_eq hregistry, published?, hregistry]
    rfl
  simp only [Published, hslots]

/-- The count falls by what is freed. -/
theorem pending_eq (hv : w.SweptTo t r v) (hregistry : w.registryAt? r = some registry)
    (hpending : registry.limbo.entries.length ≤ registry.limbo.pending.toNat) :
    (v.limbo r).pending.toNat + (w.loose r).length = registry.limbo.pending.toNat := by
  rw [limbo_of_registryAt? (hv.registryAt?_eq hregistry)]
  apply toNat_sub_ofNat
  refine Nat.le_trans ?_ hpending
  rw [loose, limbo_of_registryAt? hregistry]
  exact List.length_filter_le _ _

/-- A second reclaim frees nothing and puts what was kept back in order. -/
theorem again (hv : w.SweptTo t r v) (hregistry : w.registryAt? r = some registry)
    (t' : ThreadId) : ∃ u, v.SweptTo t' r u ∧ v.run t' (.reclaim r) = (u, .ok (.reclaimed 0)) ∧
      u.registryAt? r = some { registry with limbo := ⟨w.guarded r, (v.limbo r).pending⟩ } := by
  have hafter := hv.registryAt?_eq hregistry
  have hlimbo := limbo_of_registryAt? hafter
  have hpublished : ∀ entry ∈ (v.limbo r).entries, v.Published r entry.address := by
    intro entry hmem
    rw [hlimbo] at hmem
    have hguarded := (List.mem_filter.mp (List.mem_reverse.mp hmem)).2
    exact (hv.published_iff hregistry _).mpr (of_decide_eq_true hguarded)
  have hguarded : v.guarded r = (v.limbo r).entries :=
    List.filter_eq_self.mpr fun entry hmem ↦ decide_eq_true (hpublished entry hmem)
  have hloose : v.loose r = [] := by
    refine List.filter_eq_nil_iff.mpr fun entry hmem hnot ↦ ?_
    exact of_decide_eq_true hnot (hpublished entry hmem)
  have hgentle : GentleOn r (v.trace t' (.reclaim r)) := by
    refine gentleOn_of_guards hafter (fun entry hmem ↦ ?_) t'
    rw [guards_eq hafter]
    exact decide_eq_true (hpublished entry (hlimbo ▸ hmem))
  obtain ⟨u, hu⟩ := sweptTo hafter t' hgentle
  have hanswer := hu.answer
  rw [hloose] at hanswer
  refine ⟨u, hu, hanswer, ?_⟩
  rw [hu.registryAt?_eq hafter, hguarded, hloose, hlimbo, List.reverse_reverse]
  exact congrArg (fun pending ↦ some (⟨_, ⟨_, pending⟩⟩ : Registry n (Entry α)))
    (UInt64.sub_zero _)

/-- If nothing else was counted and no slot publishes what is parked, nothing is left. -/
theorem nothing_left (hv : w.SweptTo t r v) (hregistry : w.registryAt? r = some registry)
    (hcounted : registry.limbo.pending.toNat = registry.limbo.entries.length)
    (hfree : ∀ entry ∈ registry.limbo.entries, ¬ w.Published r entry.address) :
    v.registryAt? r = some { registry with limbo := ⟨[], 0⟩ } := by
  rw [← limbo_of_registryAt? hregistry] at hfree
  have hguarded : w.guarded r = [] :=
    List.filter_eq_nil_iff.mpr fun entry hmem hyes ↦
      hfree entry hmem (of_decide_eq_true hyes)
  have hloose : w.loose r = registry.limbo.entries := by
    rw [← limbo_of_registryAt? hregistry]
    exact List.filter_eq_self.mpr fun entry hmem ↦ decide_eq_true (hfree entry hmem)
  have hpending : registry.limbo.pending - .ofNat registry.limbo.entries.length = 0 := by
    rw [← hcounted, UInt64.ofNat_toNat]
    exact UInt64.sub_self _
  rw [hv.registryAt?_eq hregistry, hguarded, hloose, hpending]
  rfl

end SweptTo

end World

/-- A reclaim is an exact sweep, whatever the registry is like, if the deleters meet no fault and
leave the registry alone. It lowers the count by what it frees. A second reclaim frees nothing and
puts what was kept back in order. If nothing else was counted and no slot publishes what is parked,
the first reclaim leaves nothing. -/
theorem reclaim_exact {w : World n α} {r : RegistryId} {registry : Registry n (Entry α)}
    (hregistry : w.registryAt? r = some registry)
    (hpending : registry.limbo.entries.length ≤ registry.limbo.pending.toNat) (t : ThreadId)
    (hgentle : GentleOn r (w.trace t (.reclaim r))) :
    ∃ v, w.SweptTo t r v ∧
      (v.limbo r).pending.toNat + (w.loose r).length = registry.limbo.pending.toNat ∧
      (∀ t', ∃ u, v.SweptTo t' r u ∧ v.run t' (.reclaim r) = (u, .ok (.reclaimed 0)) ∧
        u.registryAt? r = some { registry with limbo := ⟨w.guarded r, (v.limbo r).pending⟩ }) ∧
      (registry.limbo.pending.toNat = registry.limbo.entries.length →
        (∀ entry ∈ registry.limbo.entries, ¬ w.Published r entry.address) →
        v.registryAt? r = some { registry with limbo := ⟨[], 0⟩ }) := by
  obtain ⟨v, hv⟩ := World.sweptTo hregistry t hgentle
  exact ⟨v, hv, hv.pending_eq hregistry hpending, hv.again hregistry, hv.nothing_left hregistry⟩

/-- Three objects are parked while slots publish them, and the deleter of the first pushes a value.
In the end only the second is still published. -/
def parkingThree : List (Deed Nat) :=
  [.addRegistry, .addStack 0, .spawn, .addObject [.push 0 7], .addObject [], .addObject [],
    .issue 0 (.claim 0), .issue 0 (.claim 0), .issue 0 (.publish 0 (some (.object 0))),
    .issue 0 (.retire 0 (some 0)), .issue 0 (.publish 0 (some (.object 1))),
    .issue 0 (.retire 0 (some 1)), .issue 0 (.publish 1 (some (.object 2))),
    .issue 0 (.retire 0 (some 2)), .issue 0 (.publish 1 none)]

def threeParked : World 2 Nat := (Machine.empty.follow parkingThree).2.world

theorem reclaim_exact_three :
    ∃ v, threeParked.run 0 (.reclaim 0) = (v, .ok (.reclaimed 2)) ∧
      (v.limbo 0).entries = [⟨.object 1, []⟩] ∧ (v.limbo 0).pending.toNat = 1 := by
  have hregistry : threeParked.registryAt? 0 =
      some ⟨#v[⟨some 0, some (.object 1)⟩, ⟨some 0, none⟩],
        ⟨[⟨.object 2, []⟩, ⟨.object 1, []⟩, ⟨.object 0, [.push 0 7]⟩], 3⟩⟩ := by
    decide +kernel
  have htrace := threeParked.follow_issue 0 (.reclaim 0) 12 (by decide +kernel)
  have hgentle : GentleOn 0 (threeParked.trace 0 (.reclaim 0)) := by
    rw [← htrace]
    decide +kernel
  obtain ⟨v, hv, hpending, -⟩ := reclaim_exact hregistry (by decide) 0 hgentle
  have hloose : threeParked.loose 0 = [⟨.object 2, []⟩, ⟨.object 0, [.push 0 7]⟩] := by
    decide +kernel
  have hguarded : threeParked.guarded 0 = [⟨.object 1, []⟩] := by decide +kernel
  have hafter := World.limbo_of_registryAt? (hv.registryAt?_eq hregistry)
  have hanswer := hv.answer
  rw [hloose] at hpending hanswer
  rw [hguarded] at hafter
  refine ⟨v, hanswer, by rw [hafter]; rfl, ?_⟩
  exact Nat.add_right_cancel hpending

end Reclaim.Hazard
