import Reclaim.Proofs.Hazard.Holders
import Reclaim.Proofs.Hazard.Sweeping

/-!
# Exact pops

A pop through a slot takes the top node, clears the slot, and retires the node: if another slot
publishes its address it is parked, otherwise freed at once. Then it sweeps its registry. The slot's
own publications, before and during the pop, delay nothing. What is parked after the pop is
published by some other slot.
-/

namespace Reclaim.Hazard

variable {n : Nat} {α : Type}

namespace Machine

variable {w : World n α} {t : ThreadId} {r : RegistryId} {registry : Registry n (Entry α)}
  {outer : List (Frame n α)}

theorem inDeleter_pop (houter : outer.any (·.isDeleter) = false) (w : World n α) (t : ThreadId)
    (popping : Popping n α) : (⟨w, t, .pop popping :: outer⟩ : Machine n α).inDeleter = false :=
  houter

/-- A pop parks its node if some slot guards it. -/
theorem passes_park (houter : outer.any (·.isDeleter) = false) {node : NodeId}
    (hregistry : w.registryAt? r = some registry) (hguards : registry.guards (.ofNode node) = true)
    (t : ThreadId) (value : α) (hold : Hold n) :
    Passes r ⟨w, t, .pop ⟨r, value, hold, .retire node⟩ :: outer⟩ [] []
      ⟨w.modifyLimbo r (·.park (.ofNode node)), t, .pop ⟨r, value, hold, .reclaim⟩ :: outer⟩ := by
  have hprotected : w.isProtected r (some (Entry.ofNode node : Entry α).address) = true := by
    rw [World.isProtected, hregistry]
    exact hguards
  have hstep : step ⟨w, t, .pop ⟨r, value, hold, .retire node⟩ :: outer⟩ =
      .next ⟨w.modifyLimbo r (·.park (.ofNode node)), t,
        .pop ⟨r, value, hold, .reclaim⟩ :: outer⟩ :=
    if_pos hprotected
  have hpasses := passes_next (r := r) hstep fun haloof _ ↦ haloof.limbo w (·.park (.ofNode node))
  rw [Move.visited?, Move.opened?, inDeleter_pop houter] at hpasses
  exact hpasses

/-- Otherwise it frees the node at once. -/
theorem passes_free (houter : outer.any (·.isDeleter) = false) {node : NodeId}
    (hregistry : w.registryAt? r = some registry) (hloose : registry.guards (.ofNode node) = false)
    (t : ThreadId) (value : α) (hold : Hold n) :
    Passes r ⟨w, t, .pop ⟨r, value, hold, .retire node⟩ :: outer⟩ [] [.ofNode node]
      ⟨w.start (.ofNode node), t, .pop ⟨r, value, hold, .reclaim⟩ :: outer⟩ := by
  have hnot : ¬ w.isProtected r (some (Entry.ofNode node : Entry α).address) = true := by
    rw [World.isProtected, hregistry]
    exact ne_true_of_eq_false hloose
  have hstep : step ⟨w, t, .pop ⟨r, value, hold, .retire node⟩ :: outer⟩ =
      .next ⟨w.start (.ofNode node), t, .deleter (Entry.ofNode node : Entry α).program ::
        .pop ⟨r, value, hold, .reclaim⟩ :: outer⟩ :=
    if_neg hnot
  have hfirst := passes_next (r := r) hstep fun haloof _ ↦ haloof.start w (.ofNode node)
  rw [Move.opened?_start (inDeleter_pop houter w t _), Move.visited?, inDeleter_pop houter]
    at hfirst
  have hend : step ⟨w.start (.ofNode node), t, .deleter (Entry.ofNode node : Entry α).program ::
      .pop ⟨r, value, hold, .reclaim⟩ :: outer⟩ =
      .next ⟨w.start (.ofNode node), t, .pop ⟨r, value, hold, .reclaim⟩ :: outer⟩ := rfl
  have hown : (⟨w.start (.ofNode node), t, .deleter (Entry.ofNode node : Entry α).program ::
      .pop ⟨r, value, hold, .reclaim⟩ :: outer⟩ : Machine n α).inDeleter = false := houter
  have hlast := passes_next (r := r) hend fun _ _ ↦ rfl
  rw [Move.visited?, Move.opened?, hown] at hlast
  exact hfirst.trans hlast

/-- Then it takes all parked entries out of its registry. -/
theorem passes_detach (houter : outer.any (·.isDeleter) = false)
    (hregistry : w.registryAt? r = some registry) (t : ThreadId) (value : α) (hold : Hold n) :
    Passes r ⟨w, t, .pop ⟨r, value, hold, .reclaim⟩ :: outer⟩ [] []
      ⟨w.modifyLimbo r (·.detach.2), t, .sweep ⟨r, none, registry.limbo.entries, 0⟩ ::
        .pop ⟨r, value, hold, .answer⟩ :: outer⟩ := by
  have hstep : step ⟨w, t, .pop ⟨r, value, hold, .reclaim⟩ :: outer⟩ = _ :=
    reclaim_eq hregistry (.pop ⟨r, value, hold, .answer⟩ :: outer)
  have hpasses := passes_next (r := r) hstep fun haloof _ ↦ haloof.limbo w (·.detach.2)
  rw [Move.visited?, Move.opened?, inDeleter_pop houter] at hpasses
  exact hpasses

/-- A sweep that has come to its end hands over to the pop. -/
theorem passes_resume (houter : outer.any (·.isDeleter) = false) (w : World n α) (t : ThreadId)
    (count : Nat) (popping : Popping n α) :
    Passes r ⟨w, t, .sweep ⟨r, none, [], count⟩ :: .pop popping :: outer⟩ [] []
      ⟨w, t, .pop popping :: outer⟩ := by
  have hstep : step ⟨w, t, .sweep ⟨r, none, [], count⟩ :: .pop popping :: outer⟩ =
      .next ⟨w, t, .pop popping :: outer⟩ := rfl
  have hown : (⟨w, t, .sweep ⟨r, none, [], count⟩ :: .pop popping :: outer⟩ :
      Machine n α).inDeleter = false := houter
  have hpasses := passes_next (r := r) hstep fun _ _ ↦ rfl
  rw [Move.visited?, Move.opened?, hown] at hpasses
  exact hpasses

/-- So it sweeps its registry and is left with its answer. -/
theorem exists_passes_answer (houter : outer.any (·.isDeleter) = false) {value : α} {hold : Hold n}
    (hregistry : w.registryAt? r = some registry)
    (hgentle : GentleOn r (trace ⟨w, t, .pop ⟨r, value, hold, .reclaim⟩ :: outer⟩)) :
    ∃ v, Passes r ⟨w, t, .pop ⟨r, value, hold, .reclaim⟩ :: outer⟩ registry.limbo.entries
        (registry.limbo.entries.filter (!registry.guards ·))
        ⟨v, t, .pop ⟨r, value, hold, .answer⟩ :: outer⟩ ∧
      v.registryAt? r = some { registry with
        limbo := ⟨(registry.limbo.entries.filter registry.guards).reverse, registry.limbo.pending -
          .ofNat (registry.limbo.entries.filter (!registry.guards ·)).length⟩ } := by
  have hfirst := passes_detach houter hregistry t value hold
  have houter' : (.pop ⟨r, value, hold, .answer⟩ :: outer).any (·.isDeleter) = false := houter
  obtain ⟨v, hswept, hregistry'⟩ :=
    exists_passes_reclaim houter' hregistry (hgentle.of_subset hfirst.subset)
  have hall := hswept.trans (passes_resume houter v t _ ⟨r, value, hold, .answer⟩)
  rw [List.append_nil, List.append_nil] at hall
  exact ⟨v, hfirst.trans hall, hregistry'⟩

/-- From its first step to its answer, a pop visits what is parked and, if some slot guards its own
node, this first. It frees the rest. -/
theorem exists_passes_pop (houter : outer.any (·.isDeleter) = false) {node : NodeId} {value : α}
    {hold : Hold n} (hregistry : w.registryAt? r = some registry)
    (hgentle : GentleOn r (trace ⟨w, t, .pop ⟨r, value, hold, .retire node⟩ :: outer⟩)) :
    ∃ v, Passes r ⟨w, t, .pop ⟨r, value, hold, .retire node⟩ :: outer⟩
        ([.ofNode node].filter registry.guards ++ registry.limbo.entries)
        ([.ofNode node].filter (!registry.guards ·) ++
          registry.limbo.entries.filter (!registry.guards ·))
        ⟨v, t, .pop ⟨r, value, hold, .answer⟩ :: outer⟩ ∧
      v.registryAt? r = some { registry with
        limbo.entries := ([.ofNode node].filter registry.guards ++
          registry.limbo.entries.filter registry.guards).reverse
        limbo.pending := registry.limbo.pending +
          .ofNat ([Entry.ofNode node].filter registry.guards).length -
          .ofNat (registry.limbo.entries.filter (!registry.guards ·)).length } := by
  cases hguards : registry.guards (.ofNode node) with
  | true =>
    have hparked := World.registryAt?_modifyLimbo hregistry (·.park (.ofNode node))
    have hfirst := passes_park houter hregistry hguards t value hold
    obtain ⟨v, hrest, hafter⟩ :=
      exists_passes_answer houter hparked (hgentle.of_subset hfirst.subset)
    have hparks (rest : List (Entry α)) : (Entry.ofNode node :: rest).filter registry.guards =
        .ofNode node :: rest.filter registry.guards := List.filter_cons_of_pos hguards
    have hfrees (rest : List (Entry α)) :
        (Entry.ofNode node :: rest).filter (!registry.guards ·) =
          rest.filter (!registry.guards ·) :=
      List.filter_cons_of_neg (by rw [hguards]; decide)
    simp only [LimboList.park, Registry.guards_limbo, hparks, hfrees] at hrest hafter
    rw [hparks, hfrees]
    exact ⟨v, hfirst.trans hrest, hafter⟩
  | false =>
    have hsame := (w.registryAt?_start (.ofNode node) r).trans hregistry
    have hfirst := passes_free houter hregistry hguards t value hold
    obtain ⟨v, hrest, hafter⟩ :=
      exists_passes_answer houter hsame (hgentle.of_subset hfirst.subset)
    have hparks : [Entry.ofNode node].filter registry.guards = [] :=
      List.filter_cons_of_neg (by rw [hguards]; decide)
    have hfrees : [Entry.ofNode node].filter (!registry.guards ·) = [.ofNode node] :=
      List.filter_cons_of_pos (by rw [hguards]; decide)
    rw [hparks, hfrees]
    refine ⟨v, hfirst.trans hrest, hafter.trans ?_⟩
    exact congrArg (fun pending ↦ some (⟨_, ⟨_, pending - _⟩⟩ : Registry n (Entry α)))
      (UInt64.add_zero _).symm

end Machine

/-! ## A pop -/

namespace World

def PublishedBeside (w : World n α) (slot : Handle n) (a : Address) : Prop :=
  ∃ i, i ≠ slot.index ∧ w.published? slot.registry i = some a

instance (w : World n α) (slot : Handle n) (a : Address) : Decidable (w.PublishedBeside slot a) :=
  inferInstanceAs (Decidable (∃ i, i ≠ slot.index ∧ w.published? slot.registry i = some a))

/-- What a pop through the slot parks: its node, if another slot publishes it. -/
def parks (w : World n α) (slot : Handle n) (node : NodeId) : List (Entry α) :=
  [.ofNode node].filter fun entry ↦ w.PublishedBeside slot entry.address

/-- What a pop through the slot frees at once: its node, if no other slot publishes it. -/
def frees (w : World n α) (slot : Handle n) (node : NodeId) : List (Entry α) :=
  [.ofNode node].filter fun entry ↦ ¬ w.PublishedBeside slot entry.address

def guardedBeside (w : World n α) (slot : Handle n) : List (Entry α) :=
  (w.limbo slot.registry).entries.filter fun entry ↦ w.PublishedBeside slot entry.address

def looseBeside (w : World n α) (slot : Handle n) : List (Entry α) :=
  (w.limbo slot.registry).entries.filter fun entry ↦ ¬ w.PublishedBeside slot entry.address

/-- A pop through a slot takes the value on top. It parks its node or frees it, and sweeps the
registry: what is then parked is left in reversed order if another slot publishes it, and freed
otherwise. The slot is cleared, other slots and other registries stay as they are, and so do all
stacks but for the node. -/
structure PoppedTo (w : World n α) (t : ThreadId) (id : StackId) (handle : HandleId)
    (slot : Handle n) (link : NodeId × Node α) (v : World n α) : Prop where
  answer : w.run t (.popUsing id handle) = (v, .ok (.popped (some link.2.value)))
  visited : (w.trace t (.popUsing id handle)).filterMap Move.visited? =
    w.parks slot link.1 ++ (w.limbo slot.registry).entries
  opened : (w.trace t (.popUsing id handle)).filterMap Move.opened? =
    w.frees slot link.1 ++ w.looseBeside slot
  registry : v.registryAt? slot.registry = (w.registryAt? slot.registry).map fun registry ↦
    { registry.publish slot.index none with
      limbo.entries := (w.parks slot link.1 ++ w.guardedBeside slot).reverse
      limbo.pending := registry.limbo.pending + .ofNat (w.parks slot link.1).length -
        .ofNat (w.looseBeside slot).length }
  others : ∀ q, slot.registry ≠ q →
    DeletersLeave (w.trace t (.popUsing id handle)) (·.registryAt? q) →
    v.registryAt? q = w.registryAt? q
  «stacks» : ∀ j, DeletersLeave (w.trace t (.popUsing id handle)) (·.stack? j) →
    v.stack? j =
      if id = j then (w.stack? j).map ({ · with head := link.2.next }) else w.stack? j

def unlink (w : World n α) (id : StackId) (slot : Handle n) (link : NodeId × Node α) : World n α :=
  ((w.publish slot (some (.node link.1))).setHead id link.2.next).publish slot none

variable {w v : World n α} {t : ThreadId} {id : StackId} {handle : HandleId} {slot : Handle n}
  {stack : Stack} {registry : Registry n (Entry α)} {link : NodeId × Node α}

theorem registryAt?_publish (hfound : w.registryAt? slot.registry = some registry)
    (address : Option Address) :
    (w.publish slot address).registryAt? slot.registry =
      some (registry.publish slot.index address) := by
  rw [publish, registryAt?_modifyRegistry, if_pos rfl, hfound]
  rfl

theorem registryAt?_unlink (hfound : w.registryAt? slot.registry = some registry)
    (id : StackId) (link : NodeId × Node α) :
    (w.unlink id slot link).registryAt? slot.registry =
      some (registry.publish slot.index none) := by
  have hfirst : ((w.publish slot (some (.node link.1))).setHead id link.2.next).registryAt?
      slot.registry = some (registry.publish slot.index (some (.node link.1))) :=
    registryAt?_publish hfound _
  rw [unlink, registryAt?_publish hfirst]
  simp [Registry.publish]

/-- Once the slot is cleared, an entry is guarded if another slot publishes it. -/
theorem guards_publish (hfound : w.registryAt? slot.registry = some registry) (entry : Entry α) :
    (registry.publish slot.index none).guards entry =
      decide (w.PublishedBeside slot entry.address) := by
  rw [guards_eq (registryAt?_publish hfound none), decide_eq_decide]
  refine exists_congr fun i ↦ ?_
  rw [published?_eq, slotAt?_publish, published?_eq]
  by_cases hi : slot.index = i
  · rw [if_pos ⟨rfl, hi⟩]
    refine ⟨fun hcleared ↦ ?_, fun hbeside ↦ absurd hi.symm hbeside.1⟩
    cases hslot : w.slotAt? slot.registry i <;> rw [hslot] at hcleared <;> cases hcleared
  · rw [if_neg fun hsame ↦ hi hsame.2]
    exact ⟨fun hpublished ↦ ⟨Ne.symm hi, hpublished⟩, fun hbeside ↦ hbeside.2⟩

theorem execute_popUsing (hstack : w.stack? id = some stack)
    (hhandle : w.handle? handle = some slot) (hregistry : slot.registry = stack.registry)
    (t : ThreadId) (htop : w.top? stack = some link) :
    Machine.execute w t (.popUsing id handle) [] = .next ⟨w.unlink id slot link, t,
      [.pop ⟨slot.registry, link.2.value, .lent, .retire link.1⟩]⟩ := by
  simp only [Machine.execute, hstack, hhandle, Machine.startPop, hregistry, ne_eq,
    not_true_eq_false, if_false, htop]
  rfl

theorem poppedTo (hstack : w.stack? id = some stack) (hhandle : w.handle? handle = some slot)
    (hregistry : slot.registry = stack.registry)
    (hfound : w.registryAt? slot.registry = some registry) (htop : w.top? stack = some link)
    (hgentle : GentleOn slot.registry (w.trace t (.popUsing id handle))) :
    ∃ v, w.PoppedTo t id handle slot link v := by
  have hexecute := execute_popUsing hstack hhandle hregistry t htop
  have htrace : w.trace t (.popUsing id handle) = Machine.trace ⟨w.unlink id slot link, t,
      [.pop ⟨slot.registry, link.2.value, .lent, .retire link.1⟩]⟩ := by
    rw [trace, hexecute]
  have hrun : w.run t (.popUsing id handle) = Machine.run ⟨w.unlink id slot link, t,
      [.pop ⟨slot.registry, link.2.value, .lent, .retire link.1⟩]⟩ := by
    rw [run, hexecute]
  rw [htrace] at hgentle
  obtain ⟨v, hpasses, hafter⟩ :=
    Machine.exists_passes_pop rfl (registryAt?_unlink hfound id link) hgentle
  have hguards : (registry.publish slot.index none).guards =
      fun entry ↦ decide (w.PublishedBeside slot entry.address) :=
    funext (guards_publish hfound)
  simp only [hguards, Registry.publish_limbo, ← limbo_of_registryAt? hfound, ← decide_not]
    at hpasses hafter
  have hdone : Machine.step ⟨v, t, [.pop ⟨slot.registry, link.2.value, .lent, .answer⟩]⟩ =
      .done v (.ok (.popped (some link.2.value))) := rfl
  have hlast := Machine.trace_of_done (List.cons_ne_nil _ _) hdone
  refine ⟨v, ?_, ?_, ?_, ?_, fun q hq hleave ↦ ?_, fun j hleave ↦ ?_⟩
  · rw [hrun, hpasses.run, Machine.run_of_done hdone]
  · rw [htrace, hpasses.visited, hlast]
    exact List.append_nil _
  · rw [htrace, hpasses.opened, hlast, hdone]
    exact List.append_nil _
  · rw [hafter, hfound, Option.map_some, parks, guardedBeside, looseBeside,
      limbo_of_registryAt? hfound]
  · rw [htrace] at hleave
    refine (hpasses.view (aloof_registryAt? hq) hleave).trans ?_
    simp only [unlink, publish, registryAt?_modifyRegistry, if_neg hq]
    exact (w.registryAt?_modifyRegistry slot.registry _ q).trans (if_neg hq)
  · rw [htrace] at hleave
    refine (hpasses.view (aloof_stack? slot.registry j) hleave).trans ?_
    exact w.stack?_setHead id link.2.next j

/-- On an empty stack the slot is cleared and nothing else happens. -/
theorem run_popUsing_empty (hstack : w.stack? id = some stack)
    (hhandle : w.handle? handle = some slot) (hregistry : slot.registry = stack.registry)
    (t : ThreadId) (htop : w.top? stack = none) :
    w.run t (.popUsing id handle) = (w.publish slot none, .ok (.popped none)) ∧
      w.trace t (.popUsing id handle) = [] := by
  have hexecute : Machine.execute w t (.popUsing id handle) [] =
      .done (w.publish slot none) (.ok (.popped none)) := by
    simp only [Machine.execute, hstack, hhandle, Machine.startPop, hregistry, ne_eq,
      not_true_eq_false, if_false, htop]
    rfl
  rw [run, trace, hexecute]
  exact ⟨rfl, rfl⟩

namespace PoppedTo

/-- What is parked after a pop is published by another slot. -/
theorem publishedBeside (hv : w.PoppedTo t id handle slot link v)
    (hfound : w.registryAt? slot.registry = some registry) :
    ∀ entry ∈ (v.limbo slot.registry).entries, v.PublishedBeside slot entry.address := by
  have hafter := hv.registry
  rw [hfound, Option.map_some] at hafter
  intro entry hmem
  rw [limbo_of_registryAt? hafter, List.mem_reverse, parks, guardedBeside, ← List.filter_append]
    at hmem
  obtain ⟨i, hi, hpublished⟩ := of_decide_eq_true (List.mem_filter.mp hmem).2
  refine ⟨i, hi, Eq.trans ?_ hpublished⟩
  rw [published?, published?, hafter, hfound]
  exact congrArg Slot.published (get_set_ne _ _ (Ne.symm hi))

/-- The count rises by what is parked and falls by what the sweep frees. -/
theorem pending_eq (hv : w.PoppedTo t id handle slot link v)
    (hfound : w.registryAt? slot.registry = some registry)
    (hpending : registry.limbo.entries.length ≤ registry.limbo.pending.toNat)
    (hroom : registry.limbo.pending.toNat + 1 < UInt64.size) :
    (v.limbo slot.registry).pending.toNat + (w.looseBeside slot).length =
      registry.limbo.pending.toNat + (w.parks slot link.1).length := by
  have hafter := hv.registry
  rw [hfound, Option.map_some] at hafter
  have hparks : (w.parks slot link.1).length ≤ 1 := List.length_filter_le _ [_]
  have hloose : (w.looseBeside slot).length ≤ registry.limbo.entries.length := by
    rw [looseBeside, limbo_of_registryAt? hfound]
    exact List.length_filter_le _ _
  have hsum : (registry.limbo.pending + .ofNat (w.parks slot link.1).length).toNat =
      registry.limbo.pending.toNat + (w.parks slot link.1).length := by
    have hsize : (UInt64.ofNat (w.parks slot link.1).length).toNat =
        (w.parks slot link.1).length := UInt64.toNat_ofNat_of_lt' (by omega)
    rw [UInt64.toNat_add, hsize]
    exact Nat.mod_eq_of_lt (Nat.lt_of_le_of_lt (Nat.add_le_add_left hparks _) hroom)
  rw [limbo_of_registryAt? hafter, ← hsum]
  exact toNat_sub_ofNat (by omega)

end PoppedTo

end World

theorem Run.older [Destructor α] {m m' : Machine n α} {moves : List (Move n α)}
    (hrun : Run m moves m') (hm : m.Sound) : m.world.Older m'.world := by
  induction hrun with
  | start => exact .refl _
  | @move moves pre deed turn hrun hcarry ih =>
    obtain ⟨_, -, heffects, -⟩ := (hrun.sound hm).marked hcarry
    rw [turn.world_machine]
    exact ih.trans heffects.older

/-- In a sound world, the stack loses its top link and no stack loses any other. -/
theorem World.PoppedTo.links_eq {w v : World n α} {t : ThreadId} {id : StackId}
    {handle : HandleId} {slot : Handle n} {stack : Stack} {link : NodeId × Node α}
    (hv : w.PoppedTo t id handle slot link v) (hw : (stockOf w []).Sound)
    (hstack : w.stack? id = some stack) (hhandle : w.handle? handle = some slot)
    (hregistry : slot.registry = stack.registry) (htop : w.top? stack = some link) (j : StackId)
    (hleave : DeletersLeave (w.trace t (.popUsing id handle)) (·.stack? j)) :
    w.links j = if id = j then link :: v.links j else v.links j := by
  -- A command drops no stack, so it does not matter how the values' destructors behave.
  let _ : Destructor α := ⟨fun _ ↦ none⟩
  let m : Machine n α :=
    ⟨w.unlink id slot link, t, [.pop ⟨slot.registry, link.2.value, .lent, .retire link.1⟩]⟩
  have hexecute : Machine.execute w t (.popUsing id handle) [] = .next m :=
    World.execute_popUsing hstack hhandle hregistry t htop
  have hm : m.Sound := by
    have hstart : (⟨w, t, []⟩ : Machine n α).Sound := ⟨hw, trivial⟩
    have hcarry : (⟨w, t, []⟩ : Machine n α).carryOut (.issue t (.popUsing id handle)) =
        some (.next m) := congrArg some hexecute
    exact hstart.after hcarry t
  have hend : m.run.1 = v := by
    have hrun := hv.answer
    rw [World.run, hexecute] at hrun
    exact congrArg Prod.fst hrun
  obtain ⟨moves, t', hrun, -⟩ := m.exists_run
  rw [hend] at hrun
  have hsame : v.stack? j = (w.unlink id slot link).stack? j :=
    (hv.stacks j hleave).trans (w.stack?_setHead id link.2.next j).symm
  have hkept : v.links j = (w.unlink id slot link).links j :=
    World.links_of_older hm.stock.tidy (hrun.sound hm).stock.tidy (hrun.older hm) hsame
  have hunlink : (w.unlink id slot link).links j = (w.setHead id link.2.next).links j :=
    World.links_congr rfl rfl j
  have htidy : w.Tidy := hw.tidy
  rw [hkept, hunlink, World.links_setHead htidy hstack htop]
  split
  · next hj => exact hj ▸ htidy.links_eq_cons hstack htop
  · rfl

/-- A pop through a slot does what `PoppedTo` says, whatever is in the stack, the slots and the
registry, if the deleters meet no fault and leave the registry alone. On an empty stack it only
clears the slot. What is parked after a pop of a value is published by another slot, and the count
changes by what was parked and freed. In a sound world the stacks keep their links but for the one
that is popped. -/
theorem popUsing_exact {w : World n α} {id : StackId} {handle : HandleId} {slot : Handle n}
    {stack : Stack} {registry : Registry n (Entry α)} (hstack : w.stack? id = some stack)
    (hhandle : w.handle? handle = some slot) (hregistry : slot.registry = stack.registry)
    (hfound : w.registryAt? slot.registry = some registry)
    (hpending : registry.limbo.entries.length ≤ registry.limbo.pending.toNat) (t : ThreadId)
    (hgentle : GentleOn slot.registry (w.trace t (.popUsing id handle))) :
    (w.top? stack = none →
      w.run t (.popUsing id handle) = (w.publish slot none, .ok (.popped none)) ∧
        w.trace t (.popUsing id handle) = []) ∧
    ∀ link, w.top? stack = some link → ∃ v, w.PoppedTo t id handle slot link v ∧
      (∀ entry ∈ (v.limbo slot.registry).entries, v.PublishedBeside slot entry.address) ∧
      (registry.limbo.pending.toNat + 1 < UInt64.size →
        (v.limbo slot.registry).pending.toNat + (w.looseBeside slot).length =
          registry.limbo.pending.toNat + (w.parks slot link.1).length) ∧
      ((stockOf w []).Sound → ∀ j,
        DeletersLeave (w.trace t (.popUsing id handle)) (·.stack? j) →
        w.links j = if id = j then link :: v.links j else v.links j) := by
  refine ⟨World.run_popUsing_empty hstack hhandle hregistry t, fun link htop ↦ ?_⟩
  obtain ⟨v, hv⟩ := World.poppedTo hstack hhandle hregistry hfound htop hgentle
  exact ⟨v, hv, hv.publishedBeside hfound, hv.pending_eq hfound hpending, fun hw ↦
    hv.links_eq hw hstack hhandle hregistry htop⟩

/-- Two objects are parked, the first because of the slot that the pop uses, the second because of
another. A third slot publishes the node on top of the stack. The deleter of the first object pushes
a value on another stack. -/
def crowdingTop : List (Deed Nat) :=
  [.addRegistry, .addStack 0, .addStack 0, .spawn, .addObject [.push 1 7], .addObject [],
    .issue 0 (.claim 0), .issue 0 (.claim 0), .issue 0 (.claim 0),
    .issue 0 (.publish 0 (some (.object 0))), .issue 0 (.publish 1 (some (.object 1))),
    .issue 0 (.retire 0 (some 0)), .issue 0 (.retire 0 (some 1)), .issue 0 (.push 0 5),
    .issue 0 (.push 0 6), .issue 0 (.publish 2 (some (.node 1)))]

def crowdedTop : Machine 3 Nat := (Machine.empty.follow crowdingTop).2

theorem popUsing_exact_crowded :
    ∃ v, crowdedTop.world.run 0 (.popUsing 0 0) = (v, .ok (.popped (some 6))) ∧
      (v.limbo 0).entries = [⟨.object 1, []⟩, .ofNode 1] ∧ (v.limbo 0).pending.toNat = 2 ∧
      v.links 0 = [(0, ⟨5, none⟩)] := by
  have hfound : crowdedTop.world.registryAt? 0 =
      some ⟨#v[⟨some 0, some (.object 0)⟩, ⟨some 0, some (.object 1)⟩, ⟨some 0, some (.node 1)⟩],
        ⟨[⟨.object 1, []⟩, ⟨.object 0, [.push 1 7]⟩], 2⟩⟩ := by
    decide +kernel
  have hstack : crowdedTop.world.stack? 0 = some ⟨0, some 1⟩ := by decide +kernel
  have hhandle : crowdedTop.world.handle? 0 = some ⟨0, 0, 0⟩ := by decide +kernel
  have htop : crowdedTop.world.top? ⟨0, some 1⟩ = some (1, ⟨6, some 0⟩) := by decide +kernel
  have htrace := crowdedTop.world.follow_issue 0 (.popUsing 0 0) 12 (by decide +kernel)
  have hgentle : GentleOn 0 (crowdedTop.world.trace 0 (.popUsing 0 0)) := by
    rw [← htrace]
    decide +kernel
  have hleave : DeletersLeave (crowdedTop.world.trace 0 (.popUsing 0 0)) (·.stack? 0) := by
    rw [← htrace]
    decide +kernel
  have hw : (stockOf crowdedTop.world []).Sound := by
    have hrun : Run Machine.empty _ crowdedTop := Machine.empty.run_follow crowdingTop
    have hframes : crowdedTop.frames.isEmpty := by decide +kernel
    have hsound := (hrun.sound Machine.sound_empty).stock
    rwa [Machine.stock, List.isEmpty_iff.mp hframes] at hsound
  obtain ⟨-, hpops⟩ := popUsing_exact hstack hhandle rfl hfound (by decide) 0 hgentle
  obtain ⟨v, hv, -, hpending, hlinks⟩ := hpops _ htop
  have hparks : crowdedTop.world.parks ⟨0, 0, 0⟩ 1 = [.ofNode 1] := by decide +kernel
  have hguarded : crowdedTop.world.guardedBeside ⟨0, 0, 0⟩ = [⟨.object 1, []⟩] := by
    decide +kernel
  have hloose : crowdedTop.world.looseBeside ⟨0, 0, 0⟩ = [⟨.object 0, [.push 1 7]⟩] := by
    decide +kernel
  have hbefore : crowdedTop.world.links 0 = [(1, ⟨6, some 0⟩), (0, ⟨5, none⟩)] := by
    decide +kernel
  have hafter := hv.registry
  rw [hfound, Option.map_some, hparks, hguarded] at hafter
  have hpending := hpending (by decide)
  rw [hparks, hloose] at hpending
  have hlinks := hlinks hw 0 hleave
  rw [hbefore, if_pos rfl] at hlinks
  refine ⟨v, hv.answer, ?_, Nat.add_right_cancel hpending, (List.cons.inj hlinks).2.symm⟩
  rw [World.limbo_of_registryAt? hafter]
  rfl

end Reclaim.Hazard
