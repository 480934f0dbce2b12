import Reclaim.Proofs.Hazard.Stock

/-!
# Shifts

Every effect either leaves all addresses where they are, or takes some from the front of one place
to the front of another. `Route` lists the ways that addresses can go, and `Shift` says what going
there does to all the places.
-/

namespace Reclaim.Hazard

variable {n : Nat} {α : Type}

namespace World

section

variable (w : World n α) (r q : RegistryId)

theorem limbo_of_length_le {w : World n α} {r : RegistryId} (hle : w.registries.length ≤ r) :
    w.limbo r = {} := by
  rw [limbo, registryAt?, List.getElem?_eq_none hle]
  rfl

theorem lt_length_of_registryAt? {w : World n α} {r : RegistryId}
    (hregistry : (w.registryAt? r).isSome) : r < w.registries.length := by
  obtain ⟨registry, hfound⟩ := Option.isSome_iff_exists.mp hregistry
  exact (List.getElem?_eq_some_iff.mp hfound).1

theorem limbo_modifyLimbo {w : World n α} {r : RegistryId} (hlt : r < w.registries.length)
    (f : LimboList (Entry α) → LimboList (Entry α)) (q : RegistryId) :
    (w.modifyLimbo r f).limbo q = if r = q then f (w.limbo q) else w.limbo q := by
  simp only [limbo, registryAt?, modifyLimbo, modifyRegistry, List.getElem?_modify]
  by_cases hq : r = q
  · subst hq
    simp [List.getElem?_eq_getElem hlt]
  · simp [hq]

theorem limbo_addRegistry : w.addRegistry.limbo q = w.limbo q := by
  rw [limbo, registryAt?, addRegistry]
  rcases Nat.lt_trichotomy q w.registries.length with hlt | rfl | hgt
  · rw [List.getElem?_append_left hlt]
    rfl
  · rw [limbo_of_length_le (Nat.le_refl _), List.getElem?_concat_length]
    rfl
  · rw [limbo_of_length_le (Nat.le_of_lt hgt), List.getElem?_eq_none (by simp; omega)]
    rfl

theorem detachLimbo_fst : (w.detachLimbo r).1 = (w.limbo r).entries := by
  unfold detachLimbo limbo
  cases w.registryAt? r with
  | none => rfl
  | some registry => rfl

theorem limbo_detachLimbo :
    (w.detachLimbo r).2.limbo q =
      if r = q then { w.limbo q with entries := [] } else w.limbo q := by
  by_cases hlt : r < w.registries.length
  · have hdetach : (w.detachLimbo r).2 = w.modifyLimbo r fun list ↦ list.detach.2 := by
      rw [detachLimbo, registryAt?, List.getElem?_eq_getElem hlt]
    rw [hdetach, limbo_modifyLimbo hlt]
    rfl
  · have hnone : w.registryAt? r = none := List.getElem?_eq_none (Nat.not_lt.mp hlt)
    rw [detachLimbo, hnone]
    by_cases hq : r = q
    · rw [if_pos hq, ← hq, limbo_of_length_le (Nat.not_lt.mp hlt)]
    · rw [if_neg hq]

theorem length_registries_modifyLimbo (f : LimboList (Entry α) → LimboList (Entry α)) :
    (w.modifyLimbo r f).registries.length = w.registries.length := List.length_modify _ _ _

/-- Detaching changes the limbo list of one registry and nothing else. -/
theorem detachLimbo_eq : ∃ registries : List (Registry n (Entry α)),
    (w.detachLimbo r).2 = { w with registries } ∧ registries.length = w.registries.length := by
  unfold detachLimbo
  cases w.registryAt? r with
  | none => exact ⟨w.registries, rfl, rfl⟩
  | some registry =>
    exact ⟨(w.modifyLimbo r fun list ↦ list.detach.2).registries, rfl,
      w.length_registries_modifyLimbo r _⟩

theorem started_detachLimbo : (w.detachLimbo r).2.started = w.started := by
  obtain ⟨registries, hdetach, -⟩ := w.detachLimbo_eq r
  rw [hdetach]
  rfl

end

section

variable (w : World n α) (entry : Entry α)

theorem started_start : (w.start entry).started = entry.address :: w.started := by
  rw [start]
  split
  · next node haddress =>
    rw [haddress]
    rfl
  · next object haddress =>
    rw [haddress]
    rfl

theorem registries_start : (w.start entry).registries = w.registries := by
  rw [start]
  split <;> rfl

theorem cutShort_start : (w.start entry).cutShort = w.cutShort := by
  rw [start]
  split <;> rfl

theorem objects_start : (w.start entry).objects = w.objects := by
  rw [start]
  split <;> rfl

theorem size_start : (w.start entry).heap.size = w.heap.size := by
  rw [start]
  split
  · exact w.heap.size_free _
  · rfl

theorem limbo_start (r : RegistryId) : (w.start entry).limbo r = w.limbo r := by
  rw [limbo, registryAt?, registries_start]
  rfl

end

/-- An address that was given out: the node was made, the object was retired. -/
def Knows (w : World n α) : Address → Prop
  | .node node => node < w.heap.size
  | .object o => ∃ object, w.objects[o]? = some object ∧ object.retired

end World

/-! ## Routes and shifts -/

/-- The ways on which addresses can go. -/
inductive Route (s : Stock n α) : List (Mark n) → List Address → Option Place → Option Place → Prop
  | stay (marks : List (Mark n)) : Route s marks [] none none
  | push (id : StackId) : Route s [] [.node s.world.heap.size] none (some (.linked id))
  | handOver {o : ObjectId} (hfresh : ¬ s.world.Knows (.object o)) (r : RegistryId) :
      Route s [] [.object o] none (some (.taken r))
  | unlink {id : StackId} {stack : Stack} (hstack : s.world.stack? id = some stack)
      (a : Address) : Route s [] [a] (some (.linked id)) (some (.taken stack.registry))
  | park (r : RegistryId) (a : Address) : Route s [] [a] (some (.taken r)) (some (.parked r))
  | free {r : RegistryId} {a : Address} (hfree : s.world.isProtected r (some a) = false) :
      Route s [] [a] (some (.taken r)) (some .freed)
  | detach (r : RegistryId) :
      Route s [] (s.addresses (.parked r)) (some (.parked r)) (some (.draining r))
  | putBack (r : RegistryId) (a : Address) :
      Route s [] [a] (some (.draining r)) (some (.parked r))
  | sweep {r : RegistryId} {a : Address} (hfree : s.world.isProtected r (some a) = false) :
      Route s [] [a] (some (.draining r)) (some .freed)
  | cut (r : RegistryId) (moved : List Address) :
      Route s [.cut r moved] moved (some (.draining r)) (some (.lost r))
  | discard (id : StackId) (a : Address) :
      Route s [.drop id] [a] (some (.linked id)) (some .freed)
  | forget (id : StackId) :
      Route s (.drop id :: (s.world.links id).map fun link ↦ .leak link.1)
        (s.addresses (.linked id)) (some (.linked id)) none

/-- From `s` to `t` these addresses went from one place to another. -/
structure Shift (s t : Stock n α) (moved : List Address) (src dst : Option Place) : Prop where
  left : ∀ p, src = some p → s.addresses p = moved ++ t.addresses p
  entered : ∀ p, dst = some p → t.addresses p = moved ++ s.addresses p
  stayed : ∀ p, src ≠ some p → dst ≠ some p → t.addresses p = s.addresses p
  /-- What came from no place was given out just now. -/
  known : src = none → ∀ a ∈ moved, t.world.Knows a := by simp

/-- Nothing moves if no place changes. -/
theorem Shift.stay {s t : Stock n α} (h : ∀ p, t.addresses p = s.addresses p) :
    Shift s t [] none none where
  left _ hsrc := by cases hsrc
  entered _ hdst := by cases hdst
  stayed p _ _ := h p
  known _ _ hmem := by cases hmem

namespace Stock

variable {s t : Stock n α}

/-- All that the places depend on. -/
theorem addresses_congr (hlinks : ∀ id, t.world.links id = s.world.links id)
    (htaken : t.taken = s.taken) (hlimbo : ∀ r, t.world.limbo r = s.world.limbo r)
    (hsweeps : ∀ r, rests r t.sweeps = rests r s.sweeps)
    (hcutShort : t.world.cutShort = s.world.cutShort) (hstarted : t.world.started = s.world.started)
    (p : Place) : t.addresses p = s.addresses p := by
  cases p with
  | linked id => rw [addresses, hlinks, addresses]
  | taken r => rw [addresses, htaken, addresses]
  | parked r => rw [addresses, hlimbo, addresses]
  | draining r => rw [addresses, hsweeps, addresses]
  | lost r => rw [addresses, hcutShort, addresses]
  | freed => rw [addresses, hstarted, addresses]

end Stock

theorem rests_cons (r : RegistryId) (sweep : Sweep α) (sweeps : List (Sweep α)) :
    rests r (sweep :: sweeps) =
      (if sweep.registry = r then sweep.rest.map (·.address) else []) ++ rests r sweeps :=
  List.flatMap_cons

/-- What all stocks have in common that come about from nothing. -/
structure Stock.Sound (s : Stock n α) : Prop where
  tidy : s.world.Tidy
  /-- No address is in two places, nor in one place twice. -/
  apart : ∀ a p q, p ≠ q → s.count a p + s.count a q ≤ 1
  known : ∀ p, ∀ a ∈ s.addresses p, s.world.Knows a
  homes : ∀ id stack, s.world.stack? id = some stack →
    stack.registry < s.world.registries.length
  taken : ∀ x ∈ s.taken, x.1 < s.world.registries.length
  sweeps : ∀ sweep ∈ s.sweeps, sweep.rest ≠ [] ∨ sweep.current.isSome →
    sweep.registry < s.world.registries.length
  pending : ∀ r, (s.world.limbo r).pending = UInt64.ofNat (s.waiting r)

namespace Stock.Sound

variable {s : Stock n α}

theorem not_mem_of_mem (hs : s.Sound) {a : Address} {p q : Place} (hmem : a ∈ s.addresses p)
    (hne : p ≠ q) : a ∉ s.addresses q := by
  have hapart := hs.apart a p q hne
  have hpos : 0 < s.count a p := List.count_pos_iff.mpr hmem
  apply List.count_eq_zero.mp
  show s.count a q = 0
  omega

/-- What is in another place is linked nowhere, so freeing it spares all links. -/
theorem not_linked (hs : s.Sound) {a : Address} {p : Place} (hmem : a ∈ s.addresses p)
    (hne : ∀ id, p ≠ .linked id) (id : StackId) : ∀ link ∈ s.world.links id, a ≠ .node link.1 := by
  rintro link hlink rfl
  exact hs.not_mem_of_mem hmem (hne id) (List.mem_map_of_mem hlink)

theorem taken_lt (hs : s.Sound) {r : RegistryId} {entry : Entry α}
    {taken : List (RegistryId × Entry α)} (htaken : s.taken = (r, entry) :: taken) :
    r < s.world.registries.length :=
  hs.taken (r, entry) (htaken ▸ List.mem_cons_self)

theorem sweep_lt (hs : s.Sound) {sweep : Sweep α} {sweeps : List (Sweep α)}
    (hsweeps : s.sweeps = sweep :: sweeps) (h : sweep.rest ≠ [] ∨ sweep.current.isSome) :
    sweep.registry < s.world.registries.length :=
  hs.sweeps sweep (hsweeps ▸ List.mem_cons_self) h

end Stock.Sound

namespace Effect

variable {s : Stock n α}

theorem shift_push (hs : s.Sound) {id : StackId} {stack : Stack}
    (hstack : s.world.stack? id = some stack) (value : α) :
    Shift s { s with world := (s.world.push id stack value).2 } [.node s.world.heap.size] none
      (some (.linked id)) where
  left _ hsrc := by cases hsrc
  entered p hdst := by
    obtain rfl := Option.some.inj hdst
    simp only [Stock.addresses]
    rw [World.links_push hs.tidy hstack, if_pos rfl]
    rfl
  stayed p _ hdst := by
    cases p with
    | linked j =>
      simp only [Stock.addresses]
      rw [World.links_push hs.tidy hstack, if_neg]
      rintro rfl
      exact hdst rfl
    | _ => rfl
  known _ a hmem := by
    obtain rfl := List.mem_singleton.mp hmem
    show s.world.heap.size < (s.world.heap.alloc _).2.size
    rw [Heap.size_alloc]
    exact Nat.lt_succ_self _

theorem shift_unlink (hs : s.Sound) {id : StackId} {stack : Stack} {node : NodeId}
    {contents : Node α} (hstack : s.world.stack? id = some stack)
    (htop : s.world.top? stack = some (node, contents)) :
    Shift s { s with
        world := s.world.setHead id contents.next
        taken := (stack.registry, .ofNode node) :: s.taken }
      [.node node] (some (.linked id)) (some (.taken stack.registry)) where
  left p hsrc := by
    obtain rfl := Option.some.inj hsrc
    simp only [Stock.addresses]
    rw [World.links_setHead hs.tidy hstack htop, if_pos rfl]
    exact congrArg (List.map _) (hs.tidy.links_eq_cons hstack htop)
  entered p hdst := by
    obtain rfl := Option.some.inj hdst
    simp [Stock.addresses, Entry.ofNode]
  stayed p hsrc hdst := by
    cases p with
    | linked j =>
      simp only [Stock.addresses]
      rw [World.links_setHead hs.tidy hstack htop, if_neg]
      rintro rfl
      exact hsrc rfl
    | taken q =>
      have hq : stack.registry ≠ q := fun h ↦ hdst (by rw [h])
      simp [Stock.addresses, hq]
    | _ => rfl

theorem not_knows_of_fresh {o : ObjectId} {object : Object α}
    (hobject : s.world.objects[o]? = some object) (hfresh : object.retired = false) :
    ¬ s.world.Knows (.object o) := by
  rintro ⟨other, hother, hretired⟩
  obtain rfl := Option.some.inj (hother.symm.trans hobject)
  rw [hfresh] at hretired
  cases hretired

theorem shift_handOver {r : RegistryId} {o : ObjectId} {object : Object α}
    (hobject : s.world.objects[o]? = some object) :
    Shift s { s with
        world := s.world.markRetired o
        taken := (r, ⟨.object o, object.program⟩) :: s.taken }
      [.object o] none (some (.taken r)) where
  left _ hsrc := by cases hsrc
  entered p hdst := by
    obtain rfl := Option.some.inj hdst
    simp [Stock.addresses]
  stayed p _ hdst := by
    cases p with
    | taken q =>
      have hq : r ≠ q := fun h ↦ hdst (by rw [h])
      simp [Stock.addresses, hq]
    | _ => rfl
  known _ a hmem := by
    obtain rfl := List.mem_singleton.mp hmem
    refine ⟨{ object with retired := true }, ?_, rfl⟩
    simp [World.markRetired, hobject]

theorem shift_park {r : RegistryId} {entry : Entry α} {taken : List (RegistryId × Entry α)}
    (htaken : s.taken = (r, entry) :: taken) (hlt : r < s.world.registries.length) :
    Shift s { s with world := s.world.modifyLimbo r (·.park entry), taken } [entry.address]
      (some (.taken r)) (some (.parked r)) where
  left p hsrc := by
    obtain rfl := Option.some.inj hsrc
    simp [Stock.addresses, htaken]
  entered p hdst := by
    obtain rfl := Option.some.inj hdst
    simp [Stock.addresses, World.limbo_modifyLimbo hlt, LimboList.park]
  stayed p hsrc hdst := by
    cases p with
    | taken q =>
      have hq : r ≠ q := fun h ↦ hsrc (by rw [h])
      simp [Stock.addresses, htaken, hq]
    | parked q =>
      have hq : r ≠ q := fun h ↦ hdst (by rw [h])
      simp [Stock.addresses, World.limbo_modifyLimbo hlt, hq]
    | _ => rfl

theorem shift_detach (r : RegistryId) :
    Shift s { s with
        world := (s.world.detachLimbo r).2
        sweeps := { registry := r, rest := (s.world.detachLimbo r).1 } :: s.sweeps }
      (s.addresses (.parked r)) (some (.parked r)) (some (.draining r)) where
  left p hsrc := by
    obtain rfl := Option.some.inj hsrc
    simp [Stock.addresses, World.limbo_detachLimbo]
  entered p hdst := by
    obtain rfl := Option.some.inj hdst
    simp [Stock.addresses, rests_cons, World.detachLimbo_fst]
  stayed p hsrc hdst := by
    obtain ⟨registries, hdetach, -⟩ := s.world.detachLimbo_eq r
    cases p with
    | parked q =>
      have hq : r ≠ q := fun h ↦ hsrc (by rw [h])
      simp [Stock.addresses, World.limbo_detachLimbo, hq]
    | draining q =>
      have hq : r ≠ q := fun h ↦ hdst (by rw [h])
      simp [Stock.addresses, rests_cons, hq]
    | linked id =>
      simp only [Stock.addresses]
      rw [hdetach]
      rfl
    | taken q => rfl
    | lost q =>
      simp only [Stock.addresses]
      rw [hdetach]
    | freed =>
      simp only [Stock.addresses]
      rw [hdetach]
      rfl

theorem shift_putBack {sweep : Sweep α} {sweeps : List (Sweep α)} {entry : Entry α}
    {rest : List (Entry α)} (hsweeps : s.sweeps = sweep :: sweeps)
    (hrest : sweep.rest = entry :: rest) (hlt : sweep.registry < s.world.registries.length) :
    Shift s { s with
        world := s.world.modifyLimbo sweep.registry (·.putBack entry)
        sweeps := { sweep with rest } :: sweeps }
      [entry.address] (some (.draining sweep.registry)) (some (.parked sweep.registry)) where
  left p hsrc := by
    obtain rfl := Option.some.inj hsrc
    simp [Stock.addresses, rests_cons, hsweeps, hrest]
  entered p hdst := by
    obtain rfl := Option.some.inj hdst
    simp [Stock.addresses, World.limbo_modifyLimbo hlt, LimboList.putBack]
  stayed p hsrc hdst := by
    cases p with
    | draining q =>
      have hq : sweep.registry ≠ q := fun h ↦ hsrc (by rw [h])
      simp [Stock.addresses, rests_cons, hsweeps, hq]
    | parked q =>
      have hq : sweep.registry ≠ q := fun h ↦ hdst (by rw [h])
      simp [Stock.addresses, World.limbo_modifyLimbo hlt, hq]
    | _ => rfl

/-- Starting the deleter of what is not linked changes only what is freed. -/
theorem addresses_start (hs : s.Sound) {entry : Entry α}
    (hfree : ∀ id, ∀ link ∈ s.world.links id, entry.address ≠ .node link.1) {p : Place}
    (hp : p ≠ .freed) :
    ({ s with world := s.world.start entry } : Stock n α).addresses p = s.addresses p := by
  cases p with
  | linked id => simp only [Stock.addresses, World.links_start hs.tidy hfree]
  | taken r => rfl
  | parked r => simp only [Stock.addresses, World.limbo_start]
  | draining r => rfl
  | lost r => simp only [Stock.addresses, World.cutShort_start]
  | freed => exact absurd rfl hp

theorem shift_free (hs : s.Sound) {r : RegistryId} {entry : Entry α}
    {taken : List (RegistryId × Entry α)} (htaken : s.taken = (r, entry) :: taken) :
    Shift s { s with world := s.world.start entry, taken } [entry.address] (some (.taken r))
      (some .freed) where
  left p hsrc := by
    obtain rfl := Option.some.inj hsrc
    simp [Stock.addresses, htaken]
  entered p hdst := by
    obtain rfl := Option.some.inj hdst
    exact World.started_start _ _
  stayed p hsrc hdst := by
    have hmem : entry.address ∈ s.addresses (.taken r) := by simp [Stock.addresses, htaken]
    have hne : p ≠ .freed := fun h ↦ hdst (by rw [h])
    have hstart := addresses_start hs (hs.not_linked hmem (by simp)) hne
    rw [← hstart]
    cases p with
    | taken q =>
      have hq : r ≠ q := fun h ↦ hsrc (by rw [h])
      simp [Stock.addresses, htaken, hq]
    | _ => rfl

theorem shift_sweep (hs : s.Sound) {sweep : Sweep α} {sweeps : List (Sweep α)} {entry : Entry α}
    {rest : List (Entry α)} (hsweeps : s.sweeps = sweep :: sweeps)
    (hrest : sweep.rest = entry :: rest) :
    Shift s { s with
        world := s.world.start entry
        sweeps := { sweep with current := some entry, rest } :: sweeps }
      [entry.address] (some (.draining sweep.registry)) (some .freed) where
  left p hsrc := by
    obtain rfl := Option.some.inj hsrc
    simp [Stock.addresses, rests_cons, hsweeps, hrest]
  entered p hdst := by
    obtain rfl := Option.some.inj hdst
    exact World.started_start _ _
  stayed p hsrc hdst := by
    have hmem : entry.address ∈ s.addresses (.draining sweep.registry) := by
      simp [Stock.addresses, rests_cons, hsweeps, hrest]
    have hne : p ≠ .freed := fun h ↦ hdst (by rw [h])
    have hstart := addresses_start hs (hs.not_linked hmem (by simp)) hne
    rw [← hstart]
    cases p with
    | draining q =>
      have hq : sweep.registry ≠ q := fun h ↦ hsrc (by rw [h])
      simp [Stock.addresses, rests_cons, hsweeps, hq]
    | _ => rfl

theorem shift_cut {sweep : Sweep α} {sweeps : List (Sweep α)}
    (hsweeps : s.sweeps = sweep :: sweeps) :
    Shift s { s with
        world := { s.world with cutShort := sweep :: s.world.cutShort }
        sweeps }
      (sweep.rest.map (·.address)) (some (.draining sweep.registry))
      (some (.lost sweep.registry)) where
  left p hsrc := by
    obtain rfl := Option.some.inj hsrc
    simp [Stock.addresses, rests_cons, hsweeps]
  entered p hdst := by
    obtain rfl := Option.some.inj hdst
    simp [Stock.addresses, rests_cons]
  stayed p hsrc hdst := by
    cases p with
    | draining q =>
      have hq : sweep.registry ≠ q := fun h ↦ hsrc (by rw [h])
      simp [Stock.addresses, rests_cons, hsweeps, hq]
    | lost q =>
      have hq : sweep.registry ≠ q := fun h ↦ hdst (by rw [h])
      simp [Stock.addresses, rests_cons, hq]
    | _ => rfl

theorem shift_forget (id : StackId) :
    Shift s { s with world := s.world.forget id } (s.addresses (.linked id)) (some (.linked id))
      none where
  left p hsrc := by
    obtain rfl := Option.some.inj hsrc
    simp [Stock.addresses, World.links_forget]
  entered _ hdst := by cases hdst
  stayed p hsrc _ := by
    cases p with
    | linked j =>
      simp only [Stock.addresses]
      rw [World.links_forget, if_neg]
      rintro rfl
      exact hsrc rfl
    | _ => rfl

/-- The node that is taken off the top of its stack is linked nowhere else. -/
theorem not_linked_setHead (hs : s.Sound) {id : StackId} {stack : Stack} {node : NodeId}
    {contents : Node α} (hstack : s.world.stack? id = some stack)
    (htop : s.world.top? stack = some (node, contents)) (j : StackId) :
    ∀ link ∈ (s.world.setHead id contents.next).links j, node ≠ link.1 := by
  have hcons := hs.tidy.links_eq_cons hstack htop
  rintro link hlink rfl
  rw [World.links_setHead hs.tidy hstack htop] at hlink
  split at hlink
  · next hj =>
    subst hj
    have hleads := hs.tidy id stack hstack
    rw [hcons] at hleads
    exact hleads.not_mem_tail (List.mem_map.mpr ⟨link, hlink, rfl⟩)
  · next hj =>
    have htopmem : Address.node link.1 ∈ s.addresses (.linked id) := by
      simp only [Stock.addresses]
      rw [hcons]
      exact List.mem_cons_self
    have hne : Place.linked id ≠ .linked j := fun h ↦ hj (Place.linked.inj h)
    exact hs.not_mem_of_mem htopmem hne (List.mem_map_of_mem hlink)

theorem shift_discard (hs : s.Sound) {id : StackId} {stack : Stack} {node : NodeId}
    {contents : Node α} (hstack : s.world.stack? id = some stack)
    (htop : s.world.top? stack = some (node, contents)) :
    Shift s { s with world := (s.world.setHead id contents.next).start (.ofNode node) }
      [.node node] (some (.linked id)) (some .freed) := by
  have htidy := hs.tidy.setHead hstack htop
  have hfree (j : StackId) : ∀ link ∈ (s.world.setHead id contents.next).links j,
      (Entry.ofNode node : Entry α).address ≠ .node link.1 := by
    intro link hlink heq
    exact not_linked_setHead hs hstack htop j link hlink (Address.node.inj heq)
  have hlinks (j : StackId) :
      ((s.world.setHead id contents.next).start (.ofNode node)).links j =
        if id = j then (s.world.links j).tail else s.world.links j := by
    rw [World.links_start htidy hfree, World.links_setHead hs.tidy hstack htop]
  refine { left := ?left, entered := ?entered, stayed := ?stayed }
  case left =>
    intro p hsrc
    obtain rfl := Option.some.inj hsrc
    simp only [Stock.addresses]
    rw [hlinks, if_pos rfl]
    exact congrArg (List.map _) (hs.tidy.links_eq_cons hstack htop)
  case entered =>
    intro p hdst
    obtain rfl := Option.some.inj hdst
    exact World.started_start _ _
  case stayed =>
    intro p hsrc hdst
    cases p with
    | linked j =>
      simp only [Stock.addresses]
      rw [hlinks, if_neg]
      rintro rfl
      exact hsrc rfl
    | freed => exact absurd rfl hdst
    | _ => rfl

theorem shift_aside {touched : List (Handle n)} {world : World n α}
    (haside : s.world.Aside touched world) : Shift s { s with world } [] none none :=
  .stay <| Stock.addresses_congr (World.links_congr haside.stacks haside.heap) rfl haside.limbo
    (fun _ ↦ rfl) haside.cutShort haside.started

theorem shift_addRegistry : Shift s { s with world := s.world.addRegistry } [] none none :=
  .stay <| Stock.addresses_congr (fun _ ↦ rfl) rfl s.world.limbo_addRegistry (fun _ ↦ rfl) rfl rfl

theorem shift_addStack (r : RegistryId) :
    Shift s { s with world := s.world.addStack r } [] none none :=
  .stay <| Stock.addresses_congr (fun id ↦ s.world.links_addStack r id) rfl (fun _ ↦ rfl)
    (fun _ ↦ rfl) rfl rfl

theorem shift_addObject (program : List (Command α)) :
    Shift s { s with world := s.world.addObject program } [] none none :=
  .stay fun p ↦ by cases p <;> rfl

theorem shift_countFreed {sweep : Sweep α} {sweeps : List (Sweep α)}
    (hsweeps : s.sweeps = sweep :: sweeps) (hlt : sweep.registry < s.world.registries.length) :
    Shift s { s with
        world := s.world.modifyLimbo sweep.registry (·.countFreed)
        sweeps := { sweep with current := none, freed := sweep.freed + 1 } :: sweeps }
      [] none none := by
  apply Shift.stay
  intro p
  cases p with
  | parked r =>
    simp only [Stock.addresses, World.limbo_modifyLimbo hlt]
    split <;> rfl
  | draining r => simp only [Stock.addresses, hsweeps, rests_cons]
  | _ => rfl

theorem shift_finish {sweep : Sweep α} {sweeps : List (Sweep α)}
    (hsweeps : s.sweeps = sweep :: sweeps) (hrest : sweep.rest = []) :
    Shift s { s with sweeps } [] none none := by
  apply Shift.stay
  intro p
  cases p with
  | draining r => simp [Stock.addresses, hsweeps, rests_cons, hrest]
  | _ => rfl

/-- Every effect shifts addresses along one of the routes. -/
theorem shift {t : Stock n α} {marks : List (Mark n)} (hs : s.Sound)
    (heffect : Effect s marks t) :
    ∃ moved src dst, Route s marks moved src dst ∧ Shift s t moved src dst := by
  cases heffect with
  | aside haside => exact ⟨_, _, _, .stay _, shift_aside haside⟩
  | addRegistry => exact ⟨_, _, _, .stay _, shift_addRegistry⟩
  | addStack _ => exact ⟨_, _, _, .stay _, shift_addStack _⟩
  | addObject program => exact ⟨_, _, _, .stay _, shift_addObject program⟩
  | push hstack value => exact ⟨_, _, _, .push _, shift_push hs hstack value⟩
  | unlink hstack htop => exact ⟨_, _, _, .unlink hstack _, shift_unlink hs hstack htop⟩
  | @handOver r o object _ hobject hfresh =>
    exact ⟨_, _, _, .handOver (not_knows_of_fresh hobject hfresh) r, shift_handOver hobject⟩
  | park htaken =>
    have hlt := hs.taken_lt htaken
    exact ⟨_, _, _, .park _ _, shift_park htaken hlt⟩
  | free htaken hfree => exact ⟨_, _, _, .free hfree, shift_free hs htaken⟩
  | detach r => exact ⟨_, _, _, .detach r, shift_detach r⟩
  | putBack hsweeps hrest =>
    have hlt := hs.sweep_lt hsweeps (Or.inl (by simp [hrest]))
    exact ⟨_, _, _, .putBack _ _, shift_putBack hsweeps hrest hlt⟩
  | sweep hsweeps _ hrest hfree => exact ⟨_, _, _, .sweep hfree, shift_sweep hs hsweeps hrest⟩
  | countFreed hsweeps hcurrent =>
    have hlt := hs.sweep_lt hsweeps (Or.inr hcurrent)
    exact ⟨_, _, _, .stay _, shift_countFreed hsweeps hlt⟩
  | finish hsweeps _ hrest => exact ⟨_, _, _, .stay _, shift_finish hsweeps hrest⟩
  | cut hsweeps => exact ⟨_, _, _, .cut _ _, shift_cut hsweeps⟩
  | discard hstack htop => exact ⟨_, _, _, .discard _ _, shift_discard hs hstack htop⟩
  | forget id => exact ⟨_, _, _, .forget id, shift_forget id⟩

end Effect

end Reclaim.Hazard
