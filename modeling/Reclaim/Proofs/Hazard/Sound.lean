import Reclaim.Proofs.Hazard.Shift

/-!
# Soundness is kept

A shift moves what it moves and repeats nothing, so addresses stay apart; it changes the numbers of
waiting entries just as the effect changes the counter of their registry. A stock that is sound
therefore stays sound under every effect.
-/

namespace Reclaim.Hazard

variable {n : Nat} {α : Type} {s t : Stock n α} {marks : List (Mark n)} {moved : List Address}
  {src dst : Option Place}

/-- No route leads back to where it starts. -/
theorem Route.ne (hroute : Route s marks moved src dst) (p : Place) (hsrc : src = some p) :
    dst ≠ some p := by
  rintro rfl
  cases hroute <;> cases hsrc

/-- What comes from no place is one address that was not given out before. -/
theorem Route.fresh (hroute : Route s marks moved src dst) (hsrc : src = none) (a : Address) :
    moved.count a ≤ 1 ∧ (0 < moved.count a → ¬ s.world.Knows a) := by
  have single (b : Address) (hfresh : ¬ s.world.Knows b) :
      [b].count a ≤ 1 ∧ (0 < [b].count a → ¬ s.world.Knows a) := by
    refine ⟨List.count_le_length, fun hpos ↦ ?_⟩
    rwa [List.mem_singleton.mp (List.count_pos_iff.mp hpos)]
  cases hroute with
  | stay _ => exact ⟨Nat.zero_le _, fun hpos ↦ absurd hpos (Nat.lt_irrefl 0)⟩
  | push id => exact single _ (Nat.lt_irrefl _)
  | handOver hfresh r => exact single _ hfresh
  | _ => cases hsrc

namespace Shift

variable (hshift : Shift s t moved src dst) (hroute : Route s marks moved src dst)

include hshift hroute

/-- What a place has lost and has is what it has gained and had. -/
theorem balance (p : Place) :
    (if src = some p then moved else []) ++ t.addresses p =
      (if dst = some p then moved else []) ++ s.addresses p := by
  by_cases hsrc : src = some p
  · rw [if_pos hsrc, if_neg (hroute.ne p hsrc), List.nil_append, hshift.left p hsrc]
  · rw [if_neg hsrc, List.nil_append]
    by_cases hdst : dst = some p
    · rw [if_pos hdst, hshift.entered p hdst]
    · rw [if_neg hdst, List.nil_append, hshift.stayed p hsrc hdst]

theorem count (a : Address) (p : Place) :
    (if src = some p then moved.count a else 0) + t.count a p =
      (if dst = some p then moved.count a else 0) + s.count a p := by
  have hbalance := congrArg (List.count a) (hshift.balance hroute p)
  simpa only [Stock.count, List.count_append, apply_ite (List.count a), List.count_nil]
    using hbalance

theorem length (p : Place) :
    (if src = some p then moved.length else 0) + (t.addresses p).length =
      (if dst = some p then moved.length else 0) + (s.addresses p).length := by
  have hbalance := congrArg List.length (hshift.balance hroute p)
  simpa only [List.length_append, apply_ite List.length, List.length_nil] using hbalance

end Shift

theorem Stock.Sound.count_le_one (hs : s.Sound) (a : Address) (p : Place) : s.count a p ≤ 1 := by
  have hother : ∃ q : Place, p ≠ q := by
    cases p with
    | freed => exact ⟨.linked 0, nofun⟩
    | _ => exact ⟨.freed, nofun⟩
  obtain ⟨q, hq⟩ := hother
  have := hs.apart a p q hq
  omega

theorem Stock.Sound.count_eq_zero_of_fresh (hs : s.Sound) {a : Address}
    (hfresh : ¬ s.world.Knows a) (p : Place) : s.count a p = 0 :=
  List.count_eq_zero.mpr fun hmem ↦ hfresh (hs.known p a hmem)

theorem Shift.apart (hs : s.Sound) (hshift : Shift s t moved src dst)
    (hroute : Route s marks moved src dst) (a : Address) (p q : Place) (hne : p ≠ q) :
    t.count a p + t.count a q ≤ 1 := by
  have hp := hshift.count hroute a p
  have hq := hshift.count hroute a q
  have hpq := hs.apart a p q hne
  have hdst : ¬(dst = some p ∧ dst = some q) :=
    fun h ↦ hne (Option.some.inj (h.1.symm.trans h.2))
  cases src with
  | none =>
    obtain ⟨honce, hfresh⟩ := hroute.fresh rfl a
    rw [if_neg nofun] at hp hq
    by_cases hpos : 0 < moved.count a
    · rw [hs.count_eq_zero_of_fresh (hfresh hpos)] at hp hq
      split at hp <;> split at hq <;> first | omega | exact absurd ⟨‹_›, ‹_›⟩ hdst
    · split at hp <;> split at hq <;> omega
  | some first =>
    -- What moves was in its first place, so it was in neither of the others.
    have hfirst := hshift.count hroute a first
    rw [if_pos rfl, if_neg (hroute.ne first rfl)] at hfirst
    have honce := hs.count_le_one a first
    by_cases hpfirst : first = p
    · subst hpfirst
      rw [if_neg (fun h ↦ hne (Option.some.inj h))] at hq
      split at hq <;> omega
    · by_cases hqfirst : first = q
      · subst hqfirst
        rw [if_neg (fun h ↦ hpfirst (Option.some.inj h))] at hp
        split at hp <;> omega
      · have hfp := hs.apart a first p hpfirst
        have hfq := hs.apart a first q hqfirst
        rw [if_neg (fun h ↦ hpfirst (Option.some.inj h))] at hp
        rw [if_neg (fun h ↦ hqfirst (Option.some.inj h))] at hq
        split at hp <;> split at hq <;> first | omega | exact absurd ⟨‹_›, ‹_›⟩ hdst

namespace World

def home? (w : World n α) (id : StackId) : Option RegistryId := (w.stack? id).map (·.registry)

def claimsIn? (w : World n α) (key : CellKey) (id : StackId) : Option RegistryId :=
  (w.stack? id).map key.registry

theorem lt_length_of_home {w : World n α} {id : StackId} {r : RegistryId}
    (hhome : w.home? id = some r) : id < w.stacks.length := by
  apply Nat.lt_of_not_le
  intro hle
  rw [home?, stack?_eq_none_of_length_le hle] at hhome
  cases hhome

theorem Aside.knows {w v : World n α} {touched : List (Handle n)} (haside : w.Aside touched v)
    {a : Address} (hknows : w.Knows a) : v.Knows a := by
  cases a with
  | node node =>
    show node < v.heap.size
    rw [haside.heap]
    exact hknows
  | object o =>
    show ∃ object, v.objects[o]? = some object ∧ object.retired
    rw [haside.objects]
    exact hknows

theorem knows_start {w : World n α} {entry : Entry α} {a : Address} (hknows : w.Knows a) :
    (w.start entry).Knows a := by
  cases a with
  | node node =>
    show node < (w.start entry).heap.size
    rw [size_start]
    exact hknows
  | object o =>
    show ∃ object, (w.start entry).objects[o]? = some object ∧ object.retired
    rw [objects_start]
    exact hknows

theorem knows_markRetired {w : World n α} {o : ObjectId} {a : Address} (hknows : w.Knows a) :
    (w.markRetired o).Knows a := by
  cases a with
  | node node => exact hknows
  | object p =>
    obtain ⟨object, hobject, hretired⟩ := hknows
    by_cases hp : o = p
    · exact ⟨{ object with retired := true }, by simp [markRetired, hobject, hp], rfl⟩
    · exact ⟨object, by simp [markRetired, hobject, hp], hretired⟩

end World

namespace Effect

/-- What was given out once stays given out. -/
theorem knows (heffect : Effect s marks t) {a : Address} (hknows : s.world.Knows a) :
    t.world.Knows a := by
  cases heffect with
  | aside haside => exact haside.knows hknows
  | addObject program =>
    cases a with
    | node node => exact hknows
    | object o =>
      obtain ⟨object, hobject, hretired⟩ := hknows
      refine ⟨object, ?_, hretired⟩
      rw [World.addObject, List.getElem?_append_left (List.getElem?_eq_some_iff.mp hobject).1]
      exact hobject
  | push hstack value =>
    cases a with
    | node node =>
      show node < (s.world.heap.alloc _).2.size
      rw [Heap.size_alloc]
      exact Nat.lt_succ_of_lt hknows
    | object o => exact hknows
  | handOver => exact World.knows_markRetired hknows
  | free => exact World.knows_start hknows
  | sweep => exact World.knows_start hknows
  | discard =>
    apply World.knows_start
    cases a <;> exact hknows
  | detach r =>
    obtain ⟨registries, hdetach, -⟩ := s.world.detachLimbo_eq r
    show (s.world.detachLimbo r).2.Knows a
    rw [hdetach]
    cases a <;> exact hknows
  | _ => cases a <;> exact hknows

theorem length_registries (heffect : Effect s marks t) :
    s.world.registries.length ≤ t.world.registries.length := by
  cases heffect with
  | aside haside => exact Nat.le_of_eq haside.length_registries.symm
  | addRegistry => simp [World.addRegistry]
  | park => exact Nat.le_of_eq (World.length_registries_modifyLimbo _ _ _).symm
  | putBack => exact Nat.le_of_eq (World.length_registries_modifyLimbo _ _ _).symm
  | countFreed => exact Nat.le_of_eq (World.length_registries_modifyLimbo _ _ _).symm
  | free => exact Nat.le_of_eq (congrArg List.length (World.registries_start _ _)).symm
  | sweep => exact Nat.le_of_eq (congrArg List.length (World.registries_start _ _)).symm
  | discard =>
    exact Nat.le_of_eq (congrArg List.length (World.registries_start (s.world.setHead _ _) _)).symm
  | detach r =>
    obtain ⟨registries, hdetach, hlength⟩ := s.world.detachLimbo_eq r
    show _ ≤ (s.world.detachLimbo r).2.registries.length
    rw [hdetach]
    exact Nat.le_of_eq hlength.symm
  | _ => exact Nat.le_refl _

/-- A stack keeps its registry until it is dropped, and a new stack has a registry that exists. -/
theorem home? (heffect : Effect s marks t) (id : StackId) :
    t.world.home? id = s.world.home? id ∨ .drop id ∈ marks ∧ t.world.home? id = none ∨
      id = s.world.stacks.length ∧ ∃ r < s.world.registries.length, t.world.home? id = some r := by
  have setHead (j : StackId) (head : Option NodeId) :
      (s.world.setHead j head).home? id = s.world.home? id := by
    rw [World.home?, World.stack?_setHead]
    split
    · rw [Option.map_map]
      rfl
    · rfl
  cases heffect with
  | aside haside => exact Or.inl (congrArg _ (haside.stack? id))
  | addStack hregistry =>
    by_cases hid : id = s.world.stacks.length
    · refine Or.inr (Or.inr ⟨hid, _, World.lt_length_of_registryAt? hregistry, ?_⟩)
      rw [World.home?, World.stack?_addStack, if_pos hid]
      rfl
    · left
      rw [World.home?, World.stack?_addStack, if_neg hid]
      rfl
  | push hstack value => exact Or.inl (setHead _ _)
  | unlink => exact Or.inl (setHead _ _)
  | free => exact Or.inl (congrArg _ (World.stack?_start _ _ id))
  | sweep => exact Or.inl (congrArg _ (World.stack?_start _ _ id))
  | discard => exact Or.inl ((congrArg _ (World.stack?_start _ _ id)).trans (setHead _ _))
  | detach r =>
    obtain ⟨registries, hdetach, -⟩ := s.world.detachLimbo_eq r
    left
    show (s.world.detachLimbo r).2.home? id = _
    rw [hdetach]
    rfl
  | forget j =>
    by_cases hj : j = id
    · subst hj
      refine Or.inr (Or.inl ⟨List.mem_cons_self, ?_⟩)
      rw [World.home?, World.stack?_forget, if_pos rfl]
      rfl
    · left
      rw [World.home?, World.stack?_forget, if_neg hj]
      rfl
  | _ => exact Or.inl rfl

theorem length_stacks (heffect : Effect s marks t) :
    s.world.stacks.length ≤ t.world.stacks.length := by
  have setHead (j : StackId) (head : Option NodeId) :
      s.world.stacks.length ≤ (s.world.setHead j head).stacks.length :=
    Nat.le_of_eq (List.length_modify _ _ _).symm
  cases heffect with
  | aside haside => exact Nat.le_of_eq (congrArg _ haside.stacks.symm)
  | addStack _ => simp [World.addStack]
  | push => exact setHead _ _
  | unlink => exact setHead _ _
  | free => exact Nat.le_of_eq (congrArg _ (World.stacks_start _ _).symm)
  | sweep => exact Nat.le_of_eq (congrArg _ (World.stacks_start _ _).symm)
  | discard =>
    exact Nat.le_trans (setHead _ _) (Nat.le_of_eq (congrArg _ (World.stacks_start _ _).symm))
  | detach r =>
    obtain ⟨registries, hdetach, -⟩ := s.world.detachLimbo_eq r
    exact Nat.le_of_eq (by rw [hdetach])
  | forget id => simp [World.forget]
  | _ => exact Nat.le_refl _

theorem tidy (heffect : Effect s marks t) (hs : s.Sound) : t.world.Tidy := by
  cases heffect with
  | aside haside => exact hs.tidy.congr haside.stacks haside.heap
  | addStack _ => exact hs.tidy.addStack _
  | push hstack value => exact hs.tidy.push hstack value
  | unlink hstack htop => exact hs.tidy.setHead hstack htop
  | @free r entry taken htaken _ =>
    have hmem : entry.address ∈ s.addresses (.taken r) := by simp [Stock.addresses, htaken]
    exact hs.tidy.start (hs.not_linked hmem (by simp))
  | @sweep sweep sweeps entry rest hsweeps _ hrest _ =>
    have hmem : entry.address ∈ s.addresses (.draining sweep.registry) := by
      simp [Stock.addresses, rests_cons, hsweeps, hrest]
    exact hs.tidy.start (hs.not_linked hmem (by simp))
  | @discard id stack node contents hstack htop =>
    apply (hs.tidy.setHead hstack htop).start
    intro j link hlink heq
    exact not_linked_setHead hs hstack htop j link hlink (Address.node.inj heq)
  | forget id => exact hs.tidy.forget id
  | detach r =>
    obtain ⟨registries, hdetach, -⟩ := s.world.detachLimbo_eq r
    show (s.world.detachLimbo r).2.Tidy
    rw [hdetach]
    exact hs.tidy.congr rfl rfl
  | _ => exact hs.tidy.congr rfl rfl

theorem taken (heffect : Effect s marks t) (hs : s.Sound) :
    ∀ x ∈ t.taken, x.1 < t.world.registries.length := by
  intro x hmem
  have hle := heffect.length_registries
  have hold (hmem : x ∈ s.taken) : x.1 < t.world.registries.length :=
    Nat.lt_of_lt_of_le (hs.taken x hmem) hle
  cases heffect with
  | unlink hstack _ =>
    rcases List.mem_cons.mp hmem with rfl | hmem
    · exact hs.homes _ _ hstack
    · exact hold hmem
  | handOver hregistry _ _ =>
    rcases List.mem_cons.mp hmem with rfl | hmem
    · exact World.lt_length_of_registryAt? hregistry
    · exact hold hmem
  | park htaken => exact hold (htaken ▸ List.mem_cons_of_mem _ hmem)
  | free htaken => exact hold (htaken ▸ List.mem_cons_of_mem _ hmem)
  | _ => exact hold hmem

theorem sweeps (heffect : Effect s marks t) (hs : s.Sound) :
    ∀ sweep ∈ t.sweeps, sweep.rest ≠ [] ∨ sweep.current.isSome →
      sweep.registry < t.world.registries.length := by
  intro x hmem hx
  have hle := heffect.length_registries
  have hold (hmem : x ∈ s.sweeps) : x.registry < t.world.registries.length :=
    Nat.lt_of_lt_of_le (hs.sweeps x hmem hx) hle
  have hfirst (sweep : Sweep α) {sweeps : List (Sweep α)} (hsweeps : s.sweeps = sweep :: sweeps)
      (h : sweep.rest ≠ [] ∨ sweep.current.isSome) :
      sweep.registry < t.world.registries.length :=
    Nat.lt_of_lt_of_le (hs.sweep_lt hsweeps h) hle
  cases heffect with
  | detach r =>
    rcases List.mem_cons.mp hmem with rfl | hmem
    · rcases hx with hx | hx
      · apply Nat.lt_of_lt_of_le _ hle
        apply Nat.lt_of_not_le
        intro hout
        apply hx
        rw [World.detachLimbo_fst, World.limbo_of_length_le hout]
      · cases hx
    · exact hold hmem
  | @putBack sweep sweeps entry rest hsweeps hrest =>
    rcases List.mem_cons.mp hmem with rfl | hmem
    · exact hfirst sweep hsweeps (Or.inl (by simp [hrest]))
    · exact hold (hsweeps ▸ List.mem_cons_of_mem _ hmem)
  | @sweep sweep sweeps entry rest hsweeps _ hrest _ =>
    rcases List.mem_cons.mp hmem with rfl | hmem
    · exact hfirst sweep hsweeps (Or.inl (by simp [hrest]))
    · exact hold (hsweeps ▸ List.mem_cons_of_mem _ hmem)
  | @countFreed sweep sweeps hsweeps hcurrent =>
    rcases List.mem_cons.mp hmem with rfl | hmem
    · exact hfirst sweep hsweeps (Or.inr hcurrent)
    · exact hold (hsweeps ▸ List.mem_cons_of_mem _ hmem)
  | finish hsweeps => exact hold (hsweeps ▸ List.mem_cons_of_mem _ hmem)
  | cut hsweeps => exact hold (hsweeps ▸ List.mem_cons_of_mem _ hmem)
  | _ => exact hold hmem

end Effect

/-! ## The counter of a registry -/

/-- Whether the counter of a registry counts what is in a place. -/
def Place.waits (r : RegistryId) : Place → Bool
  | .parked q | .draining q | .lost q => q = r
  | _ => false

theorem sum_waits (place : Option Place) (r : RegistryId) (k : Nat) :
    (if place = some (.parked r) then k else 0) + (if place = some (.draining r) then k else 0) +
        (if place = some (.lost r) then k else 0) =
      if place.any (·.waits r) then k else 0 := by
  cases place with
  | none => rfl
  | some p => cases p <;> simp [Place.waits]

theorem Shift.waiting (hshift : Shift s t moved src dst) (hroute : Route s marks moved src dst)
    (r : RegistryId) :
    (if src.any (·.waits r) then moved.length else 0) + t.waiting r + s.uncounted r =
      (if dst.any (·.waits r) then moved.length else 0) + s.waiting r + t.uncounted r := by
  have hparked := hshift.length hroute (.parked r)
  have hdraining := hshift.length hroute (.draining r)
  have hlost := hshift.length hroute (.lost r)
  rw [← sum_waits src r, ← sum_waits dst r, Stock.waiting, Stock.waiting]
  omega

namespace Effect

theorem waiting_park {q : RegistryId} {entry : Entry α} {taken : List (RegistryId × Entry α)}
    (htaken : s.taken = (q, entry) :: taken) (hlt : q < s.world.registries.length)
    (r : RegistryId) :
    ({ s with world := s.world.modifyLimbo q (·.park entry), taken } : Stock n α).waiting r =
      s.waiting r + if q = r then 1 else 0 := by
  have hwaiting := (shift_park htaken hlt).waiting (.park q entry.address) r
  simp only [Option.any_some, Place.waits, decide_eq_true_eq, List.length_singleton,
    Bool.false_eq_true, if_false] at hwaiting
  simp only [Stock.uncounted] at hwaiting
  have hcutShort : (s.world.modifyLimbo q (·.park entry)).cutShort = s.world.cutShort := rfl
  rw [hcutShort] at hwaiting
  omega

/-- An entry whose deleter a sweep starts waits on until the sweep has counted it. -/
theorem waiting_sweep (hs : s.Sound) {sweep : Sweep α} {sweeps : List (Sweep α)}
    {entry : Entry α} {rest : List (Entry α)} (hsweeps : s.sweeps = sweep :: sweeps)
    (hcurrent : sweep.current = none) (hrest : sweep.rest = entry :: rest)
    (hfree : s.world.isProtected sweep.registry (some entry.address) = false) (r : RegistryId) :
    ({ s with
        world := s.world.start entry
        sweeps := { sweep with current := some entry, rest } :: sweeps } : Stock n α).waiting r =
      s.waiting r := by
  have hwaiting := (shift_sweep hs hsweeps hrest).waiting (.sweep hfree) r
  simp only [Option.any_some, Place.waits, decide_eq_true_eq, List.length_singleton,
    Bool.false_eq_true, if_false] at hwaiting
  simp only [Stock.uncounted, hsweeps, List.countP_cons, Sweep.Owes, hcurrent,
    World.cutShort_start] at hwaiting
  simp only [Option.isSome_none, Option.isSome_some, Bool.false_eq_true, and_false, and_true,
    decide_false, decide_eq_true_eq, if_false] at hwaiting
  omega

theorem waiting_countFreed {sweep : Sweep α} {sweeps : List (Sweep α)}
    (hsweeps : s.sweeps = sweep :: sweeps) (hcurrent : sweep.current.isSome)
    (hlt : sweep.registry < s.world.registries.length) (r : RegistryId) :
    s.waiting r =
      ({ s with
          world := s.world.modifyLimbo sweep.registry (·.countFreed)
          sweeps := { sweep with current := none, freed := sweep.freed + 1 } :: sweeps } :
        Stock n α).waiting r + if sweep.registry = r then 1 else 0 := by
  have hwaiting := (shift_countFreed hsweeps hlt).waiting (.stay []) r
  have hcutShort : (s.world.modifyLimbo sweep.registry (·.countFreed)).cutShort =
    s.world.cutShort := rfl
  simp only [Stock.uncounted, hsweeps, List.countP_cons, Sweep.Owes, hcurrent,
    hcutShort] at hwaiting
  simp only [Option.any_none, Option.isSome_none, Bool.false_eq_true, and_false, and_true,
    decide_false, decide_eq_true_eq, if_false] at hwaiting
  omega

/-- The counter keeps up with the number of waiting entries. -/
theorem pending (heffect : Effect s marks t) (hs : s.Sound) (r : RegistryId) :
    (t.world.limbo r).pending = UInt64.ofNat (t.waiting r) := by
  have hpending := hs.pending r
  -- Most effects change neither the counter nor the number.
  have still {marks : List (Mark n)} {moved : List Address} {src dst : Option Place}
      (hshift : Shift s t moved src dst) (hroute : Route s marks moved src dst)
      (hwaits : src.any (·.waits r) = dst.any (·.waits r))
      (hsame : (t.world.limbo r).pending = (s.world.limbo r).pending)
      (huncounted : t.uncounted r = s.uncounted r) :
      (t.world.limbo r).pending = UInt64.ofNat (t.waiting r) := by
    have hwaiting := hshift.waiting hroute r
    rw [hwaits] at hwaiting
    rw [hsame, hpending, show t.waiting r = s.waiting r by omega]
  cases heffect with
  | aside haside =>
    refine still (shift_aside haside) (.stay []) rfl (congrArg _ (haside.limbo r)) ?_
    simp only [Stock.uncounted, haside.cutShort]
  | addRegistry =>
    exact still shift_addRegistry (.stay []) rfl (congrArg _ (s.world.limbo_addRegistry r)) rfl
  | addStack _ => exact still (shift_addStack _) (.stay []) rfl rfl rfl
  | addObject program => exact still (shift_addObject program) (.stay []) rfl rfl rfl
  | push hstack value => exact still (shift_push hs hstack value) (.push _) rfl rfl rfl
  | unlink hstack htop => exact still (shift_unlink hs hstack htop) (.unlink hstack _) rfl rfl rfl
  | @handOver q o object _ hobject hfresh =>
    refine still (shift_handOver hobject) (.handOver ?_ q) rfl rfl rfl
    exact not_knows_of_fresh hobject hfresh
  | @park q entry taken htaken =>
    have hlt := hs.taken_lt htaken
    show ((s.world.modifyLimbo q (·.park entry)).limbo r).pending = _
    rw [World.limbo_modifyLimbo hlt, waiting_park htaken hlt]
    by_cases hq : q = r
    · rw [if_pos hq, if_pos hq, UInt64.ofNat_add, ← hpending]
      rfl
    · rw [if_neg hq, if_neg hq, hpending, Nat.add_zero]
  | free htaken hfree =>
    exact still (shift_free hs htaken) (.free hfree) rfl
      (congrArg _ (s.world.limbo_start _ r)) (by simp [Stock.uncounted, World.cutShort_start])
  | detach q =>
    obtain ⟨registries, hdetach, -⟩ := s.world.detachLimbo_eq q
    refine still (shift_detach q) (.detach q) rfl ?_ ?_
    · show ((s.world.detachLimbo q).2.limbo r).pending = _
      rw [World.limbo_detachLimbo]
      split <;> rfl
    · simp [Stock.uncounted, hdetach, Sweep.Owes]
  | @putBack sweep sweeps entry rest hsweeps hrest =>
    have hlt := hs.sweep_lt hsweeps (Or.inl (by simp [hrest]))
    refine still (shift_putBack hsweeps hrest hlt) (.putBack _ entry.address) rfl ?_ ?_
    · show ((s.world.modifyLimbo sweep.registry (·.putBack entry)).limbo r).pending = _
      rw [World.limbo_modifyLimbo hlt]
      split <;> rfl
    · simp only [Stock.uncounted, hsweeps, List.countP_cons]
      rfl
  | @sweep sweep sweeps entry rest hsweeps hcurrent hrest hfree =>
    show ((s.world.start entry).limbo r).pending = _
    rw [World.limbo_start, hpending, waiting_sweep hs hsweeps hcurrent hrest hfree]
  | @countFreed sweep sweeps hsweeps hcurrent =>
    have hlt := hs.sweep_lt hsweeps (Or.inr hcurrent)
    have hwaiting := waiting_countFreed hsweeps hcurrent hlt r
    show ((s.world.modifyLimbo sweep.registry (·.countFreed)).limbo r).pending = _
    rw [World.limbo_modifyLimbo hlt]
    rw [hwaiting] at hpending
    by_cases hr : sweep.registry = r
    · rw [if_pos hr, UInt64.ofNat_add] at hpending
      rw [if_pos hr]
      show (s.world.limbo r).pending - 1 = _
      rw [hpending]
      exact UInt64.add_sub_cancel _ _
    · rw [if_neg hr, Nat.add_zero] at hpending
      rw [if_neg hr, hpending]
  | finish hsweeps hcurrent hrest =>
    refine still (shift_finish hsweeps hrest) (.stay []) rfl rfl ?_
    simp [Stock.uncounted, hsweeps, Sweep.Owes, hcurrent]
  | cut hsweeps =>
    refine still (shift_cut hsweeps) (.cut _ _) rfl rfl ?_
    simp only [Stock.uncounted, hsweeps, List.countP_cons]
    omega
  | discard hstack htop =>
    exact still (shift_discard hs hstack htop) (.discard _ _) rfl
      (congrArg _ (World.limbo_start (s.world.setHead _ _) _ r))
      (by simp [Stock.uncounted, World.cutShort_start, World.setHead])
  | forget id => exact still (shift_forget id) (.forget id) rfl rfl rfl

theorem known (heffect : Effect s marks t) (hs : s.Sound) :
    ∀ p, ∀ a ∈ t.addresses p, t.world.Knows a := by
  obtain ⟨moved, src, dst, hroute, hshift⟩ := heffect.shift hs
  intro p a hmem
  have hold {q : Place} (hmem : a ∈ s.addresses q) : t.world.Knows a :=
    heffect.knows (hs.known q a hmem)
  have hmoved (hmem : a ∈ moved) : t.world.Knows a := by
    cases src with
    | none => exact hshift.known rfl a hmem
    | some q => exact hold (hshift.left q rfl ▸ List.mem_append_left _ hmem)
  by_cases hsrc : src = some p
  · exact hold (hshift.left p hsrc ▸ List.mem_append_right moved hmem)
  · by_cases hdst : dst = some p
    · rw [hshift.entered p hdst] at hmem
      rcases List.mem_append.mp hmem with hmem | hmem
      · exact hmoved hmem
      · exact hold hmem
    · rw [hshift.stayed p hsrc hdst] at hmem
      exact hold hmem

theorem homes (heffect : Effect s marks t) (hs : s.Sound) (id : StackId) (stack : Stack)
    (hstack : t.world.stack? id = some stack) :
    stack.registry < t.world.registries.length := by
  have hhome : t.world.home? id = some stack.registry := by
    rw [World.home?, hstack]
    rfl
  apply Nat.lt_of_lt_of_le _ heffect.length_registries
  rcases heffect.home? id with hsame | ⟨-, hgone⟩ | ⟨-, r, hlt, hnew⟩
  · rw [hsame] at hhome
    obtain ⟨old, hold, hregistry⟩ := Option.map_eq_some_iff.mp hhome
    rw [← hregistry]
    exact hs.homes id old hold
  · rw [hhome] at hgone
    cases hgone
  · rw [hhome] at hnew
    rw [Option.some.inj hnew]
    exact hlt

/-- Soundness is kept by every effect. -/
theorem sound (heffect : Effect s marks t) (hs : s.Sound) : t.Sound := by
  obtain ⟨moved, src, dst, hroute, hshift⟩ := heffect.shift hs
  exact {
    tidy := heffect.tidy hs
    apart := hshift.apart hs hroute
    known := heffect.known hs
    homes := heffect.homes hs
    taken := heffect.taken hs
    sweeps := heffect.sweeps hs
    pending := heffect.pending hs }

end Effect

theorem Effects.sound (heffects : Effects s marks t) (hs : s.Sound) : t.Sound := by
  induction heffects with
  | refl => exact hs
  | tail _ heffect ih => exact heffect.sound ih

/-- What each effect on a sound stock keeps, a row of effects keeps. -/
theorem Effects.kept (heffects : Effects s marks t) (hs : s.Sound) {P : Stock n α → Prop}
    (hkept : ∀ {u v : Stock n α}, ∀ marks' ⊆ marks, Effect u marks' v → u.Sound → P u → P v)
    (hP : P s) : P t := by
  induction heffects with
  | refl => exact hP
  | tail hbefore heffect ih =>
    have hbefore' := ih fun marks' hsub ↦
      hkept marks' (List.subset_append_of_subset_left _ hsub)
    exact hkept _ (List.subset_append_right _ _) heffect (hbefore.sound hs) hbefore'

def Stock.empty : Stock n α := ⟨{}, [], []⟩

theorem Stock.sound_empty : (Stock.empty : Stock n α).Sound where
  tidy id stack hstack := by cases hstack
  apart a p q _ := by cases p <;> cases q <;> exact Nat.zero_le 1
  known p a hmem := by cases p <;> cases hmem
  homes id stack hstack := by cases hstack
  taken _ hmem := by cases hmem
  sweeps _ hmem := by cases hmem
  pending r := rfl

end Reclaim.Hazard
