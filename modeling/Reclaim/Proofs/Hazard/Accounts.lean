import Reclaim.Proofs.Hazard.Custody
import Reclaim.Stress

/-!
# Accounts of what was retired

Nothing that was retired is lost track of or freed twice, whatever deleters do. Sweeps may be nested
and faults may cut several of them short at once, yet every retired address is in one place, and the
counter of its registry says how many entries wait there, run in a sweep, or were left behind by
faults.
-/

namespace Reclaim.Hazard

variable {n : Nat} {α : Type} {s t : Stock n α} {marks : List (Mark n)} {a : Address}
  {r : RegistryId}

/-- The address is in this place, once, and in no other. -/
def Stock.Only (s : Stock n α) (a : Address) (p : Place) : Prop :=
  ∀ q, s.count a q = if q = p then 1 else 0

theorem Stock.Sound.only_of_mem (hs : s.Sound) {p : Place} (hmem : a ∈ s.addresses p) :
    s.Only a p := by
  intro q
  by_cases hq : q = p
  · subst hq
    rw [if_pos rfl]
    exact Nat.le_antisymm (hs.count_le_one a q) (List.count_pos_iff.mpr hmem)
  · rw [if_neg hq]
    exact List.count_eq_zero_of_not_mem (hs.not_mem_of_mem hmem (Ne.symm hq))

def Place.Final : Place → Prop
  | .lost _ | .freed => True
  | _ => False

/-- What was lost once is never taken up again, and what was freed stays so. -/
theorem Effect.remains (heffect : Effect s marks t) (hs : s.Sound) {p : Place} (hp : p.Final)
    (hmem : a ∈ s.addresses p) : a ∈ t.addresses p := by
  obtain ⟨moved, src, dst, hroute, hshift⟩ := heffect.shift hs
  obtain ⟨q, rfl, hq⟩ := hshift.follow (P := (· = p))
    (fun q hsrc hq _ ↦ by subst hsrc hq; cases hroute <;> cases hp) ⟨p, rfl, hmem⟩
  exact hq

theorem Effects.remains (heffects : Effects s marks t) (hs : s.Sound) {p : Place} (hp : p.Final)
    (hmem : a ∈ s.addresses p) : a ∈ t.addresses p :=
  heffects.kept (P := (a ∈ ·.addresses p)) hs (fun _ _ heffect hs ↦ heffect.remains hs hp) hmem

/-- Only what is left of a sweep that is cut short gets lost. -/
theorem Effect.lost_cases (heffect : Effect s marks t) (hs : s.Sound)
    (hmem : a ∈ t.addresses (.lost r)) :
    a ∈ s.addresses (.lost r) ∨ ∃ rest, .cut r rest ∈ marks ∧ a ∈ rest := by
  obtain ⟨moved, src, dst, hroute, hshift⟩ := heffect.shift hs
  by_cases hdst : dst = some (.lost r)
  · rw [hshift.entered _ hdst] at hmem
    subst hdst
    cases hroute with
    | cut q moved =>
      refine (List.mem_append.mp hmem).symm.imp_right fun hmem ↦ ?_
      exact ⟨moved, List.mem_singleton_self _, hmem⟩
  · by_cases hsrc : src = some (.lost r)
    · subst hsrc
      cases hroute
    · exact Or.inl (hshift.stayed _ hsrc hdst ▸ hmem)

theorem Effects.lost_cases (heffects : Effects s marks t) (hs : s.Sound)
    (hmem : a ∈ t.addresses (.lost r)) :
    a ∈ s.addresses (.lost r) ∨ ∃ rest, .cut r rest ∈ marks ∧ a ∈ rest := by
  refine heffects.kept (P := fun u ↦ a ∈ u.addresses (.lost r) →
    a ∈ s.addresses (.lost r) ∨ ∃ rest, .cut r rest ∈ marks ∧ a ∈ rest) hs ?_ Or.inl hmem
  intro u v marks' hsub heffect hu hbefore hafter
  rcases heffect.lost_cases hu hafter with hmem | ⟨rest, hcut, hmem⟩
  · exact hbefore hmem
  · exact Or.inr ⟨rest, hsub hcut, hmem⟩

theorem Effect.cutShort (heffect : Effect s marks t) (hcut : ∀ r rest, .cut r rest ∉ marks) :
    t.world.cutShort = s.world.cutShort := by
  cases heffect with
  | aside haside => exact haside.cutShort
  | free => exact World.cutShort_start _ _
  | sweep => exact World.cutShort_start _ _
  | discard => exact World.cutShort_start _ _
  | cut hsweeps => exact absurd (List.mem_singleton_self _) (hcut _ _)
  | detach q =>
    obtain ⟨registries, hdetach, -⟩ := s.world.detachLimbo_eq q
    show (s.world.detachLimbo q).2.cutShort = _
    rw [hdetach]
  | _ => rfl

theorem Effects.cutShort (heffects : Effects s marks t) (hs : s.Sound)
    (hcut : ∀ r rest, .cut r rest ∉ marks) : t.world.cutShort = s.world.cutShort := by
  refine heffects.kept (P := (·.world.cutShort = s.world.cutShort)) hs ?_ rfl
  intro u v marks' hsub heffect _ hbefore
  exact (heffect.cutShort fun r rest hmem ↦ hcut r rest (hsub hmem)).trans hbefore

/-- Sweeps are cut short by faults on their way out of a command. -/
theorem Move.cut_mem_marks {move : Move n α} {rest : List Address}
    (hmem : .cut r rest ∈ move.marks) : move.deed = .proceed ∧ move.turn.Faulted ∧
      ∀ a ∈ rest, a ∈ move.before.stock.addresses (.draining r) := by
  obtain ⟨⟨w, t, frames⟩, deed, turn⟩ := move
  cases deed with
  | proceed =>
    rcases List.mem_append.mp hmem with hmem | hmem
    · simp at hmem
    · simp only [Turn.unwound] at hmem
      split at hmem
      · next world fault =>
        refine ⟨rfl, trivial, fun a ha ↦ ?_⟩
        obtain ⟨frame, hframe, hmark⟩ := List.mem_flatMap.mp hmem
        cases frame with
        | deleter rest => cases hmark
        | pop popping => simp [Frame.marks] at hmark
        | sweep sweep =>
          cases List.mem_singleton.mp hmark
          have hsweep : sweep ∈ frames.filterMap Frame.sweep? :=
            List.mem_filterMap.mpr ⟨_, List.mem_of_mem_tail hframe, rfl⟩
          exact List.mem_flatMap.mpr ⟨sweep, hsweep, by simpa using ha⟩
      · cases hmem
  | dropStack id =>
    simp only [Move.marks, List.mem_cons, reduceCtorEq, false_or] at hmem
    split at hmem <;> simp at hmem
  | _ => simp [Move.marks] at hmem

section

variable {m m' : Machine n α} {moves : List (Move n α)}

/-- Between commands, and if no fault cut a sweep short, just the parked entries wait. -/
theorem Machine.waiting_of_idle (hframes : m.frames = []) (hcutShort : m.world.cutShort = [])
    (r : RegistryId) : m.stock.waiting r = (m.stock.addresses (.parked r)).length := by
  obtain ⟨w, t, frames⟩ := m
  obtain rfl : frames = [] := hframes
  have hlost : w.cutShort = [] := hcutShort
  simp [Stock.waiting, Stock.uncounted, Stock.addresses, Machine.stock, stockOf, rests, hlost]

variable [Destructor α]

theorem Run.remains (hrun : Run m moves m') (hm : m.Sound) {p : Place} (hp : p.Final)
    (hmem : a ∈ m.stock.addresses p) : a ∈ m'.stock.addresses p :=
  hrun.kept (P := (a ∈ ·.addresses p)) hm (fun _ _ _ _ heffects hs ↦ heffects.remains hs hp) hmem

/-- What got lost in a run was in a sweep that a fault cut short. -/
theorem Run.lost_cases (hrun : Run m moves m') (hm : m.Sound)
    (hmem : a ∈ m'.stock.addresses (.lost r)) : a ∈ m.stock.addresses (.lost r) ∨
      ∃ move ∈ moves, move.turn.Faulted ∧ a ∈ move.before.stock.addresses (.draining r) := by
  induction hrun with
  | start => exact Or.inl hmem
  | @move moves pre deed turn hrun hcarry ih =>
    obtain ⟨marks, hmarks, heffects, -⟩ := (hrun.sound hm).marked hcarry
    rw [turn.stock_machine] at hmem
    rcases heffects.lost_cases (hrun.sound hm).stock hmem with hmem | ⟨rest, hcut, hmem⟩
    · refine (ih hmem).imp_right fun ⟨earlier, hearlier, hfault⟩ ↦ ?_
      exact ⟨earlier, List.mem_append_left _ hearlier, hfault⟩
    · obtain ⟨-, hfaulted, hdraining⟩ := Move.cut_mem_marks (hmarks hcut)
      exact Or.inr ⟨_, List.mem_append_right _ List.mem_cons_self, hfaulted, hdraining a hmem⟩

/-- No sweep is cut short if no step of a deleter faults. -/
theorem Run.cutShort (hrun : Run m moves m') (hm : m.Sound)
    (hmoves : ∀ move ∈ moves, move.deed = .proceed → ¬ move.turn.Faulted) :
    m'.world.cutShort = m.world.cutShort := by
  refine hrun.kept (P := (·.world.cutShort = m.world.cutShort)) hm ?_ rfl
  intro move hmove marks hmarks heffects hs hbefore
  refine (heffects.cutShort hs fun r rest hmem ↦ ?_).trans hbefore
  obtain ⟨hdeed, hfaulted, -⟩ := Move.cut_mem_marks (hmarks hmem)
  exact hmoves move hmove hdeed hfaulted

/-- At every moment everything that was retired to a registry is in one place: its deleter was
started, it is parked, it is still to come in a running sweep, or it was still to come in one that a
fault ended, and then it stays unfreed. The counter of a registry is the number of entries that are
parked, still to come, lost, or freed by a sweep that did not count them. -/
theorem retired_in_one_place (hrun : Run Machine.empty moves m) :
    (∀ r a, (∃ move ∈ moves, move.Retires r a) →
      m.stock.Only a .freed ∨ m.stock.Only a (.parked r) ∨ m.stock.Only a (.draining r) ∨
        m.stock.Only a (.lost r) ∧
          (∃ move ∈ moves, move.turn.Faulted ∧ a ∈ move.before.stock.addresses (.draining r)) ∧
          ∀ moves' m', Run m moves' m' → m'.stock.Only a (.lost r)) ∧
    (∀ r, (m.world.limbo r).pending = UInt64.ofNat (m.stock.waiting r) ∧
      (m.stock.waiting r < UInt64.size → (m.world.limbo r).pending.toNat = m.stock.waiting r)) ∧
    ((∀ move ∈ moves, move.deed = .proceed → ¬ move.turn.Faulted) → m.frames = [] →
      ∀ r, m.stock.waiting r = (m.stock.addresses (.parked r)).length) := by
  have hempty : (Machine.empty : Machine n α).Sound := Machine.sound_empty
  have hm := hrun.sound hempty
  refine ⟨?_, ?_, ?_⟩
  · rintro r a ⟨move, hmem, hretires⟩
    obtain ⟨p, hp, hplace⟩ := hrun.keeps hempty hmem hretires
    have honly := hm.stock.only_of_mem hplace
    cases p with
    | linked id => exact hp.elim
    | taken q => exact hp.elim
    | freed => exact Or.inl honly
    | parked q => exact Or.inr (Or.inl (hp ▸ honly))
    | draining q => exact Or.inr (Or.inr (Or.inl (hp ▸ honly)))
    | lost q =>
      obtain rfl : q = r := hp
      refine Or.inr (Or.inr (Or.inr ⟨honly, ?_, fun moves' m' hrun' ↦ ?_⟩))
      · exact (hrun.lost_cases hempty hplace).resolve_left nofun
      · exact (hrun'.sound hm).stock.only_of_mem (hrun'.remains hm trivial hplace)
  · intro r
    have hpending : (m.world.limbo r).pending = UInt64.ofNat (m.stock.waiting r) :=
      hm.stock.pending r
    refine ⟨hpending, fun hlt ↦ ?_⟩
    rw [hpending]
    exact UInt64.toNat_ofNat_of_lt' hlt
  · intro hmoves hframes r
    exact Machine.waiting_of_idle hframes (hrun.cutShort hempty hmoves) r

end

/-- Three of four objects are parked and then swept. The deleter of the first retires the object
that was not parked and sweeps in turn, that of the second faults, and the third is lost. -/
def faultInSweep : List (Deed Nat) :=
  [.addRegistry, .spawn, .addObject [.retire 0 (some 1), .reclaim 0], .addObject [],
    .addObject [.raise .nullRetired], .addObject [], .issue 0 (.tryClaim 0)] ++
  [3, 2, 0].flatMap (fun o ↦
    [.issue 0 (.publish 0 (some (.object o))), .issue 0 (.retire 0 (some o))]) ++
  [.issue 0 (.publish 0 none), .issue 0 (.reclaim 0)] ++ List.replicate 20 .proceed

def afterFault : Machine 1 Nat := (Machine.empty.follow faultInSweep).2

/-- The third object is lost, and the second, whose deleter faulted, was never counted. -/
theorem retired_in_one_place_fault :
    afterFault.stock.Only (.object 3) (.lost 0) ∧ (afterFault.world.limbo 0).pending = 2 := by
  obtain ⟨hplaces, hcounters, -⟩ :=
    retired_in_one_place ((Machine.empty : Machine 1 Nat).run_follow faultInSweep)
  have hlost : afterFault.stock.count (.object 3) (.lost 0) = 1 := by decide +kernel
  constructor
  · rcases hplaces 0 (.object 3) (by decide +kernel) with honly | honly | honly | honly
    · exact absurd (hlost.symm.trans (honly (.lost 0))) (by decide)
    · exact absurd (hlost.symm.trans (honly (.lost 0))) (by decide)
    · exact absurd (hlost.symm.trans (honly (.lost 0))) (by decide)
    · exact honly.1
  · have hwaiting : afterFault.stock.waiting 0 = 2 := by decide +kernel
    exact (hcounters 0).1.trans (congrArg UInt64.ofNat hwaiting)

end Reclaim.Hazard
