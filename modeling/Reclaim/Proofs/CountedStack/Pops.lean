import Reclaim.Proofs.CountedStack.Balance

/-!
# Whole pops

A whole pop takes the top level off the stack and leaves all levels below as they are, whether or
not its settlement faults. On a balanced ledger it is a claim, an unlinking and a settlement, each
an effect of its own; the only other thing that it can do is to fault, and then the node has been
claimed so often that its count has left the signed words. Dropping the stack repeats this.
-/

namespace Reclaim.CountedStack

variable {α : Type} {s t u : CountedStack α}

/-- The chain depends on the head and the linked nodes alone. -/
theorem WellLinked.levels_of_get?_eq (hs : s.WellLinked) (hhead : t.head = s.head)
    (hget : ∀ node ∈ s.linked, t.heap.get? node = s.heap.get? node) :
    t.levels = s.levels ∧ t.WellLinked := by
  have hpath : t.heap.IsPath (fun node ↦ node.next.node) t.head.node s.chain := by
    rw [hhead]
    apply hs.path.of_get?_eq
    intro link hmem
    exact hget link.1 (List.mem_map_of_mem hmem)
  obtain ⟨hchain, hlinked⟩ := chain_eq_of_isPath hpath hs.nodup
  exact ⟨by rw [levels, levels, counts, counts, hhead, hchain], hlinked⟩

/-- Settling touches no node but its own. -/
theorem settle_frame {claimed : Ref} {node : NodeId} {contents : Node α}
    (hnode : claimed.node = some node) (hget : s.heap.get? node = some contents) :
    (s.settle claimed).state.head = s.head ∧
      ∀ other, node ≠ other → (s.settle claimed).state.heap.get? other = s.heap.get? other := by
  have hcount (count : Int64) (other : NodeId) (hne : node ≠ other) :
      (s.setInternalCount node count).heap.get? other = s.heap.get? other := by
    rw [get?_setInternalCount, if_neg hne]
  rw [settle_eq hnode hget]
  split
  · exact ⟨rfl, hcount _⟩
  · split
    · exact ⟨rfl, hcount _⟩
    · refine ⟨finish_head s node _, ?_⟩
      intro other hne
      rw [get?_finish, if_neg hne]

theorem size_pop {top : NodeId} {contents : Node α} (hhead : s.head.node = some top)
    (hget : s.heap.get? top = some contents) : s.pop.state.heap.size = s.heap.size := by
  rw [pop_of_top hhead hget]
  split
  · rfl
  · exact settle_size _ _

/-- A pop that could claim the top node takes its level off, and nothing else. -/
theorem WellLinked.levels_pop (hs : s.WellLinked) {top : NodeId} (hhead : s.head.node = some top)
    (hroom : s.head.count.toNat ≠ 2 ^ 64 - 1) :
    ∃ contents, s.heap.get? top = some contents ∧
      s.levels = (s.head.count, top, contents) :: s.pop.state.levels ∧
      s.pop.state.WellLinked := by
  obtain ⟨contents, hget, hchain, hrest⟩ := hs.chain_eq_cons hhead
  have hnodup := hs.nodup
  rw [linked_eq_cons hchain, List.nodup_cons] at hnodup
  have hframe := settle_frame (s := { s with head := contents.next })
    (show (⟨s.head.node, s.head.count + 1⟩ : Ref).node = some top from hhead) hget
  have hstate : s.pop.state =
      ({ s with head := contents.next }.settle ⟨s.head.node, s.head.count + 1⟩).state := by
    rw [pop_of_top hhead hget, if_neg hroom]
  obtain ⟨hlevels, hlinked⟩ := hrest.levels_of_get?_eq (hstate ▸ hframe.1) (by
    intro node hmem
    rw [hstate]
    apply hframe.2
    rintro rfl
    exact hnodup.1 hmem)
  refine ⟨contents, hget, ?_, hlinked⟩
  rw [hlevels]
  exact levels_eq_cons hchain

theorem pop_of_full {top : NodeId} {contents : Node α} (hhead : s.head.node = some top)
    (hget : s.heap.get? top = some contents) (hfull : s.head.count.toNat = 2 ^ 64 - 1) :
    s.pop = ⟨s, [], .error .addOverflow⟩ := by
  rw [pop_of_top hhead hget, if_pos hfull]

theorem WellLinked.levels_pop_suffix (hs : s.WellLinked) :
    s.pop.state.levels <:+ s.levels ∧ s.pop.state.WellLinked := by
  cases hhead : s.head.node with
  | none =>
    rw [pop_of_null hhead]
    exact ⟨List.suffix_refl _, hs⟩
  | some top =>
    by_cases hfull : s.head.count.toNat = 2 ^ 64 - 1
    · obtain ⟨contents, hget, -, -⟩ := hs.chain_eq_cons hhead
      rw [pop_of_full hhead hget hfull]
      exact ⟨List.suffix_refl _, hs⟩
    · obtain ⟨contents, -, hlevels, hlinked⟩ := hs.levels_pop hhead hfull
      rw [hlevels]
      exact ⟨List.suffix_cons _ _, hlinked⟩

theorem WellLinked.levels_popAndDrop_suffix [Destructor α] (count : Nat) (hs : s.WellLinked) :
    (popAndDrop count s).state.levels <:+ s.levels ∧ (popAndDrop count s).state.WellLinked := by
  induction count generalizing s with
  | zero => exact ⟨List.suffix_refl _, hs⟩
  | succ count ih =>
    obtain ⟨hsuffix, hlinked⟩ := hs.levels_pop_suffix
    rw [popAndDrop_succ]
    split
    · exact ⟨hsuffix, hlinked⟩
    · exact ⟨hsuffix, hlinked⟩
    · split
      · exact ⟨hsuffix, hlinked⟩
      · obtain ⟨hrest, hlinked'⟩ := ih hlinked
        exact ⟨hrest.trans hsuffix, hlinked'⟩

theorem claimsOfPops_of_levels {off : List (UInt64 × NodeId × Node α)}
    (hlevels : s.levels = off ++ t.levels) :
    s.claimsOfPops t = off.map fun level ↦ ⟨⟨some level.2.1, level.1 + 1⟩, .settled⟩ := by
  rw [claimsOfPops, hlevels, List.length_append, Nat.add_sub_cancel, List.take_left]

theorem claimsOfPops_self (s : CountedStack α) : s.claimsOfPops s = [] :=
  claimsOfPops_of_levels (List.nil_append s.levels).symm

theorem claimsOfPops_trans (hst : t.levels <:+ s.levels) (htu : u.levels <:+ t.levels) :
    s.claimsOfPops u = s.claimsOfPops t ++ t.claimsOfPops u := by
  obtain ⟨off, hoff⟩ := hst
  obtain ⟨off', hoff'⟩ := htu
  have hall : s.levels = (off ++ off') ++ u.levels := by
    rw [List.append_assoc, hoff', hoff]
  calc
    s.claimsOfPops u = (off ++ off').map _ := claimsOfPops_of_levels hall
    _ = off.map _ ++ off'.map _ := List.map_append
    _ = s.claimsOfPops t ++ t.claimsOfPops u := by
      rw [claimsOfPops_of_levels hoff.symm, claimsOfPops_of_levels hoff'.symm]

namespace Ledger

/-- A fault of arithmetic that only a node with more than `2 ^ 63 - 2` claims can cause. -/
def Overruns {ρ : Type} (s : Ledger α) (result : Except Fault ρ) : Prop :=
  Overflows result ∧ ∃ node, 2 ^ 63 - 1 ≤ s.claimsOn node

theorem Overruns.map {ρ ρ' : Type} {s t : Ledger α} {result : Except Fault ρ} {f : ρ → ρ'}
    (hoverrun : s.Overruns result) (hclaims : t.claims = s.claims) : t.Overruns (result.map f) := by
  obtain ⟨hoverflow, node, hmany⟩ := hoverrun
  refine ⟨overflows_map.mpr hoverflow, node, ?_⟩
  rw [claimsOn, hclaims]
  exact hmany

theorem Overruns.mono {ρ : Type} {s t : Ledger α} {result : Except Fault ρ}
    (hoverrun : s.Overruns result) (hle : ∀ node, s.claimsOn node ≤ t.claimsOn node) :
    t.Overruns result := by
  obtain ⟨hoverflow, node, hmany⟩ := hoverrun
  exact ⟨hoverflow, node, Nat.le_trans hmany (hle node)⟩

theorem freedNodes_finish (s : CountedStack α) (node : NodeId) (count : Int64) :
    freedNodes (s.finish node count).events = if count = 0 then [node] else [] := by
  rw [finish_events]
  split <;> rfl

variable {s : Ledger α}

/-- The claim, the unlinking and the settlement of one whole pop. -/
theorem effects_pop {top : NodeId} {contents : Node α}
    (hhead : s.stack.head.node = some top) (hroom : s.stack.head.count.toNat ≠ 2 ^ 64 - 1)
    (hget : s.stack.heap.get? top = some contents) {delta : Int64}
    (hdelta : delta = (s.stack.head.count + 1).toInt64 - 2) :
    Effects s (if contents.internalCount + delta = 0 then [top] else [])
      { s with
        stack := ({ s.stack with head := contents.next }.finish top
          (contents.internalCount + delta)).state
        claims := s.claims ++ [⟨⟨s.stack.head.node, s.stack.head.count + 1⟩, .settled⟩] } := by
  -- The claim is entered as held, moved on to unlinked, and ends as the one that the pop enters.
  let ref : Ref := ⟨s.stack.head.node, s.stack.head.count + 1⟩
  let entered (stage : Stage) : List Claim := s.claims ++ [⟨ref, stage⟩]
  let unlinked : Ledger α :=
    { s with stack := { s.stack with head := contents.next }, claims := entered .unlinked }
  have hset (old new : Stage) : (entered old).set s.claims.length ⟨ref, new⟩ = entered new := by
    simp only [entered]
    rw [List.set_append_right _ _ (Nat.le_refl _), Nat.sub_self, List.set_cons_zero]
  have hlast (stage : Stage) : (entered stage)[s.claims.length]? = some ⟨ref, stage⟩ :=
    List.getElem?_concat_length
  have hclaim : Effect s [] s.afterClaim := .claim hhead hroom
  have hunlink : Effect s.afterClaim [] unlinked := by
    have heffect := Effect.unlink (s := s.afterClaim) (hlast .held) hhead hget
    rwa [afterUnlink, show s.afterClaim.advance s.claims.length s.afterClaim.stack.head .unlinked =
      entered .unlinked from hset .held .unlinked] at heffect
  have hsettle := Effect.finish (s := unlinked) (show Finish ref .unlinked .settled delta from
    hdelta ▸ .settle) (hlast .unlinked) hhead hget
  rw [afterFinish, advance, show unlinked.claims = entered .unlinked from rfl, hset] at hsettle
  exact ((Effects.single hclaim).tail hunlink).tail hsettle

/-- What a pop of a balanced ledger does to a stack that is not empty. -/
theorem pop_cases (hs : s.Balanced) {top : NodeId} (hhead : s.stack.head.node = some top) :
    (∃ contents, s.stack.heap.get? top = some contents ∧
      s.stack.pop.result = .ok (some contents.value) ∧
      s.stack.levels = (s.stack.head.count, top, contents) :: s.stack.pop.state.levels ∧
      Effects s (freedNodes s.stack.pop.events) (s.afterPops s.stack.pop.state)) ∨
    (s.afterPops s.stack.pop.state).Overruns s.stack.pop.result := by
  obtain ⟨contents, hget, -, -⟩ := hs.linked.chain_eq_cons hhead
  have hcounted := hs.count_head hhead
  by_cases hfull : s.stack.head.count.toNat = 2 ^ 64 - 1
  · right
    rw [pop_of_full hhead hget hfull]
    refine ⟨⟨_, rfl, rfl⟩, top, ?_⟩
    rw [afterPops, claimsOfPops_self, List.append_nil]
    change 2 ^ 63 - 1 ≤ s.claimsOn top
    omega
  · obtain ⟨found, hfound, hlevels, -⟩ := hs.linked.levels_pop hhead hfull
    obtain rfl : found = contents := Option.some.inj (hfound.symm.trans hget)
    have hclaims : s.stack.claimsOfPops s.stack.pop.state =
        [⟨⟨s.stack.head.node, s.stack.head.count + 1⟩, .settled⟩] := by
      rw [hhead]
      exact claimsOfPops_of_levels (show s.stack.levels = [(s.stack.head.count, top, found)] ++
        s.stack.pop.state.levels from hlevels)
    have hpop := pop_of_top hhead hget
    rw [if_neg hfull] at hpop
    dsimp only at hpop
    rcases settle_eq_finish_or_overflows (s := { s.stack with head := found.next })
      (show (⟨s.stack.head.node, s.stack.head.count + 1⟩ : Ref).node = some top from hhead) hget
      with hsettle | ⟨hle, hoverflow⟩
    · left
      dsimp only at hsettle
      refine ⟨found, hget, ?_, hlevels, ?_⟩
      · rw [hpop, hsettle, finish_result]
        rfl
      · have heffects := effects_pop hhead hfull hget rfl
        rw [afterPops, hclaims, hpop, hsettle, finish_result]
        simp only [Except.isOk, Except.toBool, if_true, List.append_nil]
        rw [freedNodes_finish]
        exact heffects
    · right
      refine ⟨?_, top, ?_⟩
      · rw [hpop]
        exact overflows_map.mpr hoverflow
      · change 2 ^ 63 ≤ (s.stack.head.count + 1).toNat at hle
        rw [toNat_add_one_of_ne hfull] at hle
        rw [claimsOn_of_append (s := s) (congrArg (s.claims ++ ·) hclaims), if_pos
          (show Claim.IsOn ⟨⟨s.stack.head.node, s.stack.head.count + 1⟩, .settled⟩ top from hhead)]
        omega

theorem afterPops_self (s : Ledger α) : s.afterPops s.stack = s := by
  rw [afterPops, claimsOfPops_self, List.append_nil]

theorem afterPops_trans {t u : CountedStack α} (hst : t.levels <:+ s.stack.levels)
    (htu : u.levels <:+ t.levels) : (s.afterPops t).afterPops u = s.afterPops u := by
  rw [afterPops, afterPops, afterPops, claimsOfPops_trans hst htu, List.append_assoc]

theorem freedNodes_append (events events' : List (Event α)) :
    freedNodes (events ++ events') = freedNodes events ++ freedNodes events' :=
  List.filterMap_append

/-- Dropping the stack is a row of pops, as far as it goes. If no destructor faults, it goes on
until the stack is empty. -/
theorem popAndDrop_cases [Destructor α] (count : Nat) (hs : s.Balanced) :
    Effects s (freedNodes (popAndDrop count s.stack).events)
          (s.afterPops (popAndDrop count s.stack).state) ∧
        ((∀ value : α, Destructor.fault? value = none) → s.stack.levels.length ≤ count →
          (popAndDrop count s.stack).state.levels = []) ∨
      (s.afterPops (popAndDrop count s.stack).state).Overruns
        (popAndDrop count s.stack).result := by
  induction count generalizing s with
  | zero =>
    left
    rw [popAndDrop, afterPops_self]
    exact ⟨.refl, fun _ hlength ↦ List.eq_nil_of_length_eq_zero (Nat.le_zero.mp hlength)⟩
  | succ count ih =>
    have hsuffix := hs.linked.levels_pop_suffix.1
    cases hhead : s.stack.head.node with
    | none =>
      left
      rw [popAndDrop, pop_of_null hhead, afterPops_self]
      have hempty := hs.linked.chain_eq_nil_iff.mpr hhead
      refine ⟨.refl, fun _ _ ↦ List.eq_nil_of_length_eq_zero ?_⟩
      rw [length_levels, hempty]
      rfl
    | some top =>
      rcases pop_cases hs hhead with ⟨contents, -, hresult, hlevels, heffects⟩ | hoverrun
      · have hfreed : freedNodes (s.stack.pop.events ++ [.dropped contents.value]) =
            freedNodes s.stack.pop.events := by
          rw [freedNodes_append]
          exact List.append_nil _
        rw [popAndDrop_succ, hresult]
        dsimp only
        cases hfault : Destructor.fault? contents.value with
        | some fault =>
          left
          dsimp only
          rw [hfreed]
          refine ⟨heffects, ?_⟩
          intro hquiet
          rw [hquiet] at hfault
          cases hfault
        | none =>
          dsimp only
          have hbelow := (heffects.balanced hs).linked.levels_popAndDrop_suffix count
          have hafter : (s.afterPops s.stack.pop.state).afterPops
              (popAndDrop count s.stack.pop.state).state =
                s.afterPops (popAndDrop count s.stack.pop.state).state :=
            afterPops_trans hsuffix hbelow.1
          rw [Outcome.after_events, Outcome.after_state, Outcome.after_result,
            freedNodes_append, hfreed, ← hafter]
          rcases ih (heffects.balanced hs) with ⟨heffects', hempty⟩ | hoverrun
          · refine Or.inl ⟨heffects.trans heffects', ?_⟩
            intro hquiet hlength
            apply hempty hquiet
            rw [hlevels, List.length_cons] at hlength
            exact Nat.le_of_succ_le_succ hlength
          · exact Or.inr hoverrun
      · right
        obtain ⟨⟨fault, hresult, hfault⟩, hmany⟩ := hoverrun
        rw [popAndDrop_succ, hresult]
        exact ⟨⟨fault, rfl, hfault⟩, hmany⟩

end Ledger

end Reclaim.CountedStack
