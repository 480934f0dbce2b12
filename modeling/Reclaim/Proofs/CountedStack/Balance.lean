import Reclaim.Proofs.CountedStack.Effect

/-!
# The balance of a ledger

The counts of one node are spread over the reference that leads to it, its own internal count and
the claims that its readers hold. `Balanced` says how they add up. While a node is linked, the
reference to it counts every claim ever made, and its internal count the claims released. Whoever
unlinks it has seen all claims there will ever be. Once the node is settled its internal count is
the number of claims still held. Internal counts wrap around, so they are compared as words; no
bound on the number of claims is needed.
-/

namespace Reclaim.CountedStack.Ledger

variable {α : Type} {s t : Ledger α}

/-- What the internal count of a node stands for. -/
def balance (s : Ledger α) (node : NodeId) : Int :=
  if s.tally node .settled = 0 then -(s.tally node .released : Int) else s.tally node .held

structure Balanced (s : Ledger α) : Prop where
  /-- The chain is whole. -/
  linked : s.stack.WellLinked
  /-- The reference to a linked node counts the claims made on the node, and itself. -/
  counted : ∀ level ∈ s.stack.levels, level.1.toNat = 1 + s.claimsOn level.2.1
  /-- Only nodes are claimed. -/
  known : ∀ claim ∈ s.claims, ∃ node < s.stack.heap.size, claim.IsOn node
  /-- A node that is no longer linked was unlinked under exactly one claim. -/
  taken : ∀ node < s.stack.heap.size,
    s.tally node .unlinked + s.tally node .settled = if node ∈ s.stack.linked then 0 else 1
  /-- The claim under which a node was unlinked is the last claim made on it. -/
  observed : ∀ claim ∈ s.claims, claim.stage = .unlinked ∨ claim.stage = .settled →
    ∀ node, claim.IsOn node → claim.ref.count.toNat = 1 + s.claimsOn node
  internal : ∀ node contents, s.stack.heap.get? node = some contents →
    contents.internalCount = Int64.ofInt (s.balance node)
  /-- A node is live as long as it is linked or a claim on it is open. -/
  live : ∀ node < s.stack.heap.size,
    (s.stack.heap.get? node).isSome ↔ node ∈ s.stack.linked ∨ 0 < s.openOn node

theorem balanced_new : ({} : Ledger α).Balanced where
  linked := wellLinked_new
  counted _ hmem := by cases hmem
  known _ hmem := by cases hmem
  taken _ hlt := absurd hlt (Nat.not_lt_zero _)
  observed _ hmem := by cases hmem
  internal _ _ hget := absurd (Heap.lt_size_of_get? hget) (Nat.not_lt_zero _)
  live _ hlt := absurd hlt (Nat.not_lt_zero _)

namespace Balanced

theorem tally_eq_zero_of_linked (hs : s.Balanced) {node : NodeId}
    (hlinked : node ∈ s.stack.linked) :
    s.tally node .unlinked = 0 ∧ s.tally node .settled = 0 := by
  have htaken := hs.taken node (hs.linked.lt_size hlinked)
  rw [if_pos hlinked] at htaken
  omega

/-- The head counts the claims on the top node, and itself. -/
theorem count_head (hs : s.Balanced) {top : NodeId} (hhead : s.stack.head.node = some top) :
    s.stack.head.count.toNat = 1 + s.claimsOn top := by
  obtain ⟨contents, -, hchain, -⟩ := hs.linked.chain_eq_cons hhead
  apply hs.counted (s.stack.head.count, top, contents)
  rw [levels_eq_cons hchain]
  exact List.mem_cons_self

theorem not_linked_of_tally_unlinked (hs : s.Balanced) {node : NodeId}
    (hunlinked : 0 < s.tally node .unlinked) : node ∉ s.stack.linked := by
  intro hlinked
  have := (hs.tally_eq_zero_of_linked hlinked).1
  omega

theorem lt_size_of_isOn (hs : s.Balanced) {claim : Claim} (hmem : claim ∈ s.claims)
    {node : NodeId} (hon : claim.IsOn node) : node < s.stack.heap.size := by
  obtain ⟨other, hlt, hother⟩ := hs.known claim hmem
  rwa [← Option.some.inj (hother.symm.trans hon)]

/-- A node that was never made was never claimed. -/
theorem tally_eq_zero_of_size_le (hs : s.Balanced) {node : NodeId}
    (hle : s.stack.heap.size ≤ node) (stage : Stage) : s.tally node stage = 0 := by
  apply Nat.eq_zero_of_not_pos
  intro hpos
  obtain ⟨claim, hmem, hon, -⟩ := tally_pos_iff.mp hpos
  exact absurd (hs.lt_size_of_isOn hmem hon) (Nat.not_lt.mpr hle)

theorem claimsOn_eq_zero_of_size_le (hs : s.Balanced) {node : NodeId}
    (hle : s.stack.heap.size ≤ node) : s.claimsOn node = 0 := by
  simp only [claimsOn_eq, hs.tally_eq_zero_of_size_le hle]

/-- Some word counts the claims on a node, so there are fewer than words. -/
theorem claimsOn_lt (hs : s.Balanced) (node : NodeId) : 1 + s.claimsOn node < 2 ^ 64 := by
  -- The word is the count in the reference to a linked node, else in the claim that unlinked it.
  by_cases hlt : node < s.stack.heap.size
  · by_cases hlinked : node ∈ s.stack.linked
    · obtain ⟨level, hlevel, rfl⟩ := exists_level_of_mem_linked hlinked
      rw [← hs.counted level hlevel]
      exact level.1.toNat_lt
    · have htaken := hs.taken node hlt
      rw [if_neg hlinked] at htaken
      obtain ⟨claim, hmem, hon, hstage⟩ : ∃ claim ∈ s.claims, claim.IsOn node ∧
          (claim.stage = .unlinked ∨ claim.stage = .settled) := by
        by_cases hpos : 0 < s.tally node .unlinked
        · obtain ⟨claim, hmem, hon, hstage⟩ := tally_pos_iff.mp hpos
          exact ⟨claim, hmem, hon, Or.inl hstage⟩
        · have hpos' : 0 < s.tally node .settled := by omega
          obtain ⟨claim, hmem, hon, hstage⟩ := tally_pos_iff.mp hpos'
          exact ⟨claim, hmem, hon, Or.inr hstage⟩
      rw [← hs.observed claim hmem hstage node hon]
      exact claim.ref.count.toNat_lt
  · rw [hs.claimsOn_eq_zero_of_size_le (Nat.not_lt.mp hlt)]
    decide

/-- The node of an open claim is live. -/
theorem exists_get?_of_open (hs : s.Balanced) {token : Nat} {ref : Ref} {stage : Stage}
    (hclaim : s.claims[token]? = some ⟨ref, stage⟩) (hopen : stage = .held ∨ stage = .unlinked) :
    ∃ node contents, ref.node = some node ∧ s.stack.heap.get? node = some contents := by
  have hmem := List.mem_of_getElem? hclaim
  obtain ⟨node, hlt, hnode⟩ := hs.known _ hmem
  have hpos : 0 < s.openOn node := by
    rw [openOn, List.countP_pos_iff]
    exact ⟨_, hmem, decide_eq_true ⟨hnode, hopen⟩⟩
  obtain ⟨contents, hget⟩ :=
    Option.isSome_iff_exists.mp ((hs.live node hlt).mpr (Or.inr hpos))
  exact ⟨node, contents, hnode, hget⟩

theorem push (hs : s.Balanced) (value : α) :
    Balanced { s with stack := (s.stack.push value).2 } := by
  obtain ⟨hchain, hlinked⟩ := hs.linked.chain_push value
  have hlevels := hs.linked.levels_push value
  have hmem (node : NodeId) : node ∈ (s.stack.push value).2.linked ↔
      node = s.stack.heap.size ∨ node ∈ s.stack.linked := by
    rw [CountedStack.linked, hchain, List.map_cons, List.mem_cons, CountedStack.linked]
  have hsize := s.stack.size_push value
  have hget := s.stack.get?_push value
  have hfresh := hs.tally_eq_zero_of_size_le (Nat.le_refl s.stack.heap.size)
  refine
    { linked := hlinked, counted := ?counted, known := ?known, taken := ?taken,
      observed := hs.observed, internal := ?internal, live := ?live }
  case counted =>
    intro level hlevel
    rw [hlevels, List.mem_cons] at hlevel
    rcases hlevel with rfl | hlevel
    · change 1 = 1 + s.claimsOn s.stack.heap.size
      rw [hs.claimsOn_eq_zero_of_size_le (Nat.le_refl _)]
    · exact hs.counted level hlevel
  case known =>
    intro claim hclaim
    obtain ⟨node, hlt, hon⟩ := hs.known claim hclaim
    exact ⟨node, hsize ▸ Nat.lt_succ_of_lt hlt, hon⟩
  case taken =>
    intro node hlt
    change s.tally node .unlinked + s.tally node .settled = _
    rw [hsize] at hlt
    by_cases hnew : node = s.stack.heap.size
    · rw [if_pos ((hmem node).mpr (Or.inl hnew)), hnew, hfresh, hfresh]
    · rw [hs.taken node (Nat.lt_of_le_of_ne (Nat.le_of_lt_succ hlt) hnew)]
      simp only [hmem, hnew, false_or]
  case internal =>
    intro node contents hcontents
    change contents.internalCount = Int64.ofInt (s.balance node)
    rw [hget] at hcontents
    split at hcontents
    · next hnew =>
      cases hcontents
      rw [hnew, balance, if_pos (hfresh _), hfresh]
      rfl
    · exact hs.internal node contents hcontents
  case live =>
    intro node hlt
    change _ ↔ _ ∨ 0 < s.openOn node
    rw [hsize] at hlt
    rw [hget, hmem]
    by_cases hnew : node = s.stack.heap.size
    · simp [hnew]
    · rw [if_neg hnew, hs.live node (Nat.lt_of_le_of_ne (Nat.le_of_lt_succ hlt) hnew)]
      simp only [hnew, false_or]

section

variable {top node : NodeId}

theorem claimsOn_afterClaim (hhead : s.stack.head.node = some top) (node : NodeId) :
    s.afterClaim.claimsOn node = s.claimsOn node + if top = node then 1 else 0 := by
  rw [claimsOn_of_append (s := s) (t := s.afterClaim) rfl]
  simp only [Claim.isOn_mk, hhead, Option.some.injEq]

theorem tally_afterClaim {stage : Stage} (hstage : stage ≠ .held) (node : NodeId) :
    s.afterClaim.tally node stage = s.tally node stage := by
  rw [tally_of_append (s := s) (t := s.afterClaim) rfl, if_neg fun h ↦ hstage h.2.symm,
    Nat.add_zero]

theorem tally_held_afterClaim (hhead : s.stack.head.node = some top) (hne : top ≠ node) :
    s.afterClaim.tally node .held = s.tally node .held := by
  rw [tally_of_append (s := s) (t := s.afterClaim) rfl, if_neg, Nat.add_zero]
  rintro ⟨hon, -⟩
  exact hne (Option.some.inj (hhead.symm.trans hon))

/-- A claim raises the count in the head along with the number of claims on the top node. -/
theorem claim (hs : s.Balanced) (hhead : s.stack.head.node = some top)
    (hroom : s.stack.head.count.toNat ≠ 2 ^ 64 - 1) : s.afterClaim.Balanced := by
  obtain ⟨contents, -, hchain, -⟩ := hs.linked.chain_eq_cons hhead
  obtain ⟨hsame, hlinked⟩ := hs.linked.chain_setHead
    (show (⟨s.stack.head.node, s.stack.head.count + 1⟩ : Ref).node = s.stack.head.node from rfl)
  have hlist : s.afterClaim.stack.linked = s.stack.linked := congrArg (List.map Prod.fst) hsame
  have hlevels := levels_eq_cons hchain
  have hlevels' : s.afterClaim.stack.levels = (s.stack.head.count + 1, top, contents) ::
      { s.stack with head := contents.next }.levels := levels_eq_cons (hsame.trans hchain)
  have hnodup := hs.linked.nodup
  rw [linked_eq_cons hchain, List.nodup_cons] at hnodup
  have htop := hs.linked.mem_linked_of_head hhead
  have hunlinked (node : NodeId) : s.afterClaim.tally node .unlinked = s.tally node .unlinked :=
    tally_afterClaim (by decide) node
  have hsettled (node : NodeId) : s.afterClaim.tally node .settled = s.tally node .settled :=
    tally_afterClaim (by decide) node
  refine
    { linked := hlinked, counted := ?counted, known := ?known, taken := ?taken,
      observed := ?observed, internal := ?internal, live := ?live }
  case counted =>
    intro level hlevel
    rw [hlevels', List.mem_cons] at hlevel
    rw [claimsOn_afterClaim hhead]
    rcases hlevel with rfl | hlevel
    · rw [if_pos rfl, toNat_add_one_of_ne hroom, hs.count_head hhead]
      rfl
    · have hne : top ≠ level.2.1 := by
        rintro rfl
        exact hnodup.1 (mem_linked_of_mem_levels hlevel)
      rw [if_neg hne]
      exact hs.counted level (hlevels ▸ List.mem_cons_of_mem _ hlevel)
  case known =>
    intro claim hmem
    rcases List.mem_append.mp hmem with hmem | hmem
    · exact hs.known claim hmem
    · rw [List.mem_singleton.mp hmem]
      exact ⟨top, hs.linked.lt_size htop, hhead⟩
  case taken =>
    intro node hlt
    rw [hunlinked, hsettled, hs.taken node hlt, hlist]
  case observed =>
    intro claim hmem hclosed node hnode
    rcases List.mem_append.mp hmem with hmem | hmem
    -- Nobody has unlinked the node that is still on top, so these claims are on other nodes.
    · have hne : top ≠ node := by
        rintro rfl
        obtain ⟨hzero, hzero'⟩ := hs.tally_eq_zero_of_linked htop
        rcases hclosed with hstage | hstage
        · exact absurd (tally_pos_iff.mpr ⟨claim, hmem, hnode, hstage⟩) (by omega)
        · exact absurd (tally_pos_iff.mpr ⟨claim, hmem, hnode, hstage⟩) (by omega)
      rw [claimsOn_afterClaim hhead, if_neg hne]
      exact hs.observed claim hmem hclosed node hnode
    · rw [List.mem_singleton.mp hmem] at hclosed
      rcases hclosed with hstage | hstage <;> cases hstage
  case internal =>
    intro node contents hget
    have hreleased : s.afterClaim.tally node .released = s.tally node .released :=
      tally_afterClaim (by decide) node
    rw [hs.internal node contents hget, balance, balance, hsettled, hreleased]
    split
    · rfl
    · next hclosed =>
      rw [tally_held_afterClaim hhead]
      rintro rfl
      exact hclosed (hs.tally_eq_zero_of_linked htop).2
  case live =>
    intro node hlt
    rw [hlist]
    refine (hs.live node hlt).trans ?_
    by_cases hne : top = node
    · rw [← hne]
      exact ⟨fun _ ↦ Or.inl htop, fun _ ↦ Or.inl htop⟩
    · rw [openOn_eq, openOn_eq, tally_held_afterClaim hhead hne, hunlinked]

end

section

variable {token : Nat} {top node : NodeId} {contents : Node α}

theorem tally_afterUnlink (hclaim : s.claims[token]? = some ⟨s.stack.head, .held⟩)
    {stage : Stage} (hheld : stage ≠ .held) (hunlinked : stage ≠ .unlinked) (node : NodeId) :
    (s.afterUnlink token contents).tally node stage = s.tally node stage := by
  have htally := tally_of_advance (t := s.afterUnlink token contents) rfl hclaim node stage
  rwa [if_neg fun h ↦ hheld h.2.symm, if_neg fun h ↦ hunlinked h.2.symm] at htally

theorem tally_afterUnlink_of_ne (hclaim : s.claims[token]? = some ⟨s.stack.head, .held⟩)
    (hhead : s.stack.head.node = some top) (hne : top ≠ node) (stage : Stage) :
    (s.afterUnlink token contents).tally node stage = s.tally node stage := by
  apply tally_of_advance_of_ne rfl hclaim
  rwa [hhead, ne_eq, Option.some.injEq]

theorem tally_unlinked_afterUnlink (hclaim : s.claims[token]? = some ⟨s.stack.head, .held⟩)
    (hhead : s.stack.head.node = some top) :
    (s.afterUnlink token contents).tally top .unlinked = s.tally top .unlinked + 1 := by
  have htally := tally_of_advance (t := s.afterUnlink token contents) rfl hclaim top .unlinked
  simpa only [hhead, true_and, reduceCtorEq, if_false, if_true, Nat.add_zero] using htally

/-- Whoever unlinks the top node has seen all claims that were made on it. -/
theorem unlink (hs : s.Balanced) (hclaim : s.claims[token]? = some ⟨s.stack.head, .held⟩)
    (hhead : s.stack.head.node = some top) (hget : s.stack.heap.get? top = some contents) :
    (s.afterUnlink token contents).Balanced := by
  obtain ⟨found, hfound, hchain, hlinked⟩ := hs.linked.chain_eq_cons hhead
  obtain rfl : found = contents := Option.some.inj (hfound.symm.trans hget)
  have hlist : s.stack.linked = top :: (s.afterUnlink token found).stack.linked :=
    linked_eq_cons hchain
  have hlevels : s.stack.levels =
      (s.stack.head.count, top, found) :: (s.afterUnlink token found).stack.levels :=
    levels_eq_cons hchain
  have hnodup := hs.linked.nodup
  rw [hlist, List.nodup_cons] at hnodup
  have htop := hs.linked.mem_linked_of_head hhead
  obtain ⟨hunlinked, hsettled⟩ := hs.tally_eq_zero_of_linked htop
  have hclaims := claimsOn_of_advance (t := s.afterUnlink token found) rfl hclaim
  have htaken : (s.afterUnlink token found).tally top .unlinked = s.tally top .unlinked + 1 :=
    tally_unlinked_afterUnlink hclaim hhead
  have hsettled' (node : NodeId) :
      (s.afterUnlink token found).tally node .settled = s.tally node .settled :=
    tally_afterUnlink hclaim (by decide) (by decide) node
  have hreleased' (node : NodeId) :
      (s.afterUnlink token found).tally node .released = s.tally node .released :=
    tally_afterUnlink hclaim (by decide) (by decide) node
  have hother {node : NodeId} (hne : top ≠ node) (stage : Stage) :
      (s.afterUnlink token found).tally node stage = s.tally node stage :=
    tally_afterUnlink_of_ne hclaim hhead hne stage
  refine
    { linked := hlinked, counted := ?counted, known := ?known, taken := ?taken,
      observed := ?observed, internal := ?internal, live := ?live }
  case counted =>
    intro level hlevel
    rw [hclaims]
    exact hs.counted level (hlevels ▸ List.mem_cons_of_mem _ hlevel)
  case known =>
    intro claim hmem
    rcases mem_claims_of_advance rfl hmem with hmem | rfl
    · exact hs.known claim hmem
    · exact ⟨top, hs.linked.lt_size htop, hhead⟩
  case taken =>
    intro node hlt
    by_cases hne : top = node
    · rw [← hne, htaken, hsettled', hunlinked, hsettled, if_neg hnodup.1]
    · rw [hother hne, hother hne, hs.taken node hlt, hlist]
      simp only [List.mem_cons, Ne.symm hne, false_or]
  case observed =>
    intro claim hmem hclosed node hnode
    rw [hclaims]
    rcases mem_claims_of_advance rfl hmem with hmem | rfl
    · exact hs.observed claim hmem hclosed node hnode
    · obtain rfl : top = node := Option.some.inj (hhead.symm.trans hnode)
      exact hs.count_head hhead
  case internal =>
    intro node contents hget
    rw [hs.internal node contents hget, balance, balance, hsettled', hreleased']
    split
    · rfl
    · next hclosed =>
      rw [hother]
      rintro rfl
      exact hclosed hsettled
  case live =>
    intro node hlt
    refine (hs.live node hlt).trans ?_
    rw [openOn_eq, openOn_eq, hlist, List.mem_cons]
    by_cases hne : top = node
    · rw [← hne, htaken]
      exact ⟨fun _ ↦ Or.inr (by omega), fun _ ↦ Or.inl (Or.inl rfl)⟩
    · rw [hother hne, hother hne]
      simp only [Ne.symm hne, false_or]

end

section

variable {token : Nat} {ref : Ref} {old new : Stage} {delta : Int64} {node : NodeId}

/-- Settling puts the claims still held in the place of the claims released; releasing takes one
claim away from either. -/
theorem ofInt_balance_advance (hs : s.Balanced) (hfinish : Finish ref old new delta)
    (hclaim : s.claims[token]? = some ⟨ref, old⟩) (hnode : ref.node = some node)
    (hadvance : t.claims = s.advance token ref new) :
    Int64.ofInt (s.balance node) + delta = Int64.ofInt (t.balance node) := by
  have hmem := List.mem_of_getElem? hclaim
  have htaken := hs.taken node (hs.lt_size_of_isOn hmem hnode)
  have htally := tally_of_advance hadvance hclaim node
  have hpos := tally_pos hclaim hnode
  simp only [hnode, true_and] at htally
  cases hfinish with
  | settle =>
    have hunlinked := hs.not_linked_of_tally_unlinked hpos
    rw [if_neg hunlinked] at htaken
    have hcount := hs.observed _ hmem (Or.inl rfl) node hnode
    have hsum := claimsOn_eq s node
    have hsettled : t.tally node .settled = 1 := by
      have := htally .settled
      simp only [reduceCtorEq, if_false, if_true] at this
      omega
    have hheld : t.tally node .held = s.tally node .held := by
      have := htally .held
      simpa only [reduceCtorEq, if_false, Nat.add_zero] using this
    change ref.count.toNat = _ at hcount
    calc
      Int64.ofInt (s.balance node) + (ref.count.toInt64 - 2) =
          Int64.ofInt (-(s.tally node .released : Int)) +
            (Int64.ofInt ref.count.toNat - Int64.ofInt 2) := by
        rw [balance, if_pos (by omega), Counter.toInt64_eq_ofInt]
        rfl
      _ = Int64.ofInt (-(s.tally node .released : Int) + (ref.count.toNat - 2)) := by
        rw [Int64.ofInt_add, Int64.ofInt_sub]
      _ = Int64.ofInt (t.balance node) := by
        rw [balance, if_neg (by omega), hheld]
        congr 1
        omega
  | release =>
    have hsettled : t.tally node .settled = s.tally node .settled := by
      have := htally .settled
      simpa only [reduceCtorEq, if_false, Nat.add_zero] using this
    have hreleased : t.tally node .released = s.tally node .released + 1 := by
      have := htally .released
      simpa only [reduceCtorEq, if_false, if_true, Nat.add_zero] using this
    have hheld : t.tally node .held + 1 = s.tally node .held := by
      have := htally .held
      simpa only [reduceCtorEq, if_false, if_true, Nat.add_zero] using this
    calc
      Int64.ofInt (s.balance node) + -1 = Int64.ofInt (s.balance node) + Int64.ofInt (-1) := rfl
      _ = Int64.ofInt (s.balance node + -1) := (Int64.ofInt_add _ _).symm
      _ = Int64.ofInt (t.balance node) := by
        rw [balance, balance, hsettled, hreleased, ← hheld]
        congr 1
        split <;> omega

/-- The internal count is zero after a claim is finished exactly if nothing keeps the node. -/
theorem balance_eq_zero_iff {linked : List NodeId}
    (htaken : s.tally node .unlinked + s.tally node .settled = if node ∈ linked then 0 else 1)
    (hfinished : 0 < s.tally node .settled ∨ 0 < s.tally node .released) :
    s.balance node = 0 ↔ node ∉ linked ∧ s.openOn node = 0 := by
  rw [balance, openOn_eq]
  by_cases hlinked : node ∈ linked
  · rw [if_pos hlinked] at htaken
    rw [if_pos (by omega)]
    simp only [hlinked, not_true, false_and, iff_false]
    omega
  · rw [if_neg hlinked] at htaken
    simp only [hlinked, not_false_eq_true, true_and]
    split <;> omega

theorem tally_advance_pos (hfinish : Finish ref old new delta)
    (hclaim : s.claims[token]? = some ⟨ref, old⟩) (hnode : ref.node = some node)
    (hadvance : t.claims = s.advance token ref new) :
    0 < t.tally node .settled ∨ 0 < t.tally node .released := by
  have hlt := (List.getElem?_eq_some_iff.mp hclaim).1
  have hget : t.claims[token]? = some ⟨ref, new⟩ := by
    rw [hadvance, advance, List.getElem?_set_self hlt]
  cases hfinish with
  | settle => exact Or.inl (tally_pos hget hnode)
  | release => exact Or.inr (tally_pos hget hnode)

theorem taken_advance (hfinish : Finish ref old new delta)
    (hclaim : s.claims[token]? = some ⟨ref, old⟩)
    (hadvance : t.claims = s.advance token ref new) (other : NodeId) :
    t.tally other .unlinked + t.tally other .settled =
      s.tally other .unlinked + s.tally other .settled := by
  have hunlinked := tally_of_advance hadvance hclaim other .unlinked
  have hsettled := tally_of_advance hadvance hclaim other .settled
  cases hfinish with
  | settle =>
    simp only [reduceCtorEq, and_false, and_true, if_false] at hunlinked hsettled
    omega
  | release =>
    simp only [reduceCtorEq, and_false, if_false] at hunlinked hsettled
    omega

section

variable {contents : Node α}

/-- The internal count that finishing a claim leaves is the balance afterwards. -/
theorem internalCount_add (hs : s.Balanced) (hfinish : Finish ref old new delta)
    (hclaim : s.claims[token]? = some ⟨ref, old⟩) (hnode : ref.node = some node)
    (hget : s.stack.heap.get? node = some contents)
    (hadvance : t.claims = s.advance token ref new) :
    contents.internalCount + delta = Int64.ofInt (t.balance node) := by
  rw [← hs.ofInt_balance_advance hfinish hclaim hnode hadvance, ← hs.internal node contents hget]

/-- Finishing a claim frees its node exactly if it is no longer linked and no other claim keeps
it. -/
theorem internalCount_add_eq_zero_iff (hs : s.Balanced) (hfinish : Finish ref old new delta)
    (hclaim : s.claims[token]? = some ⟨ref, old⟩) (hnode : ref.node = some node)
    (hget : s.stack.heap.get? node = some contents)
    (hadvance : t.claims = s.advance token ref new) :
    contents.internalCount + delta = 0 ↔ node ∉ s.stack.linked ∧ t.openOn node = 0 := by
  have htaken := (taken_advance hfinish hclaim hadvance node).trans
    (hs.taken node (Heap.lt_size_of_get? hget))
  have hroom := hs.claimsOn_lt node
  rw [← claimsOn_of_advance hadvance hclaim, claimsOn_eq] at hroom
  rw [← balance_eq_zero_iff htaken (tally_advance_pos hfinish hclaim hnode hadvance),
    hs.internalCount_add hfinish hclaim hnode hget hadvance]
  apply Counter.ofInt_eq_zero_iff
  · rw [balance]
    split <;> omega
  · rw [balance]
    split <;> omega

/-- A node that is freed when a claim is finished is not linked. -/
theorem not_linked_of_add_eq_zero (hs : s.Balanced) (hfinish : Finish ref old new delta)
    (hclaim : s.claims[token]? = some ⟨ref, old⟩) (hnode : ref.node = some node)
    (hget : s.stack.heap.get? node = some contents)
    (hzero : contents.internalCount + delta = 0) : node ∉ s.stack.linked := by
  have hiff := hs.internalCount_add_eq_zero_iff hfinish hclaim hnode hget
    (t := s.afterFinish token ⟨ref, new⟩ node (contents.internalCount + delta)) rfl
  exact (hiff.mp hzero).1

/-- Finishing a claim leaves all linked nodes linked. -/
theorem linked_afterFinish (hs : s.Balanced) (hfinish : Finish ref old new delta)
    (hclaim : s.claims[token]? = some ⟨ref, old⟩) (hnode : ref.node = some node)
    (hget : s.stack.heap.get? node = some contents) :
    (s.afterFinish token ⟨ref, new⟩ node (contents.internalCount + delta)).stack.linked =
      s.stack.linked := by
  apply hs.linked.linked_finish
  exact hs.not_linked_of_add_eq_zero hfinish hclaim hnode hget

theorem finish (hs : s.Balanced) (hfinish : Finish ref old new delta)
    (hclaim : s.claims[token]? = some ⟨ref, old⟩) (hnode : ref.node = some node)
    (hget : s.stack.heap.get? node = some contents) :
    (s.afterFinish token ⟨ref, new⟩ node (contents.internalCount + delta)).Balanced := by
  let count := contents.internalCount + delta
  let t := s.afterFinish token ⟨ref, new⟩ node count
  change t.Balanced
  have hlt := Heap.lt_size_of_get? hget
  have hadvance : t.claims = s.advance token ref new := rfl
  have hclaims := claimsOn_of_advance hadvance hclaim
  have hother {other : NodeId} (hne : node ≠ other) (stage : Stage) :
      t.tally other stage = s.tally other stage := by
    apply tally_of_advance_of_ne hadvance hclaim
    rwa [hnode, ne_eq, Option.some.injEq]
  have hcount : count = Int64.ofInt (t.balance node) :=
    hs.internalCount_add hfinish hclaim hnode hget hadvance
  have hzero : count = 0 ↔ node ∉ s.stack.linked ∧ t.openOn node = 0 :=
    hs.internalCount_add_eq_zero_iff hfinish hclaim hnode hget hadvance
  have hfree : count = 0 → node ∉ s.stack.linked := fun h ↦ (hzero.mp h).1
  have hlist : t.stack.linked = s.stack.linked := hs.linked_afterFinish hfinish hclaim hnode hget
  have hsize : t.stack.heap.size = s.stack.heap.size := finish_size s.stack node count
  refine
    { linked := (hs.linked.chain_finish hfree).2, counted := ?counted, known := ?known,
      taken := ?taken, observed := ?observed, internal := ?internal, live := ?live }
  case counted =>
    intro level hlevel
    have hlevels : t.stack.levels = _ := hs.linked.levels_finish hfree
    rw [hlevels, List.mem_map] at hlevel
    obtain ⟨before, hbefore, rfl⟩ := hlevel
    rw [hclaims]
    exact hs.counted before hbefore
  case known =>
    intro claim hmem
    rw [hsize]
    rcases mem_claims_of_advance hadvance hmem with hmem | rfl
    · exact hs.known claim hmem
    · exact ⟨node, hlt, hnode⟩
  case taken =>
    intro other hother
    rw [hsize] at hother
    rw [taken_advance hfinish hclaim hadvance, hs.taken other hother, hlist]
  case observed =>
    intro claim hmem hclosed other hon
    rw [hclaims]
    rcases mem_claims_of_advance hadvance hmem with hmem | rfl
    · exact hs.observed claim hmem hclosed other hon
    · cases hfinish with
      | settle => exact hs.observed _ (List.mem_of_getElem? hclaim) (Or.inl rfl) other hon
      | release => rcases hclosed with hstage | hstage <;> cases hstage
  case internal =>
    intro other found hfound
    change (s.stack.finish node count).state.heap.get? other = some found at hfound
    rw [get?_finish] at hfound
    by_cases hne : node = other
    · rw [if_pos hne, hget] at hfound
      split at hfound
      · cases hfound
      · cases hfound
        rw [← hne]
        exact hcount
    · rw [if_neg hne] at hfound
      rw [hs.internal other found hfound, balance, balance, hother hne, hother hne, hother hne]
  case live =>
    intro other hlt
    rw [hsize] at hlt
    change ((s.stack.finish node count).state.heap.get? other).isSome ↔ _
    rw [get?_finish, hlist]
    by_cases hne : node = other
    · rw [if_pos hne, hget, ← hne]
      by_cases hfreed : count = 0
      · obtain ⟨hunlinked, hnobody⟩ := hzero.mp hfreed
        simp [hfreed, hunlinked, hnobody]
      · have hkept := mt hzero.mpr hfreed
        simp only [hfreed, if_false, Option.map_some, Option.isSome_some, true_iff]
        by_cases hlinked : node ∈ s.stack.linked
        · exact Or.inl hlinked
        · exact Or.inr (Nat.pos_of_ne_zero fun hnobody ↦ hkept ⟨hlinked, hnobody⟩)
    · rw [if_neg hne, openOn_eq, hother hne, hother hne, ← openOn_eq]
      exact hs.live other hlt

end

end

end Balanced

theorem Effect.balanced {freed : List NodeId} (heffect : Effect s freed t) (hs : s.Balanced) :
    t.Balanced := by
  cases heffect with
  | push value => exact hs.push value
  | claim hhead hroom => exact hs.claim hhead hroom
  | unlink hclaim hhead hget => exact hs.unlink hclaim hhead hget
  | finish hfinish hclaim hnode hget => exact hs.finish hfinish hclaim hnode hget
  | close => exact ⟨hs.linked, hs.counted, hs.known, hs.taken, hs.observed, hs.internal, hs.live⟩

theorem Effects.balanced {freed : List NodeId} (heffects : Effects s freed t) (hs : s.Balanced) :
    t.Balanced := by
  induction heffects with
  | refl => exact hs
  | tail _ heffect ih => exact heffect.balanced ih

end Reclaim.CountedStack.Ledger
