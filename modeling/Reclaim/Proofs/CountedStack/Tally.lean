import Reclaim.Proofs.CountedStack.Ledger

/-!
# Counting claims

How the numbers of claims on a node change when a claim is made and when a claim moves on to
another stage. The numbers depend on the claims alone, so each lemma is about two ledgers whose
claims differ in that way, whatever else differs between them.
-/

namespace Reclaim.CountedStack.Ledger

variable {α : Type} {s t : Ledger α}

theorem openOn_eq (s : Ledger α) (node : NodeId) :
    s.openOn node = s.tally node .held + s.tally node .unlinked := by
  unfold openOn tally
  induction s.claims with
  | nil => rfl
  | cons claim rest ih =>
    rw [List.countP_cons, List.countP_cons, List.countP_cons, ih]
    by_cases hon : claim.IsOn node <;> cases hstage : claim.stage <;>
      simp [hon, hstage, Claim.IsOpen] <;> omega

theorem claimsOn_eq (s : Ledger α) (node : NodeId) :
    s.claimsOn node = s.tally node .held + s.tally node .unlinked + s.tally node .settled +
      s.tally node .released := by
  unfold claimsOn tally
  induction s.claims with
  | nil => rfl
  | cons claim rest ih =>
    simp only [List.countP_cons, ih]
    by_cases hon : claim.IsOn node <;> cases hstage : claim.stage <;>
      simp [hon] <;> omega

theorem tally_pos_iff {node : NodeId} {stage : Stage} :
    0 < s.tally node stage ↔ ∃ claim ∈ s.claims, claim.IsOn node ∧ claim.stage = stage := by
  rw [tally, List.countP_pos_iff]
  simp only [decide_eq_true_eq]

theorem tally_pos {token : Nat} {ref : Ref} {node : NodeId} {stage : Stage}
    (hclaim : s.claims[token]? = some ⟨ref, stage⟩) (hnode : ref.node = some node) :
    0 < s.tally node stage :=
  tally_pos_iff.mpr ⟨_, List.mem_of_getElem? hclaim, hnode, rfl⟩

theorem claimsOn_of_append {claim : Claim} (happend : t.claims = s.claims ++ [claim])
    (node : NodeId) :
    t.claimsOn node = s.claimsOn node + if claim.IsOn node then 1 else 0 := by
  rw [claimsOn, happend, List.countP_append, List.countP_singleton, claimsOn]
  simp only [decide_eq_true_eq]

theorem tally_of_append {claim : Claim} (happend : t.claims = s.claims ++ [claim])
    (node : NodeId) (stage : Stage) :
    t.tally node stage =
      s.tally node stage + if claim.IsOn node ∧ claim.stage = stage then 1 else 0 := by
  rw [tally, happend, List.countP_append, List.countP_singleton, tally]
  simp only [decide_eq_true_eq]

section

variable {token : Nat} {ref : Ref} {old new : Stage}

theorem claimsOn_of_advance (hadvance : t.claims = s.advance token ref new)
    (hclaim : s.claims[token]? = some ⟨ref, old⟩) (node : NodeId) :
    t.claimsOn node = s.claimsOn node := by
  obtain ⟨hlt, hget⟩ := List.getElem?_eq_some_iff.mp hclaim
  have hpos : ref.node = some node → 0 < s.claimsOn node := by
    intro hnode
    rw [claimsOn, List.countP_pos_iff]
    exact ⟨_, List.mem_of_getElem? hclaim, decide_eq_true hnode⟩
  rw [claimsOn, hadvance, advance, List.countP_set hlt, hget, ← claimsOn]
  simp only [decide_eq_true_eq, Claim.isOn_mk]
  split
  · next hnode =>
    have := hpos hnode
    omega
  · omega

theorem tally_of_advance (hadvance : t.claims = s.advance token ref new)
    (hclaim : s.claims[token]? = some ⟨ref, old⟩) (node : NodeId) (stage : Stage) :
    t.tally node stage + (if ref.node = some node ∧ old = stage then 1 else 0) =
      s.tally node stage + (if ref.node = some node ∧ new = stage then 1 else 0) := by
  obtain ⟨hlt, hget⟩ := List.getElem?_eq_some_iff.mp hclaim
  have hpos : ref.node = some node ∧ old = stage → 0 < s.tally node stage := by
    rintro ⟨hnode, rfl⟩
    exact tally_pos hclaim hnode
  rw [tally, hadvance, advance, List.countP_set hlt, hget, ← tally]
  simp only [decide_eq_true_eq, Claim.isOn_mk]
  split
  · next hold =>
    have := hpos hold
    omega
  · omega

theorem tally_of_advance_of_ne (hadvance : t.claims = s.advance token ref new)
    (hclaim : s.claims[token]? = some ⟨ref, old⟩) {node : NodeId} (hnode : ref.node ≠ some node)
    (stage : Stage) : t.tally node stage = s.tally node stage := by
  have htally := tally_of_advance hadvance hclaim node stage
  rwa [if_neg (fun h ↦ hnode h.1), if_neg (fun h ↦ hnode h.1)] at htally

theorem mem_claims_of_advance (hadvance : t.claims = s.advance token ref new) {claim : Claim}
    (hmem : claim ∈ t.claims) : claim ∈ s.claims ∨ claim = ⟨ref, new⟩ := by
  rw [hadvance] at hmem
  exact List.mem_or_eq_of_mem_set hmem

end

end Reclaim.CountedStack.Ledger
