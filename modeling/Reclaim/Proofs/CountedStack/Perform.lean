import Reclaim.Proofs.CountedStack.Pops

/-!
# Performing a step

What each step of a balanced ledger does and what it answers. All but the claims that find a full
count are effects; a settlement, a pop or a drop can also overrun, which takes more claims on one
node than a signed word counts.
-/

namespace Reclaim.CountedStack.Ledger

variable {α : Type} [Destructor α] {s : Ledger α} {step : Step α} {reply : Reply α} {token : Nat}

theorem perform_of_kept (hkept : s.dropped = false) (step : Step α) :
    s.perform step = s.carryOut step := by
  rw [perform, hkept, Bool.false_and]
  rfl

theorem perform_eq_some_iff : s.perform step = some reply ↔
    (s.dropped = true → step.needsStack = false) ∧ s.carryOut step = some reply := by
  unfold perform
  cases s.dropped <;> cases step.needsStack <;> simp

/-- What comes of a step. -/
inductive Performs (s : Ledger α) : Step α → Reply α → Prop
  | push (value : α) : Performs s (.push value)
      ⟨{ s with stack := (s.stack.push value).2 }, [], .ok (.pushed (s.stack.push value).1)⟩
  | pop : Performs s .pop ⟨s.afterPops s.stack.pop.state, s.stack.pop.events,
      s.stack.pop.result.map .popped⟩
  | full {hint : Ref} {fault : Fault} (hclaim : s.stack.claimTop hint = .error fault) :
      Performs s (.claim hint) ⟨s, [], .error fault⟩
  | nothing {hint : Ref} {stack : CountedStack α}
      (hclaim : s.stack.claimTop hint = .ok (none, stack)) :
      Performs s (.claim hint) ⟨{ s with stack }, [], .ok (.claimed none)⟩
  | claim {hint ref : Ref} {stack : CountedStack α}
      (hclaim : s.stack.claimTop hint = .ok (some ref, stack)) :
      Performs s (.claim hint)
        ⟨{ s with stack, claims := s.claims ++ [⟨ref, .held⟩] }, [], .ok (.claimed (some ref))⟩
  | unlink {token : Nat} {ref : Ref} {stack : CountedStack α}
      (hclaim : s.claims[token]? = some ⟨ref, .held⟩)
      (hunlink : s.stack.unlinkTop ref = .ok stack) :
      Performs s (.unlink token)
        ⟨{ s with stack, claims := s.advance token ref .unlinked }, [], .ok .unlinked⟩
  | stale {token : Nat} {ref current : Ref} (hclaim : s.claims[token]? = some ⟨ref, .held⟩)
      (hunlink : s.stack.unlinkTop ref = .error current) :
      Performs s (.unlink token) ⟨s, [], .ok (.notUnlinked current)⟩
  | settle {token : Nat} {ref : Ref} (hclaim : s.claims[token]? = some ⟨ref, .unlinked⟩) :
      Performs s (.settle token) (s.conclude (s.advance token ref .settled)
        (.settled ((s.stack.node? ref).map (·.value))) (s.stack.settle ref))
  | release {token : Nat} {ref : Ref} (hclaim : s.claims[token]? = some ⟨ref, .held⟩) :
      Performs s (.release token)
        (s.conclude (s.advance token ref .released) .released (s.stack.release ref))
  | drop : Performs s .drop ⟨{ s.afterPops s.stack.drop.state with dropped := true },
      s.stack.drop.events, s.stack.drop.result.map fun _ ↦ .dropped⟩

/-- A step that was carried out came to one of the cases. -/
theorem performs (hperform : s.perform step = some reply) : Performs s step reply := by
  have hcarry := (perform_eq_some_iff.mp hperform).2
  cases step with
  | push value =>
    obtain rfl := Option.some.inj hcarry
    exact .push value
  | pop =>
    obtain rfl := Option.some.inj hcarry
    exact .pop
  | claim hint =>
    rw [carryOut] at hcarry
    split at hcarry <;> obtain rfl := Option.some.inj hcarry
    · next hclaim => exact .full hclaim
    · next hclaim => exact .nothing hclaim
    · next hclaim => exact .claim hclaim
  | unlink token =>
    rw [carryOut] at hcarry
    split at hcarry
    · next hclaim =>
      split at hcarry <;> obtain rfl := Option.some.inj hcarry
      · next hunlink => exact .unlink hclaim hunlink
      · next hunlink => exact .stale hclaim hunlink
    · cases hcarry
  | settle token =>
    rw [carryOut] at hcarry
    split at hcarry
    · next hclaim =>
      obtain rfl := Option.some.inj hcarry
      exact .settle hclaim
    · cases hcarry
  | release token =>
    rw [carryOut] at hcarry
    split at hcarry
    · next hclaim =>
      obtain rfl := Option.some.inj hcarry
      exact .release hclaim
    · cases hcarry
  | drop =>
    obtain rfl := Option.some.inj hcarry
    exact .drop

/-- Only a drop drops the stack. A step makes claims, or moves one claim on; an unlinked claim is
only moved on by its own settlement. -/
theorem perform_frame (hperform : s.perform step = some reply) :
    (step ≠ .drop → reply.state.dropped = s.dropped) ∧
      ((∃ made, reply.state.claims = s.claims ++ made) ∨
        ∃ token ref old new, s.claims[token]? = some ⟨ref, old⟩ ∧
          reply.state.claims = s.advance token ref new ∧
          (old = .held ∨ step = .settle token)) := by
  have hsame : ∃ made, s.claims = s.claims ++ made := ⟨[], (List.append_nil _).symm⟩
  cases performs hperform with
  | push value => exact ⟨fun _ ↦ rfl, Or.inl hsame⟩
  | pop => exact ⟨fun _ ↦ rfl, Or.inl ⟨_, rfl⟩⟩
  | full | nothing | stale => exact ⟨fun _ ↦ rfl, Or.inl hsame⟩
  | claim => exact ⟨fun _ ↦ rfl, Or.inl ⟨_, rfl⟩⟩
  | unlink hclaim => exact ⟨fun _ ↦ rfl, Or.inr ⟨_, _, _, _, hclaim, rfl, Or.inl rfl⟩⟩
  | settle hclaim => exact ⟨fun _ ↦ rfl, Or.inr ⟨_, _, _, _, hclaim, rfl, Or.inr rfl⟩⟩
  | release hclaim => exact ⟨fun _ ↦ rfl, Or.inr ⟨_, _, _, _, hclaim, rfl, Or.inl rfl⟩⟩
  | drop => exact ⟨fun hdrop ↦ absurd rfl hdrop, Or.inl ⟨_, rfl⟩⟩

theorem claimsOn_le_of_perform (hperform : s.perform step = some reply) (node : NodeId) :
    s.claimsOn node ≤ reply.state.claimsOn node := by
  rcases (perform_frame hperform).2 with
    ⟨made, hmade⟩ | ⟨token, ref, old, new, hclaim, hadvance, -⟩
  · rw [claimsOn, claimsOn, hmade, List.countP_append]
    exact Nat.le_add_right _ _
  · exact Nat.le_of_eq (claimsOn_of_advance hadvance hclaim node).symm

/-- A claim that was unlinked stays so until it is settled. -/
theorem getElem?_claims_of_unlinked {ref : Ref}
    (hclaim : s.claims[token]? = some ⟨ref, .unlinked⟩) (hperform : s.perform step = some reply)
    (hother : step ≠ .settle token) : reply.state.claims[token]? = some ⟨ref, .unlinked⟩ := by
  have hlt := (List.getElem?_eq_some_iff.mp hclaim).1
  rcases (perform_frame hperform).2 with
    ⟨made, hmade⟩ | ⟨token', ref', old, new, hclaim', hadvance, hmoved⟩
  · rw [hmade, List.getElem?_append_left hlt]
    exact hclaim
  · have hne : token' ≠ token := by
      rintro rfl
      rcases hmoved with rfl | hsettle
      · rw [hclaim] at hclaim'
        cases hclaim'
      · exact hother hsettle
    rw [hadvance, advance, List.getElem?_set_ne hne]
    exact hclaim

/-- A reader that knows the head claims the top node. -/
theorem perform_claim_head (hkept : s.dropped = false) (hhead : s.stack.head.node ≠ none)
    (hroom : s.stack.head.count.toNat ≠ 2 ^ 64 - 1) :
    s.perform (.claim s.stack.head) = some ⟨s.afterClaim, [],
      .ok (.claimed (some ⟨s.stack.head.node, s.stack.head.count + 1⟩))⟩ := by
  rw [perform_of_kept hkept, carryOut, claimTop_head, if_neg hhead, if_neg hroom]
  rfl

/-- A claim is made on the top node, whatever the hint. -/
theorem claim_cases (hs : s.Balanced) {hint : Ref}
    (hperform : s.perform (.claim hint) = some reply) :
    reply = ⟨s, [], .ok (.claimed none)⟩ ∨
      (∃ top, s.stack.head.node = some top ∧ s.stack.head.count.toNat ≠ 2 ^ 64 - 1 ∧
        reply = ⟨s.afterClaim, [],
          .ok (.claimed (some ⟨s.stack.head.node, s.stack.head.count + 1⟩))⟩) ∨
      reply = ⟨s, [], .error .addOverflow⟩ ∧
        (hint.count.toNat = 2 ^ 64 - 1 ∨ ∃ node, 2 ^ 63 - 1 ≤ s.claimsOn node) := by
  have hcarry := (perform_eq_some_iff.mp hperform).2
  rw [carryOut] at hcarry
  by_cases hnull : hint.node = none
  · rw [claimTop_of_null hnull] at hcarry
    exact Or.inl (Option.some.inj hcarry).symm
  by_cases hfull : hint.count.toNat = 2 ^ 64 - 1
  · rw [claimTop_of_full hnull hfull] at hcarry
    exact Or.inr (Or.inr ⟨(Option.some.inj hcarry).symm, Or.inl hfull⟩)
  rw [claimTop_eq_claimTop_head hnull hfull, claimTop_head] at hcarry
  cases hhead : s.stack.head.node with
  | none =>
    rw [if_pos hhead] at hcarry
    exact Or.inl (Option.some.inj hcarry).symm
  | some top =>
    rw [if_neg (by rw [hhead]; exact Option.some_ne_none top)] at hcarry
    right
    by_cases htop : s.stack.head.count.toNat = 2 ^ 64 - 1
    · rw [if_pos htop] at hcarry
      have hcounted := hs.count_head hhead
      exact Or.inr ⟨(Option.some.inj hcarry).symm, Or.inr ⟨top, by omega⟩⟩
    · rw [if_neg htop] at hcarry
      refine Or.inl ⟨top, rfl, htop, ?_⟩
      rw [← hhead]
      exact (Option.some.inj hcarry).symm

/-- A claim reads and writes the head word only. -/
theorem perform_claim (s : Ledger α) (hint : Ref) : ∃ head made result,
    ∀ t : Ledger α, t.dropped = false → t.stack.head = s.stack.head →
      t.perform (.claim hint) =
        some ⟨{ t with stack := { t.stack with head }, claims := t.claims ++ made }, [],
          result⟩ := by
  by_cases hnull : hint.node = none
  · refine ⟨s.stack.head, [], .ok (.claimed none), ?_⟩
    intro t hkept hhead
    rw [perform_of_kept hkept, carryOut, claimTop_of_null hnull, List.append_nil, ← hhead]
  by_cases hfull : hint.count.toNat = 2 ^ 64 - 1
  · refine ⟨s.stack.head, [], .error .addOverflow, ?_⟩
    intro t hkept hhead
    rw [perform_of_kept hkept, carryOut, claimTop_of_full hnull hfull, List.append_nil, ← hhead]
  by_cases hempty : s.stack.head.node = none
  · refine ⟨s.stack.head, [], .ok (.claimed none), ?_⟩
    intro t hkept hhead
    rw [perform_of_kept hkept, carryOut, claimTop_eq_claimTop_head hnull hfull, claimTop_head,
      if_pos (hhead ▸ hempty), List.append_nil, ← hhead]
  by_cases htop : s.stack.head.count.toNat = 2 ^ 64 - 1
  · refine ⟨s.stack.head, [], .error .addOverflow, ?_⟩
    intro t hkept hhead
    rw [perform_of_kept hkept, carryOut, claimTop_eq_claimTop_head hnull hfull, claimTop_head,
      if_neg (hhead ▸ hempty), if_pos (hhead ▸ htop), List.append_nil, ← hhead]
  · let ref : Ref := ⟨s.stack.head.node, s.stack.head.count + 1⟩
    refine ⟨ref, [⟨ref, .held⟩], .ok (.claimed (some ref)), ?_⟩
    intro t hkept hhead
    rw [perform_of_kept hkept, carryOut, claimTop_eq_claimTop_head hnull hfull, claimTop_head,
      if_neg (hhead ▸ hempty), if_neg (hhead ▸ htop), hhead]

/-- The top node is unlinked exactly if the claim is the head word itself. -/
theorem unlink_cases (hs : s.Balanced) (hperform : s.perform (.unlink token) = some reply) :
    ∃ ref, s.claims[token]? = some ⟨ref, .held⟩ ∧
      ((ref = s.stack.head ∧ ∃ top contents, s.stack.head.node = some top ∧
          s.stack.heap.get? top = some contents ∧
          reply = ⟨s.afterUnlink token contents, [], .ok .unlinked⟩) ∨
        ref ≠ s.stack.head ∧ reply = ⟨s, [], .ok (.notUnlinked s.stack.head)⟩) := by
  cases performs hperform with
  | @unlink _ ref stack hclaim hunlink =>
    obtain ⟨node, contents, hnode, hget⟩ := hs.exists_get?_of_open hclaim (Or.inl rfl)
    rw [unlinkTop_eq hnode hget] at hunlink
    split at hunlink
    · next hhead =>
      subst hhead
      cases hunlink
      exact ⟨_, hclaim, Or.inl ⟨rfl, node, contents, hnode, hget, rfl⟩⟩
    · cases hunlink
  | @stale _ ref current hclaim hunlink =>
    obtain ⟨node, contents, hnode, hget⟩ := hs.exists_get?_of_open hclaim (Or.inl rfl)
    rw [unlinkTop_eq hnode hget] at hunlink
    split at hunlink
    · cases hunlink
    · next hhead =>
      cases hunlink
      exact ⟨ref, hclaim, Or.inr ⟨Ne.symm hhead, rfl⟩⟩

/-- Settling answers the value found in the node. -/
theorem settle_cases (hs : s.Balanced) (hperform : s.perform (.settle token) = some reply) :
    ∃ ref node contents, s.claims[token]? = some ⟨ref, .unlinked⟩ ∧ ref.node = some node ∧
      s.stack.heap.get? node = some contents ∧
      ((∃ count, count = contents.internalCount + (ref.count.toInt64 - 2) ∧
          reply = ⟨s.afterFinish token ⟨ref, .settled⟩ node count,
            (s.stack.finish node count).events,
            .ok (.settled (some contents.value) (decide (count = 0)))⟩) ∨
        s.Overruns reply.result) := by
  cases performs hperform with | @settle _ ref hclaim =>
  obtain ⟨node, contents, hnode, hget⟩ := hs.exists_get?_of_open hclaim (Or.inr rfl)
  refine ⟨ref, node, contents, hclaim, hnode, hget, ?_⟩
  rw [(node?_eq_get? hnode).trans hget]
  rcases settle_eq_finish_or_overflows hnode hget with hsettle | ⟨hle, hoverflow⟩
  · refine Or.inl ⟨_, rfl, ?_⟩
    rw [conclude, hsettle, finish_result]
    rfl
  · refine Or.inr ⟨overflows_map.mpr hoverflow, node, ?_⟩
    have hobserved : ref.count.toNat = 1 + s.claimsOn node :=
      hs.observed _ (List.mem_of_getElem? hclaim) (Or.inl rfl) node hnode
    omega

/-- Releasing never faults. -/
theorem release_eq_some (hs : s.Balanced) (hperform : s.perform (.release token) = some reply) :
    ∃ ref node contents count, s.claims[token]? = some ⟨ref, .held⟩ ∧ ref.node = some node ∧
      s.stack.heap.get? node = some contents ∧ count = contents.internalCount + -1 ∧
      reply = ⟨s.afterFinish token ⟨ref, .released⟩ node count,
        (s.stack.finish node count).events, .ok (.released (decide (count = 0)))⟩ := by
  cases performs hperform with | @release _ ref hclaim =>
  obtain ⟨node, contents, hnode, hget⟩ := hs.exists_get?_of_open hclaim (Or.inl rfl)
  refine ⟨ref, node, contents, _, hclaim, hnode, hget, rfl, ?_⟩
  rw [conclude, release_eq hnode hget, finish_result, Int64.sub_eq_add_neg]
  rfl

/-! ## All steps -/

/-- A step of a balanced ledger is a row of effects, or overruns. -/
theorem perform_effects (hs : s.Balanced) (hperform : s.perform step = some reply) :
    Effects s (freedNodes reply.events) reply.state ∨ reply.state.Overruns reply.result := by
  have hcarry := (perform_eq_some_iff.mp hperform).2
  cases step with
  | push value =>
    obtain rfl := Option.some.inj hcarry
    exact Or.inl (.single (.push value))
  | pop =>
    obtain rfl := Option.some.inj hcarry
    cases hhead : s.stack.head.node with
    | none =>
      left
      rw [pop_of_null hhead, afterPops_self]
      exact .refl
    | some top =>
      rcases pop_cases hs hhead with ⟨contents, -, -, -, heffects⟩ | hoverrun
      · exact Or.inl heffects
      · exact Or.inr (hoverrun.map rfl)
  | claim hint =>
    left
    rcases claim_cases hs hperform with rfl | ⟨top, hhead, hroom, rfl⟩ | ⟨rfl, -⟩
    · exact .refl
    · exact .single (.claim hhead hroom)
    · exact .refl
  | unlink token =>
    left
    obtain ⟨ref, hclaim, ⟨rfl, top, contents, hhead, hget, rfl⟩ | ⟨-, rfl⟩⟩ :=
      unlink_cases hs hperform
    · exact .single (.unlink hclaim hhead hget)
    · exact .refl
  | settle token =>
    obtain ⟨ref, node, contents, hclaim, hnode, hget, ⟨count, rfl, rfl⟩ | hoverrun⟩ :=
      settle_cases hs hperform
    · left
      rw [freedNodes_finish]
      exact .single (.finish .settle hclaim hnode hget)
    · exact Or.inr (hoverrun.mono (claimsOn_le_of_perform hperform))
  | release token =>
    obtain ⟨ref, node, contents, count, hclaim, hnode, hget, hcount, rfl⟩ :=
      release_eq_some hs hperform
    left
    rw [freedNodes_finish, hcount]
    exact .single (.finish .release hclaim hnode hget)
  | drop =>
    obtain rfl := Option.some.inj hcarry
    rcases popAndDrop_cases s.stack.chain.length hs with ⟨heffects, -⟩ | hoverrun
    · left
      have hclose := heffects.tail .close
      rwa [List.append_nil] at hclose
    · exact Or.inr (hoverrun.map rfl)

theorem balanced_of_perform (hs : s.Balanced) (hperform : s.perform step = some reply)
    (hcalm : ¬ Overflows reply.result) : reply.state.Balanced := by
  rcases perform_effects hs hperform with heffects | hoverrun
  · exact heffects.balanced hs
  · exact absurd hoverrun.1 hcalm

/-- A step other than a drop faults only if its hint is full or if it overruns. -/
theorem perform_result (hs : s.Balanced) (hperform : s.perform step = some reply)
    (hdrop : step ≠ .drop) :
    (∃ answer, reply.result = .ok answer) ∨
      (∃ hint, step = .claim hint ∧ hint.count.toNat = 2 ^ 64 - 1) ∨
      reply.state.Overruns reply.result := by
  have hcarry := (perform_eq_some_iff.mp hperform).2
  cases step with
  | push value =>
    obtain rfl := Option.some.inj hcarry
    exact Or.inl ⟨_, rfl⟩
  | pop =>
    obtain rfl := Option.some.inj hcarry
    cases hhead : s.stack.head.node with
    | none =>
      rw [pop_of_null hhead]
      exact Or.inl ⟨_, rfl⟩
    | some top =>
      rcases pop_cases hs hhead with ⟨contents, -, hresult, -, -⟩ | hoverrun
      · rw [hresult]
        exact Or.inl ⟨_, rfl⟩
      · exact Or.inr (Or.inr (hoverrun.map rfl))
  | claim hint =>
    rcases claim_cases hs hperform with rfl | ⟨top, -, -, rfl⟩ | ⟨rfl, hfull | hmany⟩
    · exact Or.inl ⟨_, rfl⟩
    · exact Or.inl ⟨_, rfl⟩
    · exact Or.inr (Or.inl ⟨hint, rfl, hfull⟩)
    · exact Or.inr (Or.inr ⟨⟨_, rfl, rfl⟩, hmany⟩)
  | unlink token =>
    left
    obtain ⟨ref, -, ⟨-, top, contents, -, -, rfl⟩ | ⟨-, rfl⟩⟩ := unlink_cases hs hperform
    · exact ⟨_, rfl⟩
    · exact ⟨_, rfl⟩
  | settle token =>
    obtain ⟨ref, node, contents, -, -, -, ⟨count, -, rfl⟩ | hoverrun⟩ := settle_cases hs hperform
    · exact Or.inl ⟨_, rfl⟩
    · exact Or.inr (Or.inr (hoverrun.mono (claimsOn_le_of_perform hperform)))
  | release token =>
    obtain ⟨ref, node, contents, count, -, -, -, -, rfl⟩ := release_eq_some hs hperform
    exact Or.inl ⟨_, rfl⟩
  | drop => exact absurd rfl hdrop

end Reclaim.CountedStack.Ledger
