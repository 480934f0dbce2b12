import Reclaim.Proofs.CountedStack.Freeing

/-!
# No use after free

`follows` lists the references that a step follows, each with the stack as it is at that moment.
None of them is null or leads to a freed node, whatever the steps before were: whoever follows a
reference holds a claim on its node, except for the node that a push has just made.
-/

namespace Reclaim.CountedStack

variable {α : Type} {s : CountedStack α}

/-- What a pop follows that believes the head to be `hint`: the claimed node's reference to the node
below, then the node's value and count if it was unlinked, or its count if the claim is given up. -/
def popFollows (s : CountedStack α) (hint : Ref) : List (CountedStack α × Ref) :=
  match _attempt : s.claimTop hint with
  | .error _ => []
  | .ok (none, _) => []
  | .ok (some claimed, s) =>
    (s, claimed) ::
      match s.unlinkTop claimed with
      | .ok s => [(s, claimed)]
      | .error current => (s, claimed) :: (s.release claimed).state.popFollows current
termination_by UInt64.size - s.head.count.toNat
decreasing_by
  have hraised := claimTop_count _attempt
  have hbound := (s.release claimed).state.head.count.toNat_lt_size
  rw [release_head] at *
  omega

/-- What a drop follows in up to `count` pops. -/
def popAndDropFollows [Destructor α] : Nat → CountedStack α → List (CountedStack α × Ref)
  | 0, _ => []
  | count + 1, s =>
    s.popFollows s.head ++
      match s.pop.result with
      | .ok (some value) =>
        if (Destructor.fault? value).isNone then popAndDropFollows count s.pop.state else []
      | _ => []

theorem popFollows_eq (s : CountedStack α) (hint : Ref) :
    s.popFollows hint =
      match s.claimTop hint with
      | .error _ => []
      | .ok (none, _) => []
      | .ok (some claimed, t) =>
        (t, claimed) ::
          match t.unlinkTop claimed with
          | .ok t => [(t, claimed)]
          | .error current => (t, claimed) :: (t.release claimed).state.popFollows current := by
  rw [popFollows]
  split <;> next hclaim => exact hclaim ▸ rfl

theorem popFollows_of_null (hhead : s.head.node = none) : s.popFollows s.head = [] := by
  rw [popFollows_eq, claimTop_of_null hhead]

theorem popFollows_of_top {top : NodeId} {contents : Node α} (hhead : s.head.node = some top)
    (hget : s.heap.get? top = some contents) :
    s.popFollows s.head =
      if s.head.count.toNat = 2 ^ 64 - 1 then []
      else
        [({ s with head := ⟨s.head.node, s.head.count + 1⟩ }, ⟨s.head.node, s.head.count + 1⟩),
          ({ s with head := contents.next }, ⟨s.head.node, s.head.count + 1⟩)] := by
  rw [popFollows_eq, claimTop_head, if_neg (by simp [hhead])]
  by_cases hfull : s.head.count.toNat = 2 ^ 64 - 1
  · rw [if_pos hfull, if_pos hfull]
  · rw [if_neg hfull, if_neg hfull]
    simp only
    rw [unlinkTop_claimed hhead hget]

/-- A pop follows references to the live top node only. -/
theorem WellLinked.popFollows_live (hs : s.WellLinked) :
    ∀ follow ∈ s.popFollows s.head, (follow.1.node? follow.2).isSome := by
  intro follow hmem
  cases hhead : s.head.node with
  | none =>
    rw [popFollows_of_null hhead] at hmem
    cases hmem
  | some top =>
    obtain ⟨contents, hget, -, -⟩ := hs.chain_eq_cons hhead
    rw [popFollows_of_top hhead hget] at hmem
    have hlive (stack : CountedStack α) (hheap : stack.heap = s.heap) :
        (stack.node? ⟨s.head.node, s.head.count + 1⟩).isSome := by
      rw [node?, hhead, Option.bind_some, hheap, hget]
      rfl
    split at hmem
    · cases hmem
    · rcases List.mem_cons.mp hmem with rfl | hmem
      · exact hlive _ rfl
      · rw [List.mem_singleton.mp hmem]
        exact hlive _ rfl

theorem WellLinked.popAndDropFollows_live [Destructor α] (count : Nat) (hs : s.WellLinked) :
    ∀ follow ∈ popAndDropFollows count s, (follow.1.node? follow.2).isSome := by
  induction count generalizing s with
  | zero =>
    intro follow hmem
    cases hmem
  | succ count ih =>
    intro follow hmem
    rw [popAndDropFollows, List.mem_append] at hmem
    rcases hmem with hmem | hmem
    · exact hs.popFollows_live follow hmem
    · split at hmem
      · split at hmem
        · exact ih hs.levels_pop_suffix.2 follow hmem
        · cases hmem
      · cases hmem

namespace Ledger

/-- The references that a step follows, each with the stack as it is at that moment. -/
def follows {α : Type} [Destructor α] (s : Ledger α) : Step α → List (CountedStack α × Ref)
  | .push value => [((s.stack.push value).2, (s.stack.push value).2.head)]
  | .pop => s.stack.popFollows s.stack.head
  | .claim _ => []
  | .unlink token | .settle token | .release token =>
    (s.claims[token]?).toList.map fun claim ↦ (s.stack, claim.ref)
  | .drop => popAndDropFollows s.stack.chain.length s.stack

variable {s : Ledger α}

/-- Whoever holds a claim finds its node. -/
theorem Balanced.node?_isSome (hs : s.Balanced) {claim : Claim} (hmem : claim ∈ s.claims)
    (hopen : claim.IsOpen) : (s.stack.node? claim.ref).isSome := by
  obtain ⟨token, hclaim⟩ := List.getElem?_of_mem hmem
  obtain ⟨node, contents, hnode, hget⟩ := hs.exists_get?_of_open hclaim hopen
  rw [node?_eq_get? hnode, hget]
  rfl

theorem Balanced.follows_live [Destructor α] {step : Step α} {reply : Reply α} (hs : s.Balanced)
    (hperform : s.perform step = some reply) :
    ∀ follow ∈ s.follows step, (follow.1.node? follow.2).isSome := by
  have htoken (token : Nat) {ref : Ref} {stage : Stage}
      (hclaim : s.claims[token]? = some ⟨ref, stage⟩) (hopen : stage = .held ∨ stage = .unlinked) :
      ∀ follow ∈ (s.claims[token]?).toList.map fun claim ↦ (s.stack, claim.ref),
        (follow.1.node? follow.2).isSome := by
    intro follow hmem
    rw [hclaim, Option.toList_some, List.map_singleton, List.mem_singleton] at hmem
    rw [hmem]
    exact hs.node?_isSome (List.mem_of_getElem? hclaim) hopen
  cases step with
  | push value =>
    intro follow hmem
    rw [List.mem_singleton.mp hmem]
    change ((s.stack.push value).2.heap.get? s.stack.heap.size).isSome
    rw [get?_push, if_pos rfl]
    rfl
  | pop => exact hs.linked.popFollows_live
  | claim hint =>
    intro follow hmem
    cases hmem
  | unlink token =>
    obtain ⟨ref, hclaim, -⟩ := unlink_cases hs hperform
    exact htoken token hclaim (Or.inl rfl)
  | settle token =>
    obtain ⟨ref, node, contents, hclaim, -⟩ := settle_cases hs hperform
    exact htoken token hclaim (Or.inr rfl)
  | release token =>
    obtain ⟨ref, node, contents, count, hclaim, -⟩ := release_eq_some hs hperform
    exact htoken token hclaim (Or.inl rfl)
  | drop => exact hs.linked.popAndDropFollows_live _

/-- No use after free. In every run within the bound on claims, drops included, the chain is whole
and consists of live nodes, the nodes of open claims are live, and every reference that the next
step follows leads to a live node. The nodes freed in the run are the ones that the heap has no
longer, and each was freed once. -/
theorem no_use_after_free [Destructor α] {moves : List (Move α)} (hrun : Run {} moves s)
    (hbounded : s.Bounded) :
    (s.stack.WellLinked ∧ ∀ node ∈ s.stack.linked, node ∉ freedIn moves) ∧
      (∀ claim ∈ s.claims, claim.IsOpen → ∃ node, claim.IsOn node ∧ node ∉ freedIn moves) ∧
      (∀ step reply, s.perform step = some reply →
        ∀ follow ∈ s.follows step, (follow.1.node? follow.2).isSome) ∧
      (∀ node, node ∈ freedIn moves ↔ s.IsFreed node) ∧
      (freedIn moves).Nodup := by
  have hcalm := hrun.calm hbounded
  have hs : s.Balanced := hrun.balanced hcalm
  have hfreed := hrun.mem_freedIn_iff hcalm
  refine ⟨⟨hs.linked, ?_⟩, ?_, ?_, hfreed, hrun.nodup_freedIn hcalm⟩
  · intro node hlinked
    obtain ⟨contents, -, hget⟩ := hs.linked.exists_get? hlinked
    rw [hfreed]
    exact not_isFreed_of_get? hget
  · intro claim hmem hopen
    obtain ⟨token, hclaim⟩ := List.getElem?_of_mem hmem
    obtain ⟨node, contents, hnode, hget⟩ := hs.exists_get?_of_open hclaim hopen
    refine ⟨node, hnode, ?_⟩
    rw [hfreed]
    exact not_isFreed_of_get? hget
  · intro step reply hperform
    exact hs.follows_live hperform

/-- The reader that unlinked a contended node frees it at last, and nobody frees it again. -/
theorem no_use_after_free_contention :
    0 ∈ freedIn (contention ++ [unlinking] ++ leaving ++ [settling]) ∧
      (freedIn (contention ++ [unlinking] ++ leaving ++ [settling])).Nodup := by
  have hsafe := no_use_after_free run_settling
    (fun node ↦ Nat.le_trans List.countP_le_length (by decide))
  exact ⟨(hsafe.2.2.2.1 0).mpr ⟨by decide, rfl⟩, hsafe.2.2.2.2⟩

end Ledger

end Reclaim.CountedStack
