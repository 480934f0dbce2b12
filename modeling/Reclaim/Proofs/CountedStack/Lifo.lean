import Reclaim.Proofs.CountedStack.Freeing

/-!
# Last in, first out

`toList` reads the values along the chain. A push puts a value in front of them, unlinking a node or
popping takes the first one away, and all other steps on shared memory leave them as they are. A
node keeps its value until it is freed, so whoever unlinked it hands out that value at last,
whatever happens in between.
-/

namespace Reclaim.CountedStack

variable {α : Type} {s : CountedStack α}

theorem WellLinked.toList_push (hs : s.WellLinked) (value : α) :
    (s.push value).2.toList = value :: s.toList := by
  rw [toList, (hs.chain_push value).1, List.map_cons, toList]

theorem WellLinked.toList_eq_nil_iff (hs : s.WellLinked) :
    s.toList = [] ↔ s.head.node = none := by
  rw [toList, List.map_eq_nil_iff, hs.chain_eq_nil_iff]

theorem WellLinked.isEmpty_eq (hs : s.WellLinked) : s.isEmpty = s.toList.isEmpty := by
  rw [Bool.eq_iff_iff, isEmpty_iff, ← hs.toList_eq_nil_iff, List.isEmpty_iff]

namespace Ledger

variable {s t : Ledger α} {freed : List NodeId} {node : NodeId}

theorem Effect.value_eq (heffect : Effect s freed t) (hlt : node < s.stack.heap.size)
    {after : Node α} (hafter : t.stack.heap.get? node = some after) :
    ∃ before, s.stack.heap.get? node = some before ∧ before.value = after.value := by
  cases heffect with
  | push value =>
    rw [get?_push, if_neg (Nat.ne_of_lt hlt)] at hafter
    exact ⟨after, hafter, rfl⟩
  | claim => exact ⟨after, hafter, rfl⟩
  | unlink => exact ⟨after, hafter, rfl⟩
  | @finish token ref old new delta other contents _ _ _ hget =>
    change (s.stack.finish other _).state.heap.get? node = some after at hafter
    rw [get?_finish, hget] at hafter
    by_cases hsame : other = node
    · rw [if_pos hsame] at hafter
      split at hafter
      · cases hafter
      · cases hafter
        rw [← hsame]
        exact ⟨contents, hget, rfl⟩
    · rw [if_neg hsame] at hafter
      exact ⟨after, hafter, rfl⟩
  | close => exact ⟨after, hafter, rfl⟩

/-- A node that is still live has the value that it always had. -/
theorem Effects.value_eq (heffects : Effects s freed t) (hlt : node < s.stack.heap.size)
    {after : Node α} (hafter : t.stack.heap.get? node = some after) :
    ∃ before, s.stack.heap.get? node = some before ∧ before.value = after.value := by
  induction heffects generalizing after with
  | refl => exact ⟨after, hafter, rfl⟩
  | tail heffects heffect ih =>
    obtain ⟨between, hbetween, hvalue⟩ :=
      heffect.value_eq (Nat.lt_of_lt_of_le hlt heffects.size_le) hafter
    obtain ⟨before, hbefore, hvalue'⟩ := ih hbetween
    exact ⟨before, hbefore, hvalue'.trans hvalue⟩

variable [Destructor α] {moves : List (Move α)} {step : Step α} {reply : Reply α} {token : Nat}

theorem Run.getElem?_claims_of_unlinked (hrun : Run s moves t) {ref : Ref}
    (hclaim : s.claims[token]? = some ⟨ref, .unlinked⟩)
    (hothers : ∀ move ∈ moves, move.step ≠ .settle token) :
    t.claims[token]? = some ⟨ref, .unlinked⟩ := by
  induction hrun with
  | start => exact hclaim
  | @step moves pre step reply _ hperform ih =>
    have hbefore := ih fun move hmem ↦ hothers move (List.mem_append_left _ hmem)
    apply Ledger.getElem?_claims_of_unlinked hbefore hperform
    exact hothers ⟨step, reply⟩ (List.mem_append_right moves List.mem_cons_self)

/-- Settling is what a token that unlinked a node may do next, and it hands out the node's value. -/
theorem settle_of_unlinked (hs : s.Balanced) {ref : Ref} {contents : Node α}
    (hclaim : s.claims[token]? = some ⟨ref, .unlinked⟩) (hnode : ref.node = some node)
    (hget : s.stack.heap.get? node = some contents) :
    ∃ reply, s.perform (.settle token) = some reply ∧ (¬ Overflows reply.result →
      ∃ freed, reply.result = .ok (.settled (some contents.value) freed)) := by
  have hperform : s.perform (.settle token) = some (s.conclude (s.advance token ref .settled)
      (.settled ((s.stack.node? ref).map (·.value))) (s.stack.settle ref)) := by
    rw [perform_eq_some_iff]
    refine ⟨fun _ ↦ rfl, ?_⟩
    rw [carryOut, hclaim]
  refine ⟨_, hperform, ?_⟩
  intro hcalm
  obtain ⟨ref', node', found, hclaim', hnode', hfound, ⟨count, -, hreply⟩ | hoverrun⟩ :=
    settle_cases hs hperform
  · rw [hclaim] at hclaim'
    cases hclaim'
    obtain rfl := Option.some.inj (hnode.symm.trans hnode')
    obtain rfl := Option.some.inj (hget.symm.trans hfound)
    rw [hreply]
    exact ⟨_, rfl⟩
  · exact absurd hoverrun.1 hcalm

/-- Unlinking takes the first value away, and keeps it for the settlement. -/
theorem toList_unlink (hs : s.Balanced) (hperform : s.perform (.unlink token) = some reply)
    (hresult : reply.result = .ok .unlinked) :
    ∃ ref node contents, reply.state.claims[token]? = some ⟨ref, .unlinked⟩ ∧
      ref.node = some node ∧ reply.state.stack.heap.get? node = some contents ∧
      s.stack.toList = contents.value :: reply.state.stack.toList := by
  obtain ⟨ref, hclaim, ⟨rfl, top, contents, hhead, hget, rfl⟩ | ⟨-, rfl⟩⟩ :=
    unlink_cases hs hperform
  · obtain ⟨found, hfound, hchain, -⟩ := hs.linked.chain_eq_cons hhead
    obtain rfl := Option.some.inj (hget.symm.trans hfound)
    have hlt := (List.getElem?_eq_some_iff.mp hclaim).1
    refine ⟨s.stack.head, top, contents, ?_, hhead, hget, toList_eq_cons hchain⟩
    exact List.getElem?_set_self hlt
  · cases hresult

/-- What a token unlinked is what its settlement hands out, whatever the others do in between. -/
theorem settle_after_unlink (hs : s.Balanced) (hperform : s.perform (.unlink token) = some reply)
    (hresult : reply.result = .ok .unlinked) :
    ∃ value, s.stack.toList = value :: reply.state.stack.toList ∧
      ∀ later t, Run reply.state later t → Calm later →
        (∀ move ∈ later, move.step ≠ .settle token) →
          ∃ final, t.perform (.settle token) = some final ∧ (¬ Overflows final.result →
            ∃ freed, final.result = .ok (.settled (some value) freed)) := by
  obtain ⟨ref, node, contents, hclaim, hnode, hget, hlist⟩ := toList_unlink hs hperform hresult
  refine ⟨contents.value, hlist, ?_⟩
  intro later t hrun hcalm hothers
  have hreply : reply.state.Balanced := by
    rcases perform_effects hs hperform with heffects | hoverrun
    · exact heffects.balanced hs
    · exact absurd hoverrun.1 (hresult ▸ not_overflows_ok _)
  have heffects := hrun.effects hreply hcalm
  have ht := heffects.balanced hreply
  -- The claim stays open until its settlement, so its node is live and has its value all along.
  have hclaim' := hrun.getElem?_claims_of_unlinked hclaim hothers
  obtain ⟨node', after, hnode', hafter⟩ := ht.exists_get?_of_open hclaim' (Or.inr rfl)
  obtain rfl : node = node' := Option.some.inj (hnode.symm.trans hnode')
  obtain ⟨before, hbefore, hvalue⟩ :=
    heffects.value_eq (Heap.lt_size_of_get? hget) hafter
  obtain rfl := Option.some.inj (hget.symm.trans hbefore)
  rw [hvalue]
  exact settle_of_unlinked ht hclaim' hnode hafter

/-- Claiming, failing to unlink and finishing a claim leave the values alone. -/
theorem toList_of_silent (hs : s.Balanced) (hperform : s.perform step = some reply)
    (hcalm : ¬ Overflows reply.result)
    (hstep : (∃ hint, step = .claim hint) ∨
      (∃ token, step = .unlink token ∧ reply.result ≠ .ok .unlinked) ∨
      ∃ token, step = .settle token ∨ step = .release token) :
    reply.state.stack.toList = s.stack.toList := by
  have hfinish {token : Nat} {ref : Ref} {old new : Stage} {delta : Int64} {node : NodeId}
      {contents : Node α} (hfinish : Finish ref old new delta)
      (hclaim : s.claims[token]? = some ⟨ref, old⟩) (hnode : ref.node = some node)
      (hget : s.stack.heap.get? node = some contents) :
      (s.afterFinish token ⟨ref, new⟩ node (contents.internalCount + delta)).stack.toList =
        s.stack.toList := by
    apply hs.linked.toList_finish
    exact hs.not_linked_of_add_eq_zero hfinish hclaim hnode hget
  rcases hstep with ⟨hint, rfl⟩ | ⟨token, rfl, hfailed⟩ | ⟨token, rfl | rfl⟩
  · rcases claim_cases hs hperform with rfl | ⟨top, hhead, -, rfl⟩ | ⟨rfl, -⟩
    · rfl
    · exact congrArg (List.map _) (hs.linked.chain_setHead rfl).1
    · rfl
  · obtain ⟨ref, -, ⟨-, top, contents, -, -, rfl⟩ | ⟨-, rfl⟩⟩ := unlink_cases hs hperform
    · exact absurd rfl hfailed
    · rfl
  · obtain ⟨ref, node, contents, hclaim, hnode, hget, ⟨count, rfl, rfl⟩ | hoverrun⟩ :=
      settle_cases hs hperform
    · exact hfinish .settle hclaim hnode hget
    · exact absurd hoverrun.1 hcalm
  · obtain ⟨ref, node, contents, count, hclaim, hnode, hget, hcount, rfl⟩ :=
      release_eq_some hs hperform
    rw [hcount]
    exact hfinish .release hclaim hnode hget

/-- A pop takes the first value away and answers it; a pop of an empty stack changes nothing. -/
theorem pop_spec (hs : s.Balanced) (hkept : s.dropped = false) :
    ∃ reply, s.perform .pop = some reply ∧ (¬ Overflows reply.result →
      (∀ value rest, s.stack.toList = value :: rest →
        reply.result = .ok (.popped (some value)) ∧ reply.state.stack.toList = rest) ∧
      (s.stack.toList = [] → reply = ⟨s, [], .ok (.popped none)⟩)) := by
  have hempty := hs.linked.toList_eq_nil_iff
  refine ⟨_, perform_of_kept hkept .pop, ?_⟩
  intro hcalm
  change ¬ Overflows (s.stack.pop.result.map _) at hcalm
  cases hhead : s.stack.head.node with
  | none =>
    have hnil := hempty.mpr hhead
    rw [pop_of_null hhead, afterPops_self, hnil]
    refine ⟨?_, fun _ ↦ rfl⟩
    intro value rest hcons
    cases hcons
  | some top =>
    rcases pop_cases hs hhead with ⟨contents, -, hresult, hlevels, -⟩ | hoverrun
    · have hlist : s.stack.toList = contents.value :: s.stack.pop.state.toList :=
        calc
          s.stack.toList = s.stack.levels.map fun level ↦ level.2.2.value :=
            toList_eq_map_levels s.stack
          _ = contents.value :: s.stack.pop.state.levels.map fun level ↦ level.2.2.value := by
            rw [hlevels, List.map_cons]
          _ = contents.value :: s.stack.pop.state.toList := by rw [toList_eq_map_levels]
      rw [hlist, hresult]
      refine ⟨?_, ?_⟩
      · intro value rest hcons
        obtain ⟨rfl, rfl⟩ := List.cons.inj hcons
        exact ⟨rfl, rfl⟩
      · intro hnil
        cases hnil
    · exact absurd (overflows_map.mpr hoverrun.1) hcalm

/-- A stack with split reference counts is a stack. In every run in which checked arithmetic does
not fault, its steps act on the list of its values as the steps of a stack do: a push puts a value
in front, and a pop or a successful unlinking takes the first value away. The pop answers that
value; who unlinked it hands it out when settling, however many steps later. Other steps leave the
values alone, and the stack is empty exactly if there are none. -/
theorem acts_as_stack (hrun : Run {} moves s)
    (hcalm : ∀ move ∈ moves, ¬ Overflows move.reply.result) :
    (s.dropped = false → ∀ value, ∃ reply node, s.perform (.push value) = some reply ∧
      reply.result = .ok (.pushed node) ∧
      reply.state.stack.toList = value :: s.stack.toList) ∧
    (∀ token reply, s.perform (.unlink token) = some reply → reply.result = .ok .unlinked →
      ∃ value, s.stack.toList = value :: reply.state.stack.toList ∧
        ∀ later t, Run reply.state later t →
          (∀ move ∈ later, ¬ Overflows move.reply.result ∧ move.step ≠ .settle token) →
            ∃ final, t.perform (.settle token) = some final ∧ (¬ Overflows final.result →
              ∃ freed, final.result = .ok (.settled (some value) freed))) ∧
    (∀ step reply, s.perform step = some reply → ¬ Overflows reply.result →
      ((∃ hint, step = .claim hint) ∨
        (∃ token, step = .unlink token ∧ reply.result ≠ .ok .unlinked) ∨
        ∃ token, step = .settle token ∨ step = .release token) →
      reply.state.stack.toList = s.stack.toList) ∧
    (s.dropped = false → ∃ reply, s.perform .pop = some reply ∧ (¬ Overflows reply.result →
      (∀ value rest, s.stack.toList = value :: rest →
        reply.result = .ok (.popped (some value)) ∧ reply.state.stack.toList = rest) ∧
      (s.stack.toList = [] → reply = ⟨s, [], .ok (.popped none)⟩))) ∧
    (s.stack.isEmpty = true ↔ s.stack.toList = []) := by
  have hs : s.Balanced := hrun.balanced (calm_of_not_overflows hcalm)
  refine ⟨?_, ?_, ?_, pop_spec hs, ?_⟩
  · intro hkept value
    exact ⟨_, _, perform_of_kept hkept (.push value), rfl, hs.linked.toList_push value⟩
  · intro token reply hperform hresult
    obtain ⟨value, hlist, hlater⟩ := settle_after_unlink hs hperform hresult
    refine ⟨value, hlist, ?_⟩
    intro later t hrun' hmoves
    apply hlater later t hrun'
    · exact calm_of_not_overflows fun move hmem ↦ (hmoves move hmem).1
    · exact fun move hmem ↦ (hmoves move hmem).2
  · intro step reply hperform hresult hstep
    exact toList_of_silent hs hperform hresult hstep
  · rw [isEmpty_iff, hs.linked.toList_eq_nil_iff]

/-- The reader that unlinked a contended node settles it with the value that was on top, although
the stack was dropped before. -/
theorem acts_as_stack_contention : ∃ final,
    ({ contended (some (-1)) CountedRef.null
        [⟨⟨some 0, 2⟩, .released⟩, ⟨⟨some 0, 3⟩, .unlinked⟩] with dropped := true }).perform
      (.settle 1) = some final ∧
    (¬ Overflows final.result → ∃ freed, final.result = .ok (.settled (some 5) freed)) := by
  have hstack := acts_as_stack run_contention (by
    intro move hmem
    simp only [contention, List.mem_cons, List.not_mem_nil, or_false] at hmem
    rcases hmem with rfl | rfl | rfl <;> exact not_overflows_ok _)
  obtain ⟨value, hlist, hlater⟩ := hstack.2.1 1 unlinking.reply rfl rfl
  obtain ⟨rfl, -⟩ := List.cons.inj hlist
  apply hlater leaving _ run_leaving
  intro move hmem
  simp only [leaving, List.mem_cons, List.not_mem_nil, or_false] at hmem
  rcases hmem with rfl | rfl
  · exact ⟨not_overflows_ok _, nofun⟩
  · exact ⟨not_overflows_ok _, nofun⟩

end Ledger

end Reclaim.CountedStack
