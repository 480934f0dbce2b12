import Reclaim.Proofs.CountedStack.Freeing

/-!
# Reclamation

A node stays as long as it is linked or a claim on it is open, and no longer: the step that ends the
last of these frees it. Whether that is the settlement or a release depends on the order in which
the readers finish. Once the stack is dropped and all claims are finished, nothing is left of it.
-/

namespace Reclaim.CountedStack.Ledger

variable {α : Type} {s t : Ledger α} {node : NodeId}

def Answer.freed : Answer α → Bool
  | .settled _ freed | .released freed => freed
  | _ => false

def Idle (s : Ledger α) : Prop := ∀ claim ∈ s.claims, ¬ claim.IsOpen

instance (s : Ledger α) : Decidable s.Idle :=
  inferInstanceAs (Decidable (∀ claim ∈ s.claims, ¬ claim.IsOpen))

theorem Idle.openOn_eq_zero (hidle : s.Idle) (node : NodeId) : s.openOn node = 0 := by
  rw [openOn, List.countP_eq_zero]
  intro claim hmem hopen
  exact hidle claim hmem (of_decide_eq_true hopen).2

namespace Balanced

/-- A node is gone exactly if it is not linked any more and no claim on it is open. -/
theorem isFreed_iff (hs : s.Balanced) (node : NodeId) : s.IsFreed node ↔
    node < s.stack.heap.size ∧ node ∉ s.stack.linked ∧ s.openOn node = 0 := by
  rw [IsFreed]
  apply and_congr_right
  intro hlt
  rw [← Option.not_isSome_iff_eq_none, hs.live node hlt, not_or, Nat.not_lt, Nat.le_zero]

/-- A node that nobody keeps any more was settled. -/
theorem tally_settled_pos (hs : s.Balanced) (hlt : node < s.stack.heap.size)
    (hunlinked : node ∉ s.stack.linked) (hnobody : s.openOn node = 0) :
    0 < s.tally node .settled := by
  have htaken := hs.taken node hlt
  rw [if_neg hunlinked] at htaken
  rw [openOn_eq] at hnobody
  omega

/-- Without open claims the live nodes are the linked ones. -/
theorem mem_live_iff (hs : s.Balanced) (hidle : s.Idle) (node : NodeId) :
    node ∈ s.stack.heap.live ↔ node ∈ s.stack.linked := by
  have hlive : node < s.stack.heap.size →
      ((s.stack.heap.get? node).isSome ↔ node ∈ s.stack.linked) := by
    intro hlt
    rw [hs.live node hlt, hidle.openOn_eq_zero]
    exact or_iff_left (Nat.lt_irrefl 0)
  rw [Heap.live, List.mem_filter, List.mem_range]
  constructor
  · rintro ⟨hlt, hsome⟩
    exact (hlive hlt).mp hsome
  · intro hlinked
    exact ⟨hs.linked.lt_size hlinked, (hlive (hs.linked.lt_size hlinked)).mpr hlinked⟩

end Balanced

section

variable [Destructor α] {step : Step α} {reply : Reply α} {token : Nat}

/-- Settling and releasing answer whether they brought the internal count to zero. -/
theorem finish_cases (hs : s.Balanced) (hbounded : s.Bounded)
    (hstep : step = .settle token ∨ step = .release token)
    (hperform : s.perform step = some reply) :
    ∃ ref old new delta node contents answer, Finish ref old new delta ∧
      s.claims[token]? = some ⟨ref, old⟩ ∧ ref.node = some node ∧
      s.stack.heap.get? node = some contents ∧
      reply.state = s.afterFinish token ⟨ref, new⟩ node (contents.internalCount + delta) ∧
      freedNodes reply.events = (if contents.internalCount + delta = 0 then [node] else []) ∧
      reply.result = .ok answer ∧ answer.freed = decide (contents.internalCount + delta = 0) := by
  rcases hstep with rfl | rfl
  · obtain ⟨ref, node, contents, hclaim, hnode, hget, ⟨count, hcount, hreply⟩ | hoverrun⟩ :=
      settle_cases hs hperform
    · refine ⟨ref, .unlinked, .settled, ref.count.toInt64 - 2, node, contents,
        .settled (some contents.value) (decide (count = 0)), .settle, hclaim, hnode, hget, ?_⟩
      rw [← hcount, hreply, ← freedNodes_finish]
      exact ⟨rfl, rfl, rfl, rfl⟩
    · exact absurd hoverrun (hbounded.not_overruns _)
  · obtain ⟨ref, node, contents, count, hclaim, hnode, hget, hcount, hreply⟩ :=
      release_eq_some hs hperform
    refine ⟨ref, .held, .released, -1, node, contents, .released (decide (count = 0)), .release,
      hclaim, hnode, hget, ?_⟩
    rw [← hcount, hreply, ← freedNodes_finish]
    exact ⟨rfl, rfl, rfl, rfl⟩

/-- A step that finishes a claim frees the node exactly if it was the last to keep it. -/
theorem freed_iff_last (hs : s.Balanced) (hbounded : s.Bounded)
    (hstep : step = .settle token ∨ step = .release token)
    (hperform : s.perform step = some reply) :
    ∃ ref stage node answer, s.claims[token]? = some ⟨ref, stage⟩ ∧ ref.node = some node ∧
      reply.result = .ok answer ∧
      freedNodes reply.events = (if answer.freed then [node] else []) ∧
      (answer.freed = true ↔ node ∉ reply.state.stack.linked ∧
        0 < reply.state.tally node .settled ∧ reply.state.openOn node = 0) := by
  obtain ⟨ref, old, new, delta, node, contents, answer, hfinish, hclaim, hnode, hget, hstate,
    hevents, hresult, hanswer⟩ := finish_cases hs hbounded hstep hperform
  refine ⟨ref, old, node, answer, hclaim, hnode, hresult, ?_, ?_⟩
  · rw [hevents, hanswer]
    simp only [decide_eq_true_eq]
  · have hbalanced : reply.state.Balanced := by
      rw [hstate]
      exact hs.finish hfinish hclaim hnode hget
    have hlt : node < reply.state.stack.heap.size := by
      rw [hstate, afterFinish, finish_size]
      exact Heap.lt_size_of_get? hget
    have hlinked : reply.state.stack.linked = s.stack.linked := by
      rw [hstate]
      exact hs.linked_afterFinish hfinish hclaim hnode hget
    have hzero := hs.internalCount_add_eq_zero_iff hfinish hclaim hnode hget
      (show reply.state.claims = s.advance token ref new by rw [hstate]; rfl)
    rw [hanswer, decide_eq_true_eq, hzero, hlinked]
    constructor
    · rintro ⟨hunlinked, hnobody⟩
      exact ⟨hunlinked, hbalanced.tally_settled_pos hlt (hlinked ▸ hunlinked) hnobody, hnobody⟩
    · rintro ⟨hunlinked, -, hnobody⟩
      exact ⟨hunlinked, hnobody⟩

end

section

variable [Destructor α] {step : Step α} {reply : Reply α} {moves : List (Move α)}

namespace Run

/-- A pushed node has a place in the heap from then on. -/
theorem exists_pushed (hrun : Run s moves t) (hs : s.Balanced) (hcalm : Calm moves)
    {move : Move α} (hmem : move ∈ moves) {value : α} (hstep : move.step = .push value) :
    ∃ node < t.stack.heap.size, move.reply.result = .ok (.pushed node) := by
  induction hrun with
  | start => cases hmem
  | @step moves pre step reply hrun hperform ih =>
    rcases List.mem_append.mp hmem with hmem | hmem
    · obtain ⟨node, hlt, hresult⟩ := ih hcalm.of_append hmem
      have hbalanced := (hrun.effects hs hcalm.of_append).balanced hs
      rcases perform_effects hbalanced hperform with heffects | hoverrun
      · exact ⟨node, Nat.lt_of_lt_of_le hlt heffects.size_le, hresult⟩
      · exact absurd hoverrun (hcalm ⟨step, reply⟩ (List.mem_append_right _ List.mem_cons_self))
    · obtain rfl := List.mem_singleton.mp hmem
      obtain rfl : step = .push value := hstep
      obtain rfl := Option.some.inj (perform_eq_some_iff.mp hperform).2
      refine ⟨pre.stack.heap.size, ?_, rfl⟩
      rw [size_push]
      exact Nat.lt_succ_self _

/-- Without faults of destructors, no node is linked after the stack is dropped. -/
theorem linked_of_dropped (hrun : Run {} moves s) (hcalm : Calm moves)
    (hquiet : ∀ value : α, Destructor.fault? value = none) (hdropped : s.dropped = true) :
    s.stack.linked = [] := by
  induction hrun with
  | start => cases hdropped
  | @step moves pre step reply hrun hperform ih =>
    have hs : pre.Balanced := hrun.balanced hcalm.of_append
    have hmove : ¬ reply.state.Overruns reply.result :=
      hcalm ⟨step, reply⟩ (List.mem_append_right moves List.mem_cons_self)
    by_cases hdrop : step = .drop
    · subst hdrop
      obtain rfl := Option.some.inj (perform_eq_some_iff.mp hperform).2
      rcases popAndDrop_cases pre.stack.chain.length hs with ⟨-, hempty⟩ | hoverrun
      · have hlevels := hempty hquiet (Nat.le_of_eq (length_levels pre.stack))
        apply List.eq_nil_iff_forall_not_mem.mpr
        intro node hmem
        obtain ⟨level, hlevel, -⟩ := exists_level_of_mem_linked hmem
        exact absurd hlevel (hlevels ▸ List.not_mem_nil)
      · exact absurd (hoverrun.map rfl) hmove
    · have hgone : pre.dropped = true := ((perform_frame hperform).1 hdrop).symm.trans hdropped
      have hfree := (perform_eq_some_iff.mp hperform).1 hgone
      have hbefore := ih hcalm.of_append hgone
      cases step with
      | drop => exact absurd rfl hdrop
      | push => cases hfree
      | pop => cases hfree
      | claim => cases hfree
      | unlink => cases hfree
      | settle token =>
        obtain ⟨ref, node, contents, hclaim, hnode, hget, ⟨count, rfl, rfl⟩ | hoverrun⟩ :=
          settle_cases hs hperform
        · exact (hs.linked_afterFinish .settle hclaim hnode hget).trans hbefore
        · exact absurd (hoverrun.mono (claimsOn_le_of_perform hperform)) hmove
      | release token =>
        obtain ⟨ref, node, contents, count, hclaim, hnode, hget, hcount, rfl⟩ :=
          release_eq_some hs hperform
        rw [hcount]
        exact (hs.linked_afterFinish .release hclaim hnode hget).trans hbefore

end Run

/-- Every node is freed at exactly the right step, and none is left behind. In every run within the
bound on claims, a step that finishes a claim answers true, and frees the node, exactly if the node
is then unlinked and settled and no claim on it is open. At any time the nodes freed so far are the
ones that nothing keeps. Without open claims the live nodes are therefore the linked ones, and if
the stack was dropped besides, every node that was pushed has been freed once. -/
theorem reclaims_at_last_participant {moves : List (Move α)} (hrun : Run {} moves s)
    (hbounded : s.Bounded) (hquiet : ∀ value : α, Destructor.fault? value = none) :
    (∀ step token reply, step = .settle token ∨ step = .release token →
      s.perform step = some reply →
        ∃ ref stage node answer, s.claims[token]? = some ⟨ref, stage⟩ ∧ ref.node = some node ∧
          reply.result = .ok answer ∧
          freedNodes reply.events = (if answer.freed then [node] else []) ∧
          (answer.freed = true ↔ node ∉ reply.state.stack.linked ∧
            0 < reply.state.tally node .settled ∧ reply.state.openOn node = 0)) ∧
      (∀ node, node ∈ freedIn moves ↔
        node < s.stack.heap.size ∧ node ∉ s.stack.linked ∧ s.openOn node = 0) ∧
      (s.Idle → ∀ node, node ∈ s.stack.heap.live ↔ node ∈ s.stack.linked) ∧
      (s.Idle → s.dropped = true → ∀ move ∈ moves, ∀ value, move.step = .push value →
        ∃ node, move.reply.result = .ok (.pushed node) ∧ (freedIn moves).count node = 1) := by
  have hcalm := hrun.calm hbounded
  have hs : s.Balanced := hrun.balanced hcalm
  have hfreed (node : NodeId) : node ∈ freedIn moves ↔
      node < s.stack.heap.size ∧ node ∉ s.stack.linked ∧ s.openOn node = 0 := by
    rw [hrun.mem_freedIn_iff hcalm, hs.isFreed_iff]
  refine ⟨?_, hfreed, fun hidle ↦ hs.mem_live_iff hidle, ?_⟩
  · intro step token reply hstep hperform
    exact freed_iff_last hs hbounded hstep hperform
  · intro hidle hdropped move hmem value hstep
    obtain ⟨node, hlt, hresult⟩ := hrun.exists_pushed balanced_new hcalm hmem hstep
    refine ⟨node, hresult, ?_⟩
    have hgone : node ∈ freedIn moves := by
      rw [hfreed, hrun.linked_of_dropped hcalm hquiet hdropped]
      exact ⟨hlt, List.not_mem_nil, hidle.openOn_eq_zero node⟩
    rw [(hrun.nodup_freedIn hcalm).count, if_pos hgone]

/-- A contended node is freed once, though its stack was dropped before both readers finished. -/
theorem reclaims_at_last_participant_contention :
    (freedIn (contention ++ [unlinking] ++ leaving ++ [settling])).count 0 = 1 := by
  have hreclaims := reclaims_at_last_participant run_settling
    (fun node ↦ Nat.le_trans List.countP_le_length (by decide)) (fun _ ↦ rfl)
  obtain ⟨node, hpushed, hcount⟩ :=
    hreclaims.2.2.2 (by decide) rfl _ List.mem_cons_self 5 rfl
  cases hpushed
  exact hcount

end

end Reclaim.CountedStack.Ledger
