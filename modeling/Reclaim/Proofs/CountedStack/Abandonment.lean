import Reclaim.Proofs.CountedStack.Alike

/-!
# Pops that fault

A pop can fault at three places. If the count of the top node is full, it faults before it has
claimed anything. If the settlement faults, the node is already off the stack, and its value is
destroyed with the pop that took it; the node itself stays behind with an internal count that
nobody reads again. Nothing that the stack holds has changed then, so pushes and pops go on as on a
stack that never had the node.
-/

namespace Reclaim.CountedStack

open SharedStack (Call)

variable {α : Type} {s : CountedStack α} {top node : NodeId} {contents : Node α}

/-- A node was made and is no longer linked. -/
structure Aside (s : CountedStack α) (node : NodeId) : Prop where
  linked : s.WellLinked
  made : node < s.heap.size
  not_mem : node ∉ s.linked

namespace Aside

/-- A pop changes no node that was not linked before. -/
theorem pop (hs : s.Aside node) :
    s.pop.state.Aside node ∧ s.pop.state.heap.get? node = s.heap.get? node := by
  cases hhead : s.head.node with
  | none =>
    rw [pop_of_null hhead]
    exact ⟨hs, rfl⟩
  | some top =>
    obtain ⟨contents, hget, hchain, -⟩ := hs.linked.chain_eq_cons hhead
    by_cases hfull : s.head.count.toNat = 2 ^ 64 - 1
    · rw [pop_of_full hhead hget hfull]
      exact ⟨hs, rfl⟩
    · obtain ⟨found, -, hlevels, hlinked⟩ := hs.linked.levels_pop hhead hfull
      have hne : top ≠ node := by
        rintro rfl
        exact hs.not_mem (hs.linked.mem_linked_of_head hhead)
      have hnot : node ∉ s.pop.state.linked := by
        intro hmem
        apply hs.not_mem
        rw [linked_eq_map_levels] at hmem ⊢
        rw [hlevels, List.map_cons]
        exact List.mem_cons_of_mem _ hmem
      refine ⟨⟨hlinked, ?_, hnot⟩, ?_⟩
      · rw [size_pop hhead hget]
        exact hs.made
      · have hframe := settle_frame (s := { s with head := contents.next })
          (show (⟨s.head.node, s.head.count + 1⟩ : Ref).node = some top from hhead) hget
        rw [pop_of_top hhead hget, if_neg hfull]
        exact hframe.2 node hne

theorem push (hs : s.Aside node) (value : α) :
    (s.push value).2.Aside node ∧ (s.push value).2.heap.get? node = s.heap.get? node := by
  have hne : node ≠ s.heap.size := Nat.ne_of_lt hs.made
  refine ⟨⟨(hs.linked.chain_push value).2, ?_, ?_⟩, ?_⟩
  · rw [size_push]
    exact Nat.lt_succ_of_lt hs.made
  · intro hmem
    rw [CountedStack.linked, (hs.linked.chain_push value).1, List.map_cons, List.mem_cons] at hmem
    exact hs.not_mem (hmem.resolve_left hne)
  · rw [get?_push, if_neg hne]

/-- Calls do not reach a node that is not linked. -/
theorem calls (hs : s.Aside node) (calls : List (Call α)) :
    (s.afterCalls calls).heap.get? node = s.heap.get? node := by
  induction calls generalizing s with
  | nil => rfl
  | cons call calls ih =>
    cases call with
    | push value =>
      obtain ⟨hafter, hget⟩ := hs.push value
      exact (ih hafter).trans hget
    | pop =>
      obtain ⟨hafter, hget⟩ := hs.pop
      exact (ih hafter).trans hget
    | isEmpty => exact ih hs

end Aside

/-- The node that a pop takes off the stack is not linked any more. -/
theorem WellLinked.aside_pop (hs : s.WellLinked) (hhead : s.head.node = some top)
    (hroom : s.head.count.toNat ≠ 2 ^ 64 - 1) : s.pop.state.Aside top := by
  obtain ⟨contents, hget, hlevels, hlinked⟩ := hs.levels_pop hhead hroom
  refine ⟨hlinked, ?_, ?_⟩
  · rw [size_pop hhead hget]
    exact Heap.lt_size_of_get? hget
  · have hnodup := hs.nodup
    rw [linked_eq_map_levels, hlevels, List.map_cons, List.nodup_cons,
      ← linked_eq_map_levels] at hnodup
    exact hnodup.1

/-- A pop that finds the count of the top node full faults before it changes anything. One whose
settlement faults has taken the node off the stack and destroyed its value, leaves the node unfreed
and everything else as it was. On all other counts a pop hands out the value. What calls answer
after a pop that took a node off, if only to fault, is what they answer on any stack with the same
remaining contents, and they do not reach the node. -/
theorem faulting_pop_exact (hs : s.WellLinked) (hhead : s.head.node = some top)
    (hget : s.heap.get? top = some contents) :
    (s.head.count.toNat = 2 ^ 64 - 1 → s.pop = ⟨s, [], .error .addOverflow⟩) ∧
      (s.head.count.toNat + 1 = 2 ^ 63 ∨ s.head.count.toNat + 1 = 2 ^ 63 + 1 →
        s.pop =
          ⟨{ s with head := contents.next }, [.dropped contents.value], .error .subOverflow⟩) ∧
      (s.head.count.toNat + 1 = 2 ^ 63 + 2 →
        s.pop =
          ⟨{ s with head := contents.next }.setInternalCount top
            (Int64.ofInt (contents.internalCount.toInt + 2 ^ 63)), [.dropped contents.value],
            .error .negOverflow⟩) ∧
      (s.head.count.toNat ≠ 2 ^ 64 - 1 → Settles (s.head.count + 1) →
        s.pop.result = .ok (some contents.value)) ∧
      (s.head.count.toNat ≠ 2 ^ 64 - 1 →
        s.levels = (s.head.count, top, contents) :: s.pop.state.levels ∧
          s.pop.state.WellLinked ∧
          ∀ u : CountedStack α, u.WellLinked → u.figures = s.figures.tail →
            ∃ f : NodeId → NodeId, u.linked = s.linked.tail.map f ∧
              (∀ ahead, f (s.heap.size + ahead) = u.heap.size + ahead) ∧
              ∀ calls, u.replies calls = (s.pop.state.replies calls).map (renameReply f) ∧
                (s.pop.state.afterCalls calls).heap.get? top = s.pop.state.heap.get? top) := by
  refine ⟨pop_of_full hhead hget, pop_of_subOverflow hhead hget, pop_of_negOverflow hhead hget,
    ?_, ?_⟩
  · intro hroom hsettles
    rw [pop_of_settles hhead hget hroom hsettles]
  · intro hroom
    obtain ⟨found, hfound, hlevels, hlinked⟩ := hs.levels_pop hhead hroom
    obtain rfl := Option.some.inj (hget.symm.trans hfound)
    refine ⟨hlevels, hlinked, ?_⟩
    intro u hu hfigures
    rw [figures, figures, hlevels, List.map_cons, List.tail_cons] at hfigures
    obtain ⟨f, halike⟩ := exists_alike hlinked hu hfigures
    refine ⟨f, ?_, ?_, ?_⟩
    · rw [halike.linked, linked_eq_map_levels s, hlevels, List.map_cons, List.tail_cons,
        linked_eq_map_levels]
    · intro ahead
      rw [← halike.unmade ahead, size_pop hhead hget]
    · intro calls
      exact ⟨halike.replies calls, (hs.aside_pop hhead hroom).calls calls⟩

/-- A stack of two nodes. A settlement of the upper one faults. -/
def overcounted : CountedStack Nat :=
  ⟨⟨some 1, 9223372036854775807⟩,
    ⟨#[some ⟨5, 0, CountedRef.null⟩, some ⟨6, 3, ⟨some 0, 1⟩⟩]⟩⟩

/-- The lower node of `overcounted`, on a stack that never had the upper one. -/
def undercut : CountedStack Nat := ⟨⟨some 0, 1⟩, ⟨#[some ⟨5, 0, CountedRef.null⟩]⟩⟩

/-- The upper node is left behind, and the next node to be pushed has another name than it would
have without. -/
theorem faulting_pop_exact_overcounted :
    overcounted.pop = ⟨{ overcounted with head := ⟨some 0, 1⟩ }, [.dropped 6],
        .error .subOverflow⟩ ∧
      ∃ f : NodeId → NodeId, f 0 = 0 ∧ f 2 = 1 ∧
        ∀ calls, undercut.replies calls =
          (overcounted.pop.state.replies calls).map (renameReply f) := by
  have hover : overcounted.WellLinked := ⟨⟨rfl, rfl, rfl, rfl, rfl⟩, by decide⟩
  have hunder : undercut.WellLinked := ⟨⟨rfl, rfl, rfl⟩, by decide⟩
  have hget : overcounted.heap.get? 1 = some ⟨6, 3, ⟨some 0, 1⟩⟩ := rfl
  obtain ⟨-, hsub, -, -, hafter⟩ := faulting_pop_exact hover rfl hget
  obtain ⟨-, -, hlater⟩ := hafter (by decide)
  obtain ⟨f, hlinked, hunmade, hreplies⟩ := hlater undercut hunder rfl
  have hzero : [0] = [f 0] := hlinked
  exact ⟨hsub (Or.inl rfl), f, (List.cons.inj hzero).1.symm, hunmade 0,
    fun calls ↦ (hreplies calls).1⟩

end Reclaim.CountedStack
