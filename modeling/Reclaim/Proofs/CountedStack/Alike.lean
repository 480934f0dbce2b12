import Mathlib.Data.List.Nodup
import Reclaim.Proofs.CountedStack.Calls
import Reclaim.Proofs.CountedStack.Finishing

/-!
# Stacks that are alike

Two stacks are alike if their levels have the same counts and values, whatever their nodes are
called and whatever else is in their heaps. Calls keep them alike: a push makes the next new node of
each, and what a pop answers depends on the count of the reference to the top node, on its value and
on its internal count. So alike stacks cannot be told apart but by the names of the nodes that they
free.
-/

namespace Reclaim.CountedStack

open SharedStack (Call)

variable {α : Type} {s u : CountedStack α} {f : NodeId → NodeId}

def Event.rename (f : NodeId → NodeId) : Event α → Event α
  | .freed node => .freed (f node)
  | .dropped value => .dropped value

def renameReply {ρ : Type} (f : NodeId → NodeId) (reply : List (Event α) × ρ) :
    List (Event α) × ρ :=
  (reply.1.map (Event.rename f), reply.2)

/-- What a pop logs and answers, from what there is to know about the level that it takes off. -/
def popReply (top : NodeId) (count : UInt64) (value : α) (internal : Int64) :
    List (Event α) × Except Fault (Option α) :=
  if count.toNat = 2 ^ 64 - 1 then ([], .error .addOverflow)
  else if count.toNat + 1 = 2 ^ 63 ∨ count.toNat + 1 = 2 ^ 63 + 1 then
    ([.dropped value], .error .subOverflow)
  else if count.toNat + 1 = 2 ^ 63 + 2 then ([.dropped value], .error .negOverflow)
  else (if internal + ((count + 1).toInt64 - 2) = 0 then [.freed top] else [], .ok (some value))

theorem renameReply_popReply (f : NodeId → NodeId) (top : NodeId) (count : UInt64) (value : α)
    (internal : Int64) :
    renameReply f (popReply top count value internal) = popReply (f top) count value internal := by
  unfold popReply
  split
  · rfl
  · split
    · rfl
    · split
      · rfl
      · split <;> rfl

theorem pop_eq_popReply {top : NodeId} {contents : Node α} (hhead : s.head.node = some top)
    (hget : s.heap.get? top = some contents) :
    (s.pop.events, s.pop.result) =
      popReply top s.head.count contents.value contents.internalCount := by
  unfold popReply
  split
  · next hfull => rw [pop_of_full hhead hget hfull]
  · next hroom =>
    split
    · next hcount => rw [pop_of_subOverflow hhead hget hcount]
    · next hsub =>
      split
      · next hcount => rw [pop_of_negOverflow hhead hget hcount]
      · next hneg =>
        have hsettles : Settles (s.head.count + 1) := by
          rw [Settles, toNat_add_one_of_ne hroom]
          omega
        rw [pop_of_settles hhead hget hroom hsettles, finish_events]

/-- What is to be seen of the levels of a stack without looking at the nodes' names: the count of
the reference to each node, its value and its internal count. -/
def figures (s : CountedStack α) : List (UInt64 × α × Int64) :=
  s.levels.map fun level ↦ (level.1, level.2.2.value, level.2.2.internalCount)

/-- The stacks have the same figures. The nodes of the one that are linked or not yet made are
renamed to those of the other. -/
structure Alike (f : NodeId → NodeId) (s u : CountedStack α) : Prop where
  left : s.WellLinked
  right : u.WellLinked
  figures : u.figures = s.figures
  linked : u.linked = s.linked.map f
  unmade : ∀ ahead, f (s.heap.size + ahead) = u.heap.size + ahead

/-- Stacks with the same figures are alike. -/
theorem exists_alike (hs : s.WellLinked) (hu : u.WellLinked) (hfigures : u.figures = s.figures) :
    ∃ f, Alike f s u := by
  -- Linked nodes go by their places in the chains, nodes not yet made by the order of making.
  let f (node : NodeId) : NodeId :=
    if node < s.heap.size then u.linked.getD (s.linked.idxOf node) 0
    else u.heap.size + (node - s.heap.size)
  have hlength : u.linked.length = s.linked.length := by
    have hlevels := congrArg List.length hfigures
    rw [CountedStack.figures, CountedStack.figures, List.length_map, List.length_map] at hlevels
    rw [linked_eq_map_levels, linked_eq_map_levels, List.length_map, List.length_map, hlevels]
  refine ⟨f, hs, hu, hfigures, ?_, ?_⟩
  · apply List.ext_getElem
    · rw [List.length_map, hlength]
    · intro i hi hi'
      rw [List.length_map] at hi'
      have hlt : s.linked[i] < s.heap.size := hs.lt_size (List.getElem_mem hi')
      rw [List.getElem_map]
      simp only [f, if_pos hlt]
      rw [hs.nodup.idxOf_getElem, List.getD_eq_getElem?_getD, List.getElem?_eq_getElem hi,
        Option.getD_some]
  · intro ahead
    simp only [f]
    rw [if_neg (Nat.not_lt.mpr (Nat.le_add_right _ _)), Nat.add_sub_cancel_left]

namespace Alike

theorem push (h : Alike f s u) (value : α) : Alike f (s.push value).2 (u.push value).2 where
  left := (h.left.chain_push value).2
  right := (h.right.chain_push value).2
  figures := by
    rw [CountedStack.figures, CountedStack.figures, h.left.levels_push, h.right.levels_push,
      List.map_cons, List.map_cons]
    exact congrArg _ h.figures
  linked := by
    have hfirst : f s.heap.size = u.heap.size := h.unmade 0
    have hrest := h.linked
    rw [linked_eq_map_levels, linked_eq_map_levels] at hrest ⊢
    rw [h.left.levels_push, h.right.levels_push, List.map_cons, List.map_cons, List.map_cons,
      hfirst, hrest]
  unmade ahead := by
    rw [size_push, size_push, Nat.add_assoc, Nat.add_assoc]
    exact h.unmade (1 + ahead)

theorem head_node (h : Alike f s u) : u.head.node = s.head.node.map f := by
  have hheads : u.linked.head? = s.linked.head?.map f := by rw [h.linked, List.head?_map]
  rwa [h.right.head?_linked, h.left.head?_linked] at hheads

/-- The top nodes of alike stacks have the same figures. -/
theorem top (h : Alike f s u) {top : NodeId} {contents : Node α} (hhead : s.head.node = some top)
    (hget : s.heap.get? top = some contents) :
    ∃ contents', u.head.node = some (f top) ∧ u.heap.get? (f top) = some contents' ∧
      u.head.count = s.head.count ∧ contents'.value = contents.value ∧
      contents'.internalCount = contents.internalCount := by
  have hhead' : u.head.node = some (f top) := by rw [h.head_node, hhead, Option.map_some]
  obtain ⟨found, hfound, hchain, -⟩ := h.left.chain_eq_cons hhead
  obtain rfl := Option.some.inj (hget.symm.trans hfound)
  obtain ⟨contents', hget', hchain', -⟩ := h.right.chain_eq_cons hhead'
  have hfigures := h.figures
  rw [CountedStack.figures, CountedStack.figures, levels_eq_cons hchain, levels_eq_cons hchain',
    List.map_cons, List.map_cons, List.cons.injEq, Prod.mk.injEq, Prod.mk.injEq] at hfigures
  obtain ⟨⟨hcount, hvalue, hinternal⟩, -⟩ := hfigures
  exact ⟨contents', hhead', hget', hcount, hvalue, hinternal⟩

/-- What is left of alike stacks without their top levels is alike. -/
theorem below (h : Alike f s u) {s' u' : CountedStack α} {level level' : UInt64 × NodeId × Node α}
    (hs : s.levels = level :: s'.levels) (hu : u.levels = level' :: u'.levels)
    (hleft : s'.WellLinked) (hright : u'.WellLinked) (hsize : s'.heap.size = s.heap.size)
    (hsize' : u'.heap.size = u.heap.size) : Alike f s' u' where
  left := hleft
  right := hright
  figures := by
    have hfigures := h.figures
    rw [CountedStack.figures, CountedStack.figures, hs, hu] at hfigures
    exact (List.cons.inj hfigures).2
  linked := by
    have hlinked := h.linked
    rw [linked_eq_map_levels, linked_eq_map_levels, hs, hu] at hlinked
    rw [linked_eq_map_levels, linked_eq_map_levels]
    exact (List.cons.inj hlinked).2
  unmade ahead := by
    rw [hsize, hsize']
    exact h.unmade ahead

/-- Pops of alike stacks are answered alike and leave alike stacks. -/
theorem pop (h : Alike f s u) :
    Alike f s.pop.state u.pop.state ∧
      (u.pop.events, u.pop.result) = renameReply f (s.pop.events, s.pop.result) := by
  cases hhead : s.head.node with
  | none =>
    have hhead' : u.head.node = none := by rw [h.head_node, hhead, Option.map_none]
    rw [pop_of_null hhead, pop_of_null hhead']
    exact ⟨h, rfl⟩
  | some top =>
    obtain ⟨contents, hget, -, -⟩ := h.left.chain_eq_cons hhead
    obtain ⟨contents', hhead', hget', hcount, hvalue, hinternal⟩ := h.top hhead hget
    refine ⟨?_, ?_⟩
    · by_cases hfull : s.head.count.toNat = 2 ^ 64 - 1
      · have hfull' : u.head.count.toNat = 2 ^ 64 - 1 := by rw [hcount, hfull]
        rw [pop_of_full hhead hget hfull, pop_of_full hhead' hget' hfull']
        exact h
      · have hroom' : u.head.count.toNat ≠ 2 ^ 64 - 1 := by rwa [hcount]
        obtain ⟨found, -, hlevels, hlinked⟩ := h.left.levels_pop hhead hfull
        obtain ⟨found', -, hlevels', hlinked'⟩ := h.right.levels_pop hhead' hroom'
        exact h.below hlevels hlevels' hlinked hlinked' (size_pop hhead hget)
          (size_pop hhead' hget')
    · rw [pop_eq_popReply hhead hget, renameReply_popReply, pop_eq_popReply hhead' hget', hcount,
        hvalue, hinternal]

theorem call (h : Alike f s u) (call : Call α) :
    Alike f (s.call call).state (u.call call).state ∧
      ((u.call call).events, (u.call call).result) =
        renameReply f ((s.call call).events, (s.call call).result) := by
  cases call with
  | push value => exact ⟨h.push value, rfl⟩
  | pop =>
    obtain ⟨hstate, hreply⟩ := h.pop
    obtain ⟨hevents, hresult⟩ := Prod.mk.inj hreply
    refine ⟨hstate, Prod.ext hevents ?_⟩
    exact congrArg (Except.map SharedStack.Answer.popped) hresult
  | isEmpty =>
    refine ⟨h, Prod.ext rfl ?_⟩
    have hempty : u.isEmpty = s.isEmpty := by
      rw [Bool.eq_iff_iff, isEmpty_iff, isEmpty_iff, h.head_node, Option.map_eq_none_iff]
    exact congrArg (fun isEmpty ↦ Except.ok (SharedStack.Answer.empty isEmpty)) hempty

/-- Rows of calls on alike stacks are answered alike. -/
theorem replies (h : Alike f s u) (calls : List (Call α)) :
    u.replies calls = (s.replies calls).map (renameReply f) := by
  induction calls generalizing s u with
  | nil => rfl
  | cons call calls ih =>
    obtain ⟨hstate, hreply⟩ := h.call call
    rw [CountedStack.replies, CountedStack.replies, List.map_cons, hreply, ih hstate]

end Alike

end Reclaim.CountedStack
