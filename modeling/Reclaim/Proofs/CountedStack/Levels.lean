import Reclaim.CountedStack.Basic
import Reclaim.Proofs.Heap.Path

/-!
# The chain of a counted stack

Everything that a stack holds is read off its chain: the values, the linked nodes and the counts of
the references between them. `WellLinked` says that the chain is whole. Each change to a stack then
has one equation for the chain it leaves, from which those for the views follow.
-/

namespace Reclaim.CountedStack

variable {α : Type} {s : CountedStack α}

def linked (s : CountedStack α) : List NodeId := s.chain.map Prod.fst

/-- The chain is whole: it runs down to a null reference, and no node occurs on it twice. -/
structure WellLinked (s : CountedStack α) : Prop where
  path : s.heap.IsPath (fun node ↦ node.next.node) s.head.node s.chain
  nodup : s.linked.Nodup

theorem chain_eq_of_isPath {links : List (NodeId × Node α)}
    (hpath : s.heap.IsPath (fun node ↦ node.next.node) s.head.node links)
    (hnodup : (links.map Prod.fst).Nodup) : s.chain = links ∧ s.WellLinked := by
  have hchain : s.chain = links := hpath.chain_eq hnodup
  refine ⟨hchain, ?_, ?_⟩
  · rw [hchain]
    exact hpath
  · rw [linked, hchain]
    exact hnodup

theorem wellLinked_new : ({} : CountedStack α).WellLinked :=
  ⟨rfl, List.nodup_nil⟩

theorem size_push (s : CountedStack α) (value : α) :
    (s.push value).2.heap.size = s.heap.size + 1 :=
  Heap.size_alloc s.heap _

theorem get?_push (s : CountedStack α) (value : α) (node : NodeId) :
    (s.push value).2.heap.get? node =
      if node = s.heap.size then some ⟨value, 0, s.head⟩ else s.heap.get? node :=
  Heap.get?_alloc s.heap _ node

namespace WellLinked

theorem get?_of_mem (hs : s.WellLinked) {link : NodeId × Node α} (hmem : link ∈ s.chain) :
    s.heap.get? link.1 = some link.2 :=
  hs.path.get?_of_mem hmem

theorem lt_size (hs : s.WellLinked) {node : NodeId} (hmem : node ∈ s.linked) :
    node < s.heap.size := by
  obtain ⟨link, hlink, rfl⟩ := List.mem_map.mp hmem
  exact Heap.lt_size_of_get? (hs.get?_of_mem hlink)

theorem exists_get? (hs : s.WellLinked) {node : NodeId} (hmem : node ∈ s.linked) :
    ∃ contents, (node, contents) ∈ s.chain ∧ s.heap.get? node = some contents := by
  obtain ⟨⟨node, contents⟩, hlink, rfl⟩ := List.mem_map.mp hmem
  exact ⟨contents, hlink, hs.get?_of_mem hlink⟩

theorem chain_eq_nil_iff (hs : s.WellLinked) : s.chain = [] ↔ s.head.node = none := by
  have hpath := hs.path
  cases hchain : s.chain with
  | nil =>
    rw [hchain] at hpath
    exact ⟨fun _ ↦ hpath, fun _ ↦ rfl⟩
  | cons link rest =>
    rw [hchain] at hpath
    rw [hpath.1]
    simp

/-- The top node is live, and the rest of the chain is what its reference leads to. -/
theorem chain_eq_cons (hs : s.WellLinked) {top : NodeId} (hhead : s.head.node = some top) :
    ∃ contents, s.heap.get? top = some contents ∧
      s.chain = (top, contents) :: { s with head := contents.next }.chain ∧
      { s with head := contents.next }.WellLinked := by
  have hpath := hs.path
  have hnodup := hs.nodup
  rw [linked] at hnodup
  cases hchain : s.chain with
  | nil =>
    rw [hs.chain_eq_nil_iff.mp hchain] at hhead
    cases hhead
  | cons link rest =>
    rw [hchain] at hpath hnodup
    obtain ⟨hstart, hget, hrest⟩ := hpath
    obtain rfl : link.1 = top := Option.some.inj (hstart.symm.trans hhead)
    rw [List.map_cons, List.nodup_cons] at hnodup
    obtain ⟨htail, hlinked⟩ :=
      chain_eq_of_isPath (s := { s with head := link.2.next }) hrest hnodup.2
    exact ⟨link.2, hget, by rw [htail], hlinked⟩

/-- Another head word for the same node leaves the chain alone. -/
theorem chain_setHead (hs : s.WellLinked) {ref : Ref} (hnode : ref.node = s.head.node) :
    { s with head := ref }.chain = s.chain ∧ { s with head := ref }.WellLinked := by
  apply chain_eq_of_isPath
  · rw [hnode]
    exact hs.path
  · exact hs.nodup

theorem chain_setHeap (hs : s.WellLinked) {heap : Heap (Node α)}
    (f : NodeId × Node α → Node α)
    (hget : ∀ link ∈ s.chain, heap.get? link.1 = some (f link))
    (hnext : ∀ link ∈ s.chain, (f link).next = link.2.next) :
    { s with heap }.chain = s.chain.map (fun link ↦ (link.1, f link)) ∧
      { s with heap }.WellLinked := by
  apply chain_eq_of_isPath
  · apply hs.path.map_contents f hget
    intro link hmem
    rw [hnext link hmem]
  · rw [List.map_map]
    exact hs.nodup

/-- A push puts its node on top of a chain that stays the same. -/
theorem chain_push (hs : s.WellLinked) (value : α) :
    (s.push value).2.chain = (s.heap.size, ⟨value, 0, s.head⟩) :: s.chain ∧
      (s.push value).2.WellLinked := by
  have hfresh : ∀ link ∈ s.chain, link.1 ≠ s.heap.size := by
    intro link hmem
    exact Nat.ne_of_lt (Heap.lt_size_of_get? (hs.get?_of_mem hmem))
  apply chain_eq_of_isPath
  · refine ⟨rfl, ?_, ?_⟩
    · rw [get?_push, if_pos rfl]
    · apply hs.path.of_get?_eq
      intro link hmem
      rw [get?_push, if_neg (hfresh link hmem)]
  · rw [List.map_cons, List.nodup_cons]
    refine ⟨?_, hs.nodup⟩
    intro hmem
    exact absurd (hs.lt_size hmem) (Nat.lt_irrefl _)

end WellLinked

theorem linked_eq_cons {top : NodeId} {contents : Node α}
    (hchain : s.chain = (top, contents) :: { s with head := contents.next }.chain) :
    s.linked = top :: { s with head := contents.next }.linked := by
  rw [linked, hchain, List.map_cons, linked]

theorem WellLinked.head?_linked (hs : s.WellLinked) : s.linked.head? = s.head.node := by
  cases hhead : s.head.node with
  | none =>
    rw [linked, hs.chain_eq_nil_iff.mpr hhead]
    rfl
  | some top =>
    obtain ⟨contents, -, hchain, -⟩ := hs.chain_eq_cons hhead
    rw [linked_eq_cons hchain, List.head?_cons]

theorem WellLinked.mem_linked_of_head (hs : s.WellLinked) {top : NodeId}
    (hhead : s.head.node = some top) : top ∈ s.linked := by
  obtain ⟨contents, -, hchain, -⟩ := hs.chain_eq_cons hhead
  rw [linked_eq_cons hchain]
  exact List.mem_cons_self

theorem toList_eq_cons {top : NodeId} {contents : Node α}
    (hchain : s.chain = (top, contents) :: { s with head := contents.next }.chain) :
    s.toList = contents.value :: { s with head := contents.next }.toList := by
  rw [toList, hchain, List.map_cons, toList]

theorem levels_eq_cons {top : NodeId} {contents : Node α}
    (hchain : s.chain = (top, contents) :: { s with head := contents.next }.chain) :
    s.levels = (s.head.count, top, contents) :: { s with head := contents.next }.levels := by
  rw [levels, counts, hchain, List.map_cons, List.zip_cons_cons]
  rfl

theorem WellLinked.levels_push (hs : s.WellLinked) (value : α) :
    (s.push value).2.levels = (1, s.heap.size, ⟨value, 0, s.head⟩) :: s.levels := by
  rw [levels, counts, (hs.chain_push value).1]
  rfl

theorem mem_chain_of_mem_levels {level : UInt64 × NodeId × Node α} (hmem : level ∈ s.levels) :
    level.2 ∈ s.chain :=
  (List.of_mem_zip hmem).2

theorem mem_linked_of_mem_levels {level : UInt64 × NodeId × Node α} (hmem : level ∈ s.levels) :
    level.2.1 ∈ s.linked :=
  List.mem_map_of_mem (mem_chain_of_mem_levels hmem)

/-- Every node of the chain has its level. -/
theorem map_snd_levels (s : CountedStack α) : s.levels.map Prod.snd = s.chain := by
  apply List.map_snd_zip
  rw [counts, List.length_cons, List.length_map]
  exact Nat.le_succ _

theorem length_levels (s : CountedStack α) : s.levels.length = s.chain.length := by
  rw [← map_snd_levels, List.length_map]

theorem linked_eq_map_levels (s : CountedStack α) :
    s.linked = s.levels.map fun level ↦ level.2.1 := by
  rw [linked, ← map_snd_levels, List.map_map]
  rfl

theorem exists_level_of_mem_linked {node : NodeId} (hmem : node ∈ s.linked) :
    ∃ level ∈ s.levels, level.2.1 = node := by
  rw [linked_eq_map_levels] at hmem
  exact List.mem_map.mp hmem

theorem toList_eq_map_levels (s : CountedStack α) :
    s.toList = s.levels.map fun level ↦ level.2.2.value := by
  rw [toList, ← map_snd_levels, List.map_map]
  rfl

/-- A level more is a value and a linked node more. -/
theorem views_eq_cons {t : CountedStack α} {level : UInt64 × NodeId × Node α}
    (hlevels : s.levels = level :: t.levels) :
    s.toList = level.2.2.value :: t.toList ∧ s.linked = level.2.1 :: t.linked := by
  rw [toList_eq_map_levels, toList_eq_map_levels, linked_eq_map_levels, linked_eq_map_levels,
    hlevels]
  exact ⟨rfl, rfl⟩

/-- An empty stack is one whose head is null. -/
theorem isEmpty_iff (s : CountedStack α) : s.isEmpty = true ↔ s.head.node = none := by
  rw [isEmpty, CountedRef.isNull, decide_eq_true_eq]
  rfl

end Reclaim.CountedStack
