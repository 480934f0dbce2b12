import Reclaim.Proofs.Hazard.Values
import Reclaim.Proofs.SharedStack.Destruction

/-!
# Dropping a stack over a registry

Dropping a stack walks its links without any regard to slots. Each value is destroyed, and its node
freed even if the destructor faulted; then the walk goes on or ends in that fault. Nothing else in
the world is touched, in particular no registry, and so neither what slots publish nor what is
parked.
-/

namespace Reclaim.Hazard

open SharedStack (reach ending)

variable {n : Nat} {α : Type}

def destruction (link : NodeId × Node α) : List (Event α) :=
  [.dropped link.2.value, .freed link.1]

namespace World

variable {w : World n α} {id : StackId} {stack : Stack}

section

variable [Destructor α]

theorem destroyNodes_eq (links : List (NodeId × Node α)) (w : World n α) :
    destroyNodes links w =
      ({ w with
          heap := w.heap.freeEach
            ((links.map Prod.fst).take (reach (links.map fun link ↦ link.2.value)))
          log := ((links.take (reach (links.map fun link ↦ link.2.value))).flatMap
            destruction).reverse ++ w.log },
        ending (links.map fun link ↦ link.2.value)) := by
  induction links generalizing w with
  | nil => rfl
  | cons link rest ih =>
    rw [destroyNodes, List.map_cons, List.map_cons]
    cases hfault : Destructor.fault? link.2.value with
    | some fault =>
      rw [SharedStack.reach_cons_of_fault hfault, SharedStack.ending_cons_of_fault hfault]
      rfl
    | none =>
      dsimp only
      rw [ih, SharedStack.reach_cons_of_quiet hfault, SharedStack.ending_cons_of_quiet hfault,
        List.take_succ_cons, List.take_succ_cons, List.flatMap_cons, List.reverse_append,
        List.append_assoc]
      rfl

end

theorem events_destruction (links : List (NodeId × Node α)) :
    ((links.flatMap destruction).reverse).filterMap Event.dropped? =
        (links.map fun link ↦ link.2.value).reverse ∧
      ((links.flatMap destruction).reverse).filterMap Event.started? =
        (links.map fun link ↦ Address.node link.1).reverse := by
  induction links with
  | nil => exact ⟨rfl, rfl⟩
  | cons link links ih =>
    obtain ⟨hvalues, hnodes⟩ := ih
    rw [List.flatMap_cons, List.reverse_append, List.filterMap_append, List.filterMap_append,
      hvalues, hnodes, List.map_cons, List.reverse_cons, List.map_cons, List.reverse_cons]
    exact ⟨rfl, rfl⟩

/-- The stack was dropped down to this depth: the nodes above it are freed and their values
destroyed, each once, and those below are left. All that is parked is left as well, and nothing but
the stack, the heap and the log has changed. -/
structure DroppedTo (w : World n α) (id : StackId) (depth : Nat) (v : World n α) : Prop where
  frame : v = { w with
    «stacks» := w.stacks.set id none
    heap := w.heap.freeEach (((w.links id).map Prod.fst).take depth)
    log := (((w.links id).take depth).flatMap destruction).reverse ++ w.log }
  destroyed : v.destroyed = ((w.valuesIn id).take depth).reverse ++ w.destroyed
  freed : v.started =
    (((w.links id).take depth).map fun link ↦ Address.node link.1).reverse ++ w.started
  nodup : ((w.links id).map Prod.fst).Nodup
  below : ∀ link ∈ (w.links id).drop depth, v.heap.get? link.1 = some link.2
  parked : ∀ r, ∀ entry ∈ (w.limbo r).entries, ∀ node, entry.address = .node node →
    v.heap.get? node = w.heap.get? node

/-- A drop goes down to the first value whose destructor faults, whatever the slots publish and
whatever is parked. -/
theorem dropStack_droppedTo [Destructor α] {s : Stock n α} (hs : s.Sound) (hworld : s.world = w)
    (hstack : w.stack? id = some stack) :
    (w.dropStack id).2 = ending (w.valuesIn id) ∧
      w.DroppedTo id (reach (w.valuesIn id)) (w.dropStack id).1 := by
  have hleads := hworld ▸ hs.tidy id stack (hworld ▸ hstack)
  rw [dropStack_eq hstack, destroyNodes_eq, ← valuesIn]
  set depth := reach (w.valuesIn id)
  obtain ⟨hvalues, hnodes⟩ := events_destruction ((w.links id).take depth)
  have hgone {node : NodeId} (hnot : node ∉ ((w.links id).map Prod.fst).take depth) :
      (w.heap.freeEach (((w.links id).map Prod.fst).take depth)).get? node = w.heap.get? node := by
    rw [Heap.get?_freeEach, if_neg hnot]
  refine ⟨rfl, rfl, ?_, ?_, hleads.nodup, ?_, ?_⟩
  · rw [destroyed, List.filterMap_append, hvalues, List.map_take]
    rfl
  · rw [started, List.filterMap_append, hnodes]
    rfl
  · intro link hlink
    refine (hgone ?_).trans (hleads.path.get?_of_mem (List.mem_of_mem_drop hlink))
    intro htaken
    exact List.disjoint_take_drop hleads.nodup (Nat.le_refl depth) htaken
      (List.map_drop ▸ List.mem_map_of_mem hlink)
  · intro r entry hentry node haddress
    apply hgone
    intro htaken
    obtain ⟨link, hlink, rfl⟩ := List.mem_map.mp (List.mem_of_mem_take htaken)
    have hparked : .node link.1 ∈ s.addresses (.parked r) := by
      rw [← haddress]
      exact List.mem_map_of_mem (hworld ▸ hentry)
    have hne (j : StackId) : Place.parked r ≠ .linked j := by
      intro heq
      cases heq
    exact hs.not_linked hparked hne id link (hworld ▸ hlink) rfl

end World

end Reclaim.Hazard
