/-!
# Heaps of nodes

A heap hands out nodes and takes them back.  A node is named by the number of nodes handed out
before it, so a name is never used twice: an address that was freed stays recognisably dead, and
two nodes are the same exactly if their names are.
-/

namespace Reclaim

/-- The name of a node: how many nodes were made before it. -/
abbrev NodeId := Nat

/-- The label under which a node is shown; the first node is `n1`. -/
def NodeId.label (node : NodeId) : String :=
  "n" ++ toString (node + 1)

/-- The node shown under a label. -/
def NodeId.ofLabel? (label : String) : Option NodeId := do
  let number ← (String.ofList (label.toList.drop 1)).toNat?
  if NodeId.label (number - 1) = label then some (number - 1) else none

/-- All nodes ever made, in order; a freed node leaves an empty cell. -/
structure Heap (β : Type) where
  cells : Array (Option β) := #[]

namespace Heap

variable {β : Type}

def size (h : Heap β) : Nat := h.cells.size

/-- The contents of a node that was made and not freed. -/
def get? (h : Heap β) (node : NodeId) : Option β := h.cells[node]?.join

def alloc (h : Heap β) (contents : β) : NodeId × Heap β :=
  (h.cells.size, ⟨h.cells.push (some contents)⟩)

/-- Changes a node in place; a freed node stays freed. -/
def modify (h : Heap β) (node : NodeId) (f : β → β) : Heap β :=
  ⟨h.cells.modify node (Option.map f)⟩

def free (h : Heap β) (node : NodeId) : Heap β :=
  ⟨h.cells.setIfInBounds node none⟩

/-- The nodes made and not freed, in the order they were made. -/
def live (h : Heap β) : List NodeId :=
  (List.range h.size).filter fun node ↦ (h.get? node).isSome

@[simp]
theorem size_alloc (h : Heap β) (b : β) : (h.alloc b).2.size = h.size + 1 := by
  simp [alloc, size]

@[simp]
theorem size_modify (h : Heap β) (i : NodeId) (f : β → β) : (h.modify i f).size = h.size := by
  simp [modify, size]

@[simp]
theorem size_free (h : Heap β) (i : NodeId) : (h.free i).size = h.size := by
  simp [free, size]

theorem get?_alloc (h : Heap β) (b : β) (i : NodeId) :
    (h.alloc b).2.get? i = if i = h.size then some b else h.get? i := by
  simp only [alloc, get?, size, Array.getElem?_push]
  by_cases fresh : i = h.cells.size <;> simp [fresh]

theorem get?_modify (h : Heap β) (i j : NodeId) (f : β → β) :
    (h.modify i f).get? j = if i = j then (h.get? j).map f else h.get? j := by
  simp only [modify, get?, Array.getElem?_modify]
  split
  · cases h.cells[j]? with
    | none => rfl
    | some cell => rfl
  · rfl

theorem get?_free (h : Heap β) (i j : NodeId) :
    (h.free i).get? j = if i = j then none else h.get? j := by
  simp only [free, get?, Array.getElem?_setIfInBounds]
  by_cases same : i = j
  · subst same
    by_cases inside : i < h.cells.size <;> simp [inside]
  · simp [same]

theorem lt_size_of_get? {h : Heap β} {i : NodeId} {b : β} (found : h.get? i = some b) :
    i < h.size := by
  unfold get? at found
  by_cases inside : i < h.cells.size
  · exact inside
  · simp [inside] at found

/-- A node that was not made has no contents. -/
theorem get?_of_size_le {h : Heap β} {i : NodeId} (unmade : h.size ≤ i) : h.get? i = none := by
  cases found : h.get? i with
  | none => rfl
  | some contents => exact absurd (lt_size_of_get? found) (Nat.not_lt.mpr unmade)

theorem ext_get? {h h' : Heap β} (size : h.size = h'.size)
    (get : ∀ node, h.get? node = h'.get? node) : h = h' := by
  have cells : h.cells = h'.cells := by
    apply Array.ext size
    intro i inside inside'
    have cell := get i
    rw [get?, get?, Array.getElem?_eq_getElem inside, Array.getElem?_eq_getElem inside'] at cell
    exact cell
  cases h
  cases h'
  exact congrArg mk cells

/-- The nodes met from `start` along `next`, at most `steps` of them. -/
def walk (h : Heap β) (next : β → Option NodeId) : Nat → Option NodeId → List (NodeId × β)
  | 0, _ => []
  | _ + 1, none => []
  | steps + 1, some node =>
    match h.get? node with
    | none => []
    | some contents => (node, contents) :: h.walk next steps (next contents)

/-- The nodes met from `start` along `next`.  A chain without repetition has no more nodes than
the heap ever made, so counting to that number reaches its end. -/
def chain (h : Heap β) (next : β → Option NodeId) (start : Option NodeId) : List (NodeId × β) :=
  h.walk next h.size start

end Heap

end Reclaim
