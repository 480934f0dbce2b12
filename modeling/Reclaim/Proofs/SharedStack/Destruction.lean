import Mathlib.Data.List.Basic
import Reclaim.Fault
import Reclaim.Heap

/-!
# Destroying values one after another

Whoever drops a stack destroys its values from the top until a destructor faults. That value is
destroyed as well, and its node freed with it; all below it is out of reach.
-/

namespace Reclaim

namespace Heap

variable {β : Type}

def freeEach (h : Heap β) (nodes : List NodeId) : Heap β := nodes.foldl free h

theorem get?_freeEach (h : Heap β) (nodes : List NodeId) (node : NodeId) :
    (h.freeEach nodes).get? node = if node ∈ nodes then none else h.get? node := by
  induction nodes generalizing h with
  | nil => rfl
  | cons first rest ih =>
    rw [freeEach, List.foldl_cons, ← freeEach, ih, get?_free]
    by_cases hrest : node ∈ rest
    · rw [if_pos hrest, if_pos (List.mem_cons_of_mem first hrest)]
    · rw [if_neg hrest]
      by_cases hfirst : first = node
      · rw [if_pos hfirst, if_pos (hfirst ▸ List.mem_cons_self)]
      · have hnot : node ∉ first :: rest := by
          rw [List.mem_cons, not_or]
          exact ⟨Ne.symm hfirst, hrest⟩
        rw [if_neg hfirst, if_neg hnot]

end Heap

namespace SharedStack

variable {α : Type} [Destructor α]

/-- How many of these values are destroyed: all up to and with the first one whose destructor
faults. -/
def reach (values : List α) : Nat :=
  min (values.findIdx (fun value ↦ (Destructor.fault? value).isSome) + 1) values.length

/-- How that ends: in the fault of the first destructor that faults. -/
def ending (values : List α) : Except Fault Unit :=
  (values.findSome? Destructor.fault?).elim (.ok ()) .error

theorem reach_cons_pos (value : α) (rest : List α) : 0 < reach (value :: rest) := by
  rw [reach, List.length_cons]
  omega

variable {value : α} {fault : Fault}

theorem reach_cons_of_fault (hfault : Destructor.fault? value = some fault) (rest : List α) :
    reach (value :: rest) = 1 := by
  rw [reach, List.findIdx_cons, hfault, Option.isSome_some, cond_true, List.length_cons]
  omega

theorem reach_cons_of_quiet (hquiet : Destructor.fault? value = none) (rest : List α) :
    reach (value :: rest) = reach rest + 1 := by
  rw [reach, reach, List.findIdx_cons, hquiet, Option.isSome_none, cond_false, List.length_cons]
  omega

theorem ending_cons_of_fault (hfault : Destructor.fault? value = some fault) (rest : List α) :
    ending (value :: rest) = .error fault := by
  rw [ending, List.findSome?_cons, hfault]
  rfl

theorem ending_cons_of_quiet (hquiet : Destructor.fault? value = none) (rest : List α) :
    ending (value :: rest) = ending rest := by
  rw [ending, ending, List.findSome?_cons, hquiet]

end SharedStack

end Reclaim
