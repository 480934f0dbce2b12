import Reclaim.Heap
import Reclaim.LimboList.Basic

/-!
# Hazard pointer registries

A registry has a fixed number of slots and a limbo list of retired objects.  A thread claims a slot,
and publishes in it the address of what it is about to read.  An address that some slot holds must
not be freed; whoever retires such an object parks it in the list instead.
-/

namespace Reclaim.Hazard

/-- The name of a thread; a thread that ended leaves its name unused for ever. -/
abbrev ThreadId := Nat

/-- The name of an object other than a node, in the order the objects were made. -/
abbrev ObjectId := Nat

/-- What a slot can hold and a registry can free: a node of a stack or another object. -/
inductive Address where
  | node (node : NodeId)
  | object (object : ObjectId)
deriving DecidableEq

def processWideCapacity : Nat := 100

/-- A slot: the thread that claimed it, and the address it publishes (`none` is null). -/
structure Slot where
  owner : Option ThreadId := none
  published : Option Address := none
deriving DecidableEq

/-- A registry with `n` slots; `ε` is the type of its retired entries. -/
structure Registry (n : Nat) (ε : Type) where
  slots : Vector Slot n := Vector.replicate n {}
  limbo : LimboList ε := {}
deriving DecidableEq

namespace Registry

variable {n : Nat} {ε : Type}

/-- Claims the lowest free slot for a thread; `none` if all slots are taken. -/
def claim (r : Registry n ε) (thread : ThreadId) : Option (Fin n × Registry n ε) :=
  (r.slots.findFinIdx? (·.owner.isNone)).map fun i ↦
    (i, { r with slots := r.slots.set i { r.slots[i] with owner := some thread } })

/-- Gives up a slot: it holds null and belongs to nobody. -/
def release (r : Registry n ε) (i : Fin n) : Registry n ε :=
  { r with slots := r.slots.set i {} }

/-- Publishes an address in a slot; publishing null clears it. -/
def publish (r : Registry n ε) (i : Fin n) (address : Option Address) : Registry n ε :=
  { r with slots := r.slots.set i { r.slots[i] with published := address } }

/-- Whether some slot, claimed or not, holds this address. -/
def isProtected (r : Registry n ε) (address : Option Address) : Bool :=
  r.slots.any (·.published = address)

def claimed (r : Registry n ε) : Nat := r.slots.countP (·.owner.isSome)

@[simp]
theorem publish_limbo (r : Registry n ε) (i : Fin n) (address : Option Address) :
    (r.publish i address).limbo = r.limbo := rfl

theorem claim_limbo {r s : Registry n ε} {thread : ThreadId} {i : Fin n}
    (h : r.claim thread = some (i, s)) : s.limbo = r.limbo := by
  unfold claim at h
  obtain ⟨j, _, pair⟩ := Option.map_eq_some_iff.1 h
  cases pair
  rfl

end Registry

end Reclaim.Hazard
