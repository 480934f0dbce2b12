import Reclaim.Fault
import Reclaim.Text.Record

/-!
# Full registries

The error that a claim answers when every slot of a registry is taken.
-/

namespace Reclaim.Hazard

/-- Every slot of a registry of this capacity is taken. -/
structure RegistryFull where
  capacity : Nat
deriving DecidableEq

namespace RegistryFull

/-- The wording of the error; a claim that cannot answer it faults with the same words. -/
def message (e : RegistryFull) : String := (Fault.noFreeSlot e.capacity).message

def asLine (e : RegistryFull) : String :=
  Text.record "Exhausted" [("capacity", toString e.capacity)]

def asLines (e : RegistryFull) : String :=
  Text.recordLines "Exhausted" [("capacity", toString e.capacity)]

end RegistryFull

end Reclaim.Hazard
