/-!
# Limbo lists

A limbo list holds the entries of objects that are retired but must not be freed yet.  Entries are
linked at the head.  Detaching the whole list gives a drain, a snapshot that is walked on its own
while the list goes on; an entry of a drain that still cannot be freed is put back.  A counter says
how many entries wait: parking an entry raises it, and whoever frees an entry lowers it, so that an
entry that is put back does not count twice.

Here a list is the sequence of its entries.  `Reclaim.LinkedLimbo` is the same list in memory, where
the entries lie in linked cells.
-/

namespace Reclaim

/-- The parked entries, the last linked first, and the count of entries that wait. -/
structure LimboList (ε : Type) where
  entries : List ε := []
  pending : UInt64 := 0
deriving DecidableEq

namespace LimboList

variable {ε : Type}

def park (list : LimboList ε) (entry : ε) : LimboList ε :=
  ⟨entry :: list.entries, list.pending + 1⟩

/-- Puts back an entry that a drain handed out and that could not be freed. -/
def putBack (list : LimboList ε) (entry : ε) : LimboList ε :=
  { list with entries := entry :: list.entries }

/-- Takes all entries out; they are a drain, to be walked from its head. -/
def detach (list : LimboList ε) : List ε × LimboList ε :=
  (list.entries, { list with entries := [] })

/-- Counts one of the parked entries as freed; the counter wraps around below zero. -/
def countFreed (list : LimboList ε) : LimboList ε := { list with pending := list.pending - 1 }

end LimboList

end Reclaim
