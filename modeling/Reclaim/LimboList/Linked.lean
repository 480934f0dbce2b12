import Reclaim.Fault
import Reclaim.Heap
import Reclaim.LimboList.Basic

/-!
# Limbo lists as linked cells

In memory every entry lies in a cell of its own.  The list is a reference to its first cell, and
each cell leads to the one below it, down to null.  Detaching the list takes its head word and
leaves null in its place; a drain is then no more than the reference to the first cell that it has
still to hand out, and it shares the memory of the cells with the list and with whoever holds a
cell.  A cell is cut off from the rest of its drain when it is handed out, and is made to lead to
the head when it is linked again.

The memory belongs to the state of the list and outlives the list itself: after the list is dropped,
the drains and the cells that remain are still there.
-/

namespace Reclaim

structure LimboCell (ε : Type) where
  entry : ε
  next : Option NodeId := none

def LimboCell.chain {ε : Type} (cells : Heap (LimboCell ε)) (start : Option NodeId) :
    List (NodeId × LimboCell ε) :=
  cells.chain (·.next) start

/-- A limbo list in memory: the head word, the count of entries that wait, and all cells. -/
structure LinkedLimbo (ε : Type) where
  head : Option NodeId := none
  pending : UInt64 := 0
  cells : Heap (LimboCell ε) := {}

namespace LinkedLimbo

variable {ε : Type}

def entryOf? (l : LinkedLimbo ε) (cell : NodeId) : Option ε := (l.cells.get? cell).map (·.entry)

/-- The list as others see it. -/
def toLimboList (l : LinkedLimbo ε) : LimboList ε :=
  ⟨(LimboCell.chain l.cells l.head).map (·.2.entry), l.pending⟩

/-- Puts an entry into a new cell, which leads nowhere. -/
def box (l : LinkedLimbo ε) (entry : ε) : NodeId × LinkedLimbo ε :=
  let (cell, cells) := l.cells.alloc { entry }
  (cell, { l with cells })

def setNext (l : LinkedLimbo ε) (cell : NodeId) (next : Option NodeId) : LinkedLimbo ε :=
  { l with cells := l.cells.modify cell fun contents ↦ { contents with next } }

/-- Gives up a cell without freeing the object behind its entry. -/
def discard (l : LinkedLimbo ε) (cell : NodeId) : LinkedLimbo ε :=
  { l with cells := l.cells.free cell }

/-- Frees the object behind an entry: its deleter is started, and the cell goes with it, also if the
deleter faults.  Logs the cell and the entry. -/
def free [Destructor ε] (l : LinkedLimbo ε) (cell : NodeId) :
    Outcome (LinkedLimbo ε) (NodeId × ε) Unit :=
  match l.entryOf? cell with
  | none => ⟨l, [], .ok ()⟩
  | some entry =>
    ⟨l.discard cell, [(cell, entry)], (Destructor.fault? entry).elim (.ok ()) .error⟩

/-- Links a cell on top of the list, believing the head to be `hint`.  The cell is made to lead to
the hint before the head is compared with it, and to the actual head if that differs. -/
def linkFrom (l : LinkedLimbo ε) (cell : NodeId) (hint : Option NodeId) : LinkedLimbo ε :=
  if _same : l.head = hint then
    { l.setNext cell hint with head := some cell }
  else
    (l.setNext cell hint).linkFrom cell l.head
termination_by if l.head = hint then 0 else 1
decreasing_by
  rw [if_neg _same, if_pos (show (l.setNext cell hint).head = l.head from rfl)]
  exact Nat.zero_lt_one

def link (l : LinkedLimbo ε) (cell : NodeId) : LinkedLimbo ε := l.linkFrom cell l.head

def park (l : LinkedLimbo ε) (cell : NodeId) : LinkedLimbo ε :=
  { l with pending := l.pending + 1 }.link cell

def putBack (l : LinkedLimbo ε) (cell : NodeId) : LinkedLimbo ε := l.link cell

def detach (l : LinkedLimbo ε) : Option NodeId × LinkedLimbo ε := (l.head, { l with head := none })

def countFreed (l : LinkedLimbo ε) : LinkedLimbo ε := { l with pending := l.pending - 1 }

/-- Hands out the first cell of a drain, cut off from the others, and answers it together with what
is left of the drain; `none` at the end of the drain. -/
def next (l : LinkedLimbo ε) (drain : Option NodeId) :
    Option (NodeId × Option NodeId × LinkedLimbo ε) :=
  match drain with
  | none => none
  | some cell =>
    (l.cells.get? cell).map fun contents ↦ (cell, contents.next, l.setNext cell none)

/-! ## Walking a drain -/

/-- Frees up to `count` of the entries of a drain.  A deleter's fault ends the walk, and the rest of
the drain is lost. -/
def freeEach [Destructor ε] :
    Nat → Option NodeId → LinkedLimbo ε → Outcome (LinkedLimbo ε) (NodeId × ε) Unit
  | 0, _, l => ⟨l, [], .ok ()⟩
  | count + 1, drain, l =>
    match l.next drain with
    | none => ⟨l, [], .ok ()⟩
    | some (cell, rest, l) =>
      match l.free cell with
      | ⟨l, events, .error fault⟩ => ⟨l, events, .error fault⟩
      | ⟨l, events, .ok ()⟩ => (freeEach count rest l).after events

/-- Drops the list: frees the entries still in it, head first. -/
def drop [Destructor ε] (l : LinkedLimbo ε) : Outcome (LinkedLimbo ε) (NodeId × ε) Unit :=
  let (drain, l) := l.detach
  freeEach (LimboCell.chain l.cells drain).length drain l

/-- Walks up to `count` cells of a drain: entries to keep go back into the list, the others are
freed and counted as freed.  A deleter's fault ends the walk; its entry is not counted, and the rest
of the drain is lost.  Answers how many were freed. -/
def sweep [Destructor ε] (keep : ε → Bool) :
    Nat → Option NodeId → LinkedLimbo ε → Outcome (LinkedLimbo ε) (NodeId × ε) Nat
  | 0, _, l => ⟨l, [], .ok 0⟩
  | count + 1, drain, l =>
    match l.next drain with
    | none => ⟨l, [], .ok 0⟩
    | some (cell, rest, l) =>
      if (l.entryOf? cell).any keep then
        sweep keep count rest (l.putBack cell)
      else
        match l.free cell with
        | ⟨l, events, .error fault⟩ => ⟨l, events, .error fault⟩
        | ⟨l, events, .ok ()⟩ =>
          let swept := sweep keep count rest l.countFreed
          ⟨swept.state, events ++ swept.events, swept.result.map (· + 1)⟩

end LinkedLimbo

end Reclaim
