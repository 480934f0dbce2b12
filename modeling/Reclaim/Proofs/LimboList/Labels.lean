import Reclaim.Proofs.LimboList.Runs

/-!
# Entries and their cells

An entry lies in one cell from the step that makes it to the step that frees it. The cell moves from
place to place, and what is linked, cut off and linked again are cells; the entry in it stays.
-/

namespace Reclaim.LinkedLimbo.Ledger

open LimboCell

variable {ε : Type} {cells : Heap (LimboCell ε)} {made : List ε} {cell : NodeId}

/-- Each cell holds the entry that it was made with, until it is gone. -/
structure Labelled (cells : Heap (LimboCell ε)) (made : List ε) : Prop where
  size : cells.size = made.length
  entry : ∀ cell contents, cells.get? cell = some contents → made[cell]? = some contents.entry

namespace Labelled

theorem alloc (hl : Labelled cells made) (entry : ε) :
    Labelled (cells.alloc ⟨entry, none⟩).2 (made ++ [entry]) where
  size := by rw [Heap.size_alloc, hl.size, List.length_append, List.length_singleton]
  entry cell contents hget := by
    rw [Heap.get?_alloc] at hget
    split at hget
    · next hcell =>
      cases hget
      rw [hcell, hl.size]
      exact List.getElem?_concat_length
    · have hold := hl.entry cell contents hget
      rw [List.getElem?_append_left (List.getElem?_eq_some_iff.mp hold).1]
      exact hold

theorem modify (hl : Labelled cells made) (cell : NodeId) (next : Option NodeId) :
    Labelled (cells.modify cell ({ · with next })) made where
  size := (Heap.size_modify ..).trans hl.size
  entry node contents hget := by
    rw [Heap.get?_modify] at hget
    split at hget
    · obtain ⟨old, hold, rfl⟩ := Option.map_eq_some_iff.mp hget
      exact hl.entry node old hold
    · exact hl.entry node contents hget

theorem free (hl : Labelled cells made) (cell : NodeId) : Labelled (cells.free cell) made where
  size := (Heap.size_free ..).trans hl.size
  entry node contents hget := by
    rw [Heap.get?_free] at hget
    split at hget
    · cases hget
    · exact hl.entry node contents hget

theorem next {l l' : LinkedLimbo ε} (hl : Labelled l.cells made) {drain rest : Option NodeId}
    (hnext : l.next drain = some (cell, rest, l')) : Labelled l'.cells made := by
  cases drain with
  | none => cases hnext
  | some first =>
    obtain ⟨contents, -, heq⟩ := Option.map_eq_some_iff.mp hnext
    cases heq
    exact hl.modify cell none

variable [Destructor ε] {s : Ledger ε} {gone : List NodeId} {step : Step ε} {reply : Reply ε}

/-- A step lets each cell keep its entry, and starts a deleter exactly if it frees a cell. -/
theorem perform (hl : Labelled s.limbo.cells made) (hs : s.Sound gone)
    (hperform : s.perform step = some reply) :
    Labelled reply.state.limbo.cells (made ++ step.made) ∧
      reply.events.map Prod.fst = step.freed ∧
      ∀ started ∈ reply.events, (made ++ step.made)[started.1]? = some started.2 := by
  cases step with
  | make entry =>
    cases hperform
    exact ⟨hl.alloc entry, rfl, List.forall_mem_nil _⟩
  | park cell | putBack cell =>
    obtain ⟨-, heq⟩ := Option.ite_none_right_eq_some.mp hperform
    cases heq
    simp only [LinkedLimbo.park, LinkedLimbo.putBack, LinkedLimbo.link, linkFrom_eq, Step.made,
      List.append_nil]
    exact ⟨hl.modify cell s.limbo.head, rfl, List.forall_mem_nil _⟩
  | next drain =>
    suffices hcells : Labelled reply.state.limbo.cells made ∧ reply.events = [] by
      obtain ⟨hlabelled, hevents⟩ := hcells
      rw [hevents]
      exact ⟨(List.append_nil made).symm ▸ hlabelled, rfl, List.forall_mem_nil _⟩
    simp only [Ledger.perform] at hperform
    split at hperform
    · cases hperform
    · split at hperform
      · cases hperform
        exact ⟨hl, rfl⟩
      · next cell rest limbo hnext =>
        cases hperform
        exact ⟨hl.next hnext, rfl⟩
  | detach | countFreed =>
    cases hperform
    exact ⟨(List.append_nil made).symm ▸ hl, rfl, List.forall_mem_nil _⟩
  | free cell =>
    obtain ⟨hcell, heq⟩ := Option.ite_none_right_eq_some.mp hperform
    obtain ⟨entry, hget⟩ := hs.held cell hcell
    rw [free_eq hget] at heq
    cases heq
    have hlabel := hl.entry cell _ hget
    refine ⟨(List.append_nil made).symm ▸ hl.free cell, rfl, fun started hstarted ↦ ?_⟩
    rw [List.mem_singleton.mp hstarted]
    exact (List.append_nil made).symm ▸ hlabel
  | forget cell =>
    obtain ⟨-, heq⟩ := Option.ite_none_right_eq_some.mp hperform
    cases heq
    exact ⟨(List.append_nil made).symm ▸ hl.free cell, rfl, List.forall_mem_nil _⟩

end Labelled

variable [Destructor ε] {s : Ledger ε} {moves : List (Move ε)}

/-- Each entry stays in the cell that it was made in, and the deleters started are those of the
entries freed. -/
theorem Run.labelled (hrun : Run {} moves s) :
    Labelled s.limbo.cells (madeIn moves) ∧ (startedIn moves).map Prod.fst = freedIn moves ∧
      ∀ started ∈ startedIn moves, (madeIn moves)[started.1]? = some started.2 := by
  induction hrun with
  | start =>
    refine ⟨⟨rfl, fun cell contents hget ↦ ?_⟩, rfl, List.forall_mem_nil _⟩
    exact nomatch Heap.lt_size_of_get? hget
  | @step moves t step reply hrun hperform ih =>
    obtain ⟨hlabelled, hfreed, hstarted⟩ := ih
    obtain ⟨hlabelled, hevents, hlabels⟩ := hlabelled.perform (hrun.sound sound_empty) hperform
    have hmade : madeIn (moves ++ [⟨step, reply⟩]) = madeIn moves ++ step.made := by
      rw [madeIn, List.flatMap_append, List.flatMap_singleton, ← madeIn]
    rw [hmade, startedIn, freedIn, List.flatMap_append, List.flatMap_append,
      List.flatMap_singleton, List.flatMap_singleton, List.map_append, ← startedIn, ← freedIn,
      hfreed, hevents]
    refine ⟨hlabelled, rfl, fun started hmem ↦ ?_⟩
    rcases List.mem_append.mp hmem with hmem | hmem
    · have hold := hstarted started hmem
      rw [List.getElem?_append_left (List.getElem?_eq_some_iff.mp hold).1]
      exact hold
    · exact hlabels started hmem

/-- Each cell that is not gone is there, with its entry. -/
theorem Run.entryOf?_eq (hrun : Run {} moves s) (cell : NodeId) :
    s.limbo.entryOf? cell = if cell ∈ consumedIn moves then none else (madeIn moves)[cell]? := by
  have hsound := hrun.sound sound_empty
  rw [List.nil_append] at hsound
  obtain ⟨hlabelled, -⟩ := hrun.labelled
  rw [entryOf?]
  split
  · next hgone =>
    rw [hsound.cleared cell hgone]
    rfl
  · next hgone =>
    by_cases hlt : cell < s.limbo.cells.size
    · obtain ⟨contents, hget⟩ := hsound.exists_get? hlt hgone
      rw [hget, hlabelled.entry cell contents hget]
      rfl
    · have hle := Nat.not_lt.mp hlt
      rw [Heap.get?_of_size_le hle, List.getElem?_eq_none (hlabelled.size ▸ hle)]
      rfl

end Reclaim.LinkedLimbo.Ledger
