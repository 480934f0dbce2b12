import Reclaim.Proofs.LimboList.Ledger

/-!
# Sweeping a limbo list

A sweep puts the entries of a drain that are to be kept back into the list and frees the others, up
to the first deleter that faults. On the sequence of entries that is a plain recursion over the
drain. In memory the cells of the drain are cut off one after the other while some of them are
linked again, and the sweep comes to the same.
-/

namespace Reclaim

variable {ε : Type}

/-- A sweep of entries that were taken out of a list. -/
def LimboList.sweep [Destructor ε] (keep : ε → Bool) :
    List ε → LimboList ε → Outcome (LimboList ε) ε Nat
  | [], list => ⟨list, [], .ok 0⟩
  | entry :: rest, list =>
    if keep entry then
      sweep keep rest (list.putBack entry)
    else
      match Destructor.fault? entry with
      | some fault => ⟨list, [entry], .error fault⟩
      | none =>
        let swept := sweep keep rest list.countFreed
        ⟨swept.state, entry :: swept.events, swept.result.map (· + 1)⟩

namespace LinkedLimbo

open LimboCell

variable {l : LinkedLimbo ε} {others : List (Option NodeId)} {hands gone : List NodeId}
  {cell : NodeId} {current : Option NodeId}

/-- The cells of a list, of some drains and of one more are shared out. -/
def Shared (l : LinkedLimbo ε) (others : List (Option NodeId)) (current : Option NodeId)
    (hands gone : List NodeId) : Prop :=
  SharedOut l.cells (l.head :: (others ++ [current])) hands gone

/-- A list that is detached becomes the last drain. -/
theorem Shared.detach (hs : SharedOut l.cells (l.head :: others) hands gone) :
    l.detach.2.Shared others l.detach.1 hands gone ∧
      l.detach.2.toLimboList = l.toLimboList.detach.2 := by
  refine ⟨SharedOut.detach hs, ?_⟩
  exact congrArg (fun links ↦ LimboList.mk (links.map (·.2.entry)) l.pending) (chain_none l.cells).2

/-- The last drain hands out its first cell. -/
theorem Shared.cut (hs : l.Shared others (some cell) hands gone) :
    ∃ entry next, l.next (some cell) = some (cell, next, l.setNext cell none) ∧
      (l.setNext cell none).cells.get? cell = some ⟨entry, none⟩ ∧
      (l.setNext cell none).Shared others next (hands ++ [cell]) gone ∧
      (chain l.cells (some cell)).map (·.2.entry) =
        entry :: (chain (l.setNext cell none).cells next).map (·.2.entry) ∧
      (l.setNext cell none).toLimboList = l.toLimboList ∧
      ∀ other ∈ others, chain (l.setNext cell none).cells other = chain l.cells other := by
  have hs' : SharedOut l.cells ((l.head :: others) ++ some cell :: []) hands gone := hs
  obtain ⟨contents, hget, hcut, hchain, hothers⟩ := hs'.cut
  rw [List.append_nil] at hothers
  refine ⟨contents.entry, contents.next, ?_, ?_, hcut, ?_, ?_, fun other hmem ↦
    hothers other (List.mem_cons_of_mem _ hmem)⟩
  · rw [next, hget]
    rfl
  · rw [setNext, Heap.get?_modify, if_pos rfl, hget]
    rfl
  · rw [hchain]
    rfl
  · exact congrArg (fun links ↦ LimboList.mk (links.map (·.2.entry)) l.pending)
      (hothers l.head List.mem_cons_self)

theorem erase_hand (hs : l.Shared others current (hands ++ [cell]) gone) :
    (hands ++ [cell]).erase cell = hands := by
  have hnew : cell ∉ hands := by
    intro hmem
    obtain ⟨-, -, hdisjoint⟩ := List.nodup_append.mp hs.nodup_hands
    exact hdisjoint cell hmem cell List.mem_cons_self rfl
  rw [List.erase_append_right _ hnew, List.erase_cons_head, List.append_nil]

/-- A cell that was handed out goes back into the list. -/
theorem Shared.putBack (hs : l.Shared others current (hands ++ [cell]) gone) {entry : ε}
    (hget : l.cells.get? cell = some ⟨entry, none⟩) :
    (l.putBack cell).Shared others current hands gone ∧
      (l.putBack cell).toLimboList = l.toLimboList.putBack entry ∧
      ∀ other ∈ others ++ [current],
        chain (l.putBack cell).cells other = chain l.cells other := by
  obtain ⟨hlinked, hchain, hothers⟩ :=
    SharedOut.link hs (List.mem_append_right hands List.mem_cons_self) hget
  rw [erase_hand hs] at hlinked
  rw [LinkedLimbo.putBack, link, linkFrom_eq]
  refine ⟨hlinked, ?_, hothers⟩
  exact congrArg (fun links ↦ LimboList.mk (links.map (·.2.entry)) l.pending) hchain

/-- A cell that was handed out goes with its object. -/
theorem Shared.discard (hs : l.Shared others current (hands ++ [cell]) gone) :
    (l.discard cell).Shared others current hands (gone ++ [cell]) ∧
      (l.discard cell).toLimboList = l.toLimboList ∧
      ∀ other ∈ others ++ [current],
        chain (l.discard cell).cells other = chain l.cells other := by
  obtain ⟨hfreed, hchains⟩ :=
    SharedOut.free hs (List.mem_append_right hands List.mem_cons_self)
  rw [erase_hand hs] at hfreed
  refine ⟨hfreed, ?_, fun other hmem ↦ hchains other (List.mem_cons_of_mem _ hmem)⟩
  have hchain := hchains l.head List.mem_cons_self
  exact congrArg (fun links ↦ LimboList.mk (links.map (·.2.entry)) l.pending) hchain

/-- A sweep of linked cells did what a sweep of the list does, and left other drains alone. -/
structure Swept (l : LinkedLimbo ε) (others : List (Option NodeId)) (hands : List NodeId)
    (o : Outcome (LimboList ε) ε Nat) (swept : Outcome (LinkedLimbo ε) (NodeId × ε) Nat) :
    Prop where
  shared : ∃ rest gone, swept.state.Shared others rest hands gone
  others : ∀ other ∈ others, chain swept.state.cells other = chain l.cells other
  list : swept.state.toLimboList = o.state
  events : swept.events.map Prod.snd = o.events
  result : swept.result = o.result

theorem Swept.of_chains {m : LinkedLimbo ε} {o : Outcome (LimboList ε) ε Nat}
    {swept : Outcome (LinkedLimbo ε) (NodeId × ε) Nat}
    (hchains : ∀ other ∈ others, chain m.cells other = chain l.cells other)
    (hswept : m.Swept others hands o swept) : l.Swept others hands o swept :=
  ⟨hswept.shared, fun other hmem ↦ (hswept.others other hmem).trans (hchains other hmem),
    hswept.list, hswept.events, hswept.result⟩

/-- A sweep of a drain does to the list what a sweep of the drain's entries does. -/
theorem Shared.swept [Destructor ε] (keep : ε → Bool) {entries : List ε}
    (hs : l.Shared others current hands gone)
    (hentries : (chain l.cells current).map (·.2.entry) = entries) :
    l.Swept others hands (LimboList.sweep keep entries l.toLimboList)
      (l.sweep keep entries.length current) := by
  induction entries generalizing l gone current with
  | nil => exact ⟨⟨_, _, hs⟩, fun _ _ ↦ rfl, rfl, rfl, rfl⟩
  | cons entry rest ih =>
    cases current with
    | none =>
      rw [(chain_none l.cells).2] at hentries
      cases hentries
    | some cell =>
      obtain ⟨entry', next, hnext, hget, hcut, hsplit, hlist, hchains⟩ := hs.cut
      obtain ⟨rfl, hrest⟩ := List.cons.inj (hsplit.symm.trans hentries)
      have hentry : (l.setNext cell none).entryOf? cell = some entry' := by
        rw [entryOf?, hget]
        rfl
      have hnextMem : next ∈ others ++ [next] := List.mem_append_right _ List.mem_cons_self
      rw [LimboList.sweep, List.length_cons, LinkedLimbo.sweep, hnext, ← hlist]
      simp only [hentry, Option.any_some]
      by_cases hkeep : keep entry' = true
      · obtain ⟨hback, hputBack, hchains'⟩ := hcut.putBack hget
        have hswept := ih hback ((congrArg _ (hchains' next hnextMem)).trans hrest)
        rw [hputBack] at hswept
        rw [if_pos hkeep, if_pos hkeep]
        refine hswept.of_chains fun other hmem ↦ ?_
        exact (hchains' other (List.mem_append_left _ hmem)).trans (hchains other hmem)
      · obtain ⟨hfreed, hdiscard, hchains'⟩ := hcut.discard
        have hkept : ∀ other ∈ others, chain ((l.setNext cell none).discard cell).cells other =
            chain l.cells other := fun other hmem ↦
          (hchains' other (List.mem_append_left _ hmem)).trans (hchains other hmem)
        rw [if_neg hkeep, if_neg hkeep, free_eq hget]
        cases hfault : Destructor.fault? entry' with
        | some fault => exact ⟨⟨_, _, hfreed⟩, hkept, hdiscard, rfl, rfl⟩
        | none =>
          -- Counting changes the counter only.
          have hcounted : (((l.setNext cell none).discard cell).countFreed).toLimboList =
              (l.setNext cell none).toLimboList.countFreed :=
            congrArg LimboList.countFreed hdiscard
          have hswept := ih (l := ((l.setNext cell none).discard cell).countFreed) hfreed
            ((congrArg _ (hchains' next hnextMem)).trans hrest)
          rw [hcounted] at hswept
          refine ⟨hswept.shared, fun other hmem ↦ ?_, hswept.list,
            congrArg (entry' :: ·) hswept.events, congrArg (Except.map (· + 1)) hswept.result⟩
          exact (hswept.others other hmem).trans (hkept other hmem)

end LinkedLimbo

end Reclaim
