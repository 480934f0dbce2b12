import Reclaim.Proofs.LimboList.Runs
import Reclaim.Proofs.SharedStack.Destruction

/-!
# Dropping a limbo list

A list is dropped as if its owner took a drain off it and freed what the drain hands out, up to the
first deleter that faults. So dropping is a run like any other: it disturbs no drain taken before
and no cell in somebody's hands, and they can be used afterwards.
-/

namespace Reclaim.LinkedLimbo.Ledger

open LimboCell SharedStack

variable {ε : Type} [Destructor ε] {s t u : Ledger ε} {gone : List NodeId} {drain : Nat}
  {freed freed' : List (NodeId × ε)}

/-- A run took cells off a drain and started their deleters. Apart from the drain everything is as
it was. -/
structure Frees (s : Ledger ε) (drain : Nat) (freed : List (NodeId × ε)) (t : Ledger ε) : Prop where
  run : ∃ moves, Run s moves t ∧ startedIn moves = freed
  list : t.list = s.list
  rests : t.rests = s.rests.modify drain (List.drop freed.length)
  hands : t.hands = s.hands

namespace Frees

theorem refl (s : Ledger ε) (drain : Nat) : s.Frees drain [] s where
  run := ⟨[], .start, rfl⟩
  list := rfl
  rests := (List.modify_id drain s.rests).symm
  hands := rfl

theorem trans (hst : s.Frees drain freed t) (htu : t.Frees drain freed' u) :
    s.Frees drain (freed ++ freed') u where
  run := by
    obtain ⟨moves, hrun, hstarted⟩ := hst.run
    obtain ⟨moves', hrun', hstarted'⟩ := htu.run
    refine ⟨moves ++ moves', hrun.trans hrun', ?_⟩
    rw [startedIn, List.flatMap_append, ← startedIn, ← startedIn, hstarted, hstarted']
  list := htu.list.trans hst.list
  rests := by
    have hdrop : List.drop freed'.length ∘ List.drop freed.length =
        (List.drop (freed ++ freed').length : List NodeId → List NodeId) := by
      funext cells
      rw [Function.comp_apply, List.drop_drop, List.length_append]
    rw [htu.rests, hst.rests, List.modify_modify_eq, hdrop]
  hands := htu.hands.trans hst.hands

end Frees

section

variable {before : List (Option NodeId)} {cell : NodeId} {contents : LimboCell ε}

theorem perform_free_last {limbo : LinkedLimbo ε} {drains : List (Option NodeId)}
    {hands : List NodeId} (hnew : cell ∉ hands) (hget : limbo.cells.get? cell = some contents) :
    ∃ result, perform ⟨limbo, drains, hands ++ [cell]⟩ (.free cell) =
      some ⟨⟨limbo.discard cell, drains, hands⟩, [(cell, contents.entry)], result⟩ := by
  have hheld : cell ∈ hands ++ [cell] := List.mem_append_right _ List.mem_cons_self
  have hhands : (hands ++ [cell]).erase cell = hands := by
    rw [List.erase_append_right _ hnew, List.erase_cons_head, List.append_nil]
  rw [perform, giveUp, if_pos hheld, free_eq hget, hhands]
  exact ⟨_, rfl⟩

/-- The last drain hands out its first cell, and the cell is freed. -/
theorem Sound.frees_first (hs : s.Sound gone) (hdrains : s.drains = before ++ [some cell]) :
    ∃ contents, (s.limbo.setNext cell none).free cell =
        ⟨(s.limbo.setNext cell none).discard cell, [(cell, contents.entry)],
          (Destructor.fault? contents.entry).elim (.ok ()) .error⟩ ∧
      s.limbo.next (some cell) = some (cell, contents.next, s.limbo.setNext cell none) ∧
      s.Frees before.length [(cell, contents.entry)]
        ⟨(s.limbo.setNext cell none).discard cell, before ++ [contents.next], s.hands⟩ ∧
      chain s.limbo.cells (some cell) = (cell, contents) ::
        chain ((s.limbo.setNext cell none).discard cell).cells contents.next := by
  obtain ⟨contents, hcontents, hcut, hchain, -⟩ := hs.cut hdrains
  have hnext := perform_next hdrains hcontents
  have hget : (s.limbo.setNext cell none).cells.get? cell = some ⟨contents.entry, none⟩ := by
    rw [setNext, Heap.get?_modify, if_pos rfl, hcontents]
    rfl
  have hnew : cell ∉ s.hands := by
    intro hmem
    obtain ⟨-, -, hdisjoint⟩ := List.nodup_append.mp hcut.nodup_hands
    exact hdisjoint cell hmem cell List.mem_cons_self rfl
  -- The cell comes into the caller's hands and is given up, which leaves the hands as they were.
  have hfree := free_eq hget
  obtain ⟨result, hfreed⟩ := perform_free_last hnew hget
  have hrun := (Run.start.step hnext).step hfreed
  obtain ⟨hsound, hlist, hrests⟩ := hs.perform hnext
  obtain ⟨-, hlist', hrests'⟩ := hsound.perform hfreed
  have hheld : cell ∈ s.hands ++ [cell] := List.mem_append_right _ List.mem_cons_self
  obtain ⟨-, hchains⟩ := hcut.free hheld
  have hrest : contents.next ∈ s.limbo.head :: (before ++ [contents.next]) :=
    List.mem_cons_of_mem _ (List.mem_append_right before List.mem_cons_self)
  refine ⟨contents, hfree, ?_, ⟨⟨_, hrun, rfl⟩, ?_, ?_, rfl⟩, ?_⟩
  · rw [LinkedLimbo.next, hcontents]
    rfl
  · exact hlist'.trans hlist
  · have htail : (List.tail : List NodeId → List NodeId) = List.drop 1 :=
      funext fun _ ↦ List.drop_one.symm
    rw [List.length_singleton, ← htail]
    exact hrests'.trans hrests
  · rw [hchain, ← hchains contents.next hrest]
    rfl

end

/-- The cells of a chain that are freed when it is walked, with their entries: all up to and with
the first one whose deleter faults. -/
def reached (links : List (NodeId × LimboCell ε)) : List (NodeId × ε) :=
  (links.map fun link ↦ (link.1, link.2.entry)).take (reach (links.map (·.2.entry)))

theorem length_reached (links : List (NodeId × LimboCell ε)) :
    (reached links).length = reach (links.map (·.2.entry)) := by
  have hle : reach (links.map (·.2.entry)) ≤ (links.map (·.2.entry)).length := Nat.min_le_right ..
  rw [List.length_map] at hle
  rw [reached, List.length_take, List.length_map]
  exact Nat.min_eq_left hle

theorem reached_cons_of_fault {contents : LimboCell ε} {fault : Fault}
    (hfault : Destructor.fault? contents.entry = some fault) (cell : NodeId)
    (rest : List (NodeId × LimboCell ε)) :
    reached ((cell, contents) :: rest) = [(cell, contents.entry)] := by
  rw [reached, List.map_cons, List.map_cons, reach_cons_of_fault hfault]
  rfl

theorem reached_cons_of_quiet {contents : LimboCell ε}
    (hquiet : Destructor.fault? contents.entry = none) (cell : NodeId)
    (rest : List (NodeId × LimboCell ε)) :
    reached ((cell, contents) :: rest) = [(cell, contents.entry)] ++ reached rest := by
  rw [reached, List.map_cons, List.map_cons, reach_cons_of_quiet hquiet]
  rfl

/-- Walking the last drain frees its cells in order, up to the first whose deleter faults. -/
theorem Sound.frees_freeEach {count : Nat} (hs : s.Sound gone) {before : List (Option NodeId)}
    {current : Option NodeId} (hdrains : s.drains = before ++ [current])
    (hcount : (chain s.limbo.cells current).length = count) :
    ∃ t, s.limbo.freeEach count current = ⟨t.limbo, reached (chain s.limbo.cells current),
        ending ((chain s.limbo.cells current).map (·.2.entry))⟩ ∧
      s.Frees before.length (reached (chain s.limbo.cells current)) t := by
  induction count generalizing s gone current with
  | zero =>
    rw [List.eq_nil_of_length_eq_zero hcount]
    exact ⟨s, rfl, .refl s before.length⟩
  | succ count ih =>
    cases current with
    | none =>
      rw [(chain_none s.limbo.cells).2] at hcount
      cases hcount
    | some cell =>
      obtain ⟨contents, hfree, hnext, hfrees, hchain⟩ := hs.frees_first hdrains
      rw [hchain, freeEach, hnext]
      simp only [hfree, List.map_cons]
      cases hfault : Destructor.fault? contents.entry with
      | some fault =>
        rw [reached_cons_of_fault hfault, ending_cons_of_fault hfault]
        exact ⟨_, rfl, hfrees⟩
      | none =>
        obtain ⟨moves, hrun, -⟩ := hfrees.run
        rw [hchain, List.length_cons] at hcount
        obtain ⟨t, hwalk, hrest⟩ := ih (hrun.sound hs) rfl (Nat.succ.inj hcount)
        rw [reached_cons_of_quiet hfault, ending_cons_of_quiet hfault]
        refine ⟨t, ?_, hfrees.trans hrest⟩
        dsimp only at hwalk
        simp only [Option.elim_none, hwalk]
        rfl

/-- Dropping a list is a run of detaching, asking and freeing. It frees the entries in the list from
its head, up to the first deleter that faults, and leaves the rest of the list on a drain that
nobody has. -/
theorem Sound.drop (hs : s.Sound gone) :
    ∃ moves t, Run s moves t ∧ t.limbo = s.limbo.drop.state ∧
      startedIn moves = s.limbo.drop.events ∧
      s.limbo.drop.events.map Prod.fst =
        s.list.entries.take (reach s.limbo.toLimboList.entries) ∧
      s.limbo.drop.events.map Prod.snd =
        s.limbo.toLimboList.entries.take (reach s.limbo.toLimboList.entries) ∧
      s.limbo.drop.result = ending s.limbo.toLimboList.entries ∧
      t.list = ⟨[], s.list.pending⟩ ∧
      t.rests = s.rests ++ [s.list.entries.drop (reach s.limbo.toLimboList.entries)] ∧
      t.hands = s.hands := by
  obtain ⟨hsound, hlist, hrests⟩ := hs.detach
  obtain ⟨t, hwalk, hfrees⟩ := hsound.frees_freeEach rfl rfl
  obtain ⟨moves, hrun, hstarted⟩ := hfrees.run
  have hdetach : s.perform .detach = some ⟨⟨s.limbo.detach.2, s.drains ++ [s.limbo.detach.1],
      s.hands⟩, [], .ok (.detached s.drains.length)⟩ := rfl
  have hdrop : s.limbo.drop = ⟨t.limbo, reached (chain s.limbo.cells s.limbo.head),
      ending s.limbo.toLimboList.entries⟩ := hwalk
  have hplace : s.drains.length = s.rests.length := (List.length_map _).symm
  rw [hdrop]
  refine ⟨_, t, (Run.start.step hdetach).trans hrun, rfl, hstarted, ?_, ?_, rfl,
    hfrees.list.trans hlist, ?_, hfrees.hands⟩
  · rw [reached, List.map_take, List.map_map]
    rfl
  · rw [reached, List.map_take, List.map_map]
    rfl
  · rw [hfrees.rests, hrests, Step.onRests, length_reached, hplace, modify_append_cons]
    rfl

end Reclaim.LinkedLimbo.Ledger
