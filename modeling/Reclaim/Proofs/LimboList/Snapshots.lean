import Reclaim.LimboList.Session
import Reclaim.Proofs.LimboList.Dropping
import Reclaim.Proofs.LimboList.Labels

/-!
# Limbo lists and drains are disjoint snapshots

The list, its drains and the callers share the same cells, and each step changes the cells in place.
Even so a drain is a snapshot. It hands out the cells that were on the list when it was taken, in
the order in which the list had them, and then nothing, whatever happens to the list, to other
drains and to the cells that it handed out. The counter knows nothing of this: it goes up with each
entry parked and down with each entry counted as freed.
-/

namespace Reclaim.LinkedLimbo.Ledger

variable {ε : Type} [Destructor ε] {moves : List (Move ε)} {s : Ledger ε}

/-- What the moves since the empty list make of a ledger. -/
structure Snapshots (moves : List (Move ε)) (s : Ledger ε) : Prop where
  /-- Each cell ever made is on the list, on one drain, in somebody's hands or gone. -/
  places : (s.list.entries ++ s.rests.flatten ++ s.hands ++ consumedIn moves).Perm
    (List.range (madeIn moves).length)
  /-- A cell that is not gone holds the entry that it was made with. -/
  held : ∀ cell, s.limbo.entryOf? cell =
    if cell ∈ consumedIn moves then none else (madeIn moves)[cell]?
  /-- The list shows the entries in its cells, and its counter. -/
  shown : s.limbo.toLimboList.entries.map some = s.list.entries.map s.limbo.entryOf? ∧
    s.limbo.toLimboList.pending = s.list.pending
  /-- Each cell that was freed had its deleter started with its entry, and no other cell had. -/
  started : (startedIn moves).map Prod.fst = freedIn moves ∧
    ∀ start ∈ startedIn moves, (madeIn moves)[start.1]? = some start.2
  /-- The list holds what was linked since it was last taken, the last first. Its counter is the
  number of entries parked less the number counted as freed, modulo `2 ^ 64`. -/
  list : s.list =
    ⟨(linkedIn moves).reverse, .ofNat (parksIn moves) - .ofNat (countsIn moves)⟩
  /-- Detaching hands over all of the list and leaves it empty. -/
  detach : ∃ t, s.perform .detach = some ⟨t, [], .ok (.detached s.rests.length)⟩ ∧
    t.list = ⟨[], s.list.pending⟩ ∧ t.rests = s.rests ++ [(linkedIn moves).reverse] ∧
    t.hands = s.hands
  /-- A drain can be asked at any time and hands out the first of its cells. -/
  next : ∀ drain cells, s.rests[drain]? = some cells →
    ∃ t, s.perform (.next drain) = some ⟨t, [], .ok (.handed cells.head?)⟩ ∧
      t.rests = s.rests.modify drain List.tail ∧ t.list = s.list ∧
      t.hands = s.hands ++ cells.head?.toList
  /-- Whatever is done later, a drain hands out its cells in order, and then nothing for ever. -/
  drains : ∀ drain cells later t, s.rests[drain]? = some cells → Run s later t →
    handedBy drain later = (List.range (handedBy drain later).length).map (cells[·]?) ∧
      t.rests[drain]? = some (cells.drop (handedBy drain later).length)
  /-- Dropping starts the deleters of the entries in the list from its head, up to the first that
  faults. The drains and the cells in somebody's hands are left as they are, and go on. -/
  drop : ∃ later t, Run s later t ∧ t.limbo = s.limbo.drop.state ∧
    startedIn later = s.limbo.drop.events ∧
    s.limbo.drop.events.map Prod.fst =
      s.list.entries.take (SharedStack.reach s.limbo.toLimboList.entries) ∧
    s.limbo.drop.events.map Prod.snd =
      s.limbo.toLimboList.entries.take (SharedStack.reach s.limbo.toLimboList.entries) ∧
    s.limbo.drop.result = SharedStack.ending s.limbo.toLimboList.entries ∧
    t.list = ⟨[], s.list.pending⟩ ∧
    t.rests = s.rests ++
      [s.list.entries.drop (SharedStack.reach s.limbo.toLimboList.entries)] ∧
    t.hands = s.hands

/-- After every run each cell is in one place, the list holds what was linked since it was taken,
and each drain hands out what it took. -/
theorem drains_are_snapshots (hrun : Run {} moves s) : Snapshots moves s := by
  have hsound := hrun.sound sound_empty
  rw [List.nil_append] at hsound
  obtain ⟨hlabelled, hstarted⟩ := hrun.labelled
  have hlist := hrun.list_eq
  refine ⟨?_, hrun.entryOf?_eq, ⟨hsound.entries_eq, rfl⟩, hstarted, hlist, ?_, ?_, ?_, hsound.drop⟩
  · have hplaces := hsound.places
    rw [List.flatMap_cons, hlabelled.size] at hplaces
    exact hplaces
  · obtain ⟨-, hempty, hrests⟩ := hsound.detach
    have hnumber : s.rests.length = s.drains.length := List.length_map _
    rw [hnumber]
    refine ⟨_, rfl, hempty, hrests.trans ?_, rfl⟩
    rw [Step.onRests, hlist]
    rfl
  · intro drain cells hrest
    obtain ⟨t, hnext, hhands, -, hlist, hrests⟩ := hsound.next hrest
    exact ⟨t, hnext, hrests, hlist, hhands⟩
  · intro drain cells later t hrest hlater
    exact hlater.rests_eq hsound hrest

/-- An entry that a drain handed out is linked again at once, and another one is parked on top of
it, before the drain goes on. -/
def relinking : List (Step LimboList.Entry) :=
  [.make ⟨some "a", false⟩, .make ⟨some "b", true⟩, .make ⟨some "c", false⟩, .park 0, .park 1,
    .detach, .next 0, .putBack 1, .park 2, .next 0, .next 0]

/-- The drain has come to its end, and the list is dropped up to the entry that faults. -/
theorem drains_are_snapshots_relinking :
    handedBy 0 (({} : Ledger LimboList.Entry).follow relinking).1 = [some 1, some 0, none] ∧
      ∃ later t, Run (({} : Ledger LimboList.Entry).follow relinking).2 later t ∧
        (startedIn later).map Prod.fst = [2, 1] ∧ t.hands = [0] := by
  have hsnapshots := drains_are_snapshots (Run.follow {} relinking)
  obtain ⟨later, t, hrun, -, hstarted, hcells, -, -, -, -, hhands⟩ := hsnapshots.drop
  refine ⟨by decide +kernel, later, t, hrun, ?_, ?_⟩
  · rw [hstarted, hcells]
    decide +kernel
  · rw [hhands]
    decide +kernel

end Reclaim.LinkedLimbo.Ledger
