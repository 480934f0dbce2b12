import Reclaim.Lists
import Reclaim.Proofs.LimboList.Trails

/-!
# Ledgers of a limbo list

A ledger is a limbo list together with all drains ever taken off it, in the order of taking, and
with the cells in the callers' hands. `perform` carries out one step if the caller holds the cell
that the step needs, or has the drain that it asks. Seen from outside, the list is the sequence of
its cells and each drain is the sequence of the cells that it has still to hand out; every step acts
on these sequences as `Reclaim.LimboList` says, whatever cells it changes in memory.
-/

namespace Reclaim.LinkedLimbo

open LimboCell

variable {ε : Type}

/-- A hint plays no part: the cell is linked on top of the actual head. -/
theorem linkFrom_eq (l : LinkedLimbo ε) (cell : NodeId) (hint : Option NodeId) :
    l.linkFrom cell hint = { l.setNext cell l.head with head := some cell } := by
  rw [linkFrom]
  split
  · next hsame => rw [hsame]
  · -- The second turn of the loop overwrites the hint in the cell.
    rw [linkFrom, dif_pos (show (l.setNext cell hint).head = l.head from rfl)]
    have hcells : ((l.setNext cell hint).setNext cell l.head).cells =
        (l.setNext cell l.head).cells := by
      apply Heap.ext_get?
      · simp [setNext]
      · intro node
        simp only [setNext, Heap.get?_modify]
        split
        · rw [Option.map_map]
          rfl
        · rfl
    simp only [setNext] at hcells ⊢
    rw [hcells]

theorem free_eq [Destructor ε] {l : LinkedLimbo ε} {cell : NodeId} {contents : LimboCell ε}
    (hget : l.cells.get? cell = some contents) :
    l.free cell = ⟨l.discard cell, [(cell, contents.entry)],
      (Destructor.fault? contents.entry).elim (.ok ()) .error⟩ := by
  rw [free, entryOf?, hget]
  rfl

/-- A limbo list, the drains taken off it, and the cells in the callers' hands. -/
structure Ledger (ε : Type) where
  limbo : LinkedLimbo ε := {}
  drains : List (Option NodeId) := []
  hands : List NodeId := []

namespace Ledger

/-- The list of cells, the last linked first, and the count of entries that wait. -/
def list (s : Ledger ε) : LimboList NodeId :=
  ⟨trail s.limbo.cells s.limbo.head, s.limbo.pending⟩

def rests (s : Ledger ε) : List (List NodeId) := s.drains.map (trail s.limbo.cells)

/-- Each cell is on the list, on one drain or in somebody's hands, or gone. -/
def Sound (s : Ledger ε) (gone : List NodeId) : Prop :=
  SharedOut s.limbo.cells (s.limbo.head :: s.drains) s.hands gone

/-- A step; a drain is named by the number of drains taken before it. -/
inductive Step (ε : Type) where
  | make (entry : ε)
  | park (cell : NodeId)
  | putBack (cell : NodeId)
  | detach
  | next (drain : Nat)
  | countFreed
  | free (cell : NodeId)
  | forget (cell : NodeId)

/-- What a step answers: the cell that it made, the number of the drain that it took, or the cell
that a drain handed out. -/
inductive Answer where
  | done
  | made (cell : NodeId)
  | detached (drain : Nat)
  | handed (cell : Option NodeId)

/-- The ledger after a step, the cells and entries whose deleters were started, and the answer. -/
abbrev Reply (ε : Type) := Outcome (Ledger ε) (NodeId × ε) Answer

/-- What a step does with a cell that the caller gives up, if the caller holds it. -/
def giveUp (s : Ledger ε) (cell : NodeId) (o : Outcome (LinkedLimbo ε) (NodeId × ε) Unit) :
    Option (Reply ε) :=
  if cell ∈ s.hands then
    some ⟨{ s with limbo := o.state, hands := s.hands.erase cell }, o.events,
      o.result.map fun _ ↦ .done⟩
  else
    none

/-- Carries out a step; `none` if the caller has not what it takes. -/
def perform [Destructor ε] (s : Ledger ε) : Step ε → Option (Reply ε)
  | .make entry =>
    let (cell, limbo) := s.limbo.box entry
    some ⟨{ s with limbo, hands := s.hands ++ [cell] }, [], .ok (.made cell)⟩
  | .park cell => s.giveUp cell ⟨s.limbo.park cell, [], .ok ()⟩
  | .putBack cell => s.giveUp cell ⟨s.limbo.putBack cell, [], .ok ()⟩
  | .detach =>
    let (drain, limbo) := s.limbo.detach
    some ⟨{ s with limbo, drains := s.drains ++ [drain] }, [], .ok (.detached s.drains.length)⟩
  | .next drain =>
    match s.drains[drain]? with
    | none => none
    | some current =>
      match s.limbo.next current with
      | none => some ⟨s, [], .ok (.handed none)⟩
      | some (cell, rest, limbo) =>
        some ⟨⟨limbo, s.drains.set drain rest, s.hands ++ [cell]⟩, [], .ok (.handed (some cell))⟩
  | .countFreed => some ⟨{ s with limbo := s.limbo.countFreed }, [], .ok .done⟩
  | .free cell => s.giveUp cell (s.limbo.free cell)
  | .forget cell => s.giveUp cell ⟨s.limbo.discard cell, [], .ok ()⟩

def Step.consumed : Step ε → List NodeId
  | .free cell | .forget cell => [cell]
  | _ => []

def Step.onList : Step ε → LimboList NodeId → LimboList NodeId
  | .park cell, list => list.park cell
  | .putBack cell, list => list.putBack cell
  | .detach, list => list.detach.2
  | .countFreed, list => list.countFreed
  | _, list => list

def Step.onRests (list : LimboList NodeId) : Step ε → List (List NodeId) → List (List NodeId)
  | .detach, rests => rests ++ [list.detach.1]
  | .next drain, rests => rests.modify drain List.tail
  | _, rests => rests

/-- A step leaves the cells shared out, and does to the list and the drains what it should. -/
structure Follows (s : Ledger ε) (gone : List NodeId) (step : Step ε) (t : Ledger ε) : Prop where
  sound : t.Sound (gone ++ step.consumed)
  list : t.list = step.onList s.list
  rests : t.rests = step.onRests s.list s.rests

variable {s t : Ledger ε} {gone : List NodeId} {step : Step ε} {cell : NodeId}

theorem follows_of_kept (hconsumed : step.consumed = []) (hsound : t.Sound gone)
    (hlist : t.list = step.onList s.list) (hrests : t.rests = step.onRests s.list s.rests) :
    s.Follows gone step t := by
  refine ⟨?_, hlist, hrests⟩
  rw [hconsumed, List.append_nil]
  exact hsound

/-- What the chains show stays the same as long as they do. -/
theorem trails_congr {cells : Heap (LimboCell ε)} {starts : List (Option NodeId)}
    (h : ∀ start ∈ starts, chain cells start = chain s.limbo.cells start) :
    starts.map (trail cells) = starts.map (trail s.limbo.cells) :=
  List.map_congr_left fun start hstart ↦ congrArg (List.map Prod.fst) (h start hstart)

/-- A ledger with the same chains shows the same list and drains. -/
theorem list_congr {cells : Heap (LimboCell ε)}
    (h : ∀ start ∈ s.limbo.head :: s.drains, chain cells start = chain s.limbo.cells start) :
    trail cells s.limbo.head = s.list.entries ∧ s.drains.map (trail cells) = s.rests :=
  List.cons.inj (trails_congr h)

namespace Sound

/-- What the list shows are the entries in its cells. -/
theorem entries_eq (hs : s.Sound gone) :
    s.limbo.toLimboList.entries.map some = s.list.entries.map s.limbo.entryOf? := by
  rw [toLimboList, list, trail, List.map_map, List.map_map]
  refine List.map_congr_left fun link hlink ↦ ?_
  have hget := (hs.ends s.limbo.head List.mem_cons_self).get?_of_mem hlink
  exact (congrArg (Option.map (·.entry)) hget).symm

theorem make (hs : s.Sound gone) (entry : ε) :
    s.Follows gone (.make entry)
      { s with limbo := (s.limbo.box entry).2, hands := s.hands ++ [(s.limbo.box entry).1] } := by
  obtain ⟨hsound, hchains⟩ := SharedOut.alloc hs entry
  obtain ⟨hlist, hrests⟩ := list_congr hchains
  exact follows_of_kept rfl hsound (congrArg (LimboList.mk · s.limbo.pending) hlist) hrests

/-- A cell that is linked goes from somebody's hands to the top of the list. -/
theorem link (hs : s.Sound gone) (hcell : cell ∈ s.hands) (pending : UInt64) :
    let limbo := { s.limbo with pending }.link cell
    Sound { s with limbo, hands := s.hands.erase cell } gone ∧
      list { s with limbo, hands := s.hands.erase cell } = ⟨cell :: s.list.entries, pending⟩ ∧
      rests { s with limbo, hands := s.hands.erase cell } = s.rests := by
  obtain ⟨entry, hget⟩ := hs.held cell hcell
  obtain ⟨hsound, hchain, hchains⟩ := SharedOut.link hs hcell hget
  have htop := congrArg (List.map Prod.fst) hchain
  simp only [LinkedLimbo.link, linkFrom_eq]
  exact ⟨hsound, congrArg (LimboList.mk · pending) htop, trails_congr hchains⟩

theorem detach (hs : s.Sound gone) :
    s.Follows gone .detach
      { s with limbo := s.limbo.detach.2, drains := s.drains ++ [s.limbo.detach.1] } := by
  refine follows_of_kept rfl (SharedOut.detach hs) ?_ ?_
  · exact congrArg (LimboList.mk · s.limbo.pending) (trail_none s.limbo.cells)
  · exact List.map_append

/-- A cell that is given up is gone, and the chains stay as they are. -/
theorem discard (hs : s.Sound gone) (hcell : cell ∈ s.hands) :
    Sound { s with limbo := s.limbo.discard cell, hands := s.hands.erase cell } (gone ++ [cell]) ∧
      list { s with limbo := s.limbo.discard cell, hands := s.hands.erase cell } = s.list ∧
      rests { s with limbo := s.limbo.discard cell, hands := s.hands.erase cell } = s.rests := by
  obtain ⟨hsound, hchains⟩ := SharedOut.free hs hcell
  obtain ⟨hlist, hrests⟩ := list_congr hchains
  exact ⟨hsound, congrArg (LimboList.mk · s.limbo.pending) hlist, hrests⟩

end Sound

/-- The drain of a given number, among the drains taken before and after it. -/
theorem exists_of_rests {drain : Nat} {cells : List NodeId} (hrest : s.rests[drain]? = some cells) :
    ∃ before current after, s.drains = before ++ current :: after ∧ before.length = drain ∧
      trail s.limbo.cells current = cells := by
  rw [rests, List.getElem?_map] at hrest
  obtain ⟨current, hdrain, htrail⟩ := Option.map_eq_some_iff.mp hrest
  obtain ⟨hlt, hget⟩ := List.getElem?_eq_some_iff.mp hdrain
  obtain ⟨before, after, hsplit, hlength, -⟩ := @List.exists_of_set _ drain current _ hlt
  rw [hget] at hsplit
  exact ⟨before, current, after, hsplit, hlength, htrail⟩

/-- Asking a drain takes the first cell off what it has still to hand out. -/
theorem onRests_next {before after : List (Option NodeId)} {current : Option NodeId}
    (hdrains : s.drains = before ++ current :: after) :
    Step.onRests s.list (.next before.length : Step ε) s.rests =
      before.map (trail s.limbo.cells) ++
        (trail s.limbo.cells current).tail :: after.map (trail s.limbo.cells) := by
  have hlength : before.length = (before.map (trail s.limbo.cells)).length :=
    (List.length_map ..).symm
  rw [Step.onRests, rests, hdrains, List.map_append, List.map_cons, hlength, modify_append_cons]

section

variable {before after : List (Option NodeId)}

/-- The first cell of a drain is there and can be cut off. -/
theorem Sound.cut (hs : s.Sound gone) (hdrains : s.drains = before ++ some cell :: after) :
    ∃ contents, s.limbo.cells.get? cell = some contents ∧
      SharedOut (s.limbo.setNext cell none).cells
        (s.limbo.head :: (before ++ contents.next :: after)) (s.hands ++ [cell]) gone ∧
      chain s.limbo.cells (some cell) =
        (cell, contents) :: chain (s.limbo.setNext cell none).cells contents.next ∧
      ∀ other ∈ s.limbo.head :: (before ++ after),
        chain (s.limbo.setNext cell none).cells other = chain s.limbo.cells other := by
  have hshared : SharedOut s.limbo.cells ((s.limbo.head :: before) ++ some cell :: after) s.hands
      gone := by
    rw [List.cons_append, ← hdrains]
    exact hs
  exact hshared.cut

variable [Destructor ε]

/-- Asking a drain cuts off its first cell. -/
theorem perform_next {contents : LimboCell ε} (hdrains : s.drains = before ++ some cell :: after)
    (hget : s.limbo.cells.get? cell = some contents) :
    s.perform (.next before.length) =
      some ⟨⟨s.limbo.setNext cell none, before ++ contents.next :: after, s.hands ++ [cell]⟩, [],
        .ok (.handed (some cell))⟩ := by
  simp only [perform, hdrains, List.getElem?_append_right (Nat.le_refl _), Nat.sub_self,
    List.getElem?_cons_zero, LinkedLimbo.next, hget, Option.map_some,
    List.set_append_right _ _ (Nat.le_refl _), List.set_cons_zero]

/-- A drain at its end answers so and stays there. -/
theorem perform_next_none (hdrains : s.drains = before ++ none :: after) :
    s.perform (.next before.length) = some ⟨s, [], .ok (.handed none)⟩ := by
  simp only [perform, hdrains, List.getElem?_append_right (Nat.le_refl _), Nat.sub_self,
    List.getElem?_cons_zero, LinkedLimbo.next]

/-- A drain hands out the first of its cells, and nothing at its end; the cell is then in the
caller's hands. -/
theorem Sound.next (hs : s.Sound gone) {drain : Nat} {cells : List NodeId}
    (hrest : s.rests[drain]? = some cells) :
    ∃ t, s.perform (.next drain) = some ⟨t, [], .ok (.handed cells.head?)⟩ ∧
      t.hands = s.hands ++ cells.head?.toList ∧ s.Follows gone (.next drain) t := by
  obtain ⟨before, current, after, hdrains, rfl, rfl⟩ := exists_of_rests hrest
  cases current with
  | none =>
    rw [trail_none]
    refine ⟨s, perform_next_none hdrains, (List.append_nil _).symm, follows_of_kept rfl hs rfl ?_⟩
    rw [onRests_next hdrains, trail_none, List.tail_nil, rests, hdrains, List.map_append,
      List.map_cons, trail_none]
  | some cell =>
    obtain ⟨contents, hcontents, hsound, hchain, hchains⟩ := hs.cut hdrains
    have hcut : trail s.limbo.cells (some cell) =
        cell :: trail (s.limbo.setNext cell none).cells contents.next :=
      congrArg (List.map Prod.fst) hchain
    have htrails := trails_congr hchains
    rw [List.map_cons, List.map_cons, List.map_append, List.map_append] at htrails
    obtain ⟨hlist, hothers⟩ := List.cons.inj htrails
    obtain ⟨hbefore, hafter⟩ := List.append_inj hothers (by rw [List.length_map, List.length_map])
    rw [hcut]
    refine ⟨_, perform_next hdrains hcontents, rfl, follows_of_kept rfl hsound ?_ ?_⟩
    · exact congrArg (LimboList.mk · s.limbo.pending) hlist
    · rw [onRests_next hdrains, hcut, List.tail_cons, rests, List.map_append, List.map_cons,
        ← hbefore, ← hafter]

end

/-- Every step that is carried out does what it should. -/
theorem Sound.perform [Destructor ε] (hs : s.Sound gone) {reply : Reply ε}
    (hperform : s.perform step = some reply) : s.Follows gone step reply.state := by
  cases step with
  | make entry =>
    cases hperform
    exact hs.make entry
  | park cell =>
    obtain ⟨hcell, heq⟩ := Option.ite_none_right_eq_some.mp hperform
    cases heq
    obtain ⟨hsound, hlist, hrests⟩ := hs.link hcell (s.limbo.pending + 1)
    exact follows_of_kept rfl hsound hlist hrests
  | putBack cell =>
    obtain ⟨hcell, heq⟩ := Option.ite_none_right_eq_some.mp hperform
    cases heq
    obtain ⟨hsound, hlist, hrests⟩ := hs.link hcell s.limbo.pending
    exact follows_of_kept rfl hsound hlist hrests
  | detach =>
    cases hperform
    exact hs.detach
  | next drain =>
    cases hdrain : s.drains[drain]? with
    | none =>
      simp only [Ledger.perform, hdrain] at hperform
      cases hperform
    | some current =>
      have hrest : s.rests[drain]? = some (trail s.limbo.cells current) := by
        rw [rests, List.getElem?_map, hdrain]
        rfl
      obtain ⟨t, hnext, -, hfollows⟩ := hs.next hrest
      cases hnext.symm.trans hperform
      exact hfollows
  | countFreed =>
    cases hperform
    exact follows_of_kept rfl hs rfl rfl
  | free cell =>
    obtain ⟨hcell, heq⟩ := Option.ite_none_right_eq_some.mp hperform
    obtain ⟨entry, hget⟩ := hs.held cell hcell
    rw [free_eq hget] at heq
    cases heq
    obtain ⟨hsound, hlist, hrests⟩ := hs.discard hcell
    exact ⟨hsound, hlist, hrests⟩
  | forget cell =>
    obtain ⟨hcell, heq⟩ := Option.ite_none_right_eq_some.mp hperform
    cases heq
    obtain ⟨hsound, hlist, hrests⟩ := hs.discard hcell
    exact ⟨hsound, hlist, hrests⟩

end Ledger

end Reclaim.LinkedLimbo
