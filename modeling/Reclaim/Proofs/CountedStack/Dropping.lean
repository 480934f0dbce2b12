import Reclaim.Proofs.CountedStack.Indifference
import Reclaim.Proofs.CountedStack.Reclamation
import Reclaim.Proofs.SharedStack.Destruction
import Reclaim.SharedStack.Basic

/-!
# Dropping a counted stack

Dropping a stack with split reference counts is a row of pops, each followed by the destruction of
the value that it took. Without open claims every reference counts the node once more than its
internal count takes away, so each of these pops frees its node before the value is destroyed, and a
destructor that faults leaves no node behind but those below.
-/

namespace Reclaim.CountedStack

open SharedStack (reach reach_cons_pos ending)

variable {α : Type} {s : CountedStack α} {top : NodeId} {contents : Node α}

/-- A pop that finds this count in the head does not fault. -/
def Poppable (count : UInt64) : Prop := count.toNat ≠ 2 ^ 64 - 1 ∧ Settles (count + 1)

instance (count : UInt64) : Decidable (Poppable count) :=
  inferInstanceAs (Decidable (_ ∧ _))

def destruction (level : UInt64 × NodeId × Node α) : List (Event α) :=
  [.freed level.2.1, .dropped level.2.2.value]

theorem events_destruction (s : CountedStack α) (depth : Nat) :
    droppedValues ((s.levels.take depth).flatMap destruction) = s.toList.take depth ∧
      Ledger.freedNodes ((s.levels.take depth).flatMap destruction) = s.linked.take depth := by
  rw [toList_eq_map_levels, linked_eq_map_levels, ← List.map_take, ← List.map_take]
  induction s.levels.take depth with
  | nil => exact ⟨rfl, rfl⟩
  | cons level levels ih =>
    obtain ⟨hvalues, hnodes⟩ := ih
    exact ⟨congrArg (_ :: ·) hvalues, congrArg (_ :: ·) hnodes⟩

/-- A pop that brings the internal count of its node to zero frees the node. -/
theorem pop_of_settlesToZero (hhead : s.head.node = some top)
    (hget : s.heap.get? top = some contents) (hfits : Poppable s.head.count)
    (hzero : SettlesToZero s.head.count contents) :
    s.pop = ⟨⟨contents.next, s.heap.free top⟩, [.freed top], .ok (some contents.value)⟩ := by
  rw [pop_of_settles hhead hget hfits.1 hfits.2, (settlesToZero_iff contents hfits.1).mpr hzero]
  rfl

/-- Without open claims the counts of every linked node settle to zero. -/
theorem Ledger.Balanced.settlesToZero {s : Ledger α} (hs : s.Balanced) (hidle : s.Idle)
    {level : UInt64 × NodeId × Node α} (hlevel : level ∈ s.stack.levels) :
    SettlesToZero level.1 level.2.2 := by
  obtain ⟨count, node, contents⟩ := level
  have hcount := hs.counted _ hlevel
  have hsettled := (hs.tally_eq_zero_of_linked (mem_linked_of_mem_levels hlevel)).2
  have hinternal := hs.internal node contents
    (hs.linked.get?_of_mem (mem_chain_of_mem_levels hlevel))
  have hopen := hidle.openOn_eq_zero node
  rw [Ledger.openOn_eq] at hopen
  dsimp only at hcount hsettled
  rw [Ledger.claimsOn_eq] at hcount
  rw [Ledger.balance, if_pos hsettled] at hinternal
  have hsum : contents.internalCount.toInt + count.toNat - 1 =
      contents.internalCount.toInt + s.tally node .released := by omega
  rw [SettlesToZero, hsum, ← Counter.ofInt_eq_zero_iff_dvd, Int64.ofInt_add, Int64.ofInt_toInt,
    hinternal, ← Int64.ofInt_add, Int.add_left_neg]
  rfl

variable [Destructor α]

/-- A drop of a stack whose counts settle to zero goes down to the first value whose destructor
faults. -/
theorem popAndDrop_eq (count : Nat) (hs : s.WellLinked) (hlength : s.levels.length ≤ count)
    (hfits : ∀ level ∈ s.levels.take (reach s.toList), Poppable level.1)
    (hzero : ∀ level ∈ s.levels, SettlesToZero level.1 level.2.2) :
    (popAndDrop count s).events = (s.levels.take (reach s.toList)).flatMap destruction ∧
      (popAndDrop count s).result = ending s.toList ∧
      (popAndDrop count s).state.heap = s.heap.freeEach (s.linked.take (reach s.toList)) ∧
      (popAndDrop count s).state.levels = s.levels.drop (reach s.toList) := by
  -- A pop leaves the levels below as they are, so they settle to zero after it too.
  induction count generalizing s with
  | zero =>
    have hempty : s.levels = [] := List.eq_nil_of_length_eq_zero (Nat.le_zero.mp hlength)
    have hlist : s.toList = [] := by rw [toList_eq_map_levels, hempty, List.map_nil]
    rw [popAndDrop, hempty, hlist]
    exact ⟨rfl, rfl, rfl, rfl⟩
  | succ count ih =>
    cases hhead : s.head.node with
    | none =>
      have hlist := hs.toList_eq_nil_iff.mpr hhead
      have hempty : s.levels = [] := by
        rw [toList_eq_map_levels, List.map_eq_nil_iff] at hlist
        exact hlist
      rw [popAndDrop_succ, pop_of_null hhead, hempty, hlist]
      exact ⟨rfl, rfl, rfl, rfl⟩
    | some top =>
      obtain ⟨contents, hget, hchain, -⟩ := hs.chain_eq_cons hhead
      have hfirst : Poppable s.head.count ∧ SettlesToZero s.head.count contents := by
        have hmem : (s.head.count, top, contents) ∈ s.levels.take (reach s.toList) := by
          rw [levels_eq_cons hchain, toList_eq_cons hchain, List.take_cons (reach_cons_pos _ _)]
          exact List.mem_cons_self
        exact ⟨hfits _ hmem, hzero _ (List.mem_of_mem_take hmem)⟩
      have hpop := pop_of_settlesToZero hhead hget hfirst.1 hfirst.2
      obtain ⟨found, hfound, hlevels, hrest⟩ := hs.levels_pop hhead hfirst.1.1
      obtain rfl := Option.some.inj (hget.symm.trans hfound)
      obtain ⟨hlist, hlinked⟩ := views_eq_cons hlevels
      have hheap : s.pop.state.heap = s.heap.free top := by rw [hpop]
      rw [popAndDrop_succ]
      rw [show s.pop.events = [.freed top] by rw [hpop],
        show s.pop.result = .ok (some contents.value) by rw [hpop]]
      dsimp only
      cases hfault : Destructor.fault? contents.value with
      | some fault =>
        rw [hlist, SharedStack.reach_cons_of_fault hfault, SharedStack.ending_cons_of_fault hfault,
          hlevels, hlinked]
        exact ⟨rfl, rfl, hheap, rfl⟩
      | none =>
        dsimp only
        rw [hlevels, List.length_cons, Nat.add_le_add_iff_right] at hlength
        rw [hlevels, hlist, SharedStack.reach_cons_of_quiet hfault] at hfits
        rw [hlevels] at hzero
        obtain ⟨hevents, hresult, hafter, hleft⟩ := ih hrest hlength
          (fun level hmem ↦ hfits level (List.mem_cons_of_mem _ hmem))
          (fun level hmem ↦ hzero level (List.mem_cons_of_mem _ hmem))
        rw [hlist, SharedStack.reach_cons_of_quiet hfault,
          SharedStack.ending_cons_of_quiet hfault, hlevels, hlinked]
        refine ⟨?_, hresult, ?_, hleft⟩
        · rw [Outcome.after_events, hevents]
          rfl
        · rw [Outcome.after_state, hafter, hheap]
          rfl

/-- The stack was dropped down to this depth: what was popped, freed and destroyed on the way are
the levels above it, each once, and the levels below are left. -/
structure Ledger.DroppedTo (s : Ledger α) (depth : Nat) (reply : Ledger.Reply α) : Prop where
  events : reply.events = (s.stack.levels.take depth).flatMap destruction
  heap : reply.state.stack.heap = s.stack.heap.freeEach (s.stack.linked.take depth)
  levels : reply.state.stack.levels = s.stack.levels.drop depth
  destroyed : droppedValues reply.events = s.stack.toList.take depth
  freed : Ledger.freedNodes reply.events = s.stack.linked.take depth
  nodup : s.stack.linked.Nodup

/-- A drop without open claims goes down to the first value whose destructor faults. -/
theorem Ledger.Balanced.drop_eq {s : Ledger α} (hs : s.Balanced) (hidle : s.Idle)
    (hkept : s.dropped = false)
    (hfits : ∀ level ∈ s.stack.levels.take (reach s.stack.toList), Poppable level.1) :
    ∃ reply, s.perform .drop = some reply ∧
      reply.result = (ending s.stack.toList).map (fun _ ↦ .dropped) ∧
      s.DroppedTo (reach s.stack.toList) reply := by
  obtain ⟨hevents, hresult, hheap, hlevels⟩ := popAndDrop_eq s.stack.chain.length hs.linked
    (Nat.le_of_eq (length_levels s.stack)) hfits fun _ hlevel ↦ hs.settlesToZero hidle hlevel
  obtain ⟨hvalues, hnodes⟩ := events_destruction s.stack (reach s.stack.toList)
  rw [← hevents] at hvalues hnodes
  exact ⟨_, Ledger.perform_of_kept hkept .drop,
    congrArg (Except.map fun _ ↦ Ledger.Answer.dropped) hresult, hevents, hheap, hlevels, hvalues,
    hnodes, hs.linked.nodup⟩

end Reclaim.CountedStack
