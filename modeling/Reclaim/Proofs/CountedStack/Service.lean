import Reclaim.Proofs.CountedStack.Lifo
import Reclaim.Proofs.SharedStack.Calls

/-!
# Calls on a counted stack

Calls push, pop and look at a stack with split reference counts while tokens claim its top node,
fail to unlink it and end their claims. As long as checked arithmetic does not fault, the stack acts
as a list.
-/

namespace Reclaim.CountedStack.Ledger

open SharedStack (Call)

variable {α : Type} {s t : Ledger α}

/-- A step of a token that takes no value off the stack. -/
def Silent (move : Move α) : Prop :=
  (∃ hint, move.step = .claim hint) ∨
    (∃ token, move.step = .unlink token ∧ move.reply.result ≠ .ok .unlinked) ∨
    ∃ token, move.step = .settle token ∨ move.step = .release token

def call (s : Ledger α) (t : Hazard.ThreadId) (call : Call α) :
    Ledger α × Except Fault (SharedStack.Answer α) :=
  (s.afterPops (SharedStack.call s.stack t call).1, (SharedStack.call s.stack t call).2)

variable [Destructor α]

/-- Calls that do not overflow, by any threads, while tokens come and go. -/
def service : SharedStack.Service (Ledger α) Hazard.ThreadId α where
  call t s call := s.call t call
  fine t s call := ¬ Overflows (s.call t call).2
  between s t := ∃ moves, Run s moves t ∧
    ∀ move ∈ moves, Silent move ∧ ¬ Overflows move.reply.result

structure Holds (s : Ledger α) (values : List α) : Prop where
  balanced : s.Balanced
  kept : s.dropped = false
  toList : s.stack.toList = values

/-- Calls that push or pop are the steps of the ledger. -/
theorem perform_of_call (hs : s.Balanced) (hkept : s.dropped = false) (thread : Hazard.ThreadId) :
    (∀ value, s.perform (.push value) = some ⟨(s.call thread (.push value)).1, [],
      .ok (.pushed s.stack.heap.size)⟩) ∧
    s.perform .pop = some ⟨(s.call thread .pop).1, s.stack.pop.events,
      s.stack.pop.result.map .popped⟩ := by
  refine ⟨?_, perform_of_kept hkept .pop⟩
  intro value
  have hlevels : (s.stack.push value).2.levels.length = s.stack.levels.length + 1 := by
    rw [length_levels, length_levels, (hs.linked.chain_push value).1, List.length_cons]
  have hclaims : s.stack.claimsOfPops (s.stack.push value).2 = [] := by
    rw [claimsOfPops, hlevels, Nat.sub_eq_zero_of_le (Nat.le_succ _)]
    rfl
  have hafter : (s.call thread (.push value)).1 =
      { s with stack := (s.stack.push value).2 } := by
    change s.afterPops (s.stack.push value).2 = _
    rw [afterPops, hclaims, List.append_nil]
  rw [hafter]
  exact perform_of_kept hkept (.push value)

theorem Holds.call {values : List α} (hs : s.Holds values) (thread : Hazard.ThreadId)
    (call : Call α) (hcalm : ¬ Overflows (s.call thread call).2) :
    (s.call thread call).2 = .ok (call.onList values).1 ∧
      (s.call thread call).1.Holds (call.onList values).2 := by
  obtain ⟨hbalanced, hkept, rfl⟩ := hs
  obtain ⟨hpush, hpop⟩ := perform_of_call hbalanced hkept thread
  cases call with
  | push value =>
    have hafter := balanced_of_perform hbalanced (hpush value) (not_overflows_ok _)
    exact ⟨rfl, hafter, hkept, hbalanced.linked.toList_push value⟩
  | pop =>
    obtain ⟨reply, hperform, hreply⟩ := pop_spec hbalanced hkept
    obtain rfl := Option.some.inj (hpop.symm.trans hperform)
    have hcalm' : ¬ Overflows (s.stack.pop.result.map Answer.popped) :=
      fun hover ↦ hcalm (overflows_map.mpr (overflows_map.mp hover))
    obtain ⟨hvalue, hnone⟩ := hreply hcalm'
    have hafter := balanced_of_perform hbalanced hpop hcalm'
    have hresult {value : Option α}
        (hresult : s.stack.pop.result.map Answer.popped = .ok (.popped value)) :
        (s.call thread .pop).2 = .ok (.popped value) := by
      change s.stack.pop.result.map SharedStack.Answer.popped = _
      cases hpopped : s.stack.pop.result with
      | error fault => rw [hpopped] at hresult; cases hresult
      | ok found => rw [hpopped] at hresult; cases hresult; rfl
    cases hlist : s.stack.toList with
    | nil =>
      have hreply := hnone hlist
      have hsame : (s.call thread .pop).1 = s := congrArg Outcome.state hreply
      rw [hsame]
      exact ⟨hresult (congrArg Outcome.result hreply), hbalanced, hkept, hlist⟩
    | cons value rest =>
      obtain ⟨hfound, hrest⟩ := hvalue value rest hlist
      exact ⟨hresult hfound, hafter, hkept, hrest⟩
  | isEmpty =>
    have hsame : (s.call thread .isEmpty).1 = s := by
      change s.afterPops s.stack = s
      exact afterPops_self s
    refine ⟨congrArg (fun empty ↦ Except.ok (SharedStack.Answer.empty empty))
      hbalanced.linked.isEmpty_eq, ?_⟩
    rw [hsame]
    exact ⟨hbalanced, hkept, rfl⟩

theorem Holds.run {values : List α} {moves : List (Move α)} (hs : s.Holds values)
    (hrun : Run s moves t) (hmoves : ∀ move ∈ moves, Silent move ∧ ¬ Overflows move.reply.result) :
    t.Holds values := by
  induction hrun with
  | start => exact hs
  | @step moves pre step reply hrun hperform ih =>
    obtain ⟨hbalanced, hkept, hvalues⟩ :=
      ih fun move hmem ↦ hmoves move (List.mem_append_left _ hmem)
    obtain ⟨hsilent, hcalm⟩ := hmoves ⟨step, reply⟩ (List.mem_append_right _ List.mem_cons_self)
    refine ⟨balanced_of_perform hbalanced hperform hcalm, ?_, ?_⟩
    · refine ((perform_frame hperform).1 ?_).trans hkept
      rintro rfl
      obtain ⟨_, h⟩ | ⟨_, h, -⟩ | ⟨_, h | h⟩ := hsilent <;> cases h
    · exact (toList_of_silent hbalanced hperform hcalm hsilent).trans hvalues

/-- A stack with split reference counts acts as a list. -/
theorem lawful : (service : SharedStack.Service (Ledger α) _ α).Lawful Holds where
  call thread s _ call hs hcalm := hs.call thread call hcalm
  between := by
    rintro s t values hs ⟨moves, hrun, hmoves⟩
    exact hs.run hrun hmoves

end Reclaim.CountedStack.Ledger
