import Reclaim.Proofs.CountedStack.Calls
import Reclaim.Proofs.CountedStack.Finishing
import Reclaim.Proofs.CountedStack.Lifo

/-!
# Counts do not influence values

Null tests, compare-and-swaps and settlements work on words that contain reference counts, and the
counts may be anything at the start. As long as no call faults, the answers still are those of a
list, so two runs from stacks with the same values cannot be told apart by them. The counts only
decide which nodes are freed: a pop frees the node that it takes off exactly if the count of the
head before it, less one, brings the internal count to a multiple of `2 ^ 64`.
-/

namespace Reclaim.CountedStack

open SharedStack (Call answers remaining)

variable {α : Type} {s u : CountedStack α} {top : NodeId} {contents : Node α}
  {calls : List (Call α)}

def Faultless (s : CountedStack α) (calls : List (Call α)) : Prop :=
  ∀ reply ∈ s.replies calls, reply.2.isOk = true

instance (s : CountedStack α) (calls : List (Call α)) : Decidable (s.Faultless calls) :=
  inferInstanceAs (Decidable (∀ reply ∈ s.replies calls, reply.2.isOk = true))

/-- A pop that finds this count in the head brings the internal count of the top node to zero. -/
def SettlesToZero (external : UInt64) (contents : Node α) : Prop :=
  (2 ^ 64 : Int) ∣ contents.internalCount.toInt + external.toNat - 1

instance (external : UInt64) (contents : Node α) : Decidable (SettlesToZero external contents) :=
  inferInstanceAs (Decidable (_ ∣ _))

theorem settlesToZero_iff {external : UInt64} (contents : Node α)
    (hroom : external.toNat ≠ 2 ^ 64 - 1) :
    contents.internalCount + ((external + 1).toInt64 - 2) = 0 ↔
      SettlesToZero external contents := by
  have hsum : contents.internalCount.toInt + (((external.toNat + 1 : Nat) : Int) - 2) =
      contents.internalCount.toInt + external.toNat - 1 := by omega
  rw [Counter.add_toInt64_sub_two, Counter.ofInt_eq_zero_iff_dvd, toNat_add_one_of_ne hroom,
    SettlesToZero, hsum]

/-- A pop that does not fault hands out the value of the top node, and frees the node if its counts
say so. -/
theorem pop_of_isOk (hhead : s.head.node = some top) (hget : s.heap.get? top = some contents)
    (hok : s.pop.result.isOk = true) :
    s.pop.events = (if SettlesToZero s.head.count contents then [.freed top] else []) ∧
      s.pop.result = .ok (some contents.value) ∧
      (s.pop.state.heap.get? top = none ↔ SettlesToZero s.head.count contents) := by
  have hroom : s.head.count.toNat ≠ 2 ^ 64 - 1 := by
    intro hfull
    rw [pop_of_full hhead hget hfull] at hok
    cases hok
  -- Each count on which settling overflows would have made the pop fault.
  have hsettles : Settles (s.head.count + 1) := by
    rw [Settles, toNat_add_one_of_ne hroom]
    refine ⟨?_, ?_, ?_⟩
    · intro hcount
      rw [pop_of_subOverflow hhead hget (Or.inl hcount)] at hok
      cases hok
    · intro hcount
      rw [pop_of_subOverflow hhead hget (Or.inr hcount)] at hok
      cases hok
    · intro hcount
      rw [pop_of_negOverflow hhead hget hcount] at hok
      cases hok
  have hzero := settlesToZero_iff contents hroom
  have hbelow : ({ s with head := contents.next } : CountedStack α).heap.get? top = some contents :=
    hget
  rw [pop_of_settles hhead hget hroom hsettles]
  dsimp only
  rw [finish_events, get?_finish, if_pos rfl, hbelow]
  by_cases hfree : SettlesToZero s.head.count contents
  · rw [if_pos (hzero.mpr hfree), if_pos (hzero.mpr hfree), if_pos hfree]
    exact ⟨rfl, rfl, iff_of_true rfl hfree⟩
  · rw [if_neg (mt hzero.mp hfree), if_neg (mt hzero.mp hfree), if_neg hfree]
    exact ⟨rfl, rfl, iff_of_false nofun hfree⟩

theorem isOk_pop_of_call (hok : (s.call .pop).result.isOk = true) :
    s.pop.result.isOk = true := by
  change (s.pop.result.map SharedStack.Answer.popped).isOk = true at hok
  cases hpop : s.pop.result with
  | error fault => rw [hpop] at hok; cases hok
  | ok found => rfl

/-- A call that does not fault is answered as on the list of the values. -/
theorem WellLinked.call (hs : s.WellLinked) (call : Call α)
    (hok : (s.call call).result.isOk = true) :
    (s.call call).result = .ok (call.onList s.toList).1 ∧
      (s.call call).state.toList = (call.onList s.toList).2 ∧ (s.call call).state.WellLinked := by
  cases call with
  | push value => exact ⟨rfl, hs.toList_push value, (hs.chain_push value).2⟩
  | pop =>
    have hok' := isOk_pop_of_call hok
    change s.pop.result.map SharedStack.Answer.popped = _ ∧ s.pop.state.toList = _ ∧
      s.pop.state.WellLinked
    cases hhead : s.head.node with
    | none =>
      rw [hs.toList_eq_nil_iff.mpr hhead, pop_of_null hhead]
      exact ⟨rfl, hs.toList_eq_nil_iff.mpr hhead, hs⟩
    | some top =>
      obtain ⟨contents, hget, -, -⟩ := hs.chain_eq_cons hhead
      have hroom : s.head.count.toNat ≠ 2 ^ 64 - 1 := by
        intro hfull
        rw [pop_of_full hhead hget hfull] at hok'
        cases hok'
      obtain ⟨found, hfound, hlevels, hafter⟩ := hs.levels_pop hhead hroom
      obtain rfl := Option.some.inj (hget.symm.trans hfound)
      rw [(pop_of_isOk hhead hget hok').2.1, (views_eq_cons hlevels).1]
      exact ⟨rfl, rfl, hafter⟩
  | isEmpty =>
    exact ⟨congrArg (fun empty ↦ Except.ok (SharedStack.Answer.empty empty)) hs.isEmpty_eq, rfl, hs⟩

theorem replies_append (s : CountedStack α) (calls calls' : List (Call α)) :
    s.replies (calls ++ calls') = s.replies calls ++ (s.afterCalls calls).replies calls' := by
  induction calls generalizing s with
  | nil => rfl
  | cons call calls ih => exact congrArg (_ :: ·) (ih _)

theorem length_replies (s : CountedStack α) (calls : List (Call α)) :
    (s.replies calls).length = calls.length := by
  induction calls generalizing s with
  | nil => rfl
  | cons call calls ih => exact congrArg (· + 1) (ih _)

theorem WellLinked.afterCalls (hs : s.WellLinked) (calls : List (Call α)) :
    (s.afterCalls calls).WellLinked := by
  induction calls generalizing s with
  | nil => exact hs
  | cons call calls ih =>
    cases call with
    | push value => exact ih (hs.chain_push value).2
    | pop => exact ih hs.levels_pop_suffix.2
    | isEmpty => exact ih hs

theorem Faultless.of_append {calls' : List (Call α)} (hfine : s.Faultless (calls ++ calls')) :
    s.Faultless calls ∧ (s.afterCalls calls).Faultless calls' := by
  rw [Faultless, replies_append] at hfine
  exact List.forall_mem_append.mp hfine

/-- Calls that do not fault are answered as on the list of the values. -/
theorem WellLinked.replies (hs : s.WellLinked) (hfine : s.Faultless calls) :
    (s.replies calls).map Prod.snd = (answers calls s.toList).map .ok ∧
      (s.afterCalls calls).toList = remaining calls s.toList := by
  induction calls generalizing s with
  | nil => exact ⟨rfl, rfl⟩
  | cons call calls ih =>
    obtain ⟨hok, hrest⟩ := List.forall_mem_cons.mp hfine
    obtain ⟨hanswer, hlist, hafter⟩ := hs.call call hok
    obtain ⟨hanswers, hremaining⟩ := ih hafter hrest
    rw [hlist] at hanswers hremaining
    refine ⟨?_, hremaining⟩
    rw [CountedStack.replies, List.map_cons, hanswer, hanswers]
    rfl

/-- What the calls log is that pops free nodes: a pop that finds a node on top frees it exactly if
the counts of the node say so, and nothing else is freed or destroyed. -/
structure FreesByCount (s : CountedStack α) (calls : List (Call α)) : Prop where
  pop : ∀ before after, calls = before ++ .pop :: after →
    ∀ top, (s.afterCalls before).head.node = some top →
      ∃ contents, (s.afterCalls before).heap.get? top = some contents ∧
        (s.replies calls)[before.length]? = some
          (if SettlesToZero (s.afterCalls before).head.count contents then [.freed top] else [],
            .ok (.popped (some contents.value))) ∧
        ((s.afterCalls before).pop.state.heap.get? top = none ↔
          SettlesToZero (s.afterCalls before).head.count contents)
  only : ∀ reply ∈ s.replies calls, ∀ event ∈ reply.1, ∃ before after top,
    calls = before ++ .pop :: after ∧ (s.afterCalls before).head.node = some top ∧
      event = .freed top

/-- All that a call logs which does not fault is that a pop frees the top node. -/
theorem WellLinked.events_call (hs : s.WellLinked) {call : Call α}
    (hok : (s.call call).result.isOk = true) {event : Event α}
    (hevent : event ∈ (s.call call).events) :
    call = .pop ∧ ∃ top, s.head.node = some top ∧ event = .freed top := by
  cases call with
  | push value => cases hevent
  | pop =>
    change event ∈ s.pop.events at hevent
    cases hhead : s.head.node with
    | none =>
      rw [pop_of_null hhead] at hevent
      cases hevent
    | some top =>
      obtain ⟨contents, hget, -, -⟩ := hs.chain_eq_cons hhead
      rw [(pop_of_isOk hhead hget (isOk_pop_of_call hok)).1] at hevent
      split at hevent
      · exact ⟨rfl, top, rfl, List.mem_singleton.mp hevent⟩
      · cases hevent
  | isEmpty => cases hevent

theorem WellLinked.freesByCount (hs : s.WellLinked) (hfine : s.Faultless calls) :
    s.FreesByCount calls where
  pop := by
    rintro before after rfl top hhead
    obtain ⟨-, hlater⟩ := hfine.of_append
    have hok := isOk_pop_of_call (List.forall_mem_cons.mp hlater).1
    obtain ⟨contents, hget, -, -⟩ := (hs.afterCalls before).chain_eq_cons hhead
    obtain ⟨hevents, hresult, hfreed⟩ := pop_of_isOk hhead hget hok
    refine ⟨contents, hget, ?_, hfreed⟩
    rw [replies_append, ← length_replies s before, List.getElem?_append_right (Nat.le_refl _),
      Nat.sub_self, CountedStack.replies, List.getElem?_cons_zero]
    exact congrArg some (Prod.ext hevents (congrArg (Except.map SharedStack.Answer.popped) hresult))
  only := by
    induction calls generalizing s with
    | nil => exact fun _ hreply ↦ absurd hreply List.not_mem_nil
    | cons call calls ih =>
      obtain ⟨hok, hrest⟩ := List.forall_mem_cons.mp hfine
      intro reply hreply event hevent
      rcases List.mem_cons.mp hreply with rfl | hreply
      · obtain ⟨rfl, top, hhead, rfl⟩ := hs.events_call hok hevent
        exact ⟨[], calls, top, rfl, hhead, rfl⟩
      · obtain ⟨before, after, top, rfl, hhead, rfl⟩ :=
          ih (hs.call call hok).2.2 hrest reply hreply event hevent
        exact ⟨call :: before, after, top, rfl, hhead, rfl⟩

/-- Two stacks with the same values, whatever their counts, give the same answers to calls that
fault on neither, and keep the same values. They differ in the freed nodes only, which go by the
counts. -/
theorem counts_do_not_show (hs : s.WellLinked) (hu : u.WellLinked) (hvalues : u.toList = s.toList)
    (hfine : s.Faultless calls) (hfine' : u.Faultless calls) :
    (u.replies calls).map Prod.snd = (s.replies calls).map Prod.snd ∧
      (u.afterCalls calls).toList = (s.afterCalls calls).toList ∧
      s.FreesByCount calls ∧ u.FreesByCount calls := by
  obtain ⟨hanswers, hlist⟩ := hs.replies hfine
  obtain ⟨hanswers', hlist'⟩ := hu.replies hfine'
  rw [hvalues] at hanswers' hlist'
  exact ⟨hanswers'.trans hanswers.symm, hlist'.trans hlist.symm, hs.freesByCount hfine,
    hu.freesByCount hfine'⟩

/-- A stack of two nodes as pushes leave it. -/
def pristine : CountedStack Nat :=
  ⟨⟨some 1, 1⟩, ⟨#[some ⟨5, 0, CountedRef.null⟩, some ⟨6, 0, ⟨some 0, 1⟩⟩]⟩⟩

/-- The same values under corrupted counts. -/
def corrupted : CountedStack Nat :=
  ⟨⟨some 1, 77⟩,
    ⟨#[some ⟨5, 5, ⟨none, 18446744073709551615⟩⟩,
      some ⟨6, -3, ⟨some 0, 18446744073709551612⟩⟩]⟩⟩

/-- The corrupted stack gives the same answers, but does not free its upper node. -/
theorem counts_do_not_show_corrupted :
    (corrupted.replies [.pop, .push 7, .pop, .pop, .isEmpty]).map Prod.snd =
        (pristine.replies [.pop, .push 7, .pop, .pop, .isEmpty]).map Prod.snd ∧
      (pristine.replies [.pop, .push 7, .pop, .pop, .isEmpty])[0]? =
        some ([.freed 1], .ok (.popped (some 6))) ∧
      (corrupted.replies [.pop, .push 7, .pop, .pop, .isEmpty])[0]? =
        some ([], .ok (.popped (some 6))) := by
  have hs : pristine.WellLinked := ⟨⟨rfl, rfl, rfl, rfl, rfl⟩, by decide⟩
  have hu : corrupted.WellLinked := ⟨⟨rfl, rfl, rfl, rfl, rfl⟩, by decide⟩
  have hfine : Faultless pristine [.pop, .push 7, .pop, .pop, .isEmpty] := by decide +kernel
  have hfine' : Faultless corrupted [.pop, .push 7, .pop, .pop, .isEmpty] := by decide +kernel
  obtain ⟨hanswers, -, hfrees, hfrees'⟩ := counts_do_not_show hs hu rfl hfine hfine'
  obtain ⟨top, htop, hreply, -⟩ := hfrees.pop [] _ rfl 1 rfl
  obtain rfl : top = ⟨6, 0, ⟨some 0, 1⟩⟩ := (Option.some.inj htop).symm
  obtain ⟨top, htop, hreply', -⟩ := hfrees'.pop [] _ rfl 1 rfl
  obtain rfl : top = ⟨6, -3, ⟨some 0, 18446744073709551612⟩⟩ := (Option.some.inj htop).symm
  rw [if_pos (by decide)] at hreply
  rw [if_neg (by decide)] at hreply'
  exact ⟨hanswers, hreply, hreply'⟩

end Reclaim.CountedStack
