import Reclaim.Proofs.CountedStack.Shadows

/-!
# Every value leaves once

In a run in which no step of a token faults, the values that were pushed are those that pops and
settlements handed out, those that faulting pops and the drop destroyed, and those that are still in
the stack or with a token. A drop without a fault leaves nothing in the stack.
-/

namespace Reclaim.CountedStack

variable {α : Type} {s : CountedStack α}

theorem settle_head (s : CountedStack α) (ref : Ref) : (s.settle ref).state.head = s.head := by
  unfold settle
  split
  · split <;> rfl
  · rfl

theorem toList_of_null (hhead : s.head.node = none) : s.toList = [] := by
  rw [toList, chain, Heap.chain, hhead]
  cases s.heap.size <;> rfl

/-- A drop that ends without a fault leaves nothing. -/
theorem WellLinked.head_popAndDrop [Destructor α] (count : Nat) (hs : s.WellLinked)
    (hresult : (popAndDrop count s).result = .ok ()) (hlength : s.chain.length ≤ count) :
    (popAndDrop count s).state.head.node = none := by
  induction count generalizing s with
  | zero => exact hs.chain_eq_nil_iff.mp (List.eq_nil_of_length_eq_zero (Nat.le_zero.mp hlength))
  | succ count ih =>
    rw [popAndDrop_succ] at hresult ⊢
    cases hhead : s.head.node with
    | none =>
      rw [pop_of_null hhead]
      exact hhead
    | some top =>
      obtain ⟨contents, hget, -, -⟩ := hs.chain_eq_cons hhead
      by_cases hfull : s.head.count.toNat = 2 ^ 64 - 1
      · rw [pop_of_full hhead hget hfull] at hresult
        cases hresult
      · obtain ⟨found, -, hlevels, hrest⟩ := hs.levels_pop hhead hfull
        have hbelow : s.pop.state.chain.length ≤ count := by
          rw [← length_levels, hlevels, List.length_cons, length_levels] at hlength
          exact Nat.le_of_succ_le_succ hlength
        have hpop := congrArg Outcome.result (pop_of_top hhead hget)
        rw [if_neg hfull] at hpop
        rw [hpop] at hresult ⊢
        dsimp only at hresult ⊢
        generalize ({ s with head := contents.next }.settle _).result = settled at hresult ⊢
        cases settled with
        | error fault => cases hresult
        | ok freed =>
          dsimp only [Except.map] at hresult ⊢
          cases hfault : Destructor.fault? contents.value with
          | some fault =>
            rw [hfault] at hresult
            cases hresult
          | none =>
            rw [hfault] at hresult
            exact ih hrest hresult hbelow

namespace Ledger

variable {s t : Ledger α}

def pushedIn (moves : List (Move α)) : List α := moves.flatMap fun move ↦ move.step.pushed

def handedOutIn (moves : List (Move α)) : List α :=
  moves.flatMap fun move ↦ handedOut move.reply.result

def destroyedIn (moves : List (Move α)) : List α :=
  moves.flatMap fun move ↦ destroyed move.reply.events

def TokensFine (moves : List (Move α)) : Prop :=
  ∀ move ∈ moves, move.step.isOfToken = true → ∃ answer, move.reply.result = .ok answer

variable [Destructor α] {moves : List (Move α)}

/-- A ledger has a shadow, whatever happened to it. If no step of a token faulted, what was pushed
was handed out, was destroyed or is still there. -/
theorem Run.exists_shadow (hrun : Run {} moves t) :
    ∃ t', Shadows t' t ∧ (TokensFine moves →
      (pushedIn moves).Perm (handedOutIn moves ++ destroyedIn moves ++ t'.values)) := by
  induction hrun with
  | start => exact ⟨{}, .new, fun _ ↦ .refl _⟩
  | @step moves s step reply hrun hperform ih =>
    obtain ⟨s', hs, hbefore⟩ := ih
    obtain ⟨t', ht, hmove⟩ := hs.perform hperform
    refine ⟨t', ht, ?_⟩
    intro hfine
    simp only [pushedIn, handedOutIn, destroyedIn, List.flatMap_append, List.flatMap_singleton]
    exact append_perm_append (hbefore fun move hmem ↦ hfine move (List.mem_append_left _ hmem))
      (hmove (hfine ⟨step, reply⟩ (List.mem_append_right _ List.mem_cons_self)))

/-- The chain is whole in every run, also when counts overflowed. -/
theorem Run.wellLinked (hrun : Run {} moves t) : t.stack.WellLinked := by
  obtain ⟨t', ht, -⟩ := hrun.exists_shadow
  exact ht.wellLinked

theorem Run.head_of_dropped (hrun : Run {} moves t) (hfine : TokensFine moves)
    (hdropped : t.dropped = true) : t.stack.head.node = none ∨
      ∃ move ∈ moves, move.step = .drop ∧ ∃ fault, move.reply.result = .error fault := by
  induction hrun with
  | start => cases hdropped
  | @step moves s step reply hrun hperform ih =>
    have hbefore := fun move hmem ↦ hfine move (List.mem_append_left _ hmem)
    obtain ⟨hneeds, hcarry⟩ := perform_eq_some_iff.mp hperform
    by_cases hdrop : step = .drop
    · subst hdrop
      cases hresult : s.stack.drop.result with
      | error fault =>
        refine Or.inr ⟨⟨.drop, reply⟩, List.mem_append_right _ List.mem_cons_self, rfl, fault, ?_⟩
        obtain rfl := Option.some.inj hcarry
        exact congrArg (Except.map _) hresult
      | ok _ =>
        obtain rfl := Option.some.inj hcarry
        exact Or.inl (hrun.wellLinked.head_popAndDrop _ hresult (Nat.le_refl _))
    · have hgone : s.dropped = true := ((perform_frame hperform).1 hdrop).symm.trans hdropped
      -- Only claims are finished now, which leaves the head alone.
      have hhead : reply.state.stack.head = s.stack.head := by
        cases performs hperform with
        | settle => exact settle_head _ _
        | release => exact release_head _ _
        | drop => exact absurd rfl hdrop
        | _ => cases hneeds hgone
      rw [hhead]
      refine (ih hbefore hgone).imp_right ?_
      rintro ⟨move, hmem, hmove⟩
      exact ⟨move, List.mem_append_left _ hmem, hmove⟩

/-- A step that finishes a claim destroys nothing. -/
theorem destroyed_of_finish {step : Step α} {reply : Reply α} {token : Nat}
    (hstep : step = .settle token ∨ step = .release token)
    (hperform : s.perform step = some reply) : destroyed reply.events = [] := by
  rcases hstep with rfl | rfl
  · cases performs hperform with | settle => exact destroyed_settle _ _
  · cases performs hperform with | release => exact destroyed_release _ _

/-- Every value leaves a stack with split reference counts exactly once: what was pushed was handed
out by a pop or a settlement, was destroyed, is linked, or belongs to a token that unlinked it. -/
structure LeaveOnce (moves : List (Move α)) (t : Ledger α) : Prop where
  balance : (pushedIn moves).Perm (handedOutIn moves ++ destroyedIn moves ++ t.values)
  /-- When all is settled after the drop, what has not left is linked, and only if the drop
  faulted. -/
  dropped : t.dropped = true → (∀ claim ∈ t.claims, claim.stage ≠ .unlinked) →
    t.values = t.stack.toList ∧ (t.stack.toList ≠ [] →
      ∃ move ∈ moves, move.step = .drop ∧ ∃ fault, move.reply.result = .error fault)
  /-- What a pop takes it hands out, or destroys in a fault. -/
  pop : ∀ reply, t.perform .pop = some reply → t.stack.toList =
    handedOut reply.result ++ destroyed reply.events ++ reply.state.stack.toList
  /-- Nodes that tokens free have no value any more. -/
  finish : ∀ move ∈ moves, ∀ token, move.step = .settle token ∨ move.step = .release token →
    destroyed move.reply.events = []

theorem Run.leaveOnce (hrun : Run {} moves t) (hfine : TokensFine moves) : LeaveOnce moves t := by
  obtain ⟨t', ht, hperm⟩ := hrun.exists_shadow
  refine ⟨ht.values_eq ▸ hperm hfine, ?_, ?_, ?_⟩
  · intro hdropped hsettled
    have howned : t.owned = [] :=
      List.filterMap_eq_nil_iff.mpr fun claim hmem ↦ owned?_of_ne (hsettled claim hmem)
    refine ⟨by rw [values, howned, List.append_nil], ?_⟩
    intro hleft
    exact (hrun.head_of_dropped hfine hdropped).resolve_left
      fun hnull ↦ hleft (toList_of_null hnull)
  · intro reply hperform
    obtain rfl := Option.some.inj (perform_eq_some_iff.mp hperform).2
    exact toList_pop ht.wellLinked
  · intro move hmem token hstep
    obtain ⟨before, after, pre, -, -, hperform⟩ := hrun.exists_before hmem
    exact destroyed_of_finish hstep hperform

end Reclaim.CountedStack.Ledger
