import Reclaim.Proofs.CountedStack.Lifo
import Reclaim.Proofs.SharedStack.Reliable

/-!
# Counted stacks are reliable

Whole pops and pushes claim each node at most once more, when it leaves the stack. So no arithmetic
overflows as long as the reference to each linked node has room for one more claim.
-/

namespace Reclaim.CountedStack

variable {α : Type} {s : CountedStack α} {values : List α}

/-- The stack is whole, holds these values, and each of its nodes can be claimed once more. -/
structure Roomy (s : CountedStack α) (values : List α) : Prop where
  linked : s.WellLinked
  toList : s.toList = values
  room : ∀ level ∈ s.levels, level.1.toNat < 2 ^ 63 - 1

theorem Roomy.push (hs : s.Roomy values) (value : α) :
    (s.push value).2.Roomy (value :: values) := by
  refine ⟨(hs.linked.chain_push value).2,
    (hs.linked.toList_push value).trans (congrArg _ hs.toList), ?_⟩
  have hone : (1 : UInt64).toNat < 2 ^ 63 - 1 := by decide
  rw [hs.linked.levels_push]
  exact List.forall_mem_cons.mpr ⟨hone, hs.room⟩

theorem Roomy.pop (hs : s.Roomy values) :
    s.pop.result = .ok values.head? ∧ s.pop.state.Roomy values.tail := by
  obtain ⟨hlinked, rfl, hroom⟩ := hs
  cases hhead : s.head.node with
  | none =>
    rw [pop_of_null hhead, hlinked.toList_eq_nil_iff.mpr hhead]
    exact ⟨rfl, hlinked, hlinked.toList_eq_nil_iff.mpr hhead, hroom⟩
  | some top =>
    obtain ⟨contents, hget, hchain, -⟩ := hlinked.chain_eq_cons hhead
    have hcount : s.head.count.toNat < 2 ^ 63 - 1 := by
      apply hroom (s.head.count, top, contents)
      rw [levels_eq_cons hchain]
      exact List.mem_cons_self
    have hfull : s.head.count.toNat ≠ 2 ^ 64 - 1 := by omega
    obtain ⟨found, hfound, hlevels, hlinked'⟩ := hlinked.levels_pop hhead hfull
    obtain rfl : found = contents := Option.some.inj (hfound.symm.trans hget)
    have hvalues : s.toList = found.value :: s.pop.state.toList := by
      rw [toList_eq_map_levels, hlevels, List.map_cons, toList_eq_map_levels]
    refine ⟨?_, hlinked', by rw [hvalues, List.tail_cons], ?_⟩
    · have hsettles : Settles (s.head.count + 1) := by
        rw [Settles, toNat_add_one_of_ne hfull]
        omega
      rw [pop_of_settles hhead hget hfull hsettles, hvalues]
      rfl
    · intro level hmem
      exact hroom level (hlevels ▸ List.mem_cons_of_mem _ hmem)

/-- The stack of a balanced ledger has room for the claims of whole pops, unless some linked node
was claimed almost as often as its count can tell. -/
theorem Ledger.Balanced.roomy {s : Ledger α} (hs : s.Balanced)
    (hclaims : ∀ node ∈ s.stack.linked, s.claimsOn node < 2 ^ 63 - 2) :
    s.stack.Roomy s.stack.toList where
  linked := hs.linked
  toList := rfl
  room level hmem := by
    have hcount := hs.counted level hmem
    have hfew := hclaims _ (mem_linked_of_mem_levels hmem)
    omega

/-- A counted stack is reliable for all threads. -/
theorem reliable : SharedStack.Reliable fun (s : CountedStack α) _ values _ ↦ s.Roomy values where
  push _ _ _ _ _ value hs := ⟨rfl, hs.push value⟩
  pop _ _ _ _ _ hs _ := hs.pop
  finish _ _ _ _ _ hs _ := hs
  wait _ _ _ hs := hs
  size s _ values _ hs := by
    have hlength := congrArg List.length hs.toList
    rwa [toList, List.length_map] at hlength

end Reclaim.CountedStack
