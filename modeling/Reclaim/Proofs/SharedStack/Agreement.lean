import Reclaim.Proofs.CountedStack.Service
import Reclaim.Proofs.Hazard.Service
import Reclaim.Stress

/-!
# The three stacks agree

The stack with split reference counts, the stack over a registry and the list behind a lock give the
same answers to the same calls, whatever is done to claims, slots and other stacks between the
calls.
-/

namespace Reclaim

open CountedStack Hazard SharedStack

/-- Stacks that hold the same values answer every row of calls in the same way, namely as a list of
these values does. A counted stack does so if checked arithmetic does not fault, and a stack over a
registry if pops get slots and the deleters that they run neither fault nor operate on it. -/
theorem three_stacks_agree {α : Type} [Destructor α] (values : List α) :
    (∀ (moves : List (Ledger.Move α)) (s : Ledger α), Ledger.Run {} moves s →
      (∀ move ∈ moves, ¬ Overflows move.reply.result) → s.dropped = false →
      s.stack.toList = values → Ledger.service.ActsAsStack s values) ∧
    (∀ (n : Nat) (moves : List (Hazard.Move n α)) (m : Machine n α) (id : StackId),
      Hazard.Run Machine.empty moves m → m.frames = [] → (m.world.stack? id).isSome →
      m.world.valuesIn id = values → (Hazard.service n id).ActsAsStack m.world values) ∧
    (SharedStack.service (LockedStack α)).ActsAsStack ⟨values⟩ values := by
  refine ⟨?_, ?_, LockedStack.lawful.actsAsStack rfl⟩
  · intro moves s hrun hcalm hkept hvalues
    have hs : s.Balanced := hrun.balanced (Ledger.calm_of_not_overflows hcalm)
    exact Ledger.lawful.actsAsStack ⟨hs, hkept, hvalues⟩
  · intro n moves m id hrun hidle hkept hvalues
    obtain ⟨w, t, frames⟩ := m
    obtain rfl : frames = [] := hidle
    have hm := hrun.sound Machine.sound_empty
    exact (Hazard.lawful n id).actsAsStack ⟨hm.stock, hkept, hvalues⟩

/-- The node is claimed and the claim is released. -/
def inPassing : List (Ledger.Move Nat) :=
  [⟨.claim ⟨some 0, 1⟩,
      ⟨Ledger.contended (some 0) ⟨some 0, 2⟩ [⟨⟨some 0, 2⟩, .held⟩], [],
        .ok (.claimed (some ⟨some 0, 2⟩))⟩⟩,
    ⟨.release 0,
      ⟨Ledger.contended (some (-1)) ⟨some 0, 2⟩ [⟨⟨some 0, 2⟩, .released⟩], [],
        .ok (.released false)⟩⟩]

/-- Two stacks over a registry in which an object waits whose deleter pushes to the second. -/
def detour : Machine 1 Nat :=
  (Machine.empty.follow
    [.addRegistry, .addStack 0, .addStack 0, .spawn, .addObject [.push 1 6],
      .issue 0 (.tryClaim 0), .issue 0 (.publish 0 (some (.object 0))),
      .issue 0 (.retire 0 (some 0)), .issue 0 (.publish 0 none)]).2

/-- A value is pushed and popped, while on the counted stack its node is claimed and released and
over the registry another stack is pushed to, which the pop does too when it reclaims. -/
theorem three_stacks_agree_detour :
    (∃ log s, Ledger.service.Served ({} : Ledger Nat) log s ∧
      log.map Prod.fst = [.push 5, .pop, .isEmpty] ∧
      log.map Prod.snd = [.ok .pushed, .ok (.popped (some 5)), .ok (.empty true)]) ∧
    (∃ log w, (Hazard.service 1 0).Served detour.world log w ∧
      log.map Prod.fst = [.push 5, .pop, .isEmpty] ∧
      log.map Prod.snd = [.ok .pushed, .ok (.popped (some 5)), .ok (.empty true)]) ∧
    ∃ log s, (SharedStack.service (LockedStack Nat)).Served ⟨[]⟩ log s ∧
      log.map Prod.fst = [.push 5, .pop, .isEmpty] ∧
      log.map Prod.snd = [.ok .pushed, .ok (.popped (some 5)), .ok (.empty true)] := by
  obtain ⟨hcounted, hhazard, hlocked⟩ := three_stacks_agree ([] : List Nat)
  refine ⟨?_, ?_, ?_⟩
  · have hstart : Ledger.service.Served ({} : Ledger Nat) [] {} := .start
    have hpushed := hstart.call 0 (.push 5) (not_overflows_ok _)
    let s := Ledger.contended (some (-1)) ⟨some 0, 2⟩ [⟨⟨some 0, 2⟩, .released⟩]
    have hbetween : Ledger.service.between (Ledger.contended (some 0) ⟨some 0, 1⟩ []) s := by
      refine ⟨inPassing, ?_, ?_⟩
      · have hclaim := Ledger.perform_claim_head
          (s := Ledger.contended (some 0) ⟨some 0, 1⟩ []) rfl (by decide) (by decide)
        exact Ledger.Run.step (Ledger.Run.step .start hclaim) rfl
      · refine List.forall_mem_cons.mpr ⟨⟨Or.inl ⟨_, rfl⟩, not_overflows_ok _⟩, ?_⟩
        exact List.forall_mem_singleton.mpr ⟨Or.inr (Or.inr ⟨0, Or.inr rfl⟩), not_overflows_ok _⟩
    have hpop : (s.call 0 .pop).2 = .ok (.popped (some 5)) := by
      have hresult : s.stack.pop.result = .ok (some 5) := by
        rw [CountedStack.pop_of_top (s := s.stack) rfl rfl]
        decide +kernel
      exact congrArg (Except.map SharedStack.Answer.popped) hresult
    have hfine : ¬ Overflows (s.call 0 .pop).2 := hpop ▸ not_overflows_ok _
    have hserved := ((hpushed.between hbetween).call 0 .pop hfine).call 0 .isEmpty
      (not_overflows_ok _)
    refine ⟨_, _, hserved, rfl, ?_⟩
    exact (hcounted [] {} .start (List.forall_mem_nil _) rfl rfl _ _ hserved).1
  · let w := (World.call 0 (.lent 0 0) detour.world (.push 5)).1
    have hstart : (Hazard.service 1 0).Served detour.world [] detour.world := .start
    have hpushed : (Hazard.service 1 0).Served detour.world _ w :=
      hstart.call (.lent 0 0) (.push 5) trivial
    let v := (w.run 0 (.push 1 9)).1
    have hbeside : (Hazard.service 1 0).between w v := by
      obtain ⟨stack, hstack⟩ := Option.isSome_iff_exists.mp
        (show (w.stack? 1).isSome by decide +kernel)
      have hexecute := Machine.execute_push hstack 0 9 []
      have hcarry : (⟨w, 0, []⟩ : Machine 1 Nat).carryOut (.issue 0 (.push 1 9)) = some _ :=
        congrArg some hexecute
      have hv : v = (w.push 1 stack 9).2 := by
        rw [show v = (w.run 0 (.push 1 9)).1 from rfl, World.run, hexecute]
        rfl
      rw [hv]
      refine ⟨_, 0, 0, Hazard.Run.single hcarry, List.forall_mem_singleton.mpr ?_⟩
      exact fun hsame ↦ absurd (Option.some.inj hsame) (by decide)
    have hfine : v.Fine 0 (.lent 0 0) .pop := by
      refine ⟨by decide +kernel, ?_⟩
      have htrace := v.follow_issue 0 (.popUsing 0 0) 8 (by decide +kernel)
      change ∀ move ∈ v.trace 0 (.popUsing 0 0), _
      rw [← htrace]
      decide +kernel
    have hpopped := (hpushed.between hbeside).call (.lent 0 0) .pop hfine
    have hserved := hpopped.call (.lent 0 0) .isEmpty trivial
    refine ⟨_, _, hserved, rfl, ?_⟩
    exact (hhazard 1 _ detour 0 (Machine.run_follow _ _) (by decide +kernel) (by decide +kernel)
      (by decide +kernel) _ _ hserved).1
  · have hstart : (SharedStack.service (LockedStack Nat)).Served ⟨[]⟩ [] ⟨[]⟩ := .start
    have hserved := ((hstart.call 0 (.push 5) trivial).call 0 .pop trivial).call 0 .isEmpty trivial
    exact ⟨_, _, hserved, rfl, (hlocked _ _ hserved).1⟩

end Reclaim
