import Reclaim.Proofs.CountedStack.Perform
import Reclaim.Stress

/-!
# Runs

Claims are never forgotten, so a bound on the claims at the end of a run held all along, and no step
of the run overran. A run without overruns is a row of effects, and all that effects preserve holds
at its end.
-/

namespace Reclaim.CountedStack.Ledger

variable {α : Type} {s t : Ledger α} {moves : List (Move α)}

def Calm (moves : List (Move α)) : Prop :=
  ∀ move ∈ moves, ¬ move.reply.state.Overruns move.reply.result

theorem Calm.of_append {moves' : List (Move α)} (hcalm : Calm (moves ++ moves')) : Calm moves :=
  fun move hmem ↦ hcalm move (List.mem_append_left moves' hmem)

/-- Nothing overruns where checked arithmetic never faults. -/
theorem calm_of_not_overflows (h : ∀ move ∈ moves, ¬ Overflows move.reply.result) : Calm moves :=
  fun move hmem hoverrun ↦ h move hmem hoverrun.1

theorem Bounded.not_overruns (hs : s.Bounded) {ρ : Type} (result : Except Fault ρ) :
    ¬ s.Overruns result := by
  rintro ⟨-, node, hmany⟩
  have hfew := hs node
  omega

theorem freedIn_append (moves : List (Move α)) (move : Move α) :
    freedIn (moves ++ [move]) = freedIn moves ++ freedNodes move.reply.events := by
  rw [freedIn, List.flatMap_append, List.flatMap_singleton, freedIn]

variable [Destructor α] {step : Step α} {reply : Reply α}

namespace Run

theorem trans {u : Ledger α} {moves' : List (Move α)} (hst : Run s moves t)
    (htu : Run t moves' u) : Run s (moves ++ moves') u := by
  induction htu with
  | start =>
    rw [List.append_nil]
    exact hst
  | step _ hperform ih =>
    rw [← List.append_assoc]
    exact ih.step hperform

theorem claimsOn_le_of_mem (hrun : Run s moves t) {move : Move α} (hmem : move ∈ moves)
    (node : NodeId) : move.reply.state.claimsOn node ≤ t.claimsOn node := by
  induction hrun with
  | start => cases hmem
  | step _ hperform ih =>
    rcases List.mem_append.mp hmem with hmem | hmem
    · exact Nat.le_trans (ih hmem) (claimsOn_le_of_perform hperform node)
    · obtain rfl := List.mem_singleton.mp hmem
      exact Nat.le_refl _

theorem calm (hrun : Run s moves t) (hbounded : t.Bounded) : Calm moves := by
  intro move hmem
  have hmove : move.reply.state.Bounded :=
    fun node ↦ Nat.le_trans (hrun.claimsOn_le_of_mem hmem node) (hbounded node)
  exact hmove.not_overruns _

/-- Each step of a run was carried out at the end of the moves before it. -/
theorem exists_before (hrun : Run s moves t) {move : Move α} (hmem : move ∈ moves) :
    ∃ before after pre, moves = before ++ after ∧ Run s before pre ∧
      pre.perform move.step = some move.reply := by
  induction hrun with
  | start => cases hmem
  | @step moves pre step reply hrun hperform ih =>
    rcases List.mem_append.mp hmem with hmem | hmem
    · obtain ⟨before, after, pre', rfl, hbefore, hmove⟩ := ih hmem
      exact ⟨before, after ++ [⟨step, reply⟩], pre', List.append_assoc _ _ _, hbefore, hmove⟩
    · rw [List.mem_singleton.mp hmem]
      exact ⟨moves, [⟨step, reply⟩], pre, rfl, hrun, hperform⟩

/-- A run without overruns is a row of effects. -/
theorem effects (hrun : Run s moves t) (hs : s.Balanced) (hcalm : Calm moves) :
    Effects s (freedIn moves) t := by
  induction hrun with
  | start => exact .refl
  | @step moves pre step reply _ hperform ih =>
    have hbefore := ih hcalm.of_append
    have hmove := hcalm ⟨step, reply⟩ (List.mem_append_right moves List.mem_cons_self)
    rw [freedIn_append]
    rcases perform_effects (hbefore.balanced hs) hperform with hstep | hoverrun
    · exact hbefore.trans hstep
    · exact absurd hoverrun hmove

theorem balanced (hrun : Run {} moves t) (hcalm : Calm moves) : t.Balanced :=
  (hrun.effects balanced_new hcalm).balanced balanced_new

end Run

/-- A stack whose only node was pushed with the value 5, and its internal count if it is live. -/
def contended (internal? : Option Int64) (head : Ref) (claims : List Claim) : Ledger Nat :=
  { stack := ⟨head, ⟨#[internal?.map fun internal ↦ ⟨5, internal, CountedRef.null⟩]⟩⟩, claims }

/-- Two readers claim the node. -/
def contention : List (Move Nat) :=
  [⟨.push 5, ⟨contended (some 0) ⟨some 0, 1⟩ [], [], .ok (.pushed 0)⟩⟩,
    ⟨.claim ⟨some 0, 1⟩, ⟨contended (some 0) ⟨some 0, 2⟩ [⟨⟨some 0, 2⟩, .held⟩], [],
      .ok (.claimed (some ⟨some 0, 2⟩))⟩⟩,
    ⟨.claim ⟨some 0, 2⟩,
      ⟨contended (some 0) ⟨some 0, 3⟩ [⟨⟨some 0, 2⟩, .held⟩, ⟨⟨some 0, 3⟩, .held⟩], [],
        .ok (.claimed (some ⟨some 0, 3⟩))⟩⟩]

/-- The second reader unlinks the node. -/
def unlinking : Move Nat :=
  ⟨.unlink 1,
    ⟨contended (some 0) CountedRef.null [⟨⟨some 0, 2⟩, .held⟩, ⟨⟨some 0, 3⟩, .unlinked⟩], [],
      .ok .unlinked⟩⟩

/-- The stack is dropped, and the first reader gives up its claim. -/
def leaving : List (Move Nat) :=
  [⟨.drop,
      ⟨{ contended (some 0) CountedRef.null [⟨⟨some 0, 2⟩, .held⟩, ⟨⟨some 0, 3⟩, .unlinked⟩] with
          dropped := true },
        [], .ok .dropped⟩⟩,
    ⟨.release 0,
      ⟨{ contended (some (-1)) CountedRef.null
            [⟨⟨some 0, 2⟩, .released⟩, ⟨⟨some 0, 3⟩, .unlinked⟩] with dropped := true },
        [], .ok (.released false)⟩⟩]

/-- The second reader settles the node and frees it. -/
def settling : Move Nat :=
  ⟨.settle 1,
    ⟨{ contended none CountedRef.null
          [⟨⟨some 0, 2⟩, .released⟩, ⟨⟨some 0, 3⟩, .settled⟩] with dropped := true },
      [.freed 0], .ok (.settled (some 5) true)⟩⟩

theorem run_contention : Run {} contention
    (contended (some 0) ⟨some 0, 3⟩ [⟨⟨some 0, 2⟩, .held⟩, ⟨⟨some 0, 3⟩, .held⟩]) := by
  have hpush : ({} : Ledger Nat).perform (.push 5) =
      some ⟨contended (some 0) ⟨some 0, 1⟩ [], [], .ok (.pushed 0)⟩ := rfl
  have hfirst := perform_claim_head (s := contended (some 0) ⟨some 0, 1⟩ []) rfl (by decide)
    (by decide)
  have hsecond := perform_claim_head (s := contended (some 0) ⟨some 0, 2⟩ [⟨⟨some 0, 2⟩, .held⟩])
    rfl (by decide) (by decide)
  exact Run.step (Run.step (Run.step .start hpush) hfirst) hsecond

theorem run_unlinking : Run {} (contention ++ [unlinking]) unlinking.reply.state :=
  Run.step run_contention rfl

theorem run_leaving : Run unlinking.reply.state leaving
    { contended (some (-1)) CountedRef.null
        [⟨⟨some 0, 2⟩, .released⟩, ⟨⟨some 0, 3⟩, .unlinked⟩] with dropped := true } :=
  Run.step (Run.step .start rfl) rfl

theorem run_settling :
    Run {} (contention ++ [unlinking] ++ leaving ++ [settling]) settling.reply.state :=
  Run.step (run_unlinking.trans run_leaving) rfl

end Reclaim.CountedStack.Ledger
