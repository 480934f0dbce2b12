import Reclaim.Proofs.LimboList.Ledger

/-!
# Runs on a limbo list

A run is a row of steps, each carried out in the ledger that the one before it left. What the steps
of a run did can be read off its moves: the entries made, the cells gone, the cells linked since the
list was last taken, and what each drain handed out. Every run keeps the cells shared out, and a
drain hands out the cells that it had at the start of a run, in order, whatever else the run does.
-/

namespace Reclaim.LinkedLimbo.Ledger

open LimboCell

variable {ε : Type}

structure Move (ε : Type) where
  step : Step ε
  reply : Reply ε

/-- The moves lead from `s` to the ledger at the end, each carried out where it was made. -/
inductive Run [Destructor ε] (s : Ledger ε) : List (Move ε) → Ledger ε → Prop
  | start : Run s [] s
  | step {moves : List (Move ε)} {t : Ledger ε} {step : Step ε} {reply : Reply ε}
      (hrun : Run s moves t) (hperform : t.perform step = some reply) :
      Run s (moves ++ [⟨step, reply⟩]) reply.state

/-- Carries out steps one after another and leaves out those that the caller has nothing for. -/
def follow [Destructor ε] (s : Ledger ε) : List (Step ε) → List (Move ε) × Ledger ε
  | [] => ([], s)
  | step :: steps =>
    match s.perform step with
    | none => s.follow steps
    | some reply =>
      let (moves, t) := follow reply.state steps
      (⟨step, reply⟩ :: moves, t)

def Step.made : Step ε → List ε
  | .make entry => [entry]
  | _ => []

/-- The entries made, in order; the first entry is in the first cell. -/
def madeIn (moves : List (Move ε)) : List ε := moves.flatMap (·.step.made)

def consumedIn (moves : List (Move ε)) : List NodeId := moves.flatMap (·.step.consumed)

def Step.freed : Step ε → List NodeId
  | .free cell => [cell]
  | _ => []

def freedIn (moves : List (Move ε)) : List NodeId := moves.flatMap (·.step.freed)

def startedIn (moves : List (Move ε)) : List (NodeId × ε) := moves.flatMap (·.reply.events)

def Step.isPark : Step ε → Bool
  | .park _ => true
  | _ => false

def Step.isCountFreed : Step ε → Bool
  | .countFreed => true
  | _ => false

def parksIn (moves : List (Move ε)) : Nat := moves.countP (·.step.isPark)

def countsIn (moves : List (Move ε)) : Nat := moves.countP (·.step.isCountFreed)

def Step.relink (linked : List NodeId) : Step ε → List NodeId
  | .park cell | .putBack cell => linked ++ [cell]
  | .detach => []
  | _ => linked

/-- The cells linked since the list was last taken, in order. -/
def linkedIn (moves : List (Move ε)) : List NodeId :=
  moves.foldl (fun linked move ↦ move.step.relink linked) []

/-- What a move let a drain hand out; `some none` if the drain was at its end. -/
def Move.handed? (drain : Nat) (move : Move ε) : Option (Option NodeId) :=
  match move.step, move.reply.result with
  | .next asked, .ok (.handed cell) => if asked = drain then some cell else none
  | _, _ => none

def handedBy (drain : Nat) (moves : List (Move ε)) : List (Option NodeId) :=
  moves.filterMap (·.handed? drain)

theorem linkedIn_append (moves : List (Move ε)) (move : Move ε) :
    linkedIn (moves ++ [move]) = move.step.relink (linkedIn moves) := by
  rw [linkedIn, List.foldl_append]
  rfl

theorem onList_eq (step : Step ε) (linked : List NodeId) (parks counts : Nat) :
    step.onList ⟨linked.reverse, .ofNat parks - .ofNat counts⟩ =
      ⟨(step.relink linked).reverse, .ofNat (parks + if step.isPark then 1 else 0) -
        .ofNat (counts + if step.isCountFreed then 1 else 0)⟩ := by
  cases step with
  | park cell =>
    have hpending : UInt64.ofNat parks - .ofNat counts + 1 =
        .ofNat (parks + 1) - .ofNat counts := by
      rw [UInt64.ofNat_add]
      grind
    simp only [Step.onList, LimboList.park, hpending, Step.relink, List.reverse_append]
    rfl
  | putBack cell =>
    simp only [Step.onList, LimboList.putBack, Step.relink, List.reverse_append]
    rfl
  | countFreed =>
    have hpending : UInt64.ofNat parks - .ofNat counts - 1 =
        .ofNat parks - .ofNat (counts + 1) := by
      rw [UInt64.ofNat_add]
      grind
    simp only [Step.onList, LimboList.countFreed, hpending]
    rfl
  | _ => rfl

theorem onRests_of_ne {step : Step ε} {drain : Nat} (hstep : step ≠ .next drain)
    (list : LimboList NodeId) {rests : List (List NodeId)} {cells : List NodeId}
    (hrest : rests[drain]? = some cells) : (step.onRests list rests)[drain]? = some cells := by
  cases step with
  | detach =>
    obtain ⟨hlt, hget⟩ := List.getElem?_eq_some_iff.mp hrest
    rw [Step.onRests, List.getElem?_append_left hlt]
    exact hrest
  | next asked =>
    have hasked : asked ≠ drain := fun heq ↦ hstep (congrArg Step.next heq)
    rw [Step.onRests, List.getElem?_modify, hrest]
    exact congrArg some (if_neg hasked)
  | _ => exact hrest

theorem Move.handed?_of_ne {move : Move ε} {drain : Nat} (hstep : move.step ≠ .next drain) :
    move.handed? drain = none := by
  rw [Move.handed?]
  split
  · next asked cell hasked _ =>
    exact if_neg fun heq ↦ hstep (hasked.trans (congrArg Step.next heq))
  · rfl

variable {s t : Ledger ε} {moves : List (Move ε)} {gone : List NodeId}

theorem sound_empty : ({} : Ledger ε).Sound [] where
  ends start hstart := by
    rw [List.mem_singleton.mp hstart]
    exact (chain_none _).1
  places := by simp [Heap.size]
  held := nofun
  cleared := nofun

variable [Destructor ε]

namespace Run

theorem trans {u : Ledger ε} {moves' : List (Move ε)} (hst : Run s moves t)
    (htu : Run t moves' u) : Run s (moves ++ moves') u := by
  induction htu with
  | start =>
    rw [List.append_nil]
    exact hst
  | step _ hperform ih =>
    rw [← List.append_assoc]
    exact ih.step hperform

theorem follow (s : Ledger ε) (steps : List (Step ε)) :
    Run s (s.follow steps).1 (s.follow steps).2 := by
  induction steps generalizing s with
  | nil => exact .start
  | cons step steps ih =>
    rw [Ledger.follow]
    cases hperform : s.perform step with
    | none => exact ih s
    | some reply => exact (Run.start.step hperform).trans (ih reply.state)

theorem sound (hrun : Run s moves t) (hs : s.Sound gone) : t.Sound (gone ++ consumedIn moves) := by
  induction hrun with
  | start =>
    rw [consumedIn, List.flatMap_nil, List.append_nil]
    exact hs
  | step _ hperform ih =>
    rw [consumedIn, List.flatMap_append, List.flatMap_singleton, ← List.append_assoc]
    exact (ih.perform hperform).sound

/-- The list holds what was linked since it was last taken, and its counter is behind the entries
parked by the entries counted as freed. -/
theorem list_eq (hrun : Run {} moves t) :
    t.list = ⟨(linkedIn moves).reverse, .ofNat (parksIn moves) - .ofNat (countsIn moves)⟩ := by
  induction hrun with
  | start =>
    have hpending : UInt64.ofNat 0 - .ofNat 0 = 0 := rfl
    change (⟨trail _ none, 0⟩ : LimboList NodeId) = ⟨[], UInt64.ofNat 0 - .ofNat 0⟩
    rw [trail_none, hpending]
  | @step moves t step reply hrun hperform ih =>
    rw [((hrun.sound sound_empty).perform hperform).list, ih, onList_eq, linkedIn_append, parksIn,
      countsIn, parksIn, countsIn, List.countP_append, List.countP_append, List.countP_singleton,
      List.countP_singleton]

/-- A drain hands out, in order, the cells that it had at the start of the run, and nothing any more
after the last of them. -/
theorem rests_eq (hrun : Run s moves t) (hs : s.Sound gone) {drain : Nat} {cells : List NodeId}
    (hrest : s.rests[drain]? = some cells) :
    handedBy drain moves = (List.range (handedBy drain moves).length).map (cells[·]?) ∧
      t.rests[drain]? = some (cells.drop (handedBy drain moves).length) := by
  induction hrun with
  | start => exact ⟨rfl, hrest⟩
  | @step moves t step reply hrun hperform ih =>
    have hsound := hrun.sound hs
    obtain ⟨hhanded, hrests⟩ := ih
    have hlater := (hsound.perform hperform).rests
    rw [handedBy, List.filterMap_append, ← handedBy]
    -- No step but asking this drain takes a cell off it.
    by_cases hstep : step = .next drain
    · subst hstep
      obtain ⟨next, hnext, -⟩ := hsound.next hrests
      cases hnext.symm.trans hperform
      have hmove : Move.handed? drain ⟨.next drain, ⟨next, [],
          .ok (.handed (cells.drop (handedBy drain moves).length).head?)⟩⟩ =
            some cells[(handedBy drain moves).length]? := by
        rw [List.head?_drop]
        exact if_pos rfl
      have hrest' : (t.rests.modify drain List.tail)[drain]? =
          some (cells.drop (handedBy drain moves).length).tail := by
        rw [List.getElem?_modify, hrests]
        exact congrArg some (if_pos rfl)
      rw [hlater, Step.onRests, hrest', List.filterMap_cons_some hmove, List.filterMap_nil,
        List.length_append, List.length_singleton, List.range_succ, List.map_append, ← hhanded,
        List.tail_drop]
      exact ⟨rfl, rfl⟩
    · rw [List.filterMap_cons_none (Move.handed?_of_ne hstep), List.filterMap_nil, List.append_nil]
      exact ⟨hhanded, hlater ▸ onRests_of_ne hstep _ hrests⟩

end Run

end Reclaim.LinkedLimbo.Ledger
