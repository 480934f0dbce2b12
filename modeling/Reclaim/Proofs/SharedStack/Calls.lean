import Reclaim.SharedStack.Basic

/-!
# Calls on a stack

What calls on a stack answer is what they answer on the list of its values. A service is a stack
together with what may happen to it between the calls; it acts as a stack if every row of calls is
answered as on a list, whatever happens in between. For that it is enough to look at one call, and
at one thing that happens.
-/

namespace Reclaim.SharedStack

variable {σ κ α : Type}

inductive Call (α : Type) where
  | push (value : α)
  | pop
  | isEmpty

inductive Answer (α : Type) where
  | pushed
  | popped (value : Option α)
  | empty (isEmpty : Bool)

/-- What a call answers on a list of values from the top, and the list after it. -/
def Call.onList : Call α → List α → Answer α × List α
  | .push value, values => (.pushed, value :: values)
  | .pop, [] => (.popped none, [])
  | .pop, value :: values => (.popped (some value), values)
  | .isEmpty, values => (.empty values.isEmpty, values)

def answers : List (Call α) → List α → List (Answer α)
  | [], _ => []
  | call :: calls, values => (call.onList values).1 :: answers calls (call.onList values).2

def remaining : List (Call α) → List α → List α
  | [], values => values
  | call :: calls, values => remaining calls (call.onList values).2

theorem answers_append (calls : List (Call α)) (call : Call α) (values : List α) :
    answers (calls ++ [call]) values =
      answers calls values ++ [(call.onList (remaining calls values)).1] := by
  induction calls generalizing values with
  | nil => rfl
  | cons first calls ih => exact congrArg (_ :: ·) (ih _)

theorem remaining_append (calls : List (Call α)) (call : Call α) (values : List α) :
    remaining (calls ++ [call]) values = (call.onList (remaining calls values)).2 := by
  induction calls generalizing values with
  | nil => rfl
  | cons first calls ih => exact ih _

/-- A list says that it is empty if its next pop finds nothing. -/
theorem isEmpty_onList_iff (values : List α) :
    (Call.isEmpty.onList values).1 = .empty true ↔ (Call.pop.onList values).1 = .popped none := by
  cases values with
  | nil => exact ⟨fun _ ↦ rfl, fun _ ↦ rfl⟩
  | cons value values => exact ⟨nofun, nofun⟩

/-- A stack that can be called in several ways, in which calls are answered as they should be, and
what may happen between the calls. -/
structure Service (σ κ α : Type) where
  call : κ → σ → Call α → σ × Except Fault (Answer α)
  fine : κ → σ → Call α → Prop
  between : σ → σ → Prop

abbrev Log (α : Type) := List (Call α × Except Fault (Answer α))

/-- Calls are made that are fine, and other things happen between them. -/
inductive Service.Served (S : Service σ κ α) (s : σ) : Log α → σ → Prop
  | start : Served S s [] s
  | between {log : Log α} {t u : σ} (hserved : Served S s log t) (hbetween : S.between t u) :
      Served S s log u
  | call {log : Log α} {t : σ} (hserved : Served S s log t) (k : κ) (call : Call α)
      (hfine : S.fine k t call) :
      Served S s (log ++ [(call, (S.call k t call).2)]) (S.call k t call).1

/-- Every row of calls is answered as on a list with these values, and the stack says that it is
empty exactly if a pop would find nothing. -/
def Service.ActsAsStack (S : Service σ κ α) (s : σ) (values : List α) : Prop :=
  ∀ log t, S.Served s log t →
    log.map Prod.snd = (answers (log.map Prod.fst) values).map .ok ∧
    ∀ k k', S.fine k t .isEmpty → S.fine k' t .pop →
      ((S.call k t .isEmpty).2 = .ok (.empty true) ↔ (S.call k' t .pop).2 = .ok (.popped none))

/-- A call answers as on the values that the stack holds and leaves the values as the call on the
list does; what happens between the calls leaves the values alone. -/
structure Service.Lawful (S : Service σ κ α) (Holds : σ → List α → Prop) : Prop where
  call : ∀ k s values call, Holds s values → S.fine k s call →
    (S.call k s call).2 = .ok (call.onList values).1 ∧
      Holds (S.call k s call).1 (call.onList values).2
  between : ∀ s t values, Holds s values → S.between s t → Holds t values

namespace Service.Lawful

variable {S : Service σ κ α} {Holds : σ → List α → Prop} {s t : σ} {values : List α} {log : Log α}

theorem answers_of_served (hS : S.Lawful Holds) (hs : Holds s values) (hserved : S.Served s log t) :
    log.map Prod.snd = (answers (log.map Prod.fst) values).map .ok ∧
      Holds t (remaining (log.map Prod.fst) values) := by
  induction hserved with
  | start => exact ⟨rfl, hs⟩
  | between _ hbetween ih => exact ⟨ih.1, hS.between _ _ _ ih.2 hbetween⟩
  | call _ k call hfine ih =>
    obtain ⟨hlog, hvalues⟩ := ih
    obtain ⟨hanswer, hafter⟩ := hS.call k _ _ call hvalues hfine
    simp only [List.map_append, List.map_cons, List.map_nil, answers_append, remaining_append]
    exact ⟨by rw [hlog, hanswer], hafter⟩

theorem actsAsStack (hS : S.Lawful Holds) (hs : Holds s values) : S.ActsAsStack s values := by
  intro log t hserved
  obtain ⟨hlog, hvalues⟩ := hS.answers_of_served hs hserved
  refine ⟨hlog, ?_⟩
  intro k k' hempty hpop
  rw [(hS.call k t _ _ hvalues hempty).1, (hS.call k' t _ _ hvalues hpop).1]
  simp only [Except.ok.injEq]
  exact isEmpty_onList_iff _

end Service.Lawful

variable [SharedStack σ α]

def call (s : σ) (t : Hazard.ThreadId) : Call α → σ × Except Fault (Answer α)
  | .push value => ((push s t value).1, (push s t value).2.map fun _ ↦ .pushed)
  | .pop => ((pop s t).state, (pop s t).result.map .popped)
  | .isEmpty => (s, .ok (.empty (isEmpty s)))

/-- A stack to which nothing but calls happens, and every call is fine. -/
def service (σ : Type) {α : Type} [SharedStack σ α] : Service σ Hazard.ThreadId α where
  call t s := call s t
  fine _ _ _ := True
  between s t := s = t

end Reclaim.SharedStack

namespace Reclaim

/-- A list behind a lock acts as a list. -/
theorem LockedStack.lawful {α : Type} :
    (SharedStack.service (LockedStack α)).Lawful fun s values ↦ s.items = values where
  call := by
    intro _ s values call hs _
    subst hs
    obtain ⟨items⟩ := s
    cases call with
    | pop => cases items <;> exact ⟨rfl, rfl⟩
    | _ => exact ⟨rfl, rfl⟩
  between := by
    intro s t values hs hst
    exact hst ▸ hs

end Reclaim
