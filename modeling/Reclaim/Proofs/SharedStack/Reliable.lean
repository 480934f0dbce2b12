import Reclaim.Workload.Trial

/-!
# Reliable stacks

A stack is reliable if pushes and pops never fault and act as on a list, for those threads that can
pop: whoever pops from a stack over a registry needs a slot. Threads end one after another, and when
none is left that pops, the thread that waited for them can.
-/

namespace Reclaim

namespace SharedStack

open Hazard (ThreadId)

variable {σ α : Type} [SharedStack σ α]

/-- `Holds` relates a stack to the threads that can pop, the values that it holds from the top, and
the values pushed to it so far, the latest first. What holds of these goes on to hold, whatever is
called. -/
structure Reliable (Holds : σ → List ThreadId → List α → List α → Prop) : Prop where
  push : ∀ s threads values pushed t value, Holds s threads values pushed →
    (SharedStack.push s t value).2 = .ok () ∧
      Holds (SharedStack.push s t value).1 threads (value :: values) (value :: pushed)
  pop : ∀ s threads values pushed t, Holds s threads values pushed → t ∈ threads →
    (SharedStack.pop s t).result = .ok values.head? ∧
      Holds (SharedStack.pop s t).state threads values.tail pushed
  finish : ∀ s threads values pushed t, Holds s threads values pushed → t ≠ 0 →
    Holds (SharedStack.finish s t) (threads.filter (· ≠ t)) values pushed
  wait : ∀ s values pushed, Holds s [] values pushed → Holds s [0] values pushed
  size : ∀ s threads values pushed, Holds s threads values pushed →
    SharedStack.size s = values.length

end SharedStack

/-- A list behind a lock is reliable for all threads. -/
theorem LockedStack.reliable {α : Type} :
    SharedStack.Reliable fun (s : LockedStack α) _ values _ ↦ s.items = values where
  push := by
    rintro s _ _ _ _ value rfl
    exact ⟨rfl, rfl⟩
  pop := by
    rintro ⟨items⟩ _ _ _ _ rfl -
    cases items <;> exact ⟨rfl, rfl⟩
  finish := fun _ _ _ _ _ hs _ ↦ hs
  wait := fun _ _ _ hs ↦ hs
  size := by
    rintro s _ _ _ rfl
    rfl

namespace Workload

open Hazard (ThreadId)

variable {σ : Type}

def Call.pushed? : Call → Option UInt64
  | .push value => some value
  | .pop _ => none

def Front.pushes (front : Front σ) : List UInt64 := front.calls.filterMap Call.pushed?

theorem Front.pushed_eq (front : Front σ) : front.pushed = front.pushes.mergeSort (· ≤ ·) := rfl

/-- A front that does not misbehave, before a stack that is reliable. -/
structure Front.Records (Holds : σ → List ThreadId → List UInt64 → List UInt64 → Prop)
    (front : Front σ) (threads : List ThreadId) (values pushed : List UInt64) : Prop where
  harmless : front.misconduct = {}
  «stack» : Holds front.stack threads values pushed
  pushes : front.pushes = pushed

variable [SharedStack σ UInt64]

/-- What a front records as pushed is what is pushed. -/
theorem Front.reliable {Holds : σ → List ThreadId → List UInt64 → List UInt64 → Prop}
    (hS : SharedStack.Reliable Holds) : SharedStack.Reliable (Front.Records Holds) where
  push := by
    rintro ⟨stack, _, calls⟩ threads values _ t value ⟨rfl, hstack, rfl⟩
    obtain ⟨hok, hafter⟩ := hS.push _ _ _ _ t value hstack
    have hpush : SharedStack.push (⟨stack, {}, calls⟩ : Front σ) t value =
        (⟨(SharedStack.push stack t value).1, {}, .push value :: calls⟩, .ok ()) := by
      change Front.push ⟨stack, {}, calls⟩ t value = _
      unfold Front.push
      rcases hpushed : SharedStack.push stack t value with ⟨s, result⟩
      rw [hpushed] at hok
      obtain rfl : result = .ok () := hok
      simp [Misconduct.loses, Misconduct.doubles, hpushed]
    rw [hpush]
    exact ⟨rfl, rfl, hafter, rfl⟩
  pop := by
    rintro ⟨stack, _, calls⟩ threads values _ t ⟨rfl, hstack, rfl⟩ hmem
    obtain ⟨hok, hafter⟩ := hS.pop _ _ _ _ t hstack hmem
    have hpop : SharedStack.pop (⟨stack, {}, calls⟩ : Front σ) t =
        ⟨⟨(SharedStack.pop stack t).state, {}, .pop values.head? :: calls⟩,
          (SharedStack.pop stack t).events, .ok values.head?⟩ := by
      change Front.pop ⟨stack, {}, calls⟩ t = _
      unfold Front.pop
      rcases hpopped : SharedStack.pop stack t with ⟨s, dropped, result⟩
      rw [hpopped] at hok
      obtain rfl : result = .ok values.head? := hok
      simp [hpopped]
    rw [hpop]
    exact ⟨rfl, rfl, hafter, rfl⟩
  finish := by
    rintro ⟨stack, _, calls⟩ threads values _ t ⟨rfl, hstack, rfl⟩ ht
    exact ⟨rfl, hS.finish _ _ _ _ t hstack ht, rfl⟩
  wait := by
    rintro ⟨stack, _, calls⟩ values _ ⟨rfl, hstack, rfl⟩
    exact ⟨rfl, hS.wait _ _ _ hstack, rfl⟩
  size := by
    rintro ⟨stack, _, calls⟩ threads values _ ⟨rfl, hstack, rfl⟩
    exact hS.size _ _ _ _ hstack

end Workload

end Reclaim
