import Reclaim.Proofs.CountedStack.Dropping
import Reclaim.Proofs.Hazard.Dropping

/-!
# Dropping stacks whose values fault

The drop of a counted stack pops, frees and then destroys; the drop of a stack over a registry
destroys and frees where it goes along the links. Both come to the same end: the values from the top
are destroyed down to the first whose destructor faults, and exactly their nodes are freed.
-/

namespace Reclaim

open CountedStack Hazard
open SharedStack (reach ending)

variable {n : Nat} {α : Type} [Destructor α]

/-- Both stacks are dropped alike, down to the first value whose destructor faults, or to the end.
On a counted stack no claim may be open, and no count may be one on which a pop overflows. -/
theorem drops_alike {values : List α} {steps : List (Ledger.Move α)} {s : Ledger α}
    (hs : Ledger.Run {} steps s) (hcalm : ∀ step ∈ steps, ¬ Overflows step.reply.result)
    (hkept : s.dropped = false) (hidle : s.Idle) (hvalues : s.stack.toList = values)
    (hfits : ∀ level ∈ s.stack.levels.take (reach values), Poppable level.1)
    {moves : List (Hazard.Move n α)} {m : Machine n α} (hm : Hazard.Run Machine.empty moves m)
    (hframes : m.frames = []) {id : StackId} {stack : Stack}
    (hstack : m.world.stack? id = some stack) (hvalues' : m.world.valuesIn id = values) :
    (∃ reply, s.perform .drop = some reply ∧
      reply.result = (ending values).map (fun _ ↦ .dropped) ∧ s.DroppedTo (reach values) reply) ∧
    ∃ v, m.carryOut (.dropStack id) = some (.done v ((ending values).map fun _ ↦ .done)) ∧
      m.world.DroppedTo id (reach values) v := by
  subst hvalues
  constructor
  · exact (hs.balanced (Ledger.calm_of_not_overflows hcalm)).drop_eq hidle hkept hfits
  · obtain ⟨hresult, hdropped⟩ :=
      World.dropStack_droppedTo (w := m.world) (hm.sound Machine.sound_empty).stock rfl hstack
    rw [hvalues'] at hresult hdropped
    refine ⟨_, ?_, hdropped⟩
    obtain ⟨w, t, frames⟩ := m
    obtain rfl : frames = [] := hframes
    rw [← hresult]
    rfl

/-- A value that carries the fault of its own destructor. -/
structure Charge where
  name : Nat
  fault : Option Fault := none
deriving DecidableEq

instance : Destructor Charge := ⟨Charge.fault⟩

def chargedValues : List Charge := [⟨3, none⟩, ⟨2, some (.valueBomb "2")⟩, ⟨1, none⟩]

def chargedStack : Ledger Charge :=
  { stack := ⟨⟨some 2, 1⟩,
      ⟨#[some ⟨⟨1, none⟩, 0, CountedRef.null⟩, some ⟨⟨2, some (.valueBomb "2")⟩, 0, ⟨some 0, 1⟩⟩,
        some ⟨⟨3, none⟩, 0, ⟨some 1, 1⟩⟩]⟩⟩ }

theorem run_chargedStack : ∃ steps, Ledger.Run {} steps chargedStack ∧
    ∀ step ∈ steps, ¬ Overflows step.reply.result := by
  have hfirst := Ledger.Run.step .start
    (show Ledger.perform {} (.push (Charge.mk 1 none)) = some _ from rfl)
  have hsecond := hfirst.step
    (show Ledger.perform _ (.push (Charge.mk 2 (some (.valueBomb "2")))) = some _ from rfl)
  have hthird := hsecond.step
    (show Ledger.perform _ (.push (Charge.mk 3 none)) = some _ from rfl)
  refine ⟨_, hthird, ?_⟩
  simp [not_overflows_ok]

/-- The three values on a stack over a registry. One slot protects a node that is parked, the other
the top node. -/
def chargedDeeds : List (Deed Charge) :=
  [.addRegistry, .addStack 0, .spawn, .issue 0 (.tryClaim 0), .issue 0 (.tryClaim 0),
    .issue 0 (.push 0 ⟨0, none⟩), .issue 0 (.publish 0 (some (.node 0))),
    .issue 0 (.popUsing 0 1)] ++ List.replicate 5 .proceed ++
  [.issue 0 (.push 0 ⟨1, none⟩), .issue 0 (.push 0 ⟨2, some (.valueBomb "2")⟩),
    .issue 0 (.push 0 ⟨3, none⟩), .issue 0 (.publish 1 (some (.node 3)))]

def chargedMachine : Machine 2 Charge := (Machine.empty.follow chargedDeeds).2

/-- Both stacks destroy the first two values in the fault of the second, and neither of them its
lowest value; the parked node stays. -/
theorem drops_alike_charged :
    (∃ reply, chargedStack.perform .drop = some reply ∧
      reply.result = .error (.valueBomb "2") ∧
      droppedValues reply.events = [⟨3, none⟩, ⟨2, some (.valueBomb "2")⟩] ∧
      Ledger.freedNodes reply.events = [2, 1]) ∧
    ∃ v, chargedMachine.carryOut (.dropStack 0) = some (.done v (.error (.valueBomb "2"))) ∧
      v.destroyed = [⟨2, some (.valueBomb "2")⟩, ⟨3, none⟩] ∧
      v.started = [.node 2, .node 3] ∧
      v.heap.get? 0 = chargedMachine.world.heap.get? 0 := by
  obtain ⟨steps, hsteps, hcalm⟩ := run_chargedStack
  have hidle : chargedMachine.frames = [] := List.isEmpty_iff.mp (by decide +kernel)
  have hlinked : chargedMachine.world.valuesIn 0 = chargedValues := by decide +kernel
  obtain ⟨stack, hstack⟩ := Option.isSome_iff_exists.mp
    (show (chargedMachine.world.stack? 0).isSome by decide +kernel)
  obtain ⟨entry, hparked, hentry⟩ : ∃ entry ∈ (chargedMachine.world.limbo 0).entries,
      entry.address = .node 0 := by
    simpa using (show .node 0 ∈ (chargedMachine.world.limbo 0).entries.map (·.address) by
      decide +kernel)
  obtain ⟨⟨reply, hperform, hresult, hdropped⟩, v, hcarry, hdropped'⟩ :=
    drops_alike hsteps hcalm rfl (by decide) rfl (by decide)
      (Machine.empty.run_follow chargedDeeds) hidle hstack hlinked
  refine ⟨⟨reply, hperform, hresult, hdropped.destroyed, hdropped.freed⟩, v, hcarry, ?_, ?_, ?_⟩
  · exact hdropped'.destroyed.trans (by decide +kernel)
  · exact hdropped'.freed.trans (by decide +kernel)
  · exact hdropped'.parked 0 entry hparked 0 hentry

end Reclaim
