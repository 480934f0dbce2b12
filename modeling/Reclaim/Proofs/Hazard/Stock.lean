import Reclaim.Proofs.Hazard.Links

/-!
# Stocks

A stock is a machine without its programs: the world, the sweeps that are running and the entries
that are about to be retired, both the innermost first. It says for every address in which places
it is. `Effect` lists the changes that a step can make to a stock, one at a time. Whatever holds of
all of them therefore holds of all steps.
-/

namespace Reclaim.Hazard

variable {n : Nat} {α : Type}

/-- Where an address can be: linked in a stack; taken out of one, or handed over, to be retired to
a registry; parked there; still to come in a sweep that is running or in one that a fault cut short;
or freed, which is to say that its deleter was started. -/
inductive Place where
  | linked (id : StackId)
  | taken (r : RegistryId)
  | parked (r : RegistryId)
  | draining (r : RegistryId)
  | lost (r : RegistryId)
  | freed
deriving DecidableEq

/-- What matters of a machine for the places of addresses. -/
structure Stock (n : Nat) (α : Type) where
  world : World n α
  sweeps : List (Sweep α)
  taken : List (RegistryId × Entry α)

def rests (r : RegistryId) (sweeps : List (Sweep α)) : List Address :=
  sweeps.flatMap fun sweep ↦ if sweep.registry = r then sweep.rest.map (·.address) else []

/-- A sweep over this registry has started a deleter that it has not counted. -/
def Sweep.Owes (sweep : Sweep α) (r : RegistryId) : Prop :=
  sweep.registry = r ∧ sweep.current.isSome

instance (sweep : Sweep α) (r : RegistryId) : Decidable (sweep.Owes r) :=
  inferInstanceAs (Decidable (_ ∧ _))

namespace Stock

def addresses (s : Stock n α) : Place → List Address
  | .linked id => (s.world.links id).map fun link ↦ .node link.1
  | .taken r => (s.taken.filter (·.1 = r)).map (·.2.address)
  | .parked r => (s.world.limbo r).entries.map (·.address)
  | .draining r => rests r s.sweeps
  | .lost r => rests r s.world.cutShort
  | .freed => s.world.started

def count (s : Stock n α) (a : Address) (p : Place) : Nat := (s.addresses p).count a

/-- The deleters that sweeps over a registry started and did not count, because they are running or
ended in a fault. -/
def uncounted (s : Stock n α) (r : RegistryId) : Nat :=
  s.sweeps.countP (·.Owes r) + s.world.cutShort.countP (·.Owes r)

def waiting (s : Stock n α) (r : RegistryId) : Nat :=
  (s.addresses (.parked r)).length + (s.addresses (.draining r)).length +
    (s.addresses (.lost r)).length + s.uncounted r

end Stock

/-- What an effect disturbs: a slot that it overwrites, a sweep that it cuts short with what the
sweep still had to look at, a stack that is being dropped, or a node that is leaked with its
stack. -/
inductive Mark (n : Nat) where
  | slot (slot : Handle n)
  | cut (r : RegistryId) (rest : List Address)
  | drop (id : StackId)
  | leak (node : NodeId)

/-- One change leads from `s` to the stock at the end and disturbs what is marked. -/
inductive Effect (s : Stock n α) : List (Mark n) → Stock n α → Prop
  | aside {touched : List (Handle n)} {world : World n α}
      (haside : s.world.Aside touched world) : Effect s (touched.map .slot) { s with world }
  | addRegistry : Effect s [] { s with world := s.world.addRegistry }
  | addStack {r : RegistryId} (hregistry : (s.world.registryAt? r).isSome) :
      Effect s [] { s with world := s.world.addStack r }
  | addObject (program : List (Command α)) :
      Effect s [] { s with world := s.world.addObject program }
  | push {id : StackId} {stack : Stack} (hstack : s.world.stack? id = some stack) (value : α) :
      Effect s [] { s with world := (s.world.push id stack value).2 }
  /-- A pop takes the top node out of its stack. -/
  | unlink {id : StackId} {stack : Stack} {node : NodeId} {contents : Node α}
      (hstack : s.world.stack? id = some stack)
      (htop : s.world.top? stack = some (node, contents)) :
      Effect s [] { s with
        world := s.world.setHead id contents.next
        taken := (stack.registry, .ofNode node) :: s.taken }
  /-- An object is handed over, which happens to each at most once. -/
  | handOver {r : RegistryId} {o : ObjectId} {object : Object α}
      (hregistry : (s.world.registryAt? r).isSome) (hobject : s.world.objects[o]? = some object)
      (hfresh : object.retired = false) :
      Effect s [] { s with
        world := s.world.markRetired o
        taken := (r, ⟨.object o, object.program⟩) :: s.taken }
  | park {r : RegistryId} {entry : Entry α} {taken : List (RegistryId × Entry α)}
      (htaken : s.taken = (r, entry) :: taken) :
      Effect s [] { s with world := s.world.modifyLimbo r (·.park entry), taken }
  | free {r : RegistryId} {entry : Entry α} {taken : List (RegistryId × Entry α)}
      (htaken : s.taken = (r, entry) :: taken)
      (hfree : s.world.isProtected r (some entry.address) = false) :
      Effect s [] { s with world := s.world.start entry, taken }
  | detach (r : RegistryId) :
      Effect s [] { s with
        world := (s.world.detachLimbo r).2
        sweeps := { registry := r, rest := (s.world.detachLimbo r).1 } :: s.sweeps }
  | putBack {sweep : Sweep α} {sweeps : List (Sweep α)} {entry : Entry α} {rest : List (Entry α)}
      (hsweeps : s.sweeps = sweep :: sweeps) (hrest : sweep.rest = entry :: rest) :
      Effect s [] { s with
        world := s.world.modifyLimbo sweep.registry (·.putBack entry)
        sweeps := { sweep with rest } :: sweeps }
  | sweep {sweep : Sweep α} {sweeps : List (Sweep α)} {entry : Entry α} {rest : List (Entry α)}
      (hsweeps : s.sweeps = sweep :: sweeps) (hcurrent : sweep.current = none)
      (hrest : sweep.rest = entry :: rest)
      (hfree : s.world.isProtected sweep.registry (some entry.address) = false) :
      Effect s [] { s with
        world := s.world.start entry
        sweeps := { sweep with current := some entry, rest } :: sweeps }
  | countFreed {sweep : Sweep α} {sweeps : List (Sweep α)}
      (hsweeps : s.sweeps = sweep :: sweeps) (hcurrent : sweep.current.isSome) :
      Effect s [] { s with
        world := s.world.modifyLimbo sweep.registry (·.countFreed)
        sweeps := { sweep with current := none, freed := sweep.freed + 1 } :: sweeps }
  | finish {sweep : Sweep α} {sweeps : List (Sweep α)}
      (hsweeps : s.sweeps = sweep :: sweeps) (hcurrent : sweep.current = none)
      (hrest : sweep.rest = []) : Effect s [] { s with sweeps }
  | cut {sweep : Sweep α} {sweeps : List (Sweep α)} (hsweeps : s.sweeps = sweep :: sweeps) :
      Effect s [.cut sweep.registry (sweep.rest.map (·.address))] { s with
        world := { s.world with cutShort := sweep :: s.world.cutShort }
        sweeps }
  /-- The top node of a stack is freed where it is. -/
  | discard {id : StackId} {stack : Stack} {node : NodeId} {contents : Node α}
      (hstack : s.world.stack? id = some stack)
      (htop : s.world.top? stack = some (node, contents)) :
      Effect s [.drop id]
        { s with world := (s.world.setHead id contents.next).start (.ofNode node) }
  /-- A stack is gone, and with it the nodes that are still linked. -/
  | forget (id : StackId) :
      Effect s (.drop id :: (s.world.links id).map fun link ↦ .leak link.1)
        { s with world := s.world.forget id }

/-- Effects one after another, with all that they disturb. -/
inductive Effects (s : Stock n α) : List (Mark n) → Stock n α → Prop
  | refl : Effects s [] s
  | tail {marks marks' : List (Mark n)} {t u : Stock n α} (heffects : Effects s marks t)
      (heffect : Effect t marks' u) : Effects s (marks ++ marks') u

namespace Effects

variable {s t u : Stock n α} {marks marks' : List (Mark n)}

theorem single (heffect : Effect s marks t) : Effects s marks t := by
  have h := Effects.refl.tail heffect
  rwa [List.nil_append] at h

theorem trans (hst : Effects s marks t) (htu : Effects t marks' u) :
    Effects s (marks ++ marks') u := by
  induction htu with
  | refl =>
    rw [List.append_nil]
    exact hst
  | tail _ heffect ih =>
    rw [← List.append_assoc]
    exact ih.tail heffect

end Effects

end Reclaim.Hazard
