import Reclaim.Hazard.Session.Basic

/-!
# The end of a session

At the end everything is taken down: explicit slots, threads, stacks and registries.  What remains
then is shown, nodes that were never freed and objects whose deleters never ran.
-/

namespace Reclaim.Hazard.Session

variable {n : Nat} {α : Type}

/-- How a registry ended: its name, what was claimed and pending before, and for the process-wide
registry, which is not dropped but reclaimed, how many entries that freed and what is pending. -/
structure Closing where
  name : String
  claimed : Nat
  pending : UInt64
  reclaimed : Option (Nat × UInt64) := none

/-- All that the end of a session shows: each stack and each registry with its events, the nodes
never freed and the objects lost. -/
structure Finale (α : Type) where
  «stacks» : List (List (Event α) × Ending String)
  registries : List (List (Event α) × Ending Closing)
  live : List NodeId
  lost : List String

def dropStacks [Destructor α] (s : Session n α) :
    List (StackId × String) → Session n α × List (List (Event α) × Ending String)
  | [] => (s, [])
  | (id, name) :: rest =>
    let (world, result) := s.world.dropStack id
    let reply : Reply n α String := s.conclude world (.ofExcept (result.map fun _ ↦ name))
    let (s, replies) := reply.session.dropStacks rest
    (s, (reply.events, reply.ending) :: replies)

/-- Takes the programs from the deleters of what is parked in a registry: at the end of a session
nothing is left for them to work on. -/
def disarm (w : World n α) (r : RegistryId) : World n α :=
  w.modifyLimbo r fun list ↦
    { list with entries := list.entries.map fun entry ↦ { entry with program := [] } }

def closeRegistries (s : Session n α) :
    List (String × RegistryId) → Session n α × List (List (Event α) × Ending Closing)
  | [] => (s, [])
  | (name, r) :: rest =>
    let pending (w : World n α) : UInt64 := ((w.registryAt? r).map (·.limbo.pending)).getD 0
    let before : Closing :=
      ⟨name, ((s.world.registryAt? r).map (·.claimed)).getD 0, pending s.world, none⟩
    let reply : Reply n α Closing :=
      if r = processWide then
        match s.world.run 0 (.reclaim r) with
        | (world, .ok (.reclaimed freed)) =>
          s.conclude world (.answered { before with reclaimed := some (freed, pending world) })
        | (world, .ok _) => s.conclude world .refused
        | (world, .error fault) => s.conclude world (.faulted fault)
      else
        let (world, result) := (disarm s.world r).close 0 r
        s.conclude world (.ofExcept (result.map fun _ ↦ before))
    let (s, replies) := reply.session.closeRegistries rest
    (s, (reply.events, reply.ending) :: replies)

/-- Ends the session: all explicit slots are given up, all threads end, the stacks are dropped, and
then the registries. -/
def finish [Destructor α] (s : Session n α) : Finale α :=
  let world := s.world.releaseHandles fun _ ↦ true
  let world := s.threads.foldr (fun thread w ↦ (w.exit thread.2 []).1) world
  let left := (s.stacks.zipIdx.map fun (name, id) ↦ (id, name)).filter fun (id, _) ↦
    (world.stack? id).isSome
  let (s, dropped) := dropStacks { s with world } left
  let (s, registries) := s.closeRegistries s.registries
  { «stacks» := dropped
    registries
    live := s.world.heap.live
    lost := (s.world.lost.map fun object ↦ s.objects.getD object "").mergeSort (· ≤ ·) }

end Reclaim.Hazard.Session
