import Reclaim.Hazard.Session.Basic

/-!
# The steps of a session

Each request is resolved from names to the parts of the world, refused if that fails, and carried
out by a command of a thread, by making or ending something, or by looking at the world.
-/

namespace Reclaim.Hazard.Session

variable {n : Nat} {α : Type}

def claim (s : Session n α) (slot thread : String) (command : Command α) : Reply n α (Reading α) :=
  if (s.slot? slot).isSome then
    s.refuse
  else
    let id := s.world.handles.length
    let reply := s.commandOn thread command
    { reply with session :=
        if reply.session.world.handles.length = id then reply.session
        else { reply.session with
          slots := (slot, id) :: reply.session.slots.filter (·.1 != slot) } }

/-- The program of an action, if it names what exists.  The process-wide registry is not for objects
with an action, so it can be neither reclaimed nor retired into. -/
def program? (s : Session n α) (object : String) : Action → Option (List (Command α))
  | .raise => some [.raise (.deleterBomb object)]
  | .pop stack => do
    let (id, stack) ← s.stack? stack
    return [.pop (cellOf stack) id]
  | .reclaim registry => do
    let r ← (s.registryAt? registry).filter (· ≠ processWide)
    return [.reclaim r]
  | .retire registry target => do
    let r ← (s.registryAt? registry).filter (· ≠ processWide)
    let o ← s.objects.idxOf? target
    return [.retire r (some o)]

/-- Whether a registry may have this name: the process-wide one has its own capacity. -/
def allowsName (_ : Session n α) (name : String) : Bool :=
  name != processWideName || n == processWideCapacity

def popTimes (t : ThreadId) (stack : StackId) (handle : HandleId) :
    Nat → World n α → World n α × Ending (List (Option α))
  | 0, w => (w, .answered [])
  | times + 1, w =>
    match w.run t (.popUsing stack handle) with
    | (w, .error fault) => (w, .faulted fault)
    | (w, .ok (.popped value)) =>
      match popTimes t stack handle times w with
      | (w, .answered values) => (w, .answered (value :: values))
      | other => other
    | (w, .ok _) => (w, .refused)

def exit (s : Session n α) (thread : String) (pops : List String) : Reply n α (Reading α) :=
  match s.threads.lookup thread, pops.mapM s.stack? with
  | some t, some popped =>
    let (world, results) := s.world.exit t (popped.map fun (id, stack) ↦ (cellOf stack, id))
    let reply : Reply n α (Reading α) := s.conclude world <| .answered <| .exited <|
      results.map fun result ↦ result.map fun
        | .popped value => value
        | _ => none
    { reply with session :=
        { reply.session with threads := s.threads.filter (·.1 != thread) } }
  | _, _ => s.refuse

def perform [Destructor α] [IntCast α] (s : Session n α) : Request α → Reply n α (Reading α)
  | .registry name =>
    if (s.registryAt? name).isSome || !s.allowsName name then s.refuse
    else if name = processWideName then
      { s with registries := s.registries ++ [(name, processWide)] }.answer .done
    else
      let r := s.world.registries.length
      { s with
        world := s.world.addRegistry
        registries := s.registries ++ [(name, r)] }.answer .done
  | .stack name registry =>
    match s.registryAt? registry with
    | none => s.refuse
    | some r =>
      if s.stacks.contains name then s.refuse
      else
        { s with world := s.world.addStack r, «stacks» := s.stacks ++ [name] }.answer (.flag true)
  | .claim slot registry thread =>
    match s.registryAt? registry with
    | none => s.refuse
    | some r => s.claim slot thread (.claim r)
  | .tryClaim slot registry thread =>
    match s.registryAt? registry with
    | none => s.refuse
    | some r => s.claim slot thread (.tryClaim r)
  | .release slot =>
    match s.slot? slot with
    | none => s.refuse
    | some (id, slot) => s.command slot.thread (.release id)
  | .clear slot =>
    match s.slot? slot with
    | none => s.refuse
    | some (id, slot) => s.command slot.thread (.publish id none)
  | .protect slot target =>
    match s.slot? slot, s.target? target with
    | some (id, slot), some address => s.command slot.thread (.publish id address)
    | _, _ => s.refuse
  | .protectTop slot stack =>
    match s.slot? slot, s.stack? stack with
    | some (id, slot), some (_, stack) =>
      let reply := s.command slot.thread (.publish id (stack.head.map .node))
      { reply with ending := .answered (.node stack.head) }
    | _, _ => s.refuse
  | .slotInfo slot =>
    match s.slot? slot with
    | none => s.refuse
    | some (_, slot) => s.answer (s.showSlot slot)
  | .isProtected registry target =>
    match s.registryAt? registry, s.target? target with
    | some r, some address => s.answer (.flag (s.world.isProtected r address))
    | _, _ => s.refuse
  | .claimed registry =>
    match (s.registryAt? registry).bind s.world.registryAt? with
    | none => s.refuse
    | some registry => s.answer (.count registry.claimed)
  | .pending registry =>
    match (s.registryAt? registry).bind s.world.registryAt? with
    | none => s.refuse
    | some registry => s.answer (.pending registry.limbo.pending)
  | .capacity registry =>
    match s.registryAt? registry with
    | none => s.refuse
    | some _ => s.answer (.count n)
  | .inspect registry =>
    match (s.registryAt? registry).bind s.world.registryAt? with
    | none => s.refuse
    | some registry => s.answer (.registry (s.view registry))
  | .object name action =>
    match action.mapM (s.program? name) with
    | none => s.refuse
    | some program =>
      if (s.address? name).isSome then s.refuse
      else { s with
        world := s.world.addObject (program.getD [])
        objects := s.objects ++ [name] }.answer .done
  | .retire registry target thread =>
    match s.registryAt? registry, target with
    | none, _ => s.refuse
    | some r, none => s.commandOn thread (.retire r none)
    | some r, some target =>
      match s.objects.idxOf? target with
      | none => s.refuse
      | some o =>
        if r = processWide && (s.world.objects[o]?).any (!·.program.isEmpty) then s.refuse
        else s.commandOn thread (.retire r (some o))
  | .reclaim registry thread =>
    match s.registryAt? registry with
    | none => s.refuse
    | some r => s.commandOn thread (.reclaim r)
  | .push stack value thread =>
    match s.stack? stack with
    | none => s.refuse
    | some (id, _) => s.commandOn thread (.push id value)
  | .pushRange stack lower upper =>
    match s.stack? stack with
    | none => s.refuse
    | some (id, _) =>
      let world := (List.range (upper - lower).toNat).foldl
        (fun w (i : Nat) ↦ (w.run 0 (.push id ((lower + i : Int) : α))).1) s.world
      s.conclude world (.answered .done)
  | .isEmpty stack =>
    match s.stack? stack with
    | none => s.refuse
    | some (_, stack) => s.answer (.flag stack.head.isNone)
  | .chain stack =>
    match s.stack? stack with
    | none => s.refuse
    | some (_, stack) =>
      s.answer (.chain ((s.world.chain stack).map fun (node, contents) ↦ (node, contents.value)))
  | .popUsing stack slot =>
    match s.stack? stack, s.slot? slot with
    | some (stack, _), some (id, slot) => s.command slot.thread (.popUsing stack id)
    | _, _ => s.refuse
  | .popTimes stack slot times =>
    match s.stack? stack, s.slot? slot with
    | some (stack, _), some (id, slot) =>
      let (world, ending) := popTimes slot.thread stack id times s.world
      s.conclude world <| match ending with
        | .answered values => .answered (.poppedAll values)
        | .faulted fault => .faulted fault
        | .refused => .refused
    | _, _ => s.refuse
  | .pop stack thread =>
    match s.stack? stack with
    | none => s.refuse
    | some (id, stack) => s.commandOn thread (.pop (cellOf stack) id)
  | .unregister thread => s.commandOn thread (.unregister .processWide)
  | .exit thread pops => s.exit thread pops
  | .dropStack stack thread =>
    match s.stack? stack with
    | none => s.refuse
    | some (id, _) =>
      let (_, s) := s.thread thread
      let (world, result) := s.world.dropStack id
      s.conclude world (.ofExcept (result.map fun _ ↦ .done))

end Reclaim.Hazard.Session
