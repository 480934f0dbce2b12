import Reclaim.Proofs.Hazard.Values

/-!
# Where values are

The values that are linked in stacks, those that pops hold and those that are destroyed are the
holdings of a machine. `Deals` says for each kind of move what it makes of them, and no move does
anything else.
-/

namespace Reclaim.Hazard

variable {n : Nat} {α : Type}

/-- What a move does with values: it pushes one, takes one out of a stack for a pop to hold, hands
out the one that the innermost pop holds, destroys all that pops hold, or destroys what is linked in
a stack as far as destructors do not fault. -/
inductive Dealing (α : Type) where
  | none
  | push (id : StackId) (value : α)
  | take (id : StackId) (value : α)
  | answer (value : α)
  | fault
  | drop (id : StackId) (gone spared : List α)

/-- Where values are: linked in stacks, held by pops, handed out by the answers of pops, or
destroyed. -/
structure Holdings (α : Type) where
  linked : StackId → List α
  held : List α
  answered : List α
  destroyed : List α

/-- What a dealing makes of the holdings. -/
inductive Deals (h : Holdings α) : Dealing α → Holdings α → Prop
  | none : Deals h .none h
  | push (id : StackId) (value : α) :
      Deals h (.push id value)
        { h with linked := fun j ↦ if id = j then value :: h.linked j else h.linked j }
  | take {id : StackId} {value : α} {rest : List α} (hlinked : h.linked id = value :: rest) :
      Deals h (.take id value)
        { h with
          linked := fun j ↦ if id = j then rest else h.linked j
          held := value :: h.held }
  | answer {value : α} {held : List α} (hheld : h.held = value :: held) :
      Deals h (.answer value) { h with held, answered := value :: h.answered }
  | fault : Deals h .fault { h with held := [], destroyed := h.held.reverse ++ h.destroyed }
  | drop {id : StackId} {gone spared : List α} (hlinked : h.linked id = gone ++ spared) :
      Deals h (.drop id gone spared)
        { h with
          linked := fun j ↦ if id = j then [] else h.linked j
          destroyed := gone.reverse ++ h.destroyed }

def Machine.holdings (m : Machine n α) : Holdings α :=
  ⟨m.world.valuesIn, valuesOf m.frames, m.world.answered, m.world.destroyed⟩

def Turn.holdings (turn : Turn n α) : Holdings α :=
  ⟨turn.world.valuesIn, valuesOf turn.frames, turn.answered?.toList ++ turn.world.answered,
    turn.world.destroyed⟩

namespace Move

/-- The value that a pop has taken, if there is one more pop than before. -/
def taken? (move : Move n α) : Option α :=
  if (valuesOf move.before.frames).length < (valuesOf move.turn.frames).length then
    (valuesOf move.turn.frames).head?
  else
    none

def commanded (move : Move n α) (command : Command α) : Dealing α :=
  match command.pushes?, command.pops?, move.taken? with
  | some (id, value), _, _ =>
    if (move.before.world.stack? id).isSome then .push id value else .none
  | none, some id, some value => .take id value
  | _, _, _ => .none

section

variable {move : Move n α} {command : Command α} {id : StackId} {value : α}

theorem commanded_push {stack : Stack} (hpushes : command.pushes? = some (id, value))
    (hstack : move.before.world.stack? id = some stack) :
    move.commanded command = .push id value := by
  simp only [commanded, hpushes, hstack, Option.isSome_some, if_true]

theorem commanded_pop (hpushes : command.pushes? = none) (hpops : command.pops? = some id)
    (htaken : move.taken? = some value) : move.commanded command = .take id value := by
  simp only [commanded, hpushes, hpops, htaken]

theorem commanded_of_not_taken (htaken : move.taken? = none)
    (hpushes : ∀ id value, command.pushes? = some (id, value) →
      move.before.world.stack? id = none) : move.commanded command = .none := by
  cases hcommand : command.pushes? with
  | none =>
    simp only [commanded, hcommand, htaken]
    cases command.pops? <;> rfl
  | some pushed =>
    have hgone := hpushes pushed.1 pushed.2 hcommand
    simp only [commanded, hcommand, hgone, Option.isSome_none, if_neg Bool.false_ne_true]

end

def dealing [Destructor α] (move : Move n α) : Dealing α :=
  match move.deed, move.before.frames with
  | .dropStack id, _ =>
    .drop id (gone (move.before.world.valuesIn id)) (spared (move.before.world.valuesIn id))
  | .proceed, .pop ⟨_, value, _, .answer⟩ :: _ => .answer value
  | _, _ =>
    if move.turn.Faulted then .fault
    else move.command?.elim .none fun (_, command) ↦ move.commanded command

theorem dealing_step [Destructor α] {w : World n α} {t : ThreadId} {frame : Frame n α}
    {frames : List (Frame n α)} {turn : Turn n α}
    (hcommand : ∀ command rest, frame ≠ .deleter (command :: rest))
    (hanswer : ∀ r value hold, frame ≠ .pop ⟨r, value, hold, .answer⟩) :
    (Move.mk ⟨w, t, frame :: frames⟩ .proceed turn).dealing =
      if turn.Faulted then .fault else .none := by
  cases frame with
  | deleter program =>
    cases program with
    | nil => rfl
    | cons command rest => exact absurd rfl (hcommand command rest)
  | sweep sweep => rfl
  | pop popping =>
    obtain ⟨r, value, hold, stage⟩ := popping
    cases stage with
    | answer => exact absurd rfl (hanswer r value hold)
    | _ => rfl

end Move

theorem Turn.frames_of_faulted {turn : Turn n α} (hfaulted : turn.Faulted) : turn.frames = [] := by
  cases turn with
  | next m => exact hfaulted.elim
  | done world result => rfl

/-- When a pop ends, its answer hands out the value it held. -/
theorem Machine.holdings_resume (w : World n α) (t : ThreadId) {frames : List (Frame n α)}
    {popping : Popping n α} (hcalled : Called (.pop popping :: frames)) :
    (resume (w.giveBack t popping.hold) t (.popped (some popping.value)) frames).holdings =
      ⟨w.valuesIn, valuesOf frames, popping.value :: w.answered, w.destroyed⟩ := by
  let v := w.giveBack t popping.hold
  have hspares : w.Spares v := w.spares_giveBack t popping.hold
  have hvalues : v.valuesIn = w.valuesIn := by
    funext id
    rw [World.valuesIn, hspares.links, ← World.valuesIn]
  rw [← hvalues, ← hspares.answered, ← hspares.destroyed]
  rcases hcalled.1 with rfl | ⟨rest, outer, rfl⟩
  · rfl
  · rfl

section

variable [Destructor α] {m : Machine n α} {deed : Deed α} {turn : Turn n α}

/-- A move leaves the links of a stack as they are, unless it changes the head of the stack. -/
theorem Machine.Sound.valuesIn_eq (hm : m.Sound) (hcarry : m.carryOut deed = some turn)
    {id : StackId} (hstack : turn.world.stack? id = m.world.stack? id) :
    turn.world.valuesIn id = m.world.valuesIn id := by
  obtain ⟨marks, -, heffects, -⟩ := hm.marked hcarry
  have htidy : m.world.Tidy := hm.stock.tidy
  have htidy' : turn.world.Tidy := (heffects.sound hm.stock).tidy
  rw [World.valuesIn, World.valuesIn, World.links_of_older htidy htidy' heffects.older hstack]

/-- A turn that touches no stack deals with no value, but for a fault. -/
theorem Turn.Carries.deals (hm : m.Sound) (hcarry : m.carryOut deed = some turn)
    {frames : List (Frame n α)} (hcarries : turn.Carries m.world frames)
    (hvalues : valuesOf frames = valuesOf m.frames) :
    Deals m.holdings (if turn.Faulted then .fault else .none) turn.holdings := by
  have hlinks : turn.world.valuesIn = m.world.valuesIn := by
    funext id
    apply hm.valuesIn_eq hcarry
    rw [World.stack?, hcarries.stacks, World.stack?]
  by_cases hfaulted : turn.Faulted
  · have hdestroyed := hcarries.faulted hfaulted
    have hframes := turn.frames_of_faulted hfaulted
    rw [if_pos hfaulted, Turn.holdings, hlinks, hcarries.answered, hdestroyed, hframes, hvalues]
    exact .fault
  · obtain ⟨hheld, hdestroyed⟩ := hcarries.fine hfaulted
    rw [if_neg hfaulted, Turn.holdings, hlinks, hcarries.answered, hdestroyed, hheld, hvalues]
    exact .none

/-- A command pushes a value, takes one out, or deals with none. -/
theorem Machine.deals_execute (hm : m.Sound) (hcarry : m.carryOut deed = some turn)
    {t : ThreadId} {command : Command α} {frames : List (Frame n α)}
    (hturn : turn = Machine.execute m.world t command frames)
    (hvalues : valuesOf frames = valuesOf m.frames) :
    Deals m.holdings
      (if turn.Faulted then .fault else (Move.mk m deed turn).commanded command)
      turn.holdings := by
  have htidy : m.world.Tidy := hm.stock.tidy
  rcases (executes m.world t frames command).values with
    ⟨id, value, stack, hpushes, hstack, hexecute⟩ | ⟨id, hpops, htakes⟩ | ⟨hpushes, hcarries⟩
  · rw [hexecute] at hturn
    subst hturn
    let w := (m.world.push id stack value).2
    have hanswer : (Answer.pushed m.world.heap.size : Answer α).value? = none := rfl
    have hspares := spares_resume w t hanswer frames
    have hlinks : (resume w t (.pushed m.world.heap.size) frames).world.valuesIn = fun j ↦
        if id = j then value :: m.world.valuesIn j else m.world.valuesIn j := by
      funext j
      rw [World.valuesIn, hspares.links, World.links_push htidy hstack]
      split <;> rfl
    rw [if_neg (not_faulted_resume _ _ _ _), Move.commanded_push hpushes hstack, Turn.holdings,
      hlinks, answered?_resume w t hanswer, hspares.answered, hspares.destroyed, valuesOf_resume,
      hvalues]
    exact .push id value
  · rw [← hturn] at htakes
    obtain ⟨stack, node, contents, v, t', r, hold, hstack, htop, hspares, rfl⟩ := htakes
    have hpushes : command.pushes? = none := by cases command <;> first | rfl | cases hpops
    have hcons := htidy.links_eq_cons hstack htop
    have hlinks : v.valuesIn = fun j ↦ if id = j then (m.world.valuesIn id).tail
        else m.world.valuesIn j := by
      funext j
      rw [World.valuesIn, hspares.links, World.links_setHead htidy hstack htop]
      split
      · next hj =>
        subst hj
        exact List.map_tail
      · rfl
    have htaken : (Move.mk m deed (.next ⟨v, t', .pop ⟨r, contents.value, hold, .retire node⟩ ::
        frames⟩)).taken? = some contents.value := by
      rw [Move.taken?, if_pos]
      · rfl
      · change (valuesOf m.frames).length < (contents.value :: valuesOf frames).length
        rw [hvalues, List.length_cons]
        exact Nat.lt_succ_self _
    rw [if_neg (show ¬ Turn.Faulted (.next _) from not_false),
      Move.commanded_pop hpushes hpops htaken]
    have hheld : valuesOf (.pop ⟨r, contents.value, hold, .retire node⟩ :: frames) =
        contents.value :: valuesOf m.frames := congrArg (contents.value :: ·) hvalues
    change Deals m.holdings _ ⟨v.valuesIn, valuesOf (.pop _ :: frames), v.answered, v.destroyed⟩
    rw [hlinks, hheld, hspares.answered, hspares.destroyed]
    have hlinked : m.world.valuesIn id = contents.value :: (m.world.valuesIn id).tail := by
      rw [World.valuesIn, hcons]
      rfl
    exact .take hlinked
  · rw [← hturn] at hcarries
    have hdeals := hcarries.deals hm hcarry hvalues
    by_cases hfaulted : turn.Faulted
    · rwa [if_pos hfaulted] at hdeals ⊢
    · rw [if_neg hfaulted] at hdeals ⊢
      have hnone : (Move.mk m deed turn).commanded command = .none := by
        have htaken : (Move.mk m deed turn).taken? = none := by
          rw [Move.taken?, if_neg]
          rw [(hcarries.fine hfaulted).1, hvalues]
          exact Nat.lt_irrefl _
        exact Move.commanded_of_not_taken htaken hpushes
      rwa [hnone]

/-- Every move deals with values as its dealing says. -/
theorem Move.deals (hm : m.Sound) (hcalled : Called m.frames)
    (hcarry : m.carryOut deed = some turn) :
    Deals m.holdings (Move.mk m deed turn).dealing turn.holdings := by
  have hfull := hcarry
  obtain ⟨w, t, frames⟩ := m
  cases frames with
  | nil =>
    rcases World.perform_values hcarry with ⟨t', command, rfl, hturn⟩ | ⟨id, rfl, hturn⟩ |
      ⟨v, rfl, hlinks, hdestroyed, hanswered, hissue, hdrop⟩
    · exact Machine.deals_execute hm hfull hturn rfl
    · obtain ⟨hstack, hdestroyed, hanswered, -⟩ := w.destroyed_dropStack id
      have hvalues : turn.world.valuesIn = fun j ↦ if id = j then [] else w.valuesIn j := by
        funext j
        have hafter : turn.world.stack? j = if id = j then none else w.stack? j := by
          rw [hturn]
          exact hstack j
        by_cases hj : id = j
        · rw [if_pos hj] at hafter ⊢
          rw [World.valuesIn, World.links_of_dropped hafter]
          rfl
        · rw [if_neg hj] at hafter ⊢
          exact hm.valuesIn_eq hfull hafter
      have hsilent : turn.answered? = none := by
        rw [hturn]
        cases (w.dropStack id).2 <;> rfl
      have hafter : turn.holdings = ⟨fun j ↦ if id = j then [] else w.valuesIn j, [],
          w.answered, (gone (w.valuesIn id)).reverse ++ w.destroyed⟩ := by
        rw [Turn.holdings, hvalues, hsilent, hturn, ← hdestroyed, ← hanswered]
        rfl
      rw [hafter]
      exact .drop (gone_append_spared _).symm
    · have hdealing : (Move.mk ⟨w, t, []⟩ deed (.done v (.ok .done))).dealing = .none := by
        cases deed with
        | issue t command => exact absurd rfl (hissue t command)
        | dropStack id => exact absurd rfl (hdrop id)
        | _ => rfl
      have hvalues : v.valuesIn = w.valuesIn := by
        funext id
        rw [World.valuesIn, World.valuesIn, hlinks]
      have hafter : (Turn.done v (.ok .done) : Turn n α).holdings =
          ⟨w.valuesIn, [], w.answered, w.destroyed⟩ := by
        rw [← hvalues, ← hanswered, ← hdestroyed]
        rfl
      rw [hdealing, hafter]
      exact .none
  | cons frame frames =>
    cases deed with
    | proceed =>
      obtain rfl := Option.some.inj hcarry
      rcases Machine.step_values w t frame frames with
        ⟨command, rest, rfl⟩ | ⟨r, value, hold, rfl, hstep⟩ | ⟨hcommand, hanswer, hcarries⟩
      · exact Machine.deals_execute hm hfull rfl rfl
      · have hafter := Machine.holdings_resume w t hcalled
        rw [← hstep] at hafter
        rw [hafter]
        exact .answer rfl
      · rw [Move.dealing_step hcommand hanswer]
        exact hcarries.deals hm hfull rfl
    | _ => cases hcarry

end

end Reclaim.Hazard
