import Reclaim.Proofs.Hazard.Runs

/-!
# The custody of a registry

An address that is retired to a registry stays with it: parked, still to come in a sweep, or lost
with one, until its deleter is started. Here it is said which moves retire, and that the places of
a registry keep what was retired to it, whatever happens.
-/

namespace Reclaim.Hazard

variable {n : Nat} {α : Type} {s t : Stock n α} {marks : List (Mark n)} {a : Address}
  {r : RegistryId}

/-- What is in one of some places stays in them if no route leads out of them. -/
theorem Shift.follow {moved : List Address} {src dst : Option Place}
    (hshift : Shift s t moved src dst) {P : Place → Prop}
    (hclosed : ∀ p, src = some p → P p → a ∈ moved → ∃ q, dst = some q ∧ P q)
    (hs : ∃ p, P p ∧ a ∈ s.addresses p) : ∃ p, P p ∧ a ∈ t.addresses p := by
  obtain ⟨p, hp, hmem⟩ := hs
  by_cases hsrc : src = some p
  · rw [hshift.left p hsrc] at hmem
    rcases List.mem_append.mp hmem with hmem | hmem
    · obtain ⟨q, hdst, hq⟩ := hclosed p hsrc hp hmem
      exact ⟨q, hq, hshift.entered q hdst ▸ List.mem_append_left _ hmem⟩
    · exact ⟨p, hp, hmem⟩
  · refine ⟨p, hp, ?_⟩
    by_cases hdst : dst = some p
    · exact hshift.entered p hdst ▸ List.mem_append_right moved hmem
    · rwa [hshift.stayed p hsrc hdst]

def Place.Keeps (r : RegistryId) : Place → Prop
  | .parked q | .draining q | .lost q => q = r
  | .freed => True
  | _ => False

def Stock.Keeps (s : Stock n α) (r : RegistryId) (a : Address) : Prop :=
  ∃ p : Place, p.Keeps r ∧ a ∈ s.addresses p

/-- The address was retired to the registry, or is about to be. -/
def Stock.Holds (s : Stock n α) (r : RegistryId) (a : Address) : Prop :=
  ∃ p : Place, (p = .taken r ∨ p.Keeps r) ∧ a ∈ s.addresses p

/-- No route leads out of what a registry keeps. -/
theorem Route.keeps {moved : List Address} {p : Place} {dst : Option Place}
    (hroute : Route s marks moved (some p) dst) (hp : p.Keeps r) :
    ∃ q : Place, dst = some q ∧ q.Keeps r := by
  cases hroute with
  | detach q => exact ⟨_, rfl, hp⟩
  | putBack q b => exact ⟨_, rfl, hp⟩
  | cut q => exact ⟨_, rfl, hp⟩
  | sweep hfree => exact ⟨_, rfl, trivial⟩
  | _ => exact hp.elim

/-- What is taken for a registry can go to what the registry keeps and nowhere else. -/
theorem Route.taken {moved : List Address} {dst : Option Place}
    (hroute : Route s marks moved (some (.taken r)) dst) :
    ∃ q : Place, dst = some q ∧ q.Keeps r := by
  cases hroute with
  | park q b => exact ⟨_, rfl, rfl⟩
  | free hfree => exact ⟨_, rfl, trivial⟩

theorem Effect.keeps (heffect : Effect s marks t) (hs : s.Sound) (hkeeps : s.Keeps r a) :
    t.Keeps r a := by
  obtain ⟨moved, src, dst, hroute, hshift⟩ := heffect.shift hs
  refine hshift.follow (fun p hsrc hp _ ↦ ?_) hkeeps
  subst hsrc
  exact hroute.keeps hp

theorem Effect.holds (heffect : Effect s marks t) (hs : s.Sound) (hholds : s.Holds r a) :
    t.Holds r a := by
  obtain ⟨moved, src, dst, hroute, hshift⟩ := heffect.shift hs
  refine hshift.follow (fun p hsrc hp _ ↦ ?_) hholds
  subst hsrc
  obtain ⟨q, hdst, hq⟩ : ∃ q : Place, dst = some q ∧ q.Keeps r := by
    rcases hp with rfl | hp
    · exact hroute.taken
    · exact hroute.keeps hp
  exact ⟨q, hdst, Or.inr hq⟩

/-- What a registry holds when nothing is taken, it keeps. -/
theorem Stock.Holds.keeps (hholds : s.Holds r a) (htaken : s.taken = []) : s.Keeps r a := by
  obtain ⟨p, rfl | hp, hmem⟩ := hholds
  · rw [addresses, htaken] at hmem
    cases hmem
  · exact ⟨p, hp, hmem⟩

theorem Effects.keeps (heffects : Effects s marks t) (hs : s.Sound) (hkeeps : s.Keeps r a) :
    t.Keeps r a :=
  heffects.kept hs (fun _ _ heffect ↦ heffect.keeps) hkeeps

theorem Effects.holds (heffects : Effects s marks t) (hs : s.Sound) (hholds : s.Holds r a) :
    t.Holds r a :=
  heffects.kept hs (fun _ _ heffect ↦ heffect.holds) hholds

/-- The address was linked in the stack, which is over the registry or was dropped, and is still
linked there, taken out for the registry, or kept by it. -/
structure Stock.Belongs (s : Stock n α) (id : StackId) (r : RegistryId) (a : Address) : Prop where
  home : s.world.home? id = some r ∨ s.world.home? id = none ∧ id < s.world.stacks.length
  place : ∃ p : Place, (p = .linked id ∨ p = .taken r ∨ p.Keeps r) ∧ a ∈ s.addresses p

/-- An address goes on to belong to its stack and registry, unless it is leaked. -/
theorem Effect.belongs {id : StackId} (heffect : Effect s marks t) (hs : s.Sound)
    (hleak : ∀ node, a = .node node → .leak node ∉ marks) (hbelongs : s.Belongs id r a) :
    t.Belongs id r a where
  home := by
    rcases heffect.home? id with hsame | ⟨-, hgone⟩ | ⟨hnew, -⟩
    · rw [hsame]
      refine hbelongs.home.imp_right fun h ↦ ⟨h.1, ?_⟩
      exact Nat.lt_of_lt_of_le h.2 heffect.length_stacks
    · have hlt : id < s.world.stacks.length :=
        hbelongs.home.elim World.lt_length_of_home And.right
      exact Or.inr ⟨hgone, Nat.lt_of_lt_of_le hlt heffect.length_stacks⟩
    · have hlt : id < s.world.stacks.length :=
        hbelongs.home.elim World.lt_length_of_home And.right
      exact absurd hnew (Nat.ne_of_lt hlt)
  place := by
    obtain ⟨moved, src, dst, hroute, hshift⟩ := heffect.shift hs
    refine hshift.follow (fun p hsrc hp hmem ↦ ?_) hbelongs.place
    subst hsrc
    rcases hp with rfl | rfl | hp
    · cases hroute with
      | @unlink id stack hstack b =>
        have hhome : s.world.home? id = some stack.registry := by
          rw [World.home?, hstack]
          rfl
        have hr : stack.registry = r := by
          rcases hbelongs.home with hsome | ⟨hnone, -⟩
          · exact Option.some.inj (hhome.symm.trans hsome)
          · rw [hhome] at hnone
            cases hnone
        exact ⟨_, rfl, Or.inr (Or.inl (congrArg _ hr))⟩
      | discard => exact ⟨_, rfl, Or.inr (Or.inr trivial)⟩
      | forget =>
        obtain ⟨link, hlink, rfl⟩ := List.mem_map.mp hmem
        exact absurd (List.mem_cons_of_mem _ (List.mem_map_of_mem hlink)) (hleak link.1 rfl)
    · obtain ⟨q, hdst, hq⟩ := hroute.taken
      exact ⟨q, hdst, Or.inr (Or.inr hq)⟩
    · obtain ⟨q, hdst, hq⟩ := hroute.keeps hp
      exact ⟨q, hdst, Or.inr (Or.inr hq)⟩

theorem Effects.belongs {id : StackId} (heffects : Effects s marks t) (hs : s.Sound)
    (hleak : ∀ node, a = .node node → .leak node ∉ marks) (hbelongs : s.Belongs id r a) :
    t.Belongs id r a := by
  refine heffects.kept (P := (·.Belongs id r a)) hs ?_ hbelongs
  intro u v marks' hsub heffect hu
  exact heffect.belongs hu fun node ha hmem ↦ hleak node ha (hsub hmem)

/-- A pushed node belongs to its stack. -/
theorem Stock.belongs_push (hs : s.Sound) {id : StackId} {stack : Stack}
    (hstack : s.world.stack? id = some stack) (value : α) :
    Stock.Belongs { s with world := (s.world.push id stack value).2 } id stack.registry
      (.node s.world.heap.size) where
  home := by
    left
    show (s.world.push id stack value).2.home? id = _
    rw [World.home?, World.stack?_push, if_pos rfl, hstack]
    rfl
  place := by
    refine ⟨.linked id, Or.inl rfl, ?_⟩
    rw [Stock.addresses, World.links_push hs.tidy hstack, if_pos rfl]
    exact List.mem_cons_self

/-! ## Moves that retire -/

/-- What a move retires and to which registry: a command hands an object over for the first time, or
a pop has taken a node out of its stack. -/
def Move.retired? (move : Move n α) : Option (RegistryId × Address) :=
  match move.deed, move.before.frames with
  | .proceed, .pop ⟨r, _, _, .retire node⟩ :: _ => some (r, .node node)
  | _, _ =>
    match move.command? with
    | some (_, .retire r (some o)) =>
      if move.before.world.Retirable r o then some (r, .object o) else none
    | _ => none

def Move.Retires (move : Move n α) (r : RegistryId) (a : Address) : Prop :=
  move.retired? = some (r, a)

instance (move : Move n α) (r : RegistryId) (a : Address) : Decidable (move.Retires r a) :=
  inferInstanceAs (Decidable (_ = _))

theorem Move.Retires.cases {move : Move n α} (hretires : move.Retires r a) :
    (∃ t o, move.command? = some (t, .retire r (some o)) ∧ move.before.world.Retirable r o ∧
      a = .object o) ∨
    ∃ value hold node frames, move.deed = .proceed ∧ a = .node node ∧
      move.before.frames = .pop ⟨r, value, hold, .retire node⟩ :: frames := by
  unfold Retires retired? at hretires
  split at hretires
  · next r' value hold node frames hdeed hframes =>
    cases hretires
    exact Or.inr ⟨value, hold, node, frames, hdeed, rfl, hframes⟩
  · split at hretires
    · next t r' o hcommand =>
      split at hretires
      · next hretirable =>
        cases hretires
        exact Or.inl ⟨t, o, hcommand, hretirable, rfl⟩
      · cases hretires
    · cases hretires

/-- The move takes an address out of a stack over the registry, not by dropping a stack. -/
def Move.Pops (move : Move n α) (r : RegistryId) (a : Address) : Prop :=
  (∀ id, move.deed ≠ .dropStack id) ∧ ∃ id, move.before.world.home? id = some r ∧
    a ∈ move.before.stock.addresses (.linked id) ∧ a ∉ move.after.stock.addresses (.linked id)

namespace Machine

variable {w : World n α} {frames : List (Frame n α)}

theorem taken_eq_nil (hframes : ∀ frame ∈ frames, frame.Waiting) :
    frames.filterMap Frame.taken? = [] := by
  rw [List.filterMap_eq_nil_iff]
  intro frame hmem
  have hwaiting := hframes frame hmem
  cases frame with
  | pop popping =>
    obtain ⟨r, value, hold, stage⟩ := popping
    cases stage with
    | retire node => exact absurd rfl (hwaiting node)
    | _ => rfl
  | _ => rfl

theorem taken_resume (hframes : ∀ frame ∈ frames, frame.Waiting) (w : World n α) (t : ThreadId)
    (answer : Answer α) : (resume w t answer frames).stock.taken = [] := by
  have htaken := taken_eq_nil hframes
  unfold resume
  split
  · rfl
  · exact htaken
  · exact htaken
  · exact htaken

/-- When an entry is retired, nothing is taken any more. -/
theorem taken_retire (hframes : ∀ frame ∈ frames, frame.Waiting) (w : World n α) (t : ThreadId)
    (r : RegistryId) (entry : Entry α) : (retire w t r entry frames).stock.taken = [] := by
  unfold retire
  split
  · exact taken_resume hframes _ t _
  · exact taken_eq_nil (List.forall_mem_cons.mpr ⟨trivial, hframes⟩)

/-- A command that retires an object hands it over and then retires its entry. -/
theorem exists_retire_of_command (t : ThreadId) (frames : List (Frame n α)) {o : ObjectId}
    (hretirable : w.Retirable r o) :
    ∃ entry : Entry α, entry.address = .object o ∧
      execute w t (.retire r (some o)) frames = retire (w.markRetired o) t r entry frames ∧
      Effect (stockOf w frames) [] { stockOf (w.markRetired o) frames with
        taken := (r, entry) :: (stockOf (w.markRetired o) frames).taken } := by
  obtain ⟨object, hobject, hfresh⟩ := hretirable.exists_object
  exact ⟨⟨.object o, object.program⟩, rfl, execute_retire hretirable.1 hobject hfresh t,
    .handOver hretirable.1 hobject hfresh⟩

end Machine

variable [Destructor α] {m : Machine n α} {deed : Deed α} {turn : Turn n α}

/-- The move that carries out a command executes it outside the frames that wait. -/
theorem Move.exists_execute (hnested : Nested m.frames) (hcarry : m.carryOut deed = some turn)
    {t : ThreadId} {command : Command α}
    (hcommand : (Move.mk m deed turn).command? = some (t, command)) :
    ∃ frames, (∀ frame ∈ frames, frame.Waiting) ∧ stockOf m.world frames = m.stock ∧
      turn = Machine.execute m.world t command frames := by
  obtain ⟨w, t', frames⟩ := m
  cases deed with
  | issue t'' command' =>
    cases hcommand
    cases frames with
    | nil => exact ⟨[], List.forall_mem_nil _, rfl, (Option.some.inj hcarry).symm⟩
    | cons frame frames => cases hcarry
  | proceed =>
    unfold command? at hcommand
    split at hcommand
    · next hdeed => cases hdeed
    · next command' rest outer _ hframes =>
      obtain rfl : frames = .deleter (command' :: rest) :: outer := hframes
      cases hcommand
      refine ⟨.deleter rest :: outer, ?_, rfl, (Option.some.inj hcarry).symm⟩
      exact List.forall_mem_cons.mpr ⟨trivial, hnested.2⟩
    · cases hcommand
  | _ => cases hcommand

/-- A move that retires goes on, from a stock in which the address is taken, to retire its entry. -/
theorem Move.Retires.exists_retire (hnested : Nested m.frames)
    (hcarry : m.carryOut deed = some turn) (hretires : (Move.mk m deed turn).Retires r a) :
    ∃ (w : World n α) (t : ThreadId) (entry : Entry α) (frames : List (Frame n α)),
      (∀ frame ∈ frames, frame.Waiting) ∧ turn = Machine.retire w t r entry frames ∧
      entry.address = a ∧ w.registries = m.world.registries ∧ w.started = m.world.started ∧
      Effects m.stock [] { stockOf w frames with
        taken := (r, entry) :: (stockOf w frames).taken } := by
  rcases hretires.cases with ⟨t, o, hcommand, hretirable, rfl⟩ |
    ⟨value, hold, node, outer, rfl, rfl, hframes⟩
  · obtain ⟨frames, hwaiting, hstock, hturn⟩ := Move.exists_execute hnested hcarry hcommand
    obtain ⟨entry, haddress, hexecute, heffect⟩ :=
      Machine.exists_retire_of_command t frames hretirable
    rw [hstock] at heffect
    exact ⟨_, t, entry, frames, hwaiting, hturn.trans hexecute, haddress, rfl, rfl,
      .single heffect⟩
  · obtain ⟨w, t, frames⟩ := m
    obtain rfl : frames = .pop ⟨r, value, hold, .retire node⟩ :: outer := hframes
    refine ⟨w, t, .ofNode node, .pop ⟨r, value, hold, .reclaim⟩ :: outer, ?_,
      (Option.some.inj hcarry).symm, rfl, rfl, rfl, .refl⟩
    exact List.forall_mem_cons.mpr ⟨nofun, hnested.2⟩

/-- What a move retires to a registry, the registry keeps. -/
theorem Move.Retires.keeps (hm : m.Sound) (hcarry : m.carryOut deed = some turn)
    (hretires : (Move.mk m deed turn).Retires r a) : turn.stock.Keeps r a := by
  obtain ⟨w, t, entry, frames, hframes, rfl, rfl, -, -, heffects⟩ :=
    hretires.exists_retire hm.nested hcarry
  have hs := heffects.sound hm.stock
  have htaken : Stock.Holds { stockOf w frames with
      taken := (r, entry) :: (stockOf w frames).taken } r entry.address := by
    refine ⟨.taken r, Or.inl rfl, ?_⟩
    simp [Stock.addresses]
  have hholds : (Machine.retire w t r entry frames).stock.Holds r entry.address := by
    rcases Machine.retire_cases hframes w t r entry rfl with hquiet | hstill
    · obtain ⟨marks, -, hturn⟩ := hquiet.effects
      exact hturn.holds hs htaken
    · exact hstill.effects.holds hs htaken
  exact hholds.keeps (Machine.taken_retire hframes w t r entry)

/-- What a move pops is taken for the registry of its stack, or kept by it. -/
theorem Move.Pops.holds (hm : m.Sound) (hcarry : m.carryOut deed = some turn)
    (hpops : (Move.mk m deed turn).Pops r a) : turn.stock.Holds r a := by
  obtain ⟨hdrop, id, hhome, hbefore, hafter⟩ := hpops
  obtain ⟨marks, hmarks, heffects, -⟩ := hm.marked hcarry
  have hleak (node : NodeId) (_ : a = .node node) : .leak node ∉ marks := by
    intro hmem
    obtain ⟨j, hdeed, -⟩ := Move.leak_mem_marks (hmarks hmem)
    exact hdrop j hdeed
  have hbelongs := heffects.belongs hm.stock hleak ⟨Or.inl hhome, .linked id, Or.inl rfl, hbefore⟩
  obtain ⟨p, rfl | hp, hmem⟩ := hbelongs.place
  · rw [Move.after, turn.stock_machine] at hafter
    exact absurd hmem hafter
  · exact ⟨p, hp, hmem⟩

/-- What the effects of each move keep is kept by the run. -/
theorem Run.kept {m' : Machine n α} {moves : List (Move n α)} (hrun : Run m moves m')
    (hm : m.Sound) {P : Stock n α → Prop}
    (hkept : ∀ move ∈ moves, ∀ marks ⊆ move.marks,
      Effects move.before.stock marks move.turn.stock → move.before.stock.Sound →
        P move.before.stock → P move.turn.stock)
    (hstock : P m.stock) : P m'.stock := by
  induction hrun with
  | start => exact hstock
  | @move moves pre deed turn hrun hcarry ih =>
    obtain ⟨marks, hmarks, heffects, -⟩ := (hrun.sound hm).marked hcarry
    have hpre := ih fun move hmem ↦ hkept move (List.mem_append_left _ hmem)
    rw [turn.stock_machine]
    exact hkept _ (List.mem_append_right _ List.mem_cons_self) marks hmarks heffects
      (hrun.sound hm).stock hpre

/-- What a move of a run brings about, and all effects keep, is so at the end of the run. -/
theorem Run.of_mem {m' : Machine n α} {moves : List (Move n α)} (hrun : Run m moves m')
    (hm : m.Sound) {move : Move n α} (hmem : move ∈ moves) {P : Stock n α → Prop}
    (hmove : move.before.Sound → move.before.carryOut move.deed = some move.turn →
      P move.turn.stock)
    (hkept : ∀ {s t : Stock n α} {marks}, Effects s marks t → s.Sound → P s → P t) :
    P m'.stock := by
  obtain ⟨before, after, -, hbefore, hcarry, hafter⟩ := hrun.exists_before hmem
  have hpre := hbefore.sound hm
  apply hafter.kept (hpre.after hcarry _) fun _ _ _ _ heffects hs ↦ hkept heffects hs
  rw [Move.after, move.turn.stock_machine]
  exact hmove hpre hcarry

section

variable {m' : Machine n α} {moves : List (Move n α)} {move : Move n α}

/-- What was retired to a registry in a run, the registry keeps to its end. -/
theorem Run.keeps (hrun : Run m moves m') (hm : m.Sound) (hmem : move ∈ moves)
    (hretires : move.Retires r a) : m'.stock.Keeps r a :=
  hrun.of_mem hm hmem (fun hpre hcarry ↦ hretires.keeps hpre hcarry) Effects.keeps

theorem Run.holds (hrun : Run m moves m') (hm : m.Sound) (hmem : move ∈ moves)
    (hpops : move.Pops r a) : m'.stock.Holds r a :=
  hrun.of_mem hm hmem (fun hpre hcarry ↦ hpops.holds hpre hcarry) Effects.holds

end

end Reclaim.Hazard
