import Reclaim.Proofs.Hazard.Registration
import Reclaim.Proofs.Hazard.Tame
import Reclaim.Proofs.SharedStack.Reliable

/-!
# Stacks over a registry are reliable

A stack over the process-wide registry is reliable for the threads that the registry supplies with
slots, as long as the deleters that wait there do nothing but free: their pops find slots and are
tame. A thread that ends gives up its slots. Over any other registry no pop succeeds, since the slot
that it finds belongs to the process-wide one.
-/

namespace Reclaim.Hazard

variable {n : Nat} {α : Type} {r : RegistryId} {t : ThreadId} {id : StackId}

namespace World

variable {w v u : World n α} {values : List α} {touched : List (Handle n)}

/-- The cell of a pop that borrowed it, after it gave its slot back. -/
theorem cell?_giveBack {slot : Handle n} (hstarted : (w.cell? t .processWide).isSome)
    (hthreads : u.threads = (w.setCell t .processWide (.live (some slot) true)).threads)
    (t' : ThreadId) :
    (u.giveBack t (.cell .processWide)).cell? t' .processWide =
      if t = t' then some (.live (some slot) false) else w.cell? t' .processWide := by
  have hborrowed (t' : ThreadId) : u.cell? t' .processWide =
      (w.setCell t .processWide (.live (some slot) true)).cell? t' .processWide := by
    rw [cell?, hthreads, cell?]
  rw [giveBack, setBorrowed, cell?_modifyThread]
  split
  · obtain ⟨cell, hcell⟩ := Option.isSome_iff_exists.mp hstarted
    obtain ⟨thread, hthread, -⟩ := Option.map_eq_some_iff.mp hcell
    have hthread : w.threads[t]? = some thread := hthread
    rw [hthreads, setCell, modifyThread, List.getElem?_modify_eq, hthread]
    rfl
  · next hne =>
    rw [hborrowed, setCell, cell?_modifyThread, if_neg hne]

theorem Seated.of_cells (hready : w.ready r t) (hfree : v.free r = w.free r)
    (hcells : ∀ t, v.cell? t .processWide = w.cell? t .processWide) : Seated r t w v where
  others t' _ := hcells t'
  ready := (ready_congr (hcells t) r).trans hready
  kept hkeeps := (keeps_congr (hcells t) r).trans hkeeps
  balance := by rw [hfree, keeps_congr (hcells t) r]

/-- A pop that claims a slot for its cell keeps it there. -/
theorem Seated.of_claimed {slot : Handle n} (hslot : slot.registry = r)
    (hstarted : (w.cell? t .processWide).isSome) (hlacks : w.keeps r t = false)
    (hthreads : u.threads = (w.setCell t .processWide (.live (some slot) true)).threads)
    (hfree : u.free r + 1 = w.free r) : Seated r t w (u.giveBack t (.cell .processWide)) where
  others t' ht' := by rw [cell?_giveBack hstarted hthreads, if_neg (Ne.symm ht')]
  ready := by
    rw [World.ready, cell?_giveBack hstarted hthreads, if_pos rfl]
    exact decide_eq_true hslot
  kept hkeeps := by rw [hlacks] at hkeeps; cases hkeeps
  balance := by
    have hkeeps : (u.giveBack t (.cell .processWide)).keeps r t = true := by
      rw [keeps, cell?_giveBack hstarted hthreads, if_pos rfl]
      exact decide_eq_true hslot
    rw [hlacks, hkeeps]
    exact hfree

/-- A thread that keeps a slot of the process-wide registry, or finds a free one, has a slot to pop
with. -/
theorem exists_slot? (stack : Stack) (hstarted : (w.cell? t .processWide).isSome)
    (hready : w.ready processWide t)
    (hfree : w.keeps processWide t = false → 0 < w.free processWide) :
    ∃ slot, w.slot? stack (.cell t .processWide) = some slot ∧ slot.registry = processWide := by
  have claims (hlacks : w.keeps processWide t = false) :
      ∃ slot, (w.claimSlot processWide t).map Prod.fst = some slot ∧
        slot.registry = processWide := by
    obtain ⟨slot, v, hclaim, hslot, -⟩ := exists_claimSlot (hfree hlacks) t
    exact ⟨slot, by rw [hclaim]; rfl, hslot⟩
  rw [ready] at hready
  rw [keeps] at claims
  unfold slot?
  rcases hcell : w.cell? t .processWide with _ | _ | ⟨_ | slot, _ | _⟩ | _ <;>
    simp only [hcell] at hstarted hready claims ⊢
  case some.unused => exact claims trivial
  case some.live.none.false => exact claims trivial
  case some.live.some.false => exact ⟨slot, rfl, of_decide_eq_true hready⟩
  case some.destroyed => exact claims trivial
  case none => cases hstarted
  all_goals cases hready

theorem Seating.limbo {slot : Handle n} {hold : Hold n} {key : CellKey}
    (hseating : w.Seating t key r slot v hold) (q : RegistryId) : v.limbo q = w.limbo q := by
  cases hseating with
  | kept => exact (w.aside_setCell t _ _).limbo q
  | claimed _ _ hclaim =>
    exact ((aside_claimSlot hclaim).trans (aside_setCell _ t _ _)).limbo q
  | once _ hclaim => exact (aside_claimSlot hclaim).limbo q

/-- A pop that came by its slot leaves its thread as well off as before when it has given the slot
back. -/
theorem Seating.seated {slot : Handle n} {hold : Hold n}
    (hseating : w.Seating t .processWide r slot v hold) (hslot : slot.registry = r)
    (hstarted : (w.cell? t .processWide).isSome) (hready : w.ready r t)
    (hfree : w.keeps r t = false → 0 < w.free r) (hseats : v.SameSeats u) :
    Seated r t w (u.giveBack t hold) := by
  cases hseating with
  | kept hcell =>
    refine .of_cells hready (hseats.free r) fun t' ↦ ?_
    rw [cell?_giveBack hstarted hseats.threads]
    split
    · next ht => rw [← ht, hcell]
    · rfl
  | @claimed cell v hcell hvacant hclaim =>
    have hlacks : w.keeps r t = false := by
      rw [← Bool.not_eq_true, keeps_iff]
      rintro ⟨kept, hkept, -⟩
      cases hcell.symm.trans hkept
      cases hvacant
    obtain ⟨_, _, hclaim', -, hthreads, hless, -⟩ := exists_claimSlot (hfree hlacks) t
    cases hclaim'.symm.trans hclaim
    refine .of_claimed hslot hstarted hlacks ?_ ?_
    · rw [hseats.threads, setCell, setCell, modifyThread, modifyThread, hthreads]
    · rw [hseats.free]
      exact hless
  | once hcell hclaim =>
    have hlacks : w.keeps r t = false := by rw [keeps, hcell]
    obtain ⟨_, _, hclaim', -, hthreads, -, howners⟩ := exists_claimSlot (hfree hlacks) t
    cases hclaim'.symm.trans hclaim
    have hback : w.SameSeats (u.releaseSlot slot) := by
      refine ⟨?_, hseats.threads.trans hthreads⟩
      rw [owners_releaseSlot, hseats.owners, hslot]
      exact howners
    exact .of_cells hready (hback.free r) fun t' ↦ hback.cell? t' _

theorem Plain.giveBack (hw : w.Plain r) (t : ThreadId) (hold : Hold n) :
    (w.giveBack t hold).Plain r :=
  hw.congr ((w.aside_giveBack t hold).limbo r)

/-- A pop with a slot of the stack's registry finds nothing, or is on its way as a tame one. -/
theorem startPop_tame {stack : Stack} {slot : Handle n} (hslot : slot.registry = stack.registry)
    (hw : w.Plain stack.registry) (t : ThreadId) (hold : Hold n) :
    (∃ v, Machine.startPop w t id stack slot hold [] =
        .done (v.giveBack t hold) (.ok (.popped none)) ∧
      w.SameSeats v ∧ v.Plain stack.registry) ∨
    ∃ m, Machine.startPop w t id stack slot hold [] = .next m ∧
      m.Tame stack.registry hold ∧ w.SameSeats m.world ∧ m.thread = t := by
  have hseats := w.sameSeats_publish slot none
  unfold Machine.startPop
  rw [if_neg (not_not_intro hslot)]
  split
  · exact Or.inl ⟨_, rfl, hseats, hw.congr ((w.aside_publish slot none).limbo _)⟩
  · next node contents htop =>
    let v := w.publish slot (some (.node node))
    have hcleared := (v.setHead id contents.next).sameSeats_publish slot none
    have hpublished := w.sameSeats_publish slot (some (.node node))
    refine Or.inr ⟨_, rfl, ⟨.retire contents.value node, ?_⟩, ?_, rfl⟩
    · have hlimbo := ((v.setHead id contents.next).aside_publish slot none).limbo stack.registry
      exact hw.congr (hlimbo.trans ((w.aside_publish slot _).limbo _))
    · exact ⟨hcleared.owners.trans hpublished.owners, hcleared.threads.trans hpublished.threads⟩

/-- From a stack over the process-wide registry, a pop of a thread that keeps a slot, or finds a
free one, is fine, and leaves the thread as well off as before. -/
theorem seated_pop {stack : Stack} (hstack : w.stack? id = some stack)
    (hregistry : stack.registry = processWide) (hplain : w.Plain processWide)
    (hstarted : (w.cell? t .processWide).isSome) (hready : w.ready processWide t)
    (hfree : w.keeps processWide t = false → 0 < w.free processWide) :
    w.Fine id (.cell t .processWide) .pop ∧
      Seated processWide t w (w.run t (.pop .processWide id)).1 ∧
      (w.run t (.pop .processWide id)).1.Plain processWide := by
  obtain ⟨slot, hfound, hslot⟩ := exists_slot? stack hstarted hready hfree
  obtain ⟨v, hold, hseating, hpop⟩ := exists_seating hfound
  have hexecute : Machine.execute w t (.pop .processWide id) [] =
      Machine.startPop v t id stack slot hold [] := by
    simp only [Machine.execute, hstack]
    exact hpop id []
  have hseat (u : World n α) (hseats : v.SameSeats u) :
      Seated processWide t w (u.giveBack t hold) :=
    hseating.seated hslot hstarted hready hfree hseats
  have hslot' := hslot.trans hregistry.symm
  have hhas : w.hasSlot id (.cell t .processWide) := by
    rw [hasSlot, hstack, Option.any_some, hregistry, hfound, Option.any_some]
    exact decide_eq_true hslot
  have hv : v.Plain stack.registry := hregistry ▸ hplain.congr (hseating.limbo processWide)
  rcases startPop_tame hslot' hv t hold with
    ⟨u, hdone, hseats, hplain⟩ | ⟨m, hnext, htame, hseats, hthread⟩
  · have hturn := hexecute.trans hdone
    have hrun : w.run t (.pop .processWide id) =
        (u.giveBack t hold, .ok (.popped none)) := by rw [run, hturn]
    have htrace : w.trace t (.pop .processWide id) = [] := by rw [trace, hturn]
    rw [hrun]
    refine ⟨⟨hhas, ?_⟩, hseat u hseats, hregistry ▸ hplain.giveBack t hold⟩
    intro move hmem
    have hmem : move ∈ w.trace t (.pop .processWide id) := hmem
    rw [htrace] at hmem
    cases hmem
  · have hturn := hexecute.trans hnext
    have hrun : w.run t (.pop .processWide id) = m.run := by rw [run, hturn]
    have htrace : w.trace t (.pop .processWide id) = m.trace := by rw [trace, hturn]
    obtain ⟨u, hworld, hseats', hplain⟩ := htame.run
    rw [hthread] at hworld
    rw [hrun, hworld]
    refine ⟨⟨hhas, ?_⟩, hseat u (hseats.trans hseats'), hregistry ▸ hplain.giveBack t hold⟩
    intro move hmem
    have hmem : move ∈ w.trace t (.pop .processWide id) := hmem
    rw [htrace] at hmem
    exact htame.trace id move hmem

/-- From a stack over another registry no pop through the process-wide cell takes anything. -/
theorem execute_pop_elsewhere {stack : Stack} (hstack : w.stack? id = some stack)
    (hother : stack.registry ≠ processWide) (hstarted : (w.cell? t .processWide).isSome)
    (hkept : ∀ slot ∈ w.kept t .processWide, slot.registry = processWide)
    (hidle : ∀ slot, w.cell? t .processWide ≠ some (.live slot true)) (frames : List (Frame n α)) :
    ∃ v, Machine.execute w t (.pop .processWide id) frames =
        Machine.raise v t frames .foreignSlot ∨
      Machine.execute w t (.pop .processWide id) frames =
        Machine.raise v t frames (.noFreeSlot n) := by
  rcases (Machine.executes w t frames _).pop_cases hstack hstarted with
    ⟨slot, v, hold, hseating, hturn⟩ | ⟨v, hturn⟩ | ⟨slot, hborrowed, -⟩
  · have hregistry : slot.registry = processWide := by
      cases hseating with
      | kept hcell => exact hkept slot (by rw [kept_of_cell? hcell]; exact List.mem_cons_self)
      | claimed _ _ hclaim | once _ hclaim =>
        obtain ⟨-, -, -, hregistry, -⟩ := exists_of_claimSlot hclaim
        exact hregistry
    refine ⟨v.giveBack t hold, Or.inl ?_⟩
    rw [hturn, Machine.startPop, if_pos (hregistry ▸ hother.symm)]
  · exact ⟨v, Or.inr hturn⟩
  · exact absurd hborrowed (hidle slot)

/-- On the way from `w` to `v` a thread gave slots up, and no other thread noticed. -/
structure Vacates (r : RegistryId) (t : ThreadId) (w v : World n α) : Prop where
  aside : ∃ touched, w.Aside touched v
  others : ∀ t', t' ≠ t → v.cell? t' .processWide = w.cell? t' .processWide
  free : w.free r ≤ v.free r

theorem Vacates.trans (hwv : Vacates r t w v) (hvu : Vacates r t v u) : Vacates r t w u := by
  obtain ⟨touched, haside⟩ := hwv.aside
  obtain ⟨touched', haside'⟩ := hvu.aside
  exact ⟨⟨_, haside.trans haside'⟩, fun t' ht' ↦ (hvu.others t' ht').trans (hwv.others t' ht'),
    Nat.le_trans hwv.free hvu.free⟩

theorem vacates_modifyThread (w : World n α) (t : ThreadId) (f : Thread n → Thread n)
    (r : RegistryId) : Vacates r t w (w.modifyThread t f) where
  aside := ⟨_, w.aside_modifyThread t f⟩
  others t' ht' := by rw [cell?_modifyThread, if_neg (Ne.symm ht')]
  free := Nat.le_refl _

theorem vacates_releaseSlot (w : World n α) (slot : Handle n) (r : RegistryId) (t : ThreadId) :
    Vacates r t w (w.releaseSlot slot) :=
  ⟨⟨_, w.aside_releaseSlot slot⟩, fun _ _ ↦ rfl, w.free_releaseSlot slot r⟩

theorem vacates_destroyCell (w : World n α) (t : ThreadId) (key : CellKey) (r : RegistryId) :
    Vacates r t w (w.destroyCell t key) := by
  unfold destroyCell
  split
  · exact (w.vacates_releaseSlot _ r t).trans (vacates_modifyThread _ t _ r)
  · exact w.vacates_modifyThread t _ r
  · exact ⟨⟨_, .refl w⟩, fun _ _ ↦ rfl, Nat.le_refl _⟩

theorem cell?_releaseHandles (w : World n α) (t t' : ThreadId) :
    (w.releaseHandles (·.thread = t)).cell? t' .processWide = w.cell? t' .processWide := by
  have hthreads : (w.releaseHandles (·.thread = t)).threads = w.threads :=
    threads_foldl_releaseSlot _ w
  rw [cell?, hthreads, cell?]

theorem vacates_releaseHandles (w : World n α) (t : ThreadId) (r : RegistryId) :
    Vacates r t w (w.releaseHandles (·.thread = t)) where
  aside := ⟨_, w.aside_releaseHandles t⟩
  others t' _ := cell?_releaseHandles w t t'
  free := free_foldl_releaseSlot _ w r

/-- A thread that ends gives its slots up. If it kept one, there is a free one then. -/
theorem vacates_exit (w : World n α) (t : ThreadId) (hlt : r < w.registries.length) :
    Vacates r t w (w.exit t []).1 ∧ (w.keeps r t → 0 < (w.exit t []).1.free r) := by
  let handed := w.releaseHandles (·.thread = t)
  let closed := handed.destroyCell t .processWide
  have hhanded : Vacates r t w handed := w.vacates_releaseHandles t r
  have hclosed : Vacates r t handed closed := handed.vacates_destroyCell t .processWide r
  have hrest : Vacates r t closed (w.exit t []).1 :=
    (closed.vacates_destroyCell t .ordinary r).trans
      ((vacates_destroyCell _ t .processWide r).trans
        ((vacates_destroyCell _ t .ordinary r).trans (vacates_modifyThread _ t _ r)))
  refine ⟨(hhanded.trans hclosed).trans hrest, fun hkeeps ↦ ?_⟩
  obtain ⟨slot, hcell, hslot⟩ := keeps_iff.mp hkeeps
  have hcell : handed.cell? t .processWide = some (.live (some slot) false) :=
    (cell?_releaseHandles w t t).trans hcell
  have hreleased : closed = (handed.releaseSlot slot).setCell t .processWide .destroyed := by
    simp only [closed, destroyCell, hcell]
  have hlength : handed.registries.length = w.registries.length :=
    (w.aside_releaseHandles t).length_registries
  refine Nat.lt_of_lt_of_le ?_ hrest.free
  rw [hreleased]
  exact handed.free_pos_releaseSlot hslot (hlength.symm ▸ hlt)

/-- The threads that are left are still supplied when one has ended. -/
theorem Vacates.supplies {threads : List ThreadId} (hvacates : Vacates r t w v)
    (hw : w.Supplies r threads) (hgiven : w.keeps r t → 0 < v.free r) (ht : t ≠ 0) :
    v.Supplies r (threads.filter (· ≠ t)) := by
  have hkeeps (t' : ThreadId) (ht' : t' ≠ t) : v.keeps r t' = w.keeps r t' :=
    keeps_congr (hvacates.others t' ht') r
  have hleft (t' : ThreadId) (hmem : t' ∈ threads.filter (· ≠ t)) : t' ∈ threads ∧ t' ≠ t := by
    obtain ⟨hmem, ht'⟩ := List.mem_filter.mp hmem
    exact ⟨hmem, of_decide_eq_true ht'⟩
  constructor
  · intro t' ht'
    have hne : t' ≠ t := by
      rcases ht' with rfl | hmem
      · exact Ne.symm ht
      · exact (hleft t' hmem).2
    exact (ready_congr (hvacates.others t' hne) r).trans
      (hw.ready t' (ht'.imp_right fun hmem ↦ (hleft t' hmem).1))
  · rw [lacking_congr fun t' hmem ↦ hkeeps t' (hleft t' hmem).2]
    exact Nat.le_trans (List.Sublist.countP_le List.filter_sublist)
      (Nat.le_trans hw.enough hvacates.free)
  · intro hnone
    rw [lacking_congr fun t' hmem ↦ hkeeps t' (List.mem_singleton.mp hmem ▸ Ne.symm ht)]
    by_cases hmem : t ∈ threads
    · -- The thread that ended leaves a slot for the one that waits.
      have hpos : 0 < v.free r := by
        cases hkept : w.keeps r t with
        | true => exact hgiven hkept
        | false => exact Nat.lt_of_lt_of_le (hw.free_pos hmem hkept) hvacates.free
      exact Nat.le_trans List.countP_le_length hpos
    · have hall : threads.filter (· ≠ t) = threads :=
        List.filter_eq_self.mpr fun t' hmem' ↦ decide_eq_true fun h ↦ hmem (h ▸ hmem')
      exact Nat.le_trans (hw.last (hall ▸ hnone)) hvacates.free

theorem Supplies.wait (hw : w.Supplies r []) : w.Supplies r [0] where
  ready t ht := hw.ready t (Or.inl (ht.elim id List.mem_singleton.mp))
  enough := hw.last rfl
  last := nofun

/-- What happens beside the books leaves a stack and its values alone. -/
theorem Holds.aside (hw : w.Holds id values) (haside : w.Aside touched v) :
    v.Holds id values where
  sound := (Effect.aside (s := stockOf w []) haside).sound hw.sound
  kept := haside.stack? id ▸ hw.kept
  linked := by
    rw [valuesIn, links_congr haside.stacks haside.heap, ← valuesIn]
    exact hw.linked

end World

/-! ## The stack behind the interface -/

namespace SoleStack

variable {s : SoleStack n α} {threads : List ThreadId} {values : List α}

/-- Threads pop with the slots that they keep; the stack is there, with these values; and its
registry is the process-wide one, supplies these threads with slots and runs no deleter that does
anything but free. -/
structure Keeps (s : SoleStack n α) (threads : List ThreadId) (values : List α) : Prop where
  use : s.use = .implicit
  home : s.world.home? 0 = some processWide
  world : s.world.Holds 0 values
  plain : s.world.Plain processWide
  slots : s.world.Supplies processWide threads

theorem threads_withThread (w : World n α) (t t' : ThreadId) :
    (withThread w t).threads[t']? =
      if t' < w.threads.length then w.threads[t']?
      else if t' ≤ t then some {} else none := by
  by_cases hlt : t' < w.threads.length
  · rw [if_pos hlt, withThread, List.getElem?_append_left hlt]
  · rw [if_neg hlt, withThread, List.getElem?_append_right (Nat.le_of_not_lt hlt),
      List.getElem?_replicate]
    by_cases ht : t' ≤ t
    · rw [if_pos ht, if_pos (Nat.sub_lt_sub_right (Nat.le_of_not_lt hlt) (Nat.lt_succ_of_le ht))]
    · have hle : t + 1 - w.threads.length ≤ t' - w.threads.length :=
        Nat.sub_le_sub_right (Nat.lt_of_not_le ht) _
      rw [if_neg ht, if_neg (Nat.not_lt.mpr hle)]

/-- A thread that has to be started first has no cell before. -/
theorem cell?_withThread (w : World n α) (t t' : ThreadId) (key : CellKey) :
    (withThread w t).cell? t' key = w.cell? t' key ∨
      w.cell? t' key = none ∧ (withThread w t).cell? t' key = some .unused := by
  simp only [World.cell?, threads_withThread]
  split
  · exact Or.inl rfl
  · next hnew =>
    rw [List.getElem?_eq_none (Nat.le_of_not_lt hnew)]
    split
    · cases key <;> exact Or.inr ⟨rfl, rfl⟩
    · exact Or.inl rfl

theorem started_withThread (w : World n α) (t : ThreadId) (key : CellKey) :
    ((withThread w t).cell? t key).isSome := by
  rw [World.cell?, threads_withThread, Option.isSome_map]
  split
  · next hlt => rw [List.getElem?_eq_getElem hlt]; rfl
  · rw [if_pos (Nat.le_refl t)]; rfl

theorem aside_withThread (w : World n α) (t : ThreadId) : w.Aside [] (withThread w t) :=
  { World.Aside.refl w with }

theorem supplies_withThread {w : World n α} (hw : w.Supplies r threads) (t : ThreadId) :
    (withThread w t).Supplies r threads := by
  refine hw.congr (Nat.le_refl _) (fun t' ↦ ?_) (fun t' ↦ ?_)
  · rcases cell?_withThread w t t' .processWide with hsame | ⟨hnone, hnew⟩
    · exact World.ready_congr hsame r
    · rw [World.ready, World.ready, hnone, hnew]
  · rcases cell?_withThread w t t' .processWide with hsame | ⟨hnone, hnew⟩
    · exact World.keeps_congr hsame r
    · rw [World.keeps, World.keeps, hnone, hnew]

/-- A push changes no slot and no cell. -/
theorem Keeps.push (hs : s.Keeps threads values) (t : ThreadId) (value : α) :
    (SharedStack.push s t value).1.Keeps threads (value :: values) := by
  obtain ⟨world, use, handles⟩ := s
  obtain ⟨huse, hhome, hworld, hplain, hslots⟩ := hs
  obtain ⟨stack, hstack⟩ := Option.isSome_iff_exists.mp hworld.kept
  obtain ⟨node, v, hrun, hv⟩ := World.Holds.push hworld t value
  obtain rfl : v = (world.push 0 stack value).2 :=
    congrArg Prod.fst (hrun.symm.trans (World.run_push hstack t value))
  have hhome' : (world.push 0 stack value).2.home? 0 = some processWide := by
    rw [World.home?, World.stack?_push, if_pos rfl, ← hhome, World.home?, Option.map_map]
    rfl
  have hseats : world.SameSeats (world.push 0 stack value).2 := ⟨rfl, rfl⟩
  have hpush : (SharedStack.push (⟨world, use, handles⟩ : SoleStack n α) t value).1 =
      ⟨(world.push 0 stack value).2, use, handles⟩ :=
    congrArg (fun result ↦ SoleStack.mk (Prod.fst result) use handles) hrun
  rw [hpush]
  exact ⟨huse, hhome', hv, hplain.congr rfl, hseats.supplies hslots⟩

/-- A pop of a thread that is supplied takes the top value out. -/
theorem Keeps.pop [Destructor α] (hs : s.Keeps threads values) (hmem : t ∈ threads) :
    (SharedStack.pop s t).result = .ok values.head? ∧
      (SharedStack.pop s t).state.Keeps threads values.tail := by
  obtain ⟨world, _, handles⟩ := s
  obtain ⟨rfl, hhome, hworld, hplain, hslots⟩ := hs
  let w := withThread world t
  have haside : world.Aside [] w := aside_withThread world t
  have hhome : w.home? 0 = some processWide := by
    rw [World.home?, haside.stack?]
    exact hhome
  have hw : w.Holds 0 values := hworld.aside haside
  have hslots : w.Supplies processWide threads := supplies_withThread hslots t
  obtain ⟨stack, hstack, hregistry⟩ := Option.map_eq_some_iff.mp hhome
  obtain ⟨hfine, hseated, hplain⟩ := World.seated_pop hstack hregistry
    (hplain.congr (haside.limbo processWide)) (started_withThread world t _)
    (hslots.ready t (Or.inr hmem)) (hslots.free_pos hmem)
  obtain ⟨v, hrun, hv⟩ := World.Holds.pop hw (.cell t .processWide) hfine
  have hrun : (withThread world t).run t (.pop .processWide 0) =
      (v, .ok (.popped values.head?)) := hrun
  have hhome := World.home?_run t (.pop .processWide 0) hw.sound hhome
  have hpop : SharedStack.pop (⟨world, .implicit, handles⟩ : SoleStack n α) t =
      ⟨⟨v, .implicit, handles⟩, [], .ok values.head?⟩ := by
    change SoleStack.pop ⟨world, .implicit, handles⟩ t = _
    simp only [SoleStack.pop, hrun]
    rfl
  rw [hrun] at hseated hplain hhome
  rw [hpop]
  exact ⟨rfl, rfl, hhome, hv, hplain, hseated.supplies hslots hmem⟩

/-- The threads that are left are still supplied when one has ended. -/
theorem Keeps.finish (hs : s.Keeps threads values) (ht : t ≠ 0) :
    (SharedStack.finish s t).Keeps (threads.filter (· ≠ t)) values := by
  obtain ⟨world, use, handles⟩ := s
  obtain ⟨huse, hhome, hworld, hplain, hslots⟩ := hs
  obtain ⟨stack, hstack, hregistry⟩ := Option.map_eq_some_iff.mp hhome
  have hlt : processWide < world.registries.length := hregistry ▸ hworld.sound.homes 0 stack hstack
  obtain ⟨hvacates, hgiven⟩ := world.vacates_exit t hlt
  obtain ⟨touched, haside⟩ := hvacates.aside
  have hhome : (world.exit t []).1.home? 0 = some processWide := by
    rw [World.home?, haside.stack?]
    exact hhome
  exact ⟨huse, hhome, hworld.aside haside, hplain.congr (haside.limbo processWide),
    hvacates.supplies hslots hgiven ht⟩

theorem Keeps.size (hs : s.Keeps threads values) : SharedStack.size s = values.length := by
  obtain ⟨stack, hstack⟩ := Option.isSome_iff_exists.mp hs.world.kept
  have hsize : SharedStack.size s =
      (s.world.chain ((s.world.stack? 0).getD { registry := 0 })).length := rfl
  rw [hsize, hstack, Option.getD_some, ← World.links_of_stack? hstack, ← hs.world.linked,
    World.valuesIn, List.length_map]

/-- A stack over the process-wide registry is reliable for the threads that the registry
supplies. -/
theorem reliable [Destructor α] :
    SharedStack.Reliable fun (s : SoleStack n α) threads values _ ↦ s.Keeps threads values where
  push _ _ _ _ t value hs := ⟨rfl, hs.push t value⟩
  pop _ _ _ _ _ hs hmem := hs.pop hmem
  finish _ _ _ _ _ hs ht := hs.finish ht
  wait _ _ _ hs := ⟨hs.use, hs.home, hs.world, hs.plain, hs.slots.wait⟩
  size _ _ _ _ hs := hs.size

/-- No pop from a stack over another registry succeeds, whatever that registry supplies. -/
theorem pop_elsewhere [Destructor α] {moves : List (Move n α)} {world : World n α} {r : RegistryId}
    (hrun : Run Machine.empty moves ⟨world, t, []⟩) (hhome : world.home? 0 = some r)
    (hother : r ≠ processWide) (handles : List (ThreadId × HandleId)) (t' : ThreadId) :
    (SharedStack.pop (⟨world, .implicit, handles⟩ : SoleStack n α) t').result =
        .error .foreignSlot ∨
      (SharedStack.pop (⟨world, .implicit, handles⟩ : SoleStack n α) t').result =
        .error (.noFreeSlot n) := by
  obtain ⟨stack, hstack, rfl⟩ := Option.map_eq_some_iff.mp hhome
  have hstack : (withThread world t').stack? 0 = some stack :=
    ((aside_withThread world t').stack? 0).trans hstack
  have hkept : ∀ slot ∈ (withThread world t').kept t' .processWide,
      slot.registry = processWide := by
    intro slot hmem
    rcases cell?_withThread world t' t' .processWide with hsame | ⟨-, hnew⟩
    · rw [World.kept_eq, hsame, ← World.kept_eq] at hmem
      exact hrun.registry_of_kept hmem
    · rw [World.kept_eq, hnew] at hmem
      cases hmem
  have hidle (slot : Option (Handle n)) :
      (withThread world t').cell? t' .processWide ≠ some (.live slot true) := by
    intro hcell
    rcases cell?_withThread world t' t' .processWide with hsame | ⟨-, hnew⟩
    · obtain ⟨-, hmem⟩ := hrun.lending.borrowed t' .processWide slot (hsame ▸ hcell)
      cases hmem
    · cases hnew.symm.trans hcell
  obtain ⟨v, hturn⟩ := World.execute_pop_elsewhere hstack hother (started_withThread world t' _)
    hkept hidle []
  refine hturn.imp (fun hturn ↦ ?_) fun hturn ↦ ?_
  all_goals
    change (SoleStack.pop ⟨world, .implicit, handles⟩ t').result = _
    rw [SoleStack.pop, World.run, hturn]
    rfl

end SoleStack

end Reclaim.Hazard
