import Reclaim.Proofs.Hazard.SlotDiscipline

/-!
# Cells lent to pops

A cell is borrowed as long as a pop that uses its slot is under way, and no longer. So between
commands no cell is borrowed, whatever faults there were, and a thread that keeps a slot can pop.
-/

namespace Reclaim.Hazard

variable {n : Nat} {α : Type}

def Hold.key? : Hold n → Option CellKey
  | .cell key => some key
  | _ => none

def Desk.keys (d : Desk n α) : List CellKey := d.holds.filterMap Hold.key?

/-- The borrowed cells are those that pops of the thread use, and they keep slots. -/
structure Desk.Lending (d : Desk n α) : Prop where
  nodup : d.keys.Nodup
  lent : ∀ key ∈ d.keys, ∃ slot, d.world.cell? d.thread key = some (.live (some slot) true)
  borrowed : ∀ t key slot?, d.world.cell? t key = some (.live slot? true) →
    t = d.thread ∧ key ∈ d.keys

namespace Desk.Lending

variable {w v : World n α} {t : ThreadId} {holds : List (Hold n)} {key : CellKey}

theorem congr (hd : Lending ⟨w, t, holds⟩) (hcells : ∀ t key, v.cell? t key = w.cell? t key) :
    Lending ⟨v, t, holds⟩ where
  nodup := hd.nodup
  lent key hmem := by
    rw [hcells]
    exact hd.lent key hmem
  borrowed t' key slot? hcell := hd.borrowed t' key slot? ((hcells t' key).symm.trans hcell)

/-- A pop borrows a cell that no pop borrows. -/
theorem borrow (hd : Lending ⟨w, t, holds⟩) {cell : Cell n} (hcell : w.cell? t key = some cell)
    (hfree : ∀ slot, cell ≠ .live (some slot) true) (slot : Handle n) :
    Lending ⟨w.setCell t key (.live (some slot) true), t, .cell key :: holds⟩ := by
  have hafter (key' : CellKey) := w.cell?_setCell t key (.live (some slot) true) t key'
  constructor
  · refine List.nodup_cons.mpr ⟨fun hmem ↦ ?_, hd.nodup⟩
    obtain ⟨slot', hlent⟩ := hd.lent key hmem
    exact hfree slot' (Option.some.inj (hcell.symm.trans hlent))
  · intro key' hmem
    rw [hafter]
    rcases List.mem_cons.mp hmem with rfl | hmem
    · exact ⟨slot, by rw [if_pos ⟨rfl, rfl⟩, hcell]; rfl⟩
    · split
      · next hsame => exact ⟨slot, by rw [← hsame.2, hcell]; rfl⟩
      · exact hd.lent key' hmem
  · intro t' key' slot? hborrowed
    rw [World.cell?_setCell] at hborrowed
    split at hborrowed
    · next hsame => exact ⟨hsame.1.symm, hsame.2 ▸ List.mem_cons_self⟩
    · obtain ⟨rfl, hmem⟩ := hd.borrowed t' key' slot? hborrowed
      exact ⟨rfl, List.mem_cons_of_mem key hmem⟩

/-- A pop that ends gives its cell back. -/
theorem giveBack (hd : Lending ⟨w, t, .cell key :: holds⟩) :
    Lending ⟨w.setBorrowed t key false, t, holds⟩ := by
  obtain ⟨hnot, hnodup⟩ := List.nodup_cons.mp hd.nodup
  obtain ⟨slot, hcell⟩ := hd.lent key List.mem_cons_self
  rw [World.setBorrowed_of_live hcell]
  constructor
  · exact hnodup
  · intro key' hmem
    rw [World.cell?_setCell, if_neg]
    · exact hd.lent key' (List.mem_cons_of_mem key hmem)
    · rintro ⟨-, rfl⟩
      exact hnot hmem
  · intro t' key' slot? hborrowed
    rw [World.cell?_setCell] at hborrowed
    split at hborrowed
    · next hsame =>
      rw [← hsame.1, ← hsame.2, hcell] at hborrowed
      cases hborrowed
    · next hne =>
      obtain ⟨rfl, hmem⟩ := hd.borrowed t' key' slot? hborrowed
      exact ⟨rfl, (List.mem_cons.mp hmem).resolve_left fun heq ↦ hne ⟨rfl, heq.symm⟩⟩

/-- A cell that no pop uses changes to one that no pop borrows. -/
theorem setCell (hd : Lending ⟨w, t, holds⟩) {t' : ThreadId} {cell cell' : Cell n}
    (hcell : w.cell? t' key = some cell)
    (hfree : holds = [] ∨ ∀ slot, cell ≠ .live (some slot) true)
    (hcell' : cell' = .live none false ∨ cell' = .destroyed) :
    Lending ⟨w.setCell t' key cell', t, holds⟩ := by
  constructor
  · exact hd.nodup
  · intro key' hmem
    rw [World.cell?_setCell, if_neg]
    · exact hd.lent key' hmem
    · rintro ⟨rfl, rfl⟩
      obtain ⟨slot, hlent⟩ := hd.lent key hmem
      rcases hfree with rfl | hfree
      · cases hmem
      · exact hfree slot (Option.some.inj (hcell.symm.trans hlent))
  · intro t'' key' slot? hborrowed
    rw [World.cell?_setCell] at hborrowed
    split at hborrowed
    · next hsame =>
      rw [← hsame.1, ← hsame.2, hcell] at hborrowed
      rcases hcell' with rfl | rfl <;> cases hborrowed
    · exact hd.borrowed t'' key' slot? hborrowed

end Desk.Lending

theorem Handling.lending {P : Transfer n → Prop} {d e : Desk n α} (hhandling : Handling P d e)
    (hd : d.Lending) : e.Lending := by
  have hfree {cell : Cell n} (hvacant : cell.Vacant) (slot : Handle n) :
      cell ≠ .live (some slot) true := by
    rintro rfl
    exact hvacant
  have hunused (slot slot' : Handle n) : Cell.live (some slot) false ≠ .live (some slot') true := by
    intro heq
    cases heq
  cases hhandling with
  | beside t holds hbeside => exact hd.congr hbeside.cell?
  | spawn w t =>
    refine ⟨List.nodup_nil, List.forall_mem_nil _, fun t' key slot? hborrowed ↦ ?_⟩
    rw [World.cell?, World.spawn, List.getElem?_append] at hborrowed
    split at hborrowed
    · exact hd.borrowed t' key slot? hborrowed
    · rw [List.getElem?_singleton] at hborrowed
      split at hborrowed
      · cases key <;> cases hborrowed
      · cases hborrowed
  | turnTo w t t' =>
    refine ⟨List.nodup_nil, List.forall_mem_nil _, fun t'' key slot? hborrowed ↦ ?_⟩
    cases (hd.borrowed t'' key slot? hborrowed).2
  | take holds hclaim hP =>
    have hcells := World.cell?_of_claimSlot hclaim
    exact hd.congr hcells
  | keep holds hcell hvacant hclaim hP =>
    have hcells := World.cell?_of_claimSlot hclaim
    exact (hd.congr hcells).borrow ((hcells _ _).trans hcell) (hfree hvacant) _
  | @borrow w t key slot holds hcell => exact hd.borrow hcell (hunused slot) slot
  | once holds hcell hclaim hP =>
    have hafter := hd.congr (World.cell?_of_claimSlot hclaim)
    exact ⟨hafter.nodup, hafter.lent, hafter.borrowed⟩
  | lend w t holds => exact ⟨hd.nodup, hd.lent, hd.borrowed⟩
  | giveBack w t hold holds =>
    cases hold with
    | lent => exact ⟨hd.nodup, hd.lent, hd.borrowed⟩
    | cell key => exact hd.giveBack
    | temporary slot => exact ⟨hd.nodup, hd.lent, hd.borrowed⟩
  | @vacate w t t' key slot borrowed holds cell' hcell hidle hcell' hP =>
    have hreleased := hd.congr (v := w.releaseSlot slot) fun _ _ ↦ rfl
    refine hreleased.setCell hcell ?_ hcell'
    rcases hidle with rfl | rfl
    · exact Or.inr (hunused slot)
    · exact Or.inl rfl
  | leave holds hcell hvacant hcell' => exact hd.setCell hcell (Or.inr (hfree hvacant)) hcell'
  | letGo w t t' =>
    refine hd.congr fun t'' key ↦ ?_
    have hthreads : (w.releaseHandles (·.thread = t')).threads = w.threads :=
      World.threads_foldl_releaseSlot _ w
    rw [World.cell?, hthreads, World.cell?]
  | _ => exact hd.congr fun _ _ ↦ rfl

section

variable [Destructor α] {m m' : Machine n α} {moves : List (Move n α)}

theorem Run.lending (hrun : Run Machine.empty moves m) : m.desk.Lending := by
  refine hrun.handled (Q := Desk.Lending) (fun _ _ _ _ hhandling hd ↦ hhandling.lending hd) ?_
  exact ⟨List.nodup_nil, List.forall_mem_nil _, nofun⟩

/-- A thread that keeps a slot claimed it itself. -/
theorem Run.thread_of_kept (hrun : Run Machine.empty moves m) {t : ThreadId} {key : CellKey}
    {slot : Handle n} (hkept : slot ∈ m.world.kept t key) : slot.thread = t := by
  refine hrun.handled (Q := fun d ↦ slot ∈ d.world.kept t key → slot.thread = t) ?_ nofun hkept
  intro move _ d e hhandling hd hkept
  rcases hhandling.kept_cases t key with hsame | ⟨slot', hthread, -, -, hafter⟩ | ⟨-, hnone⟩
  · exact hd (hsame ▸ hkept)
  · rw [hafter] at hkept
    rw [List.mem_singleton.mp hkept]
    exact hthread
  · rw [hnone] at hkept
    cases hkept

/-- Between commands no cell that keeps a slot is borrowed. -/
theorem Run.cell?_of_kept (hrun : Run Machine.empty moves m) (hframes : m.frames = [])
    {t : ThreadId} {key : CellKey} {slot : Handle n} (hkept : m.world.kept t key = [slot]) :
    m.world.cell? t key = some (.live (some slot) false) := by
  unfold World.kept at hkept
  split at hkept
  · next slot' borrowed hcell =>
    obtain rfl := List.singleton_inj.mp hkept
    cases borrowed with
    | false => exact hcell
    | true =>
      obtain ⟨-, hmem⟩ := hrun.lending.borrowed t key _ hcell
      rw [Desk.keys, Machine.desk, deskOf, hframes] at hmem
      cases hmem
  · cases hkept

end

end Reclaim.Hazard
