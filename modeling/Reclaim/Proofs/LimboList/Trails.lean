import Mathlib.Data.List.Nodup
import Mathlib.Data.List.Perm.Basic
import Reclaim.LimboList.Linked
import Reclaim.Proofs.Heap.Path

/-!
# Trails of linked cells

The list and every drain are a reference to a cell, from which a trail of cells leads down to null.
The cells are shared out if each is on the trail of one of these references, in somebody's hands, or
gone. Every step changes one cell at most, and the chains that this cell is not on stay as they are.
-/

namespace Reclaim.LimboCell

variable {ε : Type} {cells cells' : Heap (LimboCell ε)} {cell : NodeId} {start : Option NodeId}
  {contents : LimboCell ε}

/-- The names of the cells from a reference down to null. -/
def trail (cells : Heap (LimboCell ε)) (start : Option NodeId) : List NodeId :=
  (chain cells start).map Prod.fst

/-- Whoever follows a reference comes to null, and meets no freed cell on the way. -/
def Ends (cells : Heap (LimboCell ε)) (start : Option NodeId) : Prop :=
  cells.IsPath (·.next) start (chain cells start)

theorem ends_of_isPath {links : List (NodeId × LimboCell ε)}
    (hpath : cells.IsPath (·.next) start links) (hnodup : (links.map Prod.fst).Nodup) :
    Ends cells start ∧ chain cells start = links := by
  have hchain : chain cells start = links := hpath.chain_eq hnodup
  rw [Ends, hchain]
  exact ⟨hpath, rfl⟩

theorem chain_none (cells : Heap (LimboCell ε)) : Ends cells none ∧ chain cells none = [] :=
  ends_of_isPath (show cells.IsPath (·.next) none [] from rfl) List.nodup_nil

@[simp]
theorem trail_none (cells : Heap (LimboCell ε)) : trail cells none = [] :=
  congrArg (List.map Prod.fst) (chain_none cells).2

/-- A cell on top of a chain that it does not lie on leads a longer one. -/
theorem ends_cons (hget : cells.get? cell = some contents) (hends : Ends cells contents.next)
    (hnodup : (cell :: trail cells contents.next).Nodup) :
    Ends cells (some cell) ∧
      chain cells (some cell) = (cell, contents) :: chain cells contents.next := by
  have hpath : cells.IsPath (·.next) (some cell)
      ((cell, contents) :: chain cells contents.next) := ⟨rfl, hget, hends⟩
  exact ends_of_isPath hpath hnodup

/-- A reference to a cell leads on to the chain of the cell below it. -/
theorem Ends.chain_eq_cons (hends : Ends cells (some cell))
    (hnodup : (trail cells (some cell)).Nodup) :
    ∃ contents, cells.get? cell = some contents ∧ Ends cells contents.next ∧
      chain cells (some cell) = (cell, contents) :: chain cells contents.next := by
  rw [Ends] at hends
  rw [trail] at hnodup
  cases hchain : chain cells (some cell) with
  | nil =>
    rw [hchain] at hends
    cases hends
  | cons first rest =>
    rw [hchain] at hends hnodup
    obtain ⟨hfirst, hget, hrest⟩ := hends
    obtain rfl := Option.some.inj hfirst
    obtain ⟨hbelow, hrest⟩ := ends_of_isPath hrest (List.nodup_cons.mp hnodup).2
    exact ⟨first.2, hget, hbelow, by rw [hrest]⟩

/-- A chain that a changed cell does not lie on stays as it is. -/
theorem Ends.of_ne (hends : Ends cells start) (hnodup : (trail cells start).Nodup)
    (hother : ∀ node, node ≠ cell → cells'.get? node = cells.get? node)
    (hoff : cell ∉ trail cells start) :
    Ends cells' start ∧ chain cells' start = chain cells start := by
  refine ends_of_isPath (hends.of_get?_eq fun link hlink ↦ hother link.1 ?_) hnodup
  rintro rfl
  exact hoff (List.mem_map_of_mem hlink)

/-- Each cell is in one place: on the trail of one of these references, in somebody's hands, where
it leads nowhere, or gone. -/
structure SharedOut (cells : Heap (LimboCell ε)) (starts : List (Option NodeId))
    (hands gone : List NodeId) : Prop where
  ends : ∀ start ∈ starts, Ends cells start
  places : (starts.flatMap (trail cells) ++ hands ++ gone).Perm (List.range cells.size)
  held : ∀ cell ∈ hands, ∃ entry, cells.get? cell = some ⟨entry, none⟩
  cleared : ∀ cell ∈ gone, cells.get? cell = none

namespace SharedOut

variable {starts before after : List (Option NodeId)} {hands gone : List NodeId}

theorem nodup (hs : SharedOut cells starts hands gone) :
    (starts.flatMap (trail cells) ++ hands ++ gone).Nodup :=
  hs.places.nodup_iff.mpr List.nodup_range

theorem nodup_trails (hs : SharedOut cells starts hands gone) :
    (starts.flatMap (trail cells)).Nodup :=
  (List.nodup_append.mp (List.nodup_append.mp hs.nodup).1).1

theorem nodup_trail (hs : SharedOut cells starts hands gone) (hstart : start ∈ starts) :
    (trail cells start).Nodup :=
  (List.nodup_flatMap.mp hs.nodup_trails).1 start hstart

theorem nodup_hands (hs : SharedOut cells starts hands gone) : hands.Nodup :=
  (List.nodup_append.mp (List.nodup_append.mp hs.nodup).1).2.1

theorem lt_size (hs : SharedOut cells starts hands gone)
    (hcell : cell ∈ starts.flatMap (trail cells) ++ hands ++ gone) : cell < cells.size :=
  List.mem_range.mp (hs.places.mem_iff.mp hcell)

/-- A cell in somebody's hands is on no trail. -/
theorem not_mem_trail (hs : SharedOut cells starts hands gone) (hcell : cell ∈ hands)
    (hstart : start ∈ starts) : cell ∉ trail cells start := by
  intro hmem
  have hdisjoint := (List.nodup_append.mp (List.nodup_append.mp hs.nodup).1).2.2
  exact hdisjoint cell (List.mem_flatMap_of_mem hstart hmem) cell hcell rfl

/-- A cell that was made and is not gone is still there. -/
theorem exists_get? (hs : SharedOut cells starts hands gone) (hlt : cell < cells.size)
    (hgone : cell ∉ gone) : ∃ contents, cells.get? cell = some contents := by
  have hplace := hs.places.mem_iff.mpr (List.mem_range.mpr hlt)
  rcases List.mem_append.mp ((List.mem_append.mp hplace).resolve_right hgone) with hmem | hmem
  · obtain ⟨start, hstart, htrail⟩ := List.mem_flatMap.mp hmem
    obtain ⟨link, hlink, rfl⟩ := List.mem_map.mp htrail
    exact ⟨link.2, (hs.ends start hstart).get?_of_mem hlink⟩
  · obtain ⟨entry, hget⟩ := hs.held cell hmem
    exact ⟨⟨entry, none⟩, hget⟩

/-- A cell on one trail is on no other. -/
theorem not_mem_others (hs : SharedOut cells (before ++ start :: after) hands gone)
    (hcell : cell ∈ trail cells start) {other : Option NodeId} (hother : other ∈ before ++ after) :
    cell ∉ trail cells other := by
  intro hmem
  have htrails := hs.nodup_trails
  rw [List.flatMap_append, List.flatMap_cons] at htrails
  obtain ⟨-, hrest, hbefore⟩ := List.nodup_append.mp htrails
  rcases List.mem_append.mp hother with hother | hother
  · exact hbefore cell (List.mem_flatMap_of_mem hother hmem) cell
      (List.mem_append_left _ hcell) rfl
  · exact (List.nodup_append.mp hrest).2.2 cell hcell cell
      (List.mem_flatMap_of_mem hother hmem) rfl

theorem kept (hs : SharedOut cells starts hands gone)
    (hother : ∀ node, node ≠ cell → cells'.get? node = cells.get? node)
    (hstart : start ∈ starts) (hoff : cell ∉ trail cells start) :
    Ends cells' start ∧ chain cells' start = chain cells start :=
  (hs.ends start hstart).of_ne (hs.nodup_trail hstart) hother hoff

theorem held_of_ne (hs : SharedOut cells starts hands gone)
    (hother : ∀ node, node ≠ cell → cells'.get? node = cells.get? node) {node : NodeId}
    (hnode : node ∈ hands) (hne : node ≠ cell) :
    ∃ entry, cells'.get? node = some ⟨entry, none⟩ := by
  obtain ⟨entry, hget⟩ := hs.held node hnode
  exact ⟨entry, (hother node hne).trans hget⟩

/-- Changing a cell that is not gone brings none back. -/
theorem cleared_of_get? (hs : SharedOut cells starts hands gone)
    (hother : ∀ node, node ≠ cell → cells'.get? node = cells.get? node)
    (hget : cells.get? cell = some contents) {node : NodeId} (hnode : node ∈ gone) :
    cells'.get? node = none := by
  have hne : node ≠ cell := by
    rintro rfl
    rw [hs.cleared node hnode] at hget
    cases hget
  exact (hother node hne).trans (hs.cleared node hnode)

theorem flatMap_trail (h : ∀ start ∈ starts, chain cells' start = chain cells start) :
    starts.flatMap (trail cells') = starts.flatMap (trail cells) :=
  List.flatMap_congr fun start hstart ↦ congrArg (List.map Prod.fst) (h start hstart)

/-- A new cell is in the hands of whoever made it. -/
theorem alloc (hs : SharedOut cells starts hands gone) (entry : ε) :
    SharedOut (cells.alloc ⟨entry, none⟩).2 starts (hands ++ [cells.size]) gone ∧
      ∀ start ∈ starts, chain (cells.alloc ⟨entry, none⟩).2 start = chain cells start := by
  have hother : ∀ node, node ≠ cells.size →
      (cells.alloc ⟨entry, none⟩).2.get? node = cells.get? node :=
    fun node hnode ↦ (Heap.get?_alloc ..).trans (if_neg hnode)
  have hoff : ∀ start ∈ starts, cells.size ∉ trail cells start := by
    intro start hstart hmem
    have hall := List.mem_append_left hands (List.mem_flatMap_of_mem hstart hmem)
    exact Nat.lt_irrefl _ (hs.lt_size (List.mem_append_left gone hall))
  have hkept := fun start (hstart : start ∈ starts) ↦
    hs.kept hother hstart (hoff start hstart)
  have hchains := fun start hstart ↦ (hkept start hstart).2
  refine ⟨⟨fun start hstart ↦ (hkept start hstart).1, ?_, ?_, ?_⟩, hchains⟩
  · rw [flatMap_trail hchains, Heap.size_alloc, List.range_succ]
    refine List.Perm.trans ?_ (hs.places.append_right [cells.size])
    refine List.perm_iff_count.mpr fun node ↦ ?_
    simp only [List.count_append]
    omega
  · intro cell hcell
    rcases List.mem_append.mp hcell with hcell | hcell
    · obtain ⟨old, hget⟩ := hs.held cell hcell
      exact hs.held_of_ne hother hcell (Nat.ne_of_lt (Heap.lt_size_of_get? hget))
    · rw [List.mem_singleton.mp hcell]
      exact ⟨entry, (Heap.get?_alloc ..).trans (if_pos rfl)⟩
  · intro cell hcell
    have hlt := hs.lt_size (List.mem_append_right _ hcell)
    exact (hother cell (Nat.ne_of_lt hlt)).trans (hs.cleared cell hcell)

/-- A held cell that is made to lead to a chain goes on top of it. -/
theorem link (hs : SharedOut cells (start :: starts) hands gone) (hcell : cell ∈ hands)
    {entry : ε} (hget : cells.get? cell = some ⟨entry, none⟩) :
    SharedOut (cells.modify cell ({ · with next := start })) (some cell :: starts)
        (hands.erase cell) gone ∧
      chain (cells.modify cell ({ · with next := start })) (some cell) =
        (cell, ⟨entry, start⟩) :: chain cells start ∧
      ∀ other ∈ starts,
        chain (cells.modify cell ({ · with next := start })) other = chain cells other := by
  have hother : ∀ node, node ≠ cell →
      (cells.modify cell ({ · with next := start })).get? node = cells.get? node :=
    fun node hnode ↦ (Heap.get?_modify ..).trans (if_neg hnode.symm)
  have hkept := fun other (hmem : other ∈ start :: starts) ↦
    hs.kept hother hmem (hs.not_mem_trail hcell hmem)
  have hchains := fun other hmem ↦ (hkept other (List.mem_cons_of_mem start hmem)).2
  obtain ⟨hends, hbelow⟩ := hkept start List.mem_cons_self
  have hlinked : (cells.modify cell ({ · with next := start })).get? cell =
      some ⟨entry, start⟩ := by
    rw [Heap.get?_modify, if_pos rfl, hget]
    rfl
  obtain ⟨htop, hchain⟩ := ends_cons hlinked hends (by
    rw [trail, hbelow]
    exact List.nodup_cons.mpr
      ⟨hs.not_mem_trail hcell List.mem_cons_self, hs.nodup_trail List.mem_cons_self⟩)
  rw [hbelow] at hchain
  have htrail : trail (cells.modify cell ({ · with next := start })) (some cell) =
      cell :: trail cells start := congrArg (List.map Prod.fst) hchain
  refine ⟨⟨?_, ?_, ?_, ?_⟩, hchain, hchains⟩
  · intro other hmem
    rcases List.mem_cons.mp hmem with rfl | hmem
    · exact htop
    · exact (hkept other (List.mem_cons_of_mem start hmem)).1
  · rw [List.flatMap_cons, htrail, flatMap_trail hchains, Heap.size_modify]
    refine List.Perm.trans ?_ hs.places
    refine List.perm_iff_count.mpr fun node ↦ ?_
    have hcount := (List.perm_cons_erase hcell).count_eq node
    simp only [List.flatMap_cons, List.count_append, List.count_cons] at hcount ⊢
    omega
  · intro node hnode
    obtain ⟨hne, hnode⟩ := hs.nodup_hands.mem_erase_iff.mp hnode
    exact hs.held_of_ne hother hnode hne
  · intro node hnode
    exact hs.cleared_of_get? hother hget hnode

/-- The first cell of a chain that is cut off goes into somebody's hands, and the reference leads on
to the rest. -/
theorem cut (hs : SharedOut cells (before ++ some cell :: after) hands gone) :
    ∃ contents, cells.get? cell = some contents ∧
      SharedOut (cells.modify cell ({ · with next := none }))
        (before ++ contents.next :: after) (hands ++ [cell]) gone ∧
      chain cells (some cell) =
        (cell, contents) :: chain (cells.modify cell ({ · with next := none })) contents.next ∧
      ∀ other ∈ before ++ after,
        chain (cells.modify cell ({ · with next := none })) other = chain cells other := by
  have hother : ∀ node, node ≠ cell →
      (cells.modify cell ({ · with next := none })).get? node = cells.get? node :=
    fun node hnode ↦ (Heap.get?_modify ..).trans (if_neg hnode.symm)
  have hmem : some cell ∈ before ++ some cell :: after :=
    List.mem_append_right _ List.mem_cons_self
  have hnodup := hs.nodup_trail hmem
  obtain ⟨contents, hget, hrest, hchain⟩ := (hs.ends _ hmem).chain_eq_cons hnodup
  have htrail : trail cells (some cell) = cell :: trail cells contents.next :=
    congrArg (List.map Prod.fst) hchain
  rw [htrail] at hnodup
  obtain ⟨hoff, hnodup⟩ := List.nodup_cons.mp hnodup
  -- The rest of the chain avoids the cell, and so do the chains of the other references.
  obtain ⟨hends, hbelow⟩ := hrest.of_ne hnodup hother hoff
  have hkept := fun other (hothers : other ∈ before ++ after) ↦
    hs.kept hother (List.mem_append.mpr ((List.mem_append.mp hothers).imp_right
      (List.mem_cons_of_mem _)))
      (hs.not_mem_others (htrail ▸ List.mem_cons_self) hothers)
  refine ⟨contents, hget, ⟨?_, ?_, ?_, ?_⟩, by rw [hchain, hbelow],
    fun other hothers ↦ (hkept other hothers).2⟩
  · intro other hothers
    rcases List.mem_append.mp hothers with hothers | hothers
    · exact (hkept other (List.mem_append_left _ hothers)).1
    · rcases List.mem_cons.mp hothers with rfl | hothers
      · exact hends
      · exact (hkept other (List.mem_append_right _ hothers)).1
  · rw [List.flatMap_append, List.flatMap_cons, trail, hbelow, ← trail,
      flatMap_trail fun other h ↦ (hkept other (List.mem_append_left _ h)).2,
      flatMap_trail fun other h ↦ (hkept other (List.mem_append_right _ h)).2, Heap.size_modify]
    refine List.Perm.trans ?_ hs.places
    refine List.perm_iff_count.mpr fun node ↦ ?_
    rw [List.flatMap_append, List.flatMap_cons, htrail]
    simp only [List.count_append, List.count_cons, List.count_nil]
    omega
  · intro node hnode
    by_cases hne : node = cell
    · refine ⟨contents.entry, ?_⟩
      rw [hne, Heap.get?_modify, if_pos rfl, hget]
      rfl
    · have hhands := (List.mem_append.mp hnode).resolve_right (mt List.mem_singleton.mp hne)
      exact hs.held_of_ne hother hhands hne
  · intro node hnode
    exact hs.cleared_of_get? hother hget hnode

/-- A held cell that is given up is gone. -/
theorem free (hs : SharedOut cells starts hands gone) (hcell : cell ∈ hands) :
    SharedOut (cells.free cell) starts (hands.erase cell) (gone ++ [cell]) ∧
      ∀ start ∈ starts, chain (cells.free cell) start = chain cells start := by
  have hother : ∀ node, node ≠ cell → (cells.free cell).get? node = cells.get? node :=
    fun node hnode ↦ (Heap.get?_free ..).trans (if_neg hnode.symm)
  have hkept := fun start (hstart : start ∈ starts) ↦
    hs.kept hother hstart (hs.not_mem_trail hcell hstart)
  have hchains := fun start hstart ↦ (hkept start hstart).2
  obtain ⟨entry, hget⟩ := hs.held cell hcell
  refine ⟨⟨fun start hstart ↦ (hkept start hstart).1, ?_, ?_, ?_⟩, hchains⟩
  · rw [flatMap_trail hchains, Heap.size_free]
    refine List.Perm.trans ?_ hs.places
    refine List.perm_iff_count.mpr fun node ↦ ?_
    have hcount := (List.perm_cons_erase hcell).count_eq node
    simp only [List.count_append, List.count_cons, List.count_nil] at hcount ⊢
    omega
  · intro node hnode
    obtain ⟨hne, hnode⟩ := hs.nodup_hands.mem_erase_iff.mp hnode
    exact hs.held_of_ne hother hnode hne
  · intro node hnode
    rcases List.mem_append.mp hnode with hnode | hnode
    · exact hs.cleared_of_get? hother hget hnode
    · rw [List.mem_singleton.mp hnode]
      exact (Heap.get?_free ..).trans (if_pos rfl)

/-- A reference that is moved to a drain of its own leaves null in its place. -/
theorem detach (hs : SharedOut cells (start :: starts) hands gone) :
    SharedOut cells (none :: (starts ++ [start])) hands gone where
  ends other hother := by
    rcases List.mem_cons.mp hother with rfl | hother
    · exact (chain_none cells).1
    · apply hs.ends
      rcases List.mem_append.mp hother with hother | hother
      · exact List.mem_cons_of_mem start hother
      · exact List.mem_singleton.mp hother ▸ List.mem_cons_self
  places := by
    refine List.Perm.trans ?_ hs.places
    refine List.perm_iff_count.mpr fun node ↦ ?_
    simp only [List.flatMap_cons, List.flatMap_append, List.flatMap_nil, trail_none,
      List.count_append, List.count_nil]
    omega
  held := hs.held
  cleared := hs.cleared

end SharedOut

end Reclaim.LimboCell
