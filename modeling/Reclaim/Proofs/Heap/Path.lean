import Reclaim.Heap

/-!
# Paths through a heap

`Heap.chain` walks as many steps as the heap ever made nodes, and stops early at a freed node.
`Heap.IsPath` says that a list of nodes is the whole way from a reference down to a null one, with
no freed node on it. A path without repetition is what the walk finds, so a path is all that has to
be followed through the operations on a heap.
-/

namespace Reclaim.Heap

variable {β : Type}

/-- `links` are the nodes from `start` along `next`, down to a null reference. -/
def IsPath (h : Heap β) (next : β → Option NodeId) :
    Option NodeId → List (NodeId × β) → Prop
  | start, [] => start = none
  | start, link :: rest =>
    start = some link.1 ∧ h.get? link.1 = some link.2 ∧ h.IsPath next (next link.2) rest

namespace IsPath

variable {h : Heap β} {next : β → Option NodeId} {start : Option NodeId}
  {links : List (NodeId × β)}

theorem get?_of_mem (hpath : h.IsPath next start links) {link : NodeId × β}
    (hmem : link ∈ links) : h.get? link.1 = some link.2 := by
  induction links generalizing start with
  | nil => cases hmem
  | cons first rest ih =>
    obtain ⟨-, hget, hrest⟩ := hpath
    cases List.mem_cons.mp hmem with
    | inl heq =>
      rw [heq]
      exact hget
    | inr hmem => exact ih hrest hmem

/-- A path stays a path when the contents of its nodes change, as long as they lead to the same
nodes. -/
theorem map_contents {g : Heap β} (hpath : h.IsPath next start links) (f : NodeId × β → β)
    (hget : ∀ link ∈ links, g.get? link.1 = some (f link))
    (hnext : ∀ link ∈ links, next (f link) = next link.2) :
    g.IsPath next start (links.map fun link ↦ (link.1, f link)) := by
  induction links generalizing start with
  | nil => exact hpath
  | cons first rest ih =>
    obtain ⟨hstart, -, hrest⟩ := hpath
    refine ⟨hstart, hget first List.mem_cons_self, ?_⟩
    rw [hnext first List.mem_cons_self]
    apply ih hrest
    · intro link hmem
      exact hget link (List.mem_cons_of_mem first hmem)
    · intro link hmem
      exact hnext link (List.mem_cons_of_mem first hmem)

/-- A path depends on its own nodes alone. -/
theorem of_get?_eq {g : Heap β} (hpath : h.IsPath next start links)
    (hget : ∀ link ∈ links, g.get? link.1 = h.get? link.1) : g.IsPath next start links := by
  have hmap := hpath.map_contents (g := g) Prod.snd
    (fun link hmem ↦ (hget link hmem).trans (hpath.get?_of_mem hmem)) (fun _ _ ↦ rfl)
  simpa using hmap

theorem walk_eq (hpath : h.IsPath next start links) {steps : Nat} (hsteps : links.length ≤ steps) :
    h.walk next steps start = links := by
  induction links generalizing start steps with
  | nil =>
    cases hpath
    cases steps <;> rfl
  | cons first rest ih =>
    obtain ⟨hstart, hget, hrest⟩ := hpath
    cases steps with
    | zero => cases hsteps
    | succ steps =>
      rw [hstart, walk, hget]
      simp only
      rw [ih hrest (Nat.le_of_succ_le_succ hsteps)]

theorem length_le_size (hpath : h.IsPath next start links)
    (hnodup : (links.map Prod.fst).Nodup) : links.length ≤ h.size := by
  have hsubset : links.map Prod.fst ⊆ List.range h.size := by
    intro node hmem
    obtain ⟨link, hlink, rfl⟩ := List.mem_map.mp hmem
    exact List.mem_range.mpr (lt_size_of_get? (hpath.get?_of_mem hlink))
  have hlength := hnodup.length_le_of_subset hsubset
  rwa [List.length_map, List.length_range] at hlength

theorem chain_eq (hpath : h.IsPath next start links) (hnodup : (links.map Prod.fst).Nodup) :
    h.chain next start = links :=
  hpath.walk_eq (hpath.length_le_size hnodup)

end IsPath

end Reclaim.Heap
