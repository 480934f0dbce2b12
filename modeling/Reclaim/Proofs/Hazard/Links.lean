import Reclaim.Proofs.Hazard.Aside
import Reclaim.Proofs.Heap.Path

/-!
# Links

The nodes linked in a stack, and how pushing, unlinking and freeing change them. A world is tidy if
every stack leads down to a null reference without meeting a freed node or the same node twice. A
pop sees only the top of its stack, so each change is described by what it does to the lists of
links, of the stack it is about and of all others.
-/

namespace Reclaim.Hazard.World

variable {n : Nat} {α : Type} {w v : World n α}

/-- The nodes linked in a stack from the top, none if the stack was dropped. -/
def links (w : World n α) (id : StackId) : List (NodeId × Node α) :=
  (w.stack? id).elim [] w.chain

/-- These are all the nodes from `head` down, without repetition. -/
structure Leads (w : World n α) (head : Option NodeId) (links : List (NodeId × Node α)) : Prop where
  path : w.heap.IsPath (·.next) head links
  nodup : (links.map Prod.fst).Nodup

def Tidy (w : World n α) : Prop :=
  ∀ id stack, w.stack? id = some stack → w.Leads stack.head (w.links id)

namespace Leads

variable {head : Option NodeId} {link : NodeId × Node α} {links : List (NodeId × Node α)}

theorem chain_eq {stack : Stack} (hleads : w.Leads stack.head links) : w.chain stack = links :=
  hleads.path.chain_eq hleads.nodup

theorem lt_size (hleads : w.Leads head links) (hmem : link ∈ links) : link.1 < w.heap.size :=
  Heap.lt_size_of_get? (hleads.path.get?_of_mem hmem)

theorem nil : w.Leads none [] := ⟨rfl, List.nodup_nil⟩

theorem tail (hleads : w.Leads head (link :: links)) : w.Leads link.2.next links :=
  ⟨hleads.path.2.2, (List.nodup_cons.mp hleads.nodup).2⟩

theorem not_mem_tail (hleads : w.Leads head (link :: links)) : link.1 ∉ links.map Prod.fst :=
  (List.nodup_cons.mp hleads.nodup).1

/-- What leads down in one world leads down in another whose heap holds the same for its nodes. -/
theorem of_get?_eq (hleads : w.Leads head links)
    (hget : ∀ link ∈ links, v.heap.get? link.1 = w.heap.get? link.1) : v.Leads head links :=
  ⟨hleads.path.of_get?_eq hget, hleads.nodup⟩

theorem top?_eq {stack : Stack} (hleads : w.Leads stack.head (link :: links)) :
    w.top? stack = some link := by
  obtain ⟨hhead, hget, -⟩ := hleads.path
  rw [top?, hhead, Option.bind_some, hget]
  rfl

end Leads

theorem links_of_stack? {id : StackId} {stack : Stack} (hstack : w.stack? id = some stack) :
    w.links id = w.chain stack := by
  rw [links, hstack]
  rfl

theorem links_of_dropped {id : StackId} (hstack : w.stack? id = none) : w.links id = [] := by
  rw [links, hstack]
  rfl

theorem links_of_no_stacks (hstacks : ∀ stack ∈ w.stacks, stack = none) (id : StackId) :
    w.links id = [] := by
  apply links_of_dropped
  rw [stack?]
  cases hfound : w.stacks[id]? with
  | none => rfl
  | some stack => exact hstacks stack (List.mem_of_getElem? hfound)

theorem links_eq {id : StackId} {stack : Stack} {links : List (NodeId × Node α)}
    (hstack : w.stack? id = some stack) (hleads : w.Leads stack.head links) :
    w.links id = links :=
  (links_of_stack? hstack).trans hleads.chain_eq

/-- A world is tidy if each of its stacks leads down. -/
theorem tidy_of_leads (h : ∀ id stack, w.stack? id = some stack →
    ∃ links, w.Leads stack.head links) : w.Tidy := by
  intro id stack hstack
  obtain ⟨links, hleads⟩ := h id stack hstack
  rwa [links_eq hstack hleads]

theorem Tidy.lt_size (hw : w.Tidy) {id : StackId} {link : NodeId × Node α}
    (hmem : link ∈ w.links id) : link.1 < w.heap.size := by
  cases hstack : w.stack? id with
  | none =>
    rw [links_of_dropped hstack] at hmem
    cases hmem
  | some stack => exact (hw id stack hstack).lt_size hmem

/-- The top of a stack is the first of its links. -/
theorem Tidy.links_eq_cons (hw : w.Tidy) {id : StackId} {stack : Stack} {link : NodeId × Node α}
    (hstack : w.stack? id = some stack) (htop : w.top? stack = some link) :
    w.links id = link :: (w.links id).tail := by
  have hleads := hw id stack hstack
  cases hlinks : w.links id with
  | nil =>
    rw [hlinks] at hleads
    rw [top?, show stack.head = none from hleads.path] at htop
    cases htop
  | cons first rest =>
    rw [hlinks] at hleads
    rw [hleads.top?_eq] at htop
    rw [Option.some.inj htop]
    rfl

theorem stack?_setHead (w : World n α) (id : StackId) (head : Option NodeId) (j : StackId) :
    (w.setHead id head).stack? j =
      if id = j then (w.stack? j).map ({ · with head }) else w.stack? j := by
  simp only [stack?, setHead, List.getElem?_modify]
  by_cases hj : id = j
  · simp only [hj, if_true]
    cases w.stacks[j]? with
    | none => rfl
    | some slot => rfl
  · simp [hj]

def forget (w : World n α) (id : StackId) : World n α :=
  { w with «stacks» := w.stacks.set id none }

theorem stack?_forget (w : World n α) (id j : StackId) :
    (w.forget id).stack? j = if id = j then none else w.stack? j := by
  simp only [stack?, forget, List.getElem?_set]
  by_cases hj : id = j
  · simp only [hj, if_true]
    split <;> rfl
  · simp [hj]

theorem stack?_addStack (w : World n α) (r : RegistryId) (j : StackId) :
    (w.addStack r).stack? j =
      if j = w.stacks.length then some { registry := r } else w.stack? j := by
  simp only [stack?, addStack]
  by_cases hj : j = w.stacks.length
  · subst hj
    simp
  · rw [if_neg hj]
    rcases Nat.lt_or_gt_of_ne hj with hlt | hgt
    · rw [List.getElem?_append_left hlt]
    · rw [List.getElem?_eq_none (by simp; omega), List.getElem?_eq_none (by omega)]

theorem links_congr (hstacks : v.stacks = w.stacks) (hheap : v.heap = w.heap) (id : StackId) :
    v.links id = w.links id := by
  simp only [links, stack?, hstacks]
  have hchain : v.chain = w.chain := by
    funext stack
    rw [chain, hheap, chain]
  rw [hchain]

theorem Tidy.congr (hw : w.Tidy) (hstacks : v.stacks = w.stacks) (hheap : v.heap = w.heap) :
    v.Tidy := by
  intro id stack hstack
  rw [stack?, hstacks, ← stack?] at hstack
  rw [links_congr hstacks hheap]
  apply (hw id stack hstack).of_get?_eq
  intro link _
  rw [hheap]

theorem stack?_eq_none_of_length_le {id : StackId} (hle : w.stacks.length ≤ id) :
    w.stack? id = none := by
  rw [stack?, List.getElem?_eq_none hle]
  rfl

theorem links_addStack (w : World n α) (r : RegistryId) (id : StackId) :
    (w.addStack r).links id = w.links id := by
  rw [links, stack?_addStack]
  by_cases hid : id = w.stacks.length
  · rw [if_pos hid, links_of_dropped (stack?_eq_none_of_length_le (Nat.le_of_eq hid.symm))]
    have hleads : (w.addStack r).Leads ({ registry := r } : Stack).head [] := .nil
    exact hleads.chain_eq
  · rw [if_neg hid]
    rfl

theorem Tidy.addStack (hw : w.Tidy) (r : RegistryId) : (w.addStack r).Tidy := by
  apply tidy_of_leads
  intro id stack hstack
  rw [stack?_addStack] at hstack
  split at hstack
  · obtain rfl := Option.some.inj hstack
    exact ⟨[], .nil⟩
  · exact ⟨w.links id, (hw id stack hstack).of_get?_eq fun _ _ ↦ rfl⟩

section

variable {id : StackId} {stack : Stack} {node : NodeId} {contents : Node α}

theorem get?_push_of_mem (hw : w.Tidy) (value : α) {j : StackId} {link : NodeId × Node α}
    (hmem : link ∈ w.links j) :
    (w.push id stack value).2.heap.get? link.1 = w.heap.get? link.1 := by
  have hne : link.1 ≠ w.heap.size := Nat.ne_of_lt (hw.lt_size hmem)
  exact (w.heap.get?_alloc _ _).trans (if_neg hne)

theorem stack?_push (value : α) (j : StackId) :
    (w.push id stack value).2.stack? j =
      if id = j then (w.stack? j).map ({ · with head := some w.heap.size }) else w.stack? j :=
  stack?_setHead _ id _ j

theorem leads_push (hw : w.Tidy) (hstack : w.stack? id = some stack) (value : α) :
    (w.push id stack value).2.Leads (some w.heap.size)
      ((w.heap.size, ⟨value, stack.head⟩) :: w.links id) where
  path := by
    refine ⟨rfl, (w.heap.get?_alloc _ _).trans (if_pos rfl), ?_⟩
    exact (hw id stack hstack).path.of_get?_eq fun link hmem ↦ get?_push_of_mem hw value hmem
  nodup := by
    rw [List.map_cons, List.nodup_cons]
    refine ⟨?_, (hw id stack hstack).nodup⟩
    intro hmem
    obtain ⟨link, hlink, hsize⟩ := List.mem_map.mp hmem
    exact Nat.ne_of_lt (hw.lt_size hlink) hsize

theorem Tidy.push (hw : w.Tidy) (hstack : w.stack? id = some stack) (value : α) :
    (w.push id stack value).2.Tidy := by
  apply tidy_of_leads
  intro j other hother
  rw [stack?_push] at hother
  split at hother
  · next hj =>
    subst hj
    rw [hstack] at hother
    obtain rfl := Option.some.inj hother
    exact ⟨_, leads_push hw hstack value⟩
  · exact ⟨w.links j, (hw j other hother).of_get?_eq fun _ hmem ↦ get?_push_of_mem hw value hmem⟩

/-- Pushing puts the new node on top of its stack. -/
theorem links_push (hw : w.Tidy) (hstack : w.stack? id = some stack) (value : α) (j : StackId) :
    (w.push id stack value).2.links j =
      if id = j then (w.heap.size, ⟨value, stack.head⟩) :: w.links j else w.links j := by
  have hnew : (w.push id stack value).2.stack? j = _ := stack?_push value j
  by_cases hj : id = j
  · subst hj
    rw [if_pos rfl, hstack] at hnew
    rw [if_pos rfl]
    exact links_eq hnew (leads_push hw hstack value)
  · rw [if_neg hj] at hnew
    rw [if_neg hj]
    cases hother : w.stack? j with
    | none =>
      rw [hother] at hnew
      rw [links_of_dropped hnew, links_of_dropped hother]
    | some other =>
      rw [hother] at hnew
      exact links_eq hnew
        ((hw j other hother).of_get?_eq fun _ hmem ↦ get?_push_of_mem hw value hmem)

theorem leads_setHead (hw : w.Tidy) (hstack : w.stack? id = some stack)
    (htop : w.top? stack = some (node, contents)) :
    w.Leads contents.next (w.links id).tail := by
  have hleads := hw id stack hstack
  rw [hw.links_eq_cons hstack htop] at hleads
  exact hleads.tail

theorem Tidy.setHead (hw : w.Tidy) (hstack : w.stack? id = some stack)
    (htop : w.top? stack = some (node, contents)) : (w.setHead id contents.next).Tidy := by
  apply tidy_of_leads
  intro j other hother
  rw [stack?_setHead] at hother
  split at hother
  · next hj =>
    subst hj
    rw [hstack] at hother
    obtain rfl := Option.some.inj hother
    exact ⟨_, (leads_setHead hw hstack htop).of_get?_eq fun _ _ ↦ rfl⟩
  · exact ⟨_, (hw j other hother).of_get?_eq fun _ _ ↦ rfl⟩

/-- Unlinking takes away the top node of its stack. -/
theorem links_setHead (hw : w.Tidy) (hstack : w.stack? id = some stack)
    (htop : w.top? stack = some (node, contents)) (j : StackId) :
    (w.setHead id contents.next).links j =
      if id = j then (w.links j).tail else w.links j := by
  have hnew := w.stack?_setHead id contents.next j
  by_cases hj : id = j
  · subst hj
    rw [if_pos rfl, hstack] at hnew
    rw [if_pos rfl]
    exact links_eq hnew ((leads_setHead hw hstack htop).of_get?_eq fun _ _ ↦ rfl)
  · rw [if_neg hj] at hnew
    rw [if_neg hj, links, hnew]
    rfl

end

theorem links_forget (w : World n α) (id j : StackId) :
    (w.forget id).links j = if id = j then [] else w.links j := by
  rw [links, stack?_forget]
  split <;> rfl

theorem Tidy.forget (hw : w.Tidy) (id : StackId) : (w.forget id).Tidy := by
  intro j stack hstack
  rw [stack?_forget] at hstack
  split at hstack
  · cases hstack
  · next hj =>
    rw [links_forget, if_neg hj]
    exact (hw j stack hstack).of_get?_eq fun _ _ ↦ rfl

section

variable {entry : Entry α}

theorem stacks_start (w : World n α) (entry : Entry α) : (w.start entry).stacks = w.stacks := by
  rw [start]
  split <;> rfl

theorem stack?_start (w : World n α) (entry : Entry α) (id : StackId) :
    (w.start entry).stack? id = w.stack? id := by
  rw [stack?, stacks_start, stack?]

theorem get?_start_of_ne {node : NodeId} (hne : entry.address ≠ .node node) :
    (w.start entry).heap.get? node = w.heap.get? node := by
  rw [start]
  split
  · next freed haddress =>
    have hfreed : freed ≠ node := by
      rintro rfl
      exact hne haddress
    exact (w.heap.get?_free _ _).trans (if_neg hfreed)
  · rfl

theorem Tidy.leads_start (hw : w.Tidy)
    (hfree : ∀ id, ∀ link ∈ w.links id, entry.address ≠ .node link.1) {id : StackId}
    {stack : Stack} (hstack : w.stack? id = some stack) :
    (w.start entry).Leads stack.head (w.links id) :=
  (hw id stack hstack).of_get?_eq fun link hmem ↦ get?_start_of_ne (hfree id link hmem)

theorem Tidy.start (hw : w.Tidy)
    (hfree : ∀ id, ∀ link ∈ w.links id, entry.address ≠ .node link.1) : (w.start entry).Tidy := by
  apply tidy_of_leads
  intro id stack hstack
  rw [stack?_start] at hstack
  exact ⟨w.links id, hw.leads_start hfree hstack⟩

/-- Freeing what is not linked leaves the links of all stacks. -/
theorem links_start (hw : w.Tidy)
    (hfree : ∀ id, ∀ link ∈ w.links id, entry.address ≠ .node link.1) (id : StackId) :
    (w.start entry).links id = w.links id := by
  have hnew := w.stack?_start entry id
  cases hstack : w.stack? id with
  | none =>
    rw [hstack] at hnew
    rw [links_of_dropped hnew, links_of_dropped hstack]
  | some stack =>
    rw [hstack] at hnew
    exact links_eq hnew (hw.leads_start hfree hstack)

end

end Reclaim.Hazard.World
