import Mathlib.Data.List.TakeWhile
import Reclaim.Proofs.CountedStack.Freeing

/-!
# References along the chain

`refs` lists the head word and the references of the linked nodes, down to the null reference at the
bottom. A push puts a word in front of them, unlinking takes the first one away, a claim raises the
count of the first one, and nothing else changes them. So while a node is linked, the references
below it stay the ones that the stack had when the node was pushed, and the count of the reference
to it never decreases. A node that is no longer linked is never linked again.
-/

namespace Reclaim

/-- The references of a path lead to its nodes and, last, to nothing. -/
theorem Heap.IsPath.map_next {β : Type} {h : Heap β} {next : β → Option NodeId}
    {start : Option NodeId} {links : List (NodeId × β)} (hpath : h.IsPath next start links) :
    start :: links.map (fun link ↦ next link.2) = links.map (fun link ↦ some link.1) ++ [none] := by
  induction links generalizing start with
  | nil =>
    rw [show start = none from hpath]
    rfl
  | cons link rest ih =>
    obtain ⟨hstart, -, hrest⟩ := hpath
    rw [List.map_cons, List.map_cons, List.cons_append, hstart, ih hrest]

namespace CountedStack

variable {α : Type} {s : CountedStack α} {node : NodeId}

/-- The head word, then the references of the linked nodes, the last of them null. -/
def refs (s : CountedStack α) : List Ref := s.head :: s.chain.map fun link ↦ link.2.next

def refsFrom (s : CountedStack α) (node : NodeId) : List Ref :=
  s.refs.dropWhile fun ref ↦ ref.node ≠ some node

def countTo (s : CountedStack α) (node : NodeId) : Nat :=
  (s.refsFrom node).head?.elim 0 fun ref ↦ ref.count.toNat

theorem refsFrom_of_ne {ref : Ref} {rest : List Ref} (hrefs : s.refs = ref :: rest)
    (hne : ref.node ≠ some node) :
    s.refsFrom node = rest.dropWhile fun ref ↦ ref.node ≠ some node := by
  rw [refsFrom, hrefs]
  exact List.dropWhile_cons_of_pos (decide_eq_true hne)

/-- All references lead from the top node on down. -/
theorem refsFrom_head (hhead : s.head.node = some node) : s.refsFrom node = s.refs := by
  rw [refsFrom, refs, List.dropWhile_cons_of_neg (by simp [hhead])]

namespace WellLinked

theorem map_node_refs (hs : s.WellLinked) :
    s.refs.map (fun ref ↦ ref.node) = s.linked.map some ++ [none] := by
  rw [refs, List.map_cons, List.map_map, linked, List.map_map]
  exact hs.path.map_next

/-- The references of a stack are those above a linked node, the one to it, and those below. -/
theorem exists_refs_eq (hs : s.WellLinked) (hmem : node ∈ s.linked) : ∃ above count,
    s.refs = above ++ ⟨some node, count⟩ :: (s.refsFrom node).tail ∧
      s.countTo node = count.toNat := by
  have hrefs : some node ∈ s.refs.map fun ref ↦ ref.node := by
    rw [hs.map_node_refs]
    exact List.mem_append_left _ (List.mem_map_of_mem hmem)
  obtain ⟨ref, href, hnode⟩ := List.mem_map.mp hrefs
  have hfrom : s.refsFrom node ≠ [] := by
    rw [refsFrom, ne_eq, List.dropWhile_eq_nil_iff]
    intro hpass
    exact of_decide_eq_true (hpass ref href) hnode
  have hfirst : ((s.refsFrom node).head hfrom).node = some node := by
    have hstop := List.head_dropWhile_not _ hfrom
    rwa [decide_eq_false_iff_not, not_not] at hstop
  have hcons : s.refsFrom node =
      ⟨some node, ((s.refsFrom node).head hfrom).count⟩ :: (s.refsFrom node).tail := by
    rw [← hfirst]
    exact (List.cons_head_tail hfrom).symm
  refine ⟨s.refs.takeWhile fun ref ↦ ref.node ≠ some node, ((s.refsFrom node).head hfrom).count,
    ?_, ?_⟩
  · rw [← hcons]
    exact List.takeWhile_append_dropWhile.symm
  · rw [countTo, List.head?_eq_some_head hfrom]
    rfl

theorem refs_push (hs : s.WellLinked) (value : α) :
    (s.push value).2.refs = ⟨some s.heap.size, 1⟩ :: s.refs := by
  rw [refs, (hs.chain_push value).1, List.map_cons, refs]
  rfl

theorem refs_setHead (hs : s.WellLinked) {ref : Ref} (hnode : ref.node = s.head.node) :
    { s with head := ref }.refs = ref :: s.refs.tail := by
  rw [refs, (hs.chain_setHead hnode).1, refs, List.tail_cons]

theorem refs_eq_cons {top : NodeId} {contents : Node α}
    (hchain : s.chain = (top, contents) :: { s with head := contents.next }.chain) :
    s.refs = s.head :: { s with head := contents.next }.refs := by
  rw [refs, hchain, List.map_cons, refs]

theorem refs_finish (hs : s.WellLinked) {count : Int64} (hfree : count = 0 → node ∉ s.linked) :
    (s.finish node count).state.refs = s.refs := by
  rw [refs, finish_head, (hs.chain_finish hfree).1, List.map_map, refs]
  congr 1
  apply List.map_congr_left
  intro link _
  simp only [Function.comp_apply, recount]
  split <;> rfl

end WellLinked

/-- A node is linked in `s`, what lies below it is the same in `t`, and the reference to it counts
no less there. -/
structure Undisturbed (s t : CountedStack α) (node : NodeId) : Prop where
  linked : node ∈ s.linked
  below : (t.refsFrom node).tail = (s.refsFrom node).tail
  count_le : s.countTo node ≤ t.countTo node

theorem Undisturbed.of_refsFrom_eq {t : CountedStack α} (hlinked : node ∈ s.linked)
    (hrefs : t.refsFrom node = s.refsFrom node) : s.Undisturbed t node where
  linked := hlinked
  below := by rw [hrefs]
  count_le := by rw [countTo, countTo, hrefs]

theorem Undisturbed.trans {t u : CountedStack α} (hst : s.Undisturbed t node)
    (htu : t.Undisturbed u node) : s.Undisturbed u node where
  linked := hst.linked
  below := htu.below.trans hst.below
  count_le := Nat.le_trans hst.count_le htu.count_le

namespace Ledger

variable {s t : Ledger α} {freed : List NodeId}

/-- A claim on the top node raises the count of the reference to it, and no other. -/
theorem undisturbed_afterClaim (hs : s.Balanced) {top : NodeId}
    (hhead : s.stack.head.node = some top) (hroom : s.stack.head.count.toNat ≠ 2 ^ 64 - 1)
    (hlinked : node ∈ s.stack.linked) :
    s.stack.Undisturbed s.afterClaim.stack node := by
  have hrefs : s.afterClaim.stack.refs = ⟨s.stack.head.node, s.stack.head.count + 1⟩ ::
      s.stack.refs.tail := hs.linked.refs_setHead rfl
  by_cases htop : top = node
  · have hbefore : s.stack.refsFrom node = s.stack.refs := refsFrom_head (htop ▸ hhead)
    have hafter : s.afterClaim.stack.refsFrom node = s.afterClaim.stack.refs :=
      refsFrom_head (htop ▸ hhead)
    refine ⟨hlinked, by rw [hbefore, hafter, hrefs, List.tail_cons], ?_⟩
    rw [countTo, countTo, hbefore, hafter, hrefs]
    change s.stack.head.count.toNat ≤ (s.stack.head.count + 1).toNat
    rw [toNat_add_one_of_ne hroom]
    exact Nat.le_succ _
  · have hne : s.stack.head.node ≠ some node := by
      rw [hhead, ne_eq, Option.some.injEq]
      exact htop
    apply Undisturbed.of_refsFrom_eq hlinked
    rw [refsFrom_of_ne hrefs hne, refsFrom_of_ne (s := s.stack) rfl hne]
    rfl

theorem Effect.undisturbed (heffect : Effect s freed t) (hs : s.Balanced)
    (hlt : node < s.stack.heap.size) (hlinked : node ∈ t.stack.linked) :
    s.stack.Undisturbed t.stack node := by
  cases heffect with
  | push value =>
    have hfresh : node ≠ s.stack.heap.size := Nat.ne_of_lt hlt
    rw [CountedStack.linked, (hs.linked.chain_push value).1, List.map_cons, List.mem_cons,
      or_iff_right hfresh] at hlinked
    apply Undisturbed.of_refsFrom_eq hlinked
    apply refsFrom_of_ne (hs.linked.refs_push value)
    rw [ne_eq, Option.some.injEq]
    exact hfresh.symm
  | claim hhead hroom =>
    apply undisturbed_afterClaim hs hhead hroom
    rwa [CountedStack.linked, show s.afterClaim.stack.chain = s.stack.chain from
      (hs.linked.chain_setHead rfl).1] at hlinked
  | @unlink token top contents hclaim hhead hget =>
    obtain ⟨found, hfound, hchain, -⟩ := hs.linked.chain_eq_cons hhead
    obtain rfl : found = contents := Option.some.inj (hfound.symm.trans hget)
    have hlist : s.stack.linked = top :: (s.afterUnlink token found).stack.linked :=
      linked_eq_cons hchain
    have hnodup := hs.linked.nodup
    rw [hlist, List.nodup_cons] at hnodup
    apply Undisturbed.of_refsFrom_eq
    · rw [hlist]
      exact List.mem_cons_of_mem top hlinked
    · refine (refsFrom_of_ne (WellLinked.refs_eq_cons hchain) ?_).symm
      rw [hhead, ne_eq, Option.some.injEq]
      rintro rfl
      exact hnodup.1 hlinked
  | @finish token ref old new delta other contents hfinish hclaim hnode hget =>
    apply Undisturbed.of_refsFrom_eq
    · rwa [hs.linked_afterFinish hfinish hclaim hnode hget] at hlinked
    · rw [refsFrom, refsFrom]
      have hfree := hs.not_linked_of_add_eq_zero hfinish hclaim hnode hget
      exact congrArg _ (hs.linked.refs_finish hfree)
  | close => exact .of_refsFrom_eq hlinked rfl

/-- While a node is linked nothing changes below it, and the count of the reference to it does not
decrease. -/
theorem Effects.undisturbed (heffects : Effects s freed t) (hs : s.Balanced)
    (hlt : node < s.stack.heap.size) (hlinked : node ∈ t.stack.linked) :
    s.stack.Undisturbed t.stack node := by
  induction heffects with
  | refl => exact .of_refsFrom_eq hlinked rfl
  | tail heffects heffect ih =>
    have hlt' := Nat.lt_of_lt_of_le hlt heffects.size_le
    have hstep := heffect.undisturbed (heffects.balanced hs) hlt' hlinked
    exact (ih hstep.linked).trans hstep

end Ledger

end CountedStack

end Reclaim
