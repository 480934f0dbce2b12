import Mathlib.Data.List.Infix
import Reclaim.Proofs.CountedStack.References

/-!
# One winner for each node

The claims on a node carry the counts 2, 3, 4 and so on, in the order in which they were made. So
the head word equals a claim exactly if the claimed node is on top and no later claim was made on
it, whatever happened above the node in between. Who unlinks a node is therefore the one who claimed
it last, and since a node that left the chain never comes back, nobody else unlinks it.
-/

namespace Reclaim.CountedStack.Ledger

variable {α : Type} {s t : Ledger α} {freed : List NodeId} {node : NodeId}

def claimed (s : Ledger α) : List Ref := s.claims.map Claim.ref

theorem claimed_getElem? {token : Nat} {ref : Ref} {stage : Stage}
    (hclaim : s.claims[token]? = some ⟨ref, stage⟩) : s.claimed[token]? = some ref := by
  rw [claimed, List.getElem?_map, hclaim]
  rfl

theorem claimed_of_advance {token : Nat} {ref : Ref} {old new : Stage}
    (hadvance : t.claims = s.advance token ref new)
    (hclaim : s.claims[token]? = some ⟨ref, old⟩) : t.claimed = s.claimed := by
  obtain ⟨hlt, hget⟩ := List.getElem?_eq_some_iff.mp (claimed_getElem? hclaim)
  rw [claimed, hadvance, advance, List.map_set]
  change s.claimed.set token ref = s.claimed
  rw [← hget, List.set_getElem_self hlt]

theorem claimsOn_eq_countP (s : Ledger α) (node : NodeId) :
    s.claimsOn node = s.claimed.countP fun ref ↦ ref.node = some node := by
  rw [claimed, List.countP_map]
  rfl

/-- A claim hands out the next word for the top node; no other effect hands out a word. -/
theorem Effect.claimed_eq (heffect : Effect s freed t) :
    t.claimed = s.claimed ∨ ∃ top, s.stack.head.node = some top ∧
      s.stack.head.count.toNat ≠ 2 ^ 64 - 1 ∧
        t.claimed = s.claimed ++ [⟨s.stack.head.node, s.stack.head.count + 1⟩] := by
  cases heffect with
  | push value => exact Or.inl rfl
  | claim hhead hroom => exact Or.inr ⟨_, hhead, hroom, List.map_append⟩
  | unlink hclaim => exact Or.inl (claimed_of_advance rfl hclaim)
  | finish _ hclaim => exact Or.inl (claimed_of_advance rfl hclaim)
  | close => exact Or.inl rfl

theorem Effects.claimed_extends (heffects : Effects s freed t) : s.claimed <+: t.claimed := by
  induction heffects with
  | refl => exact List.prefix_refl _
  | tail _ heffect ih =>
    rcases heffect.claimed_eq with hsame | ⟨top, -, -, hmore⟩
    · rwa [hsame]
    · rw [hmore]
      exact ih.trans (List.prefix_append _ _)

/-- Each claim counts the claims on its node up to itself, and the reference to the node. -/
def Numbered (s : Ledger α) : Prop :=
  ∀ (token : Nat) (ref : Ref) (node : NodeId), s.claimed[token]? = some ref →
    ref.node = some node →
      ref.count.toNat = 2 + (s.claimed.take token).countP fun ref ↦ ref.node = some node

theorem Effect.numbered (heffect : Effect s freed t) (hs : s.Balanced) (hnumbered : s.Numbered) :
    t.Numbered := by
  rcases heffect.claimed_eq with hsame | ⟨top, hhead, hroom, hmore⟩
  · rwa [Numbered, hsame]
  · intro token ref node hget hnode
    rw [hmore] at hget ⊢
    by_cases hold : token < s.claimed.length
    · rw [List.getElem?_append_left hold] at hget
      rw [List.take_append_of_le_length (Nat.le_of_lt hold)]
      exact hnumbered token ref node hget hnode
    · obtain rfl : token = s.claimed.length := by
        have hlt := (List.getElem?_eq_some_iff.mp hget).1
        rw [List.length_append, List.length_singleton] at hlt
        omega
      rw [List.getElem?_concat_length, Option.some.injEq] at hget
      rw [List.take_left, ← claimsOn_eq_countP, ← hget]
      rw [← hget, hhead, Option.some.injEq] at hnode
      change (s.stack.head.count + 1).toNat = _
      rw [toNat_add_one_of_ne hroom, hs.count_head hhead, hnode]
      omega

theorem Effects.numbered (heffects : Effects s freed t) (hs : s.Balanced)
    (hnumbered : s.Numbered) : t.Numbered := by
  induction heffects with
  | refl => exact hnumbered
  | tail heffects heffect ih => exact heffect.numbered (heffects.balanced hs) ih

/-- Later claims on a node carry greater counts. -/
theorem Numbered.count_lt (hnumbered : s.Numbered) {token later : Nat} {ref ref' : Ref}
    (hlt : token < later) (hget : s.claimed[token]? = some ref)
    (hget' : s.claimed[later]? = some ref') (hnode : ref.node = some node)
    (hnode' : ref'.node = some node) : ref.count.toNat < ref'.count.toNat := by
  rw [hnumbered token ref node hget hnode, hnumbered later ref' node hget' hnode']
  have hextends : s.claimed.take token ++ [ref] <+: s.claimed.take later := by
    rw [← Option.toList_some, ← hget, ← List.take_add_one]
    exact List.take_prefix_take_left hlt
  have hle := hextends.sublist.countP_le (p := fun ref : Ref ↦ ref.node = some node)
  rw [List.countP_append, List.countP_singleton, if_pos (decide_eq_true hnode)] at hle
  omega

def IsLatest (s : Ledger α) (token : Nat) (node : NodeId) : Prop :=
  ∀ (later : Nat) (claim : Claim), token < later → s.claims[later]? = some claim →
    ¬ claim.IsOn node

theorem isLatest_iff {token : Nat} : s.IsLatest token node ↔
    (s.claimed.drop (token + 1)).countP (fun ref ↦ ref.node = some node) = 0 := by
  rw [List.countP_eq_zero]
  constructor
  · intro hlatest ref hmem hnode
    obtain ⟨place, hget⟩ := List.getElem?_of_mem hmem
    rw [List.getElem?_drop, claimed, List.getElem?_map, Option.map_eq_some_iff] at hget
    obtain ⟨claim, hclaim, rfl⟩ := hget
    exact hlatest _ claim (by omega) hclaim (of_decide_eq_true hnode)
  · intro hnone later claim hlt hclaim hon
    apply hnone claim.ref _ (decide_eq_true hon)
    apply List.mem_of_getElem? (i := later - (token + 1))
    rw [List.getElem?_drop, Nat.add_sub_cancel' hlt, claimed, List.getElem?_map, hclaim]
    rfl

/-- The head word is a claim on a node exactly if the node is on top and was not claimed since. -/
theorem Numbered.eq_head_iff (hnumbered : s.Numbered) (hs : s.Balanced) {token : Nat} {ref : Ref}
    (hget : s.claimed[token]? = some ref) (hnode : ref.node = some node) :
    ref = s.stack.head ↔ s.stack.head.node = some node ∧ s.IsLatest token node := by
  obtain ⟨hlt, helem⟩ := List.getElem?_eq_some_iff.mp hget
  have hcount := hnumbered token ref node hget hnode
  have hsplit : s.claimsOn node = (s.claimed.take token).countP (fun ref ↦ ref.node = some node) +
      (1 + (s.claimed.drop (token + 1)).countP fun ref ↦ ref.node = some node) := by
    rw [claimsOn_eq_countP]
    conv_lhs => rw [← List.take_append_drop token s.claimed, List.drop_eq_getElem_cons hlt, helem]
    rw [List.countP_append, List.countP_cons, if_pos (decide_eq_true hnode), Nat.add_comm 1]
  rw [isLatest_iff]
  constructor
  · rintro rfl
    have hhead := hs.count_head hnode
    exact ⟨hnode, by omega⟩
  · rintro ⟨htop, hzero⟩
    have hhead := hs.count_head htop
    have hwords : ref.count = s.stack.head.count := UInt64.toNat_inj.mp (by omega)
    cases ref with
    | mk target count =>
      rw [show target = s.stack.head.node from hnode.trans htop.symm, show count = _ from hwords]

theorem IsLatest.of_extends {token : Nat} (hextends : s.claimed <+: t.claimed)
    (hlatest : t.IsLatest token node) :
    s.IsLatest token node := by
  rw [isLatest_iff] at hlatest ⊢
  apply Nat.eq_zero_of_le_zero
  rw [← hlatest]
  exact (List.IsPrefix.drop hextends (token + 1)).sublist.countP_le

/-- A claim keeps its place and its word. -/
theorem isOn_of_extends {token : Nat} {claim claim' : Claim} (hextends : s.claimed <+: t.claimed)
    (hclaim : s.claims[token]? = some claim) (hclaim' : t.claims[token]? = some claim')
    (hon : claim.IsOn node) : claim'.IsOn node := by
  have hget := claimed_getElem? hclaim
  have hget' := claimed_getElem? hclaim'
  obtain ⟨made, hmade⟩ := hextends
  rw [← hmade, List.getElem?_append_left (List.getElem?_eq_some_iff.mp hget).1, hget,
    Option.some.injEq] at hget'
  rwa [Claim.IsOn, ← hget']

section

variable [Destructor α] {moves later : List (Move α)} {reply : Reply α} {token : Nat}

/-- A token that holds a claim on a node tries to unlink it, and succeeds exactly if the node is on
top and was not claimed since. -/
theorem unlink_iff (hs : s.Balanced) (hnumbered : s.Numbered) {claim : Claim}
    (hclaim : s.claims[token]? = some claim) (hon : claim.IsOn node)
    (hperform : s.perform (.unlink token) = some reply) :
    (reply.result = .ok .unlinked ∨ reply.result = .ok (.notUnlinked s.stack.head)) ∧
      (reply.result = .ok .unlinked ↔
        s.stack.head.node = some node ∧ s.IsLatest token node) := by
  obtain ⟨ref, hheld, hcases⟩ := unlink_cases hs hperform
  obtain rfl : claim = ⟨ref, .held⟩ := Option.some.inj (hclaim.symm.trans hheld)
  rw [← hnumbered.eq_head_iff hs (claimed_getElem? hheld) hon]
  rcases hcases with ⟨hhead, top, contents, -, -, rfl⟩ | ⟨hhead, rfl⟩
  · exact ⟨Or.inl rfl, fun _ ↦ hhead, fun _ ↦ rfl⟩
  · exact ⟨Or.inr rfl, nofun, fun h ↦ absurd h hhead⟩

theorem exists_unlink (hs : s.Balanced) (hkept : s.dropped = false) {ref : Ref}
    (hclaim : s.claims[token]? = some ⟨ref, .held⟩) :
    ∃ reply, s.perform (.unlink token) = some reply := by
  obtain ⟨node, contents, hnode, hget⟩ := hs.exists_get?_of_open hclaim (Or.inl rfl)
  rw [perform_of_kept hkept, carryOut, hclaim]
  simp only [unlinkTop_eq hnode hget]
  by_cases hhead : s.stack.head = ref
  · rw [if_pos hhead]
    exact ⟨_, rfl⟩
  · rw [if_neg hhead]
    exact ⟨_, rfl⟩

/-- Unlinking a node installs what its own reference says. -/
theorem refs_unlink (hs : s.Balanced) (hperform : s.perform (.unlink token) = some reply)
    (hresult : reply.result = .ok .unlinked) :
    s.stack.refs = s.stack.head :: reply.state.stack.refs ∧
      ∃ node, s.stack.head.node = some node ∧ node ∉ reply.state.stack.linked := by
  obtain ⟨ref, -, ⟨-, top, contents, hhead, hget, rfl⟩ | ⟨-, rfl⟩⟩ := unlink_cases hs hperform
  · obtain ⟨found, hfound, hchain, -⟩ := hs.linked.chain_eq_cons hhead
    obtain rfl := Option.some.inj (hfound.symm.trans hget)
    have hnodup := hs.linked.nodup
    rw [linked_eq_cons hchain, List.nodup_cons] at hnodup
    exact ⟨WellLinked.refs_eq_cons hchain, top, hhead, hnodup.1⟩
  · cases hresult

/-! ## Histories -/

def NoOverflow (moves : List (Move α)) : Prop := ∀ move ∈ moves, ¬ Overflows move.reply.result

theorem Run.numbered (hrun : Run {} moves s) (hcalm : NoOverflow moves) : s.Numbered := by
  apply (hrun.effects balanced_new (calm_of_not_overflows hcalm)).numbered balanced_new
  intro token ref node hget
  cases hget

/-- What balanced and numbered ledgers lead to is balanced and numbered. -/
theorem Run.reach (hlater : Run s later t) (hs : s.Balanced) (hnumbered : s.Numbered)
    (hcalm : NoOverflow later) :
    Effects s (freedIn later) t ∧ t.Balanced ∧ t.Numbered := by
  have heffects := hlater.effects hs (calm_of_not_overflows hcalm)
  exact ⟨heffects, heffects.balanced hs, heffects.numbered hs hnumbered⟩

theorem reach_of_perform {step : Step α} {answer : Answer α} (hs : s.Balanced)
    (hnumbered : s.Numbered) (hperform : s.perform step = some reply)
    (hresult : reply.result = .ok answer) :
    s.stack.heap.size ≤ reply.state.stack.heap.size ∧ reply.state.Balanced ∧
      reply.state.Numbered := by
  obtain ⟨heffects, hreply⟩ := (Run.step .start hperform).reach hs hnumbered (by
    intro move hmem
    rw [List.mem_singleton.mp hmem, hresult]
    exact not_overflows_ok answer)
  exact ⟨heffects.size_le, hreply⟩

/-- Once a node was claimed again, an earlier claim on it unlinks nothing any more. -/
theorem unlink_of_not_isLatest (ht : t.Balanced) (hnumbered : t.Numbered)
    (hextends : s.claimed <+: t.claimed) {claim : Claim} (hclaim : s.claims[token]? = some claim)
    (hon : claim.IsOn node) (hlatest : ¬ s.IsLatest token node)
    (hperform : t.perform (.unlink token) = some reply) :
    reply.result = .ok (.notUnlinked t.stack.head) := by
  obtain ⟨ref, hheld, -⟩ := unlink_cases ht hperform
  obtain ⟨hresult, hiff⟩ :=
    unlink_iff ht hnumbered hheld (isOn_of_extends hextends hclaim hheld hon) hperform
  rcases hresult with hwon | hlost
  · exact absurd ((hiff.mp hwon).2.of_extends hextends) hlatest
  · exact hlost

/-- A node that is not linked is not unlinked either. -/
theorem not_unlinked_of_not_linked (ht : t.Balanced) (hnumbered : t.Numbered)
    (hgone : node ∉ t.stack.linked) {claim : Claim} (hclaim : t.claims[token]? = some claim)
    (hon : claim.IsOn node) (hperform : t.perform (.unlink token) = some reply) :
    reply.result ≠ .ok .unlinked := by
  intro hwon
  obtain ⟨-, hiff⟩ := unlink_iff ht hnumbered hclaim hon hperform
  exact hgone (ht.linked.mem_linked_of_head (hiff.mp hwon).1)

/-- A node that was unlinked is never linked again. -/
theorem not_linked_of_unlinked (hs : s.Balanced) (hnumbered : s.Numbered) {claim : Claim}
    (hclaim : s.claims[token]? = some claim) (hon : claim.IsOn node)
    (hperform : s.perform (.unlink token) = some reply) (hwon : reply.result = .ok .unlinked)
    (hlater : Run reply.state later t) (hcalm : NoOverflow later) : node ∉ t.stack.linked := by
  obtain ⟨hsize, hreply, hnumbered'⟩ := reach_of_perform hs hnumbered hperform hwon
  obtain ⟨heffects, -⟩ := hlater.reach hreply hnumbered' hcalm
  obtain ⟨-, top, hhead, hgone⟩ := refs_unlink hs hperform hwon
  have htop := ((unlink_iff hs hnumbered hclaim hon hperform).2.mp hwon).1
  obtain rfl : top = node := Option.some.inj (hhead.symm.trans htop)
  have hlt := Nat.lt_of_lt_of_le (hs.lt_size_of_isOn (List.mem_of_getElem? hclaim) hon) hsize
  intro hlinked
  exact hgone (heffects.undisturbed hreply hlt hlinked).linked

/-- The words below a pushed node are those of the stack before the push. -/
theorem below_pushed (hs : s.Balanced) (hnumbered : s.Numbered) {value : α}
    (hperform : s.perform (.push value) = some reply) (hresult : reply.result = .ok (.pushed node))
    (hlater : Run reply.state later t) (hcalm : NoOverflow later)
    (hlinked : node ∈ t.stack.linked) : (t.stack.refsFrom node).tail = s.stack.refs := by
  obtain ⟨-, hreply, hnumbered'⟩ := reach_of_perform hs hnumbered hperform hresult
  obtain ⟨heffects, -⟩ := hlater.reach hreply hnumbered' hcalm
  obtain rfl := Option.some.inj (perform_eq_some_iff.mp hperform).2
  obtain rfl : s.stack.heap.size = node := by
    cases hresult
    rfl
  have hlt : s.stack.heap.size < (s.stack.push value).2.heap.size := by
    rw [size_push]
    exact Nat.lt_succ_self _
  rw [(heffects.undisturbed hreply hlt hlinked).below]
  change ((s.stack.push value).2.refsFrom s.stack.heap.size).tail = _
  rw [refsFrom_head rfl, hs.linked.refs_push value, List.tail_cons]

/-- Unlinking a node gives back the words below it. -/
theorem refs_of_unlink (ht : t.Balanced) (hnumbered : t.Numbered) {claim : Claim}
    (hclaim : t.claims[token]? = some claim) (hon : claim.IsOn node)
    (hperform : t.perform (.unlink token) = some reply) (hwon : reply.result = .ok .unlinked) :
    node ∈ t.stack.linked ∧ reply.state.stack.refs = (t.stack.refsFrom node).tail := by
  have hhead := ((unlink_iff ht hnumbered hclaim hon hperform).2.mp hwon).1
  refine ⟨ht.linked.mem_linked_of_head hhead, ?_⟩
  rw [refsFrom_head hhead, (refs_unlink ht hperform hwon).1, List.tail_cons]

/-- Nobody wins a node twice, and no stale word is ever taken for a current one. In every run in
which checked arithmetic does not fault, later claims on a node carry greater counts, and a token
unlinks the node that it claimed exactly if that node is on top and was not claimed since. Whatever
happens later, a linked node keeps everything below it as it was, under a count that does not
decrease; a token that is not the last to have claimed its node fails; and once a node is unlinked
it is never linked again, so that no other token unlinks it. The words below a node are those that
the stack had when the node was pushed, and unlinking it brings them back. -/
theorem one_winner_per_node (hrun : Run {} moves s) (hcalm : NoOverflow moves) :
    (∀ (token later : Nat) (claim claim' : Claim) (node : NodeId), token < later →
      s.claims[token]? = some claim → s.claims[later]? = some claim' → claim.IsOn node →
        claim'.IsOn node → claim.ref.count < claim'.ref.count) ∧
    (∀ (token : Nat) (claim : Claim) (node : NodeId), s.claims[token]? = some claim →
      claim.IsOn node →
        (claim.stage = .held → s.dropped = false →
          ∃ reply, s.perform (.unlink token) = some reply) ∧
        ∀ reply, s.perform (.unlink token) = some reply →
          (reply.result = .ok .unlinked ∨ reply.result = .ok (.notUnlinked s.stack.head)) ∧
          (reply.result = .ok .unlinked ↔
            s.stack.head.node = some node ∧ s.IsLatest token node)) ∧
    (∀ later t, Run s later t → NoOverflow later →
      (∀ node ∈ t.stack.linked, node < s.stack.heap.size → s.stack.Undisturbed t.stack node) ∧
      ∀ (token : Nat) (claim : Claim) (node : NodeId), s.claims[token]? = some claim →
        claim.IsOn node → ¬ s.IsLatest token node → ∀ reply,
          t.perform (.unlink token) = some reply →
            reply.result = .ok (.notUnlinked t.stack.head)) ∧
    (∀ (token : Nat) (claim : Claim) (node : NodeId) (reply : Reply α),
      s.claims[token]? = some claim → claim.IsOn node → s.perform (.unlink token) = some reply →
        reply.result = .ok .unlinked → ∀ later t, Run reply.state later t → NoOverflow later →
          node ∉ t.stack.linked ∧
          ∀ (token : Nat) (claim : Claim) (other : Reply α), t.claims[token]? = some claim →
            claim.IsOn node → t.perform (.unlink token) = some other →
              other.result ≠ .ok .unlinked) ∧
    (∀ (value : α) (pushed : Reply α) (node : NodeId), s.perform (.push value) = some pushed →
      pushed.result = .ok (.pushed node) → ∀ later t, Run pushed.state later t →
        NoOverflow later →
          (node ∈ t.stack.linked →
            ∃ above count, t.stack.refs = above ++ ⟨some node, count⟩ :: s.stack.refs) ∧
          ∀ (token : Nat) (claim : Claim) (reply : Reply α), t.claims[token]? = some claim →
            claim.IsOn node → t.perform (.unlink token) = some reply →
              reply.result = .ok .unlinked → reply.state.stack.head = s.stack.head) := by
  have hs : s.Balanced := hrun.balanced (calm_of_not_overflows hcalm)
  have hnumbered := hrun.numbered hcalm
  refine ⟨?_, ?_, ?_, ?_, ?_⟩
  · intro token later claim claim' node hlt hclaim hclaim' hon hon'
    rw [UInt64.lt_iff_toNat_lt]
    exact hnumbered.count_lt hlt (claimed_getElem? hclaim) (claimed_getElem? hclaim') hon hon'
  · intro token claim node hclaim hon
    refine ⟨?_, ?_⟩
    · intro hheld hkept
      have hclaim' : s.claims[token]? = some ⟨claim.ref, .held⟩ := by rw [hclaim, ← hheld]
      exact exists_unlink hs hkept hclaim'
    · intro reply hperform
      exact unlink_iff hs hnumbered hclaim hon hperform
  · intro later t hlater hcalm
    obtain ⟨heffects, ht, hnumbered'⟩ := hlater.reach hs hnumbered hcalm
    refine ⟨?_, ?_⟩
    · intro node hlinked hlt
      exact heffects.undisturbed hs hlt hlinked
    · intro token claim node hclaim hon hlatest reply hperform
      have hextends := heffects.claimed_extends
      exact unlink_of_not_isLatest ht hnumbered' hextends hclaim hon hlatest hperform
  · intro token claim node reply hclaim hon hperform hwon later t hlater hcalm
    have hgone := not_linked_of_unlinked hs hnumbered hclaim hon hperform hwon hlater hcalm
    refine ⟨hgone, ?_⟩
    intro token' claim' other hclaim' hon' hperform'
    obtain ⟨-, hreply, hnumbered'⟩ := reach_of_perform hs hnumbered hperform hwon
    obtain ⟨-, ht, hnumbered''⟩ := hlater.reach hreply hnumbered' hcalm
    exact not_unlinked_of_not_linked ht hnumbered'' hgone hclaim' hon' hperform'
  · intro value pushed node hperform hresult later t hlater hcalm
    obtain ⟨-, hpushed, hnumbered'⟩ := reach_of_perform hs hnumbered hperform hresult
    obtain ⟨-, ht, hnumbered''⟩ := hlater.reach hpushed hnumbered' hcalm
    have hbelow := below_pushed hs hnumbered hperform hresult hlater hcalm
    refine ⟨?_, ?_⟩
    · intro hlinked
      obtain ⟨above, count, hrefs, -⟩ := ht.linked.exists_refs_eq hlinked
      rw [hbelow hlinked] at hrefs
      exact ⟨above, count, hrefs⟩
    · intro token claim reply hclaim hon hperform' hwon
      obtain ⟨hlinked, hrefs⟩ := refs_of_unlink ht hnumbered'' hclaim hon hperform' hwon
      rw [hbelow hlinked] at hrefs
      exact (List.cons.inj hrefs).1

/-- The first reader of a contended node fails, since the second claimed the node after it. -/
theorem one_winner_per_node_contention : ∃ reply,
    (contended (some 0) ⟨some 0, 3⟩ [⟨⟨some 0, 2⟩, .held⟩, ⟨⟨some 0, 3⟩, .held⟩]).perform
      (.unlink 0) = some reply ∧ reply.result = .ok (.notUnlinked ⟨some 0, 3⟩) := by
  have hwinner := one_winner_per_node run_contention (by
    intro move hmem
    simp only [contention, List.mem_cons, List.not_mem_nil, or_false] at hmem
    rcases hmem with rfl | rfl | rfl <;> exact not_overflows_ok _)
  obtain ⟨reply, hperform⟩ := (hwinner.2.1 0 ⟨⟨some 0, 2⟩, .held⟩ 0 rfl rfl).1 rfl rfl
  refine ⟨reply, hperform, ?_⟩
  have hstays := hwinner.2.2.1 [] _ .start (List.forall_mem_nil _)
  apply hstays.2 0 ⟨⟨some 0, 2⟩, .held⟩ 0 rfl rfl _ reply hperform
  intro hlatest
  exact hlatest 1 ⟨⟨some 0, 3⟩, .held⟩ (by decide) rfl rfl

end

end Reclaim.CountedStack.Ledger
