import Mathlib.Data.List.Basic
import Reclaim.Lists
import Reclaim.Proofs.CountedStack.Lifo

/-!
# Shadows

A value belongs to the stack while its node is linked, and to a token from when the node is unlinked
until it is settled. It leaves by being handed out or by being destroyed, and no step makes or loses
a value besides.

A settlement that faults leaves a wrong internal count behind, so that the ledger is no longer
balanced. But the value of that node has left the stack, and of the other nodes nothing changes. So
every ledger has a balanced one for a shadow, in which those settlements did not fault, and the two
differ only in nodes whose values are gone.
-/

namespace Reclaim.CountedStack.Ledger

variable {α : Type} {s t : Ledger α} {freed : List NodeId}

/-- The value of an unlinked node that is not settled, which its token owns. -/
def owned? (s : Ledger α) (claim : Claim) : Option α :=
  if claim.stage = .unlinked then (s.stack.node? claim.ref).map (·.value) else none

def owned (s : Ledger α) : List α := s.claims.filterMap s.owned?

/-- The values that have not left: those linked in the stack and those that tokens own. -/
def values (s : Ledger α) : List α := s.stack.toList ++ s.owned

theorem owned?_of_ne {claim : Claim} (hstage : claim.stage ≠ .unlinked) : s.owned? claim = none :=
  if_neg hstage

/-- A node keeps its value until it is freed, so what a token owns stays the same. -/
theorem filterMap_owned?_of_effects (heffects : Effects s freed t) (ht : t.Balanced)
    (hknown : ∀ claim ∈ t.claims, claim.stage = .unlinked →
      ∃ node < s.stack.heap.size, claim.IsOn node) :
    t.owned = t.claims.filterMap s.owned? := by
  apply List.filterMap_congr
  intro claim hmem
  obtain ⟨ref, stage⟩ := claim
  by_cases hstage : stage = .unlinked
  · subst hstage
    obtain ⟨token, hclaim⟩ := List.getElem?_of_mem hmem
    obtain ⟨node, after, hnode, hafter⟩ := ht.exists_get?_of_open hclaim (Or.inr rfl)
    obtain ⟨node', hlt, hon⟩ := hknown _ hmem rfl
    obtain rfl : node = node' := Option.some.inj (hnode.symm.trans hon)
    obtain ⟨before, hbefore, hvalue⟩ := heffects.value_eq hlt hafter
    rw [owned?, owned?, node?_eq_get? hnode, node?_eq_get? hnode, hafter, hbefore]
    simp only [if_true, Option.map_some, hvalue]
  · rw [owned?_of_ne hstage, owned?_of_ne hstage]

section

variable {token : Nat} {ref : Ref} {old new : Stage}

/-- A claim that moves on brings in or lets go of the value of its node. -/
theorem owned_of_advance (hs : s.Balanced) (heffects : Effects s freed t) (ht : t.Balanced)
    (hclaim : s.claims[token]? = some ⟨ref, old⟩) (hadvance : t.claims = s.advance token ref new) :
    ((s.owned? ⟨ref, old⟩).toList ++ t.owned).Perm ((s.owned? ⟨ref, new⟩).toList ++ s.owned) := by
  rw [filterMap_owned?_of_effects heffects ht, hadvance]
  · obtain ⟨rest, hbefore, hafter⟩ := exists_perm_set hclaim fun claim ↦ (s.owned? claim).toList
    rw [owned, List.filterMap_eq_flatMap_toList, List.filterMap_eq_flatMap_toList]
    exact ((hafter ⟨ref, new⟩).append_left _).trans
      ((List.perm_append_comm_assoc _ _ _).trans (hbefore.symm.append_left _))
  · intro claim hmem _
    rcases mem_claims_of_advance hadvance hmem with hmem | rfl
    · exact hs.known claim hmem
    · exact hs.known ⟨ref, old⟩ (List.mem_of_getElem? hclaim)

/-- Making a claim, or entering that of a whole pop, brings in no value. -/
theorem owned_of_append (hs : s.Balanced) (heffects : Effects s freed t) (ht : t.Balanced)
    {made : List Claim} (hmade : ∀ claim ∈ made, claim.stage ≠ .unlinked)
    (happend : t.claims = s.claims ++ made) : t.owned = s.owned := by
  rw [filterMap_owned?_of_effects heffects ht, happend, List.filterMap_append,
    List.filterMap_eq_nil_iff.mpr fun claim hmem ↦ owned?_of_ne (hmade claim hmem), List.append_nil]
  · rfl
  · intro claim hmem hstage
    rw [happend] at hmem
    rcases List.mem_append.mp hmem with hmem | hmem
    · exact hs.known claim hmem
    · exact absurd hstage (hmade claim hmem)

end

section

variable {token : Nat} {top node : NodeId} {contents : Node α}

theorem values_push (hs : s.Balanced) (value : α) :
    values { s with stack := (s.stack.push value).2 } = value :: s.values := by
  have howned := owned_of_append hs (.single (.push value)) (hs.push value) (List.forall_mem_nil _)
    (List.append_nil s.claims).symm
  rw [values, howned, hs.linked.toList_push]
  rfl

theorem values_claim (hs : s.Balanced) (hhead : s.stack.head.node = some top)
    (hroom : s.stack.head.count.toNat ≠ 2 ^ 64 - 1) : s.afterClaim.values = s.values := by
  have howned := owned_of_append hs (.single (.claim hhead hroom)) (hs.claim hhead hroom)
    (List.forall_mem_singleton.mpr (show Stage.held ≠ .unlinked by decide)) rfl
  have hlist : s.afterClaim.stack.toList = s.stack.toList :=
    congrArg (List.map _) (hs.linked.chain_setHead rfl).1
  rw [values, howned, hlist, values]

/-- The value of a node that is unlinked goes from the stack to the token. -/
theorem values_unlink (hs : s.Balanced) (hclaim : s.claims[token]? = some ⟨s.stack.head, .held⟩)
    (hhead : s.stack.head.node = some top) (hget : s.stack.heap.get? top = some contents) :
    (s.afterUnlink token contents).values.Perm s.values := by
  obtain ⟨found, hfound, hchain, -⟩ := hs.linked.chain_eq_cons hhead
  obtain rfl := Option.some.inj (hget.symm.trans hfound)
  have howned := owned_of_advance hs (.single (.unlink hclaim hhead hget))
    (hs.unlink hclaim hhead hget) hclaim rfl
  have hvalue : s.owned? ⟨s.stack.head, .unlinked⟩ = some contents.value := by
    rw [owned?, if_pos rfl, node?_eq_get? hhead, hget]
    rfl
  rw [owned?_of_ne (show Stage.held ≠ .unlinked by decide), hvalue] at howned
  rw [values, values, toList_eq_cons hchain]
  exact (howned.append_left _).trans List.perm_middle

/-- Settling a node lets go of its value; releasing a claim does not touch the values. -/
theorem values_finish (hs : s.Balanced) {ref : Ref} {old new : Stage} {delta : Int64}
    (hfinish : Finish ref old new delta) (hclaim : s.claims[token]? = some ⟨ref, old⟩)
    (hnode : ref.node = some node) (hget : s.stack.heap.get? node = some contents) :
    s.values.Perm ((if old = .unlinked then [contents.value] else []) ++
      (s.afterFinish token ⟨ref, new⟩ node (contents.internalCount + delta)).values) := by
  have howned := owned_of_advance hs (.single (.finish hfinish hclaim hnode hget))
    (hs.finish hfinish hclaim hnode hget) hclaim rfl
  have hold : (s.owned? ⟨ref, old⟩).toList = if old = .unlinked then [contents.value] else [] := by
    rw [owned?, node?_eq_get? hnode, hget]
    split <;> rfl
  have hnew : s.owned? ⟨ref, new⟩ = none := by
    cases hfinish with
    | settle => exact owned?_of_ne (show Stage.settled ≠ .unlinked by decide)
    | release => exact owned?_of_ne (show Stage.released ≠ .unlinked by decide)
  have hlist : (s.afterFinish token ⟨ref, new⟩ node
      (contents.internalCount + delta)).stack.toList = s.stack.toList :=
    hs.linked.toList_finish (hs.not_linked_of_add_eq_zero hfinish hclaim hnode hget)
  rw [hold, hnew] at howned
  rw [values, values, hlist]
  refine (howned.symm.append_left _).trans ?_
  rw [← List.append_assoc, ← List.append_assoc]
  exact List.perm_append_comm.append_right _

/-- The ledger after a whole pop of a node with these contents, if its settlement does not
fault. -/
def afterPop (s : Ledger α) (top : NodeId) (contents : Node α) : Ledger α :=
  { s with
    stack := ({ s.stack with head := contents.next }.finish top
      (contents.internalCount + ((s.stack.head.count + 1).toInt64 - 2))).state
    claims := s.claims ++ [⟨⟨s.stack.head.node, s.stack.head.count + 1⟩, .settled⟩] }

theorem values_pop (hs : s.Balanced) (hhead : s.stack.head.node = some top)
    (hroom : s.stack.head.count.toNat ≠ 2 ^ 64 - 1)
    (hget : s.stack.heap.get? top = some contents) :
    (s.afterPop top contents).Balanced ∧
      s.values = contents.value :: (s.afterPop top contents).values := by
  have heffects := effects_pop hhead hroom hget rfl
  have hafter : (s.afterPop top contents).Balanced := heffects.balanced hs
  have howned : (s.afterPop top contents).owned = s.owned := owned_of_append hs heffects hafter
    (List.forall_mem_singleton.mpr (show Stage.settled ≠ .unlinked by decide)) rfl
  obtain ⟨found, hfound, hchain, hbelow⟩ := hs.linked.chain_eq_cons hhead
  obtain rfl := Option.some.inj (hget.symm.trans hfound)
  refine ⟨hafter, ?_⟩
  have hlist : (s.afterPop top contents).stack.toList =
      { s.stack with head := contents.next }.toList := by
    apply hbelow.toList_finish
    intro _ hmem
    have hnodup := hs.linked.nodup
    rw [linked_eq_cons hchain, List.nodup_cons] at hnodup
    exact hnodup.1 hmem
  rw [values, values, hlist, howned, toList_eq_cons hchain]
  rfl

end

/-! ## Shadows -/

/-- A balanced ledger that differs from `s` only in nodes that were settled. -/
structure Shadows (s' s : Ledger α) : Prop where
  balanced : s'.Balanced
  head : s'.stack.head = s.stack.head
  size : s'.stack.heap.size = s.stack.heap.size
  claims : s'.claims = s.claims
  dropped : s'.dropped = s.dropped
  get : ∀ node, s'.tally node .settled = 0 →
    s'.stack.heap.get? node = s.stack.heap.get? node

namespace Shadows

variable {s' : Ledger α}

theorem new : Shadows ({} : Ledger α) {} where
  balanced := balanced_new
  head := rfl
  size := rfl
  claims := rfl
  dropped := rfl
  get _ _ := rfl

/-- What is linked is linked in the shadow, with the same counts and contents. -/
theorem levels_eq (hs : Shadows s' s) :
    s.stack.levels = s'.stack.levels ∧ s.stack.WellLinked := by
  apply hs.balanced.linked.levels_of_get?_eq hs.head.symm
  intro node hlinked
  exact (hs.get node (hs.balanced.tally_eq_zero_of_linked hlinked).2).symm

theorem wellLinked (hs : Shadows s' s) : s.stack.WellLinked := hs.levels_eq.2

theorem toList_eq (hs : Shadows s' s) : s.stack.toList = s'.stack.toList := by
  rw [toList_eq_map_levels, toList_eq_map_levels, hs.levels_eq.1]

theorem values_eq (hs : Shadows s' s) : s.values = s'.values := by
  have howned : s.owned = s'.owned := by
    rw [owned, owned, hs.claims]
    apply List.filterMap_congr
    intro claim hmem
    obtain ⟨ref, stage⟩ := claim
    by_cases hstage : stage = .unlinked
    · subst hstage
      rw [← hs.claims] at hmem
      obtain ⟨node, hlt, hnode⟩ := hs.balanced.known _ hmem
      have htaken := hs.balanced.taken node hlt
      have hpos : 0 < s'.tally node .unlinked := tally_pos_iff.mpr ⟨_, hmem, hnode, rfl⟩
      have hget := hs.get node (by split at htaken <;> omega)
      have hnode' : ref.node = some node := hnode
      rw [owned?, owned?, node?_eq_get? hnode', node?_eq_get? hnode', hget]
    · rw [owned?_of_ne hstage, owned?_of_ne hstage]
  rw [values, values, hs.toList_eq, howned]

/-- The node of a claim that is not settled, in the shadow and in the ledger. -/
theorem exists_get?_of_open (hs : Shadows s' s) {token : Nat} {ref : Ref} {stage : Stage}
    (hclaim : s.claims[token]? = some ⟨ref, stage⟩) (hopen : stage = .held ∨ stage = .unlinked) :
    ∃ node contents, ref.node = some node ∧ s'.stack.heap.get? node = some contents ∧
      (s'.tally node .settled = 0 → s.stack.heap.get? node = some contents) := by
  rw [← hs.claims] at hclaim
  obtain ⟨node, contents, hnode, hget⟩ := hs.balanced.exists_get?_of_open hclaim hopen
  exact ⟨node, contents, hnode, hget, fun hzero ↦ (hs.get node hzero).symm.trans hget⟩

end Shadows

def destroyed (events : List (Event α)) : List α :=
  events.filterMap fun event ↦
    match event with
    | .dropped value => some value
    | .freed _ => none

def handedOut : Except Fault (Answer α) → List α
  | .ok (.popped value) | .ok (.settled value _) => value.toList
  | _ => []

theorem destroyed_append (events events' : List (Event α)) :
    destroyed (events ++ events') = destroyed events ++ destroyed events' :=
  List.filterMap_append

/-- Settling a node and releasing a claim destroy nothing. -/
theorem destroyed_settle (s : CountedStack α) (ref : Ref) :
    destroyed (s.settle ref).events = [] := by
  unfold settle
  split
  · split <;> rfl
  · rfl

theorem destroyed_release (s : CountedStack α) (ref : Ref) :
    destroyed (s.release ref).events = [] := by
  unfold release
  split
  · split <;> rfl
  · rfl

/-- A pop that could claim the top node hands out its value or destroys it. -/
theorem leaves_pop {s : CountedStack α} {top : NodeId} {contents : Node α}
    (hhead : s.head.node = some top) (hget : s.heap.get? top = some contents)
    (hroom : s.head.count.toNat ≠ 2 ^ 64 - 1) :
    handedOut (s.pop.result.map .popped) ++ destroyed s.pop.events = [contents.value] := by
  have hpop := pop_of_top hhead hget
  rw [if_neg hroom] at hpop
  dsimp only at hpop
  rw [hpop]
  dsimp only
  rw [destroyed_append, destroyed_settle]
  cases ({ s with head := contents.next }.settle ⟨s.head.node, s.head.count + 1⟩).result <;> rfl

/-- What a pop takes off the stack it hands out or destroys. -/
theorem toList_pop {s : CountedStack α} (hs : s.WellLinked) :
    s.toList = handedOut (s.pop.result.map .popped) ++ destroyed s.pop.events ++
      s.pop.state.toList := by
  cases hhead : s.head.node with
  | none =>
    rw [pop_of_null hhead]
    rfl
  | some top =>
    obtain ⟨contents, hget, -, -⟩ := hs.chain_eq_cons hhead
    by_cases hfull : s.head.count.toNat = 2 ^ 64 - 1
    · rw [pop_of_full hhead hget hfull]
      rfl
    · obtain ⟨found, hfound, hlevels, -⟩ := hs.levels_pop hhead hfull
      obtain rfl := Option.some.inj (hget.symm.trans hfound)
      rw [leaves_pop hhead hget hfull, toList_eq_map_levels, hlevels, List.map_cons,
        toList_eq_map_levels]
      rfl

namespace Shadows

variable {s' : Ledger α}

/-- A pop has a shadow, in which its settlement does not fault. -/
theorem pop (hs : Shadows s' s) : ∃ t', Shadows t' (s.afterPops s.stack.pop.state) ∧
    s'.values = handedOut (s.stack.pop.result.map .popped) ++ destroyed s.stack.pop.events ++
      t'.values := by
  cases hhead : s.stack.head.node with
  | none =>
    rw [pop_of_null hhead, afterPops_self]
    exact ⟨s', hs, rfl⟩
  | some top =>
    have hhead' : s'.stack.head.node = some top := hs.head ▸ hhead
    obtain ⟨contents, hget', -, -⟩ := hs.balanced.linked.chain_eq_cons hhead'
    have hzero := (hs.balanced.tally_eq_zero_of_linked
      (hs.balanced.linked.mem_linked_of_head hhead')).2
    have hget : s.stack.heap.get? top = some contents := (hs.get top hzero).symm.trans hget'
    by_cases hfull : s.stack.head.count.toNat = 2 ^ 64 - 1
    · rw [pop_of_full hhead hget hfull, afterPops_self]
      exact ⟨s', hs, rfl⟩
    · obtain ⟨hafter, hvalues⟩ := values_pop hs.balanced hhead' (hs.head ▸ hfull) hget'
      obtain ⟨found, hfound, hlevels, -⟩ := hs.wellLinked.levels_pop hhead hfull
      obtain rfl := Option.some.inj (hget.symm.trans hfound)
      have hclaims := claimsOfPops_of_levels (show s.stack.levels =
        [(s.stack.head.count, top, contents)] ++ s.stack.pop.state.levels from hlevels)
      have hpop := pop_of_top hhead hget
      rw [if_neg hfull] at hpop
      dsimp only at hpop
      let below : CountedStack α := { s.stack with head := contents.next }
      have hnode : (⟨s.stack.head.node, s.stack.head.count + 1⟩ : Ref).node = some top := hhead
      obtain ⟨hnext, hothers⟩ := settle_frame (s := below) hnode hget
      refine ⟨s'.afterPop top contents, ⟨hafter, ?head, ?size, ?claims, hs.dropped, ?get⟩, ?values⟩
      case head =>
        rw [afterPops, hpop]
        exact (finish_head _ _ _).trans hnext.symm
      case size =>
        rw [afterPops, hpop]
        exact (finish_size _ _ _).trans (hs.size.trans (settle_size below _).symm)
      case claims =>
        rw [afterPops, hclaims]
        change s'.claims ++ [⟨⟨s'.stack.head.node, _⟩, .settled⟩] = _
        rw [hs.claims, hs.head, hhead]
        rfl
      case get =>
        intro node hunsettled
        rw [tally_of_append (s := s') rfl] at hunsettled
        have hne : top ≠ node := by
          rintro rfl
          rw [if_pos ⟨hhead', rfl⟩] at hunsettled
          omega
        rw [afterPops, hpop]
        change ({ s'.stack with head := contents.next }.finish top _).state.heap.get? node = _
        rw [get?_finish, if_neg hne, hothers node hne]
        exact hs.get node (by omega)
      case values =>
        rw [hvalues, leaves_pop hhead hget hfull]
        rfl

/-- Dropping the stack destroys the values one by one, as far as it goes. -/
theorem popAndDrop [Destructor α] (count : Nat) (hs : Shadows s' s) :
    ∃ t', Shadows t' (s.afterPops (popAndDrop count s.stack).state) ∧
      s'.values.Perm (destroyed (CountedStack.popAndDrop count s.stack).events ++ t'.values) := by
  induction count generalizing s s' with
  | zero =>
    rw [CountedStack.popAndDrop, afterPops_self]
    exact ⟨s', hs, .refl _⟩
  | succ count ih =>
    obtain ⟨t', ht, hvalues⟩ := hs.pop
    obtain ⟨u', hu, hrest⟩ := ih ht
    have hbelow := ht.wellLinked.levels_popAndDrop_suffix count
    rw [popAndDrop_succ, hvalues]
    cases hresult : s.stack.pop.result with
    | error fault => exact ⟨t', ht, .refl _⟩
    | ok value? =>
      cases value? with
      | none => exact ⟨t', ht, .refl _⟩
      | some value =>
        have htaken : (handedOut (Except.ok (some value) |>.map Answer.popped) ++
            destroyed s.stack.pop.events).Perm
              (destroyed (s.stack.pop.events ++ [.dropped value])) := by
          rw [destroyed_append]
          exact List.perm_append_comm
        dsimp only
        cases Destructor.fault? value with
        | some fault => exact ⟨t', ht, htaken.append_right _⟩
        | none =>
          have hafter : (s.afterPops s.stack.pop.state).afterPops
              (CountedStack.popAndDrop count s.stack.pop.state).state =
                s.afterPops (CountedStack.popAndDrop count s.stack.pop.state).state :=
            afterPops_trans hs.wellLinked.levels_pop_suffix.1 hbelow.1
          refine ⟨u', ?_, ?_⟩
          · dsimp only
            rw [Outcome.after_state, ← hafter]
            exact hu
          · dsimp only
            rw [Outcome.after_events, destroyed_append, List.append_assoc (destroyed _)]
            exact htaken.append hrest

end Shadows

/-! ## Steps and their shadows -/

def Step.pushed : Step α → List α
  | .push value => [value]
  | _ => []

def Step.isOfToken : Step α → Bool
  | .claim _ | .unlink _ | .settle _ | .release _ => true
  | _ => false

theorem release_frame {s : CountedStack α} {ref : Ref} {node : NodeId}
    (hnode : ref.node = some node) :
    (s.release ref).state.head = s.head ∧ (s.release ref).state.heap.size = s.heap.size ∧
      ∀ other, node ≠ other → (s.release ref).state.heap.get? other = s.heap.get? other := by
  cases hget : s.heap.get? node with
  | none =>
    have hrelease : s.release ref = ⟨s, [], .ok false⟩ := by
      simp only [release, hnode, node?_eq_get? hnode, hget]
    rw [hrelease]
    exact ⟨rfl, rfl, fun _ _ ↦ rfl⟩
  | some contents =>
    rw [release_eq hnode hget]
    refine ⟨finish_head s node _, finish_size s node _, ?_⟩
    intro other hne
    rw [get?_finish, if_neg hne]

namespace Shadows

variable {s' : Ledger α} {token : Nat} {ref : Ref} {node : NodeId} {contents : Node α}

theorem push (hs : Shadows s' s) (value : α) :
    Shadows { s' with stack := (s'.stack.push value).2 }
      { s with stack := (s.stack.push value).2 } where
  balanced := hs.balanced.push value
  head := by
    change (⟨some s'.stack.heap.size, 1⟩ : Ref) = ⟨some s.stack.heap.size, 1⟩
    rw [hs.size]
  size := by
    rw [size_push, size_push, hs.size]
  claims := hs.claims
  dropped := hs.dropped
  get node hzero := by
    rw [get?_push, get?_push, hs.size, hs.head, hs.get node hzero]

/-- A claim that reads and writes the head only does so in the shadow. -/
theorem claim (hs : Shadows s' s) {head : Ref} {made : List Claim}
    (hbalanced : Balanced { s' with
      stack := { s'.stack with head }, claims := s'.claims ++ made }) :
    Shadows { s' with stack := { s'.stack with head }, claims := s'.claims ++ made }
      { s with stack := { s.stack with head }, claims := s.claims ++ made } where
  balanced := hbalanced
  head := rfl
  size := hs.size
  claims := congrArg (· ++ made) hs.claims
  dropped := hs.dropped
  get node hzero := by
    rw [tally, List.countP_append] at hzero
    exact hs.get node (Nat.eq_zero_of_add_eq_zero_right hzero)

theorem unlink (hs : Shadows s' s) (hclaim : s.claims[token]? = some ⟨s.stack.head, .held⟩)
    (hhead : s.stack.head.node = some node) (hget : s'.stack.heap.get? node = some contents) :
    Shadows (s'.afterUnlink token contents) (s.afterUnlink token contents) ∧
      (s'.afterUnlink token contents).values.Perm s'.values := by
  have hclaim' : s'.claims[token]? = some ⟨s'.stack.head, .held⟩ := by
    rw [hs.claims, hs.head, hclaim]
  refine ⟨⟨?_, rfl, hs.size, ?_, hs.dropped, ?_⟩, ?_⟩
  · exact hs.balanced.unlink hclaim' (hs.head ▸ hhead) hget
  · rw [afterUnlink, afterUnlink, advance, advance, hs.claims, hs.head]
  · intro other hzero
    rw [Balanced.tally_afterUnlink hclaim' (by decide) (by decide)] at hzero
    exact hs.get other hzero
  · exact values_unlink hs.balanced hclaim' (hs.head ▸ hhead) hget

/-- A claim is finished, in the shadow without a fault. Unless its node was settled before or is
settled now, it is left with the same contents. -/
theorem finish (hs : Shadows s' s) {old new : Stage} {delta : Int64}
    (hfinish : Finish ref old new delta) (hclaim : s.claims[token]? = some ⟨ref, old⟩)
    (hnode : ref.node = some node) (hget : s'.stack.heap.get? node = some contents)
    {stack : CountedStack α} (hhead : stack.head = s.stack.head)
    (hsize : stack.heap.size = s.stack.heap.size)
    (hothers : ∀ other, node ≠ other → stack.heap.get? other = s.stack.heap.get? other)
    (hsame : new ≠ .settled → s'.tally node .settled = 0 → stack.heap.get? node =
      (s'.stack.finish node (contents.internalCount + delta)).state.heap.get? node) :
    Shadows (s'.afterFinish token ⟨ref, new⟩ node (contents.internalCount + delta))
        { s with stack, claims := s.advance token ref new } ∧
      s'.values.Perm ((if old = .unlinked then [contents.value] else []) ++
        (s'.afterFinish token ⟨ref, new⟩ node (contents.internalCount + delta)).values) := by
  have hclaim' : s'.claims[token]? = some ⟨ref, old⟩ := by rw [hs.claims, hclaim]
  refine ⟨⟨?_, ?_, ?_, ?_, hs.dropped, ?_⟩, ?_⟩
  · exact hs.balanced.finish hfinish hclaim' hnode hget
  · calc
      _ = s'.stack.head := finish_head _ _ _
      _ = s.stack.head := hs.head
      _ = stack.head := hhead.symm
  · calc
      _ = s'.stack.heap.size := finish_size _ _ _
      _ = s.stack.heap.size := hs.size
      _ = stack.heap.size := hsize.symm
  · rw [afterFinish, advance, advance, hs.claims]
  · intro other hzero
    have htally := tally_of_advance (t := s'.afterFinish token ⟨ref, new⟩ node
      (contents.internalCount + delta)) rfl hclaim' other .settled
    rw [hzero] at htally
    have hold : old ≠ .settled := by cases hfinish <;> decide
    rw [if_neg fun h ↦ hold h.2] at htally
    change (s'.stack.finish node _).state.heap.get? other = stack.heap.get? other
    by_cases hne : node = other
    · subst hne
      have hnew : new ≠ .settled := by
        rintro rfl
        rw [if_pos ⟨hnode, rfl⟩] at htally
        omega
      exact (hsame hnew (by omega)).symm
    · rw [get?_finish, if_neg hne, hothers other hne]
      exact hs.get other (by omega)
  · exact values_finish hs.balanced hfinish hclaim' hnode hget

/-- The reply of a step has a shadow. Unless a token's step faults, what the step brings in and what
was there before is handed out, destroyed or still there. -/
def Follows (s' : Ledger α) (step : Step α) (reply : Reply α) : Prop :=
  ∃ t', Shadows t' reply.state ∧
    ((step.isOfToken = true → ∃ answer, reply.result = .ok answer) →
      (step.pushed ++ s'.values).Perm
        (handedOut reply.result ++ destroyed reply.events ++ t'.values))

theorem follows_unlink (hs : Shadows s' s) (hclaim : s.claims[token]? = some ⟨ref, .held⟩)
    {stack : CountedStack α} (hunlink : s.stack.unlinkTop ref = .ok stack) :
    Follows s' (.unlink token)
      ⟨{ s with stack, claims := s.advance token ref .unlinked }, [], .ok .unlinked⟩ := by
  obtain ⟨node, contents, hnode, hget', hget⟩ := hs.exists_get?_of_open hclaim (Or.inl rfl)
  have hhead : s.stack.head = ref := head_of_unlinkTop hunlink
  subst hhead
  have hlinked := hs.balanced.linked.mem_linked_of_head (hs.head ▸ hnode)
  have hfound := hget (hs.balanced.tally_eq_zero_of_linked hlinked).2
  rw [unlinkTop_eq hnode hfound, if_pos rfl] at hunlink
  obtain rfl := Except.ok.inj hunlink
  obtain ⟨ht, hvalues⟩ := hs.unlink hclaim hnode hget'
  exact ⟨_, ht, fun _ ↦ hvalues.symm⟩

theorem follows_settle (hs : Shadows s' s) (hclaim : s.claims[token]? = some ⟨ref, .unlinked⟩) :
    Follows s' (.settle token) (s.conclude (s.advance token ref .settled)
      (.settled ((s.stack.node? ref).map (·.value))) (s.stack.settle ref)) := by
  obtain ⟨node, contents, hnode, hget', hget⟩ := hs.exists_get?_of_open hclaim (Or.inr rfl)
  have htaken := hs.balanced.taken node (Heap.lt_size_of_get? hget')
  have hpos := tally_pos (s := s') (hs.claims ▸ hclaim) hnode
  have hfound := hget (by split at htaken <;> omega)
  obtain ⟨hhead, hothers⟩ := settle_frame hnode hfound
  obtain ⟨ht, hvalues⟩ := hs.finish (.settle : Finish ref _ _ _) hclaim hnode hget' hhead
    (settle_size s.stack ref) hothers (fun hnew ↦ absurd rfl hnew)
  refine ⟨_, ht, fun hfine ↦ hvalues.trans (.of_eq ?_)⟩
  have hout : handedOut ((s.stack.settle ref).result.map
      (Answer.settled ((s.stack.node? ref).map (·.value)))) = [contents.value] := by
    obtain ⟨answer, hanswer⟩ := hfine rfl
    change (s.stack.settle ref).result.map _ = .ok answer at hanswer
    rw [node?_eq_get? hnode, hfound] at hanswer ⊢
    cases hresult : (s.stack.settle ref).result with
    | error fault =>
      rw [hresult] at hanswer
      cases hanswer
    | ok freed => rfl
  dsimp only [conclude]
  rw [hout, destroyed_settle, if_pos rfl]
  rfl

theorem follows_release (hs : Shadows s' s) (hclaim : s.claims[token]? = some ⟨ref, .held⟩) :
    Follows s' (.release token)
      (s.conclude (s.advance token ref .released) .released (s.stack.release ref)) := by
  obtain ⟨node, contents, hnode, hget', hget⟩ := hs.exists_get?_of_open hclaim (Or.inl rfl)
  obtain ⟨hhead, hsize, hothers⟩ := release_frame (s := s.stack) hnode
  have hsame (hzero : s'.tally node .settled = 0) :
      (s.stack.release ref).state.heap.get? node =
        (s'.stack.finish node (contents.internalCount + -1)).state.heap.get? node := by
    rw [release_eq hnode (hget hzero), get?_finish, get?_finish, hget', hget hzero,
      Int64.sub_eq_add_neg]
  obtain ⟨ht, hvalues⟩ := hs.finish (.release : Finish ref _ _ _) hclaim hnode hget' hhead hsize
    hothers (fun _ ↦ hsame)
  refine ⟨_, ht, fun _ ↦ hvalues.trans (.of_eq ?_)⟩
  dsimp only [conclude]
  rw [destroyed_release, if_neg (by decide)]
  cases (s.stack.release ref).result <;> rfl

variable [Destructor α] {step : Step α} {reply : Reply α}

theorem follows_claim (hs : Shadows s' s) {hint : Ref}
    (hperform : s.perform (.claim hint) = some reply) : Follows s' (.claim hint) reply := by
  obtain ⟨hneeds, -⟩ := perform_eq_some_iff.mp hperform
  obtain ⟨head, made, result, hclaim⟩ := perform_claim s hint
  have hkept : s.dropped = false := Bool.eq_false_iff.mpr fun h ↦ Bool.noConfusion (hneeds h)
  obtain rfl := Option.some.inj (hperform.symm.trans (hclaim s hkept rfl))
  have hclaim' := hclaim s' (hs.dropped.trans hkept) hs.head
  -- The shadow takes the same step, so what it makes of the head is known.
  let t' : Ledger α :=
    { s' with stack := { s'.stack with head }, claims := s'.claims ++ made }
  have hcases : t'.Balanced ∧ handedOut result = [] ∧ t'.values = s'.values := by
    rcases claim_cases hs.balanced hclaim' with h | ⟨top, hhead, hroom, h⟩ | ⟨h, -⟩
    · have hstate : t' = s' := congrArg Outcome.state h
      rw [hstate, show result = _ from congrArg Outcome.result h]
      exact ⟨hs.balanced, rfl, rfl⟩
    · have hstate : t' = s'.afterClaim := congrArg Outcome.state h
      rw [hstate, show result = _ from congrArg Outcome.result h]
      exact ⟨hs.balanced.claim hhead hroom, rfl, values_claim hs.balanced hhead hroom⟩
    · have hstate : t' = s' := congrArg Outcome.state h
      rw [hstate, show result = _ from congrArg Outcome.result h]
      exact ⟨hs.balanced, rfl, rfl⟩
  obtain ⟨hbalanced, hout, hvalues⟩ := hcases
  refine ⟨t', hs.claim hbalanced, fun _ ↦ .of_eq ?_⟩
  change s'.values = handedOut result ++ [] ++ t'.values
  rw [hout, hvalues]
  rfl

theorem follows_drop (hs : Shadows s' s) :
    Follows s' .drop ⟨{ s.afterPops s.stack.drop.state with dropped := true },
      s.stack.drop.events, s.stack.drop.result.map fun _ ↦ .dropped⟩ := by
  obtain ⟨t', ht, hvalues⟩ := hs.popAndDrop s.stack.chain.length
  have hclosed := (Effect.close (s := t')).balanced ht.balanced
  refine ⟨{ t' with dropped := true },
    ⟨hclosed, ht.head, ht.size, ht.claims, rfl, ht.get⟩, fun _ ↦ ?_⟩
  have hout : handedOut (s.stack.drop.result.map fun _ ↦ Answer.dropped) = ([] : List α) := by
    cases s.stack.drop.result <;> rfl
  change s'.values.Perm (handedOut (s.stack.drop.result.map _) ++ destroyed s.stack.drop.events
    ++ t'.values)
  rw [hout]
  exact hvalues

/-- Every step has a shadow. -/
theorem perform (hs : Shadows s' s) (hperform : s.perform step = some reply) :
    Follows s' step reply := by
  cases performs hperform with
  | push value => exact ⟨_, hs.push value, fun _ ↦ .of_eq (values_push hs.balanced value).symm⟩
  | pop =>
    obtain ⟨t', ht, hvalues⟩ := hs.pop
    exact ⟨t', ht, fun _ ↦ .of_eq hvalues⟩
  | full | nothing | claim => exact hs.follows_claim hperform
  | unlink hclaim hunlink => exact hs.follows_unlink hclaim hunlink
  | stale => exact ⟨s', hs, fun _ ↦ .refl _⟩
  | settle hclaim => exact hs.follows_settle hclaim
  | release hclaim => exact hs.follows_release hclaim
  | drop => exact hs.follows_drop

end Shadows

end Reclaim.CountedStack.Ledger
