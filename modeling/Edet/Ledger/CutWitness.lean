import Edet.Kernel.MaxFlow
import Edet.Ledger.Audit
import Edet.Ledger.Cover
import Edet.Ledger.Rows

/-!
# What the holds are a witness of

The audit asks of many sets of debtors whether they hold more than the cut around them delivers. A
warm audit asks the cut last: where every hold is a flow of its own (`holdsAreFlows`), the holds of
a set of debtors together are one flow into that set (`heldFlow`), and what is drawn for them
outside the set is bounded by every cut around it. The stakes cover what is reserved of them and the
supplies what is drawn from them, so the cuts of the holds are within those of the ledger, and the
capacity of the set is one of these (`drawnInto_le_grossCapacity`).
-/

namespace Edet

open Edet.Flow NetworkFlow

/-! ### Sums over lists of keyed amounts -/

section Lists

variable {κ : Type}

theorem sum_listFlow (P : κ → Prop) [DecidablePred P] (l : List (κ × Nat)) :
    ((listFlow l).sum fun k x => if P k then x else 0) =
      (l.map fun p => if P p.1 then p.2 else 0).sum := by
  induction l with
  | nil => simp
  | cons p l ih =>
    rw [listFlow_cons, Finsupp.sum_add_index' (by simp) (by intros; split <;> rfl), ih,
      Finsupp.sum_single_index (by simp), List.map_cons, List.sum_cons]

theorem outflow_listFlow (v : Nat) (l : List ((Nat × Nat) × Nat)) :
    outflow v (listFlow l) = (l.map fun p => if p.1.1 = v then p.2 else 0).sum := by
  induction l with
  | nil => simp
  | cons p l ih => rw [listFlow_cons, map_add, outflow_single, ih, List.map_cons, List.sum_cons]

theorem inflow_listFlow (v : Nat) (l : List ((Nat × Nat) × Nat)) :
    inflow v (listFlow l) = (l.map fun p => if p.1.2 = v then p.2 else 0).sum := by
  induction l with
  | nil => simp
  | cons p l ih => rw [listFlow_cons, map_add, inflow_single, ih, List.map_cons, List.sum_cons]

/-- A sum over some keys is within one over more, of larger amounts. -/
theorem sum_where_le_where {f g : κ →₀ ℕ} {p q : κ → Prop} [DecidablePred p] [DecidablePred q]
    (h : ∀ a, p a → q a ∧ f a ≤ g a) :
    (f.sum fun a x => if p a then x else 0) ≤ g.sum fun a x => if q a then x else 0 := by
  classical
  -- both sums are over the keys of either
  rw [Finsupp.sum_of_support_subset f
      (@Finset.subset_union_left _ _ f.support g.support) _ (by simp),
    Finsupp.sum_of_support_subset g
      (@Finset.subset_union_right _ _ f.support g.support) _ (by simp)]
  refine Finset.sum_le_sum fun a _ => ?_
  by_cases hp : p a
  · rw [if_pos hp, if_pos (h a hp).1]
    exact (h a hp).2
  · rw [if_neg hp]
    exact Nat.zero_le _

end Lists

/-! ### Holds as a flow -/

namespace Audit

theorem cast_sum_where {α : Type} (p : α → Prop) [DecidablePred p] (f : α → Nat) (l : List α) :
    (l.map fun a => if p a then (f a : Int) else 0).sum =
      ((l.map fun a => if p a then f a else 0).sum : Nat) := by
  induction l with
  | nil => rfl
  | cons a l ih =>
    rw [List.map_cons, List.sum_cons, ih, List.map_cons, List.sum_cons]
    split <;> simp

/-- A hold that balances where it touches balances everywhere but at its debtor. -/
theorem balanced_of_imbalance {target v : Nat} {h : Held}
    (hbalanced : ∀ v ∈ touched target h, imbalance target h v = 0) (hv : v ≠ target) :
    outflow v (listFlow h.edges) = inflow v (listFlow h.edges) + listFlow h.supply v := by
  rw [outflow_listFlow, inflow_listFlow, listFlow_apply, amountAt]
  by_cases hmem : v ∈ touched target h
  · have hzero := hbalanced v hmem
    simp only [imbalance, cast_sum_where, if_neg hv.symm] at hzero
    omega
  · -- where the hold does not go nothing flows
    simp only [touched, List.mem_cons, List.mem_append, List.mem_map, List.mem_flatMap,
      not_or, not_exists, not_and] at hmem
    have hout : (h.edges.map fun p => if p.1.1 = v then p.2 else 0).sum = 0 :=
      List.sum_eq_zero fun x hx => by
        obtain ⟨p, hp, rfl⟩ := List.mem_map.1 hx
        exact if_neg fun heq => (hmem.2.2 p hp).1 heq.symm
    have hin : (h.edges.map fun p => if p.1.2 = v then p.2 else 0).sum = 0 :=
      List.sum_eq_zero fun x hx => by
        obtain ⟨p, hp, rfl⟩ := List.mem_map.1 hx
        exact if_neg fun heq => (hmem.2.2 p hp).2.1 heq.symm
    have hdraw : (h.supply.map fun p => if p.1 = v then p.2 else 0).sum = 0 :=
      List.sum_eq_zero fun x hx => by
        obtain ⟨p, hp, rfl⟩ := List.mem_map.1 hx
        exact if_neg fun heq => (hmem.2.1 p hp) heq
    rw [hout, hin, hdraw]

theorem balanced_holds {holds : List (MemberId × Held)} (hflows : holdsAreFlows holds = true)
    {v : Nat} (hv : ∀ p ∈ holds, v ≠ p.1) :
    outflow v (listFlow (holds.flatMap fun p => p.2.edges)) =
      inflow v (listFlow (holds.flatMap fun p => p.2.edges)) +
        listFlow (holds.flatMap fun p => p.2.supply) v := by
  induction holds with
  | nil => simp
  | cons p holds ih =>
    rw [holdsAreFlows, List.all_cons, Bool.and_eq_true, List.all_eq_true] at hflows
    have hfirst := balanced_of_imbalance (fun u hu => beq_iff_eq.1 (hflows.1 u hu))
      (hv p (List.mem_cons_self ..))
    have hrest := ih hflows.2 fun q hq => hv q (List.mem_cons_of_mem _ hq)
    simp only [List.flatMap_cons, listFlow_append, map_add, Finsupp.add_apply, hfirst, hrest]
    omega

/-- The holds of debtors in a set, as one flow into the set. -/
noncomputable def heldFlow {holds : List (MemberId × Held)} (hflows : holdsAreFlows holds = true)
    {S : Set Nat} (hdebtors : ∀ p ∈ holds, p.1 ∈ S) :
    FlowInto { cap := listFlow (holds.flatMap fun p => p.2.edges),
               supply := listFlow (holds.flatMap fun p => p.2.supply) } S where
  amount := listFlow (holds.flatMap fun p => p.2.edges)
  draw := listFlow (holds.flatMap fun p => p.2.supply)
  amount_le := le_rfl
  draw_le := le_rfl
  balanced v hv := balanced_holds hflows fun p hp heq => hv (by rw [heq]; exact hdebtors p hp)

theorem value_heldFlow {s : State} {inside : OrdSet MemberId} {S : Set Nat}
    (hS : ∀ v, v ∈ S ↔ v ∈ inside)
    (hflows : holdsAreFlows (s.liveInsured.filter fun p => inside.contains p.1) = true)
    (hdebtors : ∀ p ∈ s.liveInsured.filter fun p => inside.contains p.1, p.1 ∈ S) :
    (heldFlow hflows hdebtors).value = s.drawnInto inside := by
  have hvalue : (heldFlow hflows hdebtors).value =
      (listFlow ((s.liveInsured.filter fun p => inside.contains p.1).flatMap
        fun p => p.2.supply)).sum fun v x => if v ∉ inside then x else 0 := by
    unfold FlowInto.value drawnOutside
    refine Finset.sum_congr rfl fun v _ => ?_
    by_cases hv : v ∈ inside <;> simp [hS, hv, heldFlow]
  rw [hvalue, sum_listFlow, State.drawnInto]
  clear hvalue hdebtors hflows
  induction s.liveInsured.filter fun p => inside.contains p.1 with
  | nil => rfl
  | cons p holds ih =>
    rw [List.flatMap_cons, List.map_append, List.sum_append, List.map_cons, List.sum_cons, ih]
    congr 1
    induction p.2.supply with
    | nil => rfl
    | cons q l ih' =>
      rw [List.map_cons, List.sum_cons, ih', List.filter_cons]
      by_cases hq : q.1 ∈ inside
      · have hcontains : inside.contains q.1 = true := hq
        simp [hq, hcontains]
      · have hcontains : inside.contains q.1 = false := Bool.eq_false_of_not_eq_true hq
        simp [hq, hcontains]

/-! ### What covers the holds -/

theorem amountAt_filter_le {κ : Type} [DecidableEq κ] (f : MemberId × Held → List (κ × Nat))
    (q : MemberId × Held → Bool) (holds : List (MemberId × Held)) (k : κ) :
    amountAt ((holds.filter q).flatMap f) k ≤ amountAt (holds.flatMap f) k := by
  induction holds with
  | nil => exact le_rfl
  | cons p holds ih =>
    rw [List.filter_cons, List.flatMap_cons, amountAt_append]
    split
    · rw [List.flatMap_cons, amountAt_append]
      exact Nat.add_le_add_left ih _
    · exact ih.trans (Nat.le_add_left _ _)

theorem reserved_of_reservationsExact {s : State} (h : reservationsExact s = .ok ())
    (k : Nat × Nat) :
    amountAt (s.liveInsured.flatMap fun p => p.2.edges) k = OrdMap.getD' s.reserved k 0 := by
  unfold reservationsExact at h
  split at h
  · cases h
  · next harcs =>
    rw [← not_not.1 harcs, arcsOf, OrdMap.getD'_positive, getD'_addAll]
    simp [OrdMap.getD']

theorem committed_of_reservationsExact {s : State} (h : reservationsExact s = .ok ()) (u : Nat) :
    amountAt (s.liveInsured.flatMap fun p => p.2.supply) u = OrdMap.getD' s.committed u 0 := by
  unfold reservationsExact at h
  split at h
  · cases h
  · split at h
    · cases h
    · next hdraws =>
      rw [← not_not.1 hdraws, drawsOf, OrdMap.getD'_positive, getD'_addAll]
      simp [OrdMap.getD']

/-- What a check asks of every entry of a map holds of every key. -/
theorem getD'_le_of_entries {κ : Type} [Ord κ] [Std.TransOrd κ] [Std.LawfulEqOrd κ]
    {m : OrdMap κ Nat} {bound : κ → Nat} (h : ∀ p ∈ m.toList, p.2 ≤ bound p.1) (k : κ) :
    OrdMap.getD' m k 0 ≤ bound k := by
  rw [OrdMap.getD'_eq m]
  cases hr : m[k]? with
  | none => exact Nat.zero_le _
  | some r => exact h (k, r) (OrdMap.mem_toList.2 hr)

theorem reserved_le_of_arcsCovered {s : State} (h : arcsCovered s = .ok ()) (k : Nat × Nat) :
    OrdMap.getD' s.reserved k 0 ≤ OrdMap.getD' s.edges k 0 :=
  @getD'_le_of_entries _ _ _ _ s.reserved (fun k => OrdMap.getD' s.edges k 0)
    (fun p hp => require_eq_ok.1 (all_eq_ok.1 h p hp)) k

theorem committed_le_of_suppliesCovered {s : State} (h : suppliesCovered s = .ok ()) (u : Nat) :
    OrdMap.getD' s.committed u 0 ≤ OrdMap.getD' s.underwriters u 0 :=
  @getD'_le_of_entries _ _ _ _ s.committed (fun u => OrdMap.getD' s.underwriters u 0)
    (fun p hp => require_eq_ok.1 (all_eq_ok.1 h p hp)) u

/-! ### What the network has nodes for -/

theorem lt_flowN {s : State} (hissued : s.Issued) {id : MemberId}
    (h : s.members.contains id = true) : id < s.flowN := by
  by_contra hnot
  rw [← Std.ExtTreeMap.isSome_getElem?_eq_contains, hissued id (Nat.le_of_not_lt hnot)] at h
  cases h

theorem lt_flowN_of_edgesSound {s : State} (hissued : s.Issued) (h : edgesSound s = .ok ())
    {k : Nat × Nat} (hpos : 0 < OrdMap.getD' s.edges k 0) : k.1 < s.flowN ∧ k.2 < s.flowN := by
  cases hk : s.edges[k]? with
  | none => simp [OrdMap.getD', hk] at hpos
  | some w =>
    have hsound := all_eq_ok.1 h (k, w) (OrdMap.mem_toList.2 hk)
    dsimp only at hsound
    -- a stake that is neither empty nor on its own member names two members
    split at hsound
    · cases hsound
    · split at hsound
      · cases hsound
      · have hends := all_eq_ok.1 hsound
        exact ⟨lt_flowN hissued (require_eq_ok.1 (hends k.1 (by simp))),
          lt_flowN hissued (require_eq_ok.1 (hends k.2 (by simp)))⟩

theorem lt_flowN_of_underwritersKnown {s : State} (hissued : s.Issued)
    (h : underwritersKnown s = .ok ()) {u : Nat} (hpos : 0 < OrdMap.getD' s.underwriters u 0) :
    u < s.flowN := by
  cases hu : s.underwriters[u]? with
  | none => simp [OrdMap.getD', hu] at hpos
  | some w =>
    exact lt_flowN hissued (require_eq_ok.1 (all_eq_ok.1 h (u, w) (OrdMap.mem_toList.2 hu)))

/-! ### The cut around a set -/

/-- **Holds that are flows settle the cut.** Where what the holds take is covered by stakes and
supplies, and each of them is a flow to its debtor, no set of members has more drawn for it outside
the set than its capacity, with nothing reserved or committed. -/
theorem drawnInto_le_grossCapacity {s : State} {inside : OrdSet MemberId}
    (hreserved : reservationsExact s = .ok ()) (hedges : edgesSound s = .ok ())
    (harcs : arcsCovered s = .ok ()) (hsupplies : suppliesCovered s = .ok ())
    (hknown : underwritersKnown s = .ok ()) (hissued : s.Issued)
    (hrows : ∀ id ∈ inside.toList, s.members.contains id = true)
    (hsum : (s.uw.map Prod.snd).sum < unbounded)
    (hflows : holdsAreFlows s.liveInsured = true) :
    s.drawnInto inside ≤ s.grossCapacityOfSetMinor inside.toList := by
  have hheld : holdsAreFlows (s.liveInsured.filter fun p => inside.contains p.1) = true :=
    List.all_eq_true.2 fun p hp => List.all_eq_true.1 hflows p (List.mem_of_mem_filter hp)
  obtain ⟨S, hS⟩ : ∃ S : Set Nat, ∀ v, v ∈ S ↔ v ∈ inside :=
    ⟨{v | v ∈ inside}, fun _ => Iff.rfl⟩
  have hdebtors : ∀ p ∈ s.liveInsured.filter fun p => inside.contains p.1, p.1 ∈ S :=
    fun p hp => (hS p.1).2 (List.mem_filter.1 hp).2
  -- the capacity is a cut around the members of the set
  obtain ⟨M, -, ⟨⟨T, hT, hcut⟩, -⟩, hmin⟩ :=
    @capacityInner_eq_min s.edges ∅ ∅ s.uw inside.toList s.flowN false hsum
  have hST : S ⊆ T := fun v hv =>
    hT ⟨Std.ExtTreeSet.mem_toList.2 ((hS v).1 hv),
      lt_flowN hissued (hrows v (Std.ExtTreeSet.mem_toList.2 ((hS v).1 hv)))⟩
  have hle : s.drawnInto inside ≤ M := by
    classical
    rw [← value_heldFlow hS hheld hdebtors, ← hcut]
    refine ((heldFlow hheld hdebtors).value_le_cut hST).trans (Nat.add_le_add ?_ ?_)
    · -- the arcs that lead into the cut carry no more than the stakes
      refine sum_where_le_where fun k hk => ⟨hk, ?_⟩
      dsimp only
      rw [listFlow_apply, leftOver_cap]
      have hcovered := (amountAt_filter_le (fun p => p.2.edges) (fun p => inside.contains p.1)
        s.liveInsured k).trans ((reserved_of_reservationsExact hreserved k).le.trans
          (reserved_le_of_arcsCovered harcs k))
      split
      · simpa [OrdMap.getD'] using hcovered
      · next hnot =>
        exact Nat.le_of_not_lt fun hpos =>
          hnot (lt_flowN_of_edgesSound hissued hedges (hpos.trans_le hcovered))
    · -- what is drawn between the set and the cut is drawn of supplies the query leaves in
      refine sum_where_le_where fun v hv => ⟨hv.1, ?_⟩
      have hkeys : (s.uw.map Prod.fst).Nodup := OrdMap.nodup_keys s.underwriters
      dsimp only
      rw [listFlow_apply, leftOver_supply hkeys]
      have hcovered := (amountAt_filter_le (fun p => p.2.supply) (fun p => inside.contains p.1)
        s.liveInsured v).trans ((committed_of_reservationsExact hreserved v).le.trans
          (committed_le_of_suppliesCovered hsupplies v))
      have houtside : v ∉ inside.toList := fun hmem =>
        hv.2 ((hS v).2 (Std.ExtTreeSet.mem_toList.1 hmem))
      split
      · rw [State.uw, amountAt_toList]
        simpa [OrdMap.getD'] using hcovered
      · next hnot =>
        exact Nat.le_of_not_lt fun hpos =>
          hnot ⟨lt_flowN_of_underwritersKnown hissued hknown (hpos.trans_le hcovered),
            fun h => houtside h.2⟩
  -- the supplies bound the cut, so that asking up to the largest word asks for all of it
  have hbounded : M ≤ u64Max := by
    have hflow := @capacityInner_eq_flow s.edges ∅ ∅ s.uw inside.toList s.flowN false hsum M
    rw [hmin, min_self] at hflow
    rw [hflow]
    exact (Network.flow_le_supplies ..).trans (hsum.le.trans (by decide))
  rw [State.grossCapacityOfSetMinor, capacity, hmin]
  exact le_min (hle.trans hbounded) hle

/-- Where the stake of the first insures a debt of the second. -/
def insuredLedger : State := @Event.run Libm.unused insuredEvents (devGenesis [1000, 1000]).state

theorem drawnInto_insuredLedger :
    0 < insuredLedger.drawnInto (Std.ExtTreeSet.ofList [1]) ∧
      insuredLedger.drawnInto (Std.ExtTreeSet.ofList [1]) ≤
        insuredLedger.grossCapacityOfSetMinor (Std.ExtTreeSet.ofList [1] : OrdSet Nat).toList := by
  have hissued : insuredLedger.Issued := by
    obtain ⟨g, hg⟩ := Genesis.founding_state (g := devGenesis [1000, 1000]) (by decide +kernel)
    unfold insuredLedger Event.run
    exact @issued_run Libm.unused insuredEvents _ (issued_of_genesis hg)
  refine ⟨by decide +kernel, drawnInto_le_grossCapacity (by decide +kernel) (by decide +kernel)
    (by decide +kernel) (by decide +kernel) (by decide +kernel) hissued (by decide +kernel)
    (by decide +kernel) (by decide +kernel)⟩

end Audit

end Edet
