import Edet.Kernel.Reserve

/-!
# What may flow into a set of members

A hold is a flow, so that it is no larger than a cut: what is held towards a member of a
set without underwriters came in on arcs that enter the set (`Held.FlowsTo.amount_le`). The
same bounds every query, and where no arc enters the set its members can confer nothing and
receive nothing (`capacityInner_eq_zero`, `conferrable_eq_zero`).
-/

namespace Edet.Flow

open NetworkFlow

/-! ### Entering a set -/

open Classical in
/-- What an assignment of amounts carries into a set. -/
noncomputable def entering (S : Set Nat) (f : Nat × Nat →₀ Nat) : Nat :=
  f.sum fun a x => if a.1 ∉ S ∧ a.2 ∈ S then x else 0

open Classical in
theorem entering_mono (S : Set Nat) {f f' : Nat × Nat →₀ Nat} (h : f ≤ f') :
    entering S f ≤ entering S f' := by
  unfold entering
  rw [Finsupp.sum_of_support_subset f (Finsupp.support_mono h) _ fun _ _ => by simp, Finsupp.sum]
  refine Finset.sum_le_sum fun a _ => ?_
  split
  · exact h a
  · exact le_refl _

open Classical in
theorem entering_eq_zero {S : Set Nat} {f : Nat × Nat →₀ Nat}
    (h : ∀ a b, a ∉ S → b ∈ S → f (a, b) = 0) : entering S f = 0 := by
  unfold entering
  refine Finset.sum_eq_zero fun a _ => ?_
  dsimp only
  split
  · next hcross => exact h a.1 a.2 hcross.1 hcross.2
  · rfl

open Classical in
theorem entering_add (S : Set Nat) (f f' : Nat × Nat →₀ Nat) :
    entering S (f + f') = entering S f + entering S f' := by
  unfold entering
  refine Finsupp.sum_add_index' (fun a => by simp) fun a x y => ?_
  split
  · rfl
  · rfl

theorem degree_listFlow {κ : Type} (l : List (κ × Nat)) :
    (listFlow l).degree = (l.map Prod.snd).sum := by
  induction l with
  | nil => rfl
  | cons p l ih =>
    rw [listFlow_cons, map_add, Finsupp.degree_single, ih, List.map_cons, List.sum_cons]

open Classical in
/-- **A hold came in from outside** every set of its debtor's that draws nothing itself. -/
theorem Held.FlowsTo.amount_le {h : Held} {debtor : Nat} (hflows : h.FlowsTo debtor)
    {S : Set Nat} (hdebtor : debtor ∈ S) (hdry : ∀ u ∈ S, amountAt h.supply u = 0) :
    h.amount ≤ entering S (listFlow h.edges) := by
  -- the hold as a flow to its debtor, through a network that has just its amounts
  let N : NetworkFlow.Network Nat := ⟨listFlow h.edges, listFlow h.supply⟩
  let f : FlowInto N {debtor} :=
    ⟨listFlow h.edges, listFlow h.supply, le_refl _, le_refl _, hflows.balanced⟩
  have hcut := f.value_le_cut (Set.singleton_subset_iff.2 hdebtor)
  have hsupply : (N.supply.sum fun v x => if v ∈ S ∧ v ∉ ({debtor} : Set Nat) then x else 0) = 0 := by
    refine Finset.sum_eq_zero fun v _ => ?_
    dsimp only
    split
    · next hv => exact (listFlow_apply _ _).trans (hdry v hv.1)
    · rfl
  have hvalue : f.value = h.amount := by
    show drawnOutside {debtor} (listFlow h.supply) = _
    rw [Held.amount, ← degree_listFlow, Finsupp.degree_apply, drawnOutside, Finsupp.sum]
    refine Finset.sum_congr rfl fun v _ => ?_
    split
    · next hv =>
        rw [Set.mem_singleton_iff] at hv
        rw [hv, listFlow_apply, hdry debtor hdebtor]
    · rfl
  calc h.amount = f.value := hvalue.symm
    _ ≤ N.cut {debtor} S := hcut
    _ = entering S (listFlow h.edges) := by
      unfold NetworkFlow.Network.cut entering
      rw [Nat.add_eq_left]
      convert hsupply

/-! ### Queries -/

section Queries

variable {edges : Edges} {reserved : Reservations} {committed : Committed} {uw : Underwriters}
  {S : Set Nat} {member n : Nat}

/-- Nothing flows to a member of a set that has no underwriters and that no arc enters. -/
theorem capacityInner_eq_zero (hnodup : (uw.map Prod.fst).Nodup) (hdry : ∀ p ∈ uw, p.1 ∉ S)
    (hclosed : ∀ a b, a ∉ S → b ∈ S → OrdMap.getD' edges (a, b) 0 = 0) (hmember : member ∈ S)
    (limit : Nat) (ownSupply : Bool) :
    capacityInner edges reserved committed uw [member] n limit ownSupply = 0 := by
  classical
  unfold capacityInner
  split
  · rfl
  let supplies : Nat → Nat := fun u => if u ∈ S then 0 else (uw.map Prod.snd).sum
  have huw : ∀ p ∈ uw, p.2 ≤ supplies p.1 := fun p hp => by
    simp only [supplies, if_neg (hdry p hp)]
    exact List.le_sum_of_mem (List.mem_map_of_mem hp)
  obtain ⟨hflows, hedges, hsupply, hdrawn⟩ :=
    flow_spec edges reserved committed n hnodup huw member limit ownSupply
  have hamount := hflows.amount_le hmember fun u hu => by
    have hdraw := hsupply u
    simp only [supplies, if_pos hu, Nat.zero_sub] at hdraw
    exact Nat.le_zero.1 hdraw
  rw [entering_eq_zero fun a b ha hb => ?_] at hamount
  · exact Nat.le_zero.1 (hdrawn.le.trans hamount)
  · have hcross := hedges (a, b)
    rw [hclosed a b ha hb, Nat.zero_sub] at hcross
    rw [listFlow_apply]
    exact Nat.le_zero.1 hcross

/-- Nor can such a member confer anything. -/
theorem conferrable_eq_zero (hnodup : (uw.map Prod.fst).Nodup) (hdry : ∀ p ∈ uw, p.1 ∉ S)
    (hclosed : ∀ a b, a ∉ S → b ∈ S → OrdMap.getD' edges (a, b) 0 = 0) (hmember : member ∈ S) :
    conferrable edges reserved committed uw member n = 0 := by
  unfold conferrable
  have hnone : uw.find? (fun u => decide (u.1 = member)) = none :=
    List.find?_eq_none.2 fun p hp => by
      rw [decide_eq_true_eq]
      exact fun h => hdry p hp (h ▸ hmember)
  rw [hnone]
  exact capacityInner_eq_zero hnodup hdry hclosed hmember _ _

end Queries

end Edet.Flow
