import Edet.Kernel.Decay

/-!
# More rows

A query answers no less over more rows (`capacityInner_mono_rows`): the node of the sink is numbered
after the rows, so a flow over fewer rows is one over more, with its sink renamed
(`FlowInto.relabel`). With `capacityInner_mono`, what a member is reached by from the supplies does
not fall while the stakes rise and rows are added.
-/

namespace Edet.NetworkFlow

variable {V : Type*} [DecidableEq V]

/-! ### Renaming nodes -/

theorem outflow_mapDomain (σ : V ≃ V) (v : V) (f : V × V →₀ ℕ) :
    outflow (σ v) (f.mapDomain (Prod.map σ σ)) = outflow v f := by
  induction f using Finsupp.induction_linear with
  | zero => simp
  | add f g hf hg => rw [Finsupp.mapDomain_add, map_add, map_add, hf, hg]
  | single a x => simp [Finsupp.mapDomain_single]

theorem inflow_mapDomain (σ : V ≃ V) (v : V) (f : V × V →₀ ℕ) :
    inflow (σ v) (f.mapDomain (Prod.map σ σ)) = inflow v f := by
  induction f using Finsupp.induction_linear with
  | zero => simp
  | add f g hf hg => rw [Finsupp.mapDomain_add, map_add, map_add, hf, hg]
  | single a x => simp [Finsupp.mapDomain_single]

variable {N N' : Network V} {S S' : Set V}

/-- A flow under new names, within the capacities and supplies there. -/
noncomputable def FlowInto.relabel (σ : V ≃ V) (hS : ∀ v ∈ S, σ v ∈ S')
    (hcap : ∀ a b, N.cap (a, b) ≤ N'.cap (σ a, σ b)) (hsupply : ∀ v, N.supply v ≤ N'.supply (σ v))
    (f : FlowInto N S) : FlowInto N' S' where
  amount := f.amount.mapDomain (Prod.map σ σ)
  draw := f.draw.mapDomain σ
  amount_le := by
    intro p
    obtain ⟨⟨a, b⟩, rfl⟩ := (Equiv.prodCongr σ σ).surjective p
    show f.amount.mapDomain (Prod.map σ σ) (Prod.map σ σ (a, b)) ≤ _
    rw [Finsupp.mapDomain_apply (σ.injective.prodMap σ.injective)]
    exact (f.amount_le (a, b)).trans (hcap a b)
  draw_le := by
    intro w
    obtain ⟨v, rfl⟩ := σ.surjective w
    rw [Finsupp.mapDomain_apply σ.injective]
    exact (f.draw_le v).trans (hsupply v)
  balanced := by
    intro w hw
    obtain ⟨v, rfl⟩ := σ.surjective w
    rw [outflow_mapDomain, inflow_mapDomain, Finsupp.mapDomain_apply σ.injective]
    exact f.balanced v fun hv => hw (hS v hv)

theorem FlowInto.drawn_relabel (σ : V ≃ V) (hS : ∀ v ∈ S, σ v ∈ S')
    (hcap : ∀ a b, N.cap (a, b) ≤ N'.cap (σ a, σ b)) (hsupply : ∀ v, N.supply v ≤ N'.supply (σ v))
    (f : FlowInto N S) : (f.relabel σ hS hcap hsupply).drawn = f.drawn :=
  Finsupp.degree_mapDomain σ f.draw

end Edet.NetworkFlow

namespace Edet.Flow

open NetworkFlow Network

/-! ### The arcs over more rows -/

theorem amountAt_sinkArcs (targets : List Nat) (n a b : Nat) :
    amountAt (sinkArcs targets n) (a, b) =
      if b = n + 1 ∧ a < n then targets.count a * unbounded else 0 := by
  -- targets that are no rows have no arc
  induction targets with
  | nil => simp [sinkArcs, amountAt]
  | cons t targets ih =>
    have hcons : sinkArcs (t :: targets) n =
        if t < n then ((t, n + 1), unbounded) :: sinkArcs targets n else sinkArcs targets n := by
      unfold sinkArcs
      by_cases ht : t < n <;> simp [ht]
    rw [hcons, List.count_cons]
    split
    · next ht =>
      rw [amountAt_cons, ih]
      by_cases hta : t = a
      · subst hta
        by_cases hb : b = n + 1
        · subst hb
          simp [ht, Nat.add_mul, Nat.add_comm]
        · simp [hb, Ne.symm hb]
      · simp [hta]
    · next ht =>
      rw [ih]
      by_cases hta : t = a
      · subst hta
        simp [ht]
      · simp [hta]

section Rows

variable {edges : Edges} {reserved : Reservations} {committed : Committed}
  {supplies : OrdMap Nat Nat} {targets : List Nat} {n n' : Nat} {ownSupply : Bool}

/-- The names of the sinks, exchanged. -/
def sinkSwap (n n' : Nat) : Nat ≃ Nat := Equiv.swap (n + 1) (n' + 1)

theorem sinkSwap_of_lt (h : n ≤ n') {v : Nat} (hv : v < n) : sinkSwap n n' v = v :=
  Equiv.swap_apply_of_ne_of_ne (by omega) (by omega)

theorem throughSink_cap_mono (h : n ≤ n') (a b : Nat) :
    (throughSink edges reserved committed supplies.toList targets n ownSupply).cap (a, b) ≤
      (throughSink edges reserved committed supplies.toList targets n' ownSupply).cap
        (sinkSwap n n' a, sinkSwap n n' b) := by
  have hledger : ∀ k : Nat × Nat, k.1 < n → k.2 < n →
      listFlow (ledgerArcs edges reserved n) k ≤ listFlow (ledgerArcs edges reserved n') k := by
    intro k hk hk'
    have hfew : (leftOver edges reserved committed supplies.toList targets n ownSupply).cap k = _ :=
      (leftOver_cap k).trans (if_pos ⟨hk, hk'⟩)
    have hmany : (leftOver edges reserved committed supplies.toList targets n' ownSupply).cap k = _ :=
      (leftOver_cap k).trans (if_pos ⟨hk.trans_le h, hk'.trans_le h⟩)
    exact (hfew.trans hmany.symm).le
  show listFlow (ledgerArcs edges reserved n) (a, b) + listFlow (sinkArcs targets n) (a, b) ≤
    listFlow (ledgerArcs edges reserved n') (sinkSwap n n' a, sinkSwap n n' b) +
      listFlow (sinkArcs targets n') (sinkSwap n n' a, sinkSwap n n' b)
  rw [listFlow_apply (sinkArcs targets n), listFlow_apply (sinkArcs targets n'), amountAt_sinkArcs,
    amountAt_sinkArcs]
  refine add_le_add ?_ ?_
  · by_cases hin : a < n ∧ b < n
    · rw [sinkSwap_of_lt h hin.1, sinkSwap_of_lt h hin.2]
      exact hledger (a, b) hin.1 hin.2
    · have hnone : (leftOver edges reserved committed supplies.toList targets n ownSupply).cap (a, b) =
          0 := (leftOver_cap (a, b)).trans (if_neg hin)
      exact hnone.le.trans (Nat.zero_le _)
  · by_cases hsink : b = n + 1 ∧ a < n
    · obtain ⟨rfl, ha⟩ := hsink
      rw [if_pos ⟨rfl, ha⟩, sinkSwap_of_lt h ha, sinkSwap, Equiv.swap_apply_left,
        if_pos ⟨rfl, ha.trans_le h⟩]
    · rw [if_neg hsink]
      exact Nat.zero_le _

theorem throughSink_supply_mono (h : n ≤ n') (v : Nat) :
    (throughSink edges reserved committed supplies.toList targets n ownSupply).supply v ≤
      (throughSink edges reserved committed supplies.toList targets n' ownSupply).supply
        (sinkSwap n n' v) := by
  show (leftOver edges reserved committed supplies.toList targets n ownSupply).supply v ≤
    (leftOver edges reserved committed supplies.toList targets n' ownSupply).supply (sinkSwap n n' v)
  rw [leftOver_supply (nodup_supplies supplies), leftOver_supply (nodup_supplies supplies)]
  split
  · next hv =>
    rw [sinkSwap_of_lt h hv.1, if_pos ⟨hv.1.trans_le h, hv.2⟩]
  · exact Nat.zero_le _

/-- **A query answers no less over more rows.** -/
theorem capacityInner_mono_rows (h : n ≤ n') (limit : Nat) :
    capacityInner edges reserved committed supplies.toList targets n limit ownSupply ≤
      capacityInner edges reserved committed supplies.toList targets n' limit ownSupply := by
  unfold capacityInner
  split
  · exact Nat.zero_le _
  · next hsome =>
    rw [if_neg fun hnone => hsome (hnone.imp id fun hzero => Nat.le_zero.1 (h.trans_eq hzero))]
    obtain ⟨M, hM, hflow⟩ :=
      flow_eq_min_throughSink edges reserved committed supplies.toList targets n ownSupply
    obtain ⟨M', hM', hflow'⟩ :=
      flow_eq_min_throughSink edges reserved committed supplies.toList targets n' ownSupply
    rw [hflow, hflow']
    obtain ⟨f, hf⟩ := hM.1
    have hsink : ∀ v ∈ ({n + 1} : Set Nat), sinkSwap n n' v ∈ ({n' + 1} : Set Nat) := by
      rintro v rfl
      exact Equiv.swap_apply_left _ _
    have hle : M ≤ M' := by
      rw [← hf, ← FlowInto.drawn_relabel (sinkSwap n n') hsink (throughSink_cap_mono h)
        (throughSink_supply_mono h)]
      exact hM'.2 ⟨_, rfl⟩
    exact min_le_min le_rfl hle

end Rows

end Edet.Flow
