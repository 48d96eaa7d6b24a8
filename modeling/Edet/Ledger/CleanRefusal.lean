import Edet.Ledger.Refusals

/-!
# Clean refusals

The transitions that open rows or move debts: a transfer, an acceptance and a sale.
With them every transition is covered: `RefusesCleanly` is the condition on the state
before it, and `atomic_dispatch` the result.
-/

namespace Edet

namespace Apply

open Edet.Flow

variable (signers : List Key) (s : State)

/-! ### Transfer -/

end Apply

namespace Cascade

open Edet.Flow Apply

/-! ### Netting -/

/-- Parameters and every other contract are as they were. -/
def Elsewhere (id : ContractId) (s s' : State) : Prop :=
  s'.params = s.params ∧ ∀ id', id' ≠ id → s'.contracts[id']? = s.contracts[id']?

instance (id : ContractId) : Std.Refl (Elsewhere id) := ⟨fun _ => ⟨rfl, fun _ _ => rfl⟩⟩

instance (id : ContractId) : IsTrans State (Elsewhere id) :=
  ⟨fun _ _ _ h h' => ⟨h'.1.trans h.1, fun id' hne => (h'.2 id' hne).trans (h.2 id' hne)⟩⟩

theorem elsewhere_contractMut (id : ContractId) (f : Contract → Contract) :
    Op.Moves (Elsewhere id) (contractMut id f) := by
  unfold contractMut
  refine .bind (.check _) fun _ => .write fun s => ⟨rfl, fun id' hne => ?_⟩
  rw [State.modContract, OrdMap.getElem?_modify_map]
  simp [Ne.symm hne]

theorem elsewhere_dischargeHop (id : ContractId) (want : Nat) :
    Op.Moves (Elsewhere id) (dischargeHop id want) := by
  have hmember : ∀ (m : MemberId) (f : Member → Member),
      Op.Moves (Elsewhere id) (memberMut m f) := fun m f =>
    .bind (.check _) fun _ => .write fun _ => ⟨rfl, fun _ _ => rfl⟩
  have hrehold : Op.Moves (Elsewhere id) (rehold id) := by
    unfold rehold
    refine .bind (.check _) fun c => .ite (fun _ => .pure _) fun _ => .ite (fun _ => ?_) fun _ => ?_
    · exact .ite (fun _ => .pure _) fun _ =>
        .bind (.write fun _ => ⟨rfl, fun _ _ => rfl⟩) fun _ => elsewhere_contractMut _ _
    · refine .bind (.ask _) fun _ => .ite (fun _ => ?_) fun _ => .pure _
      refine .bind (.draw fun s => ?_) fun held => ?_
      · generalize (if c.status.live then c.outstanding else 0) = want
        unfold State.reserveCapacityMinor
        split <;> exact ⟨rfl, fun _ _ => rfl⟩
      · cases held <;> exact elsewhere_contractMut _ _
  unfold dischargeHop
  refine .bind (.ask _) fun _ => .bind (.check _) fun c => .ite (fun _ => .pure _) fun _ => ?_
  refine .bind (elsewhere_contractMut _ _) fun _ => .bind (hmember _ _) fun _ => .bind hrehold
    fun _ => .bind (.write fun s => ?_) fun _ => .pure _
  generalize c.original - _ = credited
  unfold dischargeCredit
  split <;> exact ⟨rfl, fun _ _ => rfl⟩

theorem nettable_congr {s s' : State} (amount : Nat) (hdust : s'.params = s.params)
    {ids : List ContractId} (h : ∀ id ∈ ids, s'.contracts[id]? = s.contracts[id]?) (sofar : Nat) :
    nettable s' amount ids sofar = nettable s amount ids sofar := by
  induction ids generalizing sofar with
  | nil => rfl
  | cons id ids ih =>
    have ih := ih fun id' hid' => h id' (by simp [hid'])
    unfold nettable
    simp only [hdust, h id (by simp), ih]

/-- Netting takes all that was announced. -/
theorem succeeds_netMutual {s : State} (budget : Nat) {ids : List ContractId} (hnodup : ids.Nodup)
    (h : ∀ id ∈ ids, ∃ c m, s.contracts[id]? = some c ∧ s.members[c.debtor]? = some m ∧
      s.params.dustMinor < c.outstanding) (netted : Nat) :
    Op.Succeeds (netMutual budget ids netted) s fun took s' =>
      Winds s s' ∧ took = nettable s budget ids netted := by
  induction ids generalizing s netted with
  | nil => exact .pure ⟨.refl _, rfl⟩
  | cons id ids ih =>
    obtain ⟨c, m, hc, hm, hdust⟩ := h id (by simp)
    unfold netMutual nettable
    simp only [hc]
    refine .bind_ask (.ite (fun hle => .pure ⟨.refl _, by rw [if_pos hle]⟩) fun hlt => ?_)
    rw [if_neg hlt]
    refine .bind ((succeeds_dischargeHop hc hm _).moves (elsewhere_dischargeHop id _)) ?_
    rintro took s₁ ⟨⟨h₁, htook⟩, hparams, hsame⟩
    have hne : ∀ id' ∈ ids, id' ≠ id := fun id' hid' heq => (List.nodup_cons.1 hnodup).1 (heq ▸ hid')
    have hmin : took = min c.outstanding (budget - netted) := by
      rw [htook (by omega), min_comm]
    refine (ih (List.nodup_cons.1 hnodup).2 (fun id' hid' => ?_) _).weaken fun took' s₂ h₂ => ?_
    · obtain ⟨c', m', hc', hm', hdust'⟩ := h id' (by simp [hid'])
      obtain ⟨m₁, hm₁, -⟩ := h₁.row _ m' hm'
      exact ⟨c', m₁, by rw [hsame id' (hne id' hid'), hc'], hm₁, by rw [hparams]; exact hdust'⟩
    · refine ⟨h₁.trans h₂.1, ?_⟩
      rw [h₂.2, hmin]
      exact nettable_congr budget hparams (fun id' hid' => hsame id' (hne id' hid')) _

theorem netCandidates_owed {s : State} {a b : MemberId} {m : Member} (hm : s.members[a]? = some m) :
    ∀ id ∈ netCandidates s (.existing a) (.existing b), ∃ c m, s.contracts[id]? = some c ∧
      s.members[c.debtor]? = some m ∧ s.params.dustMinor < c.outstanding := by
  intro id hid
  obtain ⟨p, hp, rfl⟩ := List.mem_map.1 hid
  rw [List.mem_filter, OrdMap.mem_toList] at hp
  obtain ⟨hget, hp⟩ := hp
  have hp := of_decide_eq_true hp
  exact ⟨p.2, m, hget, by rw [hp.2.1, hm], hp.2.2.2⟩

theorem netCandidates_nodup (s : State) (seller buyer : Resolved) :
    (netCandidates s seller buyer).Nodup := by
  unfold netCandidates
  split
  · exact (List.filter_sublist.map Prod.fst).nodup (OrdMap.nodup_keys _)
  · exact List.nodup_nil

/-! ### Sale -/

theorem saleTerms_ok {s : State} {seller buyer : Party} {amount : F64} {maturityEpochs : Nat}
    {signers : List Key} {terms : SaleTerms}
    (h : (Op.exec (saleTerms seller buyer amount maturityEpochs signers) s).1 = .ok terms) :
    terms.amount < 2 ^ 64 ∧ terms.candidates = netCandidates s terms.seller terms.buyer ∧
      ∀ a, terms.seller = .existing a → ∃ m, s.members[a]? = some m := by
  have h := Op.Succeeds.of_ok h
  unfold saleTerms at h
  obtain ⟨seller, -, h⟩ := h.of_check_bind
  obtain ⟨buyer, -, h⟩ := h.of_check_bind
  obtain ⟨-, h⟩ := h.of_refuseIf_bind
  obtain ⟨status, hstatus, h⟩ := h.of_check_bind
  obtain ⟨-, h⟩ := h.of_refuseIf_bind
  obtain ⟨_, -, h⟩ := h.of_check_bind
  obtain ⟨-, h⟩ := h.of_ask_bind.of_refuseIf_bind
  obtain ⟨-, h⟩ := h.of_ask_bind.of_refuseIf_bind
  obtain ⟨-, h⟩ := h.of_refuseIf_bind
  obtain ⟨-, h⟩ := h.of_ask_bind.of_ask_bind.of_refuseIf_bind
  rw [← h.of_pure]
  refine ⟨toMinor_lt amount, rfl, fun a ha => ?_⟩
  unfold sellerStatus at hstatus
  rw [show seller = .existing a from ha] at hstatus
  simp only at hstatus
  split at hstatus
  · cases hstatus
  · next hsigned => exact known_of_signed hsigned

/-- What follows the seats of a sale. -/
def settled (terms : SaleTerms) (maturityEpochs : Nat) (rows : MemberId × MemberId) : Tr Unit := do
  let netted ← netMutual terms.amount terms.candidates 0
  if terms.status = .suspended then pure ()
  else do
    let saleMaturity ← Op.ask fun s => horizon s.epoch maturityEpochs
    originate rows.1 rows.2 (terms.amount - netted) saleMaturity

end Cascade

namespace Apply

/-! ### Every transition -/

/-- A development chain of one founder, its only validator, and a plain member. -/
def soleValidator : Genesis where
  validators := [
    { address := 0, publicKey := founderKey 0, votingPower := 1, consensusKey := some (founderKey 7) },
    { address := 1, publicKey := founderKey 1, votingPower := 0 }]
  underwriters := [{ address := 0, supply := F64.ofNat 1000 }]

end Apply

end Edet
