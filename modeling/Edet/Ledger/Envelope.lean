import Edet.Ledger.Genesis
import Edet.Ledger.Screens

/-!
# How an envelope lists its signers

Every question that is put to the signers of an envelope is whether some key is among them
(`SameSigners.any_eq`), or who stands behind their keys, and these are taken as a set and in
ascending order (`SameSigners.payers_eq`). What a transaction costs, whom it is charged to, what
it does and what is left of the ledger are therefore the same for two envelopes that the same
keys signed (`apply_eq`), and so is what a run of such envelopes leaves (`run_of_relisted`).
-/

namespace Edet

/-- The same keys signed, in whatever order and however often. -/
def SameSigners (signers signers' : List Key) : Prop := ∀ k, k ∈ signers ↔ k ∈ signers'

namespace Bond

/-- The member billed for a transaction, if there is one. -/
def bondedParty (s : State) (tx : Tx) (signers : List Key) : Option MemberId :=
  match due s tx signers with
  | .free | .unpayable => none
  | .allowance id | .slot id | .bond id _ | .seat id _ _ => some id

end Bond

namespace SameSigners

open Apply Bond

variable {signers signers' : List Key}

theorem of_perm (h : signers.Perm signers') : SameSigners signers signers' := fun _ => h.mem_iff

/-- A key that signed may sign again. -/
theorem of_repeated {k : Key} (h : k ∈ signers) : SameSigners signers (k :: signers) := by
  intro a
  rw [List.mem_cons]
  exact ⟨.inr, fun ha => ha.elim (fun heq => heq ▸ h) id⟩

/-- Permuting and repeating is all there is to it. -/
theorem iff_perm_dedup : SameSigners signers signers' ↔ signers.dedup.Perm signers'.dedup := by
  rw [List.perm_ext_iff_of_nodup (List.nodup_dedup _) (List.nodup_dedup _)]
  simp only [List.mem_dedup]
  rfl

theorem any_eq (h : SameSigners signers signers') (p : Key → Bool) :
    signers.any p = signers'.any p := by
  rw [Bool.eq_iff_iff, List.any_eq_true, List.any_eq_true]
  exact exists_congr fun k => and_congr_left' (h k)

theorem contains_eq (h : SameSigners signers signers') (k : Key) :
    signers.contains k = signers'.contains k := by
  rw [Bool.eq_iff_iff, List.contains_iff_mem, List.contains_iff_mem]
  exact h k

/-! ### Signatures -/

theorem requireSigned_eq (h : SameSigners signers signers') (s : State) (id : MemberId) :
    requireSigned s id signers = requireSigned s id signers' := by
  unfold requireSigned
  simp only [h.any_eq]

theorem signingGuardians_eq (h : SameSigners signers signers') (s : State) (cfg : GuardianConfig) :
    signingGuardians s cfg signers = signingGuardians s cfg signers' := by
  unfold signingGuardians
  simp only [h.requireSigned_eq]

theorem signedOrGuardians_eq (h : SameSigners signers signers') (s : State) (id : MemberId) :
    signedOrGuardians s id signers = signedOrGuardians s id signers' := by
  unfold signedOrGuardians
  simp only [h.requireSigned_eq, h.signingGuardians_eq]

theorem resolve_eq (h : SameSigners signers signers') (s : State) (party : Party) :
    resolve s party signers = resolve s party signers' := by
  unfold resolve
  simp only [h.contains_eq]

theorem requireParty_eq (h : SameSigners signers signers') (s : State) (party : Resolved) :
    requireParty s party signers = requireParty s party signers' := by
  unfold requireParty
  simp only [h.requireSigned_eq]

theorem sellerStatus_eq (h : SameSigners signers signers') (s : State) (seller : Resolved) :
    Cascade.sellerStatus s seller signers = Cascade.sellerStatus s seller signers' := by
  unfold Cascade.sellerStatus
  simp only [h.requireSigned_eq]

/-! ### Who pays -/

/-- The members behind the keys are the same, and listed in the same order. -/
theorem payers_eq (h : SameSigners signers signers') (s : State) :
    payers s signers = payers s signers' := by
  unfold payers
  congr 1
  refine Std.ExtTreeSet.ext_mem fun id => ?_
  rw [OrdSet.mem_foldl_insert, OrdSet.mem_foldl_insert, List.mem_filter, List.mem_filter,
    List.mem_filterMap, List.mem_filterMap]
  refine or_congr_right (and_congr_left' (exists_congr fun k => ?_))
  exact and_congr_left' (h k)

theorem due_eq (h : SameSigners signers signers') (s : State) (tx : Tx) :
    due s tx signers = due s tx signers' := by
  unfold due
  simp only [h.payers_eq]

theorem bondedParty_eq (h : SameSigners signers signers') (s : State) (tx : Tx) :
    bondedParty s tx signers = bondedParty s tx signers' := by
  unfold bondedParty
  rw [h.due_eq]

theorem bondGate_eq (h : SameSigners signers signers') (tx : Tx) :
    bondGate tx signers = bondGate tx signers' := by
  unfold bondGate
  simp only [h.due_eq]

theorem priceRefusal_eq (h : SameSigners signers signers') (subject : Option MemberId) (s : State) :
    priceRefusal subject signers s = priceRefusal subject signers' s := by
  unfold priceRefusal ownsSlot
  simp only [h.any_eq, h.payers_eq]

theorem settleOutcome_eq (h : SameSigners signers signers') (tx : Tx) (txId : TxId)
    (notAfterEpoch : Nat) (charged : Charged) (outcome : Res Unit) :
    settleOutcome tx txId notAfterEpoch signers charged outcome =
      settleOutcome tx txId notAfterEpoch signers' charged outcome := by
  ext1 s
  unfold settleOutcome
  simp only [h.priceRefusal_eq]

/-! ### The screens -/

theorem admits_eq (h : SameSigners signers signers') (s : State) (tx : Tx) :
    admits s tx signers = admits s tx signers' := by
  unfold admits
  rw [h.due_eq]

theorem signed_eq (h : SameSigners signers signers') (s : State) (id : MemberId) :
    signed s signers id = signed s signers' id := by
  unfold signed
  simp only [h.any_eq]

theorem partySigned_eq (h : SameSigners signers signers') (s : State) (party : Party) :
    partySigned s signers party = partySigned s signers' party := by
  unfold partySigned
  simp only [h.signed_eq, h.contains_eq]

theorem guardiansSigned_eq (h : SameSigners signers signers') (s : State)
    (known : MemberId → Bool) (cfg : GuardianConfig) :
    guardiansSigned s signers known cfg = guardiansSigned s signers' known cfg := by
  unfold guardiansSigned
  simp only [h.signed_eq]

theorem authorises_eq (h : SameSigners signers signers') (s : State) (tx : Tx) :
    authorises s signers tx = authorises s signers' tx := by
  have hguardians : guardiansSigned s signers = guardiansSigned s signers' :=
    funext fun known => funext (h.guardiansSigned_eq s known)
  cases tx <;> simp only [authorises, h.signed_eq, h.partySigned_eq, hguardians]

/-! ### What a transaction does -/

variable [Libm]

theorem dispatch_eq (h : SameSigners signers signers') (tx : Tx) (sponsor : Option MemberId) :
    dispatch tx signers sponsor = dispatch tx signers' sponsor := by
  cases tx with
  | rotateFinalize => rfl
  | markExpired => rfl
  | forfeitBonds => rfl
  | registerGuardians =>
    simp only [dispatch, registerGuardians, h.requireSigned_eq]
  | rotateRequest => simp only [dispatch, rotateRequest, h.signingGuardians_eq]
  | rotateVeto => simp only [dispatch, rotateVeto, h.requireSigned_eq]
  | setConsensusKey => simp only [dispatch, setConsensusKey, h.requireSigned_eq]
  | declareSupply => simp only [dispatch, declareSupply, h.requireSigned_eq]
  | accept => simp only [dispatch, accept, acceptTerms, h.resolve_eq, h.requireParty_eq]
  | transfer => simp only [dispatch, transfer, transferable, h.requireSigned_eq]
  | settle =>
    simp only [dispatch, settle, repayment, h.requireSigned_eq, h.signedOrGuardians_eq]
  | cure => simp only [dispatch, cure, repayment, h.requireSigned_eq, h.signedOrGuardians_eq]
  | extend => simp only [dispatch, extend, h.requireSigned_eq]
  | listBeneficiaries => simp only [dispatch, listBeneficiaries, h.requireSigned_eq]
  | approveSupporter => simp only [dispatch, approveSupporter, h.requireSigned_eq]
  | sale =>
    simp only [dispatch, Cascade.sale, Cascade.saleTerms, h.resolve_eq, h.requireParty_eq,
      h.sellerStatus_eq]
  | arbAttest => simp only [dispatch, arbAttest, h.requireSigned_eq]
  | exit => simp only [dispatch, exit, h.requireSigned_eq]
  | propose => simp only [dispatch, propose, h.requireSigned_eq]
  | assent => simp only [dispatch, assent, mayAssent, h.requireSigned_eq]

theorem apply_eq (h : SameSigners signers signers') (tx : Tx) (txId : TxId)
    (notAfterEpoch nowSecs : Nat) :
    apply tx txId notAfterEpoch signers nowSecs = apply tx txId notAfterEpoch signers' nowSecs := by
  unfold apply
  simp only [h.bondGate_eq, h.dispatch_eq, h.settleOutcome_eq]

end SameSigners

/-! ### Runs -/

section Run

/-- The same event, but for how its envelope lists the signers. -/
inductive Event.Relisted : Event → Event → Prop
  | block (nowSecs : Nat) : Relisted (.block nowSecs) (.block nowSecs)
  | transaction (tx : Tx) (txId : TxId) (notAfterEpoch : Nat) {signers signers' : List Key}
      (nowSecs : Nat) (h : SameSigners signers signers') :
    Relisted (.transaction tx txId notAfterEpoch signers nowSecs)
      (.transaction tx txId notAfterEpoch signers' nowSecs)

variable [Libm]

theorem Event.Relisted.next_eq {e e' : Event} (h : e.Relisted e') : e.next = e'.next := by
  cases h with
  | block => rfl
  | transaction tx txId notAfterEpoch nowSecs h =>
    ext1 s
    exact congrArg (fun op => (Op.exec op s).2) (h.apply_eq tx txId notAfterEpoch nowSecs)

/-- Relisting the signers of any of its envelopes leaves a run where it went. -/
theorem run_of_relisted {es es' : List Event} (h : List.Forall₂ Event.Relisted es es') (s : State) :
    es.foldl (fun s e => e.next s) s = es'.foldl (fun s e => e.next s) s := by
  induction h generalizing s with
  | nil => rfl
  | cons he _ ih => rw [List.foldl_cons, List.foldl_cons, he.next_eq, ih]

/-- **Billing does not depend on how the envelope is written.** Where the same keys signed, in
whatever order and however often, the same member is billed, the same is due, the gate takes it
from the same row, and the transaction ends with the same outcome in the same state. -/
theorem billing_of_sameSigners {signers signers' : List Key} (h : SameSigners signers signers')
    (s : State) (tx : Tx) (txId : TxId) (notAfterEpoch nowSecs : Nat) :
    Bond.bondedParty s tx signers = Bond.bondedParty s tx signers' ∧
      Bond.due s tx signers = Bond.due s tx signers' ∧
      Op.exec (Apply.bondGate tx signers) s = Op.exec (Apply.bondGate tx signers') s ∧
      Op.exec (Apply.apply tx txId notAfterEpoch signers nowSecs) s =
        Op.exec (Apply.apply tx txId notAfterEpoch signers' nowSecs) s := by
  refine ⟨h.bondedParty_eq s tx, h.due_eq s tx, ?_, ?_⟩
  · rw [h.bondGate_eq]
  · rw [h.apply_eq]

end Run

/-- Two founders sign a sale that opens no row: the first of them pays, though it is listed last. -/
theorem billing_of_sameSigners_swapped :
    letI := Libm.unused
    let s := (devGenesis [1000, 1000]).state
    let tx := Tx.sale (.member 1) (.member 0) (F64.ofNat 1) 10
    Bond.bondedParty s tx [founderKey 0, founderKey 1] = some 0 ∧
      Bond.bondedParty s tx [founderKey 1, founderKey 0, founderKey 1] = some 0 ∧
      Op.exec (Apply.apply tx 7 1 [founderKey 0, founderKey 1] 10) s =
        Op.exec (Apply.apply tx 7 1 [founderKey 1, founderKey 0, founderKey 1] 10) s := by
  let _ : Libm := Libm.unused
  intro s tx
  have hsame : SameSigners [founderKey 0, founderKey 1] [founderKey 1, founderKey 0, founderKey 1] :=
    SameSigners.iff_perm_dedup.2 (by decide)
  obtain ⟨hparty, -, -, happly⟩ := billing_of_sameSigners hsame s tx 7 1 10
  have hfirst : Bond.bondedParty s tx [founderKey 0, founderKey 1] = some 0 := by decide +kernel
  exact ⟨hfirst, hparty.symm.trans hfirst, happly⟩

end Edet
