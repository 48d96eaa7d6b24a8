import Edet.Ledger.Parties
import Edet.Ledger.Stakes

/-!
# Cover does not outlast the horizon

The cover of a contract is who is owed, until when, since when, and whether it is insured
(`Contract.cover`). Each place that writes a contract writes a cover that follows from one
that stands, or from the epoch: in place nothing but the insurance is dropped, an extension
moves the maturity, a successor takes over creditor and acceptance, the claims of a
substitution take over the acceptance, and what is booked afresh is accepted now.

So a law of covers that is closed under these steps holds of every contract that a transition or a
boundary leaves (`Law`, `cover_dispatch`, `cover_sweepCranks`); a redenomination drops insurance and
moves no date (`covers_rescale`). The horizon is such a law (`law_timely`), and so in every run no
contract is insured beyond the horizon that starts with its own acceptance (`timely_run`).
-/

namespace Edet

open Edet.Flow

/-- Who is owed, until when, since when, and whether that is insured. -/
structure Cover where
  creditor : MemberId
  maturity : Nat
  accepted : Nat
  insured : Bool

def Contract.cover (c : Contract) : Cover := ⟨c.creditor, c.maturityEpoch, c.acceptedEpoch, c.insured⟩

namespace Cover

/-- The same without insurance. -/
def dropped (k : Cover) : Cover := { k with insured := false }

end Cover

theorem horizon_le_horizon (base : Nat) {delta delta' : Nat} (h : delta ≤ delta') :
    horizon base delta ≤ horizon base delta' := by
  unfold horizon
  omega

/-- Every contract's cover obeys the law, at an epoch and with a horizon that is not exceeded. -/
structure Covered (P : Cover → Prop) (H E : Nat) (s : State) : Prop where
  lawful : ∀ (id : ContractId) c, s.contracts[id]? = some c → P c.cover
  params : s.params.insuredHorizonEpochs ≤ H
  epoch : s.epoch = E

/-- Where the contracts obeyed the law they do so still. -/
def KeepsCovered (P : Cover → Prop) (H E : Nat) (s s' : State) : Prop :=
  Covered P H E s → Covered P H E s'

instance (P : Cover → Prop) (H E : Nat) : Std.Refl (KeepsCovered P H E) := ⟨fun _ h => h⟩

instance (P : Cover → Prop) (H E : Nat) : IsTrans State (KeepsCovered P H E) :=
  ⟨fun _ _ _ h h' hs => h' (h hs)⟩

section Laws

variable {P : Cover → Prop} {H E : Nat}

theorem Covered.of_eq {s s' : State} (hs : Covered P H E s) (hcontracts : s'.contracts = s.contracts)
    (hparams : s'.params = s.params) (hepoch : s'.epoch = s.epoch) : Covered P H E s' where
  lawful id c hc := hs.lawful id c (hcontracts ▸ hc)
  params := hparams ▸ hs.params
  epoch := by rw [hepoch, hs.epoch]

theorem KeepsCovered.of_eq {s s' : State} (hcontracts : s'.contracts = s.contracts)
    (hparams : s'.params = s.params) (hepoch : s'.epoch = s.epoch) : KeepsCovered P H E s s' :=
  fun hs => hs.of_eq hcontracts hparams hepoch

/-- One contract is written, as the law allows. -/
theorem Covered.insert {s : State} (hs : Covered P H E s) {c : Contract} (hc : P c.cover)
    (id n : ContractId) :
    Covered P H E { s with nextContract := n, contracts := s.contracts.insert id c } where
  lawful i c' hc' := by
    dsimp only at hc'
    rw [Std.ExtTreeMap.getElem?_insert] at hc'
    split at hc'
    · obtain rfl := Option.some.inj hc'
      exact hc
    · exact hs.lawful i c' hc'
  params := hs.params
  epoch := hs.epoch

theorem Covered.modContract {s : State} (hs : Covered P H E s) {id : ContractId}
    {f : Contract → Contract} (hf : ∀ c, s.contracts[id]? = some c → P (f c).cover) :
    Covered P H E (s.modContract id f) where
  lawful i c' hc' := by
    rw [State.modContract, OrdMap.getElem?_modify_map, Option.map_eq_some_iff] at hc'
    obtain ⟨c, hc, rfl⟩ := hc'
    split
    · next heq =>
      subst heq
      exact hf c hc
    · exact hs.lawful i c hc
  params := hs.params
  epoch := hs.epoch

namespace Apply

/-- What a transition makes of lawful contracts is lawful. -/
abbrev KeepsCover (P : Cover → Prop) (H E : Nat) {α : Type} (op : Tr α) : Prop :=
  Op.Moves (KeepsCovered P H E) op

theorem KeepsCover.triple {α : Type} {op : Tr α} (h : KeepsCover P H E op) :
    Op.Triple (Covered P H E) op (fun _ => Covered P H E) (Covered P H E) :=
  Op.Moves.triple h fun _ _ hkeeps hs => hkeeps hs

theorem KeepsCover.of_triple {α : Type} {op : Tr α}
    (h : Op.Triple (Covered P H E) op (fun _ => Covered P H E) (Covered P H E)) :
    KeepsCover P H E op := fun _ hs => h.exec_snd hs

theorem cover_memberMut (id : MemberId) (f : Member → Member) : KeepsCover P H E (memberMut id f) := by
  unfold memberMut
  exact .bind (.check _) fun _ => .write fun _ => .of_eq rfl rfl rfl

/-- Writing a contract's other fields, or dropping its insurance. -/
theorem cover_contractMut (hdrop : ∀ k, P k → P k.dropped) (id : ContractId)
    {f : Contract → Contract} (hf : ∀ c, (f c).cover = c.cover ∨ (f c).cover = c.cover.dropped) :
    KeepsCover P H E (contractMut id f) := by
  unfold contractMut
  refine .bind (.check _) fun _ => .write fun s hs => hs.modContract fun c hc => ?_
  rcases hf c with h | h <;> rw [h]
  · exact hs.lawful id c hc
  · exact hdrop _ (hs.lawful id c hc)

theorem cover_release (held : Held) : KeepsCover P H E (Op.write (·.releaseCapacity held)) :=
  .write fun _ => .of_eq rfl rfl rfl

theorem cover_reserve (debtor : MemberId) (want : Nat) :
    KeepsCover P H E (Op.draw (·.reserveCapacityMinor debtor want)) := by
  refine .draw fun s => ?_
  unfold State.reserveCapacityMinor
  dsimp only
  split <;> exact .of_eq rfl rfl rfl

theorem cover_rehold (hdrop : ∀ k, P k → P k.dropped) (id : ContractId) :
    KeepsCover P H E (rehold id) := by
  unfold rehold
  refine .bind (.check _) fun c => .ite (fun _ => .pure _) fun _ => .ite (fun _ => ?_) fun _ => ?_
  · refine .ite (fun _ => .pure _) fun _ => .bind (cover_release _) fun _ => ?_
    exact cover_contractMut hdrop _ fun _ => Or.inl rfl
  · refine .bind (.ask _) fun _ => .ite (fun _ => ?_) fun _ => .pure _
    refine .bind (cover_reserve _ _) fun held => ?_
    cases held with
    | some h => exact cover_contractMut hdrop _ fun _ => Or.inl rfl
    | none => exact cover_contractMut hdrop _ fun _ => Or.inr rfl

/-- An obligation is opened as the law allows. -/
theorem cover_openObligation {debtor creditor : MemberId} {amount maturityEpoch : Nat}
    {arb : Option ArbTerms} {held : Option Held} {acceptedEpoch : Nat}
    (hlaw : P ⟨creditor, maturityEpoch, acceptedEpoch, held.isSome⟩) :
    KeepsCover P H E
      (openObligation debtor creditor amount maturityEpoch arb held acceptedEpoch) := by
  unfold openObligation
  refine .bind (.check _) fun _ => .bind (.ask _) fun _ => .bind (.write fun s hs => ?_) fun _ =>
    .bind (cover_memberMut _ _) fun _ => .pure _
  refine hs.insert ?_ _ _
  exact hlaw

/-- What is booked is accepted now, and insured inside the horizon alone. -/
theorem cover_book {creditor : MemberId}
    (hfresh : ∀ maturity insured, (insured = true → maturity ≤ horizon E H) →
      P ⟨creditor, maturity, E, insured⟩) (debtor : MemberId) (amount maturityEpoch : Nat)
    (arb : Option ArbTerms) : KeepsCover P H E (book debtor creditor amount maturityEpoch arb) := by
  refine .of_triple ?_
  unfold book
  refine .bind_quiet (Op.quiet_check _) (fun _ h => h) fun _ => ?_
  refine .bind (Q := fun inside s => Covered P H E s ∧
    (inside = true → maturityEpoch ≤ horizon E H)) (.ask fun s hs => ⟨hs, fun hin => ?_⟩)
    fun inside => ?_
  · rw [← hs.epoch]
    exact (of_decide_eq_true hin).trans (horizon_le_horizon _ hs.params)
  refine .bind (Q := fun held s => Covered P H E s ∧
    (held.isSome = true → maturityEpoch ≤ horizon E H)) (fun s hs => ?_) fun held => ?_
  · unfold reserveIf
    cases inside with
    | true => exact ⟨cover_reserve debtor amount s hs.1, fun _ => hs.2 rfl⟩
    | false => exact ⟨hs.1, fun hsome => by cases hsome⟩
  refine .bind (Q := fun epoch s => (Covered P H E s ∧
    (held.isSome = true → maturityEpoch ≤ horizon E H)) ∧ epoch = E)
    (.ask fun s hs => ⟨hs, hs.1.epoch⟩) fun epoch => ?_
  rintro s ⟨⟨hs, hin⟩, rfl⟩
  exact (cover_openObligation (hfresh _ _ hin)).triple s hs

/-- A successor takes over creditor, maturity and acceptance. -/
theorem cover_moveDebtor (hdrop : ∀ k, P k → P k.dropped) {c : Contract} (hc : P c.cover)
    (hmove : c.maturityEpoch ≤ horizon c.acceptedEpoch H →
      P ⟨c.creditor, c.maturityEpoch, c.acceptedEpoch, true⟩) (newDebtor : MemberId) :
    KeepsCover P H E (moveDebtor c newDebtor none) := by
  refine .of_triple ?_
  unfold moveDebtor
  refine .bind_quiet (Op.quiet_check _) (fun _ h => h) fun _ =>
    .bind (cover_release _).triple fun _ => .bind (cover_memberMut _ _).triple fun _ =>
    .bind (cover_contractMut hdrop _ fun _ => Or.inr rfl).triple fun _ => ?_
  refine .bind (Q := fun inside s => Covered P H E s ∧
    (inside = true → c.maturityEpoch ≤ horizon c.acceptedEpoch H))
    (.ask fun s hs => ⟨hs, fun hin => ?_⟩) fun inside => ?_
  · exact (of_decide_eq_true hin).trans (horizon_le_horizon _ hs.params)
  refine .bind (Q := fun held s => Covered P H E s ∧
    (held.isSome = true → c.maturityEpoch ≤ horizon c.acceptedEpoch H)) (fun s hs => ?_)
    fun held => ?_
  · unfold successorHold reserveIf
    cases inside with
    | true => exact ⟨cover_reserve newDebtor c.outstanding s hs.1, fun _ => hs.2 rfl⟩
    | false => exact ⟨hs.1, fun hsome => by cases hsome⟩
  rintro s ⟨hs, hin⟩
  have hlaw : P ⟨c.creditor, c.maturityEpoch, c.acceptedEpoch, held.isSome⟩ := by
    cases held with
    | some h => exact hmove (hin rfl)
    | none => exact hdrop _ hc
  have hmoved : KeepsCover P H E (do
      let _ ← openObligation newDebtor c.creditor c.outstanding c.maturityEpoch none held
        c.acceptedEpoch
      pure ()) := .bind (cover_openObligation hlaw) fun _ => .pure _
  exact hmoved.triple s hs

theorem cover_transfer (hdrop : ∀ k, P k → P k.dropped)
    (hmove : ∀ k, P k → k.maturity ≤ horizon k.accepted H → P { k with insured := true })
    (id : ContractId) (newDebtor : MemberId) (signers : List Key) :
    KeepsCover P H E (transfer id newDebtor signers) := by
  refine .of_triple ?_
  unfold transfer
  refine .bind (Q := fun c s => Covered P H E s ∧ P c.cover) ?_ fun c => ?_
  · unfold transferable
    refine .bind (triple_contract (Q := fun c s => Covered P H E s ∧ P c.cover)
      (fun s c hs hc => ⟨hs, hs.lawful id c hc⟩) fun _ h => h) fun c => ?_
    refine .bind_quiet (Op.quiet_refuseIf _ _) (fun _ h => h.1) fun _ =>
      .bind_quiet (Op.quiet_refuseIf _ _) (fun _ h => h.1) fun _ =>
      .bind_quiet (Op.quiet_check _) (fun _ h => h.1) fun _ =>
      .bind_quiet (Op.quiet_check _) (fun _ h => h.1) fun _ =>
      .bind_quiet (Op.quiet_check _) (fun _ h => h.1) fun _ =>
      .bind_quiet (Op.quiet_ask _) (fun _ h => h.1) fun _ => .ite (fun _ => .pure fun _ h => h)
      fun _ => .bind_quiet (Op.quiet_check _) (fun _ h => h.1) fun _ => .pure fun _ h => h
  rintro s ⟨hs, hc⟩
  exact (cover_moveDebtor hdrop hc (hmove _ hc) newDebtor).triple s hs

theorem keepsCovered_dischargeCredit (debtor creditor : MemberId) (amount : Nat) (s : State) :
    KeepsCovered P H E s (dischargeCredit debtor creditor amount s) := by
  unfold dischargeCredit
  split <;> exact .of_eq rfl rfl rfl

theorem cover_repay (hdrop : ∀ k, P k → P k.dropped) (id : ContractId) (c : Contract)
    (amount : Nat) (closed : ContractStatus) (cured : Bool) :
    KeepsCover P H E (repay id c amount closed cured) := by
  unfold repay
  refine .bind (.ask _) fun _ => .bind (cover_contractMut hdrop _ fun _ => Or.inl rfl) fun _ =>
    .bind (cover_rehold hdrop _) fun _ =>
    .bind (.write fun s => keepsCovered_dischargeCredit _ _ _ s) fun _ => cover_memberMut _ _

theorem cover_repayment (hdrop : ∀ k, P k → P k.dropped) (status closed : ContractStatus)
    (cured : Bool) (id : ContractId) (amount : F64) (signers : List Key) :
    KeepsCover P H E (repayment status closed cured id amount signers) := by
  unfold repayment
  refine .bind (.check _) fun _ => .bind (.refuseIf _ _) fun _ => .bind (.check _) fun _ =>
    .bind (.check _) fun _ => .bind (.refuseIf _ _) fun _ => .bind (.refuseIf _ _) fun _ => ?_
  exact cover_repay hdrop _ _ _ _ _

/-- An extension keeps the acceptance, and drops the insurance beyond the horizon. -/
theorem cover_extend (hdrop : ∀ k, P k → P k.dropped)
    (hextend : ∀ k maturity, P k → (k.insured = true → maturity ≤ horizon k.accepted H) →
      P { k with maturity }) (id : ContractId) (newMaturityEpoch : Nat) (signers : List Key) :
    KeepsCover P H E (extend id newMaturityEpoch signers) := by
  refine .of_triple ?_
  unfold extend
  refine .bind (triple_contract (Q := fun c s => Covered P H E s ∧ s.contracts[id]? = some c)
    (fun s c hs hc => ⟨hs, hc⟩) fun _ h => h) fun c => ?_
  refine .bind_quiet (Op.quiet_refuseIf _ _) (fun _ h => h.1) fun _ =>
    .bind_quiet (Op.quiet_check _) (fun _ h => h.1) fun _ =>
    .bind_quiet (Op.quiet_check _) (fun _ h => h.1) fun _ =>
    .bind_quiet (Op.quiet_refuseIf _ _) (fun _ h => h.1) fun _ =>
    .bind_quiet (Op.quiet_ask _) (fun _ h => h.1) fun _ =>
    .bind_quiet (Op.quiet_refuseIf _ _) (fun _ h => h.1) fun _ => ?_
  refine .bind (Q := fun drops s => (Covered P H E s ∧ s.contracts[id]? = some c) ∧
    (drops = false → c.insured = true → newMaturityEpoch ≤ horizon c.acceptedEpoch H))
    (.ask fun s hs => ⟨hs, fun hkeeps hinsured => ?_⟩) fun drops => ?_
  · have hnot := of_decide_eq_false hkeeps
    exact (not_lt.1 fun hlt => hnot ⟨hinsured, hlt⟩).trans (horizon_le_horizon _ hs.1.params)
  refine .ite (fun _ => ?_) fun hkeeps => ?_
  · refine .bind (Q := fun _ => Covered P H E)
      (fun s hs => cover_release c.held s hs.1.1) fun _ => ?_
    -- Without insurance the maturity is free.
    refine (KeepsCover.triple ?_)
    unfold contractMut
    refine .bind (.check _) fun _ => .write fun s hs => hs.modContract fun c hc => ?_
    exact hextend _ _ (hdrop _ (hs.lawful id c hc)) fun h => by cases h
  · unfold contractMut
    refine .bind (triple_contract (Q := fun _ s => (Covered P H E s ∧ s.contracts[id]? = some c) ∧
      (drops = false → c.insured = true → newMaturityEpoch ≤ horizon c.acceptedEpoch H))
      (fun s _ hs _ => hs) fun _ h => h.1.1) fun _ => .write fun s hs => ?_
    refine hs.1.1.modContract fun c' hc' => ?_
    obtain rfl := Option.some.inj (hs.1.2.symm.trans hc')
    exact hextend _ _ (hs.1.1.lawful id c hc')
      (hs.2 (Bool.not_eq_true _ ▸ hkeeps))

/-! ### Substitution -/

/-- The leg of a share is accepted now and not insured. -/
theorem cover_substituteLeg (c : Contract) (hleg : ∀ maturity, P ⟨c.creditor, maturity, E, false⟩)
    (maturityEpoch : Nat) (share : Share) : KeepsCover P H E (substituteLeg c maturityEpoch share) := by
  unfold substituteLeg substitutionLeg
  refine .ite (fun _ => .ite (fun _ => .pure _) fun _ => .bind (.check _) fun _ =>
    .bind (.write fun s hs => ?_) fun _ => cover_memberMut _ _) fun _ => .pure _
  refine hs.insert ?_ _ _
  show P ⟨c.creditor, maturityEpoch, s.epoch, false⟩
  rw [hs.epoch]
  exact hleg _

/-- The claims of a substitution keep the acceptance of the contract, which is insured. -/
theorem cover_substitute (hleg : ∀ creditor maturity, P ⟨creditor, maturity, E, false⟩)
    (hclaim : ∀ k creditor, P k → k.insured = true → P { k with creditor }) (id : ContractId) :
    KeepsCover P H E (substitute id) := by
  refine .of_triple ?_
  unfold substitute
  refine .bind (triple_contract (Q := fun c s => Covered P H E s ∧ s.contracts[id]? = some c)
    (fun s c hs hc => ⟨hs, hc⟩) fun _ h => h) fun c => ?_
  refine .ite (fun _ => .pure fun _ h => h.1) fun hheld => .ite (fun _ => .pure fun _ h => h.1)
    fun _ => .ite (fun _ => .pure fun _ h => h.1) fun _ => .ite (fun _ => .pure fun _ h => h.1)
    fun _ => .bind_quiet (Op.quiet_ask _) (fun _ h => h.1) fun maturityEpoch => ?_
  have hinsured : c.insured = true := not_not.1 fun h => hheld (Or.inl h)
  rintro s ⟨hs, hc⟩
  have hclaims : ∀ creditor, P ⟨creditor, c.maturityEpoch, c.acceptedEpoch, true⟩ := fun creditor => by
    have hlaw := hclaim c.cover creditor (hs.lawful id c hc) hinsured
    rw [show (⟨creditor, c.maturityEpoch, c.acceptedEpoch, true⟩ : Cover) =
      { c.cover with creditor } by rw [← hinsured]; rfl]
    exact hlaw
  cases shares c with
  | nil => exact hs
  | cons first rest =>
    have hfirst : Op.Triple (fun s => Covered P H E s ∧ s.contracts[id]? = some c)
        (contractMut id fun cm =>
          { cm with creditor := first.underwriter, outstanding := first.amount,
                    original := first.amount, held := first.held })
        (fun _ => Covered P H E) (Covered P H E) := by
      unfold contractMut
      refine .bind (triple_contract (Q := fun _ s => Covered P H E s ∧ s.contracts[id]? = some c)
        (fun s _ hs _ => hs) fun _ h => h.1) fun _ => .write fun s hs => ?_
      refine hs.1.modContract fun c' hc' => ?_
      obtain rfl := Option.some.inj (hs.2.symm.trans hc')
      show P ⟨first.underwriter, c.maturityEpoch, c.acceptedEpoch, c.insured⟩
      rw [hinsured]
      exact hclaims _
    have hrest : KeepsCover P H E (rest.forM fun share => do
        Op.write (subrogatedClaim c share.underwriter share.amount share.held)
        substituteLeg c maturityEpoch share) :=
      .forM fun share _ => .bind (.write fun s hs => by
        refine hs.insert ?_ _ _
        exact hclaims share.underwriter) fun _ => cover_substituteLeg c (hleg _) _ _
    exact (hfirst.bind fun _ => (cover_substituteLeg c (hleg _) _ _).triple.bind fun _ =>
      hrest.triple) s ⟨hs, hc⟩

theorem cover_markExpired (hdrop : ∀ k, P k → P k.dropped)
    (hleg : ∀ creditor maturity, P ⟨creditor, maturity, E, false⟩)
    (hclaim : ∀ k creditor, P k → k.insured = true → P { k with creditor }) (id : ContractId) :
    KeepsCover P H E (markExpired id) := by
  unfold markExpired
  exact .bind (quiet_expirable id).moves fun _ =>
    .bind (cover_contractMut hdrop _ fun _ => Or.inl rfl) fun _ =>
    .bind (cover_memberMut _ _) fun _ => cover_substitute hleg hclaim id

/-! ### Netting and arbitration -/

theorem cover_dischargeHop (hdrop : ∀ k, P k → P k.dropped) (id : ContractId) (want : Nat) :
    KeepsCover P H E (dischargeHop id want) := by
  unfold dischargeHop
  refine .bind (.ask _) fun _ => .bind (.check _) fun c => .ite (fun _ => .pure _) fun _ => ?_
  exact .bind (cover_contractMut hdrop _ fun _ => Or.inl rfl) fun _ =>
    .bind (cover_memberMut _ _) fun _ => .bind (cover_rehold hdrop _) fun _ =>
    .bind (.write fun s => keepsCovered_dischargeCredit _ _ _ s) fun _ => .pure _

theorem cover_netMutual (hdrop : ∀ k, P k → P k.dropped) (budget : Nat) (ids : List ContractId)
    (netted : Nat) : KeepsCover P H E (netMutual budget ids netted) := by
  induction ids generalizing netted with
  | nil => exact .pure _
  | cons id ids ih =>
    unfold netMutual
    refine .bind (.ask _) fun _ => .ite (fun _ => .pure _) fun _ => ?_
    exact .bind (cover_dischargeHop hdrop _ _) fun _ => ih _

theorem cover_netRings (hdrop : ∀ k, P k → P k.dropped) (rounds : Nat) :
    KeepsCover P H E (netRings rounds) :=
  moves_netRings (cover_dischargeHop hdrop) rounds

theorem cover_arbAttest (hdrop : ∀ k, P k → P k.dropped) (id : ContractId) (arbiter : MemberId)
    (amount : F64) (signers : List Key) : KeepsCover P H E (arbAttest id arbiter amount signers) := by
  unfold arbAttest
  refine .bind (.check _) fun _ => .bind (.check _) fun c => ?_
  cases c.arb with
  | none => exact .refuse _
  | some terms =>
    exact .bind (.refuseIf _ _) fun _ => .bind (.ask _) fun _ => .bind (.refuseIf _ _) fun _ =>
      .bind (.refuseIf _ _) fun _ => .bind (.refuseIf _ _) fun _ => .bind (.refuseIf _ _) fun _ =>
      cover_contractMut hdrop _ fun _ => Or.inl rfl

/-- An award is accepted now and not insured. -/
theorem cover_arbAward (hdrop : ∀ k, P k → P k.dropped)
    (hleg : ∀ creditor maturity, P ⟨creditor, maturity, E, false⟩) (id : ContractId) :
    KeepsCover P H E (arbAward id) := by
  unfold arbAward
  refine .bind (.check _) fun c => ?_
  cases c.arb with
  | none => exact .refuse _
  | some terms =>
    refine .bind (.refuseIf _ _) fun _ => .bind (.ask _) fun _ => .bind (.refuseIf _ _) fun _ =>
      .ite (fun _ => cover_contractMut hdrop _ fun _ => Or.inl rfl) fun _ =>
      .bind (cover_contractMut hdrop _ fun _ => Or.inl rfl) fun _ => .bind (.ask _) fun _ =>
      .ite (fun _ => .pure _) fun _ => .bind (.ask _) fun maturityEpoch => ?_
    refine KeepsCover.of_triple (.bind (Q := fun epoch s => Covered P H E s ∧ epoch = E)
      (.ask fun s hs => ⟨hs, hs.epoch⟩) fun epoch => ?_)
    rintro s ⟨hs, rfl⟩
    have hopened : KeepsCover P H epoch (do
        let _ ← openObligation terms.creditor terms.debtor
          (min (min (median c.arbAttestations.vals) terms.awardCap) terms.amount) maturityEpoch
          none none epoch
        pure ()) := .bind (cover_openObligation (hleg _ _)) fun _ => .pure _
    exact hopened.triple s hs

end Apply

namespace Cascade

open Apply

/-! ### Debts taken over -/

/-- What has been taken over would be lawful if it were opened with its hold. -/
def Lawful (P : Cover → Prop) (assumed : Assumed) : Prop :=
  ∀ (creditor : MemberId) (due : Nat) amount held accepted,
    assumed[(creditor, due)]? = some (amount, held, accepted) → P ⟨creditor, due, accepted, true⟩

theorem lawful_assume (hcap : ∀ k, P k → P { k with accepted := min u64Max k.accepted })
    {assumed : Assumed} (hassumed : Lawful P assumed) {creditor : MemberId} {due accepted : Nat}
    (hlaw : P ⟨creditor, due, accepted, true⟩) (amount : Nat) (held : Held) :
    Lawful P (assume assumed creditor due amount accepted held) := by
  intro cr d amount' held' accepted' hget
  unfold assume at hget
  dsimp only at hget
  rw [Std.ExtTreeMap.getElem?_insert] at hget
  split at hget
  · next heq =>
    obtain ⟨rfl, rfl⟩ := Prod.mk.inj (Std.LawfulEqCmp.compare_eq_iff_eq.1 heq)
    simp only [Option.some.injEq, Prod.mk.injEq] at hget
    obtain ⟨-, -, rfl⟩ := hget
    rw [OrdMap.getD'_eq]
    cases hslot : assumed[(creditor, due)]? with
    | none => exact hcap _ hlaw
    | some slot =>
      -- The earlier of two acceptances is one of them.
      rcases min_choice slot.2.2 accepted with hmin | hmin
      · simp only [Option.getD_some, hmin]
        exact hassumed creditor due slot.1 slot.2.1 slot.2.2 hslot
      · simp only [Option.getD_some, hmin]
        exact hlaw
  · exact hassumed cr d amount' held' accepted' hget

theorem cover_clearDebts (hdrop : ∀ k, P k → P k.dropped)
    (hmove : ∀ k, P k → k.maturity ≤ horizon k.accepted H → P { k with insured := true })
    (hextend : ∀ k maturity, P k → (k.insured = true → maturity ≤ horizon k.accepted H) →
      P { k with maturity })
    (hcap : ∀ k, P k → P { k with accepted := min u64Max k.accepted }) (buyer : MemberId)
    (budget saleMaturity : Nat) (ids : List ContractId) (spent : Nat) {assumed : Assumed}
    (hassumed : Lawful P assumed) :
    Op.Triple (Covered P H E) (clearDebts buyer budget saleMaturity ids spent assumed)
      (fun r s => Covered P H E s ∧ Lawful P r.2) (Covered P H E) := by
  induction ids generalizing spent assumed with
  | nil => exact .pure fun _ h => ⟨h, hassumed⟩
  | cons id ids ih =>
    unfold clearDebts
    refine .bind_quiet (Op.quiet_ask _) (fun _ h => h) fun dust =>
      .ite (fun _ => .pure fun _ h => ⟨h, hassumed⟩) fun _ => ?_
    refine .bind (triple_contract (Q := fun c s => Covered P H E s ∧ P c.cover)
      (fun s c hs hc => ⟨hs, hs.lawful id c hc⟩) fun _ h => h) fun c => .of_fact fun hc => ?_
    refine .bind (Q := fun last s => Covered P H E s ∧ last ≤ horizon c.acceptedEpoch H)
      (.ask fun s hs => ⟨hs, horizon_le_horizon _ hs.params⟩) fun last => .of_fact fun hlast => ?_
    refine .ite (fun _ => ih _ hassumed) fun hin => ?_
    -- A debt taken over is a debt without insurance, redated, and insured again.
    have hlaw : P ⟨c.creditor, min c.maturityEpoch saleMaturity, c.acceptedEpoch, true⟩ :=
      hmove _ (hextend c.cover.dropped _ (hdrop _ hc) fun h => by cases h)
        ((not_lt.1 fun h => hin (Or.inr h)).trans hlast)
    refine .bind_quiet (Op.quiet_ask _) (fun _ h => h) fun room => .ite (fun _ => ih _ hassumed)
      fun _ => .bind (cover_release _).triple fun _ =>
      .bind (cover_contractMut (f := fun cm => { cm with held := {} }) hdrop _
        fun _ => Or.inl rfl).triple fun _ =>
      .bind (cover_reserve _ _).triple fun got => ?_
    cases got with
    | none => exact .bind (cover_rehold hdrop _).triple fun _ => ih _ hassumed
    | some held =>
      refine .bind (KeepsCover.triple (cover_contractMut hdrop _ fun _ => Or.inl rfl)) fun _ => ?_
      exact .bind (cover_memberMut _ _).triple fun _ => .bind (cover_rehold hdrop _).triple fun _ =>
        ih _ (lawful_assume hcap hassumed hlaw _ _)

section Taken

variable (hdrop : ∀ k, P k → P k.dropped)
  (hmove : ∀ k, P k → k.maturity ≤ horizon k.accepted H → P { k with insured := true })
  (hextend : ∀ k maturity, P k → (k.insured = true → maturity ≤ horizon k.accepted H) →
    P { k with maturity })
  (hcap : ∀ k, P k → P { k with accepted := min u64Max k.accepted })

include hdrop hmove hextend hcap

theorem cover_clearMemberDebts (debtor buyer : MemberId) (budget saleMaturity : Nat)
    {assumed : Assumed} (hassumed : Lawful P assumed) :
    Op.Triple (Covered P H E) (clearMemberDebts debtor buyer budget saleMaturity assumed)
      (fun r s => Covered P H E s ∧ Lawful P r.2) (Covered P H E) := by
  unfold clearMemberDebts
  exact .bind_quiet (Op.quiet_ask _) (fun _ h => h) fun _ =>
    cover_clearDebts hdrop hmove hextend hcap _ _ _ _ _ hassumed

/-- The loop over one level's targets keeps the law if going one level deeper does. -/
theorem cover_drainTargetsLoop {buyer : MemberId} {saleMaturity depth : Nat}
    (hdeeper : ∀ lister budget visited assumed, Lawful P assumed →
      Op.Triple (Covered P H E) (drainLevel buyer saleMaturity depth lister budget visited assumed)
        (fun r s => Covered P H E s ∧ Lawful P r.2.2) (Covered P H E))
    (lister : MemberId) (targets : List (MemberId × Nat)) (absorbed : Nat)
    (visited : List MemberId) {assumed : Assumed} (hassumed : Lawful P assumed) :
    Op.Triple (Covered P H E)
      (drainTargetsLoop buyer saleMaturity depth lister targets absorbed visited assumed)
      (fun r s => Covered P H E s ∧ Lawful P r.2.2) (Covered P H E) := by
  induction targets generalizing absorbed visited assumed with
  | nil => unfold drainTargetsLoop; exact .pure fun _ h => ⟨h, hassumed⟩
  | cons target rest ih =>
    unfold drainTargetsLoop
    refine .bind_quiet (Op.quiet_ask _) (fun _ h => h) fun _ =>
      .ite (fun _ => ih _ _ hassumed) fun _ => ?_
    refine .bind (cover_clearMemberDebts hdrop hmove hextend hcap _ _ _ _ hassumed) fun cleared =>
      .of_fact fun hcleared => .ite (fun _ => ?_) fun _ => ih _ _ hcleared
    exact .bind (hdeeper _ _ _ _ hcleared) fun deeper => .of_fact fun hdeep => ih _ _ hdeep

theorem cover_drainLevel (buyer : MemberId) (saleMaturity depth : Nat) (lister : MemberId)
    (budget : Nat) (visited : List MemberId) {assumed : Assumed} (hassumed : Lawful P assumed) :
    Op.Triple (Covered P H E) (drainLevel buyer saleMaturity depth lister budget visited assumed)
      (fun r s => Covered P H E s ∧ Lawful P r.2.2) (Covered P H E) := by
  -- by induction on the depth that is left, each level over its targets
  induction depth generalizing lister budget visited assumed with
  | zero => unfold drainLevel; exact .pure fun _ h => ⟨h, hassumed⟩
  | succ depth ih =>
    unfold drainLevel
    refine .bind_quiet (Op.quiet_ask _) (fun _ h => h) fun _ =>
      .ite (fun _ => .pure fun _ h => ⟨h, hassumed⟩) fun _ =>
      .bind_quiet (Op.quiet_check _) (fun _ h => h) fun _ =>
      .bind_quiet (Op.quiet_ask _) (fun _ h => h) fun _ =>
      .ite (fun _ => .pure fun _ h => ⟨h, hassumed⟩) fun _ => ?_
    exact cover_drainTargetsLoop hdrop hmove hextend hcap
      (fun _ _ _ _ h => ih _ _ _ h) _ _ _ _ hassumed

theorem cover_takeOver (seller buyer : MemberId) (budget saleMaturity : Nat) :
    Op.Triple (Covered P H E) (takeOver seller buyer budget saleMaturity)
      (fun r s => Covered P H E s ∧ Lawful P r.2) (Covered P H E) := by
  have hnone : Lawful P ∅ := fun _ _ _ _ _ hget => by simp at hget
  unfold takeOver
  refine .bind_quiet (Op.quiet_ask _) (fun _ h => h) fun _ =>
    .ite (fun _ => .pure fun _ h => ⟨h, hnone⟩) fun _ =>
    .bind_quiet (Op.quiet_check _) (fun _ h => h) fun _ =>
    .ite (fun _ => cover_clearMemberDebts hdrop hmove hextend hcap _ _ _ _ hnone) fun _ => ?_
  exact .bind (cover_drainLevel hdrop hmove hextend hcap _ _ _ _ _ _ hnone) fun _ =>
    .of_fact fun hdrained => .pure fun _ h => ⟨h, hdrained⟩

/-- What was taken over is opened under the law, and the rest is booked to the seller. -/
theorem cover_originate {seller : MemberId}
    (hfresh : ∀ maturity insured, (insured = true → maturity ≤ horizon E H) →
      P ⟨seller, maturity, E, insured⟩) (buyer : MemberId) (budget saleMaturity : Nat) :
    KeepsCover P H E (originate seller buyer budget saleMaturity) := by
  refine .of_triple ?_
  unfold originate
  refine .bind_quiet (Op.quiet_ask _) (fun _ h => h) fun dust =>
    .bind (cover_takeOver hdrop hmove hextend hcap _ _ _ _) fun taken => .of_fact fun htaken => ?_
  have hopened : KeepsCover P H E (taken.2.toList.forM (openAssumed buyer dust)) := by
    refine .forM fun slot hslot => ?_
    unfold openAssumed
    refine .ite (fun _ => ?_) fun _ => cover_release _
    refine .bind (cover_openObligation ?_) fun _ => .pure _
    exact htaken slot.1.1 slot.1.2 slot.2.1 slot.2.2.1 slot.2.2.2
      (OrdMap.mem_toList.1 hslot)
  have hbooked : ∀ amount, KeepsCover P H E (do
      let _ ← book buyer seller amount saleMaturity none
      pure ()) := fun amount => .bind (cover_book hfresh _ _ _ _) fun _ => .pure _
  exact .bind hopened.triple fun _ => .ite (fun _ => (hbooked _).triple) fun _ => .pure fun _ h => h

end Taken

end Cascade

end Laws

/-! ### Laws -/

/-- A law of covers that a transition at the horizon `H` and the epoch `E` does not break. -/
structure Law (P : Cover → Prop) (H E : Nat) : Prop where
  drop : ∀ k, P k → P k.dropped
  fresh : ∀ creditor maturity insured, (insured = true → maturity ≤ horizon E H) →
    P ⟨creditor, maturity, E, insured⟩
  move : ∀ k, P k → k.maturity ≤ horizon k.accepted H → P { k with insured := true }
  redate : ∀ k maturity, P k → (k.insured = true → maturity ≤ horizon k.accepted H) →
    P { k with maturity }
  claim : ∀ k creditor, P k → k.insured = true → P { k with creditor }
  cap : ∀ k, P k → P { k with accepted := min u64Max k.accepted }

namespace Law

variable {P : Cover → Prop} {H E : Nat}

theorem leg (h : Law P H E) (creditor : MemberId) (maturity : Nat) :
    P ⟨creditor, maturity, E, false⟩ := h.fresh creditor maturity false fun h => by cases h

end Law

namespace Apply

variable {P : Cover → Prop} {H E : Nat}

theorem framesWrites_covered : FramesWrites (KeepsCovered P H E) :=
  ⟨fun _ _ _ => .of_eq rfl rfl rfl, fun _ _ => .of_eq rfl rfl rfl, fun _ _ => .of_eq rfl rfl rfl,
    fun _ _ => .of_eq rfl rfl rfl, fun _ _ _ => .of_eq rfl rfl rfl⟩

theorem framesSeats_covered : FramesSeats (KeepsCovered P H E) where
  reserved s sponsor := by
    unfold State.reserveSeat
    dsimp only
    split <;> exact .of_eq rfl rfl rfl
  released _ _ := .of_eq rfl rfl rfl
  account _ _ := .of_eq rfl rfl rfl
  row _ _ _ := .of_eq rfl rfl rfl

section Dispatch

variable [Libm]

/-- **No transition breaks a law of covers**, other than the one that governs. -/
theorem cover_dispatch (h : Law P H E) (tx : Tx) (signers : List Key) (sponsor : Option MemberId)
    (hassent : ∀ id proposal, tx ≠ .assent id proposal) :
    KeepsCover P H E (dispatch tx signers sponsor) := by
  have hframes := framesWrites_covered (P := P) (H := H) (E := E)
  have hseats := framesSeats_covered (P := P) (H := H) (E := E)
  cases tx with
  | registerGuardians => exact moves_registerGuardians hframes _ _ _ _ _
  | rotateRequest => exact moves_rotateRequest hframes _ _ _
  | rotateVeto => exact moves_rotateVeto hframes _ _
  | rotateFinalize => exact moves_rotateFinalize hframes _
  | setConsensusKey => exact moves_setConsensusKey hframes _ _ _
  | declareSupply => exact moves_declareSupply hframes _ _ _
  | accept => exact hseats.accept (fun _ _ _ _ _ => cover_book (h.fresh _) _ _ _ _) _ _ _ _ _ _ _
  | transfer => exact cover_transfer h.drop h.move _ _ _
  | settle => exact cover_repayment h.drop _ _ _ _ _ _
  | extend => exact cover_extend h.drop h.redate _ _ _
  | markExpired => exact cover_markExpired h.drop h.leg h.claim _
  | cure => exact cover_repayment h.drop _ _ _ _ _ _
  | listBeneficiaries => exact moves_listBeneficiaries hframes _ _ _
  | approveSupporter => exact moves_approveSupporter hframes _ _ _ _
  | sale =>
    exact hseats.sale (fun _ _ _ => cover_netMutual h.drop _ _ _) (fun _ _ _ _ =>
      Cascade.cover_originate h.drop h.move h.redate h.cap (h.fresh _) _ _ _) _ _ _ _ _ _
  | arbAttest => exact cover_arbAttest h.drop _ _ _ _
  | exit => exact moves_exit hframes (fun _ _ => .of_eq rfl rfl rfl) _ _
  | propose => exact moves_propose hframes _ _ _
  | assent id proposal => exact absurd rfl (hassent id proposal)
  | forfeitBonds => exact moves_forfeitBonds hframes _

end Dispatch

end Apply

/-! ### Governance -/

/-- Every contract's cover obeys the law. -/
def State.Covers (P : Cover → Prop) (s : State) : Prop :=
  ∀ (id : ContractId) c, s.contracts[id]? = some c → P c.cover

/-- Where the contracts obeyed the law they do so still, whatever the horizon. -/
def KeepsCovers (P : Cover → Prop) (s s' : State) : Prop := s.Covers P → s'.Covers P

instance (P : Cover → Prop) : Std.Refl (KeepsCovers P) := ⟨fun _ h => h⟩

instance (P : Cover → Prop) : IsTrans State (KeepsCovers P) := ⟨fun _ _ _ h h' hs => h' (h hs)⟩

namespace KeepsCovers

variable {P : Cover → Prop} {s s' : State}

theorem trans {s'' : State} (h : KeepsCovers P s s') (h' : KeepsCovers P s' s'') :
    KeepsCovers P s s'' := fun hs => h' (h hs)

theorem of_eq (hcontracts : s'.contracts = s.contracts) : KeepsCovers P s s' :=
  fun hs id c hc => hs id c (hcontracts ▸ hc)

/-- Contracts are written, and at most their insurance is dropped. -/
theorem modContract (hdrop : ∀ k, P k → P k.dropped) {id : ContractId} {f : Contract → Contract}
    (hf : ∀ c, (f c).cover = c.cover ∨ (f c).cover = c.cover.dropped) :
    KeepsCovers P s (s.modContract id f) := by
  intro hs a c' hc'
  rw [State.modContract, OrdMap.getElem?_modify_map, Option.map_eq_some_iff] at hc'
  obtain ⟨c, hc, rfl⟩ := hc'
  split
  · rcases hf c with h | h <;> rw [h]
    · exact hs a c hc
    · exact hdrop _ (hs a c hc)
  · exact hs a c hc

theorem map (hdrop : ∀ k, P k → P k.dropped) {f : ContractId → Contract → Contract}
    (hf : ∀ id c, (f id c).cover = c.cover ∨ (f id c).cover = c.cover.dropped)
    (hcontracts : s'.contracts = s.contracts.map f) : KeepsCovers P s s' := by
  intro hs id c' hc'
  rw [hcontracts, Std.ExtTreeMap.getElem?_map, Option.map_eq_some_iff] at hc'
  obtain ⟨c, hc, rfl⟩ := hc'
  rcases hf id c with h | h <;> rw [h]
  · exact hs id c hc
  · exact hdrop _ (hs id c hc)

end KeepsCovers

section Governance

variable {P : Cover → Prop}

/-- A redenomination drops insurance, and moves no date. -/
theorem covers_rescale (hdrop : ∀ k, P k → P k.dropped) (s : State) (pi : F64) :
    KeepsCovers P s (s.rescale pi) := by
  have hshave : ∀ s : State, KeepsCovers P s s.shaveHoldsToWhatTheArcsDeliver := by
    intro s
    refine Op.Moves.foldl (fun s p => ?_) _ s
    unfold State.shaveDebtor
    extract_lets holds arcs sources claimed deliverable excess claims shaved written
    split
    · exact Std.Refl.refl s
    split
    · exact Std.Refl.refl s
    · have hclaims : KeepsCovers P s written :=
        Op.Moves.foldl (fun s cl => .modContract hdrop fun _ => Or.inl rfl) shaved s
      exact hclaims.trans (Op.Moves.foldl (fun s id => .modContract hdrop fun _ => Or.inl rfl) p.2 written)
  have hsettled : ∀ c, (State.settleRescaled c).cover = c.cover ∨
      (State.settleRescaled c).cover = c.cover.dropped := by
    intro c
    unfold State.settleRescaled
    split
    · split
      · exact Or.inr rfl
      · exact Or.inl rfl
    · exact Or.inl rfl
  unfold State.rescale State.rescaleWith
  extract_lets s₁ s₂ s₃ s₄ s₅ byDebtor
  have h₁ : KeepsCovers P s s₁ :=
    .map hdrop (f := fun _ c => State.rescaleContract _ c) (fun _ _ => Or.inl rfl) rfl
  have h₂ : KeepsCovers P s₂ s₃ :=
    .map hdrop (f := fun _ c => State.settleRescaled c) (fun _ c => hsettled c) rfl
  have h₃ : KeepsCovers P s₃ { s₅ with
      members := s₅.members.map fun id m => { m with debtOut := OrdMap.getD' byDebtor id 0 } } :=
    .of_eq rfl
  exact h₁.trans ((hshave s₁).trans (h₂.trans h₃))

namespace Apply

theorem covers_assent (hdrop : ∀ k, P k → P k.dropped) (id : MemberId) (proposalId : ProposalId)
    (signers : List Key) : Op.Moves (KeepsCovers P) (assent id proposalId signers) := by
  have hmut : ∀ (id : MemberId) (f : Member → Member), Op.Moves (KeepsCovers P) (memberMut id f) := by
    intro id f
    unfold memberMut
    exact .bind (.check _) fun _ => .write fun _ => .of_eq rfl
  unfold assent
  refine .bind (quiet_mayAssent _ _ _).moves fun carried =>
    .bind (.write fun _ => .of_eq rfl) fun _ => .ite (fun _ => ?_) fun _ => .pure _
  refine .bind ?_ fun _ => .write fun _ => .of_eq rfl
  unfold enact
  cases carried.1.kind with
  | paramChange key value => exact .write fun _ => .of_eq rfl
  | redenominate num den =>
    exact .write fun s => (covers_rescale hdrop s (ratio num den)).trans (.of_eq rfl)
  | suspend target =>
    exact .bind (.ask _) fun _ => .bind (.refuseIf _ _) fun _ =>
      .bind (hmut _ _) fun _ => .write fun _ => .of_eq rfl
  | unsuspend target => exact hmut _ _
  | validatorPower target power =>
    refine .ite (fun _ => ?_) fun _ => ?_
    · exact .bind (.check _) fun _ => .write fun _ => .of_eq rfl
    · exact .bind (.ask _) fun _ => .bind (.refuseIf _ _) fun _ => .write fun _ => .of_eq rfl
  | seedAmendment amount => exact .bind (.check _) fun _ => .write fun _ => .of_eq rfl

end Apply

end Governance

/-! ### The horizon -/

namespace Cover

/-- Accepted by the epoch `E`, and insured no longer than the horizon `H` from then. -/
structure Timely (H E : Nat) (k : Cover) : Prop where
  accepted : k.accepted ≤ E
  insured : k.insured = true → k.maturity ≤ horizon k.accepted H

variable {H E : Nat}

theorem Timely.mono {E' : Nat} (hE : E ≤ E') {k : Cover} (h : k.Timely H E) : k.Timely H E' :=
  ⟨h.accepted.trans hE, h.insured⟩

theorem law_timely (H E : Nat) : Law (Timely H E) H E where
  drop _ h := ⟨h.accepted, fun hinsured => by cases hinsured⟩
  fresh _ _ _ h := ⟨le_rfl, h⟩
  move _ h hin := ⟨h.accepted, fun _ => hin⟩
  redate _ _ h hin := ⟨h.accepted, hin⟩
  claim _ _ h _ := ⟨h.accepted, h.insured⟩
  cap k h := by
    refine ⟨(Nat.min_le_right _ _).trans h.accepted, fun hinsured => (h.insured hinsured).trans ?_⟩
    unfold horizon
    dsimp only
    omega

end Cover

namespace Apply

variable {P : Cover → Prop} {H E : Nat}

theorem cover_sweepCranks (h : Law P H E) : KeepsCover P H E sweepCranks := by
  have hretire : ∀ (s : State) id, KeepsCovered P H E s (retireRow id s) := by
    intro s id
    unfold retireRow
    split
    · exact Std.Refl.refl s
    · next m hm =>
      extract_lets s₁ s₂ s₃
      have h₁ : KeepsCovered P H E s s₁ :=
        Op.Moves.foldl (fun s b => (.of_eq rfl rfl rfl : KeepsCovered P H E s (s.modMember b (unlist id)))) _ s
      have h₂ : KeepsCovered P H E s₁ s₂ :=
        Op.Moves.foldl (fun s l => (.of_eq rfl rfl rfl : KeepsCovered P H E s (s.modMember l (undelegate id)))) _ s₁
      have h₃ : KeepsCovered P H E s₂ s₃ := by
        simp only [s₃]
        split
        · exact Std.Refl.refl s₂
        · exact .of_eq rfl rfl rfl
      exact IsTrans.trans _ _ _ h₁ <| IsTrans.trans _ _ _ h₂ <| IsTrans.trans _ _ _ h₃ (.of_eq rfl rfl rfl)
  unfold sweepCranks
  refine .bind (.ask _) fun due =>
    .bind (.forM fun id _ => .attempt (cover_markExpired h.drop h.leg h.claim _)) fun _ =>
    .bind (cover_netRings h.drop _) fun _ => .bind (.ask _) fun sat =>
    .bind (.forM fun id _ => .attempt (moves_forfeitBonds framesWrites_covered _)) fun _ =>
    .bind (.ask _) fun closed =>
    .bind (.forM fun id _ => .attempt (cover_arbAward h.drop h.leg _)) fun _ =>
    .bind (.write fun s => ?_) fun _ => .write fun s => Op.Moves.foldl (fun s id => hretire s id) _ s
  exact fun hs => ⟨fun id c hc => hs.lawful id c (OrdMap.getElem?_filter_of_some hc).1, hs.params, hs.epoch⟩

end Apply

/-- No contract's insurance outlasts the horizon `H`, as of the ledger's epoch. -/
def State.Timely (H : Nat) (s : State) : Prop := s.Covers (Cover.Timely H s.epoch)

theorem contracts_repeat_advanceEpoch (n : Nat) (s : State) :
    (Nat.repeat State.advanceEpoch n s).contracts = s.contracts := by
  -- an epoch’s own step moves no contract; the sweep after the last of them does
  induction n with
  | zero => rfl
  | succ n ih => exact ih

theorem timely_beginBlock {H : Nat} {s : State} (hs : s.Timely H)
    (hparams : s.params.insuredHorizonEpochs ≤ H) (nowSecs : Nat) : (s.beginBlock nowSecs).Timely H := by
  unfold State.beginBlock
  split
  · exact hs
  set t : State := { s with lastBeginSecs := nowSecs }
  dsimp only
  split
  · next hlt =>
    obtain ⟨hepoch, hkept⟩ := repeat_advanceEpoch (t.targetEpoch nowSecs - t.epoch) t
    have hcontracts := contracts_repeat_advanceEpoch (t.targetEpoch nowSecs - t.epoch) t
    generalize Nat.repeat State.advanceEpoch (t.targetEpoch nowSecs - t.epoch) t = u at *
    -- a later epoch only loosens what an acceptance may be
    have hopened : Covered (Cover.Timely H u.epoch) H u.epoch u := by
      refine ⟨fun id c hc => (hs id c (hcontracts ▸ hc)).mono ?_, hkept ▸ hparams, rfl⟩
      rw [hepoch]
      exact Nat.le_add_right _ _
    have hswept := Apply.cover_sweepCranks (Cover.law_timely H u.epoch) u hopened
    intro id c hc
    have hlaw := hswept.lawful id c hc
    rwa [← hswept.epoch] at hlaw
  · exact hs

theorem Apply.covers_settleOutcome {P : Cover → Prop} (tx : Tx) (txId : TxId) (notAfterEpoch : Nat)
    (signers : List Key) (charged : Charged) (outcome : Res Unit) (s : State) :
    KeepsCovers P s (settleOutcome tx txId notAfterEpoch signers charged outcome s) := by
  refine settleOutcome_moves (R := KeepsCovers P) (fun s txId notAfterEpoch => ?_) (fun s charged => ?_)
    (fun s subject signers => ?_) tx txId notAfterEpoch signers charged outcome s
  · unfold State.forgetApplied
    split
    · exact Std.Refl.refl s
    · exact .of_eq rfl
  · cases charged <;> exact .of_eq rfl
  · unfold priceRefusal
    dsimp only
    split
    · exact .of_eq rfl
    · split
      · exact .of_eq rfl
      · exact Std.Refl.refl s

/-- A genesis opens no contract. -/
theorem covers_founding {s : State} (h : Founding s) (P : Cover → Prop) : s.Covers P := by
  obtain ⟨g, hg⟩ := h
  refine genesisState_keeps (I := State.Covers P)
    (fun _ _ _ id c hc => by simp at hc) (fun _ _ _ _ hs hseat => ?_) hg
  exact seatEntry_moves (R := KeepsCovers P) (fun _ _ => .of_eq rfl) (fun _ _ => .of_eq rfl)
    (fun _ _ _ => .of_eq rfl) (fun _ _ => .of_eq rfl) hseat hs

section Events

variable [Libm]

/-- A transition in an opened block keeps the law, and the epoch. -/
theorem Apply.covers_dispatch {P : Cover → Prop} {H E : Nat} (h : Law P H E) (tx : Tx)
    (signers : List Key) (sponsor : Option MemberId) {s : State} (hs : Covered P H E s) :
    (Op.exec (dispatch tx signers sponsor) s).2.Covers P ∧
      (Op.exec (dispatch tx signers sponsor) s).2.epoch = E := by
  refine ⟨?_, ((steady_dispatch tx signers sponsor s).epoch).trans hs.epoch⟩
  -- an assent may redenominate, which rewrites every contract at once
  by_cases hassent : ∃ id proposal, tx = .assent id proposal
  · obtain ⟨id, proposal, rfl⟩ := hassent
    exact covers_assent h.drop id proposal signers s hs.lawful
  · exact (cover_dispatch h tx signers sponsor (fun id proposal heq =>
      hassent ⟨id, proposal, heq⟩) s hs).lawful

/-- An event keeps the insurance within a horizon that is not below the one in force. -/
theorem timely_next {H : Nat} {s : State} (hs : s.Timely H)
    (hparams : s.params.insuredHorizonEpochs ≤ H) (e : Event) : (e.next s).Timely H := by
  cases e with
  | block nowSecs => exact timely_beginBlock hs hparams nowSecs
  | transaction tx txId notAfterEpoch signers nowSecs =>
    have hbegin := timely_beginBlock hs hparams nowSecs
    have hopened : Covered (Cover.Timely H (s.beginBlock nowSecs).epoch) H
        (s.beginBlock nowSecs).epoch (s.beginBlock nowSecs) :=
      ⟨hbegin, (undecided_beginBlock nowSecs s).params ▸ hparams, rfl⟩
    have hlaw := Cover.law_timely H (s.beginBlock nowSecs).epoch
    have hgate : Apply.KeepsCover (Cover.Timely H (s.beginBlock nowSecs).epoch) H
        (s.beginBlock nowSecs).epoch (Apply.bondGate tx signers) :=
      Apply.bondGate_moves (fun _ _ _ => .of_eq rfl rfl rfl) tx signers
    have hgated := hgate _ hopened
    rcases Apply.exec_apply_cases tx txId notAfterEpoch signers nowSecs s with
      ⟨e, -, hexec⟩ | ⟨-, e, t, ht, hexec⟩ | ⟨-, charged, sponsor, t, outcome, u, ht, hu, hexec⟩
    · rw [Event.next, hexec]
      exact hbegin
    · rw [ht] at hgated
      rw [Event.next, hexec]
      exact fun id c hc => hgated.epoch ▸ hgated.lawful id c hc
    · rw [ht] at hgated
      have hrecorded : Covered (Cover.Timely H (s.beginBlock nowSecs).epoch) H
          (s.beginBlock nowSecs).epoch (t.recordApplied txId notAfterEpoch) :=
        hgated.of_eq rfl rfl rfl
      obtain ⟨hcovers, hepoch⟩ := Apply.covers_dispatch hlaw tx signers sponsor hrecorded
      rw [hu] at hcovers hepoch
      have hsettled := Apply.covers_settleOutcome tx txId notAfterEpoch signers charged outcome u hcovers
      have hends := (Apply.rises_settleOutcome tx txId notAfterEpoch signers charged outcome u).epoch
      rw [Event.next, hexec]
      exact fun id c hc => (hends.trans hepoch).symm ▸ hsettled id c hc

/-- **Cover does not outlast the horizon**: at no point of a run is a contract insured for longer
after its acceptance than the longest horizon that was in force, nor accepted in the future. -/
theorem timely_run {H : Nat} {s : State} (h : Founding s) (es : List Event)
    (hhorizon : ∀ es' es'', es = es' ++ es'' → (Event.run es' s).params.insuredHorizonEpochs ≤ H)
    {id : ContractId} {c : Contract} (hc : (Event.run es s).contracts[id]? = some c) :
    c.acceptedEpoch ≤ (Event.run es s).epoch ∧
      (c.insured = true → c.maturityEpoch ≤ horizon c.acceptedEpoch H) := by
  have hrun : ∀ (es : List Event) (s : State), s.Timely H →
      (∀ es' es'', es = es' ++ es'' → (Event.run es' s).params.insuredHorizonEpochs ≤ H) →
      (Event.run es s).Timely H := by
    intro es
    -- by induction on the run, from any state; the horizon is asked for at each point of it
    induction es with
    | nil => exact fun _ hs _ => hs
    | cons e es ih =>
      intro s hs hle
      exact ih _ (timely_next hs (hle [] _ rfl) e) fun es' es'' heq => hle (e :: es') es'' (by rw [heq]; rfl)
  have hcover := hrun es s (covers_founding h _) hhorizon id c hc
  exact ⟨hcover.accepted, hcover.insured⟩

end Events

/-- A debt that is repaid, and another that the stake of the first insures. -/
def insuredEvents : List Event :=
  let signers := [founderKey 0, founderKey 1]
  [.transaction (.accept (.member 1) (.member 0) (F64.ofNat 100) 30 none) 0 0 signers 10,
    .transaction (.settle 0 (F64.ofNat 100)) 1 0 signers 10,
    .transaction (.accept (.member 1) (.member 0) (F64.ofNat 50) 30 none) 2 0 signers 10]

theorem timely_run_insuredEvents :
    letI := Libm.unused
    ∃ c, (Event.run insuredEvents (devGenesis [1000, 1000]).state).contracts[1]? = some c ∧
      c.insured = true ∧ c.maturityEpoch ≤ horizon c.acceptedEpoch 365 := by
  let _ : Libm := Libm.unused
  have hinsured : ((Event.run insuredEvents (devGenesis [1000, 1000]).state).contracts[1]?.map
      Contract.insured) = some true := by decide +kernel
  obtain ⟨c, hc, hinsured⟩ := Option.map_eq_some_iff.1 hinsured
  have htaken : ∀ n < 4, (Event.run (insuredEvents.take n)
      (devGenesis [1000, 1000]).state).params.insuredHorizonEpochs ≤ 365 := by decide +kernel
  have hfounding : Founding (devGenesis [1000, 1000]).state := Genesis.founding_state (by decide +kernel)
  have hhorizon : ∀ es' es'', insuredEvents = es' ++ es'' →
      (Event.run es' (devGenesis [1000, 1000]).state).params.insuredHorizonEpochs ≤ 365 := by
    intro es' es'' heq
    have hlen := congrArg List.length heq
    rw [List.length_append] at hlen
    have hprefix := htaken es'.length (Nat.lt_succ_of_le ((Nat.le_add_right _ _).trans hlen.ge))
    rwa [heq, List.take_left] at hprefix
  exact ⟨c, hc, hinsured, (timely_run hfounding insuredEvents hhorizon hc).2 hinsured⟩

end Edet
