import Edet.Ledger.KeyIndex
import Edet.Ledger.Parties
import Edet.Ledger.Screens

/-!
# What the signer rule drops

`authorises` restates the signature rule of every transition over the state a node holds, and
drops an envelope for good where it fails. A transition runs later, after the boundary the
block opens with and after the bond gate, and this module compares the two.

What lies between them only takes rows away (`Narrows`), so whoever signs for a row afterwards
signed for it before (`Narrows.signed`), and every transition that is carried out is authorised
(`authorises_of_dispatch`), with one exception. The boundary's substitution puts an underwriter
in the place of a creditor (`Replaced`), and the contract is then in default, so that what the
underwriter may sign is a `Cure`. It is dropped for want of the old creditor's signature and
would be carried out (`cure_dropped`); nothing else is (`authorises_conservative`).
-/

namespace Edet

/-- What a row says about signatures. -/
def Member.signing (m : Member) : List Key × Option GuardianConfig := (m.keys, m.guardian)

/-- Another creditor stands in the contract. -/
def Replaced (s s' : State) (id : ContractId) : Prop :=
  ∃ c c' : Contract, s.contracts[id]? = some c ∧ s'.contracts[id]? = some c' ∧
    c'.creditor ≠ c.creditor

namespace Apply

/-- Between `s` and `t` rows only went away, with their keys, and contracts were carried on. -/
structure Narrows (s t : State) : Prop where
  rows : RowsLeft Member.signing s t
  held : s.KeysHeld
  index : ∀ (k : Key) (id : MemberId), t.keyIndex[k]? = some id → s.keyIndex[k]? = some id
  contracts : ∀ (id : ContractId) (c' : Contract), t.contracts[id]? = some c' →
    ∀ c, s.contracts[id]? = some c → Carried c c'

namespace Narrows

variable {s t : State} {signers : List Key}

/-- A row that is left has the keys and the guardians it had. -/
theorem row (h : Narrows s t) {id : MemberId} {m' : Member} (hm' : t.members[id]? = some m') :
    ∃ m, s.members[id]? = some m ∧ m'.keys = m.keys ∧ m'.guardian = m.guardian := by
  obtain ⟨m, hm, hview⟩ := h.rows.rows id m' hm'
  obtain ⟨hkeys, hguardian⟩ := Prod.mk.inj hview
  exact ⟨m, hm, hkeys, hguardian⟩

/-- Who signs for a row signed for it before. -/
theorem signed (h : Narrows s t) {id : MemberId} {u : Unit}
    (hok : requireSigned t id signers = .ok u) : signed s signers id = true := by
  unfold requireSigned at hok
  cases hm' : findMember t id with
  | error e =>
    rw [hm'] at hok
    cases hok
  | ok m' =>
    rw [hm'] at hok
    dsimp only at hok
    obtain ⟨m, hm, hkeys, -⟩ := h.row (findMember_eq_ok.1 hm')
    have hsigned : signers.any (m'.hasKey ·) = true := by
      by_contra hno
      rw [if_neg hno] at hok
      cases hok
    unfold Apply.signed
    rw [hm]
    unfold Member.hasKey at hsigned ⊢
    rwa [hkeys] at hsigned

theorem known (h : Narrows s t) {id : MemberId} {u : Unit}
    (hok : requireSigned t id signers = .ok u) : s.members.contains id = true := by
  unfold requireSigned at hok
  cases hm' : findMember t id with
  | error e =>
    rw [hm'] at hok
    cases hok
  | ok m' =>
    obtain ⟨m, hm, -⟩ := h.row (findMember_eq_ok.1 hm')
    rw [Std.ExtTreeMap.contains_eq_isSome_getElem?, hm]
    rfl

/-- The guardians who sign for a member's row afterwards signed before. -/
theorem guardians (h : Narrows s t) {known : MemberId → Bool} (cfg : GuardianConfig)
    (hknown : ∀ g, s.members.contains g = true → known g = true)
    (hcount : cfg.threshold ≤ signingGuardians t cfg signers) :
    guardiansSigned s signers known cfg = true := by
  refine decide_eq_true (hcount.trans (List.countP_mono_left fun g _ hg => ?_))
  cases hok : requireSigned t g signers with
  | error e =>
    rw [hok] at hg
    cases hg
  | ok u => exact Bool.and_eq_true_iff.2 ⟨hknown g (h.known hok), h.signed hok⟩

/-- Who signs for the creditor afterwards, its guardians included, did so before. -/
theorem signedOrGuardians (h : Narrows s t) {id : MemberId} {u : Unit}
    (hok : signedOrGuardians t id signers = .ok u) :
    (Apply.signed s signers id ||
      (guardianOf s id).any (guardiansSigned s signers fun g => s.members.contains g)) = true := by
  rw [Bool.or_eq_true]
  unfold Apply.signedOrGuardians at hok
  cases hself : requireSigned t id signers with
  | ok u => exact .inl (h.signed hself)
  | error e =>
    right
    rw [hself, if_neg (by simp [Except.isOk, Except.toBool])] at hok
    cases hm' : findMember t id with
    | error e =>
      rw [hm'] at hok
      cases hok
    | ok m' =>
      rw [hm'] at hok
      obtain ⟨m, hm, -, hguardian⟩ := h.row (findMember_eq_ok.1 hm')
      cases hcfg : m'.guardian with
      | none => simp only [hcfg] at hok; cases hok
      | some cfg =>
        simp only [hcfg] at hok
        split at hok
        · next hcount =>
          unfold guardianOf
          rw [hm, Option.bind_some, ← hguardian, hcfg]
          exact h.guardians cfg (fun _ hg => hg) hcount
        · cases hok

/-- A party that is found afterwards, and signs where it has a row, signed before. -/
theorem party (h : Narrows s t) {p : Party} {r : Resolved} (hr : resolve t p signers = .ok r)
    (hsigned : ∀ id, r = .existing id → ∃ u, requireSigned t id signers = .ok u) :
    partySigned s signers p = true := by
  cases p with
  | member id =>
    unfold resolve at hr
    dsimp only at hr
    split at hr
    · cases hr
    · obtain ⟨u, hu⟩ := hsigned id (Except.ok.inj hr).symm
      exact h.signed hu
  | key k =>
    unfold resolve at hr
    dsimp only at hr
    unfold partySigned
    dsimp only
    cases hindex : t.memberOfKey k with
    | some id =>
      rw [hindex] at hr
      obtain ⟨u, hu⟩ := hsigned id (Except.ok.inj hr).symm
      rw [show s.memberOfKey k = some id from h.index k id hindex]
      exact h.signed hu
    | none =>
      rw [hindex] at hr
      dsimp only at hr
      have hk : signers.contains k = true := by
        by_contra hno
        split at hr <;> cases hr
      cases hbefore : s.memberOfKey k with
      | none => exact hk
      | some id =>
        -- the row the key led to is gone, and the key signs for it
        obtain ⟨m, hm, hmem⟩ := h.held.held k id hbefore
        show Apply.signed s signers id = true
        unfold Apply.signed
        rw [hm]
        exact List.any_eq_true.2 ⟨k, List.contains_iff_mem.1 hk, List.contains_iff_mem.2 hmem⟩

end Narrows

/-! ### Every transition -/

open Op.Succeeds

section Accepted

variable {s t : State} {signers : List Key}

/-- A contract that is found afterwards, where it was there before. -/
theorem Narrows.carried (h : Narrows s t) {id : ContractId} {c' : Contract}
    (hc' : findContract t id = .ok c') :
    partiesOf s id = none ∨ ∃ c, partiesOf s id = some (c'.debtor, c.creditor) ∧
      s.contracts[id]? = some c ∧ Carried c c' := by
  unfold partiesOf
  cases hc : s.contracts[id]? with
  | none => exact .inl rfl
  | some c =>
    have hcarried := h.contracts id c' (findContract_eq_ok.1 hc') c hc
    exact .inr ⟨c, by rw [hcarried.debtor]; rfl, rfl, hcarried⟩

theorem authorises_rotateRequest (h : Narrows s t) {id : MemberId} {newKeys : List Key}
    (hok : Op.Accepts (rotateRequest id newKeys signers) t) :
    authorises s signers (.rotateRequest id newKeys) = true := by
  unfold rotateRequest at hok
  obtain ⟨m', hm', hok⟩ := of_check_bind hok
  obtain ⟨m, hm, -, hguardian⟩ := h.row (findMember_eq_ok.1 hm')
  have hof : guardianOf s id = m'.guardian := by
    unfold guardianOf
    rw [hm, Option.bind_some, hguardian]
  unfold authorises
  dsimp only
  rw [hof]
  cases hcfg : m'.guardian with
  | none => rfl
  | some cfg =>
    rw [hcfg] at hok
    obtain ⟨-, hok⟩ := of_refuseIf_bind hok
    have hok := of_ask_bind hok
    obtain ⟨-, hok⟩ := of_refuseIf_bind hok
    have hok := of_ask_bind hok
    obtain ⟨hcount, -⟩ := of_refuseIf_bind hok
    exact h.guardians cfg (fun _ _ => rfl) (Nat.not_lt.1 hcount)

theorem authorises_parties (h : Narrows s t) {p q : Party} {r₁ r₂ : Resolved}
    (hr₁ : resolve t p signers = .ok r₁) (hr₂ : resolve t q signers = .ok r₂)
    (h₁ : ∀ id, r₁ = .existing id → ∃ u, requireSigned t id signers = .ok u)
    (h₂ : ∀ id, r₂ = .existing id → ∃ u, requireSigned t id signers = .ok u) :
    (partySigned s signers p && partySigned s signers q) = true := by
  rw [h.party hr₁ h₁, h.party hr₂ h₂]
  rfl

/-- A party that is let through has signed, where it has a row. -/
theorem signed_of_requireParty {r : Resolved} {u : Unit} (hok : requireParty t r signers = .ok u) :
    ∀ id, r = .existing id → ∃ u, requireSigned t id signers = .ok u := by
  rintro id rfl
  unfold requireParty at hok
  cases hs : requireSigned t id signers with
  | ok u => exact ⟨u, rfl⟩
  | error e =>
    simp only [hs] at hok
    cases hok

theorem signed_of_sellerStatus {r : Resolved} {status : MemberStatus}
    (hok : Cascade.sellerStatus t r signers = .ok status) :
    ∀ id, r = .existing id → ∃ u, requireSigned t id signers = .ok u := by
  rintro id rfl
  unfold Cascade.sellerStatus at hok
  cases hs : requireSigned t id signers with
  | ok u => exact ⟨u, rfl⟩
  | error e =>
    simp only [hs] at hok
    cases hok

/-- What is accepted was accepted in its first part. -/
theorem accepts_left {α β : Type} {op : Tr α} {k : α → Tr β} (h : Op.Accepts (op >>= k) t) :
    Op.Accepts op t := by
  obtain ⟨b, t', hexec, -⟩ := h
  rw [Op.exec_bind] at hexec
  cases hop : Op.exec op t with
  | mk result u =>
    cases result with
    | ok a => exact ⟨a, u, hop, trivial⟩
    | error e =>
      rw [hop] at hexec
      cases hexec

theorem authorises_accept (h : Narrows s t) {debtor creditor : Party} {amount : F64}
    {maturityEpochs : Nat} {arb : Option ArbTermsWire} {sponsor : Option MemberId}
    (hok : Op.Accepts (accept debtor creditor amount maturityEpochs arb signers sponsor) t) :
    authorises s signers (.accept debtor creditor amount maturityEpochs arb) = true := by
  unfold accept at hok
  have hterms := accepts_left hok
  unfold acceptTerms at hterms
  obtain ⟨r₁, hr₁, hterms⟩ := of_check_bind hterms
  obtain ⟨r₂, hr₂, hterms⟩ := of_check_bind hterms
  obtain ⟨-, hterms⟩ := of_refuseIf_bind hterms
  obtain ⟨u₁, hu₁, hterms⟩ := of_check_bind hterms
  obtain ⟨u₂, hu₂, -⟩ := of_check_bind hterms
  exact authorises_parties h hr₁ hr₂ (signed_of_requireParty hu₁) (signed_of_requireParty hu₂)

theorem authorises_sale (h : Narrows s t) {seller buyer : Party} {amount : F64}
    {maturityEpochs : Nat} {sponsor : Option MemberId}
    (hok : Op.Accepts (Cascade.sale seller buyer amount maturityEpochs signers sponsor) t) :
    authorises s signers (.sale seller buyer amount maturityEpochs) = true := by
  unfold Cascade.sale at hok
  have hterms := accepts_left hok
  unfold Cascade.saleTerms at hterms
  obtain ⟨r₁, hr₁, hterms⟩ := of_check_bind hterms
  obtain ⟨r₂, hr₂, hterms⟩ := of_check_bind hterms
  obtain ⟨-, hterms⟩ := of_refuseIf_bind hterms
  obtain ⟨status, hstatus, hterms⟩ := of_check_bind hterms
  obtain ⟨-, hterms⟩ := of_refuseIf_bind hterms
  obtain ⟨u₂, hu₂, -⟩ := of_check_bind hterms
  exact authorises_parties h hr₁ hr₂ (signed_of_sellerStatus hstatus) (signed_of_requireParty hu₂)

theorem authorises_transfer (h : Narrows s t) {id : ContractId} {newDebtor : MemberId}
    (hok : Op.Accepts (transfer id newDebtor signers) t) :
    authorises s signers (.transfer id newDebtor) = true := by
  unfold transfer at hok
  have hterms := accepts_left hok
  unfold transferable at hterms
  obtain ⟨c', hc', hterms⟩ := of_check_bind hterms
  obtain ⟨-, hterms⟩ := of_refuseIf_bind hterms
  obtain ⟨-, hterms⟩ := of_refuseIf_bind hterms
  obtain ⟨u₁, hu₁, hterms⟩ := of_check_bind hterms
  obtain ⟨u₂, hu₂, -⟩ := of_check_bind hterms
  unfold authorises
  dsimp only
  rcases h.carried hc' with hnone | ⟨c, hparties, -, -⟩
  · rw [hnone]
    exact h.signed hu₂
  · rw [hparties]
    exact Bool.and_eq_true_iff.2 ⟨h.signed hu₁, h.signed hu₂⟩

theorem authorises_extend (h : Narrows s t) {id : ContractId} {newMaturityEpoch : Nat}
    (hok : Op.Accepts (extend id newMaturityEpoch signers) t) :
    authorises s signers (.extend id newMaturityEpoch) = true := by
  unfold extend at hok
  obtain ⟨c', hc', hok⟩ := of_check_bind hok
  obtain ⟨hactive, hok⟩ := of_refuseIf_bind hok
  obtain ⟨u₁, hu₁, hok⟩ := of_check_bind hok
  obtain ⟨u₂, hu₂, -⟩ := of_check_bind hok
  unfold authorises
  dsimp only
  rcases h.carried hc' with hnone | ⟨c, hparties, -, hcarried⟩
  · rw [hnone]
  · rw [hparties, ← hcarried.creditor (not_not.1 hactive)]
    exact Bool.and_eq_true_iff.2 ⟨h.signed hu₁, h.signed hu₂⟩

/-- A repayment is authorised by who may sign for its creditor, if that is who it was. -/
theorem authorises_repayment (h : Narrows s t) {status closed : ContractStatus} {cured : Bool}
    {id : ContractId} {amount : F64}
    (hcreditor : ∀ c c', s.contracts[id]? = some c → t.contracts[id]? = some c' →
      c'.status = status → Carried c c' → c'.creditor = c.creditor)
    (hok : Op.Accepts (repayment status closed cured id amount signers) t) :
    authorises s signers (.settle id amount) = true := by
  unfold repayment at hok
  obtain ⟨c', hc', hok⟩ := of_check_bind hok
  obtain ⟨hstatus, hok⟩ := of_refuseIf_bind hok
  obtain ⟨u₁, hu₁, hok⟩ := of_check_bind hok
  obtain ⟨u₂, hu₂, -⟩ := of_check_bind hok
  unfold authorises
  dsimp only
  rcases h.carried hc' with hnone | ⟨c, hparties, hc, hcarried⟩
  · rw [hnone]
  · rw [hparties,
      ← hcreditor c c' hc (findContract_eq_ok.1 hc') (not_not.1 hstatus) hcarried]
    exact Bool.and_eq_true_iff.2 ⟨h.signed hu₁, h.signedOrGuardians hu₂⟩

/-- **What is carried out was authorised**, but for a cure whose creditor was replaced. -/
theorem authorises_of_dispatch [Libm] (h : Narrows s t) {tx : Tx} {sponsor : Option MemberId}
    (hcure : ∀ id amount, tx = .cure id amount → ¬Replaced s t id)
    (hok : Op.Accepts (dispatch tx signers sponsor) t) : authorises s signers tx = true := by
  -- most members sign for themselves, and that is the first thing asked
  have hself : ∀ {α : Type} {id : MemberId} {k : Unit → Tr α},
      Op.Accepts (Op.check (requireSigned · id signers) >>= k) t → signed s signers id = true := by
    intro α id k hk
    obtain ⟨u, hu, -⟩ := of_check_bind hk
    exact h.signed hu
  cases tx with
  | markExpired id => rfl
  | forfeitBonds id => rfl
  | rotateFinalize id => rfl
  | registerGuardians id guardians threshold window => exact hself hok
  | rotateVeto id => exact hself hok
  | setConsensusKey id key =>
    obtain ⟨-, -, hrest⟩ := of_check_bind hok
    exact hself hrest
  | exit id => exact hself hok
  | declareSupply id supply => exact hself hok
  | assent id proposal => exact hself (accepts_left hok)
  | listBeneficiaries supporter entries =>
    obtain ⟨-, -, hrest⟩ := of_check_bind hok
    exact hself hrest
  | approveSupporter beneficiary supporter approved => exact hself hok
  | arbAttest id arbiter amount => exact hself hok
  | propose author kind => exact hself hok
  | rotateRequest id newKeys => exact authorises_rotateRequest h hok
  | accept debtor creditor amount maturityEpochs arb => exact authorises_accept h hok
  | sale seller buyer amount maturityEpochs => exact authorises_sale h hok
  | extend id newMaturityEpoch => exact authorises_extend h hok
  | transfer id newDebtor => exact authorises_transfer h hok
  | settle id amount =>
    refine authorises_repayment h (fun c c' _ _ hactive hcarried => ?_) hok
    exact hcarried.creditor hactive
  | cure id amount =>
    refine authorises_repayment h (fun c c' hc hc' _ _ => ?_) hok
    by_contra hne
    exact hcure id amount rfl ⟨c, c', hc, hc', hne⟩

end Accepted

/-! ### Between the screen and the transition -/

theorem ignoresBooks_signing : IgnoresBooks Member.signing := ⟨fun _ => rfl, fun _ _ _ _ => rfl⟩

theorem ignoresCharges_signing : IgnoresCharges Member.signing := ⟨fun _ _ _ _ _ _ => rfl⟩

/-- A boundary takes keys out of the index only. -/
theorem index_beginBlock (nowSecs : Nat) (s : State) (k : Key) (id : MemberId)
    (hk : (s.beginBlock nowSecs).keyIndex[k]? = some id) : s.keyIndex[k]? = some id := by
  let same (s s' : State) : Prop := s'.keyIndex = s.keyIndex
  have hrefl : Std.Refl same := ⟨fun _ => rfl⟩
  have htrans : IsTrans State same := ⟨fun _ _ _ h h' => h'.trans h⟩
  have hkeys : ∀ {s s' : State}, SameKeys s s' → same s s' := fun h => congrArg KeyBook.index h
  obtain ⟨u, v, hu, hv, hend⟩ := beginBlock_ends (R := same) (fun _ _ h => hkeys (.of_offBooks h))
    (fun id t => hkeys (keys_forfeitBonds id t)) (fun _ _ => rfl)
    (fun t => hkeys (keys_advanceEpoch t)) (fun t => hkeys (keys_releaseBonds t)) nowSecs s
  have hrow : ∀ (a : MemberId) (t : State), (retireRow a t).keyIndex[k]? = some id →
      t.keyIndex[k]? = some id := by
    intro a t h
    unfold retireRow at h
    split at h
    · exact h
    · next m hm =>
      extract_lets s₁ s₂ s₃ at h
      have h₁ : same t s₁ := hkeys (.foldl _ t fun s b => .modMember (f := unlist a) s b fun _ => rfl)
      have h₂ : same s₁ s₂ :=
        hkeys (.foldl _ s₁ fun s l => .modMember (f := undelegate a) s l fun _ => rfl)
      have h₃ : same s₂ s₃ := by
        simp only [s₃]
        split <;> rfl
      have h : (m.keys.foldl (fun m k => m.erase k) s₃.keyIndex)[k]? = some id := h
      rw [OrdMap.getElem?_foldl_erase, show s₃.keyIndex = t.keyIndex from h₃.trans (h₂.trans h₁)] at h
      split at h
      · cases h
      · exact h
  have hretire : ∀ (l : List MemberId) (t : State),
      (l.foldl (fun t a => retireRow a t) t).keyIndex[k]? = some id → t.keyIndex[k]? = some id := by
    intro l
    induction l with
    | nil => exact fun _ h => h
    | cons a l ih => exact fun t h => hrow a t (ih _ h)
  rw [show (s.beginBlock nowSecs).keyIndex = v.keyIndex from hend] at hk
  rw [← show u.keyIndex = s.keyIndex from hu]
  rcases hv with rfl | rfl
  · exact hk
  · exact hretire _ (pruneClosedRows u) hk

/-- The bond gate, and the record of an envelope, leave rows their keys and contracts alone. -/
theorem narrows_gate {s t : State} {tx : Tx} {signers : List Key} {r : Res (Charged × Option MemberId)}
    (hs : s.KeysHeld) (ht : Op.exec (bondGate tx signers) s = (r, t)) (txId : TxId)
    (notAfterEpoch : Nat) : Narrows s (t.recordApplied txId notAfterEpoch) := by
  have hrows := keepsView_bondGate ignoresCharges_signing tx signers s
  have halone := rowsAlone_bondGate tx signers s
  rw [ht] at hrows halone
  refine ⟨⟨hrows.next, hrows.rowsLeft.rows⟩, hs, fun k id hk => ?_, fun id c' hc' c hc => ?_⟩
  · exact halone.keyIndex ▸ hk
  · have hc' : t.contracts[id]? = some c' := hc'
    rw [halone.contracts, hc] at hc'
    exact Option.some.inj hc' ▸ .refl c

/-- A boundary narrows the ledger, and so does what follows it and leaves contracts alone. -/
theorem Narrows.beginBlock {s t : State} (hs : s.KeysHeld) (hissued : s.ContractsIssued)
    (nowSecs : Nat) (h : Narrows (s.beginBlock nowSecs) t)
    (hcontracts : t.contracts = (s.beginBlock nowSecs).contracts) : Narrows s t where
  rows := IsTrans.trans _ _ _
    (rowsLeft_beginBlock ignoresBooks_signing ignoresCharges_signing nowSecs s) h.rows
  held := hs
  index k id hk := index_beginBlock nowSecs s k id (h.index k id hk)
  contracts id c' hc' c hc := by
    have hid : id < s.nextContract := by
      by_contra hge
      rw [hissued id (Nat.not_lt.1 hge)] at hc
      cases hc
    obtain ⟨c₀, hc₀, hcarried⟩ := (follows_beginBlock nowSecs s).old id c' hid (hcontracts ▸ hc')
    rw [hc] at hc₀
    exact Option.some.inj hc₀ ▸ hcarried

end Apply

section Runs

variable [Libm]

/-- **What the signer rule drops is refused**, at any time and in every state of every run, but
for a cure that the boundary of its block lets an underwriter sign. -/
theorem authorises_conservative {s : State} (h : Founding s) (es : List Event) (tx : Tx)
    (txId : TxId) (notAfterEpoch : Nat) (signers : List Key) (nowSecs : Nat)
    (hcure : ∀ id amount, tx = .cure id amount →
      Replaced (Event.run es s) ((Event.run es s).beginBlock nowSecs) id →
      Apply.authorises ((Event.run es s).beginBlock nowSecs) signers tx = false)
    (hdrop : Apply.authorises (Event.run es s) signers tx = false) :
    ∃ e, (Op.exec (Apply.apply tx txId notAfterEpoch signers nowSecs) (Event.run es s)).1 =
      .error e := by
  have hheld := keysHeld_run h es
  have hissued := contractsIssued_run h es
  generalize Event.run es s = s at hcure hdrop hheld hissued ⊢
  rcases Apply.exec_apply_cases tx txId notAfterEpoch signers nowSecs s with
    ⟨e, -, hexec⟩ | ⟨-, e, t, -, hexec⟩ | ⟨-, charged, sponsor, t, outcome, u, ht, hu, hexec⟩
  · exact ⟨e, by rw [hexec]⟩
  · exact ⟨e, by rw [hexec]⟩
  · rw [hexec]
    cases houtcome : outcome with
    | error e => exact ⟨e, rfl⟩
    | ok result =>
      exfalso
      have hcontracts : (t.recordApplied txId notAfterEpoch).contracts =
          (s.beginBlock nowSecs).contracts := by
        have halone := Apply.rowsAlone_bondGate tx signers (s.beginBlock nowSecs)
        rw [ht] at halone
        exact halone.contracts
      have hgate := Apply.narrows_gate (holds_beginBlock nowSecs s hheld) ht txId notAfterEpoch
      have hok : Op.Accepts (Apply.dispatch tx signers sponsor)
          (t.recordApplied txId notAfterEpoch) :=
        ⟨result, u, by rw [hu, houtcome], trivial⟩
      by_cases hreplaced : ∃ id amount, tx = .cure id amount ∧
          Replaced s (s.beginBlock nowSecs) id
      · -- the boundary's own state does not authorise it either
        obtain ⟨id, amount, rfl, hreplaced⟩ := hreplaced
        have hstill : ∀ id' amount', Tx.cure id amount = .cure id' amount' →
            ¬Replaced (s.beginBlock nowSecs) (t.recordApplied txId notAfterEpoch) id' := by
          rintro id' - - ⟨c, c', hc, hc', hne⟩
          rw [hcontracts, hc] at hc'
          exact hne (Option.some.inj hc' ▸ rfl)
        rw [Apply.authorises_of_dispatch hgate hstill hok] at hcure
        exact absurd (hcure id amount rfl hreplaced) (by simp)
      · have hnarrows := hgate.beginBlock hheld hissued nowSecs hcontracts
        rw [Apply.authorises_of_dispatch hnarrows (fun id amount htx hnew => ?_) hok] at hdrop
        · cases hdrop
        · refine hreplaced ⟨id, amount, htx, ?_⟩
          obtain ⟨c, c', hc, hc', hne⟩ := hnew
          exact ⟨c, c', hc, hcontracts ▸ hc', hne⟩

end Runs

/-- The first founder vouches for the second, which it has traded with, and the third takes a debt
of the second that the first so insures. -/
def vouchedEvents : List Event :=
  [.transaction (.accept (.member 1) (.member 0) (F64.ofNat 100) 30 none) 0 0
      [founderKey 0, founderKey 1] 10,
    .transaction (.settle 0 (F64.ofNat 100)) 1 0 [founderKey 0, founderKey 1] 10,
    .transaction (.accept (.member 1) (.member 2) (F64.ofNat 100) 30 none) 2 0
      [founderKey 1, founderKey 2] 10]

/-- Guardians named without the member's signature are dropped, and would be refused. -/
theorem authorises_conservative_guardians :
    letI := Libm.unused
    ∃ e, (Op.exec (Apply.apply (.registerGuardians 0 [1, 2] 2 30) 3 0 [founderKey 1] 20)
      (Event.run vouchedEvents (devGenesis [2000, 0, 0]).state)).1 = .error e := by
  let _ : Libm := Libm.unused
  refine authorises_conservative (Genesis.founding_state (by decide +kernel)) vouchedEvents
    (.registerGuardians 0 [1, 2] 2 30) 3 0 [founderKey 1] 20 ?_ (by decide +kernel)
  intro id amount h
  cases h

/-- Past its maturity the debt is owed to the first founder, and its cure, with the debtor's
signature and the first founder's, is dropped though it would be carried out. -/
theorem cure_dropped :
    letI := Libm.unused
    let s := Event.run vouchedEvents (devGenesis [2000, 0, 0]).state
    Founding (devGenesis [2000, 0, 0]).state ∧
      Apply.authorises s [founderKey 0, founderKey 1] (.cure 1 (F64.ofNat 100)) = false ∧
      (Op.exec (Apply.apply (.cure 1 (F64.ofNat 100)) 3 31 [founderKey 0, founderKey 1]
        (31 * Constants.epochSecs)) s).1 = .ok () := by
  let _ : Libm := Libm.unused
  exact ⟨Genesis.founding_state (by decide +kernel), by decide +kernel, by decide +kernel⟩

end Edet
