import Edet.Ledger.Cascade

/-!
# The transitions

One definition for each transaction, and `dispatch`, which runs the one a transaction
names. A transition refuses in the state it has reached: there is no rollback.

Governance is in `propose` and `assent`: an assent that carries a proposal over its
threshold enacts it on the spot (`enact`). The rules of a seed amendment are in
`Seed.enact` and what it calls.

The one function taken from outside the source is the natural logarithm that a
redenomination's band is measured with (`Libm.log`).
-/

namespace Edet

open Edet.Flow

/-- The mathematical library the ledger links. -/
class Libm where
  log : F64 → F64

namespace Apply

/-! ### Keys and guardians -/

/-- The most keys an account may rotate to. -/
def maxKeysPerAccount : Nat := 8

def registerGuardians (id : MemberId) (guardians : List MemberId)
    (threshold vetoWindowEpochs : Nat) (signers : List Key) : Tr Unit := do
  Op.check (requireSigned · id signers)
  Op.refuseIf (threshold < Constants.guardianMin ∨ guardians.length < threshold) .rotThreshold
  Op.refuseIf
    (¬(Constants.vetoWindowEpochs ≤ vetoWindowEpochs ∧
        vetoWindowEpochs ≤ Constants.maxHorizonEpochs)) .rotBadWindow
  guardians.forM fun g => do
    let _ ← member g
    Op.refuseIf (g = id) .rotThreshold
  memberMut id fun m =>
    { m with
      guardian := some {
        guardians := guardians.foldl (fun set g => set.insert g) ∅, threshold, vetoWindowEpochs }
      -- A pending rotation was agreed by the guardians being replaced.
      pendingRotation := none }

def rotateRequest (id : MemberId) (newKeys : List Key) (signers : List Key) : Tr Unit := do
  let m ← member id
  match m.guardian with
  | none => Op.refuse .rotNoGuardians
  | some cfg => do
    Op.refuseIf (newKeys.isEmpty ∨ maxKeysPerAccount < newKeys.length) .admBadKeys
    let claimed ← Op.ask fun s => newKeys.any (keyIsClaimed s)
    Op.refuseIf claimed .admDupKey
    let signing ← Op.ask (signingGuardians · cfg signers)
    Op.refuseIf (signing < cfg.threshold) .rotThreshold
    let epoch ← Op.ask State.epoch
    memberMut id fun m => { m with pendingRotation := some { newKeys, openedEpoch := epoch } }

def rotateVeto (id : MemberId) (signers : List Key) : Tr Unit := do
  Op.check (requireSigned · id signers)
  let m ← member id
  Op.refuseIf m.pendingRotation.isNone .rotNoRequest
  memberMut id fun m => { m with pendingRotation := none }

/-- Index the new keys of a member in place of the old ones. -/
def reindex (id : MemberId) (oldKeys newKeys : List Key) (s : State) : State :=
  { s with
    keyIndex := newKeys.foldl (fun m k => m.insert k id)
      (oldKeys.foldl (fun m k => m.erase k) s.keyIndex) }

def rotateFinalize (id : MemberId) : Tr Unit := do
  let m ← member id
  match m.guardian, m.pendingRotation with
  | none, _ => Op.refuse .rotNoGuardians
  | some _, none => Op.refuse .rotNoRequest
  | some cfg, some p => do
    let early ← Op.ask fun s => decide (s.epoch < horizon p.openedEpoch cfg.vetoWindowEpochs)
    Op.refuseIf early .rotWindowOpen
    Op.write (reindex id m.keys p.newKeys)
    memberMut id fun m => { m with keys := p.newKeys, pendingRotation := none }

def setConsensusKey (id : MemberId) (key : Option Key) (signers : List Key) : Tr Unit := do
  Op.check (requireActive · id)
  Op.check (requireSigned · id signers)
  match key with
  | some k => do
    let indexed ← Op.ask fun s => s.keyIndex.contains k
    Op.refuseIf indexed .valKeyInUse
    let taken ← Op.ask fun s =>
      s.members.toList.any fun p => p.2.id ≠ id ∧ p.2.consensusKey = some k
    Op.refuseIf taken .valKeyInUse
    memberMut id fun m => { m with consensusKey := some k }
  | none => do
    let validator ← Op.ask fun s => s.validators.contains id
    Op.refuseIf validator .valNoConsensusKey
    memberMut id fun m => { m with consensusKey := none }

/-! ### Supply -/

def declareSupply (id : MemberId) (supply : F64) (signers : List Key) : Tr Unit := do
  Op.check (requireSigned · id signers)
  let m ← member id
  Op.refuseIf (m.status = .exited) .memNotActive
  Op.refuseIf (¬supply.isFinite ∨ supply < F64.zero false) .ctrBadAmount
  let want := toMinor supply
  let current ← Op.ask fun s => OrdMap.getD' s.underwriters id 0
  Op.refuseIf (current < want) .uwrAboveCapacity
  let floor ← Op.ask (·.supplyFloor id)
  Op.refuseIf (want < floor) .uwrBelowCommitted
  Op.write fun s =>
    { s with
      underwriters :=
        if want = 0 then s.underwriters.erase id else s.underwriters.insert id want }

/-! ### Obligations -/

/-- Are the terms of an arbitration panel sound? -/
def checkArb (s : State) (arb : Option ArbTermsWire) (debtor creditor : Resolved) :
    Res (Option (ArbTermsWire × Nat)) :=
  match arb with
  | none => .ok none
  | some t =>
    if t.quorum = 0 ∨ t.arbiters.size < t.quorum ∨ Constants.nArb < t.arbiters.size ∨
        t.windowEpochs = 0 ∨ Constants.maxHorizonEpochs < t.windowEpochs ∨
        ¬amountRepresentable t.awardCap ∨
        t.arbiters.toList.any fun a => debtor = .existing a ∨ creditor = .existing a then
      .error .arbBadTerms
    else if t.arbiters.toList.all fun a => s.members.contains a then
      .ok (some (t, toMinor t.awardCap))
    else .error .memUnknown

/-- An acceptance once everything it is checked for has passed. -/
structure AcceptTerms where
  debtor : Resolved
  creditor : Resolved
  amount : Nat
  maturityEpoch : Nat
  arb : Option (ArbTermsWire × Nat)

/-- What an acceptance is checked for before anything is written. -/
def acceptTerms (debtor creditor : Party) (amount : F64) (maturityEpochs : Nat)
    (arb : Option ArbTermsWire) (signers : List Key) : Tr AcceptTerms := do
  let debtor ← Op.check (resolve · debtor signers)
  let creditor ← Op.check (resolve · creditor signers)
  Op.refuseIf (debtor = creditor) .ctrSelfDeal
  Op.check (requireParty · debtor signers)
  Op.check (requireParty · creditor signers)
  let arb ← Op.check (checkArb · arb debtor creditor)
  let badAmount ← Op.ask fun s => decide (amount ≤ s.params.dust ∨ ¬amountRepresentable amount)
  Op.refuseIf badAmount .ctrBadAmount
  let tooShort ← Op.ask fun s => decide (maturityEpochs < s.params.minMaturityEpochs)
  Op.refuseIf tooShort .ctrMaturityTooShort
  Op.refuseIf (Constants.maxHorizonEpochs < maturityEpochs) .ctrMaturityTooLong
  let maturityEpoch ← Op.ask fun s => horizon s.epoch maturityEpochs
  pure { debtor, creditor, amount := toMinor amount, maturityEpoch, arb }

def accept (debtor creditor : Party) (amount : F64) (maturityEpochs : Nat)
    (arb : Option ArbTermsWire) (signers : List Key) (sponsor : Option MemberId) : Tr Unit := do
  let terms ← acceptTerms debtor creditor amount maturityEpochs arb signers
  let (debtor, creditor) ← seatPair terms.debtor terms.creditor sponsor
  let arb := terms.arb.map fun t => t.1.intoStored t.2 debtor creditor terms.amount
  let _ ← book debtor creditor terms.amount terms.maturityEpoch arb
  pure ()

/-- What a transfer is checked for before anything is written. -/
def transferable (id : ContractId) (newDebtor : MemberId) (signers : List Key) : Tr Contract := do
  let c ← contract id
  Op.refuseIf (c.status ≠ .active) .ctrBadState
  Op.refuseIf (newDebtor = c.debtor ∨ newDebtor = c.creditor) .ctrSelfDeal
  Op.check (requireSigned · c.debtor signers)
  Op.check (requireSigned · newDebtor signers)
  Op.check (requireActive · newDebtor)
  let covered ← Op.ask fun s =>
    decide (withinInsuredHorizon s c ∧
      s.fitsCapacityMinorAfterRelease newDebtor c.outstanding c.held)
  -- The creditor need not sign where its cover is kept.
  if covered then pure c
  else do
    Op.check (requireSigned · c.creditor signers)
    pure c

def transfer (id : ContractId) (newDebtor : MemberId) (signers : List Key) : Tr Unit := do
  let c ← transferable id newDebtor signers
  moveDebtor c newDebtor none

/-- Is a repayment, short of all that is owed, smaller than the least installment? -/
def belowInstallmentFloor (c : Contract) (amount : Nat) : Prop :=
  amount < c.outstanding ∧ amount * Constants.maxInstallments < c.original

instance (c : Contract) (amount : Nat) : Decidable (belowInstallmentFloor c amount) :=
  inferInstanceAs (Decidable (_ ∧ _))

/-- Repay `amount` of a contract: what is left at dust closes it with `closed`, the hold
shrinks, the creditor earns its stake and the debtor's books follow. `cured` says
whether the repayment also counts against the debtor's open default. -/
def repay (id : ContractId) (c : Contract) (amount : Nat) (closed : ContractStatus)
    (cured : Bool) : Tr Unit := do
  let dust ← Op.ask (·.params.dustMinor)
  let closes := c.outstanding - amount ≤ dust
  let left := if closes then 0 else c.outstanding - amount
  let cleared := c.outstanding - left
  contractMut id fun cm =>
    { cm with outstanding := left, status := if closes then closed else cm.status }
  rehold id
  Op.write (dischargeCredit c.debtor c.creditor (c.original - (c.outstanding - cleared)))
  memberMut c.debtor fun d =>
    { d with
      debtOut := d.debtOut - cleared
      rep := { d.rep with
        dOut := d.rep.dOut + fromMinor amount
        openDefault := if cured then d.rep.openDefault - cleared else d.rep.openDefault } }

/-- A repayment of a contract that must be in `status`. -/
def repayment (status closed : ContractStatus) (cured : Bool) (id : ContractId) (amount : F64)
    (signers : List Key) : Tr Unit := do
  let c ← contract id
  Op.refuseIf (c.status ≠ status) .ctrBadState
  Op.check (requireSigned · c.debtor signers)
  Op.check (signedOrGuardians · c.creditor signers)
  Op.refuseIf (¬amount.isFinite ∨ amount ≤ F64.zero false) .ctrBadAmount
  let amount := toMinor amount
  Op.refuseIf (amount = 0 ∨ c.outstanding < amount ∨ belowInstallmentFloor c amount) .ctrBadAmount
  repay id c amount closed cured

def settle : ContractId → F64 → List Key → Tr Unit := repayment .active .settled false

def cure : ContractId → F64 → List Key → Tr Unit := repayment .expired .cured true

def extend (id : ContractId) (newMaturityEpoch : Nat) (signers : List Key) : Tr Unit := do
  let c ← contract id
  Op.refuseIf (c.status ≠ .active) .ctrBadState
  Op.check (requireSigned · c.debtor signers)
  Op.check (requireSigned · c.creditor signers)
  Op.refuseIf (newMaturityEpoch ≤ c.maturityEpoch) .ctrBadAmount
  let tooLong ← Op.ask fun s =>
    decide (horizon s.epoch Constants.maxHorizonEpochs < newMaturityEpoch)
  Op.refuseIf tooLong .ctrMaturityTooLong
  let dropsInsurance ← Op.ask fun s =>
    decide (c.insured ∧
      horizon c.acceptedEpoch s.params.insuredHorizonEpochs < newMaturityEpoch)
  if dropsInsurance then do
    Op.write (·.releaseCapacity c.held)
    contractMut id fun cm =>
      { cm with maturityEpoch := newMaturityEpoch, held := {}, insured := false }
  else contractMut id fun cm => { cm with maturityEpoch := newMaturityEpoch }

/-! ### Listings -/

/-- The most entries a listing may have. -/
def maxListed : Nat := 64

def listBeneficiaries (supporter : MemberId) (entries : List (MemberId × F64))
    (signers : List Key) : Tr Unit := do
  Op.check (requireActive · supporter)
  Op.check (requireSigned · supporter signers)
  Op.refuseIf (maxListed < entries.length) .casTooMany
  entries.forM fun e => do
    Op.refuseIf (¬e.2.isFinite ∨ e.2 ≤ F64.zero false) .casBadWeight
    let _ ← member e.1
  let self ← member supporter
  Op.write fun s =>
    (self.beneficiaries.toList.map Prod.fst).foldl (fun s b =>
      if b = supporter then s
      else s.modMember b fun bm => { bm with supportersOf := bm.supportersOf.erase supporter }) s
  entries.forM fun e =>
    if e.1 ≠ supporter then
      memberMut e.1 fun bm => { bm with supportersOf := bm.supportersOf.insert supporter }
    else pure ()
  memberMut supporter fun m =>
    { m with
      beneficiaries := entries.foldl (fun list e =>
        list.insert e.1 (OrdMap.getD' list e.1 (F64.zero false) + e.2)) ∅ }

def approveSupporter (beneficiary supporter : MemberId) (approved : Bool) (signers : List Key) :
    Tr Unit := do
  Op.check (requireSigned · beneficiary signers)
  if approved then do
    let m ← member beneficiary
    Op.refuseIf (¬m.supportersOf.contains supporter) .casNotListed
    memberMut beneficiary fun m =>
      { m with approvedSupporters := m.approvedSupporters.insert supporter }
  else
    memberMut beneficiary fun m =>
      { m with approvedSupporters := m.approvedSupporters.erase supporter }

/-! ### Arbitration -/

def arbAttest (id : ContractId) (arbiter : MemberId) (amount : F64) (signers : List Key) :
    Tr Unit := do
  Op.check (requireSigned · arbiter signers)
  let c ← contract id
  match c.arb with
  | none => Op.refuse .arbNoTerms
  | some terms => do
    Op.refuseIf (¬terms.arbiters.contains arbiter) .arbNotPanel
    let late ← Op.ask fun s => decide (horizon c.createdEpoch terms.windowEpochs < s.epoch)
    Op.refuseIf late .arbWindowClosed
    Op.refuseIf c.arbAwarded .arbAlreadyAwarded
    Op.refuseIf (c.arbAttestations.contains arbiter) .arbAlreadyAttested
    Op.refuseIf (¬amountRepresentable amount) .ctrBadAmount
    contractMut id fun cm =>
      { cm with arbAttestations := cm.arbAttestations.insert arbiter (toMinor amount) }

/-- The median of a list of amounts. -/
def median (vals : List Nat) : Nat :=
  let vals := vals.insertionSort (· ≤ ·)
  let n := vals.length
  if n % 2 = 1 then vals.getD (n / 2) 0
  else (vals.getD (n / 2 - 1) 0 + vals.getD (n / 2) 0) / 2

/-- Close a panel's window: with a quorum, the median becomes an obligation of the
creditor to the debtor. -/
def arbAward (id : ContractId) : Tr Unit := do
  let c ← contract id
  match c.arb with
  | none => Op.refuse .arbNoTerms
  | some terms => do
    Op.refuseIf c.arbAwarded .arbAlreadyAwarded
    let early ← Op.ask fun s => decide (s.epoch ≤ horizon c.createdEpoch terms.windowEpochs)
    Op.refuseIf early .arbWindowOpen
    if c.arbAttestations.size < terms.quorum then
      contractMut id fun cm => { cm with arbAwarded := true }
    else do
      let award := min (min (median c.arbAttestations.vals) terms.awardCap) terms.amount
      contractMut id fun cm => { cm with arbAwarded := true }
      let dust ← Op.ask (·.params.dustMinor)
      if award ≤ dust then pure ()
      else do
        let maturityEpoch ← Op.ask fun s => horizon s.epoch s.params.minMaturityEpochs
        let epoch ← Op.ask State.epoch
        let _ ← openObligation terms.creditor terms.debtor award maturityEpoch none none epoch
        pure ()

/-! ### Leaving -/

/-- Forget `id` as a supporter, in the row of one of its beneficiaries. -/
def unlist (id : MemberId) (bm : Member) : Member :=
  { bm with
    supportersOf := bm.supportersOf.erase id
    approvedSupporters := bm.approvedSupporters.erase id }

/-- Forget `id` as a beneficiary, in the row of one of its supporters. -/
def undelegate (id : MemberId) (lm : Member) : Member :=
  { lm with beneficiaries := lm.beneficiaries.erase id }

def exit (id : MemberId) (signers : List Key) : Tr Unit := do
  Op.check (requireSigned · id signers)
  let m ← member id
  Op.refuseIf (m.status = .exited) .memNotActive
  let dust ← Op.ask (·.params.dustMinor)
  Op.refuseIf (dust < m.debtOut ∨ dust < m.rep.openDefault) .lifOutstandingDebt
  Op.refuseIf (dust < m.bondEnc) .lifOutstandingBonds
  let declared ← Op.ask fun s => s.underwriters.contains id
  Op.refuseIf declared .uwrStillDeclared
  let last ← Op.ask fun s =>
    decide (s.validators.contains id ∧ s.validators.size ≤ s.params.minValidators)
  Op.refuseIf last .valLastValidator
  Op.write fun s =>
    (m.beneficiaries.toList.map Prod.fst).foldl (fun s b => s.modMember b (unlist id)) s
  let m ← member id
  Op.write fun s => m.supportersOf.toList.foldl (fun s l => s.modMember l (undelegate id)) s
  Op.write fun s => { s with validators := s.validators.erase id }
  memberMut id fun m =>
    { m with
      beneficiaries := ∅, supportersOf := ∅, approvedSupporters := ∅, status := .exited }

/-! ### Bonds -/

def forfeitBonds (target : MemberId) : Tr Unit := do
  let m ← member target
  let early ← Op.ask fun s => decide (m.bondSaturatedEpochs < s.params.bondForfeitEpochs)
  Op.refuseIf early .bondNotSaturated
  let held := m.bondEnc
  let nothing ← Op.ask fun s => decide (held ≤ s.params.dustMinor)
  Op.refuseIf nothing .bondNothingHeld
  memberMut target fun m =>
    { m with bonds := ∅, bondSaturatedEpochs := 0, bondDeniedThisEpoch := false }
  Op.write fun s => { s with forfeitReserve := OrdMap.bump s.forfeitReserve target held }

/-! ### Governance -/

/-- The share of the declared supply that a set of voters stands for. -/
def governanceMass (s : State) (assenting : OrdSet MemberId) : F64 :=
  let external := s.externalMinor
  if external = 0 then F64.zero false
  else
    let mine := (assenting.toList.map fun id => OrdMap.getD' s.underwriters id 0).sum
    F64.ofNat mine / F64.ofNat external

/-- Who may act on a proposal: an active member, or a suspended one on a reinstatement. -/
def mayGovern (s : State) (id : MemberId) (kind : ProposalKind) : Res Unit :=
  match findMember s id with
  | .error e => .error e
  | .ok m =>
    match m.status, kind with
    | .active, _ => .ok ()
    | .suspended, .unsuspend _ => .ok ()
    | _, _ => .error .memNotActive

/-- Does the bond unit stay at least one minor unit? -/
def unitSurvives (bondFraction vBase : F64) : Prop := 1 ≤ toMinor (bondFraction * vBase)

instance (bondFraction vBase : F64) : Decidable (unitSurvives bondFraction vBase) :=
  inferInstanceAs (Decidable (_ ≤ _))

/-- The ratio of a redenomination. -/
def ratio (num den : Nat) : F64 := F64.ofNat num / F64.ofNat den

section Governance

variable [Libm]

/-- May the proposal be tabled? -/
def tableable (s : State) (kind : ProposalKind) : Res Unit :=
  match kind with
  | .paramChange key value =>
    let (lo, hi) := Params.safeRange key
    if ¬(lo ≤ value ∧ value ≤ hi) then .error .govOutOfRange
    else if key = .bondFraction ∧ ¬unitSurvives value s.params.vBase then .error .govOutOfRange
    else .ok ()
  | .redenominate num den =>
    if num = 0 ∨ den = 0 then .error .govBand
    else if s.params.redenomBandLn < (Libm.log (ratio num den)).abs then .error .govBand
    else if ¬unitSurvives s.params.bondFraction (s.params.vBase * ratio num den) then
      .error .govBand
    else .ok ()
  | .suspend m | .unsuspend m =>
    match findMember s m with
    | .error e => .error e
    | .ok _ => .ok ()
  | .validatorPower m power =>
    if Constants.maxValidatorPower < power then .error .valPowerTooHigh
    else
      match findMember s m with
      | .error e => .error e
      | .ok row =>
        if power = 0 then .ok ()
        else if row.status ≠ .active then .error .valNotEligible
        else if row.consensusKey.isNone then .error .valNoConsensusKey
        else .ok ()
  | .seedAmendment amount =>
    if amount ≤ F64.zero false ∨ ¬amountRepresentable amount ∨ toMinor amount = 0 then
      .error .ctrBadAmount
    else .ok ()

def propose (author : MemberId) (kind : ProposalKind) (signers : List Key) : Tr Unit := do
  Op.check (requireSigned · author signers)
  Op.check (mayGovern · author kind)
  let unestablished ← Op.ask fun s =>
    decide (¬kind.isSeedAmendment ∧ s.conferrable author ≤ s.params.dust)
  Op.refuseIf unestablished .govNotEstablished
  Op.check (tableable · kind)
  Op.write fun s =>
    { s with
      nextProposal := s.nextProposal + 1
      proposals := s.proposals.insert s.nextProposal
        { id := s.nextProposal, kind, author, openedEpoch := s.epoch } }

end Governance

/-- What a proposal needs to be adopted: more where it touches the validators. -/
def adoptionThreshold (s : State) (kind : ProposalKind) : F64 :=
  let touchesTheOrder :=
    match kind with
    | .validatorPower _ _ => true
    | .suspend m | .unsuspend m => s.validators.contains m
    | _ => false
  if touchesTheOrder then s.params.thetaAdoptValidator else s.params.thetaAdopt

/-- Does the assent of `id` carry the proposal? -/
def assentEnacts (s : State) (id : MemberId) (p : Proposal) : Prop :=
  adoptionThreshold s p.kind ≤ governanceMass s (p.assents.insert id)

instance (s : State) (id : MemberId) (p : Proposal) : Decidable (assentEnacts s id p) :=
  inferInstanceAs (Decidable (_ ≤ _))

/-- Is the subject of a proposal still in its cooldown? -/
def cooling (s : State) (kind : ProposalKind) : Prop :=
  match kind with
  | .paramChange key _ =>
    match s.params.lastAmendEpoch[key]? with
    | none => False
    | some last => s.epoch < horizon last s.params.govCooldownEpochs
  | .redenominate _ _ =>
    match s.params.lastRedenomEpoch with
    | none => False
    | some last => s.epoch < horizon last s.params.govCooldownEpochs
  | _ => False

instance (s : State) (kind : ProposalKind) : Decidable (cooling s kind) := by
  unfold cooling
  split
  · split <;> infer_instance
  · split <;> infer_instance
  · infer_instance

end Apply

namespace Seed

/-- The seed at the epoch's opening. -/
def rateBase (s : State) : Nat := s.externalMinor - s.seedAmendedThisEpoch

/-- What amendments may still add this epoch. -/
def remaining (s : State) : Nat :=
  ((F64.ofNat (rateBase s) * s.params.seedRateBounded).floor.max (F64.zero false)).toU64 -
    s.seedAmendedThisEpoch

def check (s : State) (author : MemberId) (amount : F64) : Res Unit :=
  match Apply.findMember s author with
  | .error e => .error e
  | .ok m =>
    if m.status ≠ .active then .error .memNotActive
    else
      let want := toMinor amount
      if amount ≤ F64.zero false ∨ ¬amountRepresentable amount ∨ want = 0 then
        .error .ctrBadAmount
      else if remaining s < want then .error .seedRate
      else if Constants.maxAmountMinor < min (s.externalMinor + want) u64Max then
        .error .seedRate
      else .ok ()

def enact (author : MemberId) (amount : F64) : Tr Unit := do
  Op.check (check · author amount)
  let want := toMinor amount
  Op.write fun s =>
    { s with
      underwriters := OrdMap.bump s.underwriters author want
      seedAmendedThisEpoch := min (s.seedAmendedThisEpoch + want) u64Max }

end Seed

namespace Apply

/-- May the proposal be enacted, as far as that is asked before the assent is written? -/
def enactable (s : State) (p : Proposal) : Res Unit :=
  match p.kind with
  | .paramChange .bondFraction value =>
    if ¬unitSurvives value s.params.vBase then .error .govOutOfRange else .ok ()
  | .redenominate num den =>
    if ¬unitSurvives s.params.bondFraction (s.params.vBase * ratio num den) then .error .govBand
    else .ok ()
  | .seedAmendment amount => Seed.check s p.author amount
  | _ => .ok ()

/-- Is `target` a validator the set cannot spare? -/
def lastValidator (s : State) (target : MemberId) : Prop :=
  s.validators.contains target ∧ s.validators.size ≤ s.params.minValidators

instance (s : State) (target : MemberId) : Decidable (lastValidator s target) :=
  inferInstanceAs (Decidable (_ ∧ _))

/-- May `target` be given the power? -/
def empowerable (s : State) (target : MemberId) (power : Nat) : Res Unit :=
  match findMember s target with
  | .error e => .error e
  | .ok m =>
    if m.status ≠ .active then .error .valNotEligible
    else
      let others := OrdMap.total (fun id p => if id = target then 0 else p) s.validators
      if Constants.maxValidatorPower < power ∨ 2 ^ 64 ≤ others + power then
        .error .valPowerTooHigh
      else if m.consensusKey.isNone then .error .valNoConsensusKey
      else .ok ()

/-- Carry a proposal out. -/
def enact (kind : ProposalKind) (author : MemberId) : Tr Unit :=
  match kind with
  | .paramChange key value =>
    Op.write fun s =>
      { s with
        params := { s.params.set key value with
          lastAmendEpoch := s.params.lastAmendEpoch.insert key s.epoch } }
  | .redenominate num den =>
    Op.write fun s =>
      let s := s.rescale (ratio num den)
      { s with params := { s.params with lastRedenomEpoch := some s.epoch } }
  | .suspend target => do
    let last ← Op.ask fun s => decide (lastValidator s target)
    Op.refuseIf last .valLastValidator
    memberMut target fun m =>
      { m with status := if m.status = .active then .suspended else m.status }
    Op.write fun s => { s with validators := s.validators.erase target }
  | .unsuspend target =>
    memberMut target fun m =>
      { m with status := if m.status = .suspended then .active else m.status }
  | .validatorPower target power =>
    if 0 < power then do
      Op.check (empowerable · target power)
      Op.write fun s => { s with validators := s.validators.insert target power }
    else do
      let last ← Op.ask fun s => decide (lastValidator s target)
      Op.refuseIf last .valLastValidator
      Op.write fun s => { s with validators := s.validators.erase target }
  | .seedAmendment amount => Seed.enact author amount

def findProposal (s : State) (id : ProposalId) : Res Proposal :=
  match s.proposals[id]? with
  | some p => .ok p
  | none => .error .govUnknownProposal

def modProposal (id : ProposalId) (f : Proposal → Proposal) (s : State) : State :=
  { s with proposals := s.proposals.modify id f }

/-- What an assent is checked for before it is written: the proposal, and whether the
assent carries it. -/
def mayAssent (id : MemberId) (proposalId : ProposalId) (signers : List Key) :
    Tr (Proposal × Bool) := do
  Op.check (requireSigned · id signers)
  let p ← Op.check (findProposal · proposalId)
  Op.check (mayGovern · id p.kind)
  Op.refuseIf p.enacted .govUnknownProposal
  Op.refuseIf (p.assents.contains id) .govAlreadyAssented
  let supply ← Op.ask fun s => OrdMap.getD' s.underwriters id 0
  Op.refuseIf (supply = 0) .govNoMandate
  Op.refuseIf (p.kind.isSeedAmendment ∧ id = p.author) .seedConflicted
  let enacts ← Op.ask fun s => decide (assentEnacts s id p)
  let cools ← Op.ask fun s => decide (cooling s p.kind)
  Op.refuseIf (enacts ∧ cools) .govCooldown
  Op.check fun s => if enacts then enactable s p else .ok ()
  pure (p, enacts)

def assent (id : MemberId) (proposalId : ProposalId) (signers : List Key) : Tr Unit := do
  let (p, enacts) ← mayAssent id proposalId signers
  Op.write (modProposal proposalId fun p => { p with assents := p.assents.insert id })
  if enacts then do
    enact p.kind p.author
    Op.write (modProposal proposalId fun p => { p with enacted := true })
  else pure ()

/-! ### Dispatch -/

section Dispatch

variable [Libm]

/-- Run the transition a transaction names. -/
def dispatch (tx : Tx) (signers : List Key) (sponsor : Option MemberId) : Tr Unit :=
  match tx with
  | .registerGuardians member guardians threshold vetoWindowEpochs =>
    registerGuardians member guardians threshold vetoWindowEpochs signers
  | .rotateRequest member newKeys => rotateRequest member newKeys signers
  | .rotateVeto member => rotateVeto member signers
  | .rotateFinalize member => rotateFinalize member
  | .setConsensusKey member key => setConsensusKey member key signers
  | .declareSupply member supply => declareSupply member supply signers
  | .accept debtor creditor amount maturityEpochs arb =>
    accept debtor creditor amount maturityEpochs arb signers sponsor
  | .transfer contract newDebtor => transfer contract newDebtor signers
  | .settle contract amount => settle contract amount signers
  | .extend contract newMaturityEpoch => extend contract newMaturityEpoch signers
  | .markExpired contract => markExpired contract
  | .cure contract amount => cure contract amount signers
  | .listBeneficiaries supporter entries => listBeneficiaries supporter entries signers
  | .approveSupporter beneficiary supporter approved =>
    approveSupporter beneficiary supporter approved signers
  | .sale seller buyer amount maturityEpochs =>
    Cascade.sale seller buyer amount maturityEpochs signers sponsor
  | .arbAttest contract arbiter amount => arbAttest contract arbiter amount signers
  | .exit member => exit member signers
  | .propose author kind => propose author kind signers
  | .assent member proposal => assent member proposal signers
  | .forfeitBonds member => forfeitBonds member

end Dispatch

end Apply

end Edet
