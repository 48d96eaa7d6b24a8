import Edet.Kernel.Constants
import Edet.Kernel.Flow

/-!
# The ledger's records

The vocabulary of the state machine: members, contracts, proposals, the transactions
that move them (`Tx`), the parameters the community may amend (`Params`), the refusal
codes (`Code`), and the `State` that holds them all.

Amounts are minor units, ids and epochs are natural numbers, and a key is its 32
bytes. The records carry every field some transition reads or writes.
-/

namespace Edet

abbrev MemberId := Nat
abbrev ContractId := Nat
abbrev ProposalId := Nat

/-- A public key, 32 bytes. -/
abbrev Key := BitVec 256

/-- A transaction id, 32 bytes. -/
abbrev TxId := BitVec 256

/-- Keys and ids are ordered as numbers. -/
instance instTransOrdKey : Std.TransOrd Key := inferInstanceAs (Std.TransOrd (BitVec 256))

/-! ### Refusals -/

/-- Why a transition refuses. -/
inductive Code
  | admDupKey | admBadKeys
  | memUnknown | memNotActive | memNotSigner | memSuspendedNoOrigination
  | ctrUnknown | ctrBadState | ctrBadAmount | ctrMaturityTooShort | ctrNotDue | ctrSelfDeal
  | ctrMaturityTooLong
  | uwrAboveCapacity | uwrBelowCommitted | uwrStillDeclared
  | seedRate | seedConflicted
  | rotNoGuardians | rotThreshold | rotNoRequest | rotWindowOpen | rotBadWindow
  | casBadWeight | casTooMany | casNotListed
  | arbNoTerms | arbNotPanel | arbWindowClosed | arbAlreadyAttested | arbAlreadyAwarded
  | arbBadTerms | arbWindowOpen
  | lifOutstandingDebt | lifOutstandingBonds
  | valNotEligible | valLastValidator | valPowerTooHigh | valNoConsensusKey | valKeyInUse
  | govNotEstablished | govOutOfRange | govCooldown | govUnknownProposal | govBand
  | govNoMandate | govAlreadyAssented
  | bondExhausted | bondNotSaturated | bondNothingHeld | bondNoPayer | bondStatus
  | bondSeatUnbacked
  | txReplay | txExpired | txWindowTooLong
deriving DecidableEq

/-- A query that may refuse. -/
abbrev Res := Except Code

/-! ### Members -/

inductive MemberStatus
  | active
  | suspended
  | exited
deriving DecidableEq

/-- One side of a new obligation: a member, or a key that may not have a row yet. -/
inductive Party
  | member (id : MemberId)
  | key (k : Key)
deriving DecidableEq

structure GuardianConfig where
  guardians : OrdSet MemberId
  threshold : Nat
  vetoWindowEpochs : Nat
deriving DecidableEq

structure PendingRotation where
  newKeys : List Key
  openedEpoch : Nat
deriving DecidableEq

structure Reputation where
  /-- What the member owes on expired contracts. -/
  openDefault : Nat := 0
  dIn : F64 := F64.zero false
  dOut : F64 := F64.zero false
deriving DecidableEq

/-- What backs a row: its sponsor, and what the row holds of the sponsor's reach. -/
structure Seat where
  sponsor : MemberId
  held : Flow.Held
deriving DecidableEq

structure Member where
  id : MemberId
  keys : List Key
  consensusKey : Option Key := none
  status : MemberStatus := .active
  joinedEpoch : Nat
  guardian : Option GuardianConfig := none
  pendingRotation : Option PendingRotation := none
  beneficiaries : OrdMap MemberId F64 := ∅
  supportersOf : OrdSet MemberId := ∅
  approvedSupporters : OrdSet MemberId := ∅
  rep : Reputation := {}
  debtOut : Nat := 0
  /-- Bonds, keyed by the epoch that releases them. -/
  bonds : OrdMap Nat Nat := ∅
  bondFreeUsed : Nat := 0
  bondSaturatedEpochs : Nat := 0
  bondDeniedThisEpoch : Bool := false
  seat : Option Seat := none
  seatSlot : Bool := false
deriving DecidableEq

/-- The sum of a member's bonds. -/
def Member.bondEnc (m : Member) : Nat := OrdMap.total (fun _ v => v) m.bonds

def Member.hasKey (m : Member) (k : Key) : Bool := m.keys.contains k

/-! ### Contracts and proposals -/

/-- Arbitration terms as a transaction carries them. -/
structure ArbTermsWire where
  arbiters : OrdSet MemberId
  quorum : Nat
  windowEpochs : Nat
  awardCap : F64
deriving DecidableEq

/-- Arbitration terms as a contract carries them: with the parties and the amount they
were agreed for. -/
structure ArbTerms where
  arbiters : OrdSet MemberId
  quorum : Nat
  windowEpochs : Nat
  awardCap : Nat
  debtor : MemberId
  creditor : MemberId
  amount : Nat
deriving DecidableEq

def ArbTermsWire.intoStored (t : ArbTermsWire) (awardCap : Nat) (debtor creditor : MemberId)
    (amount : Nat) : ArbTerms :=
  { arbiters := t.arbiters, quorum := t.quorum, windowEpochs := t.windowEpochs,
    awardCap, debtor, creditor, amount }

inductive ContractStatus
  | active
  | transferred
  | settled
  | expired
  | cured
deriving DecidableEq

/-- Does the contract still owe? -/
def ContractStatus.live : ContractStatus → Bool
  | .active | .expired => true
  | _ => false

structure Contract where
  id : ContractId
  debtor : MemberId
  creditor : MemberId
  outstanding : Nat
  original : Nat
  maturityEpoch : Nat
  status : ContractStatus := .active
  createdEpoch : Nat
  acceptedEpoch : Nat
  insured : Bool
  held : Flow.Held := {}
  arb : Option ArbTerms := none
  arbAttestations : OrdMap MemberId Nat := ∅
  arbAwarded : Bool := false
deriving DecidableEq

inductive ParamKey
  | riskK
  | sealAmounts
  | bondFraction
  | stakeDecay
  | seedRate
  | insuredHorizon
deriving DecidableEq, Ord

instance : Std.TransOrd ParamKey where
  eq_swap {a b} := by cases a <;> cases b <;> rfl
  isLE_trans {a b c} := by cases a <;> cases b <;> cases c <;> decide

instance : Std.LawfulEqOrd ParamKey where
  compare_self {a} := by cases a <;> rfl
  eq_of_compare {a b} := by cases a <;> cases b <;> decide

inductive ProposalKind
  | paramChange (key : ParamKey) (value : F64)
  | redenominate (num den : Nat)
  | suspend (member : MemberId)
  | unsuspend (member : MemberId)
  | validatorPower (member : MemberId) (power : Nat)
  | seedAmendment (amount : F64)
deriving DecidableEq

/-- Is the proposal a seed amendment? -/
def ProposalKind.isSeedAmendment : ProposalKind → Bool
  | .seedAmendment _ => true
  | _ => false

structure Proposal where
  id : ProposalId
  kind : ProposalKind
  author : MemberId
  assents : OrdSet MemberId := ∅
  enacted : Bool := false
  openedEpoch : Nat
deriving DecidableEq

/-! ### Transactions -/

inductive Tx
  | registerGuardians (member : MemberId) (guardians : List MemberId) (threshold : Nat)
      (vetoWindowEpochs : Nat)
  | rotateRequest (member : MemberId) (newKeys : List Key)
  | rotateVeto (member : MemberId)
  | rotateFinalize (member : MemberId)
  | setConsensusKey (member : MemberId) (key : Option Key)
  | exit (member : MemberId)
  | listBeneficiaries (supporter : MemberId) (entries : List (MemberId × F64))
  | approveSupporter (beneficiary supporter : MemberId) (approved : Bool)
  | sale (seller buyer : Party) (amount : F64) (maturityEpochs : Nat)
  | declareSupply (member : MemberId) (supply : F64)
  | accept (debtor creditor : Party) (amount : F64) (maturityEpochs : Nat)
      (arb : Option ArbTermsWire)
  | transfer (contract : ContractId) (newDebtor : MemberId)
  | settle (contract : ContractId) (amount : F64)
  | extend (contract : ContractId) (newMaturityEpoch : Nat)
  | markExpired (contract : ContractId)
  | cure (contract : ContractId) (amount : F64)
  | arbAttest (contract : ContractId) (arbiter : MemberId) (amount : F64)
  | propose (author : MemberId) (kind : ProposalKind)
  | assent (member : MemberId) (proposal : ProposalId)
  | forfeitBonds (member : MemberId)
deriving DecidableEq

/-! ### Amounts -/

/-- Distance to the nearest minor unit that counts as rounding error. -/
def minorSnap : F64 := F64.lit 1 1000000000

/-- An amount in minor units, rounded down except within `minorSnap` of a whole. -/
def toMinor (x : F64) : Nat :=
  if ¬x.isFinite ∨ x ≤ F64.zero false then 0
  else
    let scaled := x * Constants.minor
    let nearest := scaled.round
    if F64.zero false ≤ nearest ∧
        (scaled - nearest).abs ≤ minorSnap * nearest.max (F64.ofNat 1) then
      nearest.toU64
    else scaled.floor.toU64

theorem toMinor_lt (x : F64) : toMinor x < 2 ^ 64 := by
  unfold toMinor
  split
  · decide
  · extract_lets scaled nearest
    split <;> exact F64.toU64_lt _

/-- An amount in major units. -/
def fromMinor (u : Nat) : F64 := F64.ofNat u / Constants.minor

/-- May an amount appear on the ledger? -/
def amountRepresentable (x : F64) : Prop :=
  x.isFinite ∧ F64.zero false ≤ x ∧ toMinor x ≤ Constants.maxAmountMinor

instance (x : F64) : Decidable (amountRepresentable x) := inferInstanceAs (Decidable (_ ∧ _ ∧ _))

/-! ### Parameters -/

structure Params where
  vBase : F64 := Constants.baseCapacity
  dust : F64 := Constants.dust
  riskK : F64 := Constants.riskK
  thetaAdopt : F64 := Constants.thetaAdopt
  thetaAdoptValidator : F64 := Constants.thetaAdoptValidator
  sealAmounts : F64 := F64.zero false
  stakeDecay : F64 := F64.ofNat Constants.stakeDecayNum
  bondFraction : F64 := Constants.bondUnitFraction
  seedRate : F64 := Constants.seedRate
  insuredHorizon : F64 := F64.ofNat Constants.insuredHorizonEpochs
  bondFreeAllowance : Nat := Constants.bondFreeAllowance
  bondReleaseEpochs : Nat := Constants.bondReleaseEpochs
  bondForfeitEpochs : Nat := Constants.bondForfeitEpochs
  minMaturityEpochs : Nat := Constants.minMaturityEpochs
  govCooldownEpochs : Nat := Constants.govCooldownEpochs
  redenomBandLn : F64 := Constants.redenomBandLn
  minValidators : Nat := Constants.minValidators
  lastAmendEpoch : OrdMap ParamKey Nat := ∅
  lastRedenomEpoch : Option Nat := none
deriving DecidableEq

namespace Params

/-- The range an amendment may move a parameter in. -/
def safeRange : ParamKey → F64 × F64
  | .riskK => (F64.lit 25 100, F64.ofNat 5)
  | .sealAmounts => (F64.zero false, F64.ofNat 1)
  | .bondFraction => (F64.lit 1 1000, F64.lit 10 100)
  | .stakeDecay => (F64.ofNat 900, F64.ofNat 999)
  | .seedRate => (F64.lit 1 1000, F64.lit 5 100)
  | .insuredHorizon =>
    (F64.ofNat Constants.minMaturityEpochs, F64.ofNat Constants.maxHorizonEpochs)

def set (p : Params) (key : ParamKey) (value : F64) : Params :=
  match key with
  | .riskK => { p with riskK := value }
  | .sealAmounts => { p with sealAmounts := value }
  | .bondFraction => { p with bondFraction := value }
  | .stakeDecay => { p with stakeDecay := value }
  | .seedRate => { p with seedRate := value }
  | .insuredHorizon => { p with insuredHorizon := value }

/-- How many epochs after acceptance an obligation may stay insured. -/
def insuredHorizonEpochs (p : Params) : Nat :=
  let (lo, hi) := safeRange .insuredHorizon
  if p.insuredHorizon.isFinite then (p.insuredHorizon.clamp lo hi).toU64 else lo.toU64

def seedRateBounded (p : Params) : F64 :=
  let (lo, hi) := safeRange .seedRate
  if p.seedRate.isFinite then p.seedRate.clamp lo hi else lo

def bondUnit (p : Params) : F64 := p.bondFraction * p.vBase

def bondUnitMinor (p : Params) : Nat := toMinor p.bondUnit

def dustMinor (p : Params) : Nat := toMinor p.dust

/-- The decay of stakes, as a fraction. -/
def decayRatio (p : Params) : Nat × Nat :=
  let (lo, hi) := safeRange .stakeDecay
  ((p.stakeDecay.clamp lo hi).toU64, Constants.decayDen)

def rescale (p : Params) (pi : F64) : Params := { p with vBase := p.vBase * pi, dust := p.dust * pi }

end Params

/-! ### The state -/

/-- The salt of a development chain, which is published. -/
def devRootSalt : Key :=
  0x656465742d6465762d726f6f742d73616c742d76315f5f5f5f5f5f5f5f5f5f5f#256

structure State where
  params : Params := {}
  epoch : Nat := 0
  members : OrdMap MemberId Member := ∅
  nextMember : MemberId := 0
  keyIndex : OrdMap Key MemberId := ∅
  edges : Flow.Edges := ∅
  reserved : Flow.Reservations := ∅
  committed : Flow.Committed := ∅
  seatReserved : Flow.Reservations := ∅
  seatCommitted : Flow.Committed := ∅
  underwriters : OrdMap MemberId Nat := ∅
  seedAmendedThisEpoch : Nat := 0
  contracts : OrdMap ContractId Contract := ∅
  nextContract : ContractId := 0
  forfeitReserve : OrdMap MemberId Nat := ∅
  proposals : OrdMap ProposalId Proposal := ∅
  nextProposal : ProposalId := 0
  validators : OrdMap MemberId Nat := ∅
  chainId : String := "edet-dev"
  /-- The ids of the transactions applied, by the last epoch each was valid in. -/
  appliedByExpiry : OrdMap Nat (OrdSet TxId) := ∅
  lastBeginSecs : Nat := 0
  rootSalt : Key := devRootSalt
deriving DecidableEq

example : toMinor (F64.lit 123 10) = 1230 := by decide +kernel
example : ({} : Params).dustMinor = 1 := by decide +kernel

end Edet
