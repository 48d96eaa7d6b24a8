import Edet.Ledger.Transitions

/-!
# Epoch boundaries, the bond gate and `apply`

A block begins with `beginBlock`: the epochs that have passed since the last one are
taken one by one (`advanceEpoch`), and if any passed, the cranks are swept
(`sweepCranks`): contracts past maturity default, rings of defaulted debts are netted,
saturated bonds are forfeited, closed panels award, and closed contracts, old
proposals and empty rows are dropped.

A transaction then passes the bond gate (`bondGate`), is remembered, and is dispatched.
`apply` decides from the outcome what a refusal still costs.
-/

namespace Edet

open Edet.Flow

namespace Apply

/-! ### Netting of rings -/

/-- A defaulted debt between active members, above dust and without a panel. -/
def eligibleHop (s : State) (c : Contract) : Bool :=
  let active (id : MemberId) : Bool :=
    match s.members[id]? with
    | none => false
    | some m => m.status = .active
  c.status = .expired && decide (s.params.dustMinor < c.outstanding) && c.arb.isNone &&
    active c.debtor && active c.creditor

/-- The eligible hops, in ascending order of their ids. -/
def eligibleHops (s : State) : List Contract :=
  (s.contracts.toList.map Prod.snd).filter (eligibleHop s)

/-- Depth-first search for a way back to `start`, over at most as many hops as a ring
may have. -/
def walkRing (hops : List Contract) (start : MemberId) :
    Nat → MemberId → List ContractId → List MemberId → Option (List ContractId)
  | 0, _, _, _ => none
  | fuel + 1, here, path, seen =>
    (hops.filter fun c => c.debtor = here).findSome? fun c =>
      if c.creditor = start then some (path ++ [c.id])
      else if Constants.nettingMaxRing ≤ path.length + 1 ∨ c.creditor ∈ seen then none
      else walkRing hops start fuel c.creditor (path ++ [c.id]) (c.creditor :: seen)

/-- The first ring, by its oldest hop. -/
def findRing (s : State) : Option (List ContractId) :=
  let hops := eligibleHops s
  hops.findSome? fun c =>
    if c.creditor = c.debtor then none
    else walkRing hops c.debtor Constants.nettingMaxRing c.creditor [c.id] [c.debtor, c.creditor]

/-- The least that any hop of a ring owes. -/
def ringTake (s : State) (ring : List ContractId) : Nat :=
  ((ring.filterMap fun id => s.contracts[id]?.map Contract.outstanding).min?).getD 0

/-- Net rings until none is left, or the epoch's allowance is used up. -/
def netRings : Nat → Tr Unit
  | 0 => pure ()
  | rounds + 1 => do
    let ring ← Op.ask findRing
    match ring with
    | none => pure ()
    | some ring => do
      let take ← Op.ask (ringTake · ring)
      ring.forM fun id => Op.attempt (dischargeHop id take)
      netRings rounds

/-! ### Pruning -/

/-- Is a contract past its retention? -/
def outlived (epoch : Nat) (c : Contract) : Bool :=
  !c.status.live &&
    let window := match c.arb with
      | none => 0
      | some a => a.windowEpochs
    decide (horizon c.createdEpoch (max Constants.closedRetentionEpochs window) < epoch)

def pruneClosedRows (s : State) : State :=
  { s with
    contracts := s.contracts.filter fun _ c => !outlived s.epoch c
    proposals := s.proposals.filter fun _ p =>
      decide (s.epoch ≤ horizon p.openedEpoch Constants.proposalRetentionEpochs) }

/-- The members a contract names. -/
def contractNames (c : Contract) : List MemberId :=
  [c.debtor, c.creditor] ++
    match c.arb with
    | none => []
    | some a => a.arbiters.toList ++ [a.debtor, a.creditor]

/-- The members a proposal names. -/
def proposalNames (p : Proposal) : List MemberId :=
  [p.author] ++ p.assents.toList ++
    match p.kind with
    | .suspend m | .unsuspend m | .validatorPower m _ => [m]
    | _ => []

/-- The members another row names. -/
def memberNames (m : Member) : List MemberId :=
  (match m.guardian with
    | none => []
    | some g => g.guardians.toList) ++
  (match m.seat with
    | none => []
    | some seat => [seat.sponsor])

/-- The members that stakes, contracts, proposals and other rows name. -/
def namedMembers (s : State) : List MemberId :=
  (s.edges.toList.flatMap fun e => [e.1.1, e.1.2]) ++
  (s.contracts.toList.flatMap fun p => contractNames p.2) ++
  (s.proposals.toList.flatMap fun p => proposalNames p.2) ++
  (s.members.toList.flatMap fun p => memberNames p.2)

/-- May a row be retired: nothing names it, and nothing is owed or held by it? -/
def emptyRow (s : State) (named : List MemberId) (m : Member) : Bool :=
  (m.status = .active || m.status = .exited) &&
  decide (horizon m.joinedEpoch Constants.rowRetentionEpochs < s.epoch) &&
  decide (m.id ∉ named) &&
  decide (m.debtOut = 0 ∧ m.rep.openDefault = 0 ∧ m.bondEnc = 0) && m.pendingRotation.isNone &&
  !s.forfeitReserve.contains m.id && !s.underwriters.contains m.id && !s.validators.contains m.id

/-- Drop a row, its listings, its seat and its keys. -/
def retireRow (id : MemberId) (s : State) : State :=
  match s.members[id]? with
  | none => s
  | some m =>
    let s := (m.beneficiaries.toList.map Prod.fst).foldl (fun s b => s.modMember b (unlist id)) s
    let s := m.supportersOf.toList.foldl (fun s l => s.modMember l (undelegate id)) s
    let s := match m.seat with
      | none => s
      | some seat => s.releaseSeat seat.held
    { s with
      keyIndex := m.keys.foldl (fun m k => m.erase k) s.keyIndex
      members := s.members.erase id }

def retireEmptyRows (s : State) : State :=
  let named := namedMembers s
  let empty := (s.members.toList.filter fun p => emptyRow s named p.2).map fun p => p.2.id
  empty.foldl (fun s id => retireRow id s) s

/-! ### The sweep -/

def sweepCranks : Tr Unit := do
  let due ← Op.ask fun s =>
    (s.contracts.toList.filter fun p =>
      p.2.status = .active ∧ p.2.maturityEpoch < s.epoch ∧
        s.params.dustMinor < p.2.outstanding).map fun p => p.2.id
  due.forM fun id => Op.attempt (markExpired id)
  netRings Constants.nettingMaxRingsPerEpoch
  let saturated ← Op.ask fun s =>
    (s.members.toList.filter fun p =>
      s.params.bondForfeitEpochs ≤ p.2.bondSaturatedEpochs ∧
        s.params.dustMinor < p.2.bondEnc).map fun p => p.2.id
  saturated.forM fun id => Op.attempt (forfeitBonds id)
  let closed ← Op.ask fun s =>
    (s.contracts.toList.filter fun p =>
      !p.2.arbAwarded &&
        match p.2.arb with
        | none => false
        | some a => decide (horizon p.2.createdEpoch a.windowEpochs < s.epoch)).map
      fun p => p.2.id
  closed.forM fun id => Op.attempt (arbAward id)
  Op.write pruneClosedRows
  Op.write retireEmptyRows

end Apply

namespace State

/-- One epoch: allowances and reputations start over, and stakes fade. -/
def advanceEpoch (s : State) : State :=
  let members := s.members.map fun _ m =>
    { m with
      rep := { m.rep with dIn := F64.zero false, dOut := F64.zero false }
      bondSaturatedEpochs := if m.bondDeniedThisEpoch then m.bondSaturatedEpochs + 1 else 0
      bondDeniedThisEpoch := false
      bondFreeUsed := 0 }
  let ratio := s.params.decayRatio
  { s with
    members
    epoch := s.epoch + 1
    seedAmendedThisEpoch := 0
    edges := decay s.edges s.reserved ratio.1 ratio.2 }.pruneExpiredAppliedIds

/-- The epoch a block at `nowSecs` belongs to, as far as one block may advance. -/
def targetEpoch (s : State) (nowSecs : Nat) : Nat :=
  min (nowSecs / Constants.epochSecs) (horizon s.epoch Constants.maxEpochAdvancePerBlock)

/-- Bring the ledger to the time of a block. -/
def beginBlock (nowSecs : Nat) (s : State) : State :=
  if nowSecs = s.lastBeginSecs then s
  else
    let s := { s with lastBeginSecs := nowSecs }
    let target := s.targetEpoch nowSecs
    if s.epoch < target then
      let s := Nat.repeat advanceEpoch (target - s.epoch) s
      (Op.exec Apply.sweepCranks s).2.releaseBonds
    else s

end State

namespace Bond

/-! ### What a transaction costs -/

/-- How many bond units a transaction costs. -/
def bondMultiple (s : State) : Tx → Nat
  | .settle _ _ | .cure _ _ | .exit _ | .transfer _ _ => 0
  | .declareSupply member supply =>
    if toMinor supply < OrdMap.getD' s.underwriters member 0 then 0 else 1
  | .markExpired _ | .assent _ _ | .arbAttest _ _ _ => 0
  | .rotateVeto _ | .rotateFinalize _ | .forfeitBonds _ => 0
  | .propose _ _ => 2
  | .accept _ _ _ _ _ | .sale _ _ _ _ | .extend _ _ => 1
  | .registerGuardians _ _ _ _ | .rotateRequest _ _ | .setConsensusKey _ _ => 1
  | .listBeneficiaries _ _ | .approveSupporter _ _ _ => 1

/-- May anyone send it? -/
def isPermissionless : Tx → Bool
  | .markExpired _ | .forfeitBonds _ | .rotateFinalize _ => true
  | _ => false

/-- The members behind the signing keys, in ascending order. -/
def payers (s : State) (signers : List Key) : List MemberId :=
  (((signers.filterMap fun k => s.keyIndex[k]?).filter fun id => s.members.contains id).foldl
    (fun set id => set.insert id) (∅ : OrdSet MemberId)).toList

/-- The member a transaction acts on in its own name. -/
def selfActSubject : Tx → Option MemberId
  | .registerGuardians member _ _ _ | .rotateVeto member | .setConsensusKey member _
  | .exit member | .declareSupply member _ | .assent member _ => some member
  | .listBeneficiaries supporter _ => some supporter
  | .approveSupporter beneficiary _ _ => some beneficiary
  | .arbAttest _ arbiter _ => some arbiter
  | .propose author _ => some author
  | _ => none

/-- `1` for a party whose key has no row yet. -/
def fresh (s : State) : Party → Nat
  | .member _ => 0
  | .key k => if (s.memberOfKey k).isNone then 1 else 0

/-- How many rows a transaction would open. -/
def freshKeys (s : State) : Tx → Nat
  | .accept debtor creditor _ _ _ => fresh s debtor + fresh s creditor
  | .sale seller buyer _ _ => fresh s seller + fresh s buyer
  | _ => 0

/-- The part of the base capacity a member must reach to be established. -/
def establishedFraction : F64 := F64.lit 5 100

def established (s : State) (id : MemberId) : Bool :=
  match s.members[id]? with
  | none => false
  | some m =>
    m.status = .active &&
      decide (toMinor (s.params.vBase * establishedFraction) ≤ s.seedReachMinor id)

/-- What is left of a member's free allowance this epoch. -/
def freeRemaining (s : State) (id : MemberId) : Nat :=
  match s.members[id]? with
  | none => 0
  | some m =>
    if ¬established s id ∨ s.params.dustMinor < m.rep.openDefault then 0
    else s.params.bondFreeAllowance - m.bondFreeUsed

inductive Due
  | free
  | allowance (payer : MemberId)
  | slot (payer : MemberId)
  | bond (payer : MemberId) (amount : Nat)
  | seat (payer : MemberId) (bond rows : Nat)
  | unpayable
deriving DecidableEq

/-- Is `id` an active member? -/
def isActive (s : State) (id : MemberId) : Bool :=
  match s.members[id]? with
  | none => false
  | some m => m.status = .active

/-- May `subject`, one of the signers, pay with the slot its seat came with? -/
def ownSlot (s : State) (ids : List MemberId) (subject : MemberId) : Bool :=
  ids.contains subject &&
    match s.members[subject]? with
    | none => false
    | some m => m.seatSlot && m.status = .active

/-- Who pays for a transaction, and how. -/
def due (s : State) (tx : Tx) (signers : List Key) : Due :=
  let multiple := bondMultiple s tx
  if multiple = 0 then .free
  else
    let ids := payers s signers
    match ids with
    | [] => .unpayable
    | first :: _ =>
      let bond := toMinor (F64.ofNat multiple * s.params.bondUnit)
      let rows := freshKeys s tx
      let slot := match selfActSubject tx with
        | none => none
        | some subject =>
          if ownSlot s ids subject && freeRemaining s subject == 0 then some subject else none
      let covers (id : MemberId) : Bool := decide (bond ≤ s.bondHeadroomMinor id)
      if rows = 0 then
        match slot with
        | some subject => .slot subject
        | none =>
          match ids.find? fun id => decide (0 < freeRemaining s id) with
          | some id => .allowance id
          | none => .bond ((ids.find? covers).getD first) bond
      else
        .seat ((ids.find? fun id => isActive s id && covers id && s.canSeatMinor id rows).getD first)
          bond rows

end Bond

namespace Apply

/-! ### The bond gate -/

/-- What the gate took. -/
inductive Charged
  | free
  | allowance (payer : MemberId)
  | slot (payer : MemberId)
  | bond (payer : MemberId) (releaseAt amount : Nat)
deriving DecidableEq

/-- Encumber a bond on its payer. -/
def encumber (payer : MemberId) (bond : Nat) : Tr Charged := do
  let releaseAt ← Op.ask fun s => horizon s.epoch (max s.params.bondReleaseEpochs 1)
  memberMut payer fun m => { m with bonds := OrdMap.bump m.bonds releaseAt bond }
  pure (.bond payer releaseAt bond)

/-- Refuse a bond its payer cannot carry, and remember the denial. -/
def requireHeadroom (payer : MemberId) (bond : Nat) : Tr Unit := do
  let m ← member payer
  Op.refuseIf (m.status ≠ .active) .bondStatus
  let short ← Op.ask fun s => decide (s.bondHeadroomMinor payer < bond)
  if short then do
    memberMut payer fun m => { m with bondDeniedThisEpoch := true }
    Op.refuse .bondExhausted
  else pure ()

/-- Charge for a transaction; the second component sponsors the rows it opens. -/
def bondGate (tx : Tx) (signers : List Key) : Tr (Charged × Option MemberId) := do
  let due ← Op.ask (Bond.due · tx signers)
  match due with
  | .free => pure (.free, none)
  | .allowance payer => do
    memberMut payer fun m => { m with bondFreeUsed := m.bondFreeUsed + 1 }
    pure (.allowance payer, none)
  | .slot payer => do
    memberMut payer fun m => { m with seatSlot := false }
    pure (.slot payer, none)
  | .seat payer bond rows => do
    requireHeadroom payer bond
    let seats ← Op.ask (·.canSeatMinor payer rows)
    Op.refuseIf (¬seats) .bondSeatUnbacked
    let charged ← encumber payer bond
    pure (charged, some payer)
  | .bond payer bond => do
    requireHeadroom payer bond
    let charged ← encumber payer bond
    pure (charged, none)
  | .unpayable => Op.refuse .bondNoPayer

/-- Give back what the gate took. -/
def refund (charged : Charged) (s : State) : State :=
  match charged with
  | .free => s
  | .allowance payer => s.modMember payer fun m => { m with bondFreeUsed := m.bondFreeUsed - 1 }
  | .slot payer => s.modMember payer fun m => { m with seatSlot := true }
  | .bond payer releaseAt amount =>
    s.modMember payer fun m =>
      match m.bonds[releaseAt]? with
      | none => m
      | some v =>
        { m with
          bonds := if v - amount = 0 then m.bonds.erase releaseAt
            else m.bonds.insert releaseAt (v - amount) }

/-- Did the subject sign for itself with its slot still unused? -/
def ownsSlot (s : State) (id : MemberId) (signers : List Key) : Bool :=
  match s.members[id]? with
  | none => false
  | some m => m.seatSlot && m.status = .active && signers.any (m.hasKey ·)

/-- Charge a refusal of a free transaction: the subject's slot, or an allowance. -/
def priceRefusal (subject : Option MemberId) (signers : List Key) (s : State) : Bool × State :=
  let slot := match subject with
    | none => none
    | some id => if ownsSlot s id signers && Bond.freeRemaining s id == 0 then some id else none
  match slot with
  | some id => (true, s.modMember id fun m => { m with seatSlot := false })
  | none =>
    match (Bond.payers s signers).find? fun id => decide (0 < Bond.freeRemaining s id) with
    | some id => (true, s.modMember id fun m => { m with bondFreeUsed := m.bondFreeUsed + 1 })
    | none => (false, s)

/-! ### Applying a transaction -/

/-- What a refusal still costs: nothing if a signature was missing; a free transaction
that anyone may send, or whose refusal cannot be charged, is forgotten. -/
def settleOutcome (tx : Tx) (txId : TxId) (notAfterEpoch : Nat) (signers : List Key)
    (charged : Charged) (outcome : Res Unit) (s : State) : State :=
  match outcome with
  | .ok _ => s
  | .error e =>
    if e = .memNotSigner then refund charged (s.forgetApplied txId notAfterEpoch)
    else if charged = .free then
      if Bond.isPermissionless tx then s.forgetApplied txId notAfterEpoch
      else
        let (priced, s) := priceRefusal (Bond.selfActSubject tx) signers s
        if priced then s else s.forgetApplied txId notAfterEpoch
    else s

/-- Is the envelope one that may still be applied? -/
def admissible (s : State) (txId : TxId) (notAfterEpoch : Nat) : Res Unit :=
  if notAfterEpoch < s.epoch then .error .txExpired
  else if horizon s.epoch Constants.maxTxLifetimeEpochs < notAfterEpoch then
    .error .txWindowTooLong
  else if s.isApplied txId notAfterEpoch then .error .txReplay
  else .ok ()

section Apply

variable [Libm]

/-- Apply a transaction in a block at `nowSecs`. -/
def apply (tx : Tx) (txId : TxId) (notAfterEpoch : Nat) (signers : List Key) (nowSecs : Nat) :
    Tr Unit := do
  Op.write (State.beginBlock nowSecs)
  Op.check (admissible · txId notAfterEpoch)
  let (charged, sponsor) ← bondGate tx signers
  Op.write (·.recordApplied txId notAfterEpoch)
  let outcome ← Op.outcome (dispatch tx signers sponsor)
  Op.write (settleOutcome tx txId notAfterEpoch signers charged outcome)
  Op.check fun _ => outcome

end Apply

end Apply

end Edet
