import Edet.Ledger.Block
import Edet.Ledger.Encoding
import Edet.View.Pending

/-!
# What a viewer may see

The rows that a node serves about members and contracts, as one viewer may see them: which
amounts are exact and which are rounded up to a power of two, which counterparties are named, and
which fields are there at all. A view is a record, and a field that is absent is `none`.

The hash behind a wallet address and the mathematical library behind the rounding are parameters.
-/

namespace Edet.View

/-- Twenty bytes, the address of a wallet. -/
abbrev Address := BitVec 160

/-- What the rounding of an amount calls. -/
class LibmPow where
  log2 : F64 → F64
  ceil : F64 → F64
  exp2 : F64 → F64

def statusStr : MemberStatus → String
  | .active => "active"
  | .suspended => "suspended"
  | .exited => "exited"

def contractStatusStr : ContractStatus → String
  | .active => "active"
  | .transferred => "transferred"
  | .settled => "settled"
  | .expired => "expired"
  | .cured => "cured"

def hex32 (k : Key) : String := hex (Encoding.key k)

/-! ### Amounts -/

section Amounts

variable [LibmPow]

/-- The least power of two from `x` on. -/
def pow2Bucket (x : F64) : F64 :=
  if ¬x.isFinite ∨ x ≤ F64.zero false then F64.zero false
  else LibmPow.exp2 (LibmPow.ceil (LibmPow.log2 x))

def sealAmount (s : State) (x : F64) : F64 :=
  if F64.lit 5 10 ≤ s.params.sealAmounts then pow2Bucket x else x

/-- An amount as it is shown: exact to a party of the record. -/
def visibleAmount (s : State) (x : F64) (viewerIsParty : Bool) : F64 :=
  if viewerIsParty then x else sealAmount s x

def visibleMinor (s : State) (x : Nat) (viewerIsParty : Bool) : F64 :=
  visibleAmount s (fromMinor x) viewerIsParty

end Amounts

def viewerIsValidator (s : State) (viewer : Option MemberId) : Bool :=
  (viewer.map s.validators.contains).getD false

/-! ### Addresses -/

section Addresses

variable (sha256 : Bytes → Digest)

/-- The first twenty bytes of the hash of a key, framed by its length. -/
def keyAddressBytes (key : Bytes) : Address :=
  (sha256 ([Encoding.utf8 "edet-addr-v3", beBytes 8 key.length, key].flatten)).extractLsb' 96 160

/-- The address of a member's first key. -/
def memberAddressBytes (m : Member) : Address :=
  keyAddressBytes sha256 ((m.keys.head?.map Encoding.key).getD [])

def addressHex (a : Address) : String := "0x" ++ hex (beBytes 20 a.toNat)

def memberAddress (m : Member) : String := addressHex (memberAddressBytes sha256 m)

end Addresses

/-! ### One row of the list of members -/

/-- A capacity that the row lacks and its caller owes it. -/
structure PendingCapacity where
  id : MemberId
  fullAccess : Bool
deriving DecidableEq

structure MemberRow where
  id : MemberId
  address : String
  keys : Option (List String)
  status : String
  capacity : Option F64
  debt : F64
  supply : Option F64
  openDefault : Option Nat
  dIn : Option F64
  dOut : Option F64

section Views

variable [LibmPow] (sha256 : Bytes → Digest)

/-- The capacity of a row, where the viewer may see one and it is at hand; else what is owed. -/
def rowCapacity (s : State) (m : Member) (viewer : Option MemberId)
    (cached : MemberId → Option F64) : Option F64 × Option PendingCapacity :=
  let fullAccess := viewerIsValidator s viewer || decide (viewer = some m.id)
  if viewer.isSome then
    match cached m.id with
    | some cap => (some (visibleAmount s cap fullAccess), none)
    | none =>
      if m.status ≠ .active then (some (visibleAmount s (F64.zero false) fullAccess), none)
      else (none, some { id := m.id, fullAccess })
  else (none, none)

/-- A row of the list of members. `cached` answers the capacities that the caller holds. -/
def memberRow (s : State) (m : Member) (viewer : Option MemberId)
    (cached : MemberId → Option F64) : MemberRow × Option PendingCapacity :=
  let isValidator := viewerIsValidator s viewer
  let reputationVisible := viewer.isSome
  let fullAccess := isValidator || decide (viewer = some m.id)
  let (capacity, pending) := rowCapacity s m viewer cached
  ({ id := m.id
     address := memberAddress sha256 m
     keys := if viewer.isSome then some (m.keys.map hex32) else none
     status := statusStr m.status
     capacity
     debt := visibleMinor s m.debtOut fullAccess
     supply := s.underwriters[m.id]?.map fromMinor
     openDefault := if reputationVisible then some m.rep.openDefault else none
     dIn := if reputationVisible then some m.rep.dIn else none
     dOut := if reputationVisible then some m.rep.dOut else none }, pending)

/-! ### Contracts -/

structure ArbView where
  arbiters : List MemberId
  quorum : Nat
  windowEpochs : Nat
  awardCap : Nat

structure ContractView where
  id : ContractId
  debtor : Option MemberId
  creditor : Option MemberId
  outstanding : F64
  original : F64
  status : String
  maturityEpoch : Nat
  createdEpoch : Nat
  acceptedEpoch : Nat
  insured : Bool
  arb : Option (Option ArbView)
  arbAttested : Option (List MemberId)
  arbAwarded : Option Bool

/-- Is the viewer a side of the contract? -/
def isParty (viewer : Option MemberId) (c : Contract) : Bool :=
  (viewer.map fun v => decide (v = c.debtor ∨ v = c.creditor)).getD false

/-- A contract. Its parties are named to one another and to validators only; its arbiters see the
terms they judge by. -/
def contractView (c : Contract) (s : State) (viewer : Option MemberId) : ContractView :=
  let isValidator := viewerIsValidator s viewer
  let full := isParty viewer c || isValidator
  let isNamedArbiter :=
    (viewer.bind fun v => c.arb.map fun t => t.arbiters.contains v).getD false
  let arbAccess := full || isNamedArbiter
  { id := c.id
    debtor := if full then some c.debtor else none
    creditor := if full then some c.creditor else none
    outstanding := visibleMinor s c.outstanding full
    original := visibleMinor s c.original full
    status := contractStatusStr c.status
    maturityEpoch := c.maturityEpoch
    createdEpoch := c.createdEpoch
    acceptedEpoch := c.acceptedEpoch
    insured := c.insured
    arb := if arbAccess then
        some (c.arb.map fun t =>
          { arbiters := t.arbiters.toList, quorum := t.quorum, windowEpochs := t.windowEpochs
            awardCap := t.awardCap })
      else none
    arbAttested := if arbAccess then some c.arbAttestations.keys else none
    arbAwarded := if arbAccess then some c.arbAwarded else none }

/-! ### One member -/

structure SupplyView where
  declared : F64
  committed : F64

structure BackerView where
  member : MemberId
  amount : F64

structure GuardianView where
  guardians : List MemberId
  threshold : Nat
  vetoWindowEpochs : Nat

structure OperationBondView where
  encumbered : F64
  headroom : F64
  unit : F64
  freeRemaining : Nat
  established : Bool
  seatReach : F64
  seatSlot : Bool
  saturatedEpochs : Nat

/-- A listing, seen from either end. -/
structure ListingView where
  member : MemberId
  weight : F64
  approved : Bool
  /-- Nothing limits what drains to oneself. -/
  drainCap : Option F64

structure MemberView where
  id : MemberId
  address : String
  keys : Option (List String)
  status : String
  capacity : F64
  conferrable : F64
  debt : F64
  isValidator : Bool
  joinedEpoch : Nat
  owes : List ContractView
  owed : List ContractView
  supply : Option SupplyView
  backers : List BackerView
  openDefault : Option Nat
  dIn : Option F64
  dOut : Option F64
  guardian : Option (Option GuardianView)
  /-- The epoch in which a pending rotation was opened. -/
  pendingRotation : Option (Option Nat)
  operationBond : Option OperationBondView
  beneficiaries : Option (List ListingView)
  supporters : Option (List ListingView)

/-- How much of a seat's price `id` can still carry. -/
def seatReachMinor (s : State) (id : MemberId) : Nat :=
  Flow.capacityWithOwnSupply s.edges s.seatReserved s.seatCommitted s.uw [id] s.flowN u64Max

/-- Is a contract between two members that the viewer may see together? -/
def edgeVisible (fullAccess : Bool) (viewer : Option MemberId) (c : Contract) : Bool :=
  fullAccess || isParty viewer c

/-- Is a contract listed under its parties? -/
def listed (c : Contract) : Bool := decide (c.status ≠ .settled ∧ c.status ≠ .transferred)

/-- The contracts of a member on one side, as far as the viewer may see them there. -/
def contractsOf (side : Contract → MemberId) (s : State) (id : MemberId) (viewer : Option MemberId)
    (fullAccess : Bool) : List ContractView :=
  ((s.contracts.vals.filter fun c => decide (side c = id) && listed c).filter
    (edgeVisible fullAccess viewer)).map fun c => contractView c s viewer

/-- How much may drain between two members: what the pair has staked in one another. -/
def drainCap (s : State) (id other : MemberId) (fullAccess : Bool) : F64 :=
  let pair := min (OrdMap.getD' s.edges (id, other) 0 + OrdMap.getD' s.edges (other, id) 0) u64Max
  visibleAmount s (F64.ofNat 1 * fromMinor pair) fullAccess

/-- One member. -/
def member (s : State) (id : MemberId) (viewer : Option MemberId) : Except String MemberView :=
  match s.members[id]? with
  | none => .error "unknown member"
  | some m =>
    let isValidator := viewerIsValidator s viewer
    let fullAccess := isValidator || decide (viewer = some id)
    let reputationVisible := viewer.isSome
    let isNamedGuardian :=
      (viewer.bind fun v => m.guardian.map fun g => g.guardians.contains v).getD false
    let relationshipAccess := fullAccess || isNamedGuardian
    .ok
      { id := m.id
        address := memberAddress sha256 m
        keys := if viewer.isSome then some (m.keys.map hex32) else none
        status := statusStr m.status
        capacity := visibleAmount s (fromMinor (s.capacityOfMinor id)) fullAccess
        conferrable := visibleAmount s (s.conferrable id) fullAccess
        debt := visibleMinor s m.debtOut fullAccess
        isValidator := s.validators.contains id
        joinedEpoch := m.joinedEpoch
        owes := contractsOf Contract.debtor s id viewer fullAccess
        owed := contractsOf Contract.creditor s id viewer fullAccess
        supply := s.underwriters[id]?.map fun supply =>
          { declared := fromMinor supply, committed := fromMinor (s.supplyFloor id) }
        backers := (s.edges.toList.filter fun p => decide (p.1.2 = id)).map fun p =>
          { member := p.1.1, amount := visibleAmount s (fromMinor p.2) fullAccess }
        openDefault := if reputationVisible then some m.rep.openDefault else none
        dIn := if reputationVisible then some m.rep.dIn else none
        dOut := if reputationVisible then some m.rep.dOut else none
        guardian := if relationshipAccess then
            some (m.guardian.map fun g =>
              { guardians := g.guardians.toList, threshold := g.threshold
                vetoWindowEpochs := g.vetoWindowEpochs })
          else none
        pendingRotation := if relationshipAccess then
            some (m.pendingRotation.map PendingRotation.openedEpoch)
          else none
        operationBond := if fullAccess then
            some
              { encumbered := visibleMinor s m.bondEnc fullAccess
                headroom := visibleAmount s (fromMinor (s.bondHeadroomMinor id)) fullAccess
                unit := visibleAmount s s.params.bondUnit fullAccess
                freeRemaining := Bond.freeRemaining s id
                established := Bond.established s id
                seatReach := visibleAmount s (fromMinor (seatReachMinor s id)) fullAccess
                seatSlot := m.seatSlot
                saturatedEpochs := m.bondSaturatedEpochs }
          else none
        beneficiaries := if fullAccess then
            some (m.beneficiaries.toList.map fun p =>
              { member := p.1
                weight := p.2
                approved := decide (p.1 = id) ||
                  (s.members[p.1]?.map fun b => b.approvedSupporters.contains id).getD false
                drainCap := if p.1 = id then none else some (drainCap s id p.1 fullAccess) })
          else none
        supporters := if fullAccess then
            some (m.supportersOf.toList.map fun listing =>
              { member := listing
                weight := (s.members[listing]?.bind fun l => l.beneficiaries[id]?).getD
                  (F64.zero false)
                approved := m.approvedSupporters.contains listing
                drainCap := some (drainCap s id listing fullAccess) })
          else none }

end Views

end Edet.View
