import Edet.Ledger.Types
import Edet.Library.Refusable

/-!
# Queries and elementary writes

What the state answers about capacity, seats and bonds, and the writes the
transitions are made of: reserving and releasing capacity (`State.reserveCapacityMinor`,
`State.releaseCapacity`), the same against the seat books (`State.reserveSeat`,
`State.releaseSeat`), staking (`State.recordStake`), opening an account
(`State.newAccount`) and the set of applied transaction ids.

A redenomination is `State.rescaleWith`, written over the function that rescales one
amount; the ledger runs it with `scaleMinor`, which multiplies in binary64 and floors.
-/

namespace Edet

open Edet.Flow

/-- A transition of the ledger. -/
abbrev Tr := Op State Code

/-- `u64::MAX`, the limit of an unlimited query. -/
def u64Max : Nat := 2 ^ 64 - 1

/-- An epoch `delta` after `base`, saturating. -/
def horizon (base delta : Nat) : Nat := min (base + delta) u64Max

namespace State

/-! ### Capacity -/

/-- Accounts are numbered below this. -/
def flowN (s : State) : Nat := s.nextMember

/-- The underwriters as the kernel takes them. -/
def uw (s : State) : Underwriters := s.underwriters.toList

def capacityOfSetMinor (s : State) (ids : List MemberId) : Nat :=
  capacity s.edges s.reserved s.committed s.uw ids s.flowN u64Max

/-- The flow into a set over the gross graph, with nothing reserved or committed. -/
def grossCapacityOfSetMinor (s : State) (ids : List MemberId) : Nat :=
  capacity s.edges ∅ ∅ s.uw ids s.flowN u64Max

def capacityRawMinor (s : State) (id : MemberId) : Nat := s.capacityOfSetMinor [id]

def capacityOfMinor (s : State) (id : MemberId) : Nat :=
  match s.members[id]? with
  | none => 0
  | some m => if m.status = .active then s.capacityRawMinor id else 0

def conferrableMinor (s : State) (id : MemberId) : Nat :=
  Flow.conferrable s.edges s.reserved s.committed s.uw id s.flowN

def conferrable (s : State) (id : MemberId) : F64 := fromMinor (s.conferrableMinor id)

/-- How much of the seed stands behind a member, over the gross graph. -/
def seedReachMinor (s : State) (id : MemberId) : Nat :=
  capacity s.edges ∅ ∅ s.uw [id] s.flowN u64Max + OrdMap.getD' s.underwriters id 0

/-- What one seat costs. -/
def seatPriceMinor (s : State) : Nat := s.params.bondUnitMinor

/-- Can `id` seat that many rows, one reservation after the other? -/
def canSeatRows (s : State) (id : MemberId) (unit : Nat) :
    Nat → Reservations → Committed → Bool
  | 0, _, _ => true
  | rows + 1, reserved, committed =>
    match reserveWithOwnSupply s.edges reserved committed s.uw id s.flowN unit with
    | (none, _, _) => false
    | (some _, reserved, committed) => s.canSeatRows id unit rows reserved committed

def canSeatMinor (s : State) (id : MemberId) (rows : Nat) : Bool :=
  let unit := s.seatPriceMinor
  if rows = 0 ∨ unit = 0 then true
  else if rows = 1 then
    unit ≤ capacityWithOwnSupply s.edges s.seatReserved s.seatCommitted s.uw [id] s.flowN unit
  else s.canSeatRows id unit rows s.seatReserved s.seatCommitted

/-- Reserve the price of one seat against the sponsor's reach. -/
def reserveSeat (s : State) (sponsor : MemberId) : Option Held × State :=
  let want := s.seatPriceMinor
  if want = 0 then (some {}, s)
  else
    let (held, reserved, committed) :=
      reserveWithOwnSupply s.edges s.seatReserved s.seatCommitted s.uw sponsor s.flowN want
    (held, { s with seatReserved := reserved, seatCommitted := committed })

def releaseSeat (s : State) (held : Held) : State :=
  let (reserved, committed) := release s.seatReserved s.seatCommitted held
  { s with seatReserved := reserved, seatCommitted := committed }

/-- How much of `want` the debtor could insure if `held` were given back first. -/
def insurableMinorAfterRelease (s : State) (debtor : MemberId) (want : Nat) (held : Held) : Nat :=
  if want = 0 then 0
  else
    match s.members[debtor]? with
    | none => 0
    | some m =>
      if m.status = .active then
        let (reserved, committed) := release s.reserved s.committed held
        capacity s.edges reserved committed s.uw [debtor] s.flowN want
      else 0

def fitsCapacityMinorAfterRelease (s : State) (debtor : MemberId) (want : Nat) (held : Held) :
    Prop :=
  want ≤ s.insurableMinorAfterRelease debtor want held

instance (s : State) (debtor : MemberId) (want : Nat) (held : Held) :
    Decidable (s.fitsCapacityMinorAfterRelease debtor want held) :=
  inferInstanceAs (Decidable (_ ≤ _))

/-- Reserve `want` towards a debtor. -/
def reserveCapacityMinor (s : State) (debtor : MemberId) (want : Nat) : Option Held × State :=
  if want = 0 then (some {}, s)
  else
    let (held, reserved, committed) :=
      reserve s.edges s.reserved s.committed s.uw debtor s.flowN want
    (held, { s with reserved, committed })

/-- Give a hold back. -/
def releaseCapacity (s : State) (held : Held) : State :=
  let (reserved, committed) := release s.reserved s.committed held
  { s with reserved, committed }

/-- What `underwriter` may not lower its supply below. -/
def supplyFloor (s : State) (underwriter : MemberId) : Nat :=
  Flow.supplyFloor s.committed underwriter

def recordStake (s : State) (creditor debtor : MemberId) (amount creditorConferrable : Nat) :
    State :=
  { s with edges := stake s.edges creditor debtor amount creditorConferrable }

/-- The declared supplies together. -/
def externalMinor (s : State) : Nat := OrdMap.total (fun _ v => v) s.underwriters

def bondHeadroomMinor (s : State) (id : MemberId) : Nat :=
  match s.members[id]? with
  | none => 0
  | some m =>
    if m.status = .active then
      s.seedReachMinor id - m.debtOut - m.bondEnc - OrdMap.getD' s.forfeitReserve id 0
    else 0

/-! ### Applied transaction ids -/

/-- Forget the buckets whose window has closed. -/
def pruneExpiredAppliedIds (s : State) : State :=
  { s with appliedByExpiry := s.appliedByExpiry.filter fun k _ => decide (¬k < s.epoch) }

def recordApplied (s : State) (txId : TxId) (notAfterEpoch : Nat) : State :=
  { s with
    appliedByExpiry :=
      s.appliedByExpiry.insert notAfterEpoch
        ((OrdMap.getD' s.appliedByExpiry notAfterEpoch ∅).insert txId) }

def isApplied (s : State) (txId : TxId) (notAfterEpoch : Nat) : Bool :=
  match s.appliedByExpiry[notAfterEpoch]? with
  | none => false
  | some ids => ids.contains txId

def forgetApplied (s : State) (txId : TxId) (notAfterEpoch : Nat) : State :=
  match s.appliedByExpiry[notAfterEpoch]? with
  | none => s
  | some bucket =>
    let bucket := bucket.erase txId
    { s with
      appliedByExpiry :=
        if bucket.isEmpty then s.appliedByExpiry.erase notAfterEpoch
        else s.appliedByExpiry.insert notAfterEpoch bucket }

/-- Drop every bond whose release epoch has come. -/
def releaseBonds (s : State) : State :=
  let cutoff := horizon s.epoch 1
  { s with
    members := s.members.map fun _ m =>
      { m with bonds := m.bonds.filter fun k _ => decide (cutoff ≤ k) } }

/-! ### Accounts -/

def memberOfKey (s : State) (key : Key) : Option MemberId := s.keyIndex[key]?

/-- Write one member's row, where there is one. -/
def modMember (s : State) (id : MemberId) (f : Member → Member) : State :=
  { s with members := s.members.modify id f }

/-- Write one contract, where there is one. -/
def modContract (s : State) (id : ContractId) (f : Contract → Contract) : State :=
  { s with contracts := s.contracts.modify id f }

/-- Open an account with the given keys. -/
def newAccount (s : State) (keys : List Key) : MemberId × State :=
  let id := s.nextMember
  (id,
    { s with
      nextMember := id + 1
      keyIndex := keys.foldl (fun m key => m.insert key id) s.keyIndex
      members := s.members.insert id { id, keys, joinedEpoch := s.epoch } })

/-- Does some member sign consensus with this key? -/
def isConsensusKey (s : State) (key : Key) : Bool :=
  s.members.toList.any fun p => p.2.consensusKey = some key

def addUnderwriter (s : State) (keys : List Key) (supply : F64) : Res (MemberId × State) :=
  if keys.isEmpty ∨ keys.any (fun k => s.keyIndex.contains k || s.isConsensusKey k) then
    .error .admDupKey
  else if ¬amountRepresentable supply then .error .ctrBadAmount
  else
    let (id, s) := s.newAccount keys
    let minor := toMinor supply
    .ok (id, if 0 < minor then { s with underwriters := s.underwriters.insert id minor } else s)

/-- Name a founding validator's consensus key. -/
def setGenesisConsensusKey (s : State) (id : MemberId) (key : Key) : Res State :=
  if s.keyIndex.contains key || s.isConsensusKey key then .error .valKeyInUse
  else if s.members.contains id then
    .ok (s.modMember id fun m => { m with consensusKey := some key })
  else .error .memUnknown

def setGenesisValidator (s : State) (id : MemberId) (power : Nat) : Res State :=
  match s.members[id]? with
  | none => .error .valNotEligible
  | some m =>
    if m.status ≠ .active ∨ power = 0 then .error .valNotEligible
    else if m.consensusKey.isNone then .error .valNoConsensusKey
    else .ok { s with validators := s.validators.insert id power }

/-! ### Redenomination -/

end State

/-- One amount, redenominated. -/
def scaleMinor (v : Nat) (pi : F64) : Nat :=
  if ¬pi.isFinite ∨ pi ≤ F64.zero false then 0
  else ((F64.ofNat v * pi).floor.max (F64.zero false)).toU64

/-- A hold with every amount rescaled on its own. -/
def rescaleHeld (scale : Nat → Nat) (held : Held) : Held :=
  { edges := (held.edges.map fun p => (p.1, scale p.2)).filter fun p => decide (0 < p.2)
    supply := (held.supply.map fun p => (p.1, scale p.2)).filter fun p => decide (0 < p.2) }

/-- A seat's hold rescaled route by route, where it has routes. -/
def rescaleSeatHeld (scale : Nat → Nat) (held : Held) (sponsor : MemberId) : Held :=
  match decompose held sponsor with
  | .ok paths => fromPaths (paths.map fun p => { p with value := scale p.value })
  | .error _ => rescaleHeld scale held

/-- Take one unit from the largest claim, the first of equals. -/
def shaveOne (claims : List (ContractId × MemberId × Nat)) : List (ContractId × MemberId × Nat) :=
  match (claims.map fun c => c.2.2).max? with
  | none => claims
  | some top =>
    if top = 0 then claims
    else
      let i := claims.findIdx fun c => c.2.2 = top
      claims.modify i fun c => (c.1, c.2.1, c.2.2 - 1)

namespace State

/-- The live insured contracts of each debtor. -/
def insuredByDebtor (s : State) : OrdMap MemberId (List ContractId) :=
  s.contracts.toList.foldl (fun m p =>
    if p.2.insured ∧ p.2.status.live then
      m.insert p.2.debtor (OrdMap.getD' m p.2.debtor [] ++ [p.2.id])
    else m) ∅

/-- Shave the claims of one debtor's holds down to what their arcs deliver. -/
def shaveDebtor (s : State) (debtor : MemberId) (ids : List ContractId) : State :=
  let holds := ids.filterMap fun id => s.contracts[id]?.map Contract.held
  let arcs : Edges := addAll ∅ (holds.flatMap Held.edges)
  let sources : Committed := addAll ∅ (holds.flatMap Held.supply)
  let claimed := OrdMap.total (fun _ v => v) sources
  if claimed = 0 then s
  else
    let deliverable := capacity arcs ∅ ∅ sources.toList [debtor] s.flowN claimed
    let excess := claimed - deliverable
    if excess = 0 then s
    else
      let claims := ids.flatMap fun id =>
        match s.contracts[id]? with
        | none => []
        | some c => c.held.supply.map fun p => (id, p.1, p.2)
      let claims := (List.range excess).foldl (fun cl _ => shaveOne cl) claims
      let s := claims.foldl (fun s cl =>
        s.modContract cl.1 fun c =>
          { c with
            held := { c.held with
              supply := c.held.supply.modify (c.held.supply.findIdx fun p => p.1 = cl.2.1)
                fun p => (p.1, cl.2.2) } }) s
      ids.foldl (fun s id => s.modContract id fun c =>
        { c with
          held := { c.held with supply := c.held.supply.filter fun p => decide (0 < p.2) } }) s

def shaveHoldsToWhatTheArcsDeliver (s : State) : State :=
  s.insuredByDebtor.toList.foldl (fun s p => s.shaveDebtor p.1 p.2) s

def rebuildReservations (s : State) : State :=
  let holds := s.contracts.toList.map fun p => p.2.held
  { s with
    reserved := OrdMap.positive (addAll ∅ (holds.flatMap Held.edges))
    committed := OrdMap.positive (addAll ∅ (holds.flatMap Held.supply)) }

/-- The holds of the seats, each with its sponsor. -/
def seats (s : State) : List (MemberId × Held) :=
  s.members.toList.filterMap fun p => p.2.seat.map fun seat => (seat.sponsor, seat.held)

def rebuildSeatReservations (s : State) : State :=
  { s with
    seatReserved := OrdMap.positive (addAll ∅ (s.seats.flatMap fun p => p.2.edges))
    seatCommitted := OrdMap.positive (addAll ∅ (s.seats.flatMap fun p => p.2.supply)) }

/-- What a redenomination does to a contract before the claims are shaved. -/
def rescaleContract (scale : Nat → Nat) (c : Contract) : Contract :=
  { c with
    outstanding := scale c.outstanding
    original := scale c.original
    arb := c.arb.map fun a => { a with awardCap := scale a.awardCap }
    arbAttestations := c.arbAttestations.map fun _ v => scale v
    held := rescaleHeld scale c.held }

def rescaleMember (scale : Nat → Nat) (pi : F64) (m : Member) : Member :=
  { m with
    rep := {
      openDefault := scale m.rep.openDefault
      dIn := m.rep.dIn * pi
      dOut := m.rep.dOut * pi }
    bonds := m.bonds.map fun _ v => scale v
    seat := m.seat.map fun seat =>
      { seat with held := rescaleSeatHeld scale seat.held seat.sponsor } }

/-- What an insured contract owes is what its hold delivers; an insured contract whose
hold has nothing left is insured no longer. -/
def settleRescaled (c : Contract) : Contract :=
  if c.insured ∧ c.status.live then
    if c.held.supply.isEmpty then { c with insured := false, held := {} }
    else { c with outstanding := c.held.amount }
  else c

/-- Redenominate, with `scale` for one amount. -/
def rescaleWith (scale : Nat → Nat) (pi : F64) (s : State) : State :=
  let s : State :=
    { s with
      params := s.params.rescale pi
      contracts := s.contracts.map fun _ c => rescaleContract scale c
      members := s.members.map fun _ m => rescaleMember scale pi m
      forfeitReserve := s.forfeitReserve.map fun _ v => scale v
      edges := s.edges.map fun _ v => scale v
      underwriters := s.underwriters.map fun _ v => scale v
      seedAmendedThisEpoch := scale s.seedAmendedThisEpoch }
  let s := s.shaveHoldsToWhatTheArcsDeliver
  let s := { s with contracts := s.contracts.map fun _ c => settleRescaled c }
  let s := s.rebuildReservations.rebuildSeatReservations
  let s := { s with
    edges := OrdMap.positive s.edges
    underwriters := OrdMap.positive s.underwriters }
  let byDebtor : OrdMap MemberId Nat :=
    addAll ∅ ((s.contracts.toList.filter fun p => p.2.status.live).map fun p =>
      (p.2.debtor, p.2.outstanding))
  { s with
    members := s.members.map fun id m => { m with debtOut := OrdMap.getD' byDebtor id 0 } }

/-- Redenominate by the ratio `pi`. -/
def rescale (s : State) (pi : F64) : State := s.rescaleWith (fun v => scaleMinor v pi) pi

end State

end Edet
