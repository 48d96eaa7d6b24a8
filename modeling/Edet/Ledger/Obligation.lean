import Edet.Ledger.Loss

/-!
# Opening, moving and discharging obligations

The helpers the transitions share: who a party is (`resolve`, `requireSigned`), how a
fresh key gets a row (`seatPair`), and what can happen to an obligation. It is opened
(`book`, `openObligation`), its hold follows what it owes (`rehold`), a repayment
earns the creditor a stake on the debtor (`dischargeCredit`), it is netted
(`dischargeHop`), and past maturity the underwriters behind it take the creditor's
place (`substitute`).

Each refuses where the source returns an error, in the state reached by then.
-/

namespace Edet

open Edet.Flow

/-- A side of a new obligation once its key was looked up. -/
inductive Resolved
  | existing (id : MemberId)
  | fresh (key : Key)
deriving DecidableEq

namespace Apply

/-! ### Lookups -/

def findMember (s : State) (id : MemberId) : Res Member :=
  match s.members[id]? with
  | some m => .ok m
  | none => .error .memUnknown

def findContract (s : State) (id : ContractId) : Res Contract :=
  match s.contracts[id]? with
  | some c => .ok c
  | none => .error .ctrUnknown

def member (id : MemberId) : Tr Member := Op.check (findMember · id)

/-- Write a member's row, which must be there. -/
def memberMut (id : MemberId) (f : Member → Member) : Tr Unit := do
  let _ ← member id
  Op.write (·.modMember id f)

def contract (id : ContractId) : Tr Contract := Op.check (findContract · id)

/-- Write a contract, which must be there. -/
def contractMut (id : ContractId) (f : Contract → Contract) : Tr Unit := do
  let _ ← contract id
  Op.write (·.modContract id f)

/-- What `debtor` would owe with `amount` more, where that still fits. -/
def debtAfter (s : State) (debtor : MemberId) (amount : Nat) : Res Nat :=
  match findMember s debtor with
  | .error e => .error e
  | .ok m => if m.debtOut + amount < 2 ^ 64 then .ok (m.debtOut + amount) else .error .ctrBadAmount

/-- Is the key spoken for: as a member key, a consensus key or in a pending rotation? -/
def keyIsClaimed (s : State) (key : Key) : Bool :=
  s.keyIndex.contains key ||
    s.members.toList.any fun p =>
      p.2.consensusKey = some key ||
        match p.2.pendingRotation with
        | none => false
        | some r => r.newKeys.contains key

/-! ### Signatures -/

def requireSigned (s : State) (id : MemberId) (signers : List Key) : Res Unit :=
  match findMember s id with
  | .error e => .error e
  | .ok m => if signers.any (m.hasKey ·) then .ok () else .error .memNotSigner

def requireActive (s : State) (id : MemberId) : Res Unit :=
  match findMember s id with
  | .error e => .error e
  | .ok m => if m.status = .active then .ok () else .error .memNotActive

/-- How many of the guardians signed. -/
def signingGuardians (s : State) (cfg : GuardianConfig) (signers : List Key) : Nat :=
  cfg.guardians.toList.countP fun g => (requireSigned s g signers).isOk

/-- The member signed, or enough of its guardians did. -/
def signedOrGuardians (s : State) (id : MemberId) (signers : List Key) : Res Unit :=
  if (requireSigned s id signers).isOk then .ok ()
  else
    match findMember s id with
    | .error e => .error e
    | .ok m =>
      match m.guardian with
      | none => .error .memNotSigner
      | some cfg =>
        if cfg.threshold ≤ signingGuardians s cfg signers then .ok () else .error .memNotSigner

/-- Who a party is. A key without a row must sign and must be free. -/
def resolve (s : State) (party : Party) (signers : List Key) : Res Resolved :=
  match party with
  | .member id =>
    match findMember s id with
    | .error e => .error e
    | .ok _ => .ok (.existing id)
  | .key k =>
    match s.memberOfKey k with
    | some id => .ok (.existing id)
    | none =>
      if keyIsClaimed s k then .error .admDupKey
      else if ¬signers.contains k then .error .memNotSigner
      else .ok (.fresh k)

/-- A party with a row must sign and be active. -/
def requireParty (s : State) (party : Resolved) (signers : List Key) : Res Unit :=
  match party with
  | .fresh _ => .ok ()
  | .existing id =>
    match requireSigned s id signers with
    | .error e => .error e
    | .ok _ => requireActive s id

/-! ### Seats -/

/-- Reserve a seat for every fresh party. If one cannot be had, those taken go back. -/
def reserveSeats (sponsor : Option MemberId) :
    List Resolved → List (MemberId × Held) → Tr (List (MemberId × Held))
  | [], held => pure held
  | .existing _ :: parties, held => reserveSeats sponsor parties held
  | .fresh _ :: parties, held =>
    match sponsor with
    | none => Op.refuse .bondNoPayer
    | some sponsor => do
      let got ← Op.draw (·.reserveSeat sponsor)
      match got with
      | some h => reserveSeats (some sponsor) parties (held ++ [(sponsor, h)])
      | none => do
        Op.write fun s => held.foldl (fun s p => s.releaseSeat p.2) s
        Op.refuse .bondSeatUnbacked

/-- The row of a party, opened on the next of the seats taken if it is fresh. -/
def seatParty (party : Resolved) (taken : List (MemberId × Held)) :
    Tr (MemberId × List (MemberId × Held)) :=
  match party, taken with
  | .existing id, taken => pure (id, taken)
  | .fresh k, (sponsor, held) :: taken => do
    let id ← Op.draw (·.newAccount [k])
    Op.write (·.modMember id fun row =>
      { row with seat := some { sponsor, held }, seatSlot := true })
    pure (id, taken)
  -- One reservation was taken for each fresh party.
  | .fresh _, [] => Op.refuse .bondNoPayer

/-- The rows of two parties: both reservations first, then both rows. -/
def seatPair (first second : Resolved) (sponsor : Option MemberId) :
    Tr (MemberId × MemberId) := do
  let held ← reserveSeats sponsor [first, second] []
  let (a, taken) ← seatParty first held
  let (b, _) ← seatParty second taken
  pure (a, b)

/-! ### Holds and stakes -/

/-- A creditor repaid `amount` so far by `debtor` stakes it on the debtor. -/
def dischargeCredit (debtor creditor : MemberId) (amount : Nat) (s : State) : State :=
  if amount ≤ s.params.dustMinor then s
  else s.recordStake creditor debtor amount (s.conferrableMinor creditor)

/-- Bring a contract's hold down to what the contract owes. -/
def rehold (id : ContractId) : Tr Unit := do
  let c ← contract id
  if ¬c.insured then pure ()
  else
    let want := if c.status.live then c.outstanding else 0
    let total := c.held.amount
    if 0 < total then
      let keep := min want total
      if keep = total then pure ()
      else do
        let pieces := Loss.shrink c.held c.debtor keep total
        Op.write (·.releaseCapacity pieces.2)
        contractMut id fun c => { c with held := pieces.1 }
    else do
      let dust ← Op.ask (·.params.dustMinor)
      if dust < want then do
        let held ← Op.draw (·.reserveCapacityMinor c.debtor want)
        match held with
        | some h => contractMut id fun c => { c with held := h }
        | none => contractMut id fun c => { c with held := {}, insured := false }
      else pure ()

/-- Write a new obligation, with the hold it comes with. -/
def openObligation (debtor creditor : MemberId) (amount maturityEpoch : Nat)
    (arb : Option ArbTerms) (held : Option Held) (acceptedEpoch : Nat) : Tr ContractId := do
  let debtOut ← Op.check (debtAfter · debtor amount)
  let id ← Op.ask State.nextContract
  Op.write fun s =>
    { s with
      nextContract := id + 1
      contracts := s.contracts.insert id
        { id, debtor, creditor, outstanding := amount, original := amount, maturityEpoch,
          createdEpoch := s.epoch, acceptedEpoch, insured := held.isSome,
          held := held.getD {}, arb } }
  memberMut debtor fun d =>
    { d with debtOut, rep := { d.rep with dIn := d.rep.dIn + fromMinor amount } }
  pure id

/-- Reserve `amount` on a debtor where cover is `allowed`. -/
def reserveIf (allowed : Bool) (debtor : MemberId) (amount : Nat) : Tr (Option Held) :=
  if allowed then Op.draw (·.reserveCapacityMinor debtor amount) else pure none

/-- Open an obligation accepted now, insured if it matures inside the horizon and the
debtor's capacity bears it. -/
def book (debtor creditor : MemberId) (amount maturityEpoch : Nat) (arb : Option ArbTerms) :
    Tr ContractId := do
  let _ ← Op.check (debtAfter · debtor amount)
  let inside ← Op.ask fun s =>
    decide (maturityEpoch ≤ horizon s.epoch s.params.insuredHorizonEpochs)
  let held ← reserveIf inside debtor amount
  let epoch ← Op.ask State.epoch
  openObligation debtor creditor amount maturityEpoch arb held epoch

/-- May the contract still be insured on another debtor? -/
def withinInsuredHorizon (s : State) (c : Contract) : Prop :=
  c.maturityEpoch ≤ horizon c.acceptedEpoch s.params.insuredHorizonEpochs

instance (s : State) (c : Contract) : Decidable (withinInsuredHorizon s c) :=
  inferInstanceAs (Decidable (_ ≤ _))

/-- The hold a moved obligation gets: the one handed over, or a new one where cover is
`allowed`. -/
def successorHold (held : Option Held) (allowed : Bool) (newDebtor : MemberId) (amount : Nat) :
    Tr (Option Held) :=
  match held with
  | some h => pure (some h)
  | none => reserveIf allowed newDebtor amount

/-- Hand an obligation to another debtor: the old contract closes and a new one opens. -/
def moveDebtor (c : Contract) (newDebtor : MemberId) (held : Option Held) : Tr Unit := do
  let amount := c.outstanding
  let _ ← Op.check (debtAfter · newDebtor amount)
  Op.write (·.releaseCapacity c.held)
  memberMut c.debtor fun old => { old with debtOut := old.debtOut - amount }
  contractMut c.id fun cm =>
    { cm with status := .transferred, outstanding := 0, held := {}, insured := false }
  let inside ← Op.ask fun s => decide (withinInsuredHorizon s c)
  let held ← successorHold held inside newDebtor amount
  let _ ← openObligation newDebtor c.creditor amount c.maturityEpoch none held c.acceptedEpoch
  pure ()

/-! ### Substitution -/

/-- The claim of an underwriter on the defaulted debtor, with its piece of the hold. -/
def subrogatedClaim (original : Contract) (underwriter : MemberId) (amount : Nat)
    (held : Held) (s : State) : State :=
  { s with
    nextContract := s.nextContract + 1
    contracts := s.contracts.insert s.nextContract
      { id := s.nextContract, debtor := original.debtor, creditor := underwriter,
        outstanding := amount, original := amount, maturityEpoch := original.maturityEpoch,
        status := .expired, createdEpoch := original.createdEpoch,
        acceptedEpoch := original.acceptedEpoch, insured := true, held } }

/-- What an underwriter owes the creditor in the debtor's place. -/
def substitutionLeg (underwriter creditor : MemberId) (amount maturityEpoch : Nat) : Tr Unit := do
  if amount = 0 then pure ()
  else do
    let debtOut ← Op.check (debtAfter · underwriter amount)
    Op.write fun s =>
      { s with
        nextContract := s.nextContract + 1
        contracts := s.contracts.insert s.nextContract
          { id := s.nextContract, debtor := underwriter, creditor, outstanding := amount,
            original := amount, maturityEpoch, createdEpoch := s.epoch,
            acceptedEpoch := s.epoch, insured := false } }
    memberMut underwriter fun m =>
      { m with debtOut, rep := { m.rep with dIn := m.rep.dIn + fromMinor amount } }

/-- One underwriter's part of a substitution: its claim on the debtor, what it holds of
the arcs, and how much it takes over. -/
structure Share where
  underwriter : MemberId
  amount : Nat
  held : Held

/-- The shares of a contract's underwriters. What the contract owes beyond its hold goes
to the first of them. -/
def shares (c : Contract) : List Share :=
  let residual := c.outstanding - c.held.amount
  ((c.held.supply.zip (Loss.edgePieces c.held c.debtor)).zipIdx).map fun p =>
    { underwriter := p.1.1.1
      amount := if p.2 = 0 then p.1.1.2 + residual else p.1.1.2
      held := { edges := p.1.2, supply := [p.1.1] } }

/-- The leg of one share; the creditor's own share needs none. -/
def substituteLeg (c : Contract) (maturityEpoch : Nat) (share : Share) : Tr Unit :=
  if share.underwriter ≠ c.creditor then
    substitutionLeg share.underwriter c.creditor share.amount maturityEpoch
  else pure ()

/-- Put the underwriters behind a defaulted obligation in its creditor's place: the
contract itself becomes the first one's claim, the others get a claim each, and each
owes the creditor what it took over. -/
def substitute (id : ContractId) : Tr Unit := do
  let c ← contract id
  if ¬c.insured ∨ c.held.supply.isEmpty then pure ()
  else if c.held.supply.all (fun p => p.1 = c.creditor) then pure ()
  else if c.held.amount = 0 then pure ()
  else if c.held.supply.any (fun p => p.1 = c.debtor) then pure ()
  else do
    let maturityEpoch ← Op.ask fun s => horizon s.epoch s.params.minMaturityEpochs
    match shares c with
    | [] => pure ()
    | first :: rest => do
      contractMut id fun cm =>
        { cm with creditor := first.underwriter, outstanding := first.amount,
                  original := first.amount, held := first.held }
      substituteLeg c maturityEpoch first
      rest.forM fun share => do
        Op.write (subrogatedClaim c share.underwriter share.amount share.held)
        substituteLeg c maturityEpoch share

/-- A contract that may be declared in default: active, past maturity and above dust. -/
def expirable (id : ContractId) : Tr Contract := do
  let c ← contract id
  Op.refuseIf (c.status ≠ .active) .ctrBadState
  let notDue ← Op.ask fun s =>
    decide (s.epoch ≤ c.maturityEpoch ∨ c.outstanding ≤ s.params.dustMinor)
  Op.refuseIf notDue .ctrNotDue
  pure c

/-- Declare a contract past maturity in default. -/
def markExpired (id : ContractId) : Tr Unit := do
  let c ← expirable id
  contractMut id fun cm => { cm with status := .expired }
  memberMut c.debtor fun m =>
    { m with rep := { m.rep with openDefault := m.rep.openDefault + c.outstanding } }
  substitute id

/-! ### Netting -/

/-- Discharge up to `want` of a contract against a claim the other way: the hold
shrinks, and the creditor earns its stake. -/
def dischargeHop (id : ContractId) (want : Nat) : Tr Nat := do
  let dust ← Op.ask (·.params.dustMinor)
  let c ← contract id
  let take := min want c.outstanding
  if take ≤ dust then pure 0
  else do
    let closes := c.outstanding - take ≤ dust
    let left := if closes then 0 else c.outstanding - take
    let cleared := c.outstanding - left
    contractMut id fun cm =>
      { cm with
        outstanding := left
        status := if closes then (if c.status = .expired then .cured else .settled) else cm.status }
    memberMut c.debtor fun d =>
      { d with
        debtOut := d.debtOut - cleared
        rep := { d.rep with
          dOut := d.rep.dOut + fromMinor take
          openDefault :=
            if c.status = .expired then d.rep.openDefault - cleared else d.rep.openDefault } }
    rehold id
    Op.write (dischargeCredit c.debtor c.creditor (c.original - (c.outstanding - cleared)))
    pure take

/-- Net up to `budget` along a list of contracts, in order. -/
def netMutual (budget : Nat) : List ContractId → Nat → Tr Nat
  | [], netted => pure netted
  | id :: ids, netted => do
    let dust ← Op.ask (·.params.dustMinor)
    let left := budget - netted
    if left ≤ dust then pure netted
    else do
      let took ← dischargeHop id left
      netMutual budget ids (netted + took)

end Apply

end Edet
