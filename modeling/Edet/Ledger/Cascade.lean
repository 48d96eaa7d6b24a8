import Edet.Kernel.Cascade
import Edet.Ledger.Obligation

/-!
# Sales

A sale first nets what the seller owes the buyer, then lets the buyer take over debts
of the seller, or of the beneficiaries the seller lists, level by level
(`drainLevel`), and books what is left as the buyer's own debt to the seller.

A debt taken over is cleared against its old debtor at once (`clearMemberDebts`) and
gathered in `Assumed` by creditor and maturity, together with the hold reserved for it
on the buyer, until the sale opens one obligation for each creditor and maturity.
-/

namespace Edet.Cascade

open Edet.Flow Apply

/-- What the buyer has taken over so far, by creditor and maturity: the amount, the hold
behind it and the earliest acceptance. -/
abbrev Assumed := OrdMap (MemberId × Nat) (Nat × Held × Nat)

/-- Two holds as one. -/
def mergeHeld (into add : Held) : Held :=
  { edges := (addAll (Std.ExtTreeMap.ofList into.edges) add.edges).toList
    supply := (addAll (Std.ExtTreeMap.ofList into.supply) add.supply).toList }

/-- Take `amount` over into `assumed`. -/
def assume (assumed : Assumed) (creditor due amount accepted : Nat) (held : Held) : Assumed :=
  let slot := OrdMap.getD' assumed (creditor, due) (0, {}, u64Max)
  assumed.insert (creditor, due)
    (slot.1 + amount, mergeHeld slot.2.1 held, min slot.2.2 accepted)

/-- Let the buyer take over up to `budget` of a member's debts, oldest first. A debt the
buyer could not insure is passed over. -/
def clearDebts (buyer : MemberId) (budget saleMaturity : Nat) :
    List ContractId → Nat → Assumed → Tr (Nat × Assumed)
  | [], spent, assumed => pure (spent, assumed)
  | id :: ids, spent, assumed => do
    let dust ← Op.ask (·.params.dustMinor)
    let left := budget - spent
    if left ≤ dust then pure (spent, assumed)
    else do
      let c ← contract id
      let take := min c.outstanding left
      let due := min c.maturityEpoch saleMaturity
      let last ← Op.ask fun s => horizon c.acceptedEpoch s.params.insuredHorizonEpochs
      if take ≤ dust ∨ last < due then
        clearDebts buyer budget saleMaturity ids spent assumed
      else do
        let room ← Op.ask (·.insurableMinorAfterRelease buyer take c.held)
        let take := min take room
        if take ≤ dust then clearDebts buyer budget saleMaturity ids spent assumed
        else do
          Op.write (·.releaseCapacity c.held)
          contractMut id fun cm => { cm with held := {} }
          let got ← Op.draw (·.reserveCapacityMinor buyer take)
          match got with
          | none => do
            -- The room was there a moment ago; put the old hold back.
            rehold id
            clearDebts buyer budget saleMaturity ids spent assumed
          | some successorHeld => do
            let closes := c.outstanding - take ≤ dust
            let left := if closes then 0 else c.outstanding - take
            contractMut id fun cm =>
              { cm with
                outstanding := left
                status := if closes then .transferred else cm.status }
            memberMut c.debtor fun d =>
              { d with
                debtOut := d.debtOut - (c.outstanding - left)
                rep := { d.rep with dOut := d.rep.dOut + fromMinor take } }
            rehold id
            clearDebts buyer budget saleMaturity ids (spent + take)
              (assume assumed c.creditor due take c.acceptedEpoch successorHeld)

/-- The debts of `debtor` a buyer may take over. -/
def clearable (s : State) (debtor buyer : MemberId) : List ContractId :=
  (s.contracts.toList.filter fun p =>
    p.2.status = .active ∧ p.2.debtor = debtor ∧ p.2.creditor ≠ buyer ∧
      s.params.dustMinor < p.2.outstanding).map Prod.fst

def clearMemberDebts (debtor buyer : MemberId) (budget saleMaturity : Nat) (assumed : Assumed) :
    Tr (Nat × Assumed) := do
  let ids ← Op.ask (clearable · debtor buyer)
  clearDebts buyer budget saleMaturity ids 0 assumed

/-- The stakes between two members, both ways. -/
def pairStake (s : State) (a b : MemberId) : Nat :=
  min (OrdMap.getD' s.edges (a, b) 0 + OrdMap.getD' s.edges (b, a) 0) u64Max

/-- Whom a lister's budget may reach at this level, how far, and with what weight. -/
def drainTargets (s : State) (lister : MemberId) (visited : List MemberId) (self : Member) :
    List (MemberId × Nat × F64) :=
  self.beneficiaries.toList.filterMap fun (b, w) =>
    if b ∈ visited ∨ w ≤ F64.zero false then none
    else if b = lister then some (b, self.debtOut, w)
    else
      match s.members[b]? with
      | none => none
      | some bm =>
        if ¬bm.approvedSupporters.contains lister then none
        else
          some (b, min (pairStake s lister b * Constants.nuDrainNum / Constants.nuDrainDen) u64Max, w)

mutual

/-- Divide a budget over the beneficiaries of `lister`, clear the debts of each, and go
on to their own beneficiaries with what they could not use. The recursion is bounded by
`depth`, counted down from the deepest level allowed. -/
def drainLevel (buyer : MemberId) (saleMaturity : Nat) :
    Nat → MemberId → Nat → List MemberId → Assumed → Tr (Nat × List MemberId × Assumed)
  | 0, _, _, visited, assumed => pure (0, visited, assumed)
  | depth + 1, lister, budget, visited, assumed => do
    let dust ← Op.ask (·.params.dustMinor)
    if budget ≤ dust then pure (0, visited, assumed)
    else do
      let self ← member lister
      let targets ← Op.ask (drainTargets · lister visited self)
      if targets.isEmpty then pure (0, visited, assumed)
      else
        let alloc := waterfillMinor (targets.map Prod.snd) budget
        drainTargetsLoop buyer saleMaturity depth lister
          ((targets.map Prod.fst).zip alloc) 0 visited assumed

/-- The targets of one level, one after the other. -/
def drainTargetsLoop (buyer : MemberId) (saleMaturity depth : Nat) (lister : MemberId) :
    List (MemberId × Nat) → Nat → List MemberId → Assumed →
      Tr (Nat × List MemberId × Assumed)
  | [], absorbed, visited, assumed => pure (absorbed, visited, assumed)
  | (b, share) :: rest, absorbed, visited, assumed => do
    let dust ← Op.ask (·.params.dustMinor)
    if share ≤ dust ∨ b ∈ visited then
      drainTargetsLoop buyer saleMaturity depth lister rest absorbed visited assumed
    else do
      let visited := b :: visited
      let (cleared, assumed) ← clearMemberDebts b buyer share saleMaturity assumed
      let leftover := share - cleared
      if b ≠ lister ∧ dust < leftover then do
        let (deeper, visited, assumed) ←
          drainLevel buyer saleMaturity depth b leftover visited assumed
        drainTargetsLoop buyer saleMaturity depth lister rest (absorbed + cleared + deeper)
          visited assumed
      else
        drainTargetsLoop buyer saleMaturity depth lister rest (absorbed + cleared) visited assumed

end

/-- Open the obligations the buyer has taken over; what is dust goes back. -/
def openAssumed (buyer : MemberId) (dust : Nat) (slot : (MemberId × Nat) × Nat × Held × Nat) :
    Tr Unit := do
  let ((creditor, due), amount, held, accepted) := slot
  if dust < amount then do
    let _ ← openObligation buyer creditor amount due none (some held) accepted
    pure ()
  else Op.write (·.releaseCapacity held)

/-- What the seller owes the buyer, oldest first. -/
def netCandidates (s : State) (seller buyer : Resolved) : List ContractId :=
  match seller, buyer with
  | .existing a, .existing b =>
    (s.contracts.toList.filter fun p =>
      p.2.status.live ∧ p.2.debtor = a ∧ p.2.creditor = b ∧
        s.params.dustMinor < p.2.outstanding).map Prod.fst
  | _, _ => []

/-- How much of `amount` netting will take. -/
def nettable (s : State) (amount : Nat) : List ContractId → Nat → Nat
  | [], sofar => sofar
  | id :: ids, sofar =>
    let left := amount - sofar
    if left ≤ s.params.dustMinor then sofar
    else
      match s.contracts[id]? with
      | none => nettable s amount ids sofar
      | some c => nettable s amount ids (sofar + min c.outstanding left)

/-- A seller's status, once it has signed; a fresh one is active. -/
def sellerStatus (s : State) (seller : Resolved) (signers : List Key) : Res MemberStatus :=
  match seller with
  | .fresh _ => .ok .active
  | .existing id =>
    match requireSigned s id signers with
    | .error e => .error e
    | .ok _ =>
      match findMember s id with
      | .error e => .error e
      | .ok m => .ok m.status

/-- The debts a buyer takes over with its budget: the seller's own, or those of the
beneficiaries the seller lists. -/
def takeOver (seller buyer : MemberId) (budget saleMaturity : Nat) : Tr (Nat × Assumed) := do
  let dust ← Op.ask (·.params.dustMinor)
  if budget ≤ dust then pure (0, ∅)
  else do
    let self ← member seller
    if self.beneficiaries.isEmpty then
      clearMemberDebts seller buyer budget saleMaturity ∅
    else do
      let drained ← drainLevel buyer saleMaturity Constants.maxCascadeDepth seller budget [buyer] ∅
      pure (drained.1, drained.2.2)

/-- What is left of a sale after netting: debts the buyer takes over, then a debt of its
own. -/
def originate (seller buyer : MemberId) (budget saleMaturity : Nat) : Tr Unit := do
  let dust ← Op.ask (·.params.dustMinor)
  let (spent, assumed) ← takeOver seller buyer budget saleMaturity
  assumed.toList.forM (openAssumed buyer dust)
  if dust < budget - spent then do
    let _ ← book buyer seller (budget - spent) saleMaturity none
    pure ()
  else pure ()

/-- A sale once everything it is checked for has passed. -/
structure SaleTerms where
  seller : Resolved
  buyer : Resolved
  status : MemberStatus
  amount : Nat
  candidates : List ContractId

/-- What a sale is checked for before anything is written. -/
def saleTerms (seller buyer : Party) (amount : F64) (maturityEpochs : Nat) (signers : List Key) :
    Tr SaleTerms := do
  let seller ← Op.check (resolve · seller signers)
  let buyer ← Op.check (resolve · buyer signers)
  Op.refuseIf (seller = buyer) .ctrSelfDeal
  let status ← Op.check (sellerStatus · seller signers)
  Op.refuseIf (status = .exited) .memNotActive
  Op.check (requireParty · buyer signers)
  let badAmount ← Op.ask fun s => decide (amount ≤ s.params.dust ∨ ¬amountRepresentable amount)
  Op.refuseIf badAmount .ctrBadAmount
  let amount := toMinor amount
  let tooShort ← Op.ask fun s => decide (maturityEpochs < s.params.minMaturityEpochs)
  Op.refuseIf tooShort .ctrMaturityTooShort
  Op.refuseIf (Constants.maxHorizonEpochs < maturityEpochs) .ctrMaturityTooLong
  let candidates ← Op.ask (netCandidates · seller buyer)
  let beyond ← Op.ask fun s =>
    decide (nettable s amount candidates 0 + s.params.dustMinor < amount)
  -- A suspended seller may net what it owes and originate nothing.
  Op.refuseIf (status = .suspended ∧ beyond) .memSuspendedNoOrigination
  pure { seller, buyer, status, amount, candidates }

def sale (seller buyer : Party) (amount : F64) (maturityEpochs : Nat) (signers : List Key)
    (sponsor : Option MemberId) : Tr Unit := do
  let terms ← saleTerms seller buyer amount maturityEpochs signers
  let (seller, buyer) ← seatPair terms.seller terms.buyer sponsor
  let netted ← netMutual terms.amount terms.candidates 0
  if terms.status = .suspended then pure ()
  else do
    let saleMaturity ← Op.ask fun s => horizon s.epoch maturityEpochs
    originate seller buyer (terms.amount - netted) saleMaturity

end Edet.Cascade
