import Edet.Ledger.Encoding
import Edet.StateRoot.Definition

/-!
# The encoding of records

What a leaf of the state root commits to is the consensus encoding of its record
(`records`): the one transactions are written in, field after field in the order of
declaration, a map as the sequence of its entries in the order of their keys.

An encoding is written to memory, so that nothing can fail but its size.
-/

namespace Edet.StateRoot

open Encoding

namespace Records

def set (ids : OrdSet Nat) : Bytes := seq u64 ids.toList

def pair {α β : Type} (fst : α → Bytes) (snd : β → Bytes) (p : α × β) : Bytes :=
  fst p.1 ++ snd p.2

def map {κ α : Type} [Ord κ] [Std.TransOrd κ] (enc : κ → Bytes) (value : α → Bytes)
    (m : OrdMap κ α) : Bytes :=
  seq (pair enc value) m.toList

def held (h : Flow.Held) : Bytes :=
  [seq (pair (pair u64 u64) u64) h.edges, seq (pair u64 u64) h.supply].flatten

def memberStatus : MemberStatus → Bytes
  | .active => variant 0
  | .suspended => variant 1
  | .exited => variant 2

def guardianConfig (g : GuardianConfig) : Bytes :=
  [set g.guardians, u32 g.threshold, u64 g.vetoWindowEpochs].flatten

def pendingRotation (p : PendingRotation) : Bytes := [seq key p.newKeys, u64 p.openedEpoch].flatten

def reputation (r : Reputation) : Bytes := [u64 r.openDefault, f64 r.dIn, f64 r.dOut].flatten

def seat (s : Seat) : Bytes := [u64 s.sponsor, held s.held].flatten

def member (m : Member) : Bytes :=
  [u64 m.id, seq key m.keys, option key m.consensusKey, memberStatus m.status, u64 m.joinedEpoch,
    option guardianConfig m.guardian, option pendingRotation m.pendingRotation,
    map u64 f64 m.beneficiaries, set m.supportersOf, set m.approvedSupporters, reputation m.rep,
    u64 m.debtOut, map u64 u64 m.bonds, u32 m.bondFreeUsed, u64 m.bondSaturatedEpochs,
    bool m.bondDeniedThisEpoch, option seat m.seat, bool m.seatSlot].flatten

def storedArbTerms (t : ArbTerms) : Bytes :=
  [set t.arbiters, u32 t.quorum, u64 t.windowEpochs, u64 t.awardCap, u64 t.debtor, u64 t.creditor,
    u64 t.amount].flatten

def contractStatus : ContractStatus → Bytes
  | .active => variant 0
  | .transferred => variant 1
  | .settled => variant 2
  | .expired => variant 3
  | .cured => variant 4

def contract (c : Contract) : Bytes :=
  [u64 c.id, u64 c.debtor, u64 c.creditor, u64 c.outstanding, u64 c.original, u64 c.maturityEpoch,
    contractStatus c.status, u64 c.createdEpoch, u64 c.acceptedEpoch, bool c.insured, held c.held,
    option storedArbTerms c.arb, map u64 u64 c.arbAttestations, bool c.arbAwarded].flatten

def proposal (p : Proposal) : Bytes :=
  [u64 p.id, proposalKind p.kind, u64 p.author, set p.assents, bool p.enacted,
    u64 p.openedEpoch].flatten

def params (p : Params) : Bytes :=
  [f64 p.vBase, f64 p.dust, f64 p.riskK, f64 p.thetaAdopt, f64 p.thetaAdoptValidator,
    f64 p.sealAmounts, f64 p.stakeDecay, f64 p.bondFraction, f64 p.seedRate, f64 p.insuredHorizon,
    u32 p.bondFreeAllowance, u64 p.bondReleaseEpochs, u64 p.bondForfeitEpochs,
    u64 p.minMaturityEpochs, u64 p.govCooldownEpochs, f64 p.redenomBandLn, u64 p.minValidators,
    map (fun k => variant (paramKeyIndex k)) u64 p.lastAmendEpoch,
    option u64 p.lastRedenomEpoch].flatten

def ledger (l : LedgerLeaf) : Bytes :=
  [params l.params, u64 l.epoch, u64 l.nextMember, u64 l.nextContract, u64 l.nextProposal,
    u64 l.seedAmendedThisEpoch, u64 (utf8 l.chainId).length, utf8 l.chainId, u64 l.lastBeginSecs,
    map u64 u64 l.underwriters, map u64 u64 l.committed, map u64 u64 l.seatCommitted,
    map u64 u64 l.forfeitReserve].flatten

/-- An encoding as a byte vector, which is of a machine's size. -/
def vec (bytes : Bytes) : Except String ByteVec :=
  if h : bytes.length < 2 ^ 64 then .ok ⟨bytes, h⟩ else .error "the size limit has been reached"

end Records

open Records

/-- The consensus encoding of the records. -/
def records : Codec where
  member m := vec (member m)
  contract c := vec (contract c)
  proposal p := vec (proposal p)
  power n := vec (u64 n)
  stakeRow row := vec (seq (pair u64 (pair u64 (pair u64 u64))) row)
  bucket ids := vec (seq key ids.toList)
  ledger l := vec (ledger l)

end Edet.StateRoot
