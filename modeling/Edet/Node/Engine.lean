import Edet.Node.Replica

/-!
# The engine

The loop that answers consensus: it turns proposal parts and served values into values
and judges them against its replica, holds the ones it answered valid, builds its own, and
on a decision commits the block it holds under the decided id. A commit empties what is
held **for every height**, and drops the streams that have not named a later one.

Whether a certificate is good is a parameter (`certified`): that the validator set in
force builds, with the keys recorded for the height, and that a quorum of it signed.
-/

namespace Edet.Node

structure Engine (σ D : Type) [Ord D] where
  replica : Replica σ D
  streams : PartStreams D := ∅
  pending : Pending D := ∅
  /-- The address this node proposes under. -/
  ownAddress : Address := 0
  /-- The loop has ended. -/
  stopped : Bool := false

inductive EngineEvent (D : Type)
  | part (sender : PeerId) (msg : StreamMessage D) (nowSecs : Nat)
  | synced (height : Nat) (round : Round) (proposer : Address) (bytes : Bytes) (nowSecs : Nat)
  /-- Consensus asks this node for a value; the transactions are the mempool's. -/
  | getValue (height : Nat) (round : Round) (nowSecs : Nat) (txs : List SignedTx)
  | decided (certificate : Certificate D) (io : Io)

section Loop

variable {σ D : Type} [Ord D] [Std.TransOrd D] [DecidableEq D]
variable (M : Machine σ) (sha256 : Bytes → D)
  (certified : σ → OrdMap MemberId Nat → OrdMap MemberId Key → Certificate D → Bool)

/-- What a screen consults on this replica. -/
def Replica.screenCtx (r : Replica σ D) (nowSecs : Nat) : ScreenCtx where
  chainId := M.chainId r.state
  at_ := r.height
  parentTime := r.lastTimeSecs
  nowSecs := nowSecs
  expectedAppHash := r.appHash
  verifyTxs := M.verifyTxs
  deterministic := fun b => M.deterministicValidity b r.state

/-- The block this node proposes. -/
def Replica.proposal (r : Replica σ D) (height nowSecs : Nat) (txs : List SignedTx) : Block where
  height := height
  timeSecs := max nowSecs r.lastTimeSecs
  appHash := r.appHash
  txs := txs

/-- The block that a certificate decides, where the certificate is good and this node
holds the block. -/
def verifyDecided (r : Replica σ D) (pending : Pending D) (certificate : Certificate D) :
    Option Block :=
  match r.validatorsAt r.height with
  | none => none
  | some validators =>
    if certified r.state validators (r.keysAt r.height) certificate then
      pending[certificate.valueId]?.map PendingValue.block
    else none

def Engine.decide (certificate : Certificate D) (io : Io) (s : Engine σ D) : Engine σ D :=
  match verifyDecided certified s.replica s.pending certificate with
  | none => s
  | some block =>
    match Op.exec (commitBlockWithCertificate M io block certificate) s.replica with
    | (.ok _, r) =>
      { s with replica := r, pending := ∅, streams := s.streams.evictDecided r.height }
    | (.error (.invariantViolated _ _), r) => { s with replica := r, stopped := true }
    -- consensus is asked to decide the height again
    | (.error _, r) => { s with replica := r }

def Engine.next (e : EngineEvent D) (s : Engine σ D) : Engine σ D :=
  if s.stopped then s
  else
    match e with
    | .part sender msg nowSecs =>
      let r := reassemble sha256 s.streams s.pending sender msg (s.replica.screenCtx M nowSecs)
      { s with streams := r.1, pending := r.2.1 }
    | .synced height round proposer bytes nowSecs =>
      { s with
        pending := (processSynced sha256 s.pending height round proposer bytes
          (s.replica.screenCtx M nowSecs)).1 }
    | .getValue height round nowSecs txs =>
      let block := s.replica.proposal height nowSecs txs
      { s with
        pending := s.pending.insert (valueId sha256 block)
          { round, validRound := .nil, proposer := s.ownAddress, block } }
    | .decided certificate io => s.decide M certified certificate io

/-- What the node answers: the value a message or a served string made. -/
def Engine.answer (e : EngineEvent D) (s : Engine σ D) : Option (ProposedValue D) :=
  match e with
  | .part sender msg nowSecs =>
    (reassemble sha256 s.streams s.pending sender msg (s.replica.screenCtx M nowSecs)).2.2
  | .synced height round proposer bytes nowSecs =>
    (processSynced sha256 s.pending height round proposer bytes
      (s.replica.screenCtx M nowSecs)).2
  | _ => none

/-- What the node serves for a height: the encoding of its block, and the certificate. -/
def Replica.getDecidedValue (r : Replica σ D) (height : Nat) : Option (Bytes × Certificate D) :=
  (r.decidedValueAt height).map fun p => (p.1.encode, p.2)

/-- Does a peer that catches up, or an import, accept the pair: does the string read as a
block whose id and height the certificate decides? -/
def acceptsPair (p : Bytes × Certificate D) : Bool :=
  (Block.decode p.1).any fun b =>
    decide (p.2.valueId = valueId sha256 b ∧ p.2.height = b.height)

end Loop

end Edet.Node
