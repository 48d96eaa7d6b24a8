import Edet.Library.Refusable
import Edet.Node.Store

/-!
# The replica

A replica holds the ledger after the blocks it has committed, and the store that could
rebuild it. `commitBlockWithCertificate` is the one way a decided block gets in: it
checks the block, records the certificate, applies the block to the ledger **in place**,
audits the result, appends the block to its log, and only then takes the block's height,
time and commitment for its own. Nothing is rolled back where a later step refuses.

The ledger is a parameter (`Machine`): how a block changes it, what it commits to, which
envelopes it asks for, and whether it satisfies its invariants. What can go wrong with
the disk is a parameter of each commit (`Io`).
-/

namespace Edet.Node

/-- The ledger as a replica drives it. -/
structure Machine (σ : Type) where
  chainId : σ → String
  /-- Is an envelope signed, for this chain, by everybody it names? -/
  authenticated : String → SignedTx → Bool
  /-- Are its signers the ones the transition asks for? -/
  authorises : σ → Tx → List Key → Bool
  applyBlock : σ → Block → σ
  /-- The invariant that a state violates, if it does. -/
  audit : σ → Option String
  /-- The commitment to a state. -/
  root : σ → Key
  validators : σ → OrdMap MemberId Nat
  consensusKey : σ → MemberId → Option Key

namespace Machine

variable {σ : Type} (M : Machine σ)

def maxTxsPerBlock : Nat := 512

def verifyTxs (chainId : String) (block : Block) : Bool :=
  block.txs.all (M.authenticated chainId)

/-- The half of a block's validity that reads the state. -/
def deterministicValidity (block : Block) (state : σ) : Bool :=
  decide (block.txs.length ≤ maxTxsPerBlock) &&
    block.txs.all fun t => M.authorises state t.tx t.signers

/-- The consensus keys of the validators that have one. -/
def validatorKeySnapshot (state : σ) (validators : OrdMap MemberId Nat) : OrdMap MemberId Key :=
  (validators.keys.filterMap fun id => (M.consensusKey state id).map fun k => (id, k)).foldl
    (fun m p => m.insert p.1 p.2) ∅

end Machine

/-- Why a replica stopped. -/
structure Halt where
  height : Nat
  reason : String
deriving DecidableEq

structure Replica (σ D : Type) where
  state : σ
  height : Nat := 0
  /-- Nothing is durable where there is none. -/
  store : Option (Store σ D) := some {}
  /-- A snapshot is written at the multiples of this; never, where it is `0`. -/
  snapshotInterval : Nat := 0
  pruneMarginBlocks : Nat := 86400
  lastTimeSecs : Nat := 0
  halted : Option Halt := none
  validatorHistory : List (Nat × OrdMap MemberId Nat) := []
  validatorKeyHistory : List (Nat × OrdMap MemberId Key) := []
  appHash : Key

inductive CommitError
  | unverifiedTx
  | nonMonotonicTime
  | appHashMismatch
  | store
  | halted
  | heightGap
  | refused
  | invariantViolated (height : Nat) (reason : String)
deriving DecidableEq

/-- Which durable writes of a commit succeed. -/
structure Io where
  certificate : Bool := true
  wal : Bool := true
  validators : Bool := true
  keys : Bool := true
  snapshot : Bool := true
  prune : Bool := true
deriving DecidableEq

section Commit

variable {σ D : Type} (M : Machine σ)

/-- A write to the store, which there may be none of, or which may fail. One that fails leaves the
store as it was here; what an append that fails leaves in its file is added in runs with restarts
(`Call.leave`). -/
def durable (succeeds : Bool) (write : Store σ D → Store σ D) :
    Op (Replica σ D) CommitError Unit := fun r =>
  match r.store with
  | none => (.ok (), r)
  | some s => if succeeds then (.ok (), { r with store := some (write s) }) else (.error .store, r)

/-- The validator set in force at a height. -/
def Replica.validatorsAt (r : Replica σ D) (height : Nat) : Option (OrdMap MemberId Nat) :=
  (r.validatorHistory.reverse.find? fun p => decide (p.1 ≤ height)).map Prod.snd

/-- The consensus keys recorded for a height. -/
def Replica.keysAt (r : Replica σ D) (height : Nat) : OrdMap MemberId Key :=
  ((r.validatorKeyHistory.reverse.find? fun p => decide (p.1 ≤ height)).map Prod.snd).getD ∅

/-- Record a change of the validator set. -/
def journalValidators (io : Io) (before : OrdMap MemberId Nat) :
    Op (Replica σ D) CommitError Unit := do
  let r ← Op.ask id
  if M.validators r.state = before then pure ()
  else do
    Op.write fun r =>
      { r with validatorHistory := r.validatorHistory ++ [(r.height, M.validators r.state)] }
    durable io.validators fun s => s.appendValidatorSet r.height (M.validators r.state)

/-- Record the keys, where a validator's has changed. -/
def journalKeys (io : Io) (before : OrdMap MemberId Key) : Op (Replica σ D) CommitError Unit := do
  let r ← Op.ask id
  let after := M.validatorKeySnapshot r.state (M.validators r.state)
  let rotated := before.toList.any fun p => after[p.1]?.any fun k => decide (k ≠ p.2)
  if rotated then do
    Op.write fun r =>
      { r with validatorKeyHistory := r.validatorKeyHistory ++ [(r.height, after)] }
    durable io.keys fun s => s.appendValidatorKeys r.height after
  else pure ()

/-- Write a snapshot when one is due, and drop what it makes unnecessary. -/
def writeDueSnapshot (io : Io) : Op (Replica σ D) CommitError Unit := do
  let r ← Op.ask id
  if 0 < r.snapshotInterval ∧ r.height % r.snapshotInterval = 0 then do
    durable io.snapshot fun s => s.writeSnapshot r.height r.state
    let margin := max r.pruneMarginBlocks (2 * r.snapshotInterval)
    durable io.prune fun s => s.pruneBelow (max (r.height - margin) 1)
  else pure ()

/-- What follows the append of a block: its height, its time and its commitment become the
replica's, and what it changed is journalled. -/
def settle (io : Io) (block : Block) (validatorsBefore : OrdMap MemberId Nat)
    (keysBefore : OrdMap MemberId Key) : Op (Replica σ D) CommitError Unit := do
  Op.write fun r => { r with height := block.height, lastTimeSecs := block.timeSecs }
  Op.write fun r => { r with appHash := M.root r.state }
  journalValidators M io validatorsBefore
  journalKeys M io keysBefore
  writeDueSnapshot io

def commitBlockUnchecked (io : Io) (block : Block) : Op (Replica σ D) CommitError Unit := do
  let r ← Op.ask id
  Op.refuseIf (r.halted.isSome = true) .halted
  Op.refuseIf (block.height ≠ r.height + 1) .heightGap
  Op.refuseIf (M.deterministicValidity block r.state = false) .refused
  let validatorsBefore := M.validators r.state
  let keysBefore := M.validatorKeySnapshot r.state validatorsBefore
  -- in place: what refuses from here on leaves the block applied
  Op.write fun r => { r with state := M.applyBlock r.state block }
  match M.audit (M.applyBlock r.state block) with
  | some reason => do
    Op.write fun r => { r with halted := some ⟨block.height, reason⟩ }
    Op.refuse (.invariantViolated block.height reason)
  | none => do
    durable io.wal (Store.appendBlock block)
    settle M io block validatorsBefore keysBefore

def commitBlockWithCertificate (io : Io) (block : Block) (certificate : Certificate D) :
    Op (Replica σ D) CommitError Unit := do
  let r ← Op.ask id
  Op.refuseIf (M.verifyTxs (M.chainId r.state) block = false) .unverifiedTx
  Op.refuseIf (timeIsMonotonic block.timeSecs r.lastTimeSecs = false) .nonMonotonicTime
  Op.refuseIf (block.appHash ≠ r.appHash) .appHashMismatch
  durable io.certificate (Store.appendCertificate block.height certificate)
  commitBlockUnchecked M io block

/-- Serve a decided block with its certificate. -/
def Replica.decidedValueAt (r : Replica σ D) (height : Nat) : Option (Block × Certificate D) := do
  let store ← r.store
  let block ← store.findBlock height
  let certificate ← store.findCertificate height
  pure (block, certificate)

end Commit

end Edet.Node
