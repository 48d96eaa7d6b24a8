import Edet.Ledger.Audit
import Edet.Ledger.Screens
import Edet.Node.Replica
import Edet.View.Pending

/-!
# The core of a node

What a node keeps beside its replica, and the calls that change it. A transaction that arrives
is screened and queued (`NodeCore.submit`), a block is proposed from the head of the queue
(`NodeCore.proposableBatch`), and a decided block is committed, whereupon the outcome of each
of its transactions is remembered and the transactions leave the queue
(`NodeCore.commitDecided`).

The digests are computed by `Chain.sha256` and a signature is checked by `Chain.verify`; what a
replica commits to is `Chain.root`.
-/

namespace Edet.Node

open View (PendingPool)

/-! ### The rate limiter -/

structure Bucket where
  tokens : F64
  lastNanos : Nat

/-- Token buckets, by the key that spends from them: a signer's, or the one that the
transactions without signers share. -/
structure RateLimiter where
  capacity : F64
  refillPerSec : F64
  maxKeys : Nat
  buckets : OrdMap (Option Key) Bucket := ∅

/-- A duration in seconds. -/
def asSecs (nanos : Nat) : F64 :=
  F64.ofNat (nanos / 1000000000) + F64.ofNat (nanos % 1000000000) / F64.ofNat 1000000000

/-- What a bucket holds at a time. -/
def Bucket.refilled (b : Bucket) (capacity refillPerSec : F64) (nowNanos : Nat) : F64 :=
  let filled := b.tokens + asSecs (nowNanos - b.lastNanos) * refillPerSec
  if filled < capacity then filled else capacity

namespace RateLimiter

/-- Drop the buckets that have refilled to capacity. -/
def sweepFull (l : RateLimiter) (nowNanos : Nat) : RateLimiter :=
  { l with
    buckets := l.buckets.filter fun _ b =>
      decide (b.refilled l.capacity l.refillPerSec nowNanos < l.capacity) }

/-- Take one token of a bucket that is there. -/
def take (l : RateLimiter) (key : Option Key) (b : Bucket) (nowNanos : Nat) :
    Bool × RateLimiter :=
  let tokens := b.refilled l.capacity l.refillPerSec nowNanos
  let allowed := decide (F64.ofNat 1 ≤ tokens)
  let left := if allowed then tokens - F64.ofNat 1 else tokens
  (allowed, { l with buckets := l.buckets.insert key { tokens := left, lastNanos := nowNanos } })

/-- May the key act now? It takes one token when it may. -/
def allow (l : RateLimiter) (key : Option Key) (nowNanos : Nat) : Bool × RateLimiter :=
  match l.buckets[key]? with
  | some b => l.take key b nowNanos
  | none =>
    let l := if l.maxKeys ≤ l.buckets.size then l.sweepFull nowNanos else l
    if l.maxKeys ≤ l.buckets.size then (false, l)
    else l.take key { tokens := l.capacity, lastNanos := nowNanos } nowNanos

end RateLimiter

def rateLimitMaxKeys : Nat := 10000

def txLimiter : RateLimiter where
  capacity := F64.ofNat 64
  refillPerSec := F64.ofNat 16
  maxKeys := rateLimitMaxKeys

def pendingLimiter : RateLimiter where
  capacity := F64.ofNat 32
  refillPerSec := F64.ofNat 8
  maxKeys := rateLimitMaxKeys

/-! ### The ledger behind a node -/

/-- What the node takes from elsewhere: the hash, the signature scheme, and the commitment to a
state. -/
structure Chain where
  sha256 : Bytes → View.Digest
  verify : Key → Bytes → Bytes → Bool
  root : State → Key

/-- The content hash of an envelope, its signers and signatures included. -/
def SignedTx.hash (sha256 : Bytes → View.Digest) (t : SignedTx) : View.Digest := sha256 t.encode

/-- What the signers of an envelope sign. -/
def SignedTx.id (sha256 : Bytes → View.Digest) (chainId : String) (t : SignedTx) : TxId :=
  Encoding.txDigest sha256 chainId t.tx t.nonce t.notAfterEpoch

namespace Chain

variable (chain : Chain)

/-- Did every claimed signer sign the envelope? -/
def verifies (chainId : String) (t : SignedTx) : Bool :=
  decide (t.signers.length = t.signatures.length) &&
    (t.signers.zip t.signatures).all fun p =>
      chain.verify p.1 (View.digestBytes (t.id chain.sha256 chainId)) p.2

def isAuthenticated (chainId : String) (t : SignedTx) : Bool :=
  (!t.signers.isEmpty || Bond.isPermissionless t.tx) && chain.verifies chainId t

/-- The scheme that the pending pool checks signatures with. -/
def scheme : View.Scheme where
  digest chainId tx nonce notAfterEpoch :=
    some (Encoding.txDigest chain.sha256 chainId tx nonce notAfterEpoch)
  verify := chain.verify

section Ledger

variable [Libm]

/-- Apply the transactions of a block one after the other: what became of each, in order. -/
def applyTxs (chainId : String) (timeSecs : Nat) : List SignedTx → State → List (Res Unit) × State
  | [], s => ([], s)
  | t :: txs, s =>
    let applied := Op.exec
      (Apply.apply t.tx (t.id chain.sha256 chainId) t.notAfterEpoch t.signers timeSecs) s
    let rest := applyTxs chainId timeSecs txs applied.2
    (applied.1 :: rest.1, rest.2)

def applyBlockTo (s : State) (block : Block) : List (Res Unit) × State :=
  let s := s.beginBlock block.timeSecs
  chain.applyTxs s.chainId block.timeSecs block.txs s

/-- The ledger as a replica drives it. -/
def machine : Machine State where
  chainId := State.chainId
  authenticated := chain.isAuthenticated
  authorises s tx signers := Apply.authorises s signers tx
  applyBlock s block := (chain.applyBlockTo s block).2
  audit s :=
    match Audit.audit s with
    | .ok _ => none
    | .error violation => some violation
  root := chain.root
  validators := State.validators
  consensusKey s id := (s.members[id]?).bind (·.consensusKey)

end Ledger

end Chain

/-! ### The mempool -/

def seenCap : Nat := 4096

def maxQueueLen : Nat := 8192

/-- The transactions waiting for a block, first in, first out; no hash is queued twice, or while
it is among those committed last. -/
structure Mempool where
  queue : List (SignedTx × View.Digest) := []
  queued : OrdSet View.Digest := ∅
  seen : List View.Digest := []
  seenSet : OrdSet View.Digest := ∅

namespace Mempool

variable (sha256 : Bytes → View.Digest)

def push (pool : Mempool) (t : SignedTx) : Bool × Mempool :=
  let h := t.hash sha256
  if pool.queued.contains h ∨ pool.seenSet.contains h then (false, pool)
  else if maxQueueLen ≤ pool.queue.length then (false, pool)
  else (true, { pool with queue := pool.queue ++ [(t, h)], queued := pool.queued.insert h })

/-- Look at the first transactions of the queue. -/
def batch (pool : Mempool) (max : Nat) : List SignedTx := (pool.queue.take max).map Prod.fst

/-- Remember a committed hash, and forget the oldest where there are too many. -/
def see (pool : Mempool) (h : View.Digest) : Mempool :=
  let pool := { pool with queued := pool.queued.erase h }
  if pool.seenSet.contains h then pool
  else
    let seen := pool.seen ++ [h]
    let seenSet := pool.seenSet.insert h
    if seenCap < seen.length then
      { pool with
        seen := seen.tail
        seenSet := seen.head?.elim seenSet fun old => seenSet.erase old }
    else { pool with seen, seenSet }

/-- Drop what a committed block carries, and remember it. -/
def removeCommitted (pool : Mempool) (block : Block) : Mempool :=
  let committed := (block.txs.map (SignedTx.hash sha256)).dedup
  committed.foldl see { pool with queue := pool.queue.filter fun p => decide (p.2 ∉ committed) }

end Mempool

/-! ### The core -/

def outcomeCap : Nat := 4096

structure NodeCore (D : Type) where
  replica : Replica State D
  mempool : Mempool := {}
  pending : PendingPool := {}
  txLimiter : RateLimiter := Node.txLimiter
  pendingLimiter : RateLimiter := Node.pendingLimiter
  outcomes : OrdMap View.Digest (Res Unit) := ∅
  /-- The hashes whose outcomes are remembered, the oldest first. -/
  outcomeOrder : List View.Digest := []

/-- Whose bucket a transaction spends from: its signer with the least member id, or else its
first signer. -/
def txRateKey (s : State) (t : SignedTx) : Option Key :=
  let members := t.signers.filterMap fun k => (s.memberOfKey k).map fun id => (id, k)
  match members.argmin Prod.fst with
  | some p => some p.2
  | none => t.signers.head?

namespace NodeCore

variable {D : Type} (chain : Chain)

/-- Queue a transaction that arrived, unless one of the screens keeps it out. -/
def submit (core : NodeCore D) (t : SignedTx) (nowNanos : Nat) : Bool × NodeCore D :=
  let s := core.replica.state
  if core.mempool.queued.contains (t.hash chain.sha256) then (false, core)
  else
    let (allowed, limiter) := core.txLimiter.allow (txRateKey s t) nowNanos
    let core := { core with txLimiter := limiter }
    if ¬allowed then (false, core)
    else if ¬Apply.namesIssuedIds s t.tx then (false, core)
    else if ¬Bond.admits s t.tx t.signers then (false, core)
    else if ¬Apply.authorises s t.signers t.tx then (false, core)
    else
      let (queued, mempool) := core.mempool.push chain.sha256 t
      (queued, { core with mempool })

/-- Would the bond gate and the rule of signers let the transaction pass? -/
def proposable (s : State) (t : SignedTx) : Bool :=
  Bond.admits s t.tx t.signers && Apply.authorises s t.signers t.tx

/-- What the node proposes: of the first transactions of the queue, those that would pass. -/
def proposableBatch (core : NodeCore D) (max : Nat) : List SignedTx :=
  (core.mempool.batch max).filter (proposable core.replica.state)

/-- Remember one outcome, and forget the oldest where there are too many. -/
def recordOutcome (core : NodeCore D) (h : View.Digest) (outcome : Res Unit) : NodeCore D :=
  let known := core.outcomes.contains h
  let core := { core with outcomes := core.outcomes.insert h outcome }
  if known then core
  else
    let order := core.outcomeOrder ++ [h]
    if outcomeCap < order.length then
      { core with
        outcomeOrder := order.tail
        outcomes := order.head?.elim core.outcomes fun old => core.outcomes.erase old }
    else { core with outcomeOrder := order }

/-- What a block's transactions are remembered as, in the order of the block. -/
def occurrences (block : Block) (outcomes : List (Res Unit)) : List (View.Digest × Res Unit) :=
  (block.txs.map (SignedTx.hash chain.sha256)).zip outcomes

def recordOutcomes (core : NodeCore D) (block : Block) (outcomes : List (Res Unit)) : NodeCore D :=
  (occurrences chain block outcomes).foldl (fun core p => core.recordOutcome p.1 p.2) core

section Ledger

variable [Libm]

/-- Commit a decided block. What a refused block leaves of the replica is kept. -/
def commitDecided (core : NodeCore D) (io : Io) (block : Block) (certificate : Certificate D) :
    Except CommitError (List (Res Unit)) × NodeCore D :=
  let outcomes := (chain.applyBlockTo core.replica.state block).1
  match Op.exec (commitBlockWithCertificate chain.machine io block certificate) core.replica with
  | (.error e, replica) => (.error e, { core with replica })
  | (.ok _, replica) =>
    let core := recordOutcomes chain { core with replica } block outcomes
    (.ok outcomes, { core with mempool := core.mempool.removeCommitted chain.sha256 block })

end Ledger

end NodeCore

end Edet.Node
