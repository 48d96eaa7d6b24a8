import Edet.Ledger.Encoding
import Edet.Ledger.State

/-!
# The pool of pending signatures

Where the signatures of a transaction with several parties are collected. A request
carries the transaction and its envelope, one signature, and **its own copy** of the list
of parties that are to sign and of how many of them must; the entry it opens or adds to is
found by the digest that everyone signs, which covers the transaction and the envelope and
not that list.

The first request for a digest opens its entry, and only a member may open one, or a key
that a member has invited to buy. The entry is handed over as soon as enough of the parties
**it** names have signed, and its digest is then dead, as after a decline
(`PendingPool.sign`, `PendingPool.decline`).
-/

namespace Edet.View

open Encoding (Nonce)

abbrev Digest := BitVec 256

/-- A nonce for requests and envelopes built by hand. -/
def zeroNonce : Nonce := ⟨List.replicate 16 0, rfl⟩

/-- What a signer of an envelope signs, and whether a signature over some bytes is a
key's. -/
structure Scheme where
  digest : String → Tx → Nonce → Nat → Option Digest
  verify : Key → Bytes → Bytes → Bool

/-- How long a proposal may wait for its signatures, in seconds. -/
def pendingTtlSecs : Nat := 90 * 86400

def maxEntries : Nat := 1024

def maxTombstones : Nat := 4096

/-- How many entries opened on one member's invitations may be open at once. -/
def maxInvitedPerMember : Nat := 8

/-- How many entries one initiator may hold while the pool is full. -/
def maxEntriesPerInitiatorWhenFull : Nat := 16

/-- A member's standing invitation to be bought from. -/
structure Invite where
  key : Key
  notAfterSecs : Nat
  nonce : Nonce
  signature : Bytes

structure PendingSignReq where
  tx : Tx
  nonce : Nonce
  notAfterEpoch : Nat
  /-- The parties whose signatures are wanted. -/
  required : List Party
  /-- How many of them must sign. -/
  minSigs : Nat
  signer : Key
  signature : Bytes
  invite : Option Invite := none

structure PendingEntry where
  tx : Tx
  nonce : Nonce
  notAfterEpoch : Nat
  required : List Party
  minSigs : Nat
  /-- The member whose occupancy the entry counts against. -/
  initiator : MemberId
  /-- Who opened it. -/
  opener : Party
  createdSecs : Nat
  /-- The signatures collected so far. -/
  sigs : OrdMap Key Bytes

/-- A completed entry, to be assembled into an envelope. -/
structure Completed where
  tx : Tx
  nonce : Nonce
  notAfterEpoch : Nat
  signers : List Key
  signatures : List Bytes

structure PendingPool where
  entries : OrdMap Digest PendingEntry := ∅
  /-- Digests that completed or were declined. -/
  tombstones : OrdSet Digest := ∅
  /-- The same, the oldest first. -/
  tombstoneOrder : List Digest := []

inductive SignOutcome
  | recorded (new : Bool)
  | complete (done : Completed)
  | rejected (why : String)

def hexDigit (n : Nat) : Char := "0123456789abcdef".toList.getD n '0'

def hex (bytes : Bytes) : String :=
  String.ofList (bytes.flatMap fun b => [hexDigit (b.toNat / 16), hexDigit (b.toNat % 16)])

/-- The bytes an invitation signs. -/
def inviteMessage (chainId : String) (key : Key) (notAfterSecs : Nat) (nonce : Nonce) : Bytes :=
  Encoding.utf8 (String.intercalate "\n"
    ["edet-invite-v1", chainId, hex (Encoding.key key), toString notAfterSecs, hex nonce.val])

/-- The bytes of a digest. -/
def digestBytes (digest : Digest) : Bytes := Encoding.key digest

/-- Who a key is: a member, or a key without an account. -/
def partyOf (s : State) (k : Key) : Party :=
  match s.memberOfKey k with
  | some id => .member id
  | none => .key k

/-- The parties of a list that have a signature on the entry. -/
def signedParties (s : State) (e : PendingEntry) : List Party :=
  ((e.sigs.toList.map fun p => partyOf s p.1).filter fun p => decide (p ∈ e.required)).dedup

def PendingPool.tombstone (pool : PendingPool) (digest : Digest) : PendingPool :=
  if pool.tombstones.contains digest then pool
  else
    { pool with
      tombstones := pool.tombstones.insert digest
      tombstoneOrder := pool.tombstoneOrder ++ [digest] }

/-- Drop the entries that are too old, and the oldest tombstones above the cap. -/
def PendingPool.prune (pool : PendingPool) (nowSecs : Nat) : PendingPool :=
  let excess := pool.tombstoneOrder.length - maxTombstones
  { entries := pool.entries.filter fun _ e => decide (nowSecs < horizon e.createdSecs pendingTtlSecs)
    tombstones := (pool.tombstoneOrder.take excess).foldl (fun set d => set.erase d) pool.tombstones
    tombstoneOrder := pool.tombstoneOrder.drop excess }

/-- The newest entry of every initiator that holds more than its share, in the order of the
initiators. -/
def PendingPool.hogs (pool : PendingPool) : List Digest :=
  let initiators := (pool.entries.toList.map fun p => p.2.initiator).dedup.insertionSort (· ≤ ·)
  initiators.flatMap fun id =>
    let held := pool.entries.toList.filter fun p => p.2.initiator = id
    if held.length ≤ maxEntriesPerInitiatorWhenFull then []
    else
      let newest := held.insertionSort fun p q =>
        q.2.createdSecs < p.2.createdSecs ∨ (p.2.createdSecs = q.2.createdSecs ∧ p.1 ≤ q.1)
      (newest.take 1).map Prod.fst

section Scheme

variable (scheme : Scheme)

/-- The digest a request refers to. -/
def requestDigest (s : State) (req : PendingSignReq) : Option Digest :=
  scheme.digest s.chainId req.tx req.nonce req.notAfterEpoch

/-- The party whose verified signature the request carries. -/
def verifiedSigner (s : State) (req : PendingSignReq) (digest : Digest) : Option Party :=
  if scheme.verify req.signer (digestBytes digest) req.signature then some (partyOf s req.signer)
  else none

/-- Does the party name the inviter, by id or by key? -/
def namesInviter (inviter : MemberId) (key : Key) (p : Party) : Bool :=
  p = .member inviter || p = .key key

/-- Is the transaction a purchase by `buyer` from the inviter? -/
def isPurchase (buyer : Party) (inviter : MemberId) (key : Key) : Tx → Bool
  | .sale seller b _ _ => b = buyer && namesInviter inviter key seller
  | .accept debtor creditor _ _ _ => debtor = buyer && namesInviter inviter key creditor
  | _ => false

/-- The member whose valid invitation the request carries, and the inviting key. -/
def invitedBy (s : State) (req : PendingSignReq) (nowSecs : Nat) : Option (MemberId × Key) :=
  match req.invite with
  | none => none
  | some inv =>
    if inv.notAfterSecs < nowSecs then none
    else
      match s.memberOfKey inv.key with
      | none => none
      | some inviter =>
        let buyer : Party := .key req.signer
        if ¬scheme.verify inv.key (inviteMessage s.chainId inv.key inv.notAfterSecs inv.nonce)
            inv.signature then none
        else if ¬isPurchase buyer inviter inv.key req.tx then none
        else if req.required.length ≠ 2 ∨ req.minSigs ≠ 2 ∨ buyer ∉ req.required ∨
            ¬req.required.any (namesInviter inviter inv.key) then none
        else some (inviter, inv.key)

/-- How many entries that keys opened are charged to a member. -/
def PendingPool.invited (pool : PendingPool) (inviter : MemberId) : Nat :=
  pool.entries.toList.countP fun p =>
    decide (p.2.initiator = inviter) &&
      match p.2.opener with
      | .key _ => true
      | .member _ => false

/-- Who an entry for the digest counts against, and who opens it. -/
def PendingPool.opening (pool : PendingPool) (s : State) (req : PendingSignReq) (digest : Digest)
    (party : Party) (nowSecs : Nat) : Except String (MemberId × Party) :=
  match party, pool.entries[digest]? with
  | .member id, _ => .ok (id, .member id)
  | .key _, some e => .ok (e.initiator, e.opener)
  | .key k, none =>
    match invitedBy scheme s req nowSecs with
    | some (inviter, _) =>
      if maxInvitedPerMember ≤ pool.invited inviter then
        .error "too many open invitations for this member"
      else .ok (inviter, .key k)
    | none => .error "only a member, or a key holding a member's invitation, may open a proposal"

/-- Room for one more entry of an initiator in a full pool, or nothing. -/
def PendingPool.makeRoom (pool : PendingPool) (digest : Digest) (initiator : MemberId) :
    Option PendingPool :=
  if maxEntries ≤ pool.entries.size ∧ ¬pool.entries.contains digest then
    let held := pool.entries.toList.countP fun p => p.2.initiator = initiator
    if maxEntriesPerInitiatorWhenFull ≤ held then none
    else
      match pool.hogs with
      | [] => none
      | hogs => some { pool with entries := hogs.foldl (fun m d => m.erase d) pool.entries }
  else some pool

/-- The entry a request opens. -/
def openEntry (req : PendingSignReq) (initiator : MemberId) (opener : Party) (nowSecs : Nat) :
    PendingEntry where
  tx := req.tx
  nonce := req.nonce
  notAfterEpoch := req.notAfterEpoch
  required := req.required
  minSigs := req.minSigs
  initiator := initiator
  opener := opener
  createdSecs := nowSecs
  sigs := ∅

/-- The entry with the request's signature. -/
def PendingEntry.signed (e : PendingEntry) (req : PendingSignReq) : PendingEntry :=
  { e with sigs := e.sigs.insert req.signer req.signature }

/-- What an entry is handed over as. -/
def PendingEntry.completed (e : PendingEntry) : Completed where
  tx := e.tx
  nonce := e.nonce
  notAfterEpoch := e.notAfterEpoch
  signers := e.sigs.toList.map Prod.fst
  signatures := e.sigs.toList.map Prod.snd

/-- Add the request's signature, and hand the entry over if that was the last it needs. -/
def PendingPool.record (pool : PendingPool) (s : State) (req : PendingSignReq) (digest : Digest)
    (e : PendingEntry) : SignOutcome × PendingPool :=
  let signed := e.signed req
  if signed.minSigs ≤ (signedParties s signed).length then
    (.complete signed.completed,
      PendingPool.tombstone { pool with entries := pool.entries.erase digest } digest)
  else
    (.recorded (!e.sigs.contains req.signer),
      { pool with entries := pool.entries.insert digest signed })

/-- Open or co-sign a proposal. -/
def PendingPool.sign (pool : PendingPool) (s : State) (req : PendingSignReq) (nowSecs : Nat) :
    SignOutcome × PendingPool :=
  let pool := pool.prune nowSecs
  match requestDigest scheme s req with
  | none => (.rejected "undigestable transaction", pool)
  | some digest =>
    if pool.tombstones.contains digest then (.rejected "already completed or declined", pool)
    else if req.required = [] ∨ req.minSigs = 0 ∨ req.required.length < req.minSigs then
      (.rejected "bad signer requirements", pool)
    else
      match verifiedSigner scheme s req digest with
      | none => (.rejected "bad signature or unknown signer key", pool)
      | some party =>
        if party ∉ req.required then (.rejected "signer is not a required party", pool)
        else
          match pool.opening scheme s req digest party nowSecs with
          | .error why => (.rejected why, pool)
          | .ok (initiator, opener) =>
            match pool.makeRoom digest initiator with
            | none => (.rejected "pending pool full", pool)
            | some pool =>
              pool.record s req digest
                ((pool.entries[digest]?).getD (openEntry req initiator opener nowSecs))

variable (sha256 : Bytes → Bytes)

/-- What a decliner signs. -/
def declineMessage (digest : Digest) : Bytes :=
  sha256 (digestBytes digest ++ Encoding.utf8 "edet-decline")

/-- The party whose verified decline this is. -/
def verifiedDecliner (s : State) (digest : Digest) (signer : Key) (signature : Bytes) :
    Option Party :=
  if scheme.verify signer (declineMessage sha256 digest) signature then some (partyOf s signer)
  else none

/-- Decline a proposal, as a party it names or as its initiator. -/
def PendingPool.decline (pool : PendingPool) (s : State) (digest : Digest) (signer : Key)
    (signature : Bytes) : Bool × PendingPool :=
  match verifiedDecliner scheme sha256 s digest signer signature with
  | none => (false, pool)
  | some party =>
    match pool.entries[digest]? with
    | none => (false, pool)
    | some e =>
      if party ∉ e.required ∧ party ≠ .member e.initiator then (false, pool)
      else (true, PendingPool.tombstone { pool with entries := pool.entries.erase digest } digest)

end Scheme

end Edet.View
