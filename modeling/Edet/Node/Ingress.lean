import Edet.Node.Proposing
import Edet.View.Occupancy

/-!
# The ingress

The layer around the core: a transaction is authenticated before the core is asked to queue it
(`NodeCore.ingest`), and a signature on a proposal is checked and rated before it reaches the
pending pool (`NodeCore.pendingSign`). The signature that completes a proposal takes it out of
the pool for good and sends the assembled envelope through the same ingress as any other.

There the envelope can still be turned away, for reasons that pass; but the pool does not take
its digest again (`completed_iff`, `lost_sale`).
-/

namespace Edet.Node

open View (PendingPool PendingSignReq SignOutcome Completed)

def maxSigners : Nat := 32

/-- How a node is set up. -/
structure Config where
  /-- Take envelopes without checking their signatures. -/
  allowUnsigned : Bool := false

/-- What a request to sign a proposal is answered. -/
inductive PendingAnswer
  | refused (why : String)
  | recorded (new : Bool)
  | completed (queued : Bool)
deriving DecidableEq

/-- The envelope of a completed proposal. -/
def envelope (done : Completed) : SignedTx where
  tx := done.tx
  nonce := done.nonce
  notAfterEpoch := done.notAfterEpoch
  signers := done.signers
  signatures := done.signatures

namespace NodeCore

variable {D : Type} (cfg : Config) (chain : Chain)

/-- Has everybody signed who the envelope says signed? -/
def authenticated (core : NodeCore D) (t : SignedTx) : Bool :=
  if cfg.allowUnsigned then !t.signers.isEmpty || Bond.isPermissionless t.tx
  else chain.isAuthenticated core.replica.state.chainId t

/-- Queue a transaction that a client or a peer sent. -/
def ingest (core : NodeCore D) (t : SignedTx) (nowNanos : Nat) : Bool × NodeCore D :=
  if maxSigners < t.signers.length ∨ maxSigners < t.signatures.length then (false, core)
  else if ¬core.authenticated cfg chain t then (false, core)
  else core.submit chain t nowNanos

/-- The time a fresh block would carry. -/
def proposeTime (core : NodeCore D) (clockSecs : Nat) : Nat :=
  max clockSecs (core.replica.lastTimeSecs + 1)

/-- Whose bucket a request spends from: its signer's, or that of the member that invited it. -/
def pendingBucket (core : NodeCore D) (req : PendingSignReq) (digest : View.Digest) (nowSecs : Nat) :
    Except String Key :=
  let s := core.replica.state
  match View.verifiedSigner chain.scheme s req digest with
  | none => .error "bad signature or unknown signer key"
  | some (.member _) => .ok req.signer
  | some (.key k) =>
    if (core.pending.entries[digest]?).any fun e => decide (.key k ∈ e.required) then .ok req.signer
    else
      match View.invitedBy chain.scheme s req nowSecs with
      | some (_, inviterKey) => .ok inviterKey
      | none => .error "a key with no account may open a proposal only on a member's invitation"

/-- What the node does with what the pool made of a request. -/
def settlePending (core : NodeCore D) (outcome : SignOutcome) (laterNanos : Nat) :
    PendingAnswer × NodeCore D :=
  match outcome with
  | .rejected why => (.refused why, core)
  | .recorded new => (.recorded new, core)
  | .complete done =>
    let queued := core.ingest cfg chain (envelope done) laterNanos
    (.completed queued.1, queued.2)

/-- Record a signature on a proposal, and queue the envelope that it completes, which is a moment
later. -/
def pendingSign (core : NodeCore D) (req : PendingSignReq)
    (clockSecs nowNanos laterNanos : Nat) : PendingAnswer × NodeCore D :=
  let s := core.replica.state
  let nowSecs := core.proposeTime clockSecs
  match View.requestDigest chain.scheme s req with
  | none => (.refused "undigestable transaction", core)
  | some digest =>
    match core.pendingBucket chain req digest nowSecs with
    | .error why => (.refused why, core)
    | .ok bucket =>
      let limited := core.pendingLimiter.allow (some bucket) nowNanos
      if ¬limited.1 then (.refused "rate limited", { core with pendingLimiter := limited.2 })
      else
        let signed := core.pending.sign chain.scheme s req nowSecs
        settlePending cfg chain { core with pendingLimiter := limited.2, pending := signed.2 }
          signed.1 laterNanos

/-- The envelope that a request would complete: the entry of its digest, or a new one, with the
signature added. -/
def assembled (core : NodeCore D) (req : PendingSignReq) (nowSecs : Nat) : SignedTx :=
  let entry := (View.requestDigest chain.scheme core.replica.state req).bind fun digest =>
    (core.pending.prune nowSecs).entries[digest]?
  envelope ((entry.getD (View.openEntry req 0 (.key req.signer) nowSecs)).signed req).completed

/-- Is the envelope queued, or among those committed last? -/
def Known (core : NodeCore D) (t : SignedTx) : Prop :=
  core.mempool.queued.contains (t.hash chain.sha256) = true ∨
    core.mempool.seenSet.contains (t.hash chain.sha256) = true

/-- The envelope is neither queued nor committed, and its digest can not be signed any more. -/
def Lost (core : NodeCore D) (t : SignedTx) (digest : View.Digest) : Prop :=
  ¬core.Known chain t ∧ core.pending.tombstones.contains digest = true

/-- Do the core's screens let the envelope pass? -/
def passes (core : NodeCore D) (t : SignedTx) (nowNanos : Nat) : Bool :=
  (core.txLimiter.allow (txRateKey core.replica.state t) nowNanos).1 &&
    Apply.namesIssuedIds core.replica.state t.tx &&
    Bond.admits core.replica.state t.tx t.signers &&
    Apply.authorises core.replica.state t.signers t.tx

/-- Every screen of the ingress lets the envelope pass, and the queue has room for it. -/
structure Screened (core : NodeCore D) (t : SignedTx) (nowNanos : Nat) : Prop where
  signers : t.signers.length ≤ maxSigners
  signatures : t.signatures.length ≤ maxSigners
  authenticated : core.authenticated cfg chain t = true
  passes : core.passes t nowNanos = true
  room : core.mempool.queue.length < maxQueueLen

/-! ### Queueing an envelope -/

variable {cfg chain} {core : NodeCore D} {t : SignedTx} {nowNanos : Nat}

theorem known_push (core : NodeCore D) (t : SignedTx) :
    Known chain { core with mempool := (core.mempool.push chain.sha256 t).2 } t ↔
      core.Known chain t ∨ core.mempool.queue.length < maxQueueLen := by
  by_cases hknown : core.Known chain t
  · have hpush : (core.mempool.push chain.sha256 t).2 = core.mempool := by
      unfold Mempool.push
      exact congrArg Prod.snd (if_pos hknown)
    rw [hpush]
    exact ⟨.inl, fun _ => hknown⟩
  by_cases hfull : maxQueueLen ≤ core.mempool.queue.length
  · have hpush : (core.mempool.push chain.sha256 t).2 = core.mempool := by
      unfold Mempool.push
      exact congrArg Prod.snd ((if_neg hknown).trans (if_pos hfull))
    rw [hpush]
    exact ⟨.inl, fun h => h.resolve_right (Nat.not_lt_of_le hfull)⟩
  · have hpush : (core.mempool.push chain.sha256 t).2.queued =
        core.mempool.queued.insert (t.hash chain.sha256) := by
      unfold Mempool.push
      exact congrArg (fun p : Bool × Mempool => p.2.queued)
        ((if_neg hknown).trans (if_neg hfull))
    refine ⟨fun _ => .inr (Nat.lt_of_not_le hfull), fun _ => .inl ?_⟩
    show (core.mempool.push chain.sha256 t).2.queued.contains _ = true
    rw [hpush]
    exact Std.ExtTreeSet.contains_insert_self

/-- The core queues what is not queued yet and passes its screens. -/
theorem submit_eq (core : NodeCore D) (t : SignedTx) (nowNanos : Nat) :
    core.submit chain t nowNanos =
      if core.mempool.queued.contains (t.hash chain.sha256) then (false, core)
      else
        let limited : NodeCore D :=
          { core with
            txLimiter := (core.txLimiter.allow (txRateKey core.replica.state t) nowNanos).2 }
        if core.passes t nowNanos then
          ((core.mempool.push chain.sha256 t).1,
            { limited with mempool := (core.mempool.push chain.sha256 t).2 })
        else (false, limited) := by
  unfold submit passes
  dsimp only
  split
  · rfl
  · cases (core.txLimiter.allow (txRateKey core.replica.state t) nowNanos).1
    · rfl
    cases Apply.namesIssuedIds core.replica.state t.tx
    · rfl
    cases Bond.admits core.replica.state t.tx t.signers
    · rfl
    cases Apply.authorises core.replica.state t.signers t.tx <;> rfl

/-- An envelope that reaches the core is known afterwards if it was before, or passes. -/
theorem known_submit (core : NodeCore D) (t : SignedTx) (nowNanos : Nat) :
    (core.submit chain t nowNanos).2.pending = core.pending ∧
      ((core.submit chain t nowNanos).2.Known chain t ↔
        core.Known chain t ∨
          core.passes t nowNanos = true ∧ core.mempool.queue.length < maxQueueLen) := by
  rw [submit_eq]
  by_cases hqueued : core.mempool.queued.contains (t.hash chain.sha256) = true
  · rw [if_pos hqueued]
    exact ⟨rfl, .inl, fun _ => .inl hqueued⟩
  rw [if_neg hqueued]
  dsimp only
  by_cases hpasses : core.passes t nowNanos = true
  · rw [if_pos hpasses]
    refine ⟨rfl, (known_push core t).trans ?_⟩
    exact or_congr_right (and_iff_right hpasses).symm
  · rw [if_neg hpasses]
    refine ⟨rfl, .inl, ?_⟩
    rintro (hknown | ⟨hpassed, -⟩)
    · exact hknown
    · exact absurd hpassed hpasses

/-- An envelope that reaches the ingress is known afterwards if it was before, or if every
screen lets it pass. -/
theorem known_ingest (core : NodeCore D) (t : SignedTx) (nowNanos : Nat) :
    (core.ingest cfg chain t nowNanos).2.pending = core.pending ∧
      ((core.ingest cfg chain t nowNanos).2.Known chain t ↔
        core.Known chain t ∨ core.Screened cfg chain t nowNanos) := by
  unfold ingest
  by_cases hmany : maxSigners < t.signers.length ∨ maxSigners < t.signatures.length
  · rw [if_pos hmany]
    refine ⟨rfl, .inl, ?_⟩
    rintro (hknown | hscreened)
    · exact hknown
    · rcases hmany with hmany | hmany
      · exact absurd hmany (Nat.not_lt_of_le hscreened.signers)
      · exact absurd hmany (Nat.not_lt_of_le hscreened.signatures)
  rw [if_neg hmany]
  by_cases hforged : ¬core.authenticated cfg chain t = true
  · rw [if_pos hforged]
    refine ⟨rfl, .inl, ?_⟩
    rintro (hknown | hscreened)
    · exact hknown
    · exact absurd hscreened.authenticated hforged
  rw [if_neg hforged]
  refine ⟨(known_submit core t nowNanos).1, (known_submit core t nowNanos).2.trans ?_⟩
  refine or_congr_right ⟨fun h => ?_, fun h => ⟨h.passes, h.room⟩⟩
  obtain ⟨hsigners, hsignatures⟩ := not_or.1 hmany
  exact ⟨Nat.le_of_not_lt hsigners, Nat.le_of_not_lt hsignatures, not_not.1 hforged, h.1, h.2⟩

/-! ### A proposal that is completed -/

theorem contains_tombstone (pool : PendingPool) (digest : View.Digest) :
    (pool.tombstone digest).tombstones.contains digest = true := by
  unfold PendingPool.tombstone
  split
  · next h => exact h
  · exact Std.ExtTreeSet.contains_insert_self

theorem requestDigest_scheme (chain : Chain) (s : State) (req : PendingSignReq) :
    View.requestDigest chain.scheme s req = some (Encoding.txDigest chain.sha256 s.chainId req.tx
      req.nonce req.notAfterEpoch) := rfl

/-- Who opened an entry and whom it counts against is not part of its envelope. -/
theorem envelope_openEntry (entry : Option View.PendingEntry) (req : PendingSignReq)
    (initiator initiator' : MemberId) (opener opener' : Party) (nowSecs : Nat) :
    envelope ((entry.getD (View.openEntry req initiator opener nowSecs)).signed req).completed =
      envelope ((entry.getD (View.openEntry req initiator' opener' nowSecs)).signed req).completed := by
  cases entry <;> rfl

theorem assembled_eq {req : PendingSignReq} {nowSecs : Nat} {digest : View.Digest}
    (hdigest : View.requestDigest chain.scheme core.replica.state req = some digest) :
    core.assembled chain req nowSecs =
      envelope ((((core.pending.prune nowSecs).entries[digest]?).getD
        (View.openEntry req 0 (.key req.signer) nowSecs)).signed req).completed := by
  unfold assembled
  rw [hdigest]
  rfl

/-- A pool that hands a proposal over hands over the assembled envelope, and does not take its
digest again. -/
theorem envelope_of_complete {req : PendingSignReq} {nowSecs : Nat} {done : Completed}
    (hdone : (core.pending.sign chain.scheme core.replica.state req nowSecs).1 = .complete done) :
    envelope done = core.assembled chain req nowSecs ∧
      ∃ digest, View.requestDigest chain.scheme core.replica.state req = some digest ∧
        (core.pending.sign chain.scheme core.replica.state req nowSecs).2.tombstones.contains
          digest = true := by
  rcases View.sign_cases chain.scheme core.pending core.replica.state req nowSecs with
    ⟨why, hrefused⟩ | ⟨digest, party, p, room, hdigest, -, -, hmake, hrecord⟩
  · rw [hrefused] at hdone
    cases hdone
  have hsame : room.entries[digest]? = (core.pending.prune nowSecs).entries[digest]? :=
    (View.makeRoom_spec hmake).2.2.1
  rw [hrecord] at hdone ⊢
  rcases View.record_cases room core.replica.state req digest
    ((room.entries[digest]?).getD (View.openEntry req p.1 p.2 nowSecs)) with
    ⟨done', hcomplete, hcompleted, -⟩ | ⟨new, hnew, -⟩
  · rw [hcomplete] at hdone ⊢
    obtain rfl := SignOutcome.complete.inj hdone
    refine ⟨?_, digest, hdigest, contains_tombstone _ digest⟩
    rw [assembled_eq hdigest, ← hsame, hcompleted]
    exact envelope_openEntry (room.entries[digest]?) req p.1 0 p.2 (.key req.signer) nowSecs
  · rw [hnew] at hdone
    cases hdone

theorem settlePending_completed {outcome : SignOutcome} {laterNanos : Nat} {queued : Bool}
    (h : (settlePending cfg chain core outcome laterNanos).1 = .completed queued) :
    ∃ done, outcome = .complete done ∧ (settlePending cfg chain core outcome laterNanos).2 =
      (core.ingest cfg chain (envelope done) laterNanos).2 := by
  cases outcome with
  | rejected why => cases h
  | recorded new => cases h
  | complete done => exact ⟨done, rfl, rfl⟩

/-- A request that completes a proposal: the core hands the assembled envelope to the
ingress. -/
theorem pendingSign_completed {req : PendingSignReq} {clockSecs laterNanos : Nat} {queued : Bool}
    (h : (core.pendingSign cfg chain req clockSecs nowNanos laterNanos).1 = .completed queued) :
    ∃ done limiter, (core.pending.sign chain.scheme core.replica.state req
        (core.proposeTime clockSecs)).1 = .complete done ∧
      (core.pendingSign cfg chain req clockSecs nowNanos laterNanos).2 =
        (ingest cfg chain
          { core with
            pendingLimiter := limiter
            pending := (core.pending.sign chain.scheme core.replica.state req
              (core.proposeTime clockSecs)).2 }
          (envelope done) laterNanos).2 := by
  generalize hsigned : core.pending.sign chain.scheme core.replica.state req
    (core.proposeTime clockSecs) = signed
  unfold pendingSign at h ⊢
  dsimp only at h ⊢
  rw [hsigned] at h ⊢
  cases hdigest : View.requestDigest chain.scheme core.replica.state req with
  | none =>
    rw [hdigest] at h
    cases h
  | some digest =>
    rw [hdigest] at h
    dsimp only at h ⊢
    cases hbucket : core.pendingBucket chain req digest (core.proposeTime clockSecs) with
    | error why =>
      rw [hbucket] at h
      cases h
    | ok bucket =>
      rw [hbucket] at h
      dsimp only at h ⊢
      by_cases hallowed : ¬(core.pendingLimiter.allow (some bucket) nowNanos).1 = true
      · rw [if_pos hallowed] at h
        cases h
      rw [if_neg hallowed] at h ⊢
      obtain ⟨done, hdone, hcore⟩ := settlePending_completed h
      exact ⟨done, _, hdone, hcore⟩

/-- No screen reads the pool of proposals or its limiter. -/
theorem screened_iff {limiter : RateLimiter} {pool : PendingPool} :
    Screened cfg chain { core with pendingLimiter := limiter, pending := pool } t nowNanos ↔
      core.Screened cfg chain t nowNanos :=
  ⟨fun h => ⟨h.signers, h.signatures, h.authenticated, h.passes, h.room⟩,
    fun h => ⟨h.signers, h.signatures, h.authenticated, h.passes, h.room⟩⟩

/-- An envelope whose digest is dead is lost at the ingress unless it was known, or passes. -/
theorem lost_ingest (limiter : RateLimiter) {pool : PendingPool} {digest : View.Digest}
    (hdead : pool.tombstones.contains digest = true) :
    ¬(ingest cfg chain { core with pendingLimiter := limiter, pending := pool } t nowNanos).2.Lost
        chain t digest ↔ core.Known chain t ∨ core.Screened cfg chain t nowNanos := by
  obtain ⟨hpending, hknown⟩ := @known_ingest D cfg chain
    { core with pendingLimiter := limiter, pending := pool } t nowNanos
  unfold Lost
  rw [hpending, and_iff_left hdead, not_not, hknown, screened_iff]
  rfl

/-- **When a completed proposal is kept.** The envelope of a proposal that a request completes is
not lost exactly if the node knew it before, or if every screen of the ingress lets it pass. -/
theorem completed_iff {req : PendingSignReq} {clockSecs laterNanos : Nat} {queued : Bool}
    (h : (core.pendingSign cfg chain req clockSecs nowNanos laterNanos).1 = .completed queued) :
    ∃ digest, View.requestDigest chain.scheme core.replica.state req = some digest ∧
      (¬(core.pendingSign cfg chain req clockSecs nowNanos laterNanos).2.Lost chain
            (core.assembled chain req (core.proposeTime clockSecs)) digest ↔
        core.Known chain (core.assembled chain req (core.proposeTime clockSecs)) ∨
          core.Screened cfg chain (core.assembled chain req (core.proposeTime clockSecs))
            laterNanos) := by
  obtain ⟨done, limiter, hdone, hcore⟩ := pendingSign_completed h
  obtain ⟨henvelope, digest, hdigest, hdead⟩ := envelope_of_complete hdone
  refine ⟨digest, hdigest, ?_⟩
  rw [← henvelope, hcore]
  exact lost_ingest limiter hdead

end NodeCore

/-! ### A sale that is signed by both -/

/-- A founder's request to sign a sale between the first two founders. -/
def saleSignature (founder : Nat) : PendingSignReq where
  tx := .sale (.member 0) (.member 1) (F64.ofNat 10) 30
  nonce := View.zeroNonce
  notAfterEpoch := 1
  required := [.member 0, .member 1]
  minSigs := 2
  signer := founderKey founder
  signature := [0]

/-- The node with the first founder's signature, and with a limiter. -/
def halfSigned (limiter : RateLimiter) : NodeCore Nat :=
  (NodeCore.pendingSign {} plainChain { firstHistory.core with txLimiter := limiter }
    (saleSignature 0) 5 0 0).2

/-- The limiter after the first founder has spent its tokens. -/
def spentLimiter : RateLimiter :=
  Nat.repeat (fun limiter => (limiter.allow (some (founderKey 0)) 0).2) 64 txLimiter

/-- The second founder's signature. -/
def secondSignature (core : NodeCore Nat) : PendingAnswer × NodeCore Nat :=
  core.pendingSign {} plainChain (saleSignature 1) 6 0 0

/-- The envelope of the sale, and its digest. -/
def saleEnvelope (core : NodeCore Nat) : SignedTx :=
  core.assembled plainChain (saleSignature 1) (core.proposeTime 6)

def saleDigest (core : NodeCore Nat) : View.Digest :=
  Encoding.txDigest plainChain.sha256 core.replica.state.chainId (saleSignature 1).tx
    (saleSignature 1).nonce (saleSignature 1).notAfterEpoch

/-- The second signature completes the sale, and the envelope is queued. -/
theorem completed_sale :
    ¬(secondSignature (halfSigned txLimiter)).2.Lost plainChain
      (saleEnvelope (halfSigned txLimiter)) (saleDigest (halfSigned txLimiter)) := by
  have hcompleted : ((halfSigned txLimiter).pendingSign {} plainChain (saleSignature 1) 6 0 0).1 =
      .completed true := by decide +kernel
  obtain ⟨digest, hdigest, hiff⟩ := NodeCore.completed_iff hcompleted
  rw [NodeCore.requestDigest_scheme] at hdigest
  have hsame : saleDigest (halfSigned txLimiter) = digest := Option.some.inj hdigest
  rw [hsame]
  exact hiff.2 (.inr ⟨by decide +kernel, by decide +kernel, by decide +kernel, by decide +kernel,
    by decide +kernel⟩)

/-- Where the first founder has spent its tokens, the second signature completes the sale too: the
proposal is told to be complete, its envelope is not queued, and its digest is dead, so that
neither signature is taken again. -/
theorem lost_sale :
    (secondSignature (halfSigned spentLimiter)).1 = .completed false ∧
      (secondSignature (halfSigned spentLimiter)).2.Lost plainChain
        (saleEnvelope (halfSigned spentLimiter)) (saleDigest (halfSigned spentLimiter)) ∧
      View.requestDigest plainChain.scheme (halfSigned spentLimiter).replica.state
        (saleSignature 1) = some (saleDigest (halfSigned spentLimiter)) ∧
      ∀ founder ∈ [0, 1], ((secondSignature (halfSigned spentLimiter)).2.pendingSign {} plainChain
        (saleSignature founder) 100 100000000000 100000000000).1 =
          .refused "already completed or declined" := by
  refine ⟨by decide +kernel, ⟨?_, by decide +kernel⟩, by decide +kernel, by decide +kernel⟩
  unfold NodeCore.Known
  decide +kernel

end Edet.Node
