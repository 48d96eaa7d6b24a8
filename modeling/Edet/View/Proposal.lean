import Edet.View.Pending
import Edet.Library.Runs

/-!
# One proposal in the pool

What the pool does with the messages about one digest does not depend on the others as long
as it is below its caps and the entry inside its lifetime: the pool's state for a digest is
a `Phase`, and a message moves it as `Phase.sign` and `Phase.decline` say
(`deliver_sign`, `deliver_decline`), or leaves it alone if it is about another digest
(`deliver_sign_other`, `deliver_decline_other`).

So a run of messages is, for each digest, a run of a machine of three states
(`outcomes_eq`): the proposal is not there yet, it is collecting signatures, or it is dead.
-/

namespace Edet.View

/-- What a node receives, with the ledger it stands at. -/
inductive Msg
  | sign (s : State) (req : PendingSignReq) (nowSecs : Nat)
  | decline (s : State) (digest : Digest) (signer : Key) (signature : Bytes)

/-- What is handed over. -/
def SignOutcome.handed : SignOutcome → Option Completed
  | .complete done => some done
  | _ => none

/-- How far a proposal has come. -/
inductive Phase
  | idle
  | live (e : PendingEntry)
  | closed

def PendingPool.phase (pool : PendingPool) (digest : Digest) : Phase :=
  if pool.tombstones.contains digest then .closed
  else
    match pool.entries[digest]? with
    | none => .idle
    | some e => .live e

/-- The pool is below its caps. -/
structure Roomy (pool : PendingPool) : Prop where
  entries : pool.entries.size < maxEntries
  tombstones : pool.tombstoneOrder.length ≤ maxTombstones
  invited : ∀ inviter, pool.invited inviter < maxInvitedPerMember

/-- The entry for the digest is inside its lifetime. -/
def InLifetime (pool : PendingPool) (digest : Digest) (nowSecs : Nat) : Prop :=
  ∀ e, pool.entries[digest]? = some e → nowSecs < horizon e.createdSecs pendingTtlSecs

/-- When a request is received. -/
def Msg.receivedSecs : Msg → Option Nat
  | .sign _ _ nowSecs => some nowSecs
  | .decline .. => none

section Scheme

variable (scheme : Scheme) (sha256 : Bytes → Bytes)

namespace Msg

/-- The digest a message is about. -/
def digest : Msg → Option Digest
  | .sign s req _ => requestDigest scheme s req
  | .decline _ digest _ _ => some digest

/-- The party that verifiably sent it. -/
def party : Msg → Option Party
  | .sign s req _ =>
    match requestDigest scheme s req with
    | none => none
    | some digest => verifiedSigner scheme s req digest
  | .decline s digest signer signature => verifiedDecliner scheme sha256 s digest signer signature

/-- Deliver a message to a pool: what is handed over, and the pool. -/
def deliver (msg : Msg) (pool : PendingPool) : Option Completed × PendingPool :=
  match msg with
  | .sign s req nowSecs =>
    ((pool.sign scheme s req nowSecs).1.handed, (pool.sign scheme s req nowSecs).2)
  | .decline s digest signer signature =>
    (none, (pool.decline scheme sha256 s digest signer signature).2)

end Msg

/-! ### The machine of one digest -/

/-- The party a request counts for: its verified signer, where the request names it. -/
def countsFor (s : State) (req : PendingSignReq) (digest : Digest) : Option Party :=
  if req.required = [] ∨ req.minSigs = 0 ∨ req.required.length < req.minSigs then none
  else
    match verifiedSigner scheme s req digest with
    | none => none
    | some party => if party ∈ req.required then some party else none

/-- Who opens an entry with the request, if its signer may. -/
def mayOpen (s : State) (req : PendingSignReq) (party : Party) (nowSecs : Nat) :
    Option (MemberId × Party) :=
  match party with
  | .member id => some (id, .member id)
  | .key k => (invitedBy scheme s req nowSecs).map fun p => (p.1, .key k)

namespace Phase

/-- A signature is added to an entry. -/
def record (s : State) (req : PendingSignReq) (e : PendingEntry) : Option Completed × Phase :=
  if (e.signed req).minSigs ≤ (signedParties s (e.signed req)).length then
    (some (e.signed req).completed, .closed)
  else (none, .live (e.signed req))

def sign (phase : Phase) (s : State) (req : PendingSignReq) (digest : Digest) (nowSecs : Nat) :
    Option Completed × Phase :=
  match phase, countsFor scheme s req digest with
  | .closed, _ => (none, .closed)
  | phase, none => (none, phase)
  | .live e, some _ => record s req e
  | .idle, some party =>
    match mayOpen scheme s req party nowSecs with
    | none => (none, .idle)
    | some (initiator, opener) => record s req (openEntry req initiator opener nowSecs)

def decline (phase : Phase) (s : State) (digest : Digest) (signer : Key) (signature : Bytes) :
    Phase :=
  match phase, verifiedDecliner scheme sha256 s digest signer signature with
  | .live e, some party =>
    if party ∉ e.required ∧ party ≠ .member e.initiator then .live e else .closed
  | phase, _ => phase

/-- What a message does to the phase of one digest. -/
def deliver (digest : Digest) (phase : Phase) : Msg → Option Completed × Phase
  | .sign s req nowSecs =>
    if requestDigest scheme s req = some digest then phase.sign scheme s req digest nowSecs
    else (none, phase)
  | .decline s d signer signature =>
    if d = digest then (none, phase.decline scheme sha256 s digest signer signature)
    else (none, phase)

/-- The messages of a run, each with what was handed over on it. -/
def outcomes (digest : Digest) : Phase → List Msg → List (Msg × Option Completed)
  | _, [] => []
  | phase, msg :: run =>
    (msg, (phase.deliver scheme sha256 digest msg).1) ::
      outcomes digest (phase.deliver scheme sha256 digest msg).2 run

end Phase

/-- The messages of a run, each with what the pool handed over on it for the digest. -/
def PendingPool.outcomes (digest : Digest) : PendingPool → List Msg → List (Msg × Option Completed)
  | _, [] => []
  | pool, msg :: run =>
    (msg, if msg.digest scheme = some digest then (msg.deliver scheme sha256 pool).1 else none) ::
      PendingPool.outcomes digest (msg.deliver scheme sha256 pool).2 run

/-- The pool stays below its caps over a run, and the digest's entry inside its lifetime. -/
def Calm (digest : Digest) : PendingPool → List Msg → Prop
  | _, [] => True
  | pool, msg :: run =>
    Roomy pool ∧ (∀ nowSecs, msg.receivedSecs = some nowSecs → InLifetime pool digest nowSecs) ∧
      Calm digest (msg.deliver scheme sha256 pool).2 run

/-! ### The pool refines it -/

variable {scheme sha256} {pool : PendingPool} {digest : Digest}

theorem PendingPool.prune_of_roomy (h : Roomy pool) (nowSecs : Nat) :
    pool.prune nowSecs = { pool with
      entries := pool.entries.filter fun _ e => decide (nowSecs < horizon e.createdSecs pendingTtlSecs) } := by
  have hnone : pool.tombstoneOrder.length - maxTombstones = 0 := Nat.sub_eq_zero_of_le h.tombstones
  unfold PendingPool.prune
  simp only [hnone, List.take_zero, List.foldl_nil, List.drop_zero]

theorem entry_prune {nowSecs : Nat} (halive : InLifetime pool digest nowSecs) :
    (pool.prune nowSecs).entries[digest]? = pool.entries[digest]? := by
  show (pool.entries.filter _)[digest]? = _
  rw [Std.ExtTreeMap.getElem?_filter]
  cases hentry : pool.entries[digest]? with
  | none => rfl
  | some e => simp [halive e hentry]

theorem phase_prune {nowSecs : Nat} (h : Roomy pool) (halive : InLifetime pool digest nowSecs) :
    (pool.prune nowSecs).phase digest = pool.phase digest := by
  have htombstones : (pool.prune nowSecs).tombstones = pool.tombstones := by
    rw [PendingPool.prune_of_roomy h]
  unfold PendingPool.phase
  rw [htombstones, entry_prune halive]

theorem roomy_prune (h : Roomy pool) (nowSecs : Nat) :
    (pool.prune nowSecs).entries.size < maxEntries ∧
      ∀ inviter, (pool.prune nowSecs).invited inviter < maxInvitedPerMember := by
  refine ⟨lt_of_le_of_lt Std.ExtTreeMap.size_filter_le_size h.entries, fun inviter => ?_⟩
  refine lt_of_le_of_lt ?_ (h.invited inviter)
  unfold PendingPool.invited PendingPool.prune
  rw [Std.ExtTreeMap.toList_filter]
  exact List.filter_sublist.countP_le

theorem makeRoom_of_roomy {d : Digest} (h : pool.entries.size < maxEntries) (initiator : MemberId) :
    pool.makeRoom d initiator = some pool := by
  unfold PendingPool.makeRoom
  rw [if_neg fun hfull => (Nat.not_le_of_lt h) hfull.1]

/-- A pool after an entry was signed: the entry is dead or has one more signature. -/
theorem record_cases (pool : PendingPool) (s : State) (req : PendingSignReq) (d : Digest)
    (e : PendingEntry) :
    (∃ done, pool.record s req d e = (.complete done,
        PendingPool.tombstone { pool with entries := pool.entries.erase d } d) ∧
      done = (e.signed req).completed ∧
      (e.signed req).minSigs ≤ (signedParties s (e.signed req)).length) ∨
    (∃ new, pool.record s req d e = (.recorded new,
        { pool with entries := pool.entries.insert d (e.signed req) }) ∧
      ¬(e.signed req).minSigs ≤ (signedParties s (e.signed req)).length) := by
  unfold PendingPool.record
  dsimp only
  split
  · next h => exact Or.inl ⟨_, rfl, rfl, h⟩
  · next h => exact Or.inr ⟨_, rfl, h⟩

theorem phase_tombstone (pool : PendingPool) (d : Digest) : (pool.tombstone d).phase d = .closed := by
  unfold PendingPool.tombstone PendingPool.phase
  split
  · rfl
  · simp

theorem phase_tombstone_other (pool : PendingPool) {d : Digest} (hne : d ≠ digest) :
    (PendingPool.tombstone { pool with entries := pool.entries.erase d } d).phase digest =
      pool.phase digest := by
  have hentry : (pool.entries.erase d)[digest]? = pool.entries[digest]? := by
    rw [Std.ExtTreeMap.getElem?_erase, if_neg (by simpa using hne)]
  unfold PendingPool.tombstone PendingPool.phase
  split
  · dsimp only
    rw [hentry]
  · dsimp only
    rw [hentry, Std.ExtTreeSet.contains_insert]
    have hcompare : (compare d digest == .eq) = false := by simpa using hne
    rw [hcompare, Bool.false_or]

theorem phase_insert_other (pool : PendingPool) {d : Digest} (hne : d ≠ digest) (e : PendingEntry) :
    PendingPool.phase { pool with entries := pool.entries.insert d e } digest =
      pool.phase digest := by
  have hentry : (pool.entries.insert d e)[digest]? = pool.entries[digest]? := by
    rw [Std.ExtTreeMap.getElem?_insert, if_neg (by simpa using hne)]
  unfold PendingPool.phase
  dsimp only
  rw [hentry]

/-- Signing an entry of another digest leaves this one alone. -/
theorem phase_record_other (pool : PendingPool) (s : State) (req : PendingSignReq) {d : Digest}
    (hne : d ≠ digest) (e : PendingEntry) :
    (pool.record s req d e).2.phase digest = pool.phase digest := by
  rcases record_cases pool s req d e with ⟨done, hrecord, -, -⟩ | ⟨new, hrecord, -⟩
  · rw [hrecord]
    exact phase_tombstone_other pool hne
  · rw [hrecord]
    exact phase_insert_other pool hne _

/-- What is left of `sign` once the request is known to count. -/
theorem sign_of_countsFor {s : State} {req : PendingSignReq} {nowSecs : Nat} {d : Digest}
    (h : Roomy pool) (hdigest : requestDigest scheme s req = some d) {party : Party}
    (hopen : (pool.prune nowSecs).tombstones.contains d = false)
    (hcounts : countsFor scheme s req d = some party) :
    pool.sign scheme s req nowSecs =
      match (pool.prune nowSecs).opening scheme s req d party nowSecs with
      | .error why => (.rejected why, pool.prune nowSecs)
      | .ok p => (pool.prune nowSecs).record s req d
          (((pool.prune nowSecs).entries[d]?).getD (openEntry req p.1 p.2 nowSecs)) := by
  unfold countsFor at hcounts
  split_ifs at hcounts with hbad
  unfold PendingPool.sign
  simp only [hdigest, hopen, Bool.false_eq_true, if_false, if_neg hbad]
  cases hsigner : verifiedSigner scheme s req d with
  | none => rw [hsigner] at hcounts; cases hcounts
  | some signer =>
    rw [hsigner] at hcounts
    dsimp only at hcounts ⊢
    split_ifs at hcounts with hmem
    obtain rfl := Option.some.inj hcounts
    rw [if_neg (not_not.2 hmem)]
    cases (pool.prune nowSecs).opening scheme s req d signer nowSecs with
    | error why => rfl
    | ok p =>
      dsimp only
      rw [makeRoom_of_roomy (roomy_prune h nowSecs).1]

/-- A request that does not count is turned away. -/
theorem sign_of_not_countsFor (pool : PendingPool) {s : State} {req : PendingSignReq}
    (nowSecs : Nat) {d : Digest} (hdigest : requestDigest scheme s req = some d)
    (hrefused : (pool.prune nowSecs).tombstones.contains d = true ∨
      countsFor scheme s req d = none) :
    ∃ why, pool.sign scheme s req nowSecs = (.rejected why, pool.prune nowSecs) := by
  unfold PendingPool.sign
  simp only [hdigest]
  split_ifs with hclosed hbad
  · exact ⟨_, rfl⟩
  · exact ⟨_, rfl⟩
  · have hnone := hrefused.resolve_left hclosed
    unfold countsFor at hnone
    rw [if_neg hbad] at hnone
    cases hsigner : verifiedSigner scheme s req d with
    | none => exact ⟨_, rfl⟩
    | some signer =>
      rw [hsigner] at hnone
      dsimp only at hnone ⊢
      split_ifs at hnone with hmem
      rw [if_pos hmem]
      exact ⟨_, rfl⟩

theorem phase_of_open {d : Digest} (h : pool.tombstones.contains d = false) :
    pool.phase d = match pool.entries[d]? with
      | none => .idle
      | some e => .live e := by
  unfold PendingPool.phase
  rw [h]
  rfl

/-- Recording a signature moves the phase as the machine does. -/
theorem record_phase (pool : PendingPool) (s : State) (req : PendingSignReq) {d : Digest}
    (hopen : pool.tombstones.contains d = false) (e : PendingEntry) :
    ((pool.record s req d e).1.handed, (pool.record s req d e).2.phase d) =
      Phase.record s req e := by
  unfold Phase.record
  rcases record_cases pool s req d e with ⟨done, hrecord, rfl, hdone⟩ | ⟨new, hrecord, hmore⟩
  · rw [hrecord, if_pos hdone, phase_tombstone]
    rfl
  · rw [hrecord, if_neg hmore]
    dsimp only
    have hopen : (PendingPool.tombstones { pool with
        entries := pool.entries.insert d (e.signed req) }).contains d = false := hopen
    rw [phase_of_open hopen, Std.ExtTreeMap.getElem?_insert_self]
    rfl

/-- An open digest moves as the machine does on a request that counts. -/
theorem opening_phase {pruned : PendingPool} {s : State} {req : PendingSignReq} {nowSecs : Nat}
    (hopen : pruned.tombstones.contains digest = false)
    (hinvited : ∀ inviter, pruned.invited inviter < maxInvitedPerMember) {party : Party}
    (hcounts : countsFor scheme s req digest = some party)
    {out : SignOutcome × PendingPool}
    (hout : out = match pruned.opening scheme s req digest party nowSecs with
      | .error why => (.rejected why, pruned)
      | .ok p => pruned.record s req digest
          ((pruned.entries[digest]?).getD (openEntry req p.1 p.2 nowSecs))) :
    (out.1.handed, out.2.phase digest) = (pruned.phase digest).sign scheme s req digest nowSecs := by
  unfold Phase.sign
  rw [hcounts]
  cases hentry : pruned.entries[digest]? with
  | some e =>
    have hlive : pruned.phase digest = .live e := by
      rw [phase_of_open hopen, hentry]
    have hout : out = pruned.record s req digest e := by
      unfold PendingPool.opening at hout
      rw [hentry] at hout
      cases party <;> exact hout
    rw [hlive, hout]
    exact record_phase pruned s req hopen e
  | none =>
    have hidle : pruned.phase digest = .idle := by
      rw [phase_of_open hopen, hentry]
    have hopening : pruned.opening scheme s req digest party nowSecs =
        match mayOpen scheme s req party nowSecs with
        | some p => .ok p
        | none => .error "only a member, or a key holding a member's invitation, may open a proposal" := by
      unfold PendingPool.opening mayOpen
      rw [hentry]
      cases party with
      | member id => rfl
      | key k =>
        cases invitedBy scheme s req nowSecs with
        | none => rfl
        | some p => exact if_neg (Nat.not_le_of_lt (hinvited p.1))
    rw [hidle]
    rw [hopening, hentry] at hout
    cases hmay : mayOpen scheme s req party nowSecs with
    | none =>
      rw [hmay] at hout
      dsimp only
      rw [hout, hmay]
      exact congrArg (Prod.mk none) hidle
    | some p =>
      rw [hmay] at hout
      dsimp only
      rw [hout, hmay]
      exact record_phase pruned s req hopen _

theorem deliver_sign_eq (pool : PendingPool) (s : State) (req : PendingSignReq) (nowSecs : Nat) :
    (Msg.sign s req nowSecs).deliver scheme sha256 pool =
      ((pool.sign scheme s req nowSecs).1.handed, (pool.sign scheme s req nowSecs).2) := rfl

theorem closed_sign (s : State) (req : PendingSignReq) (digest : Digest) (nowSecs : Nat) :
    Phase.closed.sign scheme s req digest nowSecs = (none, .closed) := rfl

/-- A request that does not count moves nothing. -/
theorem sign_not_counting {phase : Phase} {s : State} {req : PendingSignReq} {digest : Digest}
    {nowSecs : Nat} (hcounts : countsFor scheme s req digest = none) :
    phase.sign scheme s req digest nowSecs = (none, phase) := by
  unfold Phase.sign
  rw [hcounts]
  cases phase <;> rfl

/-- **A request moves the phase of its digest as the machine says**, and hands over what the
machine hands over. -/
theorem deliver_sign {s : State} {req : PendingSignReq} {nowSecs : Nat} (h : Roomy pool)
    (halive : InLifetime pool digest nowSecs) (hdigest : requestDigest scheme s req = some digest) :
    (((Msg.sign s req nowSecs).deliver scheme sha256 pool).1,
      ((Msg.sign s req nowSecs).deliver scheme sha256 pool).2.phase digest) =
      (pool.phase digest).sign scheme s req digest nowSecs := by
  rw [← phase_prune h halive, deliver_sign_eq]
  cases hclosed : (pool.prune nowSecs).tombstones.contains digest with
  | true =>
    obtain ⟨why, hsign⟩ := sign_of_not_countsFor pool nowSecs hdigest (Or.inl hclosed)
    have hdead : (pool.prune nowSecs).phase digest = .closed := by
      unfold PendingPool.phase
      rw [if_pos hclosed]
    rw [hsign]
    dsimp only
    rw [hdead, closed_sign]
    rfl
  | false =>
    cases hcounts : countsFor scheme s req digest with
    | none =>
      obtain ⟨why, hsign⟩ := sign_of_not_countsFor pool nowSecs hdigest (Or.inr hcounts)
      rw [hsign, sign_not_counting hcounts]
      rfl
    | some party =>
      exact opening_phase hclosed (roomy_prune h nowSecs).2 hcounts
        (sign_of_countsFor h hdigest hclosed hcounts)

/-- A request about another digest, or about none, moves nothing here. -/
theorem deliver_sign_other {s : State} {req : PendingSignReq} {nowSecs : Nat} (h : Roomy pool)
    (halive : InLifetime pool digest nowSecs) (hdigest : requestDigest scheme s req ≠ some digest) :
    ((Msg.sign s req nowSecs).deliver scheme sha256 pool).2.phase digest = pool.phase digest := by
  rw [← phase_prune h halive]
  unfold Msg.deliver
  have hsame : ((pool.sign scheme s req nowSecs).2).phase digest =
      (pool.prune nowSecs).phase digest := by
    cases hd : requestDigest scheme s req with
    | none =>
      unfold PendingPool.sign
      simp only [hd]
    | some d =>
      have hne : d ≠ digest := fun heq => hdigest (by rw [hd, heq])
      cases hclosed : (pool.prune nowSecs).tombstones.contains d with
      | true =>
        obtain ⟨why, hsign⟩ := sign_of_not_countsFor pool nowSecs hd (Or.inl hclosed)
        rw [hsign]
      | false =>
        cases hcounts : countsFor scheme s req d with
        | none =>
          obtain ⟨why, hsign⟩ := sign_of_not_countsFor pool nowSecs hd
            (Or.inr hcounts)
          rw [hsign]
        | some party =>
          rw [sign_of_countsFor h hd hclosed hcounts]
          cases (pool.prune nowSecs).opening scheme s req d party nowSecs with
          | error why => rfl
          | ok p => exact phase_record_other _ s req hne _
  exact hsame

/-- **A decline moves the phase of its digest as the machine says.** -/
theorem deliver_decline (pool : PendingPool) (s : State) (digest : Digest) (signer : Key)
    (signature : Bytes) :
    ((Msg.decline s digest signer signature).deliver scheme sha256 pool).2.phase digest =
      (pool.phase digest).decline scheme sha256 s digest signer signature := by
  have hdeliver : ((Msg.decline s digest signer signature).deliver scheme sha256 pool).2 =
      (pool.decline scheme sha256 s digest signer signature).2 := rfl
  rw [hdeliver]
  unfold PendingPool.decline Phase.decline
  cases hparty : verifiedDecliner scheme sha256 s digest signer signature with
  | none => cases pool.phase digest <;> rfl
  | some party =>
    cases hentry : pool.entries[digest]? with
    | none =>
      dsimp only
      unfold PendingPool.phase
      rw [hentry]
      split <;> rfl
    | some e =>
      dsimp only
      cases hclosed : pool.tombstones.contains digest with
      | true =>
        have hdead : pool.phase digest = .closed := by
          unfold PendingPool.phase
          rw [if_pos hclosed]
        rw [hdead]
        split_ifs
        · exact hdead
        · exact phase_tombstone _ digest
      | false =>
        have hlive : pool.phase digest = .live e := by
          rw [phase_of_open hclosed, hentry]
        rw [hlive]
        dsimp only
        split_ifs with hstranger
        · exact hlive
        · exact phase_tombstone _ digest

/-- A decline of another digest moves nothing here. -/
theorem deliver_decline_other (pool : PendingPool) (s : State) {d : Digest} (hne : d ≠ digest)
    (signer : Key) (signature : Bytes) :
    ((Msg.decline s d signer signature).deliver scheme sha256 pool).2.phase digest =
      pool.phase digest := by
  have hdeliver : ((Msg.decline s d signer signature).deliver scheme sha256 pool).2 =
      (pool.decline scheme sha256 s d signer signature).2 := rfl
  rw [hdeliver]
  unfold PendingPool.decline
  cases verifiedDecliner scheme sha256 s d signer signature with
  | none => rfl
  | some party =>
    cases pool.entries[d]? with
    | none => rfl
    | some e =>
      dsimp only
      split_ifs with hstranger
      · rfl
      · exact phase_tombstone_other pool hne

/-- **A message moves the phase of a digest as the machine says**, and hands over for it what
the machine hands over. -/
theorem deliver_phase (scheme : Scheme) (sha256 : Bytes → Bytes) {msg : Msg} (h : Roomy pool)
    (halive : ∀ nowSecs, msg.receivedSecs = some nowSecs → InLifetime pool digest nowSecs) :
    ((if msg.digest scheme = some digest then (msg.deliver scheme sha256 pool).1 else none),
      (msg.deliver scheme sha256 pool).2.phase digest) =
      (pool.phase digest).deliver scheme sha256 digest msg := by
  cases msg with
  | sign s req nowSecs =>
    have halive := halive nowSecs rfl
    unfold Phase.deliver Msg.digest
    dsimp only
    by_cases hdigest : requestDigest scheme s req = some digest
    · rw [if_pos hdigest, if_pos hdigest]
      exact deliver_sign h halive hdigest
    · rw [if_neg hdigest, if_neg hdigest]
      exact congrArg (Prod.mk none) (deliver_sign_other h halive hdigest)
  | decline s d signer signature =>
    unfold Phase.deliver Msg.digest
    dsimp only
    by_cases hd : d = digest
    · rw [if_pos (congrArg some hd), if_pos hd, hd]
      exact congrArg (Prod.mk none) (deliver_decline pool s digest signer signature)
    · rw [if_neg fun heq => hd (Option.some.inj heq), if_neg hd]
      exact congrArg (Prod.mk none) (deliver_decline_other pool s hd signer signature)

/-- **What a pool hands over for a digest is what the digest's machine does**, over every run
below the caps. -/
theorem outcomes_eq {run : List Msg} (h : Calm scheme sha256 digest pool run) :
    pool.outcomes scheme sha256 digest run =
      (pool.phase digest).outcomes scheme sha256 digest run := by
  induction run generalizing pool with
  | nil => rfl
  | cons msg run ih =>
    obtain ⟨hroomy, halive, hrest⟩ := h
    have hstep := deliver_phase scheme sha256 hroomy halive
    unfold PendingPool.outcomes Phase.outcomes
    rw [← hstep, ih hrest]

end Scheme

end Edet.View
