import Edet.Ledger.Origin
import Edet.Node.FailedCommit
import Edet.Node.Reopening

/-!
# Recovery

A replica that is opened again starts from its snapshot, or else from the genesis, and replays the
blocks of its log above it. Behind any blocks that were committed, whatever the interval of the
snapshots and the margin of the pruning, this ends at the state, the height and the commitment of
the replica that wrote the files (`Recorded`). The time of the last block is that of the last block
**replayed**: where the snapshot is at the replica's height there is none, and the time is zero
(`recovers_iff`). Such a replica takes a next block whose time goes back.
-/

namespace Edet.Node

open Op

section

variable {σ D : Type} (M : Machine σ) (sameSalt : σ → σ → Bool) (genesis : σ)

/-- Where a replay of the files starts. -/
def Store.resumed (s : Store σ D) : Nat × σ := s.snapshot.getD (0, genesis)

/-- **The files record the replica**: what they are resumed from is of the same chain and passes the
audit, and the replay of the log ends at the replica, but for the time of a replay of nothing. -/
structure Recorded (r : Replica σ D) (s : Store σ D) : Prop where
  running : r.halted = none
  appHash : r.appHash = M.root r.state
  audit : M.audit r.state = none
  chain : M.chainId r.state = M.chainId genesis ∧ sameSalt r.state genesis = true
  resumedAudit : M.audit (s.resumed genesis).2 = none
  resumedChain : M.chainId (s.resumed genesis).2 = M.chainId genesis ∧
    sameSalt (s.resumed genesis).2 genesis = true
  resumed : (s.resumed genesis).1 ≤ r.height
  log : ∀ p ∈ s.wal, ∀ b, Block.decode p = some b → b.height ≤ r.height
  replays : replay M (s.wal.filterMap Block.decode)
      { state := (s.resumed genesis).2, height := (s.resumed genesis).1,
        appHash := M.root (s.resumed genesis).2 } =
    some
      { state := r.state, height := r.height,
        lastTimeSecs := if (s.resumed genesis).1 = r.height then 0 else r.lastTimeSecs,
        appHash := r.appHash }
  fresh : s.snapshot = none → r.height = 0 → r.lastTimeSecs = 0

variable {M}

theorem replay_append (blocks : List Block) (block : Block) (p : Replay σ) :
    replay M (blocks ++ [block]) p = (replay M blocks p).bind (replay M [block]) := by
  induction blocks generalizing p with
  | nil => rfl
  | cons b blocks ih =>
    rw [List.cons_append, replay, replay]
    by_cases hold : b.height ≤ p.height
    · rw [if_pos hold, if_pos hold]
      exact ih p
    rw [if_neg hold, if_neg hold]
    iterate 4
      split
      · rfl
    dsimp only
    split
    · rfl
    · exact ih _

/-- Blocks at or below the height are passed over. -/
theorem replay_of_le {blocks : List Block} {p : Replay σ} (h : ∀ b ∈ blocks, b.height ≤ p.height) :
    replay M blocks p = some p := by
  induction blocks with
  | nil => rfl
  | cons b blocks ih =>
    rw [replay, if_pos (h b List.mem_cons_self)]
    exact ih fun b' hb' => h b' (List.mem_cons_of_mem b hb')

/-! ### What a commit records -/

section

variable {sameSalt genesis} {r : Replica σ D} {s : Store σ D} {block : Block}

/-- The machine keeps the chain it is on. -/
def KeepsChain (M : Machine σ) (sameSalt : σ → σ → Bool) : Prop :=
  ∀ state genesis block, M.chainId (M.applyBlock state block) = M.chainId state ∧
    (sameSalt state genesis = true → sameSalt (M.applyBlock state block) genesis = true)

theorem Recorded.of_sameCore (h : Recorded M sameSalt genesis r s) {r' : Replica σ D}
    (hcore : r.SameCore r') : Recorded M sameSalt genesis r' s := by
  obtain ⟨hstate, hheight, htime, hhash, hhalted⟩ := hcore
  refine ⟨hhalted.trans h.running, ?_, ?_, ?_, h.resumedAudit, h.resumedChain, ?_, ?_, ?_, ?_⟩
  · rw [hhash, hstate, h.appHash]
  · rw [hstate, h.audit]
  · rw [hstate]
    exact h.chain
  · rw [hheight]
    exact h.resumed
  · rw [hheight]
    exact h.log
  · rw [hstate, hheight, htime, hhash]
    exact h.replays
  · rw [hheight, htime]
    exact h.fresh

/-- A block that is committed is replayed on top of the rest. -/
theorem Recorded.append (h : Recorded M sameSalt genesis r s) (hkeeps : KeepsChain M sameSalt)
    (hfits : block.Fits) (hasks : Committable M r block)
    (haudit : M.audit (M.applyBlock r.state block) = none) (s' : Store σ D)
    (hwal : s'.wal = s.wal ++ [block.encode]) (hsnapshot : s'.snapshot = s.snapshot) :
    Recorded M sameSalt genesis
      { r with
        state := M.applyBlock r.state block
        height := block.height
        lastTimeSecs := block.timeSecs
        appHash := M.root (M.applyBlock r.state block) } s' := by
  have hresumed : s'.resumed genesis = s.resumed genesis := by
    rw [Store.resumed, hsnapshot, Store.resumed]
  have hheight := hasks.height
  obtain ⟨hchain, hsalt⟩ := hkeeps r.state genesis block
  have hdecode : Block.decode block.encode = some block := Block.decode_encode hfits
  refine ⟨hasks.running, rfl, haudit, ⟨hchain.trans h.chain.1, hsalt h.chain.2⟩, ?_, ?_, ?_, ?_,
    ?_, fun _ hzero => ?_⟩
  · rw [hresumed]
    exact h.resumedAudit
  · rw [hresumed]
    exact h.resumedChain
  · have := h.resumed
    rw [hresumed]
    show (s.resumed genesis).1 ≤ block.height
    omega
  · intro p hp b hb
    show b.height ≤ block.height
    rw [hwal] at hp
    rcases List.mem_append.1 hp with hp | hp
    · have := h.log p hp b hb
      omega
    · obtain rfl := List.mem_singleton.1 hp
      obtain rfl := Option.some.inj (hdecode.symm.trans hb)
      exact Nat.le_refl _
  · have hbelow : (s.resumed genesis).1 ≠ block.height := by
      have := h.resumed
      omega
    have htime : timeIsMonotonic block.timeSecs
        (if (s.resumed genesis).1 = r.height then 0 else r.lastTimeSecs) = true := by
      split
      · simp [timeIsMonotonic]
      · exact hasks.monotonic
    rw [hresumed, hwal, List.filterMap_append, List.filterMap_cons_some hdecode, List.filterMap_nil,
      replay_append, h.replays, Option.bind_some, replay, if_neg (by simp [hheight]),
      if_neg (by simp [hheight]), if_neg (by simp [htime]), if_neg (by simp [hasks.appHash]),
      if_neg (by simp [hasks.deterministic])]
    simp only [haudit, Option.isSome_none, Bool.false_eq_true, if_false, replay, if_neg hbelow]
  · change block.height = 0 at hzero
    omega

/-- A snapshot of the replica records it, whatever is left of the log. -/
theorem Recorded.snapshot (h : Recorded M sameSalt genesis r s) (s' : Store σ D)
    (hwal : ∀ p ∈ s'.wal, p ∈ s.wal) (hsnapshot : s'.snapshot = some (r.height, r.state)) :
    Recorded M sameSalt genesis r s' := by
  have hresumed : s'.resumed genesis = (r.height, r.state) := by
    rw [Store.resumed, hsnapshot]
    rfl
  have hlog : ∀ p ∈ s'.wal, ∀ b, Block.decode p = some b → b.height ≤ r.height :=
    fun p hp => h.log p (hwal p hp)
  refine ⟨h.running, h.appHash, h.audit, h.chain, ?_, ?_, ?_, hlog, ?_, fun hnone => ?_⟩
  · rw [hresumed]
    exact h.audit
  · rw [hresumed]
    exact h.chain
  · rw [hresumed]
  · rw [hresumed, if_pos rfl, h.appHash]
    refine replay_of_le fun b hb => ?_
    obtain ⟨p, hp, hdecode⟩ := List.mem_filterMap.1 hb
    exact hlog p hp b hdecode
  · rw [hsnapshot] at hnone
    cases hnone

theorem Store.snapshot_pruneBelow (s : Store σ D) (keepFrom : Nat) :
    (s.pruneBelow keepFrom).snapshot = s.snapshot := by
  unfold Store.pruneBelow
  dsimp only
  split
  · rfl
  split
  · rfl
  split <;> rfl

theorem Store.wal_pruneBelow (s : Store σ D) (keepFrom : Nat) :
    ∀ p ∈ (s.pruneBelow keepFrom).wal, p ∈ s.wal := by
  unfold Store.pruneBelow
  dsimp only
  split
  · exact fun p hp => hp
  split
  · exact fun p hp => hp
  split <;> exact fun p hp => (List.mem_filter.1 hp).1

variable (M sameSalt genesis) in
/-- The replica's files record it. -/
def IsRecorded (r : Replica σ D) : Prop := ∃ s, r.store = some s ∧ Recorded M sameSalt genesis r s

/-- The files hold a snapshot of the replica. -/
def Snapshotted (r : Replica σ D) : Prop :=
  ∃ s, r.store = some s ∧ s.snapshot = some (r.height, r.state)

/-- A snapshot is taken at the replica's height. -/
def SnapshotDue (r : Replica σ D) : Prop :=
  0 < r.snapshotInterval ∧ r.height % r.snapshotInterval = 0

theorem isRecorded_writeDueSnapshot (io : Io) :
    Triple (IsRecorded (D := D) M sameSalt genesis) (writeDueSnapshot io)
      (fun _ t => IsRecorded M sameSalt genesis t ∧ (SnapshotDue t → Snapshotted t))
      (IsRecorded M sameSalt genesis) := by
  unfold writeDueSnapshot
  refine Triple.bind (Q := fun r t => t = r ∧ IsRecorded M sameSalt genesis r)
    (Triple.ask fun r hr => ⟨rfl, hr⟩) fun r => Triple.ite (fun _ => ?_)
    fun hnot => Triple.pure fun t ht => ?_
  rotate_left
  · obtain ⟨rfl, hr⟩ := ht
    exact ⟨hr, fun hdue => absurd hdue hnot⟩
  -- the snapshot that was written is of the replica, so that any part of the log may go
  refine Triple.bind (Q := fun _ t => ∃ s, t.store = some s ∧ Recorded M sameSalt genesis t s ∧
      s.snapshot = some (t.height, t.state)) (durable_triple ?_ ?_ ?_) fun _ => ?_
  · rintro t ⟨rfl, s, hs, -⟩ hnone
    rw [hs] at hnone
    cases hnone
  · rintro t s ⟨rfl, s', hs', h⟩ hs
    obtain rfl := Option.some.inj (hs.symm.trans hs')
    have hwritten := h.snapshot (s.writeSnapshot t.height t.state) (fun p hp => hp) rfl
    exact ⟨_, rfl, hwritten.of_sameCore ⟨rfl, rfl, rfl, rfl, rfl⟩, rfl⟩
  · rintro t ⟨rfl, hr⟩
    exact hr
  · refine durable_triple (fun t ⟨s, hs, _, _⟩ hnone => ?_) (fun t s ht hs => ?_)
      fun t ⟨s, hs, h, _⟩ => ⟨s, hs, h⟩
    · rw [hs] at hnone
      cases hnone
    obtain ⟨s', hs', h, hsnapshot⟩ := ht
    obtain rfl := Option.some.inj (hs.symm.trans hs')
    have hkept (keepFrom : Nat) : (s.pruneBelow keepFrom).snapshot = some (t.height, t.state) :=
      (s.snapshot_pruneBelow _).trans hsnapshot
    have hpruned (keepFrom : Nat) : Recorded M sameSalt genesis t (s.pruneBelow keepFrom) :=
      h.snapshot _ (s.wal_pruneBelow _) (hkept _)
    exact ⟨⟨_, rfl, (hpruned _).of_sameCore ⟨rfl, rfl, rfl, rfl, rfl⟩⟩, fun _ => ⟨_, rfl, hkept _⟩⟩

/-- A block is committed exactly where its checks pass and the audit has nothing to say. -/
theorem accepts_iff (certificate : Certificate D) :
    Accepts (commitBlockWithCertificate M {} block certificate) r ↔
      Committable M r block ∧ M.audit (M.applyBlock r.state block) = none := by
  constructor
  · intro haccepts
    have hasks := Committable.of_accepts haccepts
    refine ⟨hasks, ?_⟩
    cases haudit : M.audit (M.applyBlock r.state block) with
    | none => rfl
    | some reason =>
      have hreached : Reached M {} block r := ⟨hasks, fun hfails => by cases hfails.2⟩
      obtain ⟨e, t, hfails, -⟩ := commit_audit_refuses hreached haudit certificate
      obtain ⟨a, t', hok, -⟩ := haccepts
      cases hfails.symm.trans hok
  · rintro ⟨hasks, haudit⟩
    exact (hasks.succeeds haudit certificate).accepts

/-- **A commit that goes through is recorded**, by a snapshot where one is due. -/
theorem isRecorded_commit (h : IsRecorded M sameSalt genesis r) (hkeeps : KeepsChain M sameSalt)
    (hfits : block.Fits) {certificate : Certificate D}
    (haccepts : Accepts (commitBlockWithCertificate M {} block certificate) r) :
    IsRecorded M sameSalt genesis
        (exec (commitBlockWithCertificate M {} block certificate) r).2 ∧
      (SnapshotDue (exec (commitBlockWithCertificate M {} block certificate) r).2 →
        Snapshotted (exec (commitBlockWithCertificate M {} block certificate) r).2) := by
  obtain ⟨s, hs, hrecorded⟩ := h
  obtain ⟨hasks, haudit⟩ := (accepts_iff certificate).1 haccepts
  obtain ⟨a, t, hok, -⟩ := haccepts
  have happended := hrecorded.append hkeeps hfits hasks haudit
    ((s.appendCertificate block.height certificate).appendBlock block) rfl rfl
  have hjournals : Triple (IsRecorded (D := D) M sameSalt genesis)
      (do
        journalValidators M {} (M.validators r.state)
        journalKeys M {} (M.validatorKeySnapshot r.state (M.validators r.state))
        writeDueSnapshot {})
      (fun _ t => IsRecorded M sameSalt genesis t ∧ (SnapshotDue t → Snapshotted t))
      (IsRecorded M sameSalt genesis) :=
    journals_triple M (fun r _ _ ⟨s, hs, h⟩ => ⟨s, hs, h.of_sameCore ⟨rfl, rfl, rfl, rfl, rfl⟩⟩)
      (fun r s _ _ ⟨s', hs', h⟩ hs => by
        obtain rfl := Option.some.inj (hs.symm.trans hs')
        -- what is replayed is read off the log and the snapshot alone
        exact ⟨_, rfl, h.running, h.appHash, h.audit, h.chain, h.resumedAudit, h.resumedChain,
          h.resumed, h.log, h.replays, h.fresh⟩)
      _ _ _ (isRecorded_writeDueSnapshot _)
  have hexec := (hasks.exec_landed rfl rfl haudit certificate).symm.trans hok
  rw [hs] at hexec
  rw [hok]
  refine hjournals.ok ?_ hexec
  exact ⟨_, rfl, happended.of_sameCore ⟨rfl, rfl, rfl, rfl, rfl⟩⟩

/-! ### What an open makes of it -/

/-- The replica that was opened is the one that wrote the files, and takes every next block as that
one does. -/
structure Replica.Recovers (M : Machine σ) (r r' : Replica σ D) : Prop where
  core : r.SameCore r'
  next : ∀ block certificate,
    (Accepts (commitBlockWithCertificate M {} block certificate) r' ↔
      Accepts (commitBlockWithCertificate M {} block certificate) r) ∧
    ∀ t t', exec (commitBlockWithCertificate M {} block certificate) r = (.ok (), t) →
      exec (commitBlockWithCertificate M {} block certificate) r' = (.ok (), t') → t.SameCore t'

/-- Two replicas of the same account commit alike. -/
theorem Replica.Recovers.of_sameCore {r' : Replica σ D} (h : r.SameCore r') : r.Recovers M r' := by
  have hasks (block : Block) : Committable M r' block ↔ Committable M r block := by
    obtain ⟨hstate, hheight, htime, hhash, hhalted⟩ := h
    constructor
    · rintro ⟨h₁, h₂, h₃, h₄, h₅, h₆⟩
      rw [hstate] at h₁ h₆
      exact ⟨h₁, htime ▸ h₂, hhash ▸ h₃, hhalted ▸ h₄, hheight ▸ h₅, h₆⟩
    · rintro ⟨h₁, h₂, h₃, h₄, h₅, h₆⟩
      rw [← hstate] at h₁ h₆
      exact ⟨h₁, htime ▸ h₂, hhash ▸ h₃, hhalted ▸ h₄, hheight ▸ h₅, h₆⟩
  refine ⟨h, fun block certificate => ⟨?_, fun t t' ht ht' => ?_⟩⟩
  · rw [accepts_iff, accepts_iff, hasks, h.state]
  · obtain ⟨hcommittable, haudit⟩ := (accepts_iff certificate).1 ⟨(), t, ht, trivial⟩
    have hc := (hcommittable.succeeds haudit certificate).ok ht
    have hc' := (((hasks block).2 hcommittable).succeeds (by rwa [h.state]) certificate).ok ht'
    have hstate : t'.state = t.state := by rw [hc'.state, hc.state, h.state]
    refine ⟨hstate, hc'.height.trans hc.height.symm, hc'.lastTimeSecs.trans hc.lastTimeSecs.symm, ?_,
      hc'.running.trans hc.running.symm⟩
    rw [hc'.appHash, hc.appHash, hstate]

/-- The files hold a snapshot of the height the replica is at, and a block has passed. -/
def CoveredBySnapshot (r : Replica σ D) : Prop :=
  (∃ s p, r.store = some s ∧ s.snapshot = some p ∧ p.1 = r.height) ∧ r.lastTimeSecs ≠ 0

/-- **An open resumes the state, the height and the commitment** that the files record, and the time
of the last block unless the snapshot covers it. -/
theorem IsRecorded.opens (h : IsRecorded M sameSalt genesis r) (interval : Nat) :
    ∃ files r', r.store = some files ∧
      openReplica M sameSalt genesis interval files = some r' ∧ r'.state = r.state ∧
      r'.height = r.height ∧ r'.appHash = r.appHash ∧
      (r.Recovers M r' ↔ ¬CoveredBySnapshot r) := by
  obtain ⟨s, hs, h⟩ := h
  let time := if (s.resumed genesis).1 = r.height then 0 else r.lastTimeSecs
  let r' : Replica σ D :=
    { state := r.state
      height := r.height
      store := some s.reopen
      snapshotInterval := interval
      lastTimeSecs := time
      validatorHistory := ((s.resumed genesis).1, M.validators (s.resumed genesis).2) ::
        s.validators.filter fun q => decide ((s.resumed genesis).1 < q.1)
      validatorKeyHistory :=
        ((s.resumed genesis).1, M.validatorKeySnapshot (s.resumed genesis).2
          (M.validators (s.resumed genesis).2)) ::
          s.keys.filter fun q => decide ((s.resumed genesis).1 < q.1)
      appHash := r.appHash }
  have hopen : openReplica M sameSalt genesis interval s = some r' := by
    have hsame : (s.reopen.snapshot.any fun p =>
        decide (M.chainId p.2 ≠ M.chainId genesis) || !sameSalt p.2 genesis) = false := by
      change (s.snapshot.any _) = false
      have hchain := h.resumedChain
      cases hsnapshot : s.snapshot with
      | none => rfl
      | some p =>
        rw [Store.resumed, hsnapshot, Option.getD_some] at hchain
        simp [hchain]
    unfold openReplica
    dsimp only
    rw [if_neg (by rw [hsame]; simp)]
    change (if (M.audit (s.resumed genesis).2).isSome = true then none else _) = _
    rw [if_neg (by simp [h.resumedAudit])]
    change (replay M (s.wal.filterMap Block.decode)
      { state := (s.resumed genesis).2, height := (s.resumed genesis).1,
        appHash := M.root (s.resumed genesis).2 }).map _ = _
    rw [h.replays]
    rfl
  refine ⟨s, r', hs, hopen, rfl, rfl, rfl, fun hrecovers hcovered => ?_, fun hcovered => ?_⟩
  · obtain ⟨⟨s', p, hs', hsnapshot, hp⟩, htime⟩ := hcovered
    obtain rfl := Option.some.inj (hs.symm.trans hs')
    have hresumed : (s.resumed genesis).1 = r.height := by
      rw [Store.resumed, hsnapshot]
      exact hp
    have hzero : time = r.lastTimeSecs := hrecovers.core.lastTimeSecs
    simp only [time, if_pos hresumed] at hzero
    exact htime hzero.symm
  · refine .of_sameCore ⟨rfl, rfl, ?_, rfl, h.running.symm⟩
    show time = r.lastTimeSecs
    simp only [time]
    split
    case isTrue hresumed =>
      by_contra hne
      refine hcovered ⟨?_, fun hzero => hne hzero.symm⟩
      cases hsnapshot : s.snapshot with
      | none =>
        rw [Store.resumed, hsnapshot] at hresumed
        exact absurd (h.fresh hsnapshot hresumed.symm).symm hne
      | some p =>
        rw [Store.resumed, hsnapshot] at hresumed
        exact ⟨s, p, hs, hsnapshot, hresumed⟩
    case isFalse => rfl

end

end

/-! ### Runs -/

/-- A replica at the genesis, with empty files. -/
def atGenesis {σ D : Type} (M : Machine σ) (genesis : σ) (interval : Nat) : Replica σ D where
  state := genesis
  store := some (Store.reopen {})
  snapshotInterval := interval
  validatorHistory := [(0, M.validators genesis)]
  validatorKeyHistory := [(0, M.validatorKeySnapshot genesis (M.validators genesis))]
  appHash := M.root genesis

theorem open_empty {σ D : Type} (M : Machine σ) (sameSalt : σ → σ → Bool) (genesis : σ)
    (interval : Nat) : openReplica (D := D) M sameSalt genesis interval {} =
      if (M.audit genesis).isSome then none else some (atGenesis M genesis interval) := by
  unfold openReplica
  dsimp only
  rw [if_neg (by simp [Store.reopen])]
  rfl

section

variable {D : Type} [Libm] (chain : Chain)

/-- A block that is decided, with its certificate. -/
structure Decided (D : Type) where
  block : Block
  certificate : Certificate D

def Decided.next (d : Decided D) (r : Replica State D) : Replica State D :=
  (exec (commitBlockWithCertificate chain.machine {} d.block d.certificate) r).2

/-- The block is committed. -/
def Decided.Commits (d : Decided D) (r : Replica State D) : Prop :=
  d.block.Fits ∧ Accepts (commitBlockWithCertificate chain.machine {} d.block d.certificate) r

/-- Are two ledgers salted alike? -/
def sameSalt (s genesis : State) : Bool := decide (s.rootSalt = genesis.rootSalt)

/-- A replica opened on an empty directory, with any interval of its snapshots and any margin of the
pruning. -/
def Opened (genesis : State) (r : Replica State D) : Prop :=
  ∃ interval margin r₀, openReplica chain.machine sameSalt genesis interval {} = some r₀ ∧
    r = { r₀ with pruneMarginBlocks := margin }

theorem keepsChain_machine : KeepsChain chain.machine sameSalt := by
  have htxs (chainId : String) (timeSecs : Nat) (txs : List SignedTx) :
      ∀ s : State, SameOrigin s (chain.applyTxs chainId timeSecs txs s).2 := by
    induction txs with
    | nil => exact fun s => Std.Refl.refl s
    | cons t txs ih =>
      exact fun s => IsTrans.trans _ _ _ (Apply.sameOrigin_apply _ _ _ _ _ s) (ih _)
  intro s genesis block
  have hsame : SameOrigin s (chain.applyBlockTo s block).2 :=
    IsTrans.trans _ _ _ (Apply.sameOrigin_beginBlock _ s) (htxs _ _ _ _)
  refine ⟨hsame.chainId, fun h => ?_⟩
  have hsalt : s.rootSalt = genesis.rootSalt := of_decide_eq_true h
  exact decide_eq_true (hsame.rootSalt.trans hsalt)

/-- What is opened on an empty directory is the genesis. -/
theorem isRecorded_of_opened {genesis : State} {r : Replica State D} (h : Opened chain genesis r) :
    IsRecorded chain.machine sameSalt genesis r := by
  obtain ⟨interval, margin, r₀, hopen, rfl⟩ := h
  rw [open_empty] at hopen
  split at hopen
  · cases hopen
  next haudit =>
  obtain rfl := Option.some.inj hopen
  have haudit : chain.machine.audit genesis = none := by simpa using haudit
  have hsame : sameSalt genesis genesis = true := decide_eq_true rfl
  exact ⟨_, rfl, rfl, rfl, haudit, ⟨rfl, hsame⟩, haudit, ⟨rfl, hsame⟩, Nat.le_refl 0,
    fun p hp => absurd hp List.not_mem_nil, rfl, fun _ _ => rfl⟩

variable {chain}

/-- **Behind any blocks that were committed, an open resumes the replica's state, height and
commitment; it resumes the replica exactly where no snapshot covers the last block.** -/
theorem recovers_iff {genesis : State} {r : Replica State D}
    (h : Reaches (Decided.next chain) (Opened chain genesis) (Decided.Commits chain) r)
    (interval : Nat) :
    ∃ files r', r.store = some files ∧
      openReplica chain.machine sameSalt genesis interval files = some r' ∧ r'.state = r.state ∧
      r'.height = r.height ∧ r'.appHash = r.appHash ∧
      (r.Recovers chain.machine r' ↔ ¬CoveredBySnapshot r) := by
  refine IsRecorded.opens (h.invariant (fun r => isRecorded_of_opened chain) ?_) interval
  exact fun d r hr hcommits =>
    (isRecorded_commit hr (keepsChain_machine chain) hcommits.1 hcommits.2).1

end

/-! ### A snapshot at every height -/

/-- The genesis of the first decision. -/
def firstGenesis : State := firstHistory.core.replica.state

/-- An empty first block, ten seconds on. -/
def firstDecided : Decided Nat where
  block := (firstDecision []).block
  certificate := (firstDecision []).certificate

/-- The replica behind it. -/
def firstReplica (interval : Nat) : Replica State Nat :=
  letI := Libm.unused
  firstDecided.next plainChain (atGenesis plainChain.machine firstGenesis interval)

theorem opened_atGenesis {interval : Nat} :
    letI := Libm.unused
    Opened (D := Nat) plainChain firstGenesis
      (atGenesis plainChain.machine firstGenesis interval) := by
  let _ : Libm := Libm.unused
  have haudit : (plainChain.machine.audit firstGenesis).isSome = false := by decide +kernel
  refine ⟨interval, 86400, atGenesis plainChain.machine firstGenesis interval, ?_, rfl⟩
  rw [open_empty, haudit]
  rfl

theorem fits_firstDecided : firstDecided.block.Fits :=
  ⟨by decide, by decide, by decide, fun t ht => by cases ht⟩

theorem accepts_firstDecided {interval : Nat}
    (hcommits : letI := Libm.unused
      (exec (commitBlockWithCertificate plainChain.machine {} firstDecided.block
        firstDecided.certificate)
          (atGenesis plainChain.machine firstGenesis interval)).1.toOption.isSome = true) :
    letI := Libm.unused
    Accepts (commitBlockWithCertificate plainChain.machine {} firstDecided.block
      firstDecided.certificate) (atGenesis plainChain.machine firstGenesis interval) := by
  let _ : Libm := Libm.unused
  cases hexec : exec (commitBlockWithCertificate plainChain.machine {} firstDecided.block
      firstDecided.certificate) (atGenesis plainChain.machine firstGenesis interval) with
  | mk result r =>
    rw [hexec] at hcommits
    cases result with
    | ok u => exact ⟨u, r, hexec, trivial⟩
    | error e => cases hcommits

theorem reaches_firstReplica {interval : Nat}
    (hcommits : letI := Libm.unused
      (exec (commitBlockWithCertificate plainChain.machine {} firstDecided.block
        firstDecided.certificate)
          (atGenesis plainChain.machine firstGenesis interval)).1.toOption.isSome = true) :
    letI := Libm.unused
    Reaches (Decided.next plainChain) (Opened plainChain firstGenesis)
      (Decided.Commits plainChain) (firstReplica interval) := by
  let _ : Libm := Libm.unused
  exact Reaches.step (.start opened_atGenesis) firstDecided
    ⟨fits_firstDecided, accepts_firstDecided hcommits⟩

/-- Without snapshots, what is opened behind it is the replica. -/
theorem recovers_without_snapshot :
    letI := Libm.unused
    ∃ files r', (firstReplica 0).store = some files ∧
      openReplica plainChain.machine sameSalt firstGenesis 0 files = some r' ∧
      r'.state = (firstReplica 0).state ∧ r'.height = (firstReplica 0).height ∧
      r'.appHash = (firstReplica 0).appHash ∧
      ((firstReplica 0).Recovers plainChain.machine r' ↔ ¬CoveredBySnapshot (firstReplica 0)) := by
  let _ : Libm := Libm.unused
  exact recovers_iff (reaches_firstReplica (by decide +kernel)) 0

/-- **With a snapshot of every height, the time of the last block is forgotten**: the replica that
is opened behind the first block is not the one that committed it. -/
theorem time_forgotten :
    letI := Libm.unused
    Reaches (Decided.next plainChain) (Opened plainChain firstGenesis)
      (Decided.Commits plainChain) (firstReplica 1) ∧ (firstReplica 1).lastTimeSecs = 10 ∧
    ∃ files r', (firstReplica 1).store = some files ∧
      openReplica plainChain.machine sameSalt firstGenesis 1 files = some r' ∧
      ¬(firstReplica 1).Recovers plainChain.machine r' := by
  let _ : Libm := Libm.unused
  have hreaches := @reaches_firstReplica 1 (by decide +kernel)
  have htime : (firstReplica 1).lastTimeSecs = 10 := by decide +kernel
  obtain ⟨hrecorded, hsnapshot⟩ : IsRecorded plainChain.machine sameSalt firstGenesis
      (firstReplica 1) ∧ (SnapshotDue (firstReplica 1) → Snapshotted (firstReplica 1)) :=
    isRecorded_commit (isRecorded_of_opened plainChain opened_atGenesis)
      (keepsChain_machine plainChain) fits_firstDecided (accepts_firstDecided (by decide +kernel))
  have hdue : SnapshotDue (firstReplica 1) := ⟨by decide +kernel, by decide +kernel⟩
  have hcovered : CoveredBySnapshot (firstReplica 1) := by
    obtain ⟨s, hs, hsnapshot⟩ := hsnapshot hdue
    exact ⟨⟨s, _, hs, hsnapshot, rfl⟩, by rw [htime]; decide⟩
  obtain ⟨files, r', hfiles, hopen, -, -, -, hiff⟩ := hrecorded.opens 1
  exact ⟨hreaches, htime, files, r', hfiles, hopen, fun hrecovers => hiff.1 hrecovers hcovered⟩

end Edet.Node
