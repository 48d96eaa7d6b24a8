import Edet.Node.Engine

/-!
# When a commit succeeds

With a disk that works and an audit that passes, a decided block is committed exactly
when the six questions of the commit path are answered well (`Committable.succeeds`,
`Committable.of_accepts`). A screen asks three of them of every block, defers two to blocks
for the next height, and leaves the height itself to nobody. So a value this node answered
valid is committed, on the same replica, exactly when its block is for the next height and
the replica is not halted (`vote_commits_iff`).
-/

namespace Edet.Node

section

variable {σ D : Type} (M : Machine σ)

/-- The part of a replica that the journals leave alone. -/
structure Replica.SameCore (r r' : Replica σ D) : Prop where
  state : r'.state = r.state
  height : r'.height = r.height
  lastTimeSecs : r'.lastTimeSecs = r.lastTimeSecs
  appHash : r'.appHash = r.appHash
  halted : r'.halted = r.halted

instance : Std.Refl (Replica.SameCore (σ := σ) (D := D)) := ⟨fun _ => ⟨rfl, rfl, rfl, rfl, rfl⟩⟩

instance : IsTrans (Replica σ D) Replica.SameCore :=
  ⟨fun _ _ _ h h' => ⟨h'.state.trans h.state, h'.height.trans h.height,
    h'.lastTimeSecs.trans h.lastTimeSecs, h'.appHash.trans h.appHash, h'.halted.trans h.halted⟩⟩

open Op

theorem durable_moves (succeeds : Bool) (write : Store σ D → Store σ D) :
    Moves Replica.SameCore (durable succeeds write) := by
  intro r
  change Replica.SameCore r (durable succeeds write r).2
  unfold durable
  cases r.store with
  | none => exact Std.Refl.refl r
  | some s => cases succeeds <;> exact ⟨rfl, rfl, rfl, rfl, rfl⟩

theorem durable_core {succeeds : Bool} {write : Store σ D → Store σ D} {r r' : Replica σ D}
    {res : Except CommitError Unit} (h : exec (durable succeeds write) r = (res, r')) :
    r.SameCore r' := by
  have hmoves := durable_moves succeeds write r
  rwa [h] at hmoves

theorem durable_error {succeeds : Bool} {write : Store σ D → Store σ D} {r r' : Replica σ D}
    {e : CommitError} (h : exec (durable succeeds write) r = (.error e, r')) : e = .store := by
  change durable succeeds write r = _ at h
  unfold durable at h
  cases hs : r.store with
  | none =>
    rw [hs] at h
    cases h
  | some s =>
    rw [hs] at h
    cases succeeds <;> cases h
    rfl

/-- A write that does not fail. -/
theorem exec_durable (write : Store σ D → Store σ D) (r : Replica σ D) :
    exec (durable true write) r = (.ok (), { r with store := r.store.map write }) := by
  obtain ⟨state, height, store, _, _, _, _, _, _, _⟩ := r
  cases store <;> rfl

theorem durable_succeeds (write : Store σ D → Store σ D) (r : Replica σ D) :
    Succeeds (durable true write) r fun _ r' => r' = { r with store := r.store.map write } :=
  ⟨(), _, exec_durable write r, rfl⟩

theorem journalValidators_moves (io : Io) (before : OrdMap MemberId Nat) :
    Moves Replica.SameCore (journalValidators (D := D) M io before) :=
  (Moves.ask _).bind fun _ => Moves.ite (fun _ => Moves.pure _) fun _ =>
    (Moves.write fun _ => ⟨rfl, rfl, rfl, rfl, rfl⟩).bind fun _ => durable_moves _ _

theorem journalKeys_moves (io : Io) (before : OrdMap MemberId Key) :
    Moves Replica.SameCore (journalKeys (D := D) M io before) :=
  (Moves.ask _).bind fun _ => Moves.ite
    (fun _ => (Moves.write fun _ => ⟨rfl, rfl, rfl, rfl, rfl⟩).bind fun _ => durable_moves _ _)
    fun _ => Moves.pure _

theorem writeDueSnapshot_moves (io : Io) :
    Moves Replica.SameCore (writeDueSnapshot (σ := σ) (D := D) io) :=
  (Moves.ask _).bind fun _ => Moves.ite
    (fun _ => (durable_moves _ _).bind fun _ => durable_moves _ _) fun _ => Moves.pure _

/-- **The journals do not refuse** where the disk works. -/
theorem journals_accept (before : OrdMap MemberId Nat) (keys : OrdMap MemberId Key)
    (r : Replica σ D) :
    Succeeds (do
      journalValidators M {} before
      journalKeys M {} keys
      writeDueSnapshot {}) r fun _ r' => r.SameCore r' := by
  have hvalidators (r : Replica σ D) : Accepts (journalValidators M {} before) r :=
    Succeeds.bind_ask <| Succeeds.ite (fun _ => Succeeds.pure trivial) fun _ =>
      Succeeds.bind (Q := fun _ _ => True) (Succeeds.write trivial) fun _ r _ =>
        (durable_succeeds _ r).accepts
  have hkeys (r : Replica σ D) : Accepts (journalKeys M {} keys) r :=
    Succeeds.bind_ask <| Succeeds.ite
      (fun _ => Succeeds.bind (Q := fun _ _ => True) (Succeeds.write trivial) fun _ r _ =>
        (durable_succeeds _ r).accepts)
      fun _ => Succeeds.pure trivial
  have hsnapshot (r : Replica σ D) : Accepts (writeDueSnapshot {}) r :=
    Succeeds.bind_ask <| Succeeds.ite
      (fun _ => (durable_succeeds _ r).bind fun _ r _ => (durable_succeeds _ r).accepts)
      fun _ => Succeeds.pure trivial
  refine ((hvalidators r).moves (journalValidators_moves M {} before)).bind fun _ r' h => ?_
  refine ((hkeys r').moves (journalKeys_moves M {} keys)).bind fun _ r'' h' => ?_
  exact ((hsnapshot r'').moves (writeDueSnapshot_moves {})).weaken fun _ r''' h'' =>
    IsTrans.trans _ _ _ h.2 (IsTrans.trans _ _ _ h'.2 h''.2)

/-- The questions of the commit path. -/
structure Committable (r : Replica σ D) (block : Block) : Prop where
  verified : M.verifyTxs (M.chainId r.state) block = true
  monotonic : timeIsMonotonic block.timeSecs r.lastTimeSecs = true
  appHash : block.appHash = r.appHash
  running : r.halted = none
  height : block.height = r.height + 1
  deterministic : M.deterministicValidity block r.state = true

/-- What a commit leaves of the replica's own account. -/
structure Committed (r : Replica σ D) (block : Block) (r' : Replica σ D) : Prop where
  state : r'.state = M.applyBlock r.state block
  height : r'.height = block.height
  lastTimeSecs : r'.lastTimeSecs = block.timeSecs
  appHash : r'.appHash = M.root r'.state
  running : r'.halted = none

variable {M}

theorem exec_pass {c : Prop} [Decidable c] (hc : ¬c) {e : CommitError}
    {k : Unit → Op (Replica σ D) CommitError Unit} {t : Replica σ D} :
    exec (refuseIf c e >>= k) t = exec (k ()) t := by
  rw [exec_bind_ok (by rw [exec_refuseIf, if_neg hc])]

/-- **What is left of a commit** behind its checks and its two appends: the journals and the
snapshot, on the replica that has moved. -/
theorem Committable.exec_landed {io : Io} {r : Replica σ D} {block : Block}
    (h : Committable M r block) (hcertificate : io.certificate = true) (hwal : io.wal = true)
    (haudit : M.audit (M.applyBlock r.state block) = none) (certificate : Certificate D) :
    exec (commitBlockWithCertificate M io block certificate) r = exec (do
        journalValidators M io (M.validators r.state)
        journalKeys M io (M.validatorKeySnapshot r.state (M.validators r.state))
        writeDueSnapshot io)
      { r with
        state := M.applyBlock r.state block
        store := (r.store.map (Store.appendCertificate block.height certificate)).map
          (Store.appendBlock block)
        height := block.height
        lastTimeSecs := block.timeSecs
        appHash := M.root (M.applyBlock r.state block) } := by
  unfold commitBlockWithCertificate
  rw [exec_bind_ok (exec_ask _ _)]
  dsimp only [id]
  rw [exec_pass (by simp [h.verified]), exec_pass (by simp [h.monotonic]),
    exec_pass (not_not.2 h.appHash), hcertificate, exec_bind_ok (exec_durable _ _)]
  unfold commitBlockUnchecked
  rw [exec_bind_ok (exec_ask _ _)]
  dsimp only [id]
  rw [exec_pass (by simp [h.running]), exec_pass (not_not.2 h.height),
    exec_pass (by simp [h.deterministic]), exec_bind_ok (exec_write _ _), haudit]
  dsimp only
  rw [hwal, exec_bind_ok (exec_durable _ _)]
  unfold settle
  rw [exec_bind_ok (exec_write _ _), exec_bind_ok (exec_write _ _)]

/-- **A block that answers them all is committed**, where the disk works and the audit
passes. -/
theorem Committable.succeeds {r : Replica σ D} {block : Block} (h : Committable M r block)
    (haudit : M.audit (M.applyBlock r.state block) = none) (certificate : Certificate D) :
    Succeeds (commitBlockWithCertificate M {} block certificate) r fun _ r' =>
      Committed M r block r' := by
  obtain ⟨a, r', hexec, hr'⟩ := journals_accept M _ _ _
  refine ⟨a, r', (h.exec_landed rfl rfl haudit certificate).trans hexec, ?_⟩
  refine ⟨hr'.state, hr'.height, hr'.lastTimeSecs, ?_, hr'.halted.trans h.running⟩
  rw [hr'.appHash, hr'.state]

/-- **A block that was committed answers them all.** -/
theorem Committable.of_accepts {io : Io} {r : Replica σ D} {block : Block}
    {certificate : Certificate D}
    (h : Accepts (commitBlockWithCertificate M io block certificate) r) : Committable M r block := by
  unfold commitBlockWithCertificate at h
  replace h := Succeeds.of_ask_bind h
  obtain ⟨hverified, h⟩ := Succeeds.of_refuseIf_bind h
  obtain ⟨hmonotonic, h⟩ := Succeeds.of_refuseIf_bind h
  obtain ⟨hhash, h⟩ := Succeeds.of_refuseIf_bind h
  -- the certificate is recorded, and the rest asks the same replica
  obtain ⟨a, r', hexec, -⟩ := h
  cases hcert : exec (durable io.certificate (Store.appendCertificate block.height certificate)) r
    with
  | mk res r₁ =>
    have hcore := durable_moves io.certificate (Store.appendCertificate block.height certificate) r
    rw [hcert] at hcore
    cases res with
    | error e =>
      rw [exec_bind_error hcert] at hexec
      cases hexec
    | ok u =>
      rw [exec_bind_ok hcert] at hexec
      have h : Accepts (commitBlockUnchecked M io block) r₁ := ⟨a, r', hexec, trivial⟩
      unfold commitBlockUnchecked at h
      replace h := Succeeds.of_ask_bind h
      obtain ⟨hhalted, h⟩ := Succeeds.of_refuseIf_bind h
      obtain ⟨hheight, h⟩ := Succeeds.of_refuseIf_bind h
      obtain ⟨hdet, -⟩ := Succeeds.of_refuseIf_bind h
      change ¬ r₁.halted.isSome = true at hhalted
      change ¬ block.height ≠ r₁.height + 1 at hheight
      change ¬ M.deterministicValidity block r₁.state = false at hdet
      rw [hcore.halted, Bool.not_eq_true, Option.isSome_eq_false_iff,
        Option.isNone_iff_eq_none] at hhalted
      rw [hcore.height, not_not] at hheight
      rw [hcore.state, Bool.not_eq_false] at hdet
      exact ⟨by simpa using hverified, by simpa using hmonotonic, not_not.1 hhash, hhalted,
        hheight, hdet⟩

end

/-! ### A vote and its commit -/

section

variable {σ D : Type} [Ord D] [Std.TransOrd D] [DecidableEq D] (M : Machine σ)
  (sha256 : Bytes → D)

omit [Ord D] [Std.TransOrd D] [DecidableEq D] in
/-- **What a screen has asked** of a block that it passes. -/
theorem screen_eq_valid {r : Replica σ D} {block : Block} {now : Nat} :
    screen block (r.screenCtx M now) = .valid ↔
      M.verifyTxs (M.chainId r.state) block = true ∧ timeIsPlausible block.timeSecs now = true ∧
      (block.height = r.height + 1 → timeIsMonotonic block.timeSecs r.lastTimeSecs = true ∧
        block.appHash = r.appHash ∧ M.deterministicValidity block r.state = true) := by
  unfold screen Replica.screenCtx
  dsimp only
  split_ifs <;> simp_all

/-- A value that was answered carries the block it was judged by. -/
theorem Engine.screen_of_answer {s : Engine σ D} {e : EngineEvent D} {v : ProposedValue D}
    (h : s.answer M sha256 e = some v) :
    ∃ now, v.validity = screen v.block (s.replica.screenCtx M now) := by
  cases e with
  | getValue => cases h
  | decided => cases h
  | synced height round proposer bytes now =>
    refine ⟨now, ?_⟩
    simp only [Engine.answer, processSynced] at h
    cases hdecode : Block.decode bytes with
    | none =>
      rw [hdecode] at h
      cases h
    | some b =>
      rw [hdecode] at h
      obtain rfl := Option.some.inj h
      rfl
  | part sender msg now =>
    refine ⟨now, ?_⟩
    obtain ⟨stream, sequence, content⟩ := msg
    cases content with
    | data part =>
      simp only [Engine.answer, reassemble_data] at h
      cases h
    | fin =>
      simp only [Engine.answer, reassemble_fin] at h
      obtain ⟨a, -, hv⟩ := Option.bind_eq_some_iff.1 h
      exact (closeStream_eq_some sha256 hv).2.2.2.2

/-- **A vote implies a commit exactly for blocks of the next height.** Of a value that
was answered valid, the block is committed on the same replica if and only if it is for the
next height and the replica is not halted; the disk works and the audit passes. -/
theorem vote_commits_iff {s : Engine σ D} {e : EngineEvent D} {v : ProposedValue D}
    (hanswer : s.answer M sha256 e = some v) (hvalid : v.validity = .valid)
    (haudit : M.audit (M.applyBlock s.replica.state v.block) = none)
    (certificate : Certificate D) :
    Op.Accepts (commitBlockWithCertificate M {} v.block certificate) s.replica ↔
      v.block.height = s.replica.height + 1 ∧ s.replica.halted = none := by
  constructor
  · intro h
    have hc := Committable.of_accepts h
    exact ⟨hc.height, hc.running⟩
  · rintro ⟨hheight, hrunning⟩
    obtain ⟨now, hscreen⟩ := s.screen_of_answer M sha256 hanswer
    rw [hvalid] at hscreen
    obtain ⟨hverified, -, hnext⟩ := (screen_eq_valid M).1 hscreen.symm
    obtain ⟨hmonotonic, hhash, hdet⟩ := hnext hheight
    exact (Committable.succeeds ⟨hverified, hmonotonic, hhash, hrunning, hheight, hdet⟩ haudit
      certificate).accepts

end

/-! ### An idle node -/

/-- A ledger that nothing changes, and that refuses nothing. -/
def openLedger : Machine Unit where
  chainId := fun _ => ""
  authenticated := fun _ _ => true
  authorises := fun _ _ _ => true
  applyBlock := fun state _ => state
  audit := fun _ => none
  root := fun _ => 0
  validators := fun _ => ∅
  consensusKey := fun _ _ => none

/-- A node at the start of its chain. -/
def idleEngine : Engine Unit Nat where
  replica := { state := (), validatorHistory := [(0, ∅)], appHash := 0 }

/-- An empty block of a height. -/
def emptyBlock (height : Nat) : Block where
  height := height
  timeSecs := 0
  appHash := 0
  txs := []

theorem decode_emptyBlock {height : Nat} (h : height < 2 ^ 64) :
    Block.decode (emptyBlock height).encode = some (emptyBlock height) :=
  Block.decode_encode ⟨h, show 0 < 2 ^ 64 by decide, show 0 < 2 ^ 64 by decide,
    fun t ht => absurd ht List.not_mem_nil⟩

/-- A served empty block is a valid value, whatever height it names. -/
theorem answer_emptyBlock {height : Nat} (h : height < 2 ^ 64) (offered : Nat) :
    idleEngine.answer openLedger leNumeral
        (.synced offered .nil 0 (emptyBlock height).encode 0) =
      some { height := offered, round := .nil, validRound := .nil, proposer := 0,
             id := valueId leNumeral (emptyBlock height), block := emptyBlock height,
             validity := .valid } := by
  have hscreen : screen (emptyBlock height) (idleEngine.replica.screenCtx openLedger 0) = .valid :=
    (screen_eq_valid openLedger).2 ⟨rfl, rfl, fun _ => ⟨rfl, rfl, rfl⟩⟩
  simp only [Engine.answer, processSynced, decode_emptyBlock h, hscreen]

/-- A certificate for a block of the first height. -/
def certificateFor (block : Block) : Certificate Nat where
  height := 1
  round := .nil
  valueId := valueId leNumeral block
  signatures := []

/-- A block for the next height is voted for and committed. -/
theorem vote_commits_next :
    Op.Accepts (commitBlockWithCertificate openLedger {} (emptyBlock 1)
      (certificateFor (emptyBlock 1))) idleEngine.replica ↔
        (emptyBlock 1).height = idleEngine.replica.height + 1 ∧
          idleEngine.replica.halted = none :=
  vote_commits_iff openLedger leNumeral (answer_emptyBlock (by decide) 1) rfl rfl
    (certificateFor (emptyBlock 1))

/-- **A vote without a commit.** A value served for the next height, whose block names the
one after it, is answered valid, and the commit refuses it for its height. -/
theorem vote_without_commit :
    (∃ v, idleEngine.answer openLedger leNumeral
        (.synced 1 .nil 0 (emptyBlock 2).encode 0) = some v ∧
      v.height = idleEngine.replica.height + 1 ∧ v.validity = .valid ∧ v.block = emptyBlock 2) ∧
    (Op.exec (commitBlockWithCertificate openLedger {} (emptyBlock 2)
      (certificateFor (emptyBlock 2))) idleEngine.replica).1 = .error .heightGap :=
  ⟨⟨_, answer_emptyBlock (by decide) 1, rfl, rfl, rfl⟩, rfl⟩

end Edet.Node
