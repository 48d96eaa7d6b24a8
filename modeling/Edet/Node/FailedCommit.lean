import Edet.Node.Commit
import Edet.Node.Outcomes

/-!
# Failed commits

A commit applies its block to the ledger in place, and only then writes to the disk. Where it is
refused before that, the replica is as it was; where the audit refuses, the replica stops. A write
that fails behind it is neither: where the append of the block fails, the ledger is one block ahead
of the height and of the commitment the replica names; where a journal, the snapshot or the pruning
does, the block is committed and the call says that it is not, and the height that is handed back to
consensus is one that is already decided.

How a commit ends is said case by case (`commit_refused`, `commit_audit_refuses`,
`commit_append_fails`, `commit_lands`), and `failed_commit_safe_iff` when its failure is safe.
-/

namespace Edet.Node

open Op

section

variable {σ D : Type} (M : Machine σ)

/-! ### Which writes fail -/

/-- A write fails: there is a store, and it does not take it. -/
def Replica.WriteFails (r : Replica σ D) (succeeds : Bool) : Prop :=
  r.store.isSome = true ∧ succeeds = false

/-- Has the key of a validator changed that was one before? -/
def Machine.rotated (before : OrdMap MemberId Key) (state : σ) : Bool :=
  before.toList.any fun p =>
    (M.validatorKeySnapshot state (M.validators state))[p.1]?.any fun k => decide (k ≠ p.2)

/-- A write fails that follows the append of a block: of a journal that the block changes, of the
snapshot that is due, or of the pruning behind it. -/
def Replica.JournalFails (r : Replica σ D) (io : Io) (before : OrdMap MemberId Nat)
    (keys : OrdMap MemberId Key) : Prop :=
  (M.validators r.state ≠ before ∧ r.WriteFails io.validators) ∨
    (M.rotated keys r.state = true ∧ r.WriteFails io.keys) ∨
    ((0 < r.snapshotInterval ∧ r.height % r.snapshotInterval = 0) ∧
      (r.WriteFails io.snapshot ∨ r.WriteFails io.prune))

/-- What the writes leave alone: the replica's own account, and what decides which writes there
are. -/
structure Replica.Keeps (r r' : Replica σ D) : Prop where
  core : r.SameCore r'
  store : r'.store.isSome = r.store.isSome
  interval : r'.snapshotInterval = r.snapshotInterval

theorem Replica.Keeps.refl (r : Replica σ D) : r.Keeps r := ⟨Std.Refl.refl r, rfl, rfl⟩

theorem Replica.Keeps.trans {r r' r'' : Replica σ D} (h : r.Keeps r') (h' : r'.Keeps r'') :
    r.Keeps r'' :=
  ⟨IsTrans.trans _ _ _ h.core h'.core, h'.store.trans h.store, h'.interval.trans h.interval⟩

theorem Replica.Keeps.writeFails {r r' : Replica σ D} (h : r.Keeps r') (succeeds : Bool) :
    r'.WriteFails succeeds ↔ r.WriteFails succeeds := by
  unfold Replica.WriteFails
  rw [h.store]

/-- An operation of the disk: it fails exactly when `fails`, and leaves the replica's account alone. -/
structure Writes (op : Op (Replica σ D) CommitError Unit) (r : Replica σ D) (fails : Prop) :
    Prop where
  succeeds : ¬fails → Succeeds op r fun _ r' => r.Keeps r'
  fails : fails → Fails op r fun e r' => e = .store ∧ r.Keeps r'

namespace Writes

variable {M} {r : Replica σ D} {p q : Prop} {op op' : Op (Replica σ D) CommitError Unit}

theorem congr (h : Writes op r p) (hiff : q ↔ p) : Writes op r q :=
  ⟨fun hq => h.succeeds fun hp => hq (hiff.2 hp), fun hq => h.fails (hiff.1 hq)⟩

theorem bind (h : Writes op r p) (h' : ∀ r', r.Keeps r' → Writes op' r' q) :
    Writes (op >>= fun _ => op') r (p ∨ q) := by
  constructor
  · intro hnot
    refine (h.succeeds fun hp => hnot (.inl hp)).bind fun _ r' hr' => ?_
    exact ((h' r' hr').succeeds fun hq => hnot (.inr hq)).weaken fun _ r'' hr'' => hr'.trans hr''
  · intro hor
    by_cases hp : p
    · obtain ⟨e, r', hexec, he⟩ := h.fails hp
      exact ⟨e, r', exec_bind_error hexec _, he⟩
    · obtain ⟨a, r', hexec, hr'⟩ := h.succeeds hp
      obtain ⟨e, r'', hexec', he, hr''⟩ := (h' r' hr').fails (hor.resolve_left hp)
      exact ⟨e, r'', by rw [exec_bind_ok hexec, hexec'], he, hr'.trans hr''⟩

theorem ite {c : Prop} [Decidable c] (h : c → Writes op r p) :
    Writes (if c then op else pure ()) r (c ∧ p) := by
  by_cases hc : c
  · rw [if_pos hc]
    exact (h hc).congr ⟨And.right, fun hp => ⟨hc, hp⟩⟩
  · rw [if_neg hc]
    exact ⟨fun _ => Succeeds.pure (Replica.Keeps.refl r), fun h => absurd h.1 hc⟩

theorem durable (succeeds : Bool) (write : Store σ D → Store σ D) (r : Replica σ D) :
    Writes (Node.durable succeeds write) r (r.WriteFails succeeds) := by
  obtain ⟨state, height, store, _, _, _, _, _, _, _⟩ := r
  cases store with
  | none =>
    refine ⟨fun _ => ⟨(), _, rfl, Replica.Keeps.refl _⟩, fun h => ?_⟩
    cases h.1
  | some s =>
    cases succeeds with
    | true =>
      refine ⟨fun _ => ⟨(), _, rfl, ⟨rfl, rfl, rfl, rfl, rfl⟩, rfl, rfl⟩, fun h => ?_⟩
      cases h.2
    | false =>
      exact ⟨fun h => absurd ⟨rfl, rfl⟩ h, fun _ => ⟨_, _, rfl, rfl, Replica.Keeps.refl _⟩⟩

/-- A write to the replica's memory that its account does not show, and what follows. -/
theorem write_bind {f : Replica σ D → Replica σ D} (hf : ∀ r : Replica σ D, r.Keeps (f r))
    (h : ∀ r', r.Keeps r' → Writes op r' p) : Writes (Op.write f >>= fun _ => op) r p := by
  have h := h (f r) (hf r)
  refine ⟨fun hp => ?_, fun hp => ?_⟩
  · exact Succeeds.bind_write ((h.succeeds hp).weaken fun _ r' hr' => (hf r).trans hr')
  · obtain ⟨e, r', hexec, he, hr'⟩ := h.fails hp
    exact ⟨e, r', hexec, he, (hf r).trans hr'⟩

/-- A question, and what follows with its answer. -/
theorem ask_bind {α : Type} {f : Replica σ D → α} {k : α → Op (Replica σ D) CommitError Unit}
    (h : Writes (k (f r)) r p) : Writes (Op.ask f >>= k) r p := ⟨h.succeeds, h.fails⟩

end Writes

theorem writes_journalValidators (io : Io) (before : OrdMap MemberId Nat) (r : Replica σ D) :
    Writes (journalValidators M io before) r
      (M.validators r.state ≠ before ∧ r.WriteFails io.validators) := by
  refine Writes.ask_bind ?_
  dsimp only [id]
  rw [← ite_not]
  exact Writes.ite fun _ => Writes.write_bind (fun r => ⟨⟨rfl, rfl, rfl, rfl, rfl⟩, rfl, rfl⟩)
    fun r' hr' => (Writes.durable _ _ r').congr (hr'.writeFails _).symm

theorem writes_journalKeys (io : Io) (keys : OrdMap MemberId Key) (r : Replica σ D) :
    Writes (journalKeys M io keys) r (M.rotated keys r.state = true ∧ r.WriteFails io.keys) := by
  refine Writes.ask_bind ?_
  exact Writes.ite fun _ => Writes.write_bind (fun r => ⟨⟨rfl, rfl, rfl, rfl, rfl⟩, rfl, rfl⟩)
    fun r' hr' => (Writes.durable _ _ r').congr (hr'.writeFails _).symm

theorem writes_writeDueSnapshot (io : Io) (r : Replica σ D) :
    Writes (writeDueSnapshot io) r ((0 < r.snapshotInterval ∧ r.height % r.snapshotInterval = 0) ∧
      (r.WriteFails io.snapshot ∨ r.WriteFails io.prune)) := by
  refine Writes.ask_bind ?_
  exact Writes.ite fun _ => (Writes.durable _ _ r).bind fun r' hr' =>
    (Writes.durable _ _ r').congr (hr'.writeFails _).symm

/-- What follows the append of a block fails where one of its writes does. -/
theorem writes_journals (io : Io) (before : OrdMap MemberId Nat) (keys : OrdMap MemberId Key)
    (r : Replica σ D) :
    Writes (do
      journalValidators M io before
      journalKeys M io keys
      writeDueSnapshot io) r (r.JournalFails M io before keys) := by
  refine (writes_journalValidators M io before r).bind fun r₁ h₁ => ?_
  have hkeys := writes_journalKeys M io keys r₁
  rw [h₁.core.state] at hkeys
  refine (hkeys.congr (and_congr_right' (h₁.writeFails _).symm)).bind fun r₂ h₂ => ?_
  have h := h₁.trans h₂
  have hsnapshot := writes_writeDueSnapshot io r₂
  rw [h.interval, h.core.height] at hsnapshot
  exact hsnapshot.congr (and_congr_right'
    (or_congr (h.writeFails _).symm (h.writeFails _).symm))

/-! ### How a commit ends -/

/-- The commit gets as far as the ledger: the block answers its questions, and the certificate is
recorded. -/
def Reached (io : Io) (block : Block) (r : Replica σ D) : Prop :=
  Committable M r block ∧ ¬r.WriteFails io.certificate

/-- The writes that follow fail, on the ledger the block leaves. -/
def Unsettled (io : Io) (block : Block) (r : Replica σ D) : Prop :=
  { r with state := M.applyBlock r.state block, height := block.height }.JournalFails M io
    (M.validators r.state) (M.validatorKeySnapshot r.state (M.validators r.state))

variable {M} {io : Io} {block : Block} {r : Replica σ D}

theorem journalFails_congr {r' : Replica σ D} {before : OrdMap MemberId Nat}
    {keys : OrdMap MemberId Key} (hstate : r'.state = r.state) (hheight : r'.height = r.height)
    (hstore : r'.store.isSome = r.store.isSome)
    (hinterval : r'.snapshotInterval = r.snapshotInterval) :
    r.JournalFails M io before keys ↔ r'.JournalFails M io before keys := by
  unfold Replica.JournalFails Replica.WriteFails
  rw [hstate, hheight, hstore, hinterval]

/-- Before the ledger is reached, a refusal leaves the replica as it was. -/
theorem commit_refused (h : ¬Reached M io block r) (certificate : Certificate D) :
    Fails (commitBlockWithCertificate M io block certificate) r fun e r' =>
      r.SameCore r' ∧ ∀ k reason, e ≠ .invariantViolated k reason := by
  have hrefl (r : Replica σ D) : r.SameCore r := Std.Refl.refl r
  refine Fails.bind_ask <| Fails.refuseIf_bind (fun _ => ⟨hrefl r, nofun⟩) fun hverified =>
    Fails.refuseIf_bind (fun _ => ⟨hrefl r, nofun⟩) fun htime =>
    Fails.refuseIf_bind (fun _ => ⟨hrefl r, nofun⟩) fun hhash => ?_
  refine Fails.bind (fun e r' hcert => ?_) fun _ r' hcert => ?_
  · exact ⟨durable_core hcert, durable_error hcert ▸ nofun⟩
  have hcore := durable_core hcert
  have hwritten : ¬r.WriteFails io.certificate := by
    intro hfails
    obtain ⟨e, r'', hexec, -⟩ := (Writes.durable io.certificate
      (Store.appendCertificate block.height certificate) r).fails hfails
    rw [hexec] at hcert
    cases hcert
  refine Fails.bind_ask <| Fails.refuseIf_bind (fun _ => ⟨hcore, nofun⟩) fun hrunning =>
    Fails.refuseIf_bind (fun _ => ⟨hcore, nofun⟩) fun hheight =>
    Fails.refuseIf_bind (fun _ => ⟨hcore, nofun⟩) fun hvalid => absurd ⟨?_, hwritten⟩ h
  change ¬r'.halted.isSome = true at hrunning
  change ¬block.height ≠ r'.height + 1 at hheight
  change ¬M.deterministicValidity block r'.state = false at hvalid
  rw [hcore.halted, Bool.not_eq_true, Option.isSome_eq_false_iff, Option.isNone_iff_eq_none]
    at hrunning
  rw [hcore.height, not_not] at hheight
  rw [hcore.state, Bool.not_eq_false] at hvalid
  exact ⟨by simpa using hverified, by simpa using htime, not_not.1 hhash, hrunning, hheight, hvalid⟩

/-- What a commit does once the block is applied. -/
def behindLedger (M : Machine σ) (io : Io) (block : Block) (r : Replica σ D) :
    Op (Replica σ D) CommitError Unit :=
  match M.audit (M.applyBlock r.state block) with
  | some reason => do
    Op.write fun r => { r with halted := some ⟨block.height, reason⟩ }
    Op.refuse (.invariantViolated block.height reason)
  | none => do
    durable io.wal (Store.appendBlock block)
    settle M io block (M.validators r.state)
      (M.validatorKeySnapshot r.state (M.validators r.state))

/-- A commit that reaches the ledger applies the block to it, and goes on from there. -/
theorem commit_reached (h : Reached M io block r) (certificate : Certificate D) :
    ∃ r₁, r.Keeps r₁ ∧ exec (commitBlockWithCertificate M io block certificate) r =
      exec (behindLedger M io block r) { r₁ with state := M.applyBlock r.state block } := by
  obtain ⟨hasks, hwritten⟩ := h
  obtain ⟨_, r₁, hexec, hr₁⟩ := (Writes.durable io.certificate
    (Store.appendCertificate block.height certificate) r).succeeds hwritten
  refine ⟨r₁, hr₁, ?_⟩
  have hcore := hr₁.core
  unfold commitBlockWithCertificate
  rw [exec_bind_ok (exec_ask _ _)]
  dsimp only [id]
  rw [exec_pass (by simp [hasks.verified]), exec_pass (by simp [hasks.monotonic]),
    exec_pass (not_not.2 hasks.appHash), exec_bind_ok hexec]
  unfold commitBlockUnchecked
  rw [exec_bind_ok (exec_ask _ _)]
  dsimp only [id]
  rw [exec_pass (by simp [hcore.halted, hasks.running]),
    exec_pass (by simp [hcore.height, hasks.height]),
    exec_pass (by simp [hcore.state, hasks.deterministic]), exec_bind_ok (exec_write _ _),
    hcore.state]
  rfl

/-- Where the audit refuses, the replica stops. -/
theorem commit_audit_refuses (h : Reached M io block r) {reason : String}
    (haudit : M.audit (M.applyBlock r.state block) = some reason) (certificate : Certificate D) :
    Fails (commitBlockWithCertificate M io block certificate) r fun e r' =>
      e = .invariantViolated block.height reason ∧ r'.halted = some ⟨block.height, reason⟩ ∧
        r'.state = M.applyBlock r.state block ∧ r'.height = r.height := by
  obtain ⟨r₁, hr₁, hexec⟩ := commit_reached h certificate
  rw [behindLedger, haudit] at hexec
  exact ⟨_, _, hexec.trans rfl, rfl, rfl, rfl, hr₁.core.height⟩

/-- Where the append of the block fails, the ledger is ahead of what the replica names. -/
theorem commit_append_fails (h : Reached M io block r)
    (haudit : M.audit (M.applyBlock r.state block) = none) (hwal : r.WriteFails io.wal)
    (certificate : Certificate D) :
    Fails (commitBlockWithCertificate M io block certificate) r fun e r' =>
      e = .store ∧ r'.state = M.applyBlock r.state block ∧ r'.height = r.height ∧
        r'.appHash = r.appHash ∧ r'.halted = none := by
  obtain ⟨r₁, hr₁, hexec⟩ := commit_reached h certificate
  obtain ⟨e, r', hdurable, he, hr'⟩ := (Writes.durable io.wal (Store.appendBlock block)
    { r₁ with state := M.applyBlock r.state block }).fails ⟨hr₁.store.trans hwal.1, hwal.2⟩
  have hcore := hr'.core
  refine ⟨e, r', ?_, he, hcore.state, hcore.height.trans hr₁.core.height,
    hcore.appHash.trans hr₁.core.appHash, hcore.halted.trans (hr₁.core.halted.trans h.1.running)⟩
  rw [hexec, behindLedger, haudit]
  exact exec_bind_error hdurable _

/-- Where it does not, the block is committed, whatever follows; the call says so unless a write
fails that follows. -/
theorem commit_lands (h : Reached M io block r)
    (haudit : M.audit (M.applyBlock r.state block) = none) (hwal : ¬r.WriteFails io.wal)
    (certificate : Certificate D) :
    (¬Unsettled M io block r → Succeeds (commitBlockWithCertificate M io block certificate) r
      fun _ r' => Committed M r block r') ∧
    (Unsettled M io block r → Fails (commitBlockWithCertificate M io block certificate) r
      fun e r' => e = .store ∧ Committed M r block r') := by
  obtain ⟨r₁, hr₁, hexec⟩ := commit_reached h certificate
  obtain ⟨_, r₂, hdurable, hr₂⟩ := (Writes.durable io.wal (Store.appendBlock block)
    { r₁ with state := M.applyBlock r.state block }).succeeds
      fun hfails => hwal ⟨hr₁.store.symm.trans hfails.1, hfails.2⟩
  let r₃ : Replica σ D :=
    { r₂ with height := block.height, lastTimeSecs := block.timeSecs, appHash := M.root r₂.state }
  have hstate : r₂.state = M.applyBlock r.state block := hr₂.core.state
  have hsettle : exec (commitBlockWithCertificate M io block certificate) r = exec (do
      journalValidators M io (M.validators r.state)
      journalKeys M io (M.validatorKeySnapshot r.state (M.validators r.state))
      writeDueSnapshot io) r₃ := by
    rw [hexec, behindLedger, haudit]
    exact exec_bind_ok hdurable _
  have hcommitted {r' : Replica σ D} (hr' : r₃.Keeps r') : Committed M r block r' := by
    have hcore := hr'.core
    refine ⟨hcore.state.trans hstate, hcore.height, hcore.lastTimeSecs, ?_, ?_⟩
    · rw [hcore.appHash, hcore.state]
    · exact hcore.halted.trans (hr₂.core.halted.trans (hr₁.core.halted.trans h.1.running))
  have hfails : Unsettled M io block r ↔ r₃.JournalFails M io (M.validators r.state)
      (M.validatorKeySnapshot r.state (M.validators r.state)) :=
    journalFails_congr hstate rfl (hr₂.store.trans hr₁.store) (hr₂.interval.trans hr₁.interval)
  have hwrites := (writes_journals M io (M.validators r.state)
    (M.validatorKeySnapshot r.state (M.validators r.state)) r₃).congr hfails
  refine ⟨fun hsettled => ?_, fun hunsettled => ?_⟩
  · obtain ⟨a, r', hjournals, hr'⟩ := hwrites.succeeds hsettled
    exact ⟨a, r', hsettle.trans hjournals, hcommitted hr'⟩
  · obtain ⟨e, r', hjournals, he, hr'⟩ := hwrites.fails hunsettled
    exact ⟨e, r', hsettle.trans hjournals, he, hcommitted hr'⟩

end

/-! ### What a failed commit leaves -/

section

variable {σ D : Type} (M : Machine σ)

/-- The replica has stopped: it refuses every later commit, and its ledger stays as it is. -/
def Replica.Stopped (r : Replica σ D) : Prop :=
  r.halted.isSome = true ∧ ∀ io block certificate,
    Fails (commitBlockWithCertificate M io block certificate) r fun _ r' => r.SameCore r'

/-- The replica names what it holds: its commitment is its ledger's, and its height counts the
blocks that were applied. -/
def Replica.Names (r : Replica σ D) (block : Block) (r' : Replica σ D) : Prop :=
  r'.appHash = M.root r'.state ∧
    ((r'.height = r.height ∧ r'.state = r.state) ∨
      (r'.height = r.height + 1 ∧ r'.state = M.applyBlock r.state block))

/-- Offered again, a block that was applied is not applied again. -/
def Replica.AppliesOnce (r : Replica σ D) (block : Block) (r' : Replica σ D) : Prop :=
  r'.state = r.state ∨ ∀ io certificate,
    (exec (commitBlockWithCertificate M io block certificate) r').2.state = r'.state

variable {M}

theorem Replica.stopped_of_halted {r : Replica σ D} (h : r.halted.isSome = true) :
    r.Stopped M := by
  refine ⟨h, fun io block certificate => ?_⟩
  have hnot : ¬Reached M io block r := by
    intro hreached
    rw [hreached.1.running] at h
    cases h
  obtain ⟨e, r', hexec, hcore, -⟩ := commit_refused hnot certificate
  exact ⟨e, r', hexec, hcore⟩

end

/-! ### What is handed back to consensus -/

inductive Next
  | start (height : Nat)
  | restart (height : Nat)
deriving DecidableEq

def Next.height : Next → Nat
  | .start height => height
  | .restart height => height

section

variable {σ D : Type} (M : Machine σ)
  (builds : σ → OrdMap MemberId Nat → OrdMap MemberId Key → Bool)

/-- Is there a validator set for the replica's height? -/
def Replica.validatorSetAt (r : Replica σ D) : Bool :=
  (r.validatorsAt r.height).any fun validators => builds r.state validators (r.keysAt r.height)

/-- Ask consensus to decide a height again. -/
def restart (r : Replica σ D) (height : Nat) : Option Next :=
  if r.validatorSetAt builds || builds r.state (M.validators r.state) (r.keysAt r.height) then
    some (.restart height)
  else none

/-- What a decision is answered with, once its commit has returned. -/
def answerDecided {α : Type} (certificate : Certificate D) (result : Except CommitError α)
    (r : Replica σ D) : Option Next :=
  match result with
  | .ok _ => if r.validatorSetAt builds then some (.start (r.height + 1)) else none
  | .error (.invariantViolated _ _) => none
  | .error _ => restart M builds r certificate.height

theorem height_of_restart {r : Replica σ D} {height : Nat} {next : Next}
    (h : restart M builds r height = some next) : next.height = height := by
  unfold restart at h
  split at h
  · obtain rfl := Option.some.inj h
    rfl
  · cases h

end

/-! ### When a failure is safe -/

section

variable {D : Type} [Libm] (chain : Chain)
  (builds : State → OrdMap MemberId Nat → OrdMap MemberId Key → Bool)

/-- **A failed commit leaves the node self-consistent**: the replica has stopped or names what it
holds, a block is not applied twice, an error says that nothing was applied, and the height that is
handed back to consensus is the one after the replica's. -/
structure NodeCore.FailsSafely (core : NodeCore D) (io : Io) (block : Block)
    (certificate : Certificate D) : Prop where
  consistent : ∀ e core', core.commitDecided chain io block certificate = (.error e, core') →
    core'.replica.Stopped chain.machine ∨ core.replica.Names chain.machine block core'.replica
  once : ∀ e core', core.commitDecided chain io block certificate = (.error e, core') →
    core.replica.AppliesOnce chain.machine block core'.replica
  unapplied : ∀ e core', core.commitDecided chain io block certificate = (.error e, core') →
    core'.replica.state = core.replica.state ∧ core'.replica.height = core.replica.height
  next : ∀ result core' next, core.commitDecided chain io block certificate = (result, core') →
    answerDecided chain.machine builds certificate result core'.replica = some next →
    next.height = core'.replica.height + 1

/-- A commit that reaches the ledger and changes it passes its audit and is appended to the log, and
one that is appended has no write fail that follows. -/
def NodeCore.WritesHold (core : NodeCore D) (io : Io) (block : Block) : Prop :=
  let r := core.replica
  let state := chain.machine.applyBlock r.state block
  Reached chain.machine io block r →
    (state ≠ r.state → chain.machine.audit state = none ∧ ¬r.WriteFails io.wal) ∧
    (chain.machine.audit state = none → ¬r.WriteFails io.wal →
      ¬Unsettled chain.machine io block r)

variable {chain builds} {core : NodeCore D} {io : Io} {block : Block}
  {certificate : Certificate D}

/-- A call fails with what its commit fails with. -/
theorem commitDecided_of_fails {P : CommitError → Replica State D → Prop}
    (h : Fails (commitBlockWithCertificate chain.machine io block certificate) core.replica P) :
    ∃ e r', P e r' ∧
      core.commitDecided chain io block certificate = (.error e, { core with replica := r' }) := by
  obtain ⟨e, r', hexec, hP⟩ := h
  refine ⟨e, r', hP, ?_⟩
  unfold NodeCore.commitDecided
  rw [hexec]

theorem commitDecided_of_succeeds {Q : Unit → Replica State D → Prop}
    (h : Succeeds (commitBlockWithCertificate chain.machine io block certificate) core.replica Q) :
    ∃ outcomes core', core.commitDecided chain io block certificate = (.ok outcomes, core') := by
  obtain ⟨u, r', hexec, -⟩ := h
  unfold NodeCore.commitDecided
  rw [hexec]
  exact ⟨_, _, rfl⟩

/-- Where the writes hold, a call that fails has applied nothing, or has stopped the replica. -/
theorem NodeCore.WritesHold.of_error (h : core.WritesHold chain io block)
    (hnames : core.replica.halted = none →
      core.replica.appHash = chain.machine.root core.replica.state)
    {e : CommitError} {core' : NodeCore D}
    (hcall : core.commitDecided chain io block certificate = (.error e, core')) :
    core'.replica.state = core.replica.state ∧ core'.replica.height = core.replica.height ∧
      (core'.replica.halted.isSome = true ∨
        core'.replica.appHash = chain.machine.root core'.replica.state) := by
  have hsame {P : CommitError → Replica State D → Prop}
      (hfails : Fails (commitBlockWithCertificate chain.machine io block certificate)
        core.replica P) : ∃ e', P e' core'.replica := by
    obtain ⟨e', r', hP, hcall'⟩ := commitDecided_of_fails hfails
    obtain ⟨-, rfl⟩ := Prod.mk.inj (hcall.symm.trans hcall')
    exact ⟨e', hP⟩
  by_cases hreached : Reached chain.machine io block core.replica
  swap
  · obtain ⟨e', hcore, -⟩ := hsame (commit_refused hreached certificate)
    refine ⟨hcore.state, hcore.height, ?_⟩
    rw [hcore.halted, hcore.appHash, hcore.state]
    cases hhalted : core.replica.halted with
    | none => exact .inr (hnames hhalted)
    | some halt => exact .inl rfl
  obtain ⟨happlied, hsettled⟩ := h hreached
  cases haudit : chain.machine.audit (chain.machine.applyBlock core.replica.state block) with
  | some reason =>
    obtain ⟨e', -, hhalted, hstate, hheight⟩ :=
      hsame (commit_audit_refuses hreached haudit certificate)
    refine ⟨hstate.trans (by_contra fun hchanges => ?_), hheight, .inl (by rw [hhalted]; rfl)⟩
    rw [(happlied hchanges).1] at haudit
    cases haudit
  | none =>
    by_cases hwal : core.replica.WriteFails io.wal
    · obtain ⟨e', -, hstate, hheight, hhash, -⟩ :=
        hsame (commit_append_fails hreached haudit hwal certificate)
      have hunchanged : core'.replica.state = core.replica.state :=
        hstate.trans (by_contra fun hchanges => (happlied hchanges).2 hwal)
      refine ⟨hunchanged, hheight, .inr ?_⟩
      rw [hhash, hunchanged]
      exact hnames hreached.1.running
    · obtain ⟨outcomes, core'', hcall'⟩ := commitDecided_of_succeeds
        ((commit_lands hreached haudit hwal certificate).1 (hsettled haudit hwal))
      cases hcall.symm.trans hcall'

/-- **A failed commit is safe exactly where the writes hold** behind the ledger. -/
theorem failed_commit_safe_iff
    (hnames : core.replica.halted = none →
      core.replica.appHash = chain.machine.root core.replica.state)
    (hheight : certificate.height = core.replica.height + 1) :
    core.FailsSafely chain builds io block certificate ↔ core.WritesHold chain io block := by
  constructor
  · intro h hreached
    refine ⟨fun hchanges => ?_, fun haudit hwal hunsettled => ?_⟩
    · -- whatever fails behind the ledger leaves the block applied
      cases haudit : chain.machine.audit (chain.machine.applyBlock core.replica.state block) with
      | some reason =>
        obtain ⟨e, r', ⟨-, -, hstate, -⟩, hcall⟩ :=
          commitDecided_of_fails (commit_audit_refuses hreached haudit certificate)
        exact absurd (hstate.symm.trans (h.unapplied _ _ hcall).1) hchanges
      | none =>
        refine ⟨rfl, fun hwal => ?_⟩
        obtain ⟨e, r', ⟨-, hstate, -⟩, hcall⟩ :=
          commitDecided_of_fails (commit_append_fails hreached haudit hwal certificate)
        exact hchanges (hstate.symm.trans (h.unapplied _ _ hcall).1)
    · obtain ⟨e, r', ⟨-, hcommitted⟩, hcall⟩ := commitDecided_of_fails
        ((commit_lands hreached haudit hwal certificate).2 hunsettled)
      have hsame : r'.height = core.replica.height := (h.unapplied _ _ hcall).2
      rw [hcommitted.height, hreached.1.height] at hsame
      exact Nat.succ_ne_self _ hsame
  · intro h
    refine ⟨fun e core' hcall => ?_, fun e core' hcall => ?_, fun e core' hcall => ?_,
      fun result core' next hcall hanswer => ?_⟩
    · obtain ⟨hstate, hheight', hstopped | hhash⟩ := h.of_error hnames hcall
      · exact .inl (Replica.stopped_of_halted hstopped)
      · exact .inr ⟨hhash, .inl ⟨hheight', hstate⟩⟩
    · exact .inl (h.of_error hnames hcall).1
    · obtain ⟨hstate, hheight', -⟩ := h.of_error hnames hcall
      exact ⟨hstate, hheight'⟩
    · cases result with
      | ok outcomes =>
        simp only [answerDecided] at hanswer
        split at hanswer
        · obtain rfl := Option.some.inj hanswer
          rfl
        · cases hanswer
      | error e =>
        obtain ⟨-, hheight', -⟩ := h.of_error hnames hcall
        have hrestart : restart chain.machine builds core'.replica certificate.height =
            some next := by
          cases e with
          | invariantViolated height reason => cases hanswer
          | _ => exact hanswer
        rw [height_of_restart _ _ hrestart, hheight, hheight']

end

/-! ### A log that takes no block -/

/-- **A failure that is safe**: where the append of the certificate fails, the commit of a first
block that would change the ledger fails, and has applied nothing. -/
theorem failed_commit_safe_first :
    letI := Libm.unused
    let d := firstDecision [guardianEnvelope]
    let called := firstHistory.core.commitDecided plainChain { certificate := false } d.block
      d.certificate
    called.1.toOption.isNone = true ∧
      (plainChain.machine.applyBlock firstHistory.core.replica.state d.block).members[0]?.any
        (·.guardian.isSome) = true ∧
      firstHistory.core.FailsSafely plainChain (fun _ _ _ => true) { certificate := false } d.block
        d.certificate := by
  let _ : Libm := Libm.unused
  refine ⟨by decide +kernel, by decide +kernel, (failed_commit_safe_iff (fun _ => rfl) rfl).2 ?_⟩
  exact fun hreached => absurd ⟨rfl, rfl⟩ hreached.2

/-- **The append of a block fails**: the call returns an error, the ledger is the one behind the
block, and the replica, which goes on, names the height before it. -/
theorem failed_append_applied :
    letI := Libm.unused
    let d := firstDecision [guardianEnvelope]
    let called := firstHistory.core.commitDecided plainChain { wal := false } d.block d.certificate
    called.2.replica.halted = none ∧ called.2.replica.height = firstHistory.core.replica.height ∧
      ¬firstHistory.core.FailsSafely plainChain (fun _ _ _ => true) { wal := false } d.block
        d.certificate := by
  let _ : Libm := Libm.unused
  refine ⟨by decide +kernel, by decide +kernel, fun h => ?_⟩
  have herror : (firstHistory.core.commitDecided plainChain { wal := false }
      (firstDecision [guardianEnvelope]).block
      (firstDecision [guardianEnvelope]).certificate).1.toOption.isNone = true := by decide +kernel
  cases hcall : firstHistory.core.commitDecided plainChain { wal := false }
      (firstDecision [guardianEnvelope]).block (firstDecision [guardianEnvelope]).certificate with
  | mk result core' =>
    rw [hcall] at herror
    cases result with
    | ok outcomes => cases herror
    | error e =>
      have hsame := congrArg (fun s : State => (s.members[0]?).any (·.guardian.isSome))
        (h.unapplied e core' hcall).1
      have hbefore : (firstHistory.core.replica.state.members[0]?).any (·.guardian.isSome) =
          false := by decide +kernel
      have hafter : ((firstHistory.core.commitDecided plainChain { wal := false }
          (firstDecision [guardianEnvelope]).block
          (firstDecision [guardianEnvelope]).certificate).2.replica.state.members[0]?).any
            (·.guardian.isSome) = true := by decide +kernel
      rw [hcall] at hafter
      rw [hafter, hbefore] at hsame
      cases hsame

end Edet.Node
