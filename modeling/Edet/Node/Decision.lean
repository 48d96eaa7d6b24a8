import Edet.Library.Runs
import Edet.Node.Commit

/-!
# From a valid answer to a decision

What is held under an id is the block of that id, in every state of a run
(`Engine.Filed`, `filed_of_reaches`): an id is a hash, and a string decodes to one block.

A value that was answered valid stays held while nothing is committed (`Engine.Holds`),
and so does the replica that judged it. When consensus then decides it, its block is found
and committed (`decided_commits`), where the block is for the height that is decided. A
commit in between empties what is held for all heights, and the value is gone
(`decided_lost`).
-/

namespace Edet.Node

variable {σ D : Type} [Ord D] [Std.TransOrd D] [DecidableEq D]

/-! ### What an id names -/

section

variable (sha256 : Bytes → D)

/-- The id is the hash of a string that reads as the block. -/
def Names (id : D) (block : Block) : Prop :=
  ∃ bytes, sha256 bytes = id ∧ Block.decode bytes = some block

variable {sha256}

omit [Ord D] [Std.TransOrd D] [DecidableEq D] in
/-- **An id names one block.** -/
theorem Names.unique (hinj : Function.Injective sha256) {id : D} {b b' : Block}
    (h : Names sha256 id b) (h' : Names sha256 id b') : b = b' := by
  obtain ⟨x, hx, hb⟩ := h
  obtain ⟨y, hy, hb'⟩ := h'
  obtain rfl := hinj (hx.trans hy.symm)
  exact Option.some.inj (hb.symm.trans hb')

omit [Ord D] [Std.TransOrd D] [DecidableEq D] in
theorem names_valueId {b : Block} (h : b.Fits) : Names sha256 (valueId sha256 b) b :=
  ⟨b.encode, rfl, Block.decode_encode h⟩

variable (sha256) in
/-- What is held is filed under an id that names it. -/
def Engine.Filed (s : Engine σ D) : Prop :=
  ∀ (id : D) (w : PendingValue), s.pending[id]? = some w → Names sha256 id w.block

variable {M : Machine σ}

/-- A value that a message or a served string made is named by its id. -/
theorem Engine.names_of_answer {s : Engine σ D} {e : EngineEvent D} {v : ProposedValue D}
    (h : s.answer M sha256 e = some v) : Names sha256 v.id v.block := by
  cases e with
  | getValue => cases h
  | decided => cases h
  | synced height round proposer bytes now =>
    simp only [Engine.answer, processSynced] at h
    cases hdecode : Block.decode bytes with
    | none =>
      rw [hdecode] at h
      cases h
    | some b =>
      rw [hdecode] at h
      obtain rfl := Option.some.inj h
      exact names_valueId (Block.fits_of_decode hdecode)
  | part sender msg now =>
    obtain ⟨stream, sequence, content⟩ := msg
    cases content with
    | data part =>
      simp only [Engine.answer, reassemble_data] at h
      cases h
    | fin =>
      simp only [Engine.answer, reassemble_fin] at h
      obtain ⟨a, -, hv⟩ := Option.bind_eq_some_iff.1 h
      obtain ⟨-, hdecode, hhash, -⟩ := closeStream_eq_some sha256 hv
      exact ⟨_, hhash, hdecode⟩

/-- A message or a served string adds to what is held the value it made, if it was
answered valid. -/
theorem Engine.pending_of_message {s : Engine σ D} (hrun : s.stopped = false)
    {certified : σ → OrdMap MemberId Nat → OrdMap MemberId Key → Certificate D → Bool}
    {e : EngineEvent D} (he : (∃ sender msg now, e = .part sender msg now) ∨
      ∃ height round proposer bytes now, e = .synced height round proposer bytes now) :
    (s.next M sha256 certified e).replica = s.replica ∧
      (s.next M sha256 certified e).stopped = false ∧
      (s.next M sha256 certified e).pending =
        (s.answer M sha256 e).elim s.pending (keep s.pending) := by
  obtain ⟨sender, msg, now, rfl⟩ | ⟨height, round, proposer, bytes, now, rfl⟩ := he
  · obtain ⟨stream, sequence, content⟩ := msg
    simp only [Engine.next, Engine.answer, hrun, Bool.false_eq_true, if_false]
    cases content with
    | data part =>
      rw [reassemble_data]
      exact ⟨trivial, trivial, rfl⟩
    | fin =>
      rw [reassemble_fin]
      exact ⟨trivial, trivial, rfl⟩
  · simp only [Engine.next, Engine.answer, hrun, Bool.false_eq_true, if_false, processSynced]
    cases Block.decode bytes <;> exact ⟨trivial, trivial, rfl⟩

omit [DecidableEq D] in
theorem getElem?_keep (pending : Pending D) (v : ProposedValue D) (id : D) :
    (keep pending v)[id]? = pending[id]? ∨
      v.validity = .valid ∧ compare v.id id = .eq ∧
        (keep pending v)[id]? = some ⟨v.round, v.validRound, v.proposer, v.block⟩ := by
  unfold keep
  split
  case isFalse => exact .inl rfl
  case isTrue hvalid =>
    rw [Std.ExtTreeMap.getElem?_insert]
    by_cases hid : compare v.id id = .eq
    · exact .inr ⟨hvalid, hid, if_pos hid⟩
    · exact .inl (if_neg hid)

/-! ### Runs -/

variable {certified : σ → OrdMap MemberId Nat → OrdMap MemberId Key → Certificate D → Bool}

/-- The numbers of a block that this node proposes are machine words. -/
def Fitting (e : EngineEvent D) (s : Engine σ D) : Prop :=
  match e with
  | .getValue height _ now txs => (s.replica.proposal height now txs).Fits
  | _ => True

theorem Engine.next_of_stopped {s : Engine σ D} (h : s.stopped = true) (e : EngineEvent D) :
    s.next M sha256 certified e = s := by
  unfold Engine.next
  rw [h, if_pos rfl]

/-- **One event keeps what is held filed.** -/
theorem Engine.Filed.next [Std.LawfulEqOrd D] {s : Engine σ D} (h : s.Filed sha256)
    {e : EngineEvent D} (hfit : Fitting e s) : (s.next M sha256 certified e).Filed sha256 := by
  cases hrun : s.stopped with
  | true => rwa [Engine.next_of_stopped hrun]
  | false =>
    have hmessage (he : (∃ sender msg now, e = .part sender msg now) ∨
        ∃ height round proposer bytes now, e = .synced height round proposer bytes now) :
        (s.next M sha256 certified e).Filed sha256 := by
      intro id w hget
      rw [(Engine.pending_of_message hrun he).2.2] at hget
      cases hanswer : s.answer M sha256 e with
      | none =>
        rw [hanswer] at hget
        exact h id w hget
      | some v =>
        rw [hanswer, Option.elim_some] at hget
        obtain hold | ⟨-, hid, hnew⟩ := getElem?_keep s.pending v id
        · exact h id w (hold ▸ hget)
        · obtain rfl := Std.compare_eq_iff_eq.1 hid
          rw [hnew] at hget
          rw [← Option.some.inj hget]
          exact Engine.names_of_answer hanswer
    cases e with
    | part sender msg now => exact hmessage (.inl ⟨sender, msg, now, rfl⟩)
    | synced height round proposer bytes now =>
      exact hmessage (.inr ⟨height, round, proposer, bytes, now, rfl⟩)
    | getValue height round now txs =>
      intro id w hget
      simp only [Engine.next, hrun, Bool.false_eq_true, if_false] at hget
      rw [Std.ExtTreeMap.getElem?_insert] at hget
      split at hget
      case isTrue hid =>
        obtain rfl := Std.compare_eq_iff_eq.1 hid
        rw [← Option.some.inj hget]
        exact names_valueId hfit
      case isFalse => exact h id w hget
    | decided certificate io =>
      simp only [Engine.next, hrun, Bool.false_eq_true, if_false, Engine.decide]
      split
      · exact h
      · split
        · intro id w hget
          rw [Std.ExtTreeMap.getElem?_empty] at hget
          cases hget
        · exact h
        · exact h

/-- A loop that starts: nothing is in flight, and nothing held. -/
def Engine.Start (s : Engine σ D) : Prop := s.streams = ∅ ∧ s.pending = ∅

theorem filed_of_reaches [Std.LawfulEqOrd D] {s : Engine σ D}
    (h : Reaches (fun e s => Engine.next M sha256 certified e s) Engine.Start Fitting s) :
    s.Filed sha256 := by
  refine h.invariant (fun s hs id w hget => ?_) fun e s hs he => hs.next he
  rw [hs.2, Std.ExtTreeMap.getElem?_empty] at hget
  cases hget

omit [DecidableEq D] in
/-- A block that a certificate decides is held under the id it names. -/
theorem held_of_verifyDecided {r : Replica σ D} {pending : Pending D} {certificate : Certificate D}
    {b : Block} (h : verifyDecided certified r pending certificate = some b) :
    ∃ w, pending[certificate.valueId]? = some w ∧ w.block = b := by
  unfold verifyDecided at h
  split at h
  · cases h
  · split at h
    · exact Option.map_eq_some_iff.1 h
    · cases h

/-! ### Nothing is committed -/

variable (certified) in
/-- **An event that commits nothing**: it is not a good certificate for a block that is held and is
for the next height. -/
def Undisturbing (e : EngineEvent D) (s : Engine σ D) : Prop :=
  Fitting e s ∧
    match e with
    | .decided certificate _ => ∀ b, verifyDecided certified s.replica s.pending certificate = some b →
        b.height ≠ s.replica.height + 1
    | _ => True

/-- The value is held, in a running loop, and the replica is the one that judged it. -/
structure Engine.Holds (sha256 : Bytes → D) (r : Replica σ D) (v : ProposedValue D)
    (s : Engine σ D) : Prop where
  filed : s.Filed sha256
  running : s.stopped = false
  replica : r.SameCore s.replica
  held : ∃ w, s.pending[v.id]? = some w ∧ w.block = v.block

omit [Ord D] [Std.TransOrd D] [DecidableEq D] in
/-- A block for another height is refused, and leaves the replica's own account alone. -/
theorem commit_of_height_ne {r : Replica σ D} {block : Block} (h : block.height ≠ r.height + 1)
    (io : Io) (certificate : Certificate D) :
    Op.Fails (commitBlockWithCertificate M io block certificate) r fun e r' =>
      r.SameCore r' ∧ ∀ k reason, e ≠ .invariantViolated k reason := by
  have hrefl (r : Replica σ D) : r.SameCore r := Std.Refl.refl r
  refine Op.Fails.bind_ask <| Op.Fails.refuseIf_bind (fun _ => ⟨hrefl r, nofun⟩) fun _ =>
    Op.Fails.refuseIf_bind (fun _ => ⟨hrefl r, nofun⟩) fun _ =>
    Op.Fails.refuseIf_bind (fun _ => ⟨hrefl r, nofun⟩) fun _ => ?_
  refine Op.Fails.bind (fun e r' hcert => ?_) fun _ r' hcert => ?_
  · exact ⟨(durable_core hcert), durable_error hcert ▸ nofun⟩
  -- the certificate is recorded; the height is asked of the same replica
  have hcore := durable_core hcert
  refine Op.Fails.bind_ask <| Op.Fails.refuseIf_bind (fun _ => ⟨hcore, nofun⟩) fun _ =>
    Op.Fails.refuseIf_bind (fun _ => ⟨hcore, nofun⟩) fun hheight => absurd ?_ hheight
  show block.height ≠ r'.height + 1
  rwa [hcore.height]

/-- **An event that commits nothing** leaves the value held, by the same replica. -/
theorem Engine.Holds.next [Std.LawfulEqOrd D] (hinj : Function.Injective sha256)
    {r : Replica σ D} {v : ProposedValue D} {s : Engine σ D} (h : s.Holds sha256 r v)
    (hname : Names sha256 v.id v.block) {e : EngineEvent D} (he : Undisturbing certified e s) :
    (s.next M sha256 certified e).Holds sha256 r v := by
  have hfiled : (s.next M sha256 certified e).Filed sha256 := h.filed.next he.1
  obtain ⟨w, hget, hblock⟩ := h.held
  have hmessage (he : (∃ sender msg now, e = .part sender msg now) ∨
      ∃ height round proposer bytes now, e = .synced height round proposer bytes now) :
      (s.next M sha256 certified e).Holds sha256 r v := by
    have hkept : (s.next M sha256 certified e).replica = s.replica ∧ _ :=
      Engine.pending_of_message h.running he
    obtain ⟨hreplica, hrunning, hpending⟩ := hkept
    refine ⟨hfiled, hrunning, hreplica ▸ h.replica, ?_⟩
    rw [hpending]
    cases hanswer : s.answer M sha256 e with
    | none => exact ⟨w, hget, hblock⟩
    | some v' =>
      rw [Option.elim_some]
      obtain hold | ⟨-, hid, hnew⟩ := getElem?_keep s.pending v' v.id
      · exact ⟨w, hold.trans hget, hblock⟩
      · -- the same id, so the same block
        have hname' := Engine.names_of_answer hanswer
        rw [Std.compare_eq_iff_eq.1 hid] at hname'
        exact ⟨_, hnew, hname'.unique hinj hname⟩
  cases e with
  | part sender msg now => exact hmessage (.inl ⟨sender, msg, now, rfl⟩)
  | synced height round proposer bytes now =>
    exact hmessage (.inr ⟨height, round, proposer, bytes, now, rfl⟩)
  | getValue height round now txs =>
    refine ⟨hfiled, ?_, ?_, ?_⟩ <;>
      simp only [Engine.next, h.running, Bool.false_eq_true, if_false]
    · exact h.replica
    · rw [Std.ExtTreeMap.getElem?_insert]
      split
      case isTrue hid =>
        refine ⟨_, rfl, (names_valueId he.1).unique hinj ?_⟩
        rwa [Std.compare_eq_iff_eq.1 hid]
      case isFalse => exact ⟨w, hget, hblock⟩
  | decided certificate io =>
    have hnext : (s.next M sha256 certified (.decided certificate io)) =
        s.decide M certified certificate io := by
      simp only [Engine.next, h.running, Bool.false_eq_true, if_false]
    rw [hnext] at hfiled ⊢
    unfold Engine.decide at hfiled ⊢
    cases hverify : verifyDecided certified s.replica s.pending certificate with
    | none => exact h
    | some block =>
      obtain ⟨err, r', hexec, hcore, hkeeps⟩ :=
        commit_of_height_ne (M := M) (he.2 block hverify) io certificate
      rw [hverify] at hfiled
      simp only [hexec] at hfiled ⊢
      have hr := IsTrans.trans _ _ _ h.replica hcore
      cases err with
      | invariantViolated k reason => exact absurd rfl (hkeeps k reason)
      | _ => exact ⟨hfiled, h.running, hr, w, hget, hblock⟩

/-- The value is held after any number of them. -/
theorem Engine.Holds.after [Std.LawfulEqOrd D] (hinj : Function.Injective sha256)
    {r : Replica σ D} {v : ProposedValue D} (hname : Names sha256 v.id v.block)
    (es : List (EngineEvent D)) {s : Engine σ D} (h : s.Holds sha256 r v)
    (hes : Reaches.Admits (fun e s => Engine.next M sha256 certified e s)
      (Undisturbing certified) es s) :
    (es.foldl (fun s e => s.next M sha256 certified e) s).Holds sha256 r v := by
  induction es generalizing s with
  | nil => exact h
  | cons e es ih => exact ih (h.next hinj hname hes.1) hes.2

/-! ### The decision -/

/-- **A valid value is committed when it is decided**, where it was answered for the height
after the one committed, and nothing was committed since. -/
theorem decided_commits [Std.LawfulEqOrd D] (hinj : Function.Injective sha256) {s : Engine σ D}
    (hs : Reaches (fun e s => Engine.next M sha256 certified e s) Engine.Start Fitting s)
    (hrun : s.stopped = false) (hhalted : s.replica.halted = none) {e : EngineEvent D}
    {v : ProposedValue D} (hanswer : s.answer M sha256 e = some v) (hvalid : v.validity = .valid)
    (hheight : v.block.height = s.replica.height + 1) (es : List (EngineEvent D))
    (hes : Reaches.Admits (fun e s => Engine.next M sha256 certified e s)
      (Undisturbing certified) es (s.next M sha256 certified e))
    {t : Engine σ D}
    (ht : t = es.foldl (fun s e => s.next M sha256 certified e) (s.next M sha256 certified e))
    {certificate : Certificate D} (hid : certificate.valueId = v.id)
    {validators : OrdMap MemberId Nat}
    (hvalidators : t.replica.validatorsAt t.replica.height = some validators)
    (hgood : certified t.replica.state validators (t.replica.keysAt t.replica.height)
      certificate = true)
    (haudit : M.audit (M.applyBlock t.replica.state v.block) = none) :
    verifyDecided certified t.replica t.pending certificate = some v.block ∧
      Committed M t.replica v.block
        (t.next M sha256 certified (.decided certificate {})).replica := by
  have hname := Engine.names_of_answer hanswer
  have hmessage : (∃ sender msg now, e = .part sender msg now) ∨
      ∃ height round proposer bytes now, e = .synced height round proposer bytes now := by
    cases e with
    | part sender msg now => exact .inl ⟨sender, msg, now, rfl⟩
    | synced height round proposer bytes now => exact .inr ⟨height, round, proposer, bytes, now, rfl⟩
    | getValue => cases hanswer
    | decided => cases hanswer
  have hfit : Fitting e s := by
    obtain ⟨sender, msg, now, rfl⟩ | ⟨height, round, proposer, bytes, now, rfl⟩ := hmessage <;>
      trivial
  have hkept : (s.next M sha256 certified e).replica = s.replica ∧ _ :=
    Engine.pending_of_message hrun hmessage
  obtain ⟨hreplica, hrunning, hpending⟩ := hkept
  -- the value is held right after the answer, and still at the decision
  have hheld : (s.next M sha256 certified e).Holds sha256 s.replica v := by
    refine ⟨(filed_of_reaches hs).next hfit, hrunning, ?_, ?_⟩
    · rw [hreplica]
      exact Std.Refl.refl _
    · rw [hpending, hanswer, Option.elim_some]
      unfold keep
      rw [if_pos hvalid]
      exact ⟨_, Std.ExtTreeMap.getElem?_insert_self, rfl⟩
  have hafter := hheld.after hinj hname es hes
  rw [← ht] at hafter
  have hverify : verifyDecided certified t.replica t.pending certificate = some v.block := by
    obtain ⟨w, hget, hblock⟩ := hafter.held
    unfold verifyDecided
    rw [hvalidators]
    simp only [hgood, if_true]
    rw [hid, hget, Option.map_some, hblock]
  refine ⟨hverify, ?_⟩
  -- the replica answers the questions of the commit as the screen did
  obtain ⟨now, hscreen⟩ := s.screen_of_answer M sha256 hanswer
  rw [hvalid] at hscreen
  obtain ⟨hverified, -, hnext⟩ := (screen_eq_valid M).1 hscreen.symm
  obtain ⟨hmonotonic, hhash, hdet⟩ := hnext hheight
  have hcore := hafter.replica
  have hcommittable : Committable M t.replica v.block :=
    ⟨by rw [hcore.state]; exact hverified, by rw [hcore.lastTimeSecs]; exact hmonotonic,
      by rw [hcore.appHash]; exact hhash, hcore.halted.trans hhalted,
      by rw [hcore.height]; exact hheight, by rw [hcore.state]; exact hdet⟩
  obtain ⟨u, r', hexec, hcommitted⟩ := hcommittable.succeeds haudit certificate
  have hdecided : (t.next M sha256 certified (.decided certificate {})).replica = r' := by
    simp only [Engine.next, hafter.running, Bool.false_eq_true, if_false, Engine.decide, hverify,
      hexec]
  rw [hdecided]
  exact hcommitted

end

/-! ### A value that is lost -/

/-- Every certificate is good. -/
def trusting : Unit → OrdMap MemberId Nat → OrdMap MemberId Key → Certificate Nat → Bool :=
  fun _ _ _ _ => true

/-- What reaches an engine that holds the block for the next height, before it is decided: a
stream that is opened and never closed, a block two heights ahead, and that one decided. -/
def betweenEvents : List (EngineEvent Nat) :=
  [.part 7 ⟨0, 0, .data (.init 1 (.some 0) .nil 0)⟩ 0,
    .synced 2 .nil 0 (emptyBlock 2).encode 0,
    .decided (certificateFor (emptyBlock 2)) {}]

/-- A served block for the next height is held, and committed when it is decided, though a
stream was opened, a later block served, and a decision made on that one, in between. -/
theorem decided_commits_between :
    let held := idleEngine.next openLedger leNumeral trusting
      (.synced 1 .nil 0 (emptyBlock 1).encode 0)
    let s := betweenEvents.foldl (fun s e => s.next openLedger leNumeral trusting e) held
    verifyDecided trusting s.replica s.pending (certificateFor (emptyBlock 1)) =
        some (emptyBlock 1) ∧
      Committed openLedger s.replica (emptyBlock 1)
        (s.next openLedger leNumeral trusting
          (.decided (certificateFor (emptyBlock 1)) {})).replica := by
  intro held s
  have hahead : verifyDecided trusting
      ((betweenEvents.take 2).foldl (fun s e => s.next openLedger leNumeral trusting e)
        held).replica
      ((betweenEvents.take 2).foldl (fun s e => s.next openLedger leNumeral trusting e)
        held).pending (certificateFor (emptyBlock 2)) = some (emptyBlock 2) := by decide +kernel
  have hbetween : Reaches.Admits (fun e s => Engine.next openLedger leNumeral trusting e s)
      (Undisturbing trusting) betweenEvents held := by
    refine ⟨⟨trivial, trivial⟩, ⟨trivial, trivial⟩, ⟨trivial, fun b hb => ?_⟩, trivial⟩
    -- the decision is on the block for the second height
    obtain rfl : b = emptyBlock 2 := Option.some_injective _ (hb.symm.trans hahead)
    decide +kernel
  obtain ⟨validators, hvalidators⟩ := Option.isSome_iff_exists.1
    (show (s.replica.validatorsAt s.replica.height).isSome = true by decide +kernel)
  exact decided_commits (s := idleEngine) leNumeral_injective (.start ⟨rfl, rfl⟩) rfl rfl
    (answer_emptyBlock (by decide) 1) rfl rfl betweenEvents hbetween rfl rfl hvalidators rfl rfl

/-- A block for the second height is served, then one for the first, which is decided. -/
def servedAhead : Engine Unit Nat :=
  [.synced 2 .nil 0 (emptyBlock 2).encode 0, .synced 1 .nil 0 (emptyBlock 1).encode 0,
    .decided (certificateFor (emptyBlock 1)) {}].foldl
      (fun s e => s.next openLedger leNumeral trusting e) idleEngine

/-- **A valid value that is lost.** The block for the second height was answered valid; the commit
of the first height empties what is held, and when the second is decided, by a good
certificate, its block is not found. -/
theorem decided_lost :
    (∃ v, idleEngine.answer openLedger leNumeral
        (.synced 2 .nil 0 (emptyBlock 2).encode 0) = some v ∧ v.validity = .valid ∧
      v.block = emptyBlock 2) ∧
    servedAhead.replica.height = 1 ∧
    verifyDecided trusting servedAhead.replica servedAhead.pending
      { certificateFor (emptyBlock 2) with height := 2 } = none := by
  refine ⟨⟨_, answer_emptyBlock (by decide) 2, rfl, rfl⟩, ?_⟩
  decide +kernel

end Edet.Node
