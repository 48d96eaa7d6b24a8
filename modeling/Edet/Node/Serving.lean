import Edet.Node.Decision

/-!
# What a node serves

A node serves a decided block with its certificate, and a peer that catches up accepts
the pair when the string hashes to the id in the certificate and the heights agree
(`acceptsPair`).

A value that came as parts is filed under the hash of the bytes as they were received,
a value that came whole under the hash of its encoding. The two are one where the bytes
are an encoding (`Canonical`); the decoder also takes bytes that are not
(`decode_append`). The store pairs the block of a height with the last certificate of that
height (`Store.Paired`), and the certificate is recorded under the height that the block
names, before that height is looked at.

`served_pairs` is what runs of canonical streams and fresh heights serve; `served_apart` is
a run of the other kind.
-/

namespace Edet.Node

section Stores

variable {σ D : Type} (sha256 : Bytes → D)

/-- **Blocks and certificates match**: every frame up to height `n` is an encoding, and the
last certificate of its height decides it. -/
structure Store.Paired (n : Nat) (s : Store σ D) : Prop where
  indexed : s.Indexed
  frame : ∀ p ∈ s.wal, ∀ b, Block.decode p = some b → p = b.encode ∧ b.height ≤ n
  certificate : ∀ p ∈ s.wal, ∀ b, Block.decode p = some b →
    ∀ c, Store.lastOf s.certificates b.height = some c →
      c.valueId = valueId sha256 b ∧ c.height = b.height

/-- The last certificate of the height of a block decides the block. -/
def Store.Ready (block : Block) (s : Store σ D) : Prop :=
  ∀ c, Store.lastOf s.certificates block.height = some c →
    c.valueId = valueId sha256 block ∧ c.height = block.height

variable {sha256}

/-- A certificate for a new height is nobody else's. -/
theorem Store.Paired.appendCertificate {n height : Nat} {s : Store σ D} (h : s.Paired sha256 n)
    (hn : n < height) (c : Certificate D) : (s.appendCertificate height c).Paired sha256 n := by
  refine ⟨h.indexed.appendCertificate height c, h.frame, fun p hp b hb c' hc' => ?_⟩
  have hle := (h.frame p hp b hb).2
  simp only [Store.appendCertificate, Store.lastOf_append] at hc'
  rw [if_neg (by omega)] at hc'
  exact h.certificate p hp b hb c' hc'

theorem Store.Ready.appendCertificate {block : Block} {s : Store σ D} {c : Certificate D}
    (hid : c.valueId = valueId sha256 block) (hheight : c.height = block.height) :
    (s.appendCertificate block.height c).Ready sha256 block := by
  intro c' hc'
  simp only [Store.appendCertificate, Store.lastOf_append, if_true] at hc'
  obtain rfl := Option.some.inj hc'
  exact ⟨hid, hheight⟩

/-- A block is appended where its certificate is ready. -/
theorem Store.Paired.appendBlock {n : Nat} {s : Store σ D} (h : s.Paired sha256 n) {block : Block}
    (hready : s.Ready sha256 block) (hfits : block.Fits) (hn : n ≤ block.height) :
    (s.appendBlock block).Paired sha256 block.height := by
  have hnew {p : Bytes} {b : Block} (hp : p ∈ [block.encode]) (hb : Block.decode p = some b) :
      p = block.encode ∧ b = block := by
    obtain rfl := List.mem_singleton.1 hp
    rw [Block.decode_encode hfits] at hb
    exact ⟨rfl, (Option.some.inj hb).symm⟩
  refine ⟨h.indexed.appendBlock hfits, fun p hp b hb => ?_, fun p hp b hb c hc => ?_⟩
  · obtain hp | hp := List.mem_append.1 hp
    · obtain ⟨hcode, hle⟩ := h.frame p hp b hb
      exact ⟨hcode, hle.trans hn⟩
    · obtain ⟨rfl, rfl⟩ := hnew hp hb
      exact ⟨rfl, Nat.le_refl _⟩
  · obtain hp | hp := List.mem_append.1 hp
    · exact h.certificate p hp b hb c hc
    · obtain ⟨-, rfl⟩ := hnew hp hb
      exact hready c hc

theorem Store.Paired.pruneBelow {n : Nat} {s : Store σ D} (h : s.Paired sha256 n)
    (keepFrom : Nat) : (s.pruneBelow keepFrom).Paired sha256 n := by
  obtain ⟨hindexed, hkept⟩ := h.indexed.pruneBelow keepFrom
  refine ⟨hindexed, fun p hp => h.frame p (hkept p hp).1, fun p hp b hb c hc => ?_⟩
  obtain ⟨hmem, hlast⟩ := hkept p hp
  rw [hlast b hb] at hc
  exact h.certificate p hmem b hb c hc

/-- **A pair that is found matches.** -/
theorem Store.Paired.find {n h : Nat} {s : Store σ D} (hs : s.Paired sha256 n) {b : Block}
    {c : Certificate D} (hb : s.findBlock h = some b) (hc : s.findCertificate h = some c) :
    c.valueId = valueId sha256 b ∧ c.height = b.height ∧ b.Fits := by
  obtain ⟨p, hget, hdecode⟩ := Option.bind_eq_some_iff.1 hb
  obtain ⟨hmem, b', hb', rfl⟩ := hs.indexed.block h p hget
  obtain rfl := Option.some.inj (hb'.symm.trans hdecode)
  unfold Store.findCertificate at hc
  rw [hs.indexed.certificate] at hc
  obtain ⟨hid, hheight⟩ := hs.certificate p hmem b' hdecode c hc
  exact ⟨hid, hheight, Block.fits_of_decode hdecode⟩

/-! ### A commit -/

variable (sha256) in
/-- The store of a replica, if it has one, is paired up to its height. -/
def Replica.Paired (r : Replica σ D) : Prop :=
  ∀ s, r.store = some s → s.Paired sha256 r.height

variable (sha256) in
/-- Between a certificate and its block. -/
structure Replica.Awaits (block : Block) (r : Replica σ D) : Prop where
  paired : r.Paired sha256
  lower : r.height ≤ block.height
  ready : ∀ s, r.store = some s → s.Ready sha256 block

open Op

/-- A write to the store, from what it does to a store there is. -/
theorem durable_triple {P Q E : Replica σ D → Prop} {succeeds : Bool}
    {write : Store σ D → Store σ D} (hnone : ∀ r, P r → r.store = none → Q r)
    (hsome : ∀ r s, P r → r.store = some s → Q { r with store := some (write s) })
    (herr : ∀ r, P r → E r) : Triple P (durable succeeds write) (fun _ => Q) E := by
  intro r hr
  cases hs : r.store with
  | none =>
    have hexec : exec (durable succeeds write) r = (.ok (), r) := by
      show durable succeeds write r = _
      unfold durable
      rw [hs]
    rw [hexec]
    exact hnone r hr hs
  | some s =>
    have hexec : exec (durable succeeds write) r =
        if succeeds then (.ok (), { r with store := some (write s) }) else (.error .store, r) := by
      show durable succeeds write r = _
      unfold durable
      rw [hs]
    rw [hexec]
    cases succeeds with
    | true => exact hsome r s hr hs
    | false => exact herr r hr

/-- **What the journals keep**: whatever neither the histories of a replica bear on nor the journals
in its store. -/
theorem journals_triple (M : Machine σ) {I : Replica σ D → Prop}
    (hhistories : ∀ r validators keys, I r →
      I { r with validatorHistory := validators, validatorKeyHistory := keys })
    (hstore : ∀ r s validators keys, I r → r.store = some s →
      I { r with store := some { s with validators, keys } })
    (io : Io) (before : OrdMap MemberId Nat) (keys : OrdMap MemberId Key)
    {rest : Op (Replica σ D) CommitError Unit} {Q : Unit → Replica σ D → Prop}
    (hrest : Triple I rest Q I) :
    Triple I (do
      journalValidators M io before
      journalKeys M io keys
      rest) Q I := by
  have hvalidators (height : Nat) (set : OrdMap MemberId Nat) : Triple I
      (durable io.validators (Store.appendValidatorSet height set)) (fun _ => I) I :=
    durable_triple (fun r hr _ => hr) (fun r s hr hs => hstore r s _ s.keys hr hs) fun r hr => hr
  have hkeys (height : Nat) (set : OrdMap MemberId Key) : Triple I
      (durable io.keys (Store.appendValidatorKeys height set)) (fun _ => I) I :=
    durable_triple (fun r hr _ => hr) (fun r s hr hs => hstore r s s.validators _ hr hs)
      fun r hr => hr
  refine Triple.bind (Q := fun _ => I) ?_ fun _ => Triple.bind (Q := fun _ => I) ?_ fun _ => hrest
  · refine Triple.bind (Triple.ask fun r hr => hr) fun r => Triple.ite
      (fun _ => Triple.pure fun r hr => hr) fun _ => ?_
    exact Triple.bind (Q := fun _ => I)
      (Triple.write fun r hr => hhistories r _ r.validatorKeyHistory hr) fun _ => hvalidators _ _
  · refine Triple.bind (Triple.ask fun r hr => hr) fun r => Triple.ite (fun _ => ?_)
      fun _ => Triple.pure fun r hr => hr
    exact Triple.bind (Q := fun _ => I)
      (Triple.write fun r hr => hhistories r r.validatorHistory _ hr) fun _ => hkeys _ _

/-- A write that keeps blocks and certificates paired. -/
theorem Replica.Paired.durable {succeeds : Bool} {write : Store σ D → Store σ D}
    (hwrite : ∀ n s, s.Paired sha256 n → (write s).Paired sha256 n) :
    Triple (Replica.Paired (σ := σ) sha256) (durable succeeds write)
      (fun _ => Replica.Paired sha256) (Replica.Paired sha256) := by
  refine durable_triple (fun r hr _ => hr) (fun r s hr hs s' hs' => ?_) fun r hr => hr
  obtain rfl := Option.some.inj hs'
  exact hwrite r.height s (hr s hs)

variable (M : Machine σ)

theorem paired_writeDueSnapshot (io : Io) :
    Triple (Replica.Paired (σ := σ) sha256) (writeDueSnapshot io)
      (fun _ => Replica.Paired sha256) (Replica.Paired sha256) := by
  refine Triple.bind (Triple.ask fun r hr => hr) fun r => Triple.ite
    (fun _ => Triple.bind (Q := fun _ => Replica.Paired sha256) ?_ fun _ => ?_)
    fun _ => Triple.pure fun r hr => hr
  · exact Replica.Paired.durable fun n s hs => ⟨⟨hs.indexed.block, hs.indexed.certificate⟩,
      hs.frame, hs.certificate⟩
  · exact Replica.Paired.durable fun n s hs => hs.pruneBelow _

/-- **A commit keeps blocks and certificates paired**, accepted or refused: of a block
under a certificate for it and its height, which is not below the replica's. -/
theorem paired_commit (io : Io) {block : Block} {certificate : Certificate D}
    (hfits : block.Fits) (hid : certificate.valueId = valueId sha256 block)
    (hheight : certificate.height = block.height) :
    Triple (fun r : Replica σ D => r.Paired sha256 ∧ r.height < block.height)
      (commitBlockWithCertificate M io block certificate) (fun _ => Replica.Paired sha256)
      (Replica.Paired sha256) := by
  unfold commitBlockWithCertificate
  refine Triple.bind (Q := fun _ r => r.Paired sha256 ∧ r.height < block.height)
    (Triple.ask fun r hr => hr) fun r => ?_
  iterate 3
    refine Triple.bind (Q := fun _ r => r.Paired sha256 ∧ r.height < block.height)
      (Triple.refuseIf (fun r hr _ => hr) fun r hr _ => hr.1) fun _ => ?_
  refine Triple.bind (Q := fun _ => Replica.Awaits sha256 block) (durable_triple ?_ ?_ ?_) fun _ => ?_
  · intro r hr hnone
    refine ⟨hr.1, hr.2.le, fun s hs => ?_⟩
    rw [hnone] at hs
    cases hs
  · intro r s hr hs
    refine ⟨fun s' hs' => ?_, hr.2.le, fun s' hs' => ?_⟩
    · obtain rfl := Option.some.inj hs'
      exact (hr.1 s hs).appendCertificate hr.2 certificate
    · obtain rfl := Option.some.inj hs'
      exact Store.Ready.appendCertificate hid hheight
  · exact fun r hr => hr.1
  -- the block itself
  unfold commitBlockUnchecked
  refine Triple.bind (Q := fun _ => Replica.Awaits sha256 block) (Triple.ask fun r hr => hr)
    fun r => ?_
  iterate 3
    refine Triple.bind (Q := fun _ => Replica.Awaits sha256 block)
      (Triple.refuseIf (fun r hr _ => hr) fun r hr _ => hr.paired) fun _ => ?_
  refine Triple.bind (Q := fun _ => Replica.Awaits sha256 block)
    (Triple.write fun r hr => ⟨hr.paired, hr.lower, hr.ready⟩) fun _ => ?_
  split
  case h_1 reason _ =>
    exact Triple.bind (Q := fun _ => Replica.Paired sha256)
      (Triple.write fun r hr => hr.paired) fun _ => Triple.refuse fun r hr => hr
  case h_2 =>
    refine Triple.bind (Q := fun _ r => ∀ s, r.store = some s → s.Paired sha256 block.height)
      (durable_triple ?_ ?_ fun r hr => hr.paired) fun _ => ?_
    · intro r hr hnone s hs
      rw [hnone] at hs
      cases hs
    · intro r s hr hs s' hs'
      obtain rfl := Option.some.inj hs'
      exact (hr.paired s hs).appendBlock (hr.ready s hs) hfits hr.lower
    · unfold settle
      refine Triple.bind (Q := fun _ => Replica.Paired sha256) (Triple.write fun r hr => hr) fun _ =>
        Triple.bind (Q := fun _ => Replica.Paired sha256) (Triple.write fun r hr => hr) fun _ => ?_
      refine journals_triple M (fun r _ _ hr => hr) (fun r s _ _ hr hs s' hs' => ?_) io _ _
        (paired_writeDueSnapshot io)
      obtain rfl := Option.some.inj hs'
      have hs := hr s hs
      exact ⟨⟨hs.indexed.block, hs.indexed.certificate⟩, hs.frame, hs.certificate⟩

end Stores

/-! ### Runs -/

section Runs

variable {σ D : Type} [Ord D] [Std.TransOrd D] [DecidableEq D]
variable (M : Machine σ) (sha256 : Bytes → D)
  (certified : σ → OrdMap MemberId Nat → OrdMap MemberId Key → Certificate D → Bool)

/-- **The events that keep ids honest.** A stream is closed when its bytes are the encoding
of the block they decode to, and a held block is decided for the height it names, which is
not one the replica has committed. -/
def Canonical (e : EngineEvent D) (s : Engine σ D) : Prop :=
  Fitting e s ∧
    match e with
    | .part sender ⟨stream, _, .fin⟩ _ =>
      ∀ (a : Assembly D) (b : Block), s.streams[((sender, stream) : StreamKey)]? = some a →
        Block.decode a.payload = some b → a.payload = b.encode
    | .decided certificate _ => ∀ w, s.pending[certificate.valueId]? = some w →
        w.block.height = certificate.height ∧ s.replica.height < certificate.height
    | _ => True

/-- A loop that starts on an empty store. -/
def Engine.Fresh (s : Engine σ D) : Prop :=
  s.Start ∧ ∀ st, s.replica.store = some st → st = {}

/-- What is held is filed under the hash of its encoding, and the store is paired. -/
structure Engine.Serves (s : Engine σ D) : Prop where
  held : ∀ (id : D) (w : PendingValue), s.pending[id]? = some w →
    id = valueId sha256 w.block ∧ w.block.Fits
  paired : s.replica.Paired sha256

variable {M sha256 certified}

/-- **The id that is reported is the id of the block.** -/
theorem Canonical.id_eq {s : Engine σ D} {e : EngineEvent D} (h : Canonical e s)
    {v : ProposedValue D} (hanswer : s.answer M sha256 e = some v) :
    v.id = valueId sha256 v.block ∧ v.block.Fits := by
  cases e with
  | getValue => cases hanswer
  | decided => cases hanswer
  | synced height round proposer bytes now =>
    simp only [Engine.answer, processSynced] at hanswer
    cases hdecode : Block.decode bytes with
    | none =>
      rw [hdecode] at hanswer
      cases hanswer
    | some b =>
      rw [hdecode] at hanswer
      obtain rfl := Option.some.inj hanswer
      exact ⟨rfl, Block.fits_of_decode hdecode⟩
  | part sender msg now =>
    obtain ⟨stream, sequence, content⟩ := msg
    cases content with
    | data part =>
      simp only [Engine.answer, reassemble_data] at hanswer
      cases hanswer
    | fin =>
      simp only [Engine.answer, reassemble_fin] at hanswer
      obtain ⟨a, hget, hv⟩ := Option.bind_eq_some_iff.1 hanswer
      obtain ⟨-, hdecode, hhash, -⟩ := closeStream_eq_some sha256 hv
      refine ⟨?_, Block.fits_of_decode hdecode⟩
      rw [← hhash, h.2 a v.block hget hdecode]
      rfl

/-- **One event keeps ids honest and the store paired.** -/
theorem Engine.Serves.next [Std.LawfulEqOrd D] {s : Engine σ D} (h : s.Serves sha256)
    {e : EngineEvent D} (he : Canonical e s) :
    (s.next M sha256 certified e).Serves sha256 := by
  cases hrun : s.stopped with
  | true => rwa [Engine.next_of_stopped hrun]
  | false =>
    have hmessage (hm : (∃ sender msg now, e = .part sender msg now) ∨
        ∃ height round proposer bytes now, e = .synced height round proposer bytes now) :
        (s.next M sha256 certified e).Serves sha256 := by
      have hkept : (s.next M sha256 certified e).replica = s.replica ∧ _ :=
        Engine.pending_of_message hrun hm
      obtain ⟨hreplica, -, hpending⟩ := hkept
      refine ⟨fun id w hget => ?_, hreplica ▸ h.paired⟩
      rw [hpending] at hget
      cases hanswer : s.answer M sha256 e with
      | none =>
        rw [hanswer] at hget
        exact h.held id w hget
      | some v =>
        rw [hanswer, Option.elim_some] at hget
        obtain hold | ⟨-, hid, hnew⟩ := getElem?_keep s.pending v id
        · exact h.held id w (hold ▸ hget)
        · obtain rfl := Std.compare_eq_iff_eq.1 hid
          rw [hnew] at hget
          rw [← Option.some.inj hget]
          exact he.id_eq hanswer
    cases e with
    | part sender msg now => exact hmessage (.inl ⟨sender, msg, now, rfl⟩)
    | synced height round proposer bytes now =>
      exact hmessage (.inr ⟨height, round, proposer, bytes, now, rfl⟩)
    | getValue height round now txs =>
      refine ⟨fun id w hget => ?_, ?_⟩
      · simp only [Engine.next, hrun, Bool.false_eq_true, if_false] at hget
        rw [Std.ExtTreeMap.getElem?_insert] at hget
        split at hget
        case isTrue hid =>
          obtain rfl := Std.compare_eq_iff_eq.1 hid
          rw [← Option.some.inj hget]
          exact ⟨rfl, he.1⟩
        case isFalse => exact h.held id w hget
      · simp only [Engine.next, hrun, Bool.false_eq_true, if_false]
        exact h.paired
    | decided certificate io =>
      simp only [Engine.next, hrun, Bool.false_eq_true, if_false, Engine.decide]
      cases hverify : verifyDecided certified s.replica s.pending certificate with
      | none => exact h
      | some block =>
        -- the decided block is the one held under the certificate's id
        obtain ⟨w, hget, rfl⟩ := held_of_verifyDecided hverify
        obtain ⟨hheight, hlower⟩ := he.2 w hget
        obtain ⟨hid, hfits⟩ := h.held _ w hget
        have hpaired := (paired_commit M io hfits hid hheight.symm).exec_snd
          ⟨h.paired, hheight ▸ hlower⟩
        cases hexec : Op.exec (commitBlockWithCertificate M io w.block certificate) s.replica with
        | mk res r =>
          rw [hexec] at hpaired
          cases res with
          | ok u =>
            simp only [hexec]
            refine ⟨fun id w hget => ?_, hpaired⟩
            rw [Std.ExtTreeMap.getElem?_empty] at hget
            cases hget
          | error err =>
            simp only [hexec]
            cases err <;> exact ⟨h.held, hpaired⟩

omit [DecidableEq D] in
theorem Engine.Fresh.serves {s : Engine σ D} (h : s.Fresh) : s.Serves sha256 := by
  refine ⟨fun id w hget => ?_, fun st hst => ?_⟩
  · rw [h.1.2, Std.ExtTreeMap.getElem?_empty] at hget
    cases hget
  · obtain rfl := h.2 st hst
    refine ⟨⟨fun k p hget => ?_, fun k => Std.ExtTreeMap.getElem?_empty⟩,
      fun p hp => absurd hp List.not_mem_nil, fun p hp => absurd hp List.not_mem_nil⟩
    rw [Std.ExtTreeMap.getElem?_empty] at hget
    cases hget

/-- **Ids are honest, and what is served is accepted.** In every state that canonical
events lead to, a value that is answered reports the id of its block, what is held is filed under the
id of its block, and the string served for a height hashes to the id in the certificate
served with it, which a peer or an import accepts. -/
theorem served_pairs [Std.LawfulEqOrd D] {s : Engine σ D}
    (h : Reaches (fun e s => Engine.next M sha256 certified e s) Engine.Fresh Canonical s) :
    (∀ (e : EngineEvent D) (v : ProposedValue D), Canonical e s →
      s.answer M sha256 e = some v → v.id = valueId sha256 v.block) ∧
    (∀ (id : D) (w : PendingValue), s.pending[id]? = some w → id = valueId sha256 w.block) ∧
    ∀ (height : Nat) (p : Bytes × Certificate D), s.replica.getDecidedValue height = some p →
      sha256 p.1 = p.2.valueId ∧ acceptsPair sha256 p = true := by
  have hs : s.Serves sha256 := h.invariant (fun s hs => hs.serves) fun e s hs he => hs.next he
  refine ⟨fun e v he hanswer => (he.id_eq hanswer).1, fun id w hget => (hs.held id w hget).1, ?_⟩
  intro height p hp
  obtain ⟨⟨b, c⟩, hpair, rfl⟩ := Option.map_eq_some_iff.1 hp
  obtain ⟨st, hst, hpair⟩ := Option.bind_eq_some_iff.1 hpair
  obtain ⟨b', hb, hpair⟩ := Option.bind_eq_some_iff.1 hpair
  obtain ⟨c', hc, hpair⟩ := Option.bind_eq_some_iff.1 hpair
  obtain ⟨rfl, rfl⟩ := Prod.mk.inj (Option.some.inj hpair)
  obtain ⟨hid, hheight, hfits⟩ := (hs.paired st hst).find hb hc
  refine ⟨hid.symm, ?_⟩
  unfold acceptsPair
  rw [Block.decode_encode hfits]
  simp only [Option.any_some, decide_eq_true_eq]
  exact ⟨hid, hheight⟩

end Runs

/-! ### A padded stream -/

/-- The state of an idle node after some events. -/
def idleAfter (es : List (EngineEvent Nat)) : Engine Unit Nat :=
  es.foldl (fun s e => s.next openLedger leNumeral trusting e) idleEngine

/-- A block that was served whole is decided, and served to a peer that accepts it. -/
theorem served_pairs_next :
    acceptsPair leNumeral ((emptyBlock 1).encode, certificateFor (emptyBlock 1)) = true := by
  have hheld : (idleAfter [.synced 1 .nil 0 (emptyBlock 1).encode 0]).pending[
      valueId leNumeral (emptyBlock 1)]? = some ⟨.nil, .nil, 0, emptyBlock 1⟩ := by
    decide +kernel
  have hreaches : Reaches (fun e s => Engine.next openLedger leNumeral trusting e s) Engine.Fresh
      Canonical (idleAfter [.synced 1 .nil 0 (emptyBlock 1).encode 0,
        .decided (certificateFor (emptyBlock 1)) {}]) := by
    have hstart : Reaches (fun e s => Engine.next openLedger leNumeral trusting e s) Engine.Fresh
        Canonical idleEngine := .start ⟨⟨rfl, rfl⟩, fun st hst => (Option.some.inj hst).symm⟩
    have hserved := hstart.step (.synced 1 .nil 0 (emptyBlock 1).encode 0) ⟨trivial, trivial⟩
    refine hserved.step (.decided (certificateFor (emptyBlock 1)) {}) ⟨trivial, fun w hw => ?_⟩
    obtain rfl := Option.some.inj (hheld.symm.trans hw)
    exact ⟨rfl, by decide⟩
  exact ((served_pairs hreaches).2.2 1 ((emptyBlock 1).encode, certificateFor (emptyBlock 1))
    (by decide +kernel)).2

/-- The encoding of a block, and a byte. -/
def padded : Bytes := (emptyBlock 1).encode ++ [0]

/-- A stream of the padded bytes, up to the envelope that closes it. -/
def paddedStream : List (EngineEvent Nat) :=
  [.part 7 ⟨0, 0, .data (.init 1 (.some 0) .nil 0)⟩ 0, .part 7 ⟨0, 1, .data (.chunk 0 padded)⟩ 0,
    .part 7 ⟨0, 2, .data (.fin (leNumeral padded))⟩ 0]

/-- **An id that is not the block's.** The padded stream is answered valid under the hash of
what was received; the block is committed under a certificate for that id, and what is then
served hashes to another one and is accepted by nobody. -/
theorem served_apart :
    ((idleAfter paddedStream).answer openLedger leNumeral (.part 7 ⟨0, 3, .fin⟩ 0)).any
        (fun v => decide (v.validity = .valid ∧ v.id ≠ valueId leNumeral v.block)) = true ∧
      ((idleAfter (paddedStream ++ [.part 7 ⟨0, 3, .fin⟩ 0,
          .decided { certificateFor (emptyBlock 1) with valueId := leNumeral padded } {}])
        ).replica.getDecidedValue 1).any
        (fun p => decide (leNumeral p.1 ≠ p.2.valueId) && !acceptsPair leNumeral p) = true := by
  decide +kernel

end Edet.Node
