import Edet.Library.Runs
import Edet.Node.Parts

/-!
# What a node holds for its peers

The buffer of streams and the values held, under everything peers can send and every
commit between (`Held.next`).

The caps bound the streams, their chunks and their bytes whatever arrives
(`Assembly.Capped`, `PartStreams.Capped`). Two things they do not count: the envelope
numbers of a stream, recorded before its chunk is looked at, and the values held, of
which every valid one stays until a commit. So the bound over runs is relative to what
arrives (`Moderate`): a stream is sent a new number only while it has fewer than `S`, and
a value is completed or offered only while fewer than `P` are held (`held_bounded`).
Without that, no bound is kept (`held_unbounded`).
-/

namespace Edet.Node

variable {D : Type}

/-- What a node holds for its peers. -/
structure Held (D : Type) [Ord D] where
  streams : PartStreams D := ∅
  pending : Pending D := ∅

/-- What happens to it: a message of a peer, a value served by one, a commit. -/
inductive HeldEvent (D : Type)
  | part (sender : PeerId) (msg : StreamMessage D) (ctx : ScreenCtx)
  | synced (height : Nat) (round : Round) (proposer : Address) (bytes : Bytes) (ctx : ScreenCtx)
  | committed (height : Nat)

def Held.next [Ord D] [Std.TransOrd D] [DecidableEq D] (sha256 : Bytes → D) (e : HeldEvent D)
    (s : Held D) : Held D :=
  match e with
  | .part sender msg ctx =>
    let r := reassemble sha256 s.streams s.pending sender msg ctx
    { streams := r.1, pending := r.2.1 }
  | .synced height round proposer bytes ctx =>
    { s with pending := (processSynced sha256 s.pending height round proposer bytes ctx).1 }
  | .committed height => { streams := s.streams.evictDecided height, pending := ∅ }

/-! ### The bounds -/

/-- What the caps say of one stream, and that at most `S` numbers are recorded of it. -/
structure Assembly.Capped (S : Nat) (a : Assembly D) : Prop where
  chunks : a.chunks.size ≤ maxChunksPerStream
  /-- The counter is the sum of the chunks that are kept. -/
  counter : a.bytes = a.chunks.total fun _ b => b.length
  bytes : a.bytes ≤ maxStreamBytes
  seen : a.seenSequences.size ≤ S

structure PartStreams.Capped (S : Nat) (streams : PartStreams D) : Prop where
  size : streams.size ≤ maxInflightStreams
  perPeer : ∀ peer, streams.heldBy peer ≤ maxStreamsPerPeer
  bytes : streams.bufferedBytes ≤ maxBufferedBytes
  assembly : ∀ (key : StreamKey) (a : Assembly D), streams[key]? = some a → a.Capped S

/-- At most `P` values are held, the encoding of each no longer than `B`. -/
structure Pending.Capped [Ord D] [Std.TransOrd D] (P B : Nat) (pending : Pending D) : Prop where
  size : pending.size ≤ P
  block : ∀ (id : D) (v : PendingValue), pending[id]? = some v → v.block.encode.length ≤ B

structure Held.Bounded [Ord D] [Std.TransOrd D] (S P B : Nat) (s : Held D) : Prop where
  streams : s.streams.Capped S
  pending : Pending.Capped P B s.pending

/-- The bytes of all the blocks held. -/
def Pending.blockBytes [Ord D] [Std.TransOrd D] (pending : Pending D) : Nat :=
  pending.total fun _ v => v.block.encode.length

/-! ### Counting by totals -/

theorem Pending.Capped.blockBytes_le [Ord D] [Std.TransOrd D] [Std.LawfulEqOrd D] {P B : Nat}
    {pending : Pending D} (h : pending.Capped P B) : pending.blockBytes ≤ P * B := by
  have hle : pending.blockBytes ≤ pending.total fun _ _ => B :=
    OrdMap.total_le_total h.block
  have hconst : (pending.total fun _ _ => B) = pending.size * B := by
    simp [OrdMap.total]
  rw [hconst] at hle
  exact hle.trans (Nat.mul_le_mul_right B h.size)

theorem PartStreams.size_eq_total (streams : PartStreams D) :
    streams.size = streams.total fun _ _ => 1 := by
  simp [OrdMap.total]

theorem PartStreams.heldBy_eq_total (streams : PartStreams D) (peer : PeerId) :
    streams.heldBy peer = streams.total fun key _ => if key.1 = peer then 1 else 0 := by
  unfold heldBy OrdMap.total
  rw [← Std.ExtTreeMap.map_fst_toList_eq_keys]
  induction streams.toList with
  | nil => rfl
  | cons p l ih =>
    rw [List.map_cons, List.map_cons, List.sum_cons, ← ih]
    beta_reduce
    by_cases h : p.1.1 = peer
    · rw [List.filter_cons_of_pos (by simpa using h), if_pos h, List.length_cons, Nat.add_comm]
    · rw [List.filter_cons_of_neg (by simpa using h), if_neg h, Nat.zero_add]

theorem PartStreams.full_eq_false_of_none {streams : PartStreams D} {key : StreamKey}
    (hget : streams[key]? = none) (h : streams.full key = false) :
    streams.size < maxInflightStreams ∧ streams.heldBy key.1 < maxStreamsPerPeer := by
  have hnew : streams.contains key = false := by
    rw [← Std.ExtTreeMap.isSome_getElem?_eq_contains, hget]
    rfl
  simpa [full, hnew] using h

/-- A new stream is one more of its peer's, and an old one is none. -/
theorem PartStreams.capped_insert {S : Nat} {streams : PartStreams D} (h : streams.Capped S)
    {key : StreamKey} {a : Assembly D} (hfull : streams.full key = false) (ha : a.Capped S)
    (hbytes : streams.bufferedBytes + a.bytes ≤ maxBufferedBytes + (streams.entry key).bytes) :
    PartStreams.Capped S (streams.insert key a) := by
  have hsize := OrdMap.total_insert (fun _ _ => 1) streams key a
  have hpeer (peer : PeerId) :=
    OrdMap.total_insert (fun k _ => if k.1 = peer then 1 else 0) streams key a
  have hbuf := OrdMap.total_insert (fun _ a => a.bytes) streams key a
  simp only [← PartStreams.size_eq_total, ← PartStreams.heldBy_eq_total] at hsize hpeer
  change PartStreams.bufferedBytes (streams.insert key a) + _ = streams.bufferedBytes + _ at hbuf
  refine ⟨?_, fun peer => ?_, ?_, fun k b hget => ?_⟩
  · have := h.size
    cases hget : streams[key]? with
    | none =>
      have := (full_eq_false_of_none hget hfull).1
      omega
    | some b =>
      rw [hget] at hsize
      simp only [Option.elim_some] at hsize
      omega
  · have := h.perPeer peer
    specialize hpeer peer
    cases hget : streams[key]? with
    | none =>
      have hlt := (full_eq_false_of_none hget hfull).2
      by_cases hk : key.1 = peer
      · rw [if_pos hk] at hpeer
        rw [hk] at hlt
        omega
      · rw [if_neg hk] at hpeer
        omega
    | some b =>
      rw [hget] at hpeer
      simp only [Option.elim_some] at hpeer
      omega
  · have := h.bytes
    unfold entry at hbytes
    rw [Std.ExtTreeMap.getD_eq_getD_getElem?] at hbytes
    cases hget : streams[key]? with
    | none =>
      rw [hget] at hbytes hbuf
      simp only [Option.elim_none, Option.getD_none] at hbytes hbuf
      omega
    | some b =>
      rw [hget] at hbytes hbuf
      simp only [Option.elim_some, Option.getD_some] at hbytes hbuf
      omega
  · rw [Std.ExtTreeMap.getElem?_insert] at hget
    split at hget
    · rw [← Option.some.inj hget]
      exact ha
    · exact h.assembly k b hget

/-! ### One message -/

theorem Assembly.capped_new (S : Nat) : ({} : Assembly D).Capped S :=
  ⟨Nat.zero_le _, (OrdMap.total_empty _).symm, Nat.zero_le _, Nat.zero_le _⟩

theorem PartStreams.Capped.entry {S : Nat} {streams : PartStreams D} (h : streams.Capped S)
    (key : StreamKey) : (streams.entry key).Capped S := by
  unfold PartStreams.entry
  rw [Std.ExtTreeMap.getD_eq_getD_getElem?]
  cases hget : streams[key]? with
  | none => exact Assembly.capped_new S
  | some a => exact h.assembly key a hget

/-- Folding a part keeps a stream within its caps, and adds no more than the part
brings. -/
theorem Assembly.Capped.fold {S : Nat} {a : Assembly D} (h : a.Capped S) (part : ProposalPart D) :
    (a.fold part).Capped S ∧ (a.fold part).bytes ≤ a.bytes + part.size := by
  cases part with
  | init height round polRound proposer =>
    exact ⟨⟨h.chunks, h.counter, h.bytes, h.seen⟩, Nat.le_refl _⟩
  | fin blockHash => exact ⟨⟨h.chunks, h.counter, h.bytes, h.seen⟩, Nat.le_refl _⟩
  | chunk seq bytes =>
    simp only [Assembly.fold]
    split_ifs with hrefused
    · exact ⟨h, Nat.le_add_right _ _⟩
    · simp only [not_or, Nat.not_le, Nat.not_lt, Bool.not_eq_true] at hrefused
      obtain ⟨hchunks, hbytes, hnew⟩ := hrefused
      have hsize := Std.ExtTreeMap.size_insert_le (t := a.chunks) (k := seq) (v := bytes)
      have hcounter := OrdMap.total_insert_of_none (f := fun _ b => b.length)
        (Std.ExtTreeMap.getElem?_eq_none_of_contains_eq_false hnew) bytes
      refine ⟨⟨hsize.trans hchunks, ?_, hbytes, h.seen⟩, Nat.le_refl _⟩
      show a.bytes + bytes.length = _
      rw [hcounter, h.counter]

/-- The stream of a part has room for the part's number, or has seen it. -/
def PartStreams.Spare (S : Nat) (streams : PartStreams D) (key : StreamKey)
    (sequence : Nat) : Prop :=
  (streams.entry key).seenSequences.contains sequence = true ∨
    (streams.entry key).seenSequences.size < S

/-- **A part keeps the caps**, where its number does. -/
theorem PartStreams.Capped.put {S : Nat} {streams : PartStreams D} (h : streams.Capped S)
    {key : StreamKey} {sequence : Nat} (part : ProposalPart D)
    (hspare : streams.Spare S key sequence) : (streams.put key sequence part).Capped S := by
  unfold PartStreams.put
  cases hadmitted : streams.admitted key sequence part with
  | none => exact h
  | some a =>
    unfold PartStreams.admitted at hadmitted
    split_ifs at hadmitted with hroom
    obtain ⟨hfull, hnew, rfl⟩ := PartStreams.accept_eq_some.1 hadmitted
    have hentry := h.entry key
    have hlt : (streams.entry key).seenSequences.size < S := by
      refine hspare.resolve_left fun hold => ?_
      rw [hnew] at hold
      cases hold
    -- the entry, with the part's number recorded
    have hseen : Assembly.Capped S { streams.entry key with
        seenSequences := (streams.entry key).seenSequences.insert sequence } :=
      ⟨hentry.chunks, hentry.counter, hentry.bytes, Std.ExtTreeSet.size_insert_le.trans hlt⟩
    obtain ⟨hfold, hbytes⟩ := hseen.fold part
    refine PartStreams.capped_insert h hfull hfold ?_
    have hcap : streams.bufferedBytes + part.size ≤ maxBufferedBytes := by
      cases part with
      | init => exact h.bytes
      | fin => exact h.bytes
      | chunk seq bytes =>
        simp only [PartStreams.room, decide_eq_true_eq] at hroom
        exact hroom.2
    refine (Nat.add_le_add_left hbytes _).trans ?_
    show _ + ((streams.entry key).bytes + part.size) ≤ _
    omega

theorem PartStreams.Capped.erase {S : Nat} {streams : PartStreams D} (h : streams.Capped S)
    (key : StreamKey) : PartStreams.Capped S (streams.erase key) := by
  have hpeer (peer : PeerId) :=
    OrdMap.total_erase (fun k _ => if k.1 = peer then 1 else 0) streams key
  have hbuf := OrdMap.total_erase (fun _ a => a.bytes) streams key
  simp only [← PartStreams.heldBy_eq_total] at hpeer
  refine ⟨Std.ExtTreeMap.size_erase_le.trans h.size, fun peer => ?_, ?_, fun k a hget => ?_⟩
  · exact (Nat.le_of_add_right_le (hpeer peer).le).trans (h.perPeer peer)
  · exact (Nat.le_of_add_right_le hbuf.le).trans h.bytes
  · rw [Std.ExtTreeMap.getElem?_erase] at hget
    split at hget
    · cases hget
    · exact h.assembly k a hget

theorem PartStreams.Capped.evictDecided {S : Nat} {streams : PartStreams D}
    (h : streams.Capped S) (committed : Nat) : (streams.evictDecided committed).Capped S := by
  refine ⟨Std.ExtTreeMap.size_filter_le_size.trans h.size, fun peer => ?_, ?_, fun k a hget => ?_⟩
  · have hle := h.perPeer peer
    rw [PartStreams.heldBy_eq_total] at hle ⊢
    exact (OrdMap.total_filter_le _ _ _).trans hle
  · exact (OrdMap.total_filter_le _ _ _).trans h.bytes
  · exact h.assembly k a (OrdMap.getElem?_filter_of_some hget).1

/-- The bytes of a stream within its caps. -/
theorem Assembly.Capped.payload_le {S : Nat} {a : Assembly D} (h : a.Capped S) :
    a.payload.length ≤ maxStreamBytes := by
  refine le_trans (le_of_eq ?_) h.bytes
  rw [h.counter, Assembly.payload, List.length_flatten, OrdMap.vals, List.map_map]
  rfl

/-! ### Runs -/

section Runs

variable [Ord D] [Std.TransOrd D] [DecidableEq D] (sha256 : Bytes → D)

omit [DecidableEq D] in
theorem Pending.capped_empty (P B : Nat) : Pending.Capped P B (∅ : Pending D) := by
  refine ⟨Nat.zero_le _, fun id v hget => ?_⟩
  rw [Std.ExtTreeMap.getElem?_empty] at hget
  cases hget

omit [DecidableEq D] in
/-- A value kept where there is room for it, or where its id is held already. -/
theorem Pending.Capped.keep {P B : Nat} {pending : Pending D} (h : pending.Capped P B)
    {v : ProposedValue D} (hroom : pending.contains v.id = true ∨ pending.size < P)
    (hblock : v.block.encode.length ≤ B) : Pending.Capped P B (keep pending v) := by
  unfold Edet.Node.keep
  split_ifs with hvalid
  · refine ⟨?_, fun id w hget => ?_⟩
    · rw [Std.ExtTreeMap.size_insert]
      have := h.size
      split_ifs with hmem
      · exact this
      · refine hroom.resolve_left fun hold => hmem ?_
        exact Std.ExtTreeMap.mem_iff_contains.2 hold
    · rw [Std.ExtTreeMap.getElem?_insert] at hget
      split at hget
      · rw [← Option.some.inj hget]
        exact hblock
      · exact h.block id w hget
  · exact h

/-- **What a node has to be spared.** A stream is sent a new number while it has fewer
than `S`, and a value is completed or offered, in at most `B` bytes, while fewer than `P`
are held. -/
def Moderate (S P B : Nat) (e : HeldEvent D) (s : Held D) : Prop :=
  match e with
  | .part sender msg _ =>
    match msg.content with
    | .data _ => s.streams.Spare S (sender, msg.streamId) msg.sequence
    | .fin => ∀ (a : Assembly D) (id : D), s.streams[(sender, msg.streamId)]? = some a →
        a.blockHash = some id → s.pending.contains id = true ∨ s.pending.size < P
  | .synced _ _ _ bytes _ => bytes.length ≤ B ∧ ∀ b, Block.decode bytes = some b →
      s.pending.contains (valueId sha256 b) = true ∨ s.pending.size < P
  | .committed _ => True

/-- **One event keeps the bounds.** -/
theorem Held.Bounded.next {S P B : Nat} {s : Held D} (h : s.Bounded S P (max B maxStreamBytes))
    {e : HeldEvent D} (ha : Moderate sha256 S P B e s) :
    (s.next sha256 e).Bounded S P (max B maxStreamBytes) := by
  cases e with
  | committed height =>
    exact ⟨h.streams.evictDecided height, Pending.capped_empty P _⟩
  | synced height round proposer bytes ctx =>
    refine ⟨h.streams, ?_⟩
    show Pending.Capped P _ (processSynced sha256 s.pending height round proposer bytes ctx).1
    unfold processSynced
    cases hdecode : Block.decode bytes with
    | none => exact h.pending
    | some b =>
      refine h.pending.keep (ha.2 b hdecode) ?_
      exact ((Block.length_encode_le hdecode).trans ha.1).trans (le_max_left _ _)
  | part sender msg ctx =>
    obtain ⟨stream, sequence, content⟩ := msg
    cases content with
    | data part =>
      simp only [Held.next, reassemble_data]
      exact ⟨h.streams.put part ha, h.pending⟩
    | fin =>
      simp only [Held.next, reassemble_fin]
      refine ⟨h.streams.erase _, ?_⟩
      cases hclose : s.streams.close sha256 (sender, stream) ctx with
      | none => exact h.pending
      | some v =>
        obtain ⟨a, hget, hv⟩ := Option.bind_eq_some_iff.1 hclose
        obtain ⟨hid, hdecode, -⟩ := closeStream_eq_some sha256 hv
        refine h.pending.keep (ha a v.id hget hid) ?_
        exact ((Block.length_encode_le hdecode).trans (h.streams.assembly _ a hget).payload_le).trans
          (le_max_right _ _)

/-- Nothing is in flight, and what is held is within the bounds. -/
def Held.Start (P B : Nat) (s : Held D) : Prop := s.streams = ∅ ∧ s.pending.Capped P B

/-- **What a node holds is bounded**, as long as its peers are moderate. -/
theorem held_bounded [Std.LawfulEqOrd D] {S P B : Nat} {s : Held D}
    (h : Reaches (fun e s => Held.next sha256 e s) (Held.Start P (max B maxStreamBytes))
      (Moderate sha256 S P B) s) :
    s.Bounded S P (max B maxStreamBytes) ∧
      s.pending.blockBytes ≤ P * max B maxStreamBytes := by
  suffices hs : s.Bounded S P (max B maxStreamBytes) from ⟨hs, hs.pending.blockBytes_le⟩
  refine h.invariant (fun s hs => ⟨?_, hs.2⟩) fun e s hs ha => hs.next sha256 ha
  rw [hs.1]
  exact ⟨Nat.zero_le _, fun peer => Nat.zero_le _, (OrdMap.total_empty _).trans_le (Nat.zero_le _),
    fun key a hget => by rw [Std.ExtTreeMap.getElem?_empty] at hget; cases hget⟩

end Runs

/-! ### A moderate run -/

/-- What a screen consults at the start of a chain, where every signature is good. -/
def openScreen : ScreenCtx where
  chainId := ""
  at_ := 0
  parentTime := 0
  nowSecs := 0
  expectedAppHash := 0
  verifyTxs := fun _ _ => true
  deterministic := fun _ => true

/-- An empty block for a height that is not being decided. -/
def earlyBlock (n : Nat) : Block where
  height := 2
  timeSecs := 0
  appHash := BitVec.ofNat 256 n
  txs := []

theorem decode_earlyBlock (n : Nat) :
    Block.decode (earlyBlock n).encode = some (earlyBlock n) :=
  Block.decode_encode ⟨show 2 < 2 ^ 64 by decide, show 0 < 2 ^ 64 by decide,
    show 0 < 2 ^ 64 by decide, fun t ht => absurd ht List.not_mem_nil⟩

/-- The state after a list of events. -/
def Held.after (es : List (HeldEvent Nat)) : Held Nat :=
  es.foldl (fun s e => s.next leNumeral e) {}

/-- A peer proposes a block in one chunk, and another block is served. -/
def proposedAndServed : List (HeldEvent Nat) :=
  [.part 0 ⟨0, 0, .data (.init 2 (.some 0) .nil 0)⟩ openScreen,
    .part 0 ⟨0, 1, .data (.chunk 0 (earlyBlock 0).encode)⟩ openScreen,
    .part 0 ⟨0, 2, .data (.fin (valueId leNumeral (earlyBlock 0)))⟩ openScreen,
    .part 0 ⟨0, 3, .fin⟩ openScreen,
    .synced 2 .nil 0 (earlyBlock 1).encode openScreen]

/-- Both values are held, and the bounds of a stream of three parts and of two values kept. -/
theorem held_bounded_proposedAndServed :
    ((Held.after proposedAndServed).Bounded 3 2 (max (earlyBlock 1).encode.length maxStreamBytes) ∧
      (Held.after proposedAndServed).pending.blockBytes ≤
        2 * max (earlyBlock 1).encode.length maxStreamBytes) ∧
      (Held.after proposedAndServed).pending.size = 2 := by
  refine ⟨held_bounded leNumeral (Reaches.of_list (.start ⟨rfl, Pending.capped_empty 2 _⟩)
    proposedAndServed ⟨.inr ?_, .inr ?_, .inr ?_, fun _ _ _ _ => .inr ?_,
      ⟨Nat.le_refl _, fun _ _ => .inr ?_⟩, trivial⟩), ?_⟩ <;>
  decide +kernel

/-! ### Without moderation -/

/-- An event whose envelope number is a machine word. -/
def HeldEvent.IsWord (e : HeldEvent D) : Prop :=
  match e with
  | .part _ msg _ => msg.sequence < 2 ^ 64
  | _ => True

theorem Held.after_range_succ (f : Nat → HeldEvent Nat) (n : Nat) :
    Held.after ((List.range (n + 1)).map f) =
      (Held.after ((List.range n).map f)).next leNumeral (f n) := by
  rw [Held.after, List.range_succ, List.map_append, List.foldl_append]
  rfl

/-- One `fin` part after another, each in an envelope of its own. -/
def finParts (n : Nat) : HeldEvent Nat := .part 0 ⟨0, n, .data (.fin 0)⟩ openScreen

/-- Every envelope leaves its number. -/
theorem seen_finParts (n : Nat) : ∃ a : Assembly Nat,
    (Held.after ((List.range (n + 1)).map finParts)).streams[((0, 0) : StreamKey)]? = some a ∧
      a.seenSequences.size = n + 1 ∧ ∀ k, n < k → a.seenSequences.contains k = false := by
  induction n with
  | zero =>
    refine ⟨{ blockHash := some 0, seenSequences := (∅ : OrdSet Nat).insert 0 }, by decide +kernel,
      by decide +kernel, fun k hk => ?_⟩
    rw [Std.ExtTreeSet.contains_insert]
    have : ¬ compare 0 k = .eq := by rw [Std.compare_eq_iff_eq]; omega
    simp [this]
  | succ n ih =>
    obtain ⟨a, hget, hsize, hnew⟩ := ih
    rw [Held.after_range_succ]
    generalize Held.after ((List.range (n + 1)).map finParts) = s at hget
    have hentry : s.streams.entry (0, 0) = a := by
      rw [PartStreams.entry, Std.ExtTreeMap.getD_eq_getD_getElem?, hget]
      rfl
    have hfull : s.streams.full (0, 0) = false := by
      have hold : s.streams.contains ((0, 0) : StreamKey) = true := by
        rw [← Std.ExtTreeMap.isSome_getElem?_eq_contains, hget]
        rfl
      simp [PartStreams.full, hold]
    have haccept := PartStreams.accept_eq_some.2 ⟨hfull, by rw [hentry]; exact hnew (n + 1) (by omega), rfl⟩
    refine ⟨{ a with blockHash := some 0, seenSequences := a.seenSequences.insert (n + 1) },
      ?_, ?_, fun k hk => ?_⟩
    · simp only [finParts, Held.next, reassemble_data, PartStreams.put, PartStreams.admitted,
        PartStreams.room, if_true, haccept, Option.elim_some, hentry, Assembly.fold]
      rw [Std.ExtTreeMap.getElem?_insert_self]
    · show (a.seenSequences.insert (n + 1)).size = _
      rw [Std.ExtTreeSet.size_insert, hnew (n + 1) (by omega), hsize]
      rfl
    · have hne : ¬ compare (n + 1) k = .eq := by rw [Std.compare_eq_iff_eq]; omega
      show (a.seenSequences.insert (n + 1)).contains k = false
      rw [Std.ExtTreeSet.contains_insert, hnew k (by omega)]
      simp [hne]

/-- One served block after another. -/
def earlyBlocks (n : Nat) : HeldEvent Nat :=
  .synced 2 .nil 0 (earlyBlock n).encode openScreen

theorem valueId_earlyBlock {m n : Nat} (hm : m < 2 ^ 64) (hn : n < 2 ^ 64)
    (h : valueId leNumeral (earlyBlock m) = valueId leNumeral (earlyBlock n)) : m = n := by
  have hencode : (earlyBlock m).encode = (earlyBlock n).encode := leNumeral_injective h
  have hblock : earlyBlock m = earlyBlock n := by
    have := decode_earlyBlock m
    rw [hencode, decode_earlyBlock n] at this
    exact (Option.some.inj this).symm
  have hhash := congrArg (fun b => b.appHash.toNat) hblock
  simp only [earlyBlock, BitVec.toNat_ofNat] at hhash
  rwa [Nat.mod_eq_of_lt (by omega), Nat.mod_eq_of_lt (by omega)] at hhash

/-- Every block is held. -/
theorem pending_earlyBlocks (n : Nat) (hn : n ≤ 2 ^ 64) :
    (Held.after ((List.range n).map earlyBlocks)).pending.size = n ∧
      ∀ k, n ≤ k → k < 2 ^ 64 → (Held.after ((List.range n).map earlyBlocks)).pending.contains
        (valueId leNumeral (earlyBlock k)) = false := by
  induction n with
  | zero => exact ⟨rfl, fun k _ _ => by simp [Held.after]⟩
  | succ n ih =>
    obtain ⟨hsize, hnew⟩ := ih (by omega)
    rw [Held.after_range_succ]
    generalize Held.after ((List.range n).map earlyBlocks) = s at hsize hnew
    have hnext : (s.next leNumeral (earlyBlocks n)).pending =
        s.pending.insert (valueId leNumeral (earlyBlock n))
          { round := .nil, validRound := .nil, proposer := 0, block := earlyBlock n } := by
      simp only [earlyBlocks, Held.next, processSynced, decode_earlyBlock]
      rfl
    rw [hnext]
    refine ⟨?_, fun k hk hlt => ?_⟩
    · rw [Std.ExtTreeMap.size_insert, hnew n (Nat.le_refl n) (by omega), hsize]
      rfl
    · have hne : ¬ compare (valueId leNumeral (earlyBlock n)) (valueId leNumeral (earlyBlock k)) =
          .eq := by
        rw [Std.compare_eq_iff_eq]
        intro heq
        have := valueId_earlyBlock (by omega) hlt heq
        omega
      rw [Std.ExtTreeMap.contains_insert, hnew k (by omega) hlt]
      simp [hne]

/-- **No bound is kept whatever arrives**: neither on the envelope numbers recorded of a
stream, nor on the values held. -/
theorem held_unbounded :
    (¬ ∃ S < 2 ^ 64, ∀ es : List (HeldEvent Nat), (∀ e ∈ es, e.IsWord) →
      ∀ (key : StreamKey) (a : Assembly Nat), (Held.after es).streams[key]? = some a →
        a.seenSequences.size ≤ S) ∧
    ¬ ∃ P < 2 ^ 64, ∀ es : List (HeldEvent Nat), (∀ e ∈ es, e.IsWord) →
      (Held.after es).pending.size ≤ P := by
  constructor
  · rintro ⟨S, hS, hall⟩
    obtain ⟨a, hget, hsize, -⟩ := seen_finParts S
    have hle := hall ((List.range (S + 1)).map finParts) (fun e he => ?_) (0, 0) a hget
    · omega
    · obtain ⟨n, hn, rfl⟩ := List.mem_map.1 he
      have := List.mem_range.1 hn
      show n < 2 ^ 64
      omega
  · rintro ⟨P, hP, hall⟩
    have hle := hall ((List.range (P + 1)).map earlyBlocks) fun e he => ?_
    · rw [(pending_earlyBlocks (P + 1) (by omega)).1] at hle
      omega
    · obtain ⟨n, -, rfl⟩ := List.mem_map.1 he
      trivial

end Edet.Node
