import Edet.Library.OrdMap
import Edet.Node.Block

/-!
# Proposal parts

A proposer streams its block: an `init` part that names the height and the round, chunks
of the block's encoding, a `fin` part with the hash of the whole, and an envelope that
closes the stream. `reassemble` folds one received message into the buffer and, at the
envelope, hands back the value: its bytes are the chunks in the order of their own
numbers, they must hash to what the `fin` part says, and the block they decode to is
screened before this node votes (`screen`).

The buffer is keyed by the sending peer and the stream, and `accept` bounds it: streams
in flight, streams of one peer, chunks and bytes of one stream, bytes of all. A value
that is answered valid is kept in `pending` under its id until a commit.

Values also arrive whole, from peers that serve decided blocks (`processSynced`).

The hash, the check of the signatures and the deterministic half of a block's validity
are parameters: `sha256`, and two fields of the screen's context.
-/

namespace Edet.Node

/-- An authenticated peer, and a stream it names: only their identity is looked at. -/
abbrev PeerId := Nat
abbrev StreamId := Nat
abbrev StreamKey := PeerId × StreamId

inductive Round
  | nil
  | some (r : Nat)
deriving DecidableEq

/-- A validator's address. -/
abbrev Address := MemberId

/-! ### Messages -/

inductive ProposalPart (D : Type)
  | init (height : Nat) (round polRound : Round) (proposer : Address)
  | chunk (seq : Nat) (bytes : Bytes)
  | fin (blockHash : D)
deriving DecidableEq

inductive StreamContent (D : Type)
  | data (part : ProposalPart D)
  /-- The envelope that closes the stream. -/
  | fin
deriving DecidableEq

structure StreamMessage (D : Type) where
  streamId : StreamId
  sequence : Nat
  content : StreamContent D
deriving DecidableEq

/-! ### Caps -/

def proposalChunkBytes : Nat := 64 * 1024
def maxStreamsPerPeer : Nat := 8
def maxInflightStreams : Nat := 64
def maxChunksPerStream : Nat := 64
def maxStreamBytes : Nat := maxChunksPerStream * proposalChunkBytes
def maxBufferedBytes : Nat := 16 * 1024 * 1024

/-! ### The buffer -/

/-- What is held of one stream in flight. -/
structure Assembly (D : Type) where
  height : Option Nat := none
  round : Option Round := none
  polRound : Option Round := none
  proposer : Option Address := none
  /-- Keyed by each chunk's own number, not by the envelope's. -/
  chunks : OrdMap Nat Bytes := ∅
  blockHash : Option D := none
  /-- The envelope numbers already folded in. -/
  seenSequences : OrdSet Nat := ∅
  /-- The bytes of `chunks`. -/
  bytes : Nat := 0
deriving DecidableEq

variable {D : Type}

/-- The streams in flight, by peer and stream. -/
abbrev PartStreams (D : Type) := OrdMap StreamKey (Assembly D)

namespace PartStreams

def bufferedBytes (streams : PartStreams D) : Nat := streams.total fun _ a => a.bytes

/-- The number of streams in flight from one peer. -/
def heldBy (streams : PartStreams D) (peer : PeerId) : Nat :=
  (streams.keys.filter fun key => key.1 = peer).length

/-- Is a new stream refused by a cap? -/
def full (streams : PartStreams D) (key : StreamKey) : Bool :=
  !streams.contains key &&
    (decide (maxInflightStreams ≤ streams.size) ||
      decide (maxStreamsPerPeer ≤ streams.heldBy key.1))

/-- What the buffer holds of a stream; nothing yet of a new one. -/
def entry (streams : PartStreams D) (key : StreamKey) : Assembly D :=
  streams.getD key {}

/-- The entry that a part belongs to, with its envelope number recorded; nothing where a
cap or a repeated number refuses it. -/
def accept (streams : PartStreams D) (key : StreamKey) (sequence : Nat) : Option (Assembly D) :=
  if streams.full key then none
  else
    let assembly := streams.entry key
    if assembly.seenSequences.contains sequence then none
    else some { assembly with seenSequences := assembly.seenSequences.insert sequence }

/-- Drop every stream that has not named a height above the one committed. -/
def evictDecided (streams : PartStreams D) (committed : Nat) : PartStreams D :=
  streams.filter fun _ a => a.height.any fun h => decide (committed < h)

end PartStreams

/-! ### Parts -/

/-- What folding a part makes of an accepted entry. -/
def Assembly.fold (a : Assembly D) : ProposalPart D → Assembly D
  | .init height round polRound proposer =>
    { a with height := some height, round := some round, polRound := some polRound,
             proposer := some proposer }
  | .chunk seq bytes =>
    if maxChunksPerStream ≤ a.chunks.size ∨ maxStreamBytes < a.bytes + bytes.length ∨
        a.chunks.contains seq then a
    else { a with bytes := a.bytes + bytes.length, chunks := a.chunks.insert seq bytes }
  | .fin blockHash => { a with blockHash := some blockHash }

/-- The bytes a part brings. -/
def ProposalPart.size : ProposalPart D → Nat
  | .chunk _ bytes => bytes.length
  | _ => 0

/-- Is there room in the buffer for a part? Only a chunk is asked. -/
def PartStreams.room (streams : PartStreams D) : ProposalPart D → Bool
  | .chunk _ bytes =>
    decide (bytes.length ≤ maxStreamBytes ∧
      streams.bufferedBytes + bytes.length ≤ maxBufferedBytes)
  | _ => true

/-- The entry that a part of a stream is folded into, where nothing refuses it. -/
def PartStreams.admitted (streams : PartStreams D) (key : StreamKey) (sequence : Nat)
    (part : ProposalPart D) : Option (Assembly D) :=
  if streams.room part then streams.accept key sequence else none

/-- The buffer after a part. -/
def PartStreams.put (streams : PartStreams D) (key : StreamKey) (sequence : Nat)
    (part : ProposalPart D) : PartStreams D :=
  (streams.admitted key sequence part).elim streams fun a => streams.insert key (a.fold part)

theorem PartStreams.accept_eq_some {streams : PartStreams D} {key : StreamKey} {sequence : Nat}
    {a : Assembly D} : streams.accept key sequence = some a ↔
      streams.full key = false ∧ (streams.entry key).seenSequences.contains sequence = false ∧
      { streams.entry key with
        seenSequences := (streams.entry key).seenSequences.insert sequence } = a := by
  unfold accept
  cases hfull : streams.full key with
  | true => simp only [if_true, reduceCtorEq, false_and]
  | false =>
    cases hseen : (streams.entry key).seenSequences.contains sequence with
    | true => simp only [hseen, if_true, reduceCtorEq, false_and, and_false, Bool.false_eq_true,
        if_false]
    | false => simp only [hseen, Bool.false_eq_true, if_false, true_and, Option.some.injEq]

/-! ### Screening -/

inductive Validity
  | valid
  | invalid
deriving DecidableEq

/-- What a screen consults. -/
structure ScreenCtx where
  chainId : String
  /-- The height this node has committed. -/
  at_ : Nat
  /-- The time of the parent block. -/
  parentTime : Nat
  nowSecs : Nat
  /-- The commitment to the state this node holds. -/
  expectedAppHash : Key
  /-- Are the transactions signed for this chain? -/
  verifyTxs : String → Block → Bool
  /-- The half of a block's validity that reads the state. -/
  deterministic : Block → Bool

def maxFutureSkewSecs : Nat := 600

def timeIsMonotonic (blockTime parentTime : Nat) : Bool := decide (parentTime ≤ blockTime)

def timeIsPlausible (blockTime nowSecs : Nat) : Bool :=
  decide (blockTime ≤ min (nowSecs + maxFutureSkewSecs) (2 ^ 64 - 1))

/-- Judge a block this node did not build. What concerns the parent state is asked only
of a block for the height after the one committed, and deferred for any other. -/
def screen (block : Block) (ctx : ScreenCtx) : Validity :=
  if ¬ (ctx.verifyTxs ctx.chainId block ∧ timeIsPlausible block.timeSecs ctx.nowSecs) then
    .invalid
  else if block.height ≠ ctx.at_ + 1 then .valid
  else if timeIsMonotonic block.timeSecs ctx.parentTime ∧ block.appHash = ctx.expectedAppHash ∧
      ctx.deterministic block then .valid
  else .invalid

/-! ### Values -/

/-- An undecided value that this node holds. -/
structure PendingValue where
  round : Round
  validRound : Round
  proposer : Address
  block : Block
deriving DecidableEq

/-- What the node answers consensus. -/
structure ProposedValue (D : Type) where
  height : Nat
  round : Round
  validRound : Round
  proposer : Address
  id : D
  block : Block
  validity : Validity
deriving DecidableEq

section Reassembly

variable [Ord D] [Std.TransOrd D] [DecidableEq D] (sha256 : Bytes → D)

/-- The values held, by id. -/
abbrev Pending (D : Type) [Ord D] := OrdMap D PendingValue

/-- The id of the value that carries a block. -/
def valueId (b : Block) : D := sha256 b.encode

/-- The bytes of a stream: its chunks in the order of their numbers. -/
def Assembly.payload (a : Assembly D) : Bytes := a.chunks.vals.flatten

/-- What closing a stream makes of its assembly: the value, where the bytes hash to the
`fin` part and decode. -/
def closeStream (a : Assembly D) (ctx : ScreenCtx) : Option (ProposedValue D) :=
  match a.height, a.round, a.polRound, a.proposer, a.blockHash with
  | some height, some round, some polRound, some proposer, some blockHash =>
    -- the bytes as they were received, not an encoding of what they decode to
    if sha256 a.payload ≠ blockHash then none
    else
      match Block.decode a.payload with
      | none => none
      | some block =>
        some { height, round, validRound := polRound, proposer, id := blockHash, block,
               validity := screen block ctx }
  | _, _, _, _, _ => none

/-- Keep a value that was answered valid. -/
def keep (pending : Pending D) (v : ProposedValue D) : Pending D :=
  if v.validity = .valid then
    pending.insert v.id
      { round := v.round, validRound := v.validRound, proposer := v.proposer, block := v.block }
  else pending

/-- Fold one received message into the buffer. -/
def reassemble (streams : PartStreams D) (pending : Pending D) (sender : PeerId)
    (msg : StreamMessage D) (ctx : ScreenCtx) :
    PartStreams D × Pending D × Option (ProposedValue D) :=
  let key := (sender, msg.streamId)
  match msg.content with
  | .data (.init height round polRound proposer) =>
    match streams.accept key msg.sequence with
    | none => (streams, pending, none)
    | some a =>
      (streams.insert key
        { a with height := some height, round := some round, polRound := some polRound,
                 proposer := some proposer }, pending, none)
  | .data (.chunk seq bytes) =>
    if maxStreamBytes < bytes.length ∨ maxBufferedBytes < streams.bufferedBytes + bytes.length then
      (streams, pending, none)
    else
      match streams.accept key msg.sequence with
      | none => (streams, pending, none)
      | some a =>
        -- the envelope number stays recorded, whatever becomes of the chunk
        if maxChunksPerStream ≤ a.chunks.size ∨ maxStreamBytes < a.bytes + bytes.length ∨
            a.chunks.contains seq then
          (streams.insert key a, pending, none)
        else
          (streams.insert key
            { a with bytes := a.bytes + bytes.length, chunks := a.chunks.insert seq bytes },
            pending, none)
  | .data (.fin blockHash) =>
    match streams.accept key msg.sequence with
    | none => (streams, pending, none)
    | some a => (streams.insert key { a with blockHash := some blockHash }, pending, none)
  | .fin =>
    match streams[key]? with
    | none => (streams, pending, none)
    | some a =>
      match closeStream sha256 a ctx with
      | none => (streams.erase key, pending, none)
      | some v => (streams.erase key, keep pending v, some v)

/-- A value that arrived whole. -/
def processSynced (pending : Pending D) (height : Nat) (round : Round) (proposer : Address)
    (valueBytes : Bytes) (ctx : ScreenCtx) : Pending D × Option (ProposedValue D) :=
  match Block.decode valueBytes with
  | none => (pending, none)
  | some block =>
    let v : ProposedValue D :=
      { height, round, validRound := .nil, proposer, id := valueId sha256 block, block,
        validity := screen block ctx }
    (keep pending v, some v)

/-! ### What one message does -/

/-- The value that closing a stream makes. -/
def PartStreams.close (sha256 : Bytes → D) (streams : PartStreams D) (key : StreamKey)
    (ctx : ScreenCtx) : Option (ProposedValue D) :=
  streams[key]?.bind fun a => closeStream sha256 a ctx

omit [Ord D] [Std.TransOrd D] in
/-- The value of a stream is named by its `fin` part, and its block is what the bytes
decode to. -/
theorem closeStream_eq_some {a : Assembly D} {ctx : ScreenCtx} {v : ProposedValue D}
    (h : closeStream sha256 a ctx = some v) :
    a.blockHash = some v.id ∧ Block.decode a.payload = some v.block ∧
      sha256 a.payload = v.id ∧ a.height = some v.height ∧ v.validity = screen v.block ctx := by
  unfold closeStream at h
  split at h
  case h_2 => cases h
  case h_1 height round polRound proposer blockHash hheight _ _ _ hhash =>
    split_ifs at h with hne
    cases hdecode : Block.decode a.payload with
    | none =>
      rw [hdecode] at h
      cases h
    | some block =>
      rw [hdecode] at h
      obtain rfl := Option.some.inj h
      exact ⟨hhash, rfl, not_not.1 hne, hheight, rfl⟩

/-- A part is put into the buffer, and nothing else happens. -/
theorem reassemble_data (streams : PartStreams D) (pending : Pending D) (sender : PeerId)
    (stream : StreamId) (sequence : Nat) (part : ProposalPart D) (ctx : ScreenCtx) :
    reassemble sha256 streams pending sender ⟨stream, sequence, .data part⟩ ctx =
      (streams.put (sender, stream) sequence part, pending, none) := by
  cases part with
  | init height round polRound proposer =>
    simp only [reassemble, PartStreams.put, PartStreams.admitted, PartStreams.room, if_true]
    cases streams.accept (sender, stream) sequence <;> rfl
  | fin blockHash =>
    simp only [reassemble, PartStreams.put, PartStreams.admitted, PartStreams.room, if_true]
    cases streams.accept (sender, stream) sequence <;> rfl
  | chunk seq bytes =>
    simp only [reassemble, PartStreams.put, PartStreams.admitted, PartStreams.room,
      decide_eq_true_eq]
    by_cases hroom : maxStreamBytes < bytes.length ∨
        maxBufferedBytes < streams.bufferedBytes + bytes.length
    · rw [if_pos hroom, if_neg (by omega)]
      rfl
    · rw [if_neg hroom, if_pos (by omega)]
      cases streams.accept (sender, stream) sequence with
      | none => rfl
      | some a =>
        simp only [Option.elim_some, Assembly.fold]
        split_ifs <;> rfl

/-- The envelope removes the stream and keeps the value, if it makes one. -/
theorem reassemble_fin (streams : PartStreams D) (pending : Pending D) (sender : PeerId)
    (stream : StreamId) (sequence : Nat) (ctx : ScreenCtx) :
    reassemble sha256 streams pending sender ⟨stream, sequence, .fin⟩ ctx =
      (streams.erase (sender, stream),
        (streams.close sha256 (sender, stream) ctx).elim pending (keep pending),
        streams.close sha256 (sender, stream) ctx) := by
  simp only [reassemble, PartStreams.close]
  cases hget : streams[((sender, stream) : StreamKey)]? with
  | none =>
    rw [OrdMap.erase_of_getElem?_none hget]
    rfl
  | some a =>
    simp only [Option.bind_some]
    cases closeStream sha256 a ctx <;> rfl

end Reassembly

end Edet.Node
