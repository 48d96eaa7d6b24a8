import Edet.Node.BlockJson

/-!
# What the engine sends and stores

The messages of the engine, over the types it brings itself (`Engine`: rounds, vote types, peers, each
with its serializer), and their mirrors. A type that holds a signature, or another without a
serializer, has a mirror (`Raw…`) with one, where the signature is bytes of any number. The
serializers are derived: every field is under its name, in the order of the declaration.

Each mirror is read back as it was written. Only what holds a block depends on it: a proposal and a
proposed value are read back exactly if the block's amounts are finite.
-/

namespace Edet.Wire

open Node Serde Fields Variant

/-! ### Parameters -/

/-- The engine's own types that messages hold, with their serializers. -/
structure Engine where
  Round : Type
  VoteType : Type
  /-- The id of a value, or nil. -/
  NilOrVal : Type
  RoundCertificateType : Type
  PeerId : Type
  round : Serde F64 Round
  voteType : Serde F64 VoteType
  nilOrVal : Serde F64 NilOrVal
  certType : Serde F64 RoundCertificateType
  peerId : Serde F64 PeerId

/-- The engine reads back what it writes. -/
structure Engine.Exact (E : Engine) : Prop where
  round : ∀ x, E.round.Carries x
  voteType : ∀ x, E.voteType.Carries x
  nilOrVal : ∀ x, E.nilOrVal.Carries x
  certType : ∀ x, E.certType.Carries x
  peerId : ∀ x, E.peerId.Carries x

/-! ### Messages -/

/-- A machine word of eight bytes. -/
def word64 : Serde F64 UInt64 := u64.via UInt64.toNat fun n => some (UInt64.ofNat n)
/-- A machine word of four bytes. -/
def word32 : Serde F64 UInt32 := u32.via UInt32.toNat fun n => some (UInt32.ofNat n)

abbrev EdetHeight := UInt64
abbrev EdetAddress := UInt64
abbrev EdetValueId := Key

/-- Sixty-four bytes. -/
abbrev EdetSignature := { b : Bytes // b.length = 64 }

/-- What is decided: a block, with the id it is decided by. -/
structure EdetValue where
  id : EdetValueId
  block : Block

/-- A message and the signature of its sender. -/
structure SignedMessage (M : Type) where
  message : M
  signature : EdetSignature

section Messages

variable (E : Engine)

/-- A piece of a proposal on its way. -/
inductive EdetProposalPart
  | init (height : EdetHeight) (round polRound : E.Round) (proposer : EdetAddress)
  | chunk (seq : UInt32) (bytes : Bytes)
  | fin (blockHash : Key)

/-- A vote at a height and round, for a value or for none. -/
structure EdetVote where
  voteType : E.VoteType
  height : EdetHeight
  round : E.Round
  valueId : E.NilOrVal
  address : EdetAddress
  /-- Left out of every encoding. -/
  extension : Option (SignedMessage Unit) := none

/-- A value proposed, with the round it was proved in before, if any. -/
structure EdetProposal where
  height : EdetHeight
  round : E.Round
  value : EdetValue
  polRound : E.Round
  address : EdetAddress

/-- What validators sign and send one another. -/
inductive SignedConsensusMsg
  | vote (vote : SignedMessage (EdetVote E))
  | proposal (proposal : SignedMessage (EdetProposal E))

inductive StreamContent
  | data (part : EdetProposalPart E)
  | fin

/-- One envelope of a stream. -/
structure StreamMessage where
  streamId : Bytes
  sequence : UInt64
  content : StreamContent E

/-- Where a peer is, for those that want blocks of it. -/
structure Status where
  peerId : E.PeerId
  tipHeight : EdetHeight
  historyMinHeight : EdetHeight

/-- A request for the values of a range of heights, both ends in it. -/
inductive Request
  | valueRequest (start stop : EdetHeight)

/-- One signature of a certificate. -/
structure CommitSignature where
  address : EdetAddress
  signature : EdetSignature

/-- The signatures that a value was decided with. -/
structure CommitCertificate where
  height : EdetHeight
  round : E.Round
  valueId : EdetValueId
  commitSignatures : List CommitSignature

/-- A block with its certificate, as it is served. -/
structure RawDecidedValue where
  valueBytes : Bytes
  certificate : CommitCertificate E

/-- The answer to a request for blocks. -/
inductive Response
  | valueResponse (startHeight : EdetHeight) (values : List (RawDecidedValue E))

structure PolkaSignature where
  address : EdetAddress
  signature : EdetSignature

/-- The prevotes that a value was locked by. -/
structure PolkaCertificate where
  height : EdetHeight
  round : E.Round
  valueId : EdetValueId
  polkaSignatures : List PolkaSignature

structure RoundSignature where
  voteType : E.VoteType
  valueId : E.NilOrVal
  address : EdetAddress
  signature : EdetSignature

/-- The votes that a round was left by. -/
structure RoundCertificate where
  height : EdetHeight
  round : E.Round
  certType : E.RoundCertificateType
  roundSignatures : List (RoundSignature E)

/-- What helps a peer that has fallen behind. -/
inductive LivenessMsg
  | vote (vote : SignedMessage (EdetVote E))
  | polkaCertificate (certificate : PolkaCertificate E)
  | skipRoundCertificate (certificate : RoundCertificate E)

inductive Validity
  | valid
  | invalid

/-- A value as the engine holds it, screened. -/
structure ProposedValue where
  height : EdetHeight
  round : E.Round
  validRound : E.Round
  proposer : EdetAddress
  value : EdetValue
  validity : Validity

end Messages

/-! ### Mirrors -/

/-- A message with the bytes of its signature. -/
structure RawSignedMessage (M : Type) where
  message : M
  signature : Bytes

section Mirrors

variable (E : Engine)

inductive RawSignedConsensusMsg
  | vote (vote : RawSignedMessage (EdetVote E))
  | proposal (proposal : RawSignedMessage (EdetProposal E))

inductive RawStreamContent
  | data (part : EdetProposalPart E)
  | fin

/-- An envelope whose stream is named by bytes. -/
structure RawStreamMessage where
  streamId : Bytes
  sequence : UInt64
  content : RawStreamContent E

/-- The status of a peer named by bytes. -/
structure RawStatus where
  peerId : E.PeerId
  tipHeight : EdetHeight
  historyMinHeight : EdetHeight

/-- Which heights are asked for. -/
structure RawValueRequest where
  start : EdetHeight
  stop : EdetHeight

inductive RawRequest
  | valueRequest (request : RawValueRequest)

structure RawCommitSignature where
  address : EdetAddress
  signature : Bytes

/-- A certificate, its signatures as bytes. -/
structure RawCommitCertificate where
  height : EdetHeight
  round : E.Round
  valueId : EdetValueId
  commitSignatures : List RawCommitSignature

/-- A block and its certificate, both as bytes. -/
structure RawDecidedValueRepr where
  valueBytes : Bytes
  certificate : RawCommitCertificate E

structure RawValueResponse where
  startHeight : EdetHeight
  values : List (RawDecidedValueRepr E)

inductive RawResponse
  | valueResponse (response : RawValueResponse E)

structure RawPolkaSignature where
  address : EdetAddress
  signature : Bytes

/-- The certificate of a lock, its signatures as bytes. -/
structure RawPolkaCertificate where
  height : EdetHeight
  round : E.Round
  valueId : EdetValueId
  polkaSignatures : List RawPolkaSignature

structure RawRoundSignature where
  voteType : E.VoteType
  valueId : E.NilOrVal
  address : EdetAddress
  signature : Bytes

/-- The certificate of a round, its signatures as bytes. -/
structure RawRoundCertificate where
  height : EdetHeight
  round : E.Round
  certType : E.RoundCertificateType
  roundSignatures : List (RawRoundSignature E)

inductive RawLivenessMsg
  | vote (vote : RawSignedMessage (EdetVote E))
  | polkaCertificate (certificate : RawPolkaCertificate E)
  | skipRoundCertificate (certificate : RawRoundCertificate E)

inductive RawValidity
  | valid
  | invalid

/-- A value with its validity on the wire. -/
structure RawProposedValue where
  height : EdetHeight
  round : E.Round
  validRound : E.Round
  proposer : EdetAddress
  value : EdetValue
  validity : RawValidity

end Mirrors

/-! ### Serializers -/

def edetValue : Serde F64 EdetValue :=
  .via (.struct <| field "id" key <| field "block" block .nil) (fun v => (v.id, v.block, ()))
    fun (id, block, _) => some { id, block }

def rawSignedMessage {M : Type} (message : Serde F64 M) : Serde F64 (RawSignedMessage M) :=
  .via (.struct <| field "message" message <| field "signature" bytes .nil)
    (fun m => (m.message, m.signature, ())) fun (message, signature, _) => some { message, signature }

def rawValueRequest : Serde F64 RawValueRequest :=
  .via (.struct <| field "start" word64 <| field "end" word64 .nil) (fun r => (r.start, r.stop, ()))
    fun (start, stop, _) => some { start, stop }

def rawRequest : Serde F64 RawRequest := .enum [
  .of "ValueRequest" rawValueRequest (fun | .valueRequest request => some request) .valueRequest]

def rawCommitSignature : Serde F64 RawCommitSignature :=
  .via (.struct <| field "address" word64 <| field "signature" bytes .nil)
    (fun s => (s.address, s.signature, ())) fun (address, signature, _) => some { address, signature }

def rawPolkaSignature : Serde F64 RawPolkaSignature :=
  .via (.struct <| field "address" word64 <| field "signature" bytes .nil)
    (fun s => (s.address, s.signature, ())) fun (address, signature, _) => some { address, signature }

def rawValidity : Serde F64 RawValidity := .enum [
  .unit "Valid" (fun | .valid => true | _ => false) .valid,
  .unit "Invalid" (fun | .invalid => true | _ => false) .invalid]

section Serializers

variable (E : Engine)

def edetProposalPart : Serde F64 (EdetProposalPart E) := .enum [
  .of "Init" (.struct <| field "height" word64 <| field "round" E.round <|
      field "pol_round" E.round <| field "proposer" word64 .nil)
    (fun
      | .init height round polRound proposer => some (height, round, polRound, proposer, ())
      | _ => none)
    fun (height, round, polRound, proposer, _) => .init height round polRound proposer,
  .of "Chunk" (.struct <| field "seq" word32 <| field "bytes" bytes .nil)
    (fun | .chunk seq bytes => some (seq, bytes, ()) | _ => none)
    fun (seq, bytes, _) => .chunk seq bytes,
  .of "Fin" (.struct <| field "block_hash" key .nil)
    (fun | .fin blockHash => some (blockHash, ()) | _ => none) fun (blockHash, _) => .fin blockHash]

/-- The extension is skipped. -/
def edetVote : Serde F64 (EdetVote E) :=
  .via (.struct <| field "vote_type" E.voteType <| field "height" word64 <| field "round" E.round <|
      field "value_id" E.nilOrVal <| field "address" word64 .nil)
    (fun v => (v.voteType, v.height, v.round, v.valueId, v.address, ()))
    fun (voteType, height, round, valueId, address, _) =>
      some { voteType, height, round, valueId, address }

def edetProposal : Serde F64 (EdetProposal E) :=
  .via (.struct <| field "height" word64 <| field "round" E.round <| field "value" edetValue <|
      field "pol_round" E.round <| field "address" word64 .nil)
    (fun p => (p.height, p.round, p.value, p.polRound, p.address, ()))
    fun (height, round, value, polRound, address, _) =>
      some { height, round, value, polRound, address }

def rawSignedConsensusMsg : Serde F64 (RawSignedConsensusMsg E) := .enum [
  .of "Vote" (rawSignedMessage (edetVote E)) (fun | .vote v => some v | _ => none) .vote,
  .of "Proposal" (rawSignedMessage (edetProposal E)) (fun | .proposal p => some p | _ => none)
    .proposal]

def rawStreamContent : Serde F64 (RawStreamContent E) := .enum [
  .of "Data" (edetProposalPart E) (fun | .data part => some part | _ => none) .data,
  .unit "Fin" (fun | .fin => true | _ => false) .fin]

def rawStreamMessage : Serde F64 (RawStreamMessage E) :=
  .via (.struct <| field "stream_id" bytes <| field "sequence" word64 <|
      field "content" (rawStreamContent E) .nil)
    (fun m => (m.streamId, m.sequence, m.content, ()))
    fun (streamId, sequence, content, _) => some { streamId, sequence, content }

def rawStatus : Serde F64 (RawStatus E) :=
  .via (.struct <| field "peer_id" E.peerId <| field "tip_height" word64 <|
      field "history_min_height" word64 .nil)
    (fun s => (s.peerId, s.tipHeight, s.historyMinHeight, ()))
    fun (peerId, tipHeight, historyMinHeight, _) => some { peerId, tipHeight, historyMinHeight }

def rawCommitCertificate : Serde F64 (RawCommitCertificate E) :=
  .via (.struct <| field "height" word64 <| field "round" E.round <| field "value_id" key <|
      field "commit_signatures" rawCommitSignature.list .nil)
    (fun c => (c.height, c.round, c.valueId, c.commitSignatures, ()))
    fun (height, round, valueId, commitSignatures, _) =>
      some { height, round, valueId, commitSignatures }

def rawDecidedValueRepr : Serde F64 (RawDecidedValueRepr E) :=
  .via (.struct <| field "value_bytes" bytes <| field "certificate" (rawCommitCertificate E) .nil)
    (fun v => (v.valueBytes, v.certificate, ()))
    fun (valueBytes, certificate, _) => some { valueBytes, certificate }

def rawValueResponse : Serde F64 (RawValueResponse E) :=
  .via (.struct <| field "start_height" word64 <| field "values" (rawDecidedValueRepr E).list .nil)
    (fun r => (r.startHeight, r.values, ()))
    fun (startHeight, values, _) => some { startHeight, values }

def rawResponse : Serde F64 (RawResponse E) := .enum [
  .of "ValueResponse" (rawValueResponse E) (fun | .valueResponse response => some response)
    .valueResponse]

def rawPolkaCertificate : Serde F64 (RawPolkaCertificate E) :=
  .via (.struct <| field "height" word64 <| field "round" E.round <| field "value_id" key <|
      field "polka_signatures" rawPolkaSignature.list .nil)
    (fun c => (c.height, c.round, c.valueId, c.polkaSignatures, ()))
    fun (height, round, valueId, polkaSignatures, _) =>
      some { height, round, valueId, polkaSignatures }

def rawRoundSignature : Serde F64 (RawRoundSignature E) :=
  .via (.struct <| field "vote_type" E.voteType <| field "value_id" E.nilOrVal <|
      field "address" word64 <| field "signature" bytes .nil)
    (fun s => (s.voteType, s.valueId, s.address, s.signature, ()))
    fun (voteType, valueId, address, signature, _) => some { voteType, valueId, address, signature }

def rawRoundCertificate : Serde F64 (RawRoundCertificate E) :=
  .via (.struct <| field "height" word64 <| field "round" E.round <| field "cert_type" E.certType <|
      field "round_signatures" (rawRoundSignature E).list .nil)
    (fun c => (c.height, c.round, c.certType, c.roundSignatures, ()))
    fun (height, round, certType, roundSignatures, _) =>
      some { height, round, certType, roundSignatures }

def rawLivenessMsg : Serde F64 (RawLivenessMsg E) := .enum [
  .of "Vote" (rawSignedMessage (edetVote E)) (fun | .vote v => some v | _ => none) .vote,
  .of "PolkaCertificate" (rawPolkaCertificate E)
    (fun | .polkaCertificate c => some c | _ => none) .polkaCertificate,
  .of "SkipRoundCertificate" (rawRoundCertificate E)
    (fun | .skipRoundCertificate c => some c | _ => none) .skipRoundCertificate]

def rawProposedValue : Serde F64 (RawProposedValue E) :=
  .via (.struct <| field "height" word64 <| field "round" E.round <| field "valid_round" E.round <|
      field "proposer" word64 <| field "value" edetValue <| field "validity" rawValidity .nil)
    (fun v => (v.height, v.round, v.validRound, v.proposer, v.value, v.validity, ()))
    fun (height, round, validRound, proposer, value, validity, _) =>
      some { height, round, validRound, proposer, value, validity }

end Serializers

/-! ### What comes back -/

/-- A machine word is read back as it was written. -/
theorem word64_carries (n : UInt64) : word64.Carries n :=
  via_carriesIf (u64_carries n.toNat_lt) (by rw [UInt64.ofNat_toNat]) rfl

theorem word32_carries (n : UInt32) : word32.Carries n :=
  via_carriesIf (u32_carries n.toNat_lt) (by rw [UInt32.ofNat_toNat]) rfl

/-- A value survives the wire where the amounts of its block are finite. -/
theorem edetValue_carriesIf {v : EdetValue} (h : v.block.Fits) :
    edetValue.CarriesIf (finiteBlock v.block) v := by
  refine via_carriesIf (struct_carriesIf
    (.cons (key_carries v.id) <| .cons (block_carriesIf h) nil_carries) rfl) rfl ?_
  exact Bool.and_true _

/-- A signed message survives where what is signed does. -/
theorem rawSignedMessage_carriesIf {M : Type} {message : Serde F64 M} {b : Bool}
    {m : RawSignedMessage M} (h : message.CarriesIf b m.message) :
    (rawSignedMessage message).CarriesIf b m := by
  refine via_carriesIf (struct_carriesIf
    (.cons h <| .cons (bytes_carries m.signature) nil_carries) rfl) rfl ?_
  exact Bool.and_true _

/-- A request survives. -/
theorem rawRequest_carries (r : RawRequest) : rawRequest.Carries r := by
  cases r with
  | valueRequest r =>
    refine enum_carriesIf 0 rfl rfl rfl rfl (b := true) ?_ rfl
    exact via_carriesIf (struct_carriesIf
      (.cons (word64_carries r.start) <| .cons (word64_carries r.stop) nil_carries) rfl) rfl rfl

theorem rawCommitSignature_carries (s : RawCommitSignature) : rawCommitSignature.Carries s :=
  via_carriesIf (struct_carriesIf
    (.cons (word64_carries s.address) <| .cons (bytes_carries s.signature) nil_carries)
    rfl) rfl rfl

theorem rawPolkaSignature_carries (s : RawPolkaSignature) : rawPolkaSignature.Carries s :=
  via_carriesIf (struct_carriesIf
    (.cons (word64_carries s.address) <| .cons (bytes_carries s.signature) nil_carries)
    rfl) rfl rfl

theorem rawValidity_carries (v : RawValidity) : rawValidity.Carries v := by cases v <;> rfl

section Exact

variable {E : Engine} (hE : E.Exact)

include hE

/-- Every piece of a proposal survives: a chunk is bytes. -/
theorem edetProposalPart_carries (part : EdetProposalPart E) : (edetProposalPart E).Carries part := by
  cases part with
  | init height round polRound proposer =>
    exact enum_carriesIf 0 rfl rfl rfl rfl (struct_carriesIf
      (.cons (word64_carries height) <| .cons (hE.round round) <| .cons (hE.round polRound) <|
        .cons (word64_carries proposer) nil_carries) rfl) rfl
  | chunk seq bytes =>
    exact enum_carriesIf 1 rfl rfl rfl rfl (struct_carriesIf
      (.cons (word32_carries seq) <| .cons (bytes_carries bytes) nil_carries) rfl) rfl
  | fin blockHash =>
    exact enum_carriesIf 2 rfl rfl rfl rfl (struct_carriesIf
      (.cons (key_carries blockHash) nil_carries) rfl) rfl

/-- A vote without an extension. -/
theorem edetVote_carries {v : EdetVote E} (h : v.extension = none) : (edetVote E).Carries v := by
  refine via_carriesIf (struct_carriesIf
    (.cons (hE.voteType v.voteType) <| .cons (word64_carries v.height) <| .cons (hE.round v.round) <|
      .cons (hE.nilOrVal v.valueId) <| .cons (word64_carries v.address) nil_carries) rfl) ?_ rfl
  cases v
  subst h
  rfl

/-- A proposal survives where its value does. -/
theorem edetProposal_carriesIf {p : EdetProposal E} (h : p.value.block.Fits) :
    (edetProposal E).CarriesIf (finiteBlock p.value.block) p := by
  refine via_carriesIf (struct_carriesIf
    (.cons (word64_carries p.height) <| .cons (hE.round p.round) <| .cons (edetValue_carriesIf h) <|
      .cons (hE.round p.polRound) <| .cons (word64_carries p.address) nil_carries) rfl) rfl ?_
  exact Bool.and_true _

/-- Every envelope survives. -/
theorem rawStreamMessage_carries (m : RawStreamMessage E) : (rawStreamMessage E).Carries m := by
  have hcontent : (rawStreamContent E).Carries m.content := by
    cases m.content with
    | data part => exact enum_carriesIf 0 rfl rfl rfl rfl (edetProposalPart_carries hE part) rfl
    | fin => rfl
  exact via_carriesIf (struct_carriesIf
    (.cons (bytes_carries m.streamId) <| .cons (word64_carries m.sequence) <|
      .cons hcontent nil_carries) rfl) rfl rfl

theorem rawStatus_carries (s : RawStatus E) : (rawStatus E).Carries s :=
  via_carriesIf (struct_carriesIf
    (.cons (hE.peerId s.peerId) <| .cons (word64_carries s.tipHeight) <|
      .cons (word64_carries s.historyMinHeight) nil_carries) rfl) rfl rfl

/-- Every certificate survives. -/
theorem rawCommitCertificate_carries (c : RawCommitCertificate E) :
    (rawCommitCertificate E).Carries c :=
  via_carriesIf (struct_carriesIf
    (.cons (word64_carries c.height) <| .cons (hE.round c.round) <| .cons (key_carries c.valueId) <|
      .cons (list_carries fun s _ => rawCommitSignature_carries s) nil_carries) rfl) rfl rfl

/-- Every answer survives: its blocks are bytes. -/
theorem rawResponse_carries (r : RawResponse E) : (rawResponse E).Carries r := by
  cases r with
  | valueResponse r =>
    have hvalue : ∀ v : RawDecidedValueRepr E, (rawDecidedValueRepr E).Carries v := fun v =>
      via_carriesIf (struct_carriesIf
        (.cons (bytes_carries v.valueBytes) <|
          .cons (rawCommitCertificate_carries hE v.certificate) nil_carries) rfl) rfl rfl
    refine enum_carriesIf 0 rfl rfl rfl rfl (b := true) ?_ rfl
    exact via_carriesIf (struct_carriesIf
      (.cons (word64_carries r.startHeight) <|
        .cons (list_carries fun v _ => hvalue v) nil_carries) rfl) rfl rfl

theorem rawPolkaCertificate_carries (c : RawPolkaCertificate E) : (rawPolkaCertificate E).Carries c :=
  via_carriesIf (struct_carriesIf
    (.cons (word64_carries c.height) <| .cons (hE.round c.round) <| .cons (key_carries c.valueId) <|
      .cons (list_carries fun s _ => rawPolkaSignature_carries s) nil_carries) rfl) rfl rfl

/-- Every certificate of a round survives. -/
theorem rawRoundCertificate_carries (c : RawRoundCertificate E) :
    (rawRoundCertificate E).Carries c := by
  have hsignature : ∀ s : RawRoundSignature E, (rawRoundSignature E).Carries s := fun s =>
    via_carriesIf (struct_carriesIf
      (.cons (hE.voteType s.voteType) <| .cons (hE.nilOrVal s.valueId) <|
        .cons (word64_carries s.address) <| .cons (bytes_carries s.signature) nil_carries)
      rfl) rfl rfl
  exact via_carriesIf (struct_carriesIf
    (.cons (word64_carries c.height) <| .cons (hE.round c.round) <| .cons (hE.certType c.certType) <|
      .cons (list_carries fun s _ => hsignature s) nil_carries) rfl) rfl rfl

/-- A screened value survives where its block does. -/
theorem rawProposedValue_carriesIf {v : RawProposedValue E} (h : v.value.block.Fits) :
    (rawProposedValue E).CarriesIf (finiteBlock v.value.block) v := by
  refine via_carriesIf (struct_carriesIf
    (.cons (word64_carries v.height) <| .cons (hE.round v.round) <| .cons (hE.round v.validRound) <|
      .cons (word64_carries v.proposer) <| .cons (edetValue_carriesIf h) <|
      .cons (rawValidity_carries v.validity) nil_carries) rfl) rfl ?_
  exact Bool.and_true _

end Exact

end Edet.Wire
