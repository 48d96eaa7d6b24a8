import Edet.Node.EngineMessages

/-!
# The engine's codec

The engine sends, stores and reads back eight types of messages, each as the JSON text of its mirror
(`Codec`): `Codec.encode` writes the mirror's document, and `Codec.decode` reads one and converts it,
where a signature has to be sixty-four bytes (`decodeSignature`). The text of the documents is a
parameter (`JsonText`).

`codec_roundtrip` says of each of the eight types which messages come back from their encoding: all
of them, but for those with a block. A proposal or a proposed value comes back exactly if the amounts
in its block are finite, and whoever proposes a block chooses its bytes
(`proposedValue_not_read_back`). A document whose signatures are not all sixty-four bytes is refused,
whatever else it says.
-/

namespace Edet.Wire

open Node Serde

/-- The text of documents. -/
structure JsonText where
  Text : Type
  toVec : Document → Text
  fromSlice : Text → Option Document

/-- Documents of a kind are read back as they are. -/
def JsonText.Exact (T : JsonText) (written : Document → Prop) : Prop :=
  ∀ j, written j → T.fromSlice (T.toVec j) = some j

/-! ### Signatures -/

inductive EdetCodecError
  | json
  | invalidSignature (message : String)

def encodeSignature (s : EdetSignature) : Bytes := s.val

def decodeSignature (b : Bytes) : Except EdetCodecError EdetSignature :=
  if h : b.length = 64 then .ok ⟨b, h⟩
  else .error (.invalidSignature ("expected 64 bytes, got " ++ toString b.length))

/-! ### Conversions -/

def toRawSigned {M : Type} (signed : SignedMessage M) : RawSignedMessage M where
  message := signed.message
  signature := encodeSignature signed.signature

def fromRawSigned {M : Type} (raw : RawSignedMessage M) : Except EdetCodecError (SignedMessage M) := do
  let signature ← decodeSignature raw.signature
  pure { message := raw.message, signature }

section Conversions

variable {E : Engine}

def commitCertificateToRaw (c : CommitCertificate E) : RawCommitCertificate E where
  height := c.height
  round := c.round
  valueId := c.valueId
  commitSignatures := c.commitSignatures.map fun s =>
    { address := s.address, signature := encodeSignature s.signature }

def commitCertificateFromRaw (r : RawCommitCertificate E) :
    Except EdetCodecError (CommitCertificate E) := do
  let commitSignatures ← r.commitSignatures.mapM fun s => do
    let signature ← decodeSignature s.signature
    pure { address := s.address, signature : CommitSignature }
  pure { height := r.height, round := r.round, valueId := r.valueId, commitSignatures }

def SignedConsensusMsg.toRaw : SignedConsensusMsg E → RawSignedConsensusMsg E
  | .vote v => .vote (toRawSigned v)
  | .proposal p => .proposal (toRawSigned p)

def SignedConsensusMsg.tryFrom :
    RawSignedConsensusMsg E → Except EdetCodecError (SignedConsensusMsg E)
  | .vote v => .vote <$> fromRawSigned v
  | .proposal p => .proposal <$> fromRawSigned p

def StreamMessage.toRaw (m : StreamMessage E) : RawStreamMessage E where
  streamId := m.streamId
  sequence := m.sequence
  content :=
    match m.content with
    | .data part => .data part
    | .fin => .fin

def StreamMessage.ofRaw (raw : RawStreamMessage E) : StreamMessage E where
  streamId := raw.streamId
  sequence := raw.sequence
  content :=
    match raw.content with
    | .data part => .data part
    | .fin => .fin

def Status.toRaw (s : Status E) : RawStatus E where
  peerId := s.peerId
  tipHeight := s.tipHeight
  historyMinHeight := s.historyMinHeight

def Status.ofRaw (raw : RawStatus E) : Status E where
  peerId := raw.peerId
  tipHeight := raw.tipHeight
  historyMinHeight := raw.historyMinHeight

def Request.toRaw : Request → RawRequest
  | .valueRequest start stop => .valueRequest { start, stop }

def Request.ofRaw : RawRequest → Request
  | .valueRequest r => .valueRequest r.start r.stop

def Response.toRaw : Response E → RawResponse E
  | .valueResponse startHeight values => .valueResponse
    { startHeight
      values := values.map fun v =>
        { valueBytes := v.valueBytes, certificate := commitCertificateToRaw v.certificate } }

def Response.tryFrom : RawResponse E → Except EdetCodecError (Response E)
  | .valueResponse r => do
    let values ← r.values.mapM fun v => do
      let certificate ← commitCertificateFromRaw v.certificate
      pure { valueBytes := v.valueBytes, certificate : RawDecidedValue E }
    pure (.valueResponse r.startHeight values)

def LivenessMsg.toRaw : LivenessMsg E → RawLivenessMsg E
  | .vote v => .vote (toRawSigned v)
  | .polkaCertificate p => .polkaCertificate
    { height := p.height
      round := p.round
      valueId := p.valueId
      polkaSignatures := p.polkaSignatures.map fun s =>
        { address := s.address, signature := encodeSignature s.signature } }
  | .skipRoundCertificate c => .skipRoundCertificate
    { height := c.height
      round := c.round
      certType := c.certType
      roundSignatures := c.roundSignatures.map fun s =>
        { voteType := s.voteType, valueId := s.valueId, address := s.address
          signature := encodeSignature s.signature } }

def LivenessMsg.tryFrom : RawLivenessMsg E → Except EdetCodecError (LivenessMsg E)
  | .vote v => .vote <$> fromRawSigned v
  | .polkaCertificate p => do
    let polkaSignatures ← p.polkaSignatures.mapM fun s => do
      let signature ← decodeSignature s.signature
      pure { address := s.address, signature : PolkaSignature }
    pure (.polkaCertificate
      { height := p.height, round := p.round, valueId := p.valueId, polkaSignatures })
  | .skipRoundCertificate c => do
    let roundSignatures ← c.roundSignatures.mapM fun s => do
      let signature ← decodeSignature s.signature
      pure {
        voteType := s.voteType, valueId := s.valueId, address := s.address
        signature : RoundSignature E }
    pure (.skipRoundCertificate
      { height := c.height, round := c.round, certType := c.certType, roundSignatures })

def Validity.toRaw : Validity → RawValidity
  | .valid => .valid
  | .invalid => .invalid

def Validity.ofRaw : RawValidity → Validity
  | .valid => .valid
  | .invalid => .invalid

def ProposedValue.toRaw (v : ProposedValue E) : RawProposedValue E where
  height := v.height
  round := v.round
  validRound := v.validRound
  proposer := v.proposer
  value := v.value
  validity := v.validity.toRaw

def ProposedValue.ofRaw (raw : RawProposedValue E) : ProposedValue E where
  height := raw.height
  round := raw.round
  validRound := raw.validRound
  proposer := raw.proposer
  value := raw.value
  validity := .ofRaw raw.validity

end Conversions

/-! ### The codec -/

/-- How messages of a type travel: as documents of a mirror, with the conversions to it and back. -/
structure Codec (M R : Type) where
  serde : Serde F64 R
  toRaw : M → R
  tryFrom : R → Except EdetCodecError M

namespace Codec

variable {M R : Type} (T : JsonText) (c : Codec M R)

/-- The document of a message. -/
def document (m : M) : Document := c.serde.ser (c.toRaw m)

def encode (m : M) : T.Text := T.toVec (c.document m)

def decode (bytes : T.Text) : Except EdetCodecError M :=
  match T.fromSlice bytes >>= c.serde.de with
  | some raw => c.tryFrom raw
  | none => .error .json

end Codec

namespace EdetCodec

variable (E : Engine)

def signedConsensusMsg : Codec (SignedConsensusMsg E) (RawSignedConsensusMsg E) :=
  ⟨rawSignedConsensusMsg E, SignedConsensusMsg.toRaw, SignedConsensusMsg.tryFrom⟩

def proposalPart : Codec (EdetProposalPart E) (EdetProposalPart E) := ⟨edetProposalPart E, id, .ok⟩

def streamMessage : Codec (StreamMessage E) (RawStreamMessage E) :=
  ⟨rawStreamMessage E, StreamMessage.toRaw, fun raw => .ok (.ofRaw raw)⟩

def status : Codec (Status E) (RawStatus E) := ⟨rawStatus E, Status.toRaw, fun raw => .ok (.ofRaw raw)⟩

def request : Codec Request RawRequest := ⟨rawRequest, Request.toRaw, fun raw => .ok (.ofRaw raw)⟩

def response : Codec (Response E) (RawResponse E) := ⟨rawResponse E, Response.toRaw, Response.tryFrom⟩

def livenessMsg : Codec (LivenessMsg E) (RawLivenessMsg E) :=
  ⟨rawLivenessMsg E, LivenessMsg.toRaw, LivenessMsg.tryFrom⟩

def proposedValue : Codec (ProposedValue E) (RawProposedValue E) :=
  ⟨rawProposedValue E, ProposedValue.toRaw, fun raw => .ok (.ofRaw raw)⟩

/-- The documents that the codec writes. -/
inductive Written : Document → Prop
  | signedConsensusMsg (m : SignedConsensusMsg E) : Written ((signedConsensusMsg E).document m)
  | proposalPart (m : EdetProposalPart E) : Written ((proposalPart E).document m)
  | streamMessage (m : StreamMessage E) : Written ((streamMessage E).document m)
  | status (m : Status E) : Written ((status E).document m)
  | request (m : Request) : Written (request.document m)
  | response (m : Response E) : Written ((response E).document m)
  | livenessMsg (m : LivenessMsg E) : Written ((livenessMsg E).document m)
  | proposedValue (m : ProposedValue E) : Written ((proposedValue E).document m)

end EdetCodec

/-! ### A signature that is not one -/

/-- Refused for a signature. -/
def Refused {α : Type} (r : Except EdetCodecError α) : Prop :=
  ∃ message, r = .error (.invalidSignature message)

/-- If this fails, it is for a signature. -/
def Blames {α : Type} (r : Except EdetCodecError α) : Prop := ∀ e, r = .error e → Refused r

section Refusals

variable {α β : Type}

theorem decodeSignature_encode (s : EdetSignature) : decodeSignature (encodeSignature s) = .ok s :=
  dif_pos s.property

theorem decodeSignature_refused {b : Bytes} (h : b.length ≠ 64) : Refused (decodeSignature b) :=
  ⟨_, dif_neg h⟩

theorem blames_decodeSignature (b : Bytes) : Blames (decodeSignature b) := by
  intro e he
  by_cases h : b.length = 64
  · rw [decodeSignature, dif_pos h] at he
    cases he
  · exact decodeSignature_refused h

/-- A refusal is passed on. -/
theorem Refused.bind {r : Except EdetCodecError α} (h : Refused r) (f : α → Except EdetCodecError β) :
    Refused (r >>= f) := by
  obtain ⟨message, rfl⟩ := h
  exact ⟨message, rfl⟩

theorem Refused.map {r : Except EdetCodecError α} (h : Refused r) (f : α → β) : Refused (f <$> r) := by
  obtain ⟨message, rfl⟩ := h
  exact ⟨message, rfl⟩

theorem Blames.bind_pure {r : Except EdetCodecError α} (h : Blames r) (f : α → β) :
    Blames (do let a ← r; pure (f a)) := by
  cases r with
  | ok a => exact fun e he => by cases he
  | error e => exact fun _ _ => (h e rfl).bind _

theorem mapM_refused {f : α → Except EdetCodecError β} {l : List α} (hblames : ∀ x ∈ l, Blames (f x))
    (h : ∃ x ∈ l, Refused (f x)) : Refused (l.mapM f) := by
  induction l with
  | nil =>
    obtain ⟨x, hx, -⟩ := h
    cases hx
  | cons a l ih =>
    rw [List.mapM_cons]
    cases ha : f a with
    | error e => exact (ha ▸ hblames a (List.mem_cons_self ..) e ha).bind _
    | ok b =>
      -- the first one is read, so one of the others is refused
      have hrest : ∃ x ∈ l, Refused (f x) := by
        obtain ⟨x, hx, hrefused⟩ := h
        rcases List.mem_cons.1 hx with rfl | hx
        · obtain ⟨message, hmessage⟩ := hrefused
          rw [ha] at hmessage
          cases hmessage
        · exact ⟨x, hx, hrefused⟩
      exact (ih (fun x hx => hblames x (List.mem_cons_of_mem _ hx)) hrest).bind _

theorem blames_mapM {f : α → Except EdetCodecError β} {l : List α} (h : ∀ x ∈ l, Blames (f x)) :
    Blames (l.mapM f) := by
  induction l with
  | nil => exact fun e he => by cases he
  | cons a l ih =>
    rw [List.mapM_cons]
    cases ha : f a with
    | error e => exact fun _ _ => (ha ▸ h a (List.mem_cons_self ..) e ha).bind _
    | ok b => exact (ih fun x hx => h x (List.mem_cons_of_mem _ hx)).bind_pure _

/-- What was converted to a mirror is converted back. -/
theorem mapM_map_ok {f : β → Except EdetCodecError α} {g : α → β} {l : List α}
    (h : ∀ x ∈ l, f (g x) = .ok x) : (l.map g).mapM f = .ok l := by
  induction l with
  | nil => rfl
  | cons a l ih =>
    rw [List.map_cons, List.mapM_cons, h a (List.mem_cons_self ..),
      ih fun x hx => h x (List.mem_cons_of_mem _ hx)]
    rfl

end Refusals

/-! ### Mirrors and back -/

section Mirrored

variable {E : Engine}

theorem fromRawSigned_toRaw {M : Type} (m : SignedMessage M) :
    fromRawSigned (toRawSigned m) = .ok m := by
  show (decodeSignature (encodeSignature m.signature) >>= _) = _
  rw [decodeSignature_encode]
  rfl

theorem SignedConsensusMsg.tryFrom_toRaw (m : SignedConsensusMsg E) : tryFrom m.toRaw = .ok m := by
  cases m with
  | vote v => exact congrArg (SignedConsensusMsg.vote <$> ·) (fromRawSigned_toRaw v)
  | proposal p => exact congrArg (SignedConsensusMsg.proposal <$> ·) (fromRawSigned_toRaw p)

theorem StreamMessage.ofRaw_toRaw (m : StreamMessage E) : ofRaw m.toRaw = m := by
  obtain ⟨streamId, sequence, content⟩ := m
  cases content <;> rfl

theorem commitCertificateFromRaw_toRaw (c : CommitCertificate E) :
    commitCertificateFromRaw (commitCertificateToRaw c) = .ok c := by
  simp only [commitCertificateToRaw, commitCertificateFromRaw]
  rw [mapM_map_ok fun s _ => by rw [decodeSignature_encode]; rfl]
  rfl

theorem Response.tryFrom_toRaw (r : Response E) : tryFrom r.toRaw = .ok r := by
  cases r with
  | valueResponse startHeight values =>
    simp only [Response.toRaw, Response.tryFrom]
    rw [mapM_map_ok fun v _ => by rw [commitCertificateFromRaw_toRaw]; rfl]
    rfl

theorem LivenessMsg.tryFrom_toRaw (m : LivenessMsg E) : tryFrom m.toRaw = .ok m := by
  cases m with
  | vote v => exact congrArg (LivenessMsg.vote <$> ·) (fromRawSigned_toRaw v)
  | polkaCertificate p =>
    simp only [LivenessMsg.toRaw, LivenessMsg.tryFrom]
    rw [mapM_map_ok fun s _ => by rw [decodeSignature_encode]; rfl]
    rfl
  | skipRoundCertificate c =>
    simp only [LivenessMsg.toRaw, LivenessMsg.tryFrom]
    rw [mapM_map_ok fun s _ => by rw [decodeSignature_encode]; rfl]
    rfl

theorem ProposedValue.ofRaw_toRaw (v : ProposedValue E) : ofRaw v.toRaw = v := by
  obtain ⟨_, _, _, _, _, validity⟩ := v
  cases validity <;> rfl

end Mirrored

/-! ### The signatures of a mirror -/

section Signatures

variable {E : Engine}

def RawSignedConsensusMsg.signatures : RawSignedConsensusMsg E → List Bytes
  | .vote v => [v.signature]
  | .proposal p => [p.signature]

def RawCommitCertificate.signatures (c : RawCommitCertificate E) : List Bytes :=
  c.commitSignatures.map (·.signature)

def RawResponse.signatures : RawResponse E → List Bytes
  | .valueResponse r => r.values.flatMap fun v => v.certificate.signatures

def RawLivenessMsg.signatures : RawLivenessMsg E → List Bytes
  | .vote v => [v.signature]
  | .polkaCertificate p => p.polkaSignatures.map (·.signature)
  | .skipRoundCertificate c => c.roundSignatures.map (·.signature)

theorem fromRawSigned_refused {M : Type} {raw : RawSignedMessage M} (h : raw.signature.length ≠ 64) :
    Refused (fromRawSigned raw) := (decodeSignature_refused h).bind _

/-- A list of signed entries, one of which is badly signed. -/
theorem entries_refused {α β : Type} {signature : α → Bytes} {mk : α → EdetSignature → β} {l : List α}
    (h : ∃ sig ∈ l.map signature, sig.length ≠ 64) :
    Refused (l.mapM fun s => do let sig ← decodeSignature (signature s); pure (mk s sig)) := by
  obtain ⟨sig, hsig, hlen⟩ := h
  obtain ⟨s, hs, rfl⟩ := List.mem_map.1 hsig
  exact mapM_refused (fun s _ => (blames_decodeSignature _).bind_pure _)
    ⟨s, hs, (decodeSignature_refused hlen).bind _⟩

theorem SignedConsensusMsg.tryFrom_refused {raw : RawSignedConsensusMsg E}
    (h : ∃ sig ∈ raw.signatures, sig.length ≠ 64) : Refused (tryFrom raw) := by
  cases raw with
  | vote v =>
    obtain ⟨sig, hsig, hlen⟩ := h
    obtain rfl := List.mem_singleton.1 hsig
    exact (fromRawSigned_refused hlen).map _
  | proposal p =>
    obtain ⟨sig, hsig, hlen⟩ := h
    obtain rfl := List.mem_singleton.1 hsig
    exact (fromRawSigned_refused hlen).map _

theorem Response.tryFrom_refused {raw : RawResponse E} (h : ∃ sig ∈ raw.signatures, sig.length ≠ 64) :
    Refused (tryFrom raw) := by
  cases raw with
  | valueResponse r =>
    obtain ⟨sig, hsig, hlen⟩ := h
    obtain ⟨v, hv, hsig⟩ := List.mem_flatMap.1 hsig
    have hcertificate : ∀ c : RawCommitCertificate E, Blames (commitCertificateFromRaw c) := fun c =>
      (blames_mapM fun s _ => (blames_decodeSignature _).bind_pure _).bind_pure _
    have hrefused : Refused (commitCertificateFromRaw v.certificate) :=
      (entries_refused ⟨sig, hsig, hlen⟩).bind _
    exact (mapM_refused (fun v _ => (hcertificate _).bind_pure _) ⟨v, hv, hrefused.bind _⟩).bind _

theorem LivenessMsg.tryFrom_refused {raw : RawLivenessMsg E}
    (h : ∃ sig ∈ raw.signatures, sig.length ≠ 64) : Refused (tryFrom raw) := by
  cases raw with
  | vote v =>
    obtain ⟨sig, hsig, hlen⟩ := h
    obtain rfl := List.mem_singleton.1 hsig
    exact (fromRawSigned_refused hlen).map _
  | polkaCertificate p => exact (entries_refused h).bind _
  | skipRoundCertificate c => exact (entries_refused h).bind _

end Signatures

/-! ### Decoding what was encoded -/

namespace Codec

variable {M R : Type} {T : JsonText} {c : Codec M R}

/-- A message whose mirror is read back, or else refused, is itself. -/
theorem decode_encode {b : Bool} {m : M}
    (htext : T.fromSlice (T.toVec (c.document m)) = some (c.document m))
    (hraw : c.serde.CarriesIf b (c.toRaw m)) (hback : c.tryFrom (c.toRaw m) = .ok m) :
    c.decode T (c.encode T m) = if b then .ok m else .error .json := by
  unfold decode encode
  rw [htext]
  show (match c.serde.de (c.serde.ser (c.toRaw m)) with
    | some raw => c.tryFrom raw
    | none => .error .json) = _
  rw [hraw]
  cases b with
  | true => exact hback
  | false => rfl

theorem decode_encode_iff {b : Bool} {m : M}
    (htext : T.fromSlice (T.toVec (c.document m)) = some (c.document m))
    (hraw : c.serde.CarriesIf b (c.toRaw m)) (hback : c.tryFrom (c.toRaw m) = .ok m) :
    c.decode T (c.encode T m) = .ok m ↔ b = true := by
  rw [decode_encode htext hraw hback]
  cases b <;> simp

theorem decode_refused {bytes : T.Text} {raw : R} (hread : T.fromSlice bytes >>= c.serde.de = some raw)
    (h : Refused (c.tryFrom raw)) : Refused (c.decode T bytes) := by
  unfold decode
  rw [hread]
  exact h

end Codec

/-! ### The messages a node holds -/

section Held

variable {E : Engine}

/-- A vote has no extension, and the numbers of a block that was decoded are machine words. -/
def SignedConsensusMsg.Held : SignedConsensusMsg E → Prop
  | .vote v => v.message.extension = none
  | .proposal p => p.message.value.block.Fits

def LivenessMsg.Held : LivenessMsg E → Prop
  | .vote v => v.message.extension = none
  | .polkaCertificate _ | .skipRoundCertificate _ => True

/-- Are the amounts that a message carries finite? Only a proposal carries any. -/
def SignedConsensusMsg.finite : SignedConsensusMsg E → Bool
  | .vote _ => true
  | .proposal p => finiteBlock p.message.value.block

theorem rawSignedConsensusMsg_carriesIf (hE : E.Exact) {m : SignedConsensusMsg E} (h : m.Held) :
    (rawSignedConsensusMsg E).CarriesIf m.finite m.toRaw := by
  cases m with
  | vote v =>
    exact enum_carriesIf 0 rfl rfl rfl rfl (rawSignedMessage_carriesIf (edetVote_carries hE h)) rfl
  | proposal p =>
    exact enum_carriesIf 1 rfl rfl rfl rfl
      (rawSignedMessage_carriesIf (edetProposal_carriesIf hE h)) rfl

theorem rawLivenessMsg_carries (hE : E.Exact) {m : LivenessMsg E} (h : m.Held) :
    (rawLivenessMsg E).Carries m.toRaw := by
  cases m with
  | vote v =>
    exact enum_carriesIf 0 rfl rfl rfl rfl (rawSignedMessage_carriesIf (edetVote_carries hE h)) rfl
  | polkaCertificate p =>
    exact enum_carriesIf 1 rfl rfl rfl rfl (rawPolkaCertificate_carries hE _) rfl
  | skipRoundCertificate c =>
    exact enum_carriesIf 2 rfl rfl rfl rfl (rawRoundCertificate_carries hE _) rfl

end Held

/-- **What survives the wire and the log.** With the parameters exact, a message that a node holds
comes back equal from its encoding, and if it carries a block exactly where the block's amounts are
finite; and a document one of whose signatures is not of sixty-four bytes is refused for it. -/
theorem codec_roundtrip {E : Engine} {T : JsonText} (hE : E.Exact)
    (hT : T.Exact (EdetCodec.Written E)) :
    (∀ m : SignedConsensusMsg E, m.Held →
      ((EdetCodec.signedConsensusMsg E).decode T ((EdetCodec.signedConsensusMsg E).encode T m) =
        .ok m ↔ m.finite = true)) ∧
    (∀ v : ProposedValue E, v.value.block.Fits →
      ((EdetCodec.proposedValue E).decode T ((EdetCodec.proposedValue E).encode T v) = .ok v ↔
        finiteBlock v.value.block = true)) ∧
    (∀ m, (EdetCodec.proposalPart E).decode T ((EdetCodec.proposalPart E).encode T m) = .ok m) ∧
    (∀ m, (EdetCodec.streamMessage E).decode T ((EdetCodec.streamMessage E).encode T m) = .ok m) ∧
    (∀ m, (EdetCodec.status E).decode T ((EdetCodec.status E).encode T m) = .ok m) ∧
    (∀ m, EdetCodec.request.decode T (EdetCodec.request.encode T m) = .ok m) ∧
    (∀ m, (EdetCodec.response E).decode T ((EdetCodec.response E).encode T m) = .ok m) ∧
    (∀ m : LivenessMsg E, m.Held →
      (EdetCodec.livenessMsg E).decode T ((EdetCodec.livenessMsg E).encode T m) = .ok m) ∧
    (∀ (bytes : T.Text) (raw : RawSignedConsensusMsg E),
      T.fromSlice bytes >>= (rawSignedConsensusMsg E).de = some raw →
      (∃ sig ∈ raw.signatures, sig.length ≠ 64) →
        Refused ((EdetCodec.signedConsensusMsg E).decode T bytes)) ∧
    (∀ (bytes : T.Text) (raw : RawResponse E),
      T.fromSlice bytes >>= (rawResponse E).de = some raw →
      (∃ sig ∈ raw.signatures, sig.length ≠ 64) →
        Refused ((EdetCodec.response E).decode T bytes)) ∧
    (∀ (bytes : T.Text) (raw : RawLivenessMsg E),
      T.fromSlice bytes >>= (rawLivenessMsg E).de = some raw →
      (∃ sig ∈ raw.signatures, sig.length ≠ 64) →
        Refused ((EdetCodec.livenessMsg E).decode T bytes)) := by
  refine ⟨fun m h => ?_, fun v h => ?_, fun m => ?_, fun m => ?_, fun m => ?_, fun m => ?_, fun m => ?_,
    fun m h => ?_, fun _ _ hread h => ?_, fun _ _ hread h => ?_, fun _ _ hread h => ?_⟩
  · exact Codec.decode_encode_iff (hT _ (.signedConsensusMsg m)) (rawSignedConsensusMsg_carriesIf hE h)
      m.tryFrom_toRaw
  · exact Codec.decode_encode_iff (hT _ (.proposedValue v)) (rawProposedValue_carriesIf hE h)
      (congrArg _ v.ofRaw_toRaw)
  · exact Codec.decode_encode (hT _ (.proposalPart m)) (edetProposalPart_carries hE m) rfl
  · exact Codec.decode_encode (hT _ (.streamMessage m)) (rawStreamMessage_carries hE _)
      (congrArg _ m.ofRaw_toRaw)
  · exact Codec.decode_encode (hT _ (.status m)) (rawStatus_carries hE _) rfl
  · exact Codec.decode_encode (hT _ (.request m)) (rawRequest_carries _) rfl
  · exact Codec.decode_encode (hT _ (.response m)) (rawResponse_carries hE _) m.tryFrom_toRaw
  · exact Codec.decode_encode (hT _ (.livenessMsg m)) (rawLivenessMsg_carries hE h) m.tryFrom_toRaw
  · exact Codec.decode_refused hread (SignedConsensusMsg.tryFrom_refused h)
  · exact Codec.decode_refused hread (Response.tryFrom_refused h)
  · exact Codec.decode_refused hread (LivenessMsg.tryFrom_refused h)

/-! ### A block with one amount -/

def text : Serde F64 String where
  ser s := .str s
  de
    | .str s => some s
    | _ => none

/-- An engine with its types spelled out. -/
def sampleEngine : Engine where
  Round := Option UInt32
  VoteType := Bool
  NilOrVal := Option Key
  RoundCertificateType := Bool
  PeerId := String
  round := .enum [.unit "Nil" Option.isNone none, .of "Some" word32 id some]
  voteType := .enum [.unit "Prevote" not false, .unit "Precommit" id true]
  nilOrVal := .enum [.unit "Nil" Option.isNone none, .of "Val" key id some]
  certType := .enum [.unit "Precommit" not false, .unit "Skip" id true]
  peerId := text

theorem sampleEngine_exact : sampleEngine.Exact where
  round
    | none => rfl
    | some n => enum_carriesIf 1 rfl rfl rfl rfl (word32_carries n) rfl
  voteType b := by cases b <;> rfl
  nilOrVal
    | none => rfl
    | some id => enum_carriesIf 1 rfl rfl rfl rfl (key_carries id) rfl
  certType b := by cases b <;> rfl
  peerId _ := rfl

/-- Documents that are their own text. -/
def sampleText : JsonText where
  Text := Document
  toVec := id
  fromSlice := some

def sampleBlock (amount : F64) : Block where
  height := 1
  timeSecs := 1
  appHash := 0
  txs := [{
    tx := .settle 0 amount
    nonce := ⟨List.replicate 16 1, rfl⟩
    notAfterEpoch := 0
    signers := []
    signatures := [] }]

theorem sampleBlock_fits (amount : F64) : (sampleBlock amount).Fits := by
  refine ⟨by simp [sampleBlock], by simp [sampleBlock], by simp [sampleBlock], fun t ht => ?_⟩
  obtain rfl := List.mem_singleton.1 ht
  exact ⟨⟨by simp [Encoding.txWords], by simp [Encoding.txShorts]⟩, by simp, by simp, by simp, by simp⟩

/-- What is held of a proposal with that block, under some id. -/
def sampleProposed (id : EdetValueId) (amount : F64) : ProposedValue sampleEngine where
  height := 1
  round := some 0
  validRound := none
  proposer := 1
  value := { id, block := sampleBlock amount }
  validity := .invalid

/-- An amount of one comes back. -/
theorem codec_roundtrip_one :
    (EdetCodec.proposedValue sampleEngine).decode sampleText
      ((EdetCodec.proposedValue sampleEngine).encode sampleText (sampleProposed 0 (F64.ofNat 1))) =
        .ok (sampleProposed 0 (F64.ofNat 1)) :=
  ((codec_roundtrip (E := sampleEngine) (T := sampleText) sampleEngine_exact fun _ _ => rfl).2.1
    (sampleProposed 0 (F64.ofNat 1)) (sampleBlock_fits _)).2 (by decide)

/-- **A node cannot read back what it wrote**: a block whose amount is not a number is decoded from its
bytes, and the proposed value that holds it is refused from its own encoding. -/
theorem proposedValue_not_read_back :
    Block.decode (sampleBlock F64.nan).encode = some (sampleBlock F64.nan) ∧
      ∀ id : EdetValueId, (EdetCodec.proposedValue sampleEngine).decode sampleText
        ((EdetCodec.proposedValue sampleEngine).encode sampleText (sampleProposed id F64.nan)) =
          .error .json := by
  refine ⟨Block.decode_encode (sampleBlock_fits _), fun id => ?_⟩
  have hfinite : finiteBlock (sampleBlock F64.nan) = false := by decide
  have hread : (EdetCodec.proposedValue sampleEngine).decode sampleText
      ((EdetCodec.proposedValue sampleEngine).encode sampleText (sampleProposed id F64.nan)) =
        if finiteBlock (sampleBlock F64.nan) then .ok (sampleProposed id F64.nan) else .error .json :=
    Codec.decode_encode rfl
      (rawProposedValue_carriesIf sampleEngine_exact (sampleBlock_fits F64.nan))
      (congrArg Except.ok (ProposedValue.ofRaw_toRaw (sampleProposed id F64.nan)))
  rw [hfinite] at hread
  exact hread

end Edet.Wire
