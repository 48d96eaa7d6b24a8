import Edet.Ledger.EncodingLength

/-!
# Blocks

A block is a height, a time, the state commitment it starts from, and signed
transactions. It travels, is hashed and is stored in the consensus encoding: `encode`
writes it and `decode` reads one off the front of a string, **whatever follows it**. A
string that decodes is therefore not always the encoding of what it decodes to
(`decode_append`), but a block that was decoded is always read back from its own encoding
(`Block.fits_of_decode`,
`Block.decode_encode`): every number that a decode yields fits the width it came from.
-/

namespace Edet.Node

open Encoding (Nonce u64 f64 seq reads_u64 reads_seq reads_key reads_tx readKey)

/-- A transaction with its envelope and its signatures. -/
structure SignedTx where
  tx : Tx
  nonce : Nonce
  notAfterEpoch : Nat
  signers : List Key
  signatures : List Bytes
deriving DecidableEq

structure Block where
  height : Nat
  /-- Consensus time for the block. -/
  timeSecs : Nat
  /-- The commitment to the state this block starts from. -/
  appHash : Key
  txs : List SignedTx
deriving DecidableEq

/-! ### Encoding -/

def SignedTx.encode (t : SignedTx) : Bytes :=
  [Encoding.encodeTx t.tx, t.nonce.val, u64 t.notAfterEpoch, seq Encoding.key t.signers,
    seq (seq fun b => [b]) t.signatures].flatten

def Block.encode (b : Block) : Bytes :=
  [u64 b.height, u64 b.timeSecs, Encoding.key b.appHash, seq SignedTx.encode b.txs].flatten

def readByte : Reader UInt8 := UInt8.ofNat <$> Reader.uint 1

def readNonce : Reader Nonce := fun input =>
  if h : 16 ≤ input.length then
    some (⟨input.take 16, by rw [List.length_take, Nat.min_eq_left h]⟩, input.drop 16)
  else none

def readSigned : Reader SignedTx := do
  let tx ← Encoding.readTx
  let nonce ← readNonce
  let notAfterEpoch ← Reader.uint 8
  let signers ← Reader.seq readKey
  let signatures ← Reader.seq (Reader.seq readByte)
  pure { tx, nonce, notAfterEpoch, signers, signatures }

def readBlock : Reader Block := do
  let height ← Reader.uint 8
  let timeSecs ← Reader.uint 8
  let appHash ← readKey
  let txs ← Reader.seq readSigned
  pure { height, timeSecs, appHash, txs }

/-- Read a block off the front of a string; what follows it is not looked at. -/
def Block.decode (bytes : Bytes) : Option Block := Prod.fst <$> readBlock.run bytes

/-- The numbers and lengths of an envelope are machine words. -/
structure SignedTx.Fits (t : SignedTx) : Prop where
  tx : Encoding.Within (2 ^ 64) t.tx
  notAfterEpoch : t.notAfterEpoch < 2 ^ 64
  signers : t.signers.length < 2 ^ 64
  signatures : t.signatures.length < 2 ^ 64
  signature : ∀ b ∈ t.signatures, b.length < 2 ^ 64

/-- The numbers and lengths of a block are machine words. -/
structure Block.Fits (b : Block) : Prop where
  height : b.height < 2 ^ 64
  timeSecs : b.timeSecs < 2 ^ 64
  length : b.txs.length < 2 ^ 64
  txs : ∀ t ∈ b.txs, t.Fits

theorem reads_byte (b : UInt8) : Reads readByte [b] b := by
  intro rest
  show some (UInt8.ofNat (leNat [b]), rest) = some (b, rest)
  simp [leNat]

theorem reads_nonce (n : Nonce) : Reads readNonce n.val n := by
  intro rest
  have hlen : 16 ≤ (n.val ++ rest).length := by
    rw [List.length_append, n.property]
    omega
  have htake : (n.val ++ rest).take 16 = n.val := List.take_left' n.property
  have hdrop : (n.val ++ rest).drop 16 = rest := List.drop_left' n.property
  show (if _ : _ then _ else _) = _
  rw [dif_pos hlen]
  simp only [htake, hdrop]

theorem reads_signed {t : SignedTx} (h : t.Fits) : Reads readSigned t.encode t := by
  simp only [SignedTx.encode, List.flatten_cons, List.flatten_nil]
  exact (reads_tx h.tx).bind <| (reads_nonce t.nonce).bind <| (reads_u64 h.notAfterEpoch).bind <|
    (reads_seq h.signers fun k _ => reads_key k).bind <|
    (reads_seq h.signatures fun b hb => reads_seq (h.signature b hb) fun x _ => reads_byte x).bind <|
    Reads.pure _

theorem reads_block {b : Block} (h : b.Fits) : Reads readBlock b.encode b := by
  simp only [Block.encode, List.flatten_cons, List.flatten_nil]
  exact (reads_u64 h.height).bind <| (reads_u64 h.timeSecs).bind <| (reads_key b.appHash).bind <|
    (reads_seq h.length fun t ht => reads_signed (h.txs t ht)).bind <| Reads.pure _

/-- What follows an encoding is not looked at. -/
theorem decode_append {b : Block} (h : b.Fits) (rest : Bytes) :
    Block.decode (b.encode ++ rest) = some b := by
  rw [Block.decode, reads_block h rest]
  rfl

theorem yields_signed : Yields readSigned SignedTx.Fits := by
  refine Encoding.yields_tx.bind fun tx htx => Yields.any.bind fun nonce _ =>
    (Yields.uint 8).bind fun epoch hepoch => (Yields.seq Yields.any).bind fun signers hsigners =>
    (Yields.seq (Yields.seq Yields.any)).bind fun signatures hsignatures => Yields.pure ?_
  exact ⟨htx, by omega, hsigners.1, hsignatures.1, fun b hb => (hsignatures.2 b hb).1⟩

theorem yields_block : Yields readBlock Block.Fits := by
  refine (Yields.uint 8).bind fun height hheight => (Yields.uint 8).bind fun time htime =>
    Yields.any.bind fun hash _ => (Yields.seq yields_signed).bind fun txs htxs => Yields.pure ?_
  exact ⟨by omega, by omega, htxs.1, htxs.2⟩

/-- A block that was decoded fits. -/
theorem Block.fits_of_decode {bytes : Bytes} {b : Block} (h : Block.decode bytes = some b) :
    b.Fits := by
  obtain ⟨⟨b', rest⟩, hread, rfl⟩ := Option.map_eq_some_iff.1 h
  exact yields_block _ _ _ hread

/-- A block that was decoded is read back from its own encoding. -/
theorem Block.decode_encode {b : Block} (h : b.Fits) : Block.decode b.encode = some b := by
  have := decode_append h []
  rwa [List.append_nil] at this

theorem takes_signed : Takes readSigned fun t n => t.encode.length ≤ n := by
  have hnonce : Takes readNonce fun _ n => n = 16 := by
    intro input a rest ha
    change (if _ : _ then _ else _) = _ at ha
    split_ifs at ha with hlen
    obtain ⟨-, rfl⟩ := Prod.mk.inj (Option.some.inj ha)
    refine ⟨16, ?_, rfl⟩
    rw [List.length_drop]
    omega
  have hbyte : Takes readByte fun b n => [b].length ≤ n :=
    (Takes.uint 1).map fun a n hn => by rw [hn]; exact Nat.le_refl 1
  refine Encoding.takes_tx.bind fun tx a ha => hnonce.bind fun nonce b hb =>
    (Takes.uint 8).bind fun epoch c hc =>
    (Encoding.takes_seq (Encoding.takes_key.mono fun k n hn =>
      (Encoding.length_key k).trans_le hn.ge)).bind fun signers d hd =>
    (Encoding.takes_seq (Encoding.takes_seq hbyte)).bind fun signatures e he => Takes.pure ?_
  simp only [SignedTx.encode, List.length_flatten, List.map_cons, List.map_nil,
    Encoding.length_u64, nonce.property, List.sum_cons, List.sum_nil]
  omega

/-- Decoding a block takes at least the length of its encoding. -/
theorem Block.length_encode_le {bytes : Bytes} {b : Block} (h : Block.decode bytes = some b) :
    b.encode.length ≤ bytes.length := by
  have htakes : Takes readBlock fun b n => b.encode.length ≤ n := by
    refine (Takes.uint 8).bind fun height a ha => (Takes.uint 8).bind fun time b hb =>
      Encoding.takes_key.bind fun hash c hc =>
      (Encoding.takes_seq takes_signed).bind fun txs d hd => Takes.pure ?_
    simp only [Block.encode, List.length_flatten, List.map_cons, List.map_nil,
      Encoding.length_u64, Encoding.length_key, List.sum_cons, List.sum_nil]
    omega
  obtain ⟨⟨b', rest⟩, hread, rfl⟩ := Option.map_eq_some_iff.1 h
  obtain ⟨n, hn, hle⟩ := htakes _ _ _ hread
  show b'.encode.length ≤ bytes.length
  omega

end Edet.Node
