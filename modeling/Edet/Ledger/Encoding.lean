import Edet.Ledger.Types
import Edet.Library.Codec

/-!
# The consensus encoding of transactions

Every signed or transmitted byte of a transaction is written in one encoding: integers
little-endian at their own width, an enumeration as its index in declaration order in
four bytes, a sequence or a set preceded by its length in eight, an array of fixed size
bare. `encodeTx` writes a transaction and `txBody` reads one back, variant by variant.

What has to fit is named once: `txWords` lists every number that is written in eight
bytes (lengths included) and `txShorts` those in four, and a transaction is `Within B`
when the ones are below `B` and the others below `2 ^ 32`. For those the round trip
`reads_tx` holds, and with it `txPreimage_inj`: no two envelopes, on one chain or two,
have one signed preimage.
-/

namespace Edet.Encoding

def u32 (n : Nat) : Bytes := leBytes 4 n
def u64 (n : Nat) : Bytes := leBytes 8 n
def f64 (x : F64) : Bytes := leBytes 8 x.bits.toNat
def bool (b : Bool) : Bytes := [if b then 1 else 0]
/-- A variant's index. -/
def variant (index : Nat) : Bytes := leBytes 4 index
def key (k : Key) : Bytes := beBytes 32 k.toNat
def seq {α : Type} (enc : α → Bytes) (l : List α) : Bytes := u64 l.length ++ l.flatMap enc

def option {α : Type} (enc : α → Bytes) : Option α → Bytes
  | none => [0]
  | some a => 1 :: enc a

def party : Party → Bytes
  | .member id => [variant 0, u64 id].flatten
  | .key k => [variant 1, key k].flatten

/-- A set is written in ascending order. -/
def arbTerms (t : ArbTermsWire) : Bytes :=
  [seq u64 t.arbiters.toList, u32 t.quorum, u64 t.windowEpochs, f64 t.awardCap].flatten

def paramKeyIndex : ParamKey → Nat
  | .riskK => 0
  | .sealAmounts => 1
  | .bondFraction => 2
  | .stakeDecay => 3
  | .seedRate => 4
  | .insuredHorizon => 5

def proposalKind : ProposalKind → Bytes
  | .paramChange k value => [variant 0, variant (paramKeyIndex k), f64 value].flatten
  | .redenominate num den => [variant 1, u64 num, u64 den].flatten
  | .suspend member => [variant 2, u64 member].flatten
  | .unsuspend member => [variant 3, u64 member].flatten
  | .validatorPower member power => [variant 4, u64 member, u64 power].flatten
  | .seedAmendment amount => [variant 5, f64 amount].flatten

def encodeTx : Tx → Bytes
  | .registerGuardians member guardians threshold vetoWindowEpochs =>
    [variant 0, u64 member, seq u64 guardians, u32 threshold, u64 vetoWindowEpochs].flatten
  | .rotateRequest member newKeys => [variant 1, u64 member, seq key newKeys].flatten
  | .rotateVeto member => [variant 2, u64 member].flatten
  | .rotateFinalize member => [variant 3, u64 member].flatten
  | .setConsensusKey member k => [variant 4, u64 member, option key k].flatten
  | .exit member => [variant 5, u64 member].flatten
  | .listBeneficiaries supporter entries =>
    [variant 6, u64 supporter, seq (fun e => [u64 e.1, f64 e.2].flatten) entries].flatten
  | .approveSupporter beneficiary supporter approved =>
    [variant 7, u64 beneficiary, u64 supporter, bool approved].flatten
  | .sale seller buyer amount maturityEpochs =>
    [variant 8, party seller, party buyer, f64 amount, u64 maturityEpochs].flatten
  | .declareSupply member supply => [variant 9, u64 member, f64 supply].flatten
  | .accept debtor creditor amount maturityEpochs arb =>
    [variant 10, party debtor, party creditor, f64 amount, u64 maturityEpochs,
      option arbTerms arb].flatten
  | .transfer contract newDebtor => [variant 11, u64 contract, u64 newDebtor].flatten
  | .settle contract amount => [variant 12, u64 contract, f64 amount].flatten
  | .extend contract newMaturityEpoch =>
    [variant 13, u64 contract, u64 newMaturityEpoch].flatten
  | .markExpired contract => [variant 14, u64 contract].flatten
  | .cure contract amount => [variant 15, u64 contract, f64 amount].flatten
  | .arbAttest contract arbiter amount =>
    [variant 16, u64 contract, u64 arbiter, f64 amount].flatten
  | .propose author kind => [variant 17, u64 author, proposalKind kind].flatten
  | .assent member proposal => [variant 18, u64 member, u64 proposal].flatten
  | .forfeitBonds member => [variant 19, u64 member].flatten

/-! ### The signed preimage -/

/-- Sixteen bytes that a signer chooses. -/
abbrev Nonce := { b : Bytes // b.length = 16 }

/-- The bytes of a text. -/
def utf8 (s : String) : Bytes := s.toUTF8.data.toList

def txDomain : Bytes := utf8 "edet-tx-v1"

/-- What the digest of a transaction hashes: the domain, the chain, and the transaction
with its nonce and its last epoch. -/
def txPreimage (chainId : String) (tx : Tx) (nonce : Nonce) (notAfterEpoch : Nat) : Bytes :=
  [txDomain, u64 (utf8 chainId).length, utf8 chainId, encodeTx tx, nonce.val,
    u64 notAfterEpoch].flatten

def txDigest {D : Type} (sha256 : Bytes → D) (chainId : String) (tx : Tx) (nonce : Nonce)
    (notAfterEpoch : Nat) : D :=
  sha256 (txPreimage chainId tx nonce notAfterEpoch)

/-! ### What has to fit -/

def Party.words : Party → List Nat
  | .member id => [id]
  | .key _ => []

def arbWords : Option ArbTermsWire → List Nat
  | none => []
  | some t => t.arbiters.toList.length :: t.windowEpochs :: t.arbiters.toList

def arbShorts : Option ArbTermsWire → List Nat
  | none => []
  | some t => [t.quorum]

def arbAmounts : Option ArbTermsWire → List F64
  | none => []
  | some t => [t.awardCap]

def kindWords : ProposalKind → List Nat
  | .paramChange _ _ => []
  | .redenominate num den => [num, den]
  | .suspend member => [member]
  | .unsuspend member => [member]
  | .validatorPower member power => [member, power]
  | .seedAmendment _ => []

def kindAmounts : ProposalKind → List F64
  | .paramChange _ value => [value]
  | .seedAmendment amount => [amount]
  | _ => []

/-- The numbers a transaction writes in eight bytes. -/
def txWords : Tx → List Nat
  | .registerGuardians member guardians _ vetoWindowEpochs =>
    member :: guardians.length :: vetoWindowEpochs :: guardians
  | .rotateRequest member newKeys => [member, newKeys.length]
  | .rotateVeto member => [member]
  | .rotateFinalize member => [member]
  | .setConsensusKey member _ => [member]
  | .exit member => [member]
  | .listBeneficiaries supporter entries =>
    supporter :: entries.length :: entries.map Prod.fst
  | .approveSupporter beneficiary supporter _ => [beneficiary, supporter]
  | .sale seller buyer _ maturityEpochs =>
    maturityEpochs :: (Party.words seller ++ Party.words buyer)
  | .declareSupply member _ => [member]
  | .accept debtor creditor _ maturityEpochs arb =>
    maturityEpochs :: (Party.words debtor ++ Party.words creditor ++ arbWords arb)
  | .transfer contract newDebtor => [contract, newDebtor]
  | .settle contract _ => [contract]
  | .extend contract newMaturityEpoch => [contract, newMaturityEpoch]
  | .markExpired contract => [contract]
  | .cure contract _ => [contract]
  | .arbAttest contract arbiter _ => [contract, arbiter]
  | .propose author kind => author :: kindWords kind
  | .assent member proposal => [member, proposal]
  | .forfeitBonds member => [member]

/-- The numbers a transaction writes in four bytes. -/
def txShorts : Tx → List Nat
  | .registerGuardians _ _ threshold _ => [threshold]
  | .accept _ _ _ _ arb => arbShorts arb
  | _ => []

/-- The amounts a transaction carries. -/
def txAmounts : Tx → List F64
  | .listBeneficiaries _ entries => entries.map Prod.snd
  | .sale _ _ amount _ => [amount]
  | .declareSupply _ supply => [supply]
  | .accept _ _ amount _ arb => amount :: arbAmounts arb
  | .settle _ amount => [amount]
  | .cure _ amount => [amount]
  | .arbAttest _ _ amount => [amount]
  | .propose _ kind => kindAmounts kind
  | _ => []

/-- The numbers of a transaction are below `B`, and those written in four bytes fit. -/
structure Within (B : Nat) (tx : Tx) : Prop where
  words : ∀ n ∈ txWords tx, n < B
  shorts : ∀ n ∈ txShorts tx, n < 2 ^ 32

/-! ### Reading back -/

def readKey : Reader Key := (fun b => BitVec.ofNat 256 (leNat b.reverse)) <$> Reader.bytes 32

def readF64 : Reader F64 := (fun n => ⟨BitVec.ofNat 64 n⟩) <$> Reader.uint 8

def readParty : Reader Party := do
  match ← Reader.uint 4 with
  | 0 => .member <$> Reader.uint 8
  | 1 => .key <$> readKey
  | _ => failure

def readSet : Reader (OrdSet MemberId) :=
  (fun l => Std.ExtTreeSet.ofList l compare) <$> Reader.seq (Reader.uint 8)

def readArbTerms : Reader ArbTermsWire := do
  let arbiters ← readSet
  let quorum ← Reader.uint 4
  let windowEpochs ← Reader.uint 8
  let awardCap ← readF64
  pure { arbiters, quorum, windowEpochs, awardCap }

def readParamKey : Reader ParamKey := do
  match ← Reader.uint 4 with
  | 0 => pure .riskK
  | 1 => pure .sealAmounts
  | 2 => pure .bondFraction
  | 3 => pure .stakeDecay
  | 4 => pure .seedRate
  | 5 => pure .insuredHorizon
  | _ => failure

def readKind : Nat → Reader ProposalKind
  | 0 => do
    let k ← readParamKey
    let value ← readF64
    pure (.paramChange k value)
  | 1 => do
    let num ← Reader.uint 8
    let den ← Reader.uint 8
    pure (.redenominate num den)
  | 2 => .suspend <$> Reader.uint 8
  | 3 => .unsuspend <$> Reader.uint 8
  | 4 => do
    let member ← Reader.uint 8
    let power ← Reader.uint 8
    pure (.validatorPower member power)
  | 5 => .seedAmendment <$> readF64
  | _ => failure

/-- The fields of the transaction of a given variant. -/
def txBody : Nat → Reader Tx
  | 0 => do
    let member ← Reader.uint 8
    let guardians ← Reader.seq (Reader.uint 8)
    let threshold ← Reader.uint 4
    let vetoWindowEpochs ← Reader.uint 8
    pure (.registerGuardians member guardians threshold vetoWindowEpochs)
  | 1 => do
    let member ← Reader.uint 8
    let newKeys ← Reader.seq readKey
    pure (.rotateRequest member newKeys)
  | 2 => .rotateVeto <$> Reader.uint 8
  | 3 => .rotateFinalize <$> Reader.uint 8
  | 4 => do
    let member ← Reader.uint 8
    let k ← Reader.option readKey
    pure (.setConsensusKey member k)
  | 5 => .exit <$> Reader.uint 8
  | 6 => do
    let supporter ← Reader.uint 8
    let entries ← Reader.seq do
      let id ← Reader.uint 8
      let weight ← readF64
      pure (id, weight)
    pure (.listBeneficiaries supporter entries)
  | 7 => do
    let beneficiary ← Reader.uint 8
    let supporter ← Reader.uint 8
    let approved ← Reader.bool
    pure (.approveSupporter beneficiary supporter approved)
  | 8 => do
    let seller ← readParty
    let buyer ← readParty
    let amount ← readF64
    let maturityEpochs ← Reader.uint 8
    pure (.sale seller buyer amount maturityEpochs)
  | 9 => do
    let member ← Reader.uint 8
    let supply ← readF64
    pure (.declareSupply member supply)
  | 10 => do
    let debtor ← readParty
    let creditor ← readParty
    let amount ← readF64
    let maturityEpochs ← Reader.uint 8
    let arb ← Reader.option readArbTerms
    pure (.accept debtor creditor amount maturityEpochs arb)
  | 11 => do
    let contract ← Reader.uint 8
    let newDebtor ← Reader.uint 8
    pure (.transfer contract newDebtor)
  | 12 => do
    let contract ← Reader.uint 8
    let amount ← readF64
    pure (.settle contract amount)
  | 13 => do
    let contract ← Reader.uint 8
    let newMaturityEpoch ← Reader.uint 8
    pure (.extend contract newMaturityEpoch)
  | 14 => .markExpired <$> Reader.uint 8
  | 15 => do
    let contract ← Reader.uint 8
    let amount ← readF64
    pure (.cure contract amount)
  | 16 => do
    let contract ← Reader.uint 8
    let arbiter ← Reader.uint 8
    let amount ← readF64
    pure (.arbAttest contract arbiter amount)
  | 17 => do
    let author ← Reader.uint 8
    let kind ← Reader.uint 4 >>= readKind
    pure (.propose author kind)
  | 18 => do
    let member ← Reader.uint 8
    let proposal ← Reader.uint 8
    pure (.assent member proposal)
  | 19 => .forfeitBonds <$> Reader.uint 8
  | _ => failure

def readTx : Reader Tx := Reader.uint 4 >>= txBody

/-! ### The round trip -/

theorem reads_u64 {n : Nat} (h : n < 2 ^ 64) : Reads (Reader.uint 8) (u64 n) n :=
  Reads.uint (by omega)

theorem reads_u32 {n : Nat} (h : n < 2 ^ 32) : Reads (Reader.uint 4) (u32 n) n :=
  Reads.uint (by omega)

theorem reads_variant {n : Nat} (h : n < 20) : Reads (Reader.uint 4) (variant n) n :=
  Reads.uint (by omega)

theorem reads_f64 (x : F64) : Reads readF64 (f64 x) x := by
  have h := (reads_u64 x.bits.isLt).map fun n => (⟨BitVec.ofNat 64 n⟩ : F64)
  simp only [BitVec.ofNat_toNat, BitVec.setWidth_eq] at h
  exact h

theorem reads_key (k : Key) : Reads readKey (key k) k := by
  have h := (Reads.bytes (key k)).map fun b => BitVec.ofNat 256 (leNat b.reverse)
  have hlen : (key k).length = 32 := length_beBytes 32 _
  have hk : leNat (key k).reverse = k.toNat := by
    rw [key, beBytes, List.reverse_reverse, leNat_leBytes (lt_of_lt_of_le k.isLt (by norm_num))]
  simp only [hlen, hk, BitVec.ofNat_toNat, BitVec.setWidth_eq] at h
  exact h

theorem reads_seq {α : Type} {r : Reader α} {enc : α → Bytes} {l : List α}
    (hlen : l.length < 2 ^ 64) (h : ∀ a ∈ l, Reads r (enc a) a) :
    Reads (Reader.seq r) (seq enc l) l :=
  Reads.seq hlen h

theorem reads_option {α : Type} {r : Reader α} {enc : α → Bytes} {o : Option α}
    (h : ∀ a, o = some a → Reads r (enc a) a) : Reads (Reader.option r) (option enc o) o := by
  cases o with
  | none => exact Reads.none
  | some a => exact (h a rfl).some

theorem reads_party {p : Party} (h : ∀ n ∈ Party.words p, n < 2 ^ 64) :
    Reads readParty (party p) p := by
  cases p with
  | member id =>
    simp only [party, List.flatten_cons, List.flatten_nil, List.append_nil]
    exact (reads_variant (by norm_num)).bind ((reads_u64 (h id (by simp [Party.words]))).map _)
  | key k =>
    simp only [party, List.flatten_cons, List.flatten_nil, List.append_nil]
    exact (reads_variant (by norm_num)).bind ((reads_key k).map _)

theorem ofList_toList (set : OrdSet MemberId) : Std.ExtTreeSet.ofList set.toList compare = set := by
  refine Std.ExtTreeSet.ext_mem fun a => ?_
  rw [Std.ExtTreeSet.mem_ofList, ← Std.ExtTreeSet.mem_toList]
  simp

theorem reads_set {set : OrdSet MemberId} (hlen : set.toList.length < 2 ^ 64)
    (h : ∀ n ∈ set.toList, n < 2 ^ 64) : Reads readSet (seq u64 set.toList) set := by
  have := (reads_seq hlen fun n hn => reads_u64 (h n hn)).map fun l =>
    Std.ExtTreeSet.ofList l compare
  simp only [ofList_toList] at this
  exact this

theorem reads_arbTerms {t : ArbTermsWire} (hw : ∀ n ∈ arbWords (some t), n < 2 ^ 64)
    (hs : ∀ n ∈ arbShorts (some t), n < 2 ^ 32) : Reads readArbTerms (arbTerms t) t := by
  simp only [arbWords, arbShorts, List.mem_cons, List.not_mem_nil, or_false, forall_eq_or_imp,
    forall_eq] at hw hs
  obtain ⟨hlen, hwindow, harbiters⟩ := hw
  simp only [arbTerms, List.flatten_cons, List.flatten_nil]
  exact (reads_set hlen harbiters).bind <| (reads_u32 hs).bind <| (reads_u64 hwindow).bind <|
    (reads_f64 _).bind <| Reads.pure _

theorem reads_paramKey (k : ParamKey) : Reads readParamKey (variant (paramKeyIndex k)) k := by
  intro rest
  cases k <;> rfl

theorem reads_kind {k : ProposalKind} (h : ∀ n ∈ kindWords k, n < 2 ^ 64) :
    Reads (Reader.uint 4 >>= readKind) (proposalKind k) k := by
  cases k <;>
    simp only [kindWords, List.mem_cons, List.not_mem_nil, or_false, forall_eq_or_imp,
      forall_eq] at h <;>
    simp only [proposalKind, List.flatten_cons, List.flatten_nil] <;>
    refine (reads_variant (by norm_num)).bind ?_
  case paramChange k value =>
    exact (reads_paramKey k).bind <| (reads_f64 value).bind <| Reads.pure _
  case redenominate num den =>
    exact (reads_u64 h.1).bind <| (reads_u64 h.2).bind <| Reads.pure _
  case suspend member => rw [List.append_nil]; exact (reads_u64 h).map _
  case unsuspend member => rw [List.append_nil]; exact (reads_u64 h).map _
  case validatorPower member power =>
    exact (reads_u64 h.1).bind <| (reads_u64 h.2).bind <| Reads.pure _
  case seedAmendment amount => rw [List.append_nil]; exact (reads_f64 amount).map _

/-- **The round trip.** A transaction whose numbers are machine words is read back. -/
theorem reads_tx {tx : Tx} (h : Within (2 ^ 64) tx) : Reads readTx (encodeTx tx) tx := by
  obtain ⟨hw, hs⟩ := h
  cases tx <;>
    simp only [txWords, List.mem_cons, List.not_mem_nil, or_false, forall_eq_or_imp,
      forall_eq] at hw <;>
    simp only [encodeTx, List.flatten_cons, List.flatten_nil] <;>
    refine (reads_variant (by norm_num)).bind ?_
  case registerGuardians member guardians threshold vetoWindowEpochs =>
    obtain ⟨hmember, hlen, hveto, hguardians⟩ := hw
    exact (reads_u64 hmember).bind <|
      (reads_seq hlen fun n hn => reads_u64 (hguardians n hn)).bind <|
      (reads_u32 (hs _ (by simp [txShorts]))).bind <| (reads_u64 hveto).bind <| Reads.pure _
  case rotateRequest member newKeys =>
    exact (reads_u64 hw.1).bind <| (reads_seq hw.2 fun k _ => reads_key k).bind <| Reads.pure _
  case rotateVeto member => rw [List.append_nil]; exact (reads_u64 hw).map _
  case rotateFinalize member => rw [List.append_nil]; exact (reads_u64 hw).map _
  case setConsensusKey member k =>
    exact (reads_u64 hw).bind <| (reads_option fun k _ => reads_key k).bind <| Reads.pure _
  case exit member => rw [List.append_nil]; exact (reads_u64 hw).map _
  case listBeneficiaries supporter entries =>
    obtain ⟨hsupporter, hlen, hids⟩ := hw
    refine (reads_u64 hsupporter).bind <| (reads_seq hlen fun e he => ?_).bind <| Reads.pure _
    exact (reads_u64 (hids e.1 (List.mem_map_of_mem he))).bind <| (reads_f64 e.2).bind <|
      Reads.pure _
  case approveSupporter beneficiary supporter approved =>
    exact (reads_u64 hw.1).bind <| (reads_u64 hw.2).bind <| (Reads.bool approved).bind <|
      Reads.pure _
  case sale seller buyer amount maturityEpochs =>
    simp only [List.mem_append] at hw
    exact (reads_party fun n hn => hw.2 n (.inl hn)).bind <|
      (reads_party fun n hn => hw.2 n (.inr hn)).bind <| (reads_f64 amount).bind <|
      (reads_u64 hw.1).bind <| Reads.pure _
  case declareSupply member supply =>
    exact (reads_u64 hw).bind <| (reads_f64 supply).bind <| Reads.pure _
  case accept debtor creditor amount maturityEpochs arb =>
    simp only [List.mem_append] at hw
    refine (reads_party fun n hn => hw.2 n (.inl (.inl hn))).bind <|
      (reads_party fun n hn => hw.2 n (.inl (.inr hn))).bind <| (reads_f64 amount).bind <|
      (reads_u64 hw.1).bind <| (reads_option fun t ht => ?_).bind <| Reads.pure _
    subst ht
    exact reads_arbTerms (fun n hn => hw.2 n (.inr hn)) hs
  case transfer contract newDebtor =>
    exact (reads_u64 hw.1).bind <| (reads_u64 hw.2).bind <| Reads.pure _
  case settle contract amount =>
    exact (reads_u64 hw).bind <| (reads_f64 amount).bind <| Reads.pure _
  case extend contract newMaturityEpoch =>
    exact (reads_u64 hw.1).bind <| (reads_u64 hw.2).bind <| Reads.pure _
  case markExpired contract => rw [List.append_nil]; exact (reads_u64 hw).map _
  case cure contract amount =>
    exact (reads_u64 hw).bind <| (reads_f64 amount).bind <| Reads.pure _
  case arbAttest contract arbiter amount =>
    exact (reads_u64 hw.1).bind <| (reads_u64 hw.2).bind <| (reads_f64 amount).bind <|
      Reads.pure _
  case propose author kind =>
    exact (reads_u64 hw.1).bind <| (reads_kind hw.2).bind <| Reads.pure _
  case assent member proposal =>
    exact (reads_u64 hw.1).bind <| (reads_u64 hw.2).bind <| Reads.pure _
  case forfeitBonds member => rw [List.append_nil]; exact (reads_u64 hw).map _

theorem Within.mono {B B' : Nat} {tx : Tx} (h : Within B tx) (hB : B ≤ B') : Within B' tx :=
  ⟨fun n hn => lt_of_lt_of_le (h.words n hn) hB, h.shorts⟩

/-! ### What is read fits -/

theorem yields_party : Yields readParty fun p => ∀ n ∈ Party.words p, n < 2 ^ 64 := by
  refine (Yields.uint 4).bind fun i _ => ?_
  match i with
  | 0 => exact (Yields.uint 8).map fun n hn => by simp [Party.words]; omega
  | 1 => exact Yields.any.map fun k _ => by simp [Party.words]
  | _ + 2 => exact Yields.failure

theorem length_ofList_le (l : List MemberId) :
    (Std.ExtTreeSet.ofList l compare).toList.length ≤ l.length := by
  refine (List.Nodup.subperm ?_ fun a ha => ?_).length_le
  · exact (Std.ExtTreeSet.distinct_toList (t := Std.ExtTreeSet.ofList l compare)).imp
      fun h heq => h (by rw [heq, Std.compare_self])
  · rw [Std.ExtTreeSet.mem_toList, Std.ExtTreeSet.mem_ofList] at ha
    simpa using ha

theorem yields_set :
    Yields readSet fun s => s.toList.length < 2 ^ 64 ∧ ∀ n ∈ s.toList, n < 2 ^ 64 := by
  refine (Yields.seq (Yields.uint 8)).map fun l hl => ⟨?_, fun n hn => ?_⟩
  · exact lt_of_le_of_lt (length_ofList_le l) hl.1
  · rw [Std.ExtTreeSet.mem_toList, Std.ExtTreeSet.mem_ofList] at hn
    have := hl.2 n (by simpa using hn)
    omega

theorem yields_arbTerms : Yields readArbTerms fun t =>
    (∀ n ∈ arbWords (some t), n < 2 ^ 64) ∧ ∀ n ∈ arbShorts (some t), n < 2 ^ 32 := by
  refine yields_set.bind fun arbiters harbiters => (Yields.uint 4).bind fun quorum hquorum =>
    (Yields.uint 8).bind fun window hwindow => Yields.any.bind fun cap _ => Yields.pure ?_
  simp only [arbWords, arbShorts, List.mem_cons, List.not_mem_nil, or_false, forall_eq_or_imp,
    forall_eq]
  exact ⟨⟨harbiters.1, by omega, harbiters.2⟩, by omega⟩

theorem yields_kind (i : Nat) :
    Yields (readKind i) fun k => ∀ n ∈ kindWords k, n < 2 ^ 64 := by
  match i with
  | 0 => exact Yields.any.bind fun k _ => Yields.any.bind fun v _ => Yields.pure (by simp [kindWords])
  | 1 =>
    refine (Yields.uint 8).bind fun num hnum => (Yields.uint 8).bind fun den hden => Yields.pure ?_
    simp only [kindWords, List.mem_cons, List.not_mem_nil, or_false, forall_eq_or_imp, forall_eq]
    omega
  | 2 => exact (Yields.uint 8).map fun m hm => by simp [kindWords]; omega
  | 3 => exact (Yields.uint 8).map fun m hm => by simp [kindWords]; omega
  | 4 =>
    refine (Yields.uint 8).bind fun m hm => (Yields.uint 8).bind fun p hp => Yields.pure ?_
    simp only [kindWords, List.mem_cons, List.not_mem_nil, or_false, forall_eq_or_imp, forall_eq]
    omega
  | 5 => exact Yields.any.map fun x _ => by simp [kindWords]
  | _ + 6 => exact Yields.failure

/-- One field that is a word, and nothing else that has to fit. -/
theorem yields_one {f : Nat → Tx} (hw : ∀ n, txWords (f n) = [n]) (hs : ∀ n, txShorts (f n) = []) :
    Yields (f <$> Reader.uint 8) (Within (2 ^ 64)) := by
  refine (Yields.uint 8).map fun n hn => ⟨?_, ?_⟩
  · rw [hw]
    intro m hm
    rw [List.mem_singleton.1 hm]
    omega
  · rw [hs]
    exact fun m hm => absurd hm List.not_mem_nil

theorem yields_txBody (i : Nat) : Yields (txBody i) (Within (2 ^ 64)) := by
  -- the variants in the order of their indices: each reader bounds what it reads by its width
  match i with
  | 0 =>
    refine (Yields.uint 8).bind fun member hmember =>
      (Yields.seq (Yields.uint 8)).bind fun guardians hguardians =>
      (Yields.uint 4).bind fun threshold hthreshold =>
      (Yields.uint 8).bind fun window hwindow => Yields.pure ⟨?_, ?_⟩
    · simp only [txWords, List.mem_cons, forall_eq_or_imp]
      exact ⟨by omega, hguardians.1, by omega, fun n hn => by
        have := hguardians.2 n hn
        omega⟩
    · simp only [txShorts, List.mem_singleton, forall_eq]
      omega
  | 1 =>
    refine (Yields.uint 8).bind fun member hmember =>
      (Yields.seq Yields.any).bind fun keys hkeys => Yields.pure ⟨?_, by simp [txShorts]⟩
    simp only [txWords, List.mem_cons, List.not_mem_nil, or_false, forall_eq_or_imp, forall_eq]
    exact ⟨by omega, hkeys.1⟩
  | 2 => exact yields_one (fun _ => rfl) fun _ => rfl
  | 3 => exact yields_one (fun _ => rfl) fun _ => rfl
  | 4 =>
    refine (Yields.uint 8).bind fun member hmember => Yields.any.bind fun k _ =>
      Yields.pure ⟨?_, by simp [txShorts]⟩
    simp only [txWords, List.mem_cons, List.not_mem_nil, or_false, forall_eq]
    omega
  | 5 => exact yields_one (fun _ => rfl) fun _ => rfl
  | 6 =>
    refine (Yields.uint 8).bind fun supporter hsupporter =>
      (Yields.seq (P := fun e => e.1 < 2 ^ 64) ?_).bind fun entries hentries =>
      Yields.pure ⟨?_, by simp [txShorts]⟩
    -- an entry is an id and a weight, and the weight is no word
    · exact (Yields.uint 8).bind fun id hid => Yields.any.bind fun w _ => Yields.pure (by
        show id < 2 ^ 64
        omega)
    · simp only [txWords, List.mem_cons, forall_eq_or_imp]
      refine ⟨by omega, hentries.1, fun n hn => ?_⟩
      obtain ⟨e, he, rfl⟩ := List.mem_map.1 hn
      exact hentries.2 e he
  | 7 =>
    refine (Yields.uint 8).bind fun b hb => (Yields.uint 8).bind fun s hs =>
      Yields.any.bind fun approved _ => Yields.pure ⟨?_, by simp [txShorts]⟩
    simp only [txWords, List.mem_cons, List.not_mem_nil, or_false, forall_eq_or_imp, forall_eq]
    omega
  | 8 =>
    refine yields_party.bind fun seller hseller => yields_party.bind fun buyer hbuyer =>
      Yields.any.bind fun amount _ => (Yields.uint 8).bind fun maturity hmaturity =>
      Yields.pure ⟨?_, by simp [txShorts]⟩
    simp only [txWords, List.mem_cons, List.mem_append, forall_eq_or_imp]
    exact ⟨by omega, fun n hn => hn.elim (hseller n) (hbuyer n)⟩
  | 9 =>
    refine (Yields.uint 8).bind fun m hm => Yields.any.bind fun x _ =>
      Yields.pure ⟨?_, by simp [txShorts]⟩
    simp only [txWords, List.mem_cons, List.not_mem_nil, or_false, forall_eq]
    omega
  | 10 =>
    refine yields_party.bind fun debtor hdebtor => yields_party.bind fun creditor hcreditor =>
      Yields.any.bind fun amount _ => (Yields.uint 8).bind fun maturity hmaturity =>
      (Yields.option yields_arbTerms).bind fun arb harb => Yields.pure ⟨?_, ?_⟩
    -- the words of both parties, and those of the terms where there are any
    · simp only [txWords, List.mem_cons, List.mem_append, forall_eq_or_imp]
      refine ⟨by omega, fun n hn => ?_⟩
      rcases hn with (hn | hn) | hn
      · exact hdebtor n hn
      · exact hcreditor n hn
      · cases arb with
        | none => simp [arbWords] at hn
        | some t => exact (harb t rfl).1 n hn
    · cases arb with
      | none => simp [txShorts, arbShorts]
      | some t => exact (harb t rfl).2
  | 11 =>
    refine (Yields.uint 8).bind fun c hc => (Yields.uint 8).bind fun d hd =>
      Yields.pure ⟨?_, by simp [txShorts]⟩
    simp only [txWords, List.mem_cons, List.not_mem_nil, or_false, forall_eq_or_imp, forall_eq]
    omega
  | 12 =>
    refine (Yields.uint 8).bind fun c hc => Yields.any.bind fun x _ =>
      Yields.pure ⟨?_, by simp [txShorts]⟩
    simp only [txWords, List.mem_cons, List.not_mem_nil, or_false, forall_eq]
    omega
  | 13 =>
    refine (Yields.uint 8).bind fun c hc => (Yields.uint 8).bind fun e he =>
      Yields.pure ⟨?_, by simp [txShorts]⟩
    simp only [txWords, List.mem_cons, List.not_mem_nil, or_false, forall_eq_or_imp, forall_eq]
    omega
  | 14 => exact yields_one (fun _ => rfl) fun _ => rfl
  | 15 =>
    refine (Yields.uint 8).bind fun c hc => Yields.any.bind fun x _ =>
      Yields.pure ⟨?_, by simp [txShorts]⟩
    simp only [txWords, List.mem_cons, List.not_mem_nil, or_false, forall_eq]
    omega
  | 16 =>
    refine (Yields.uint 8).bind fun c hc => (Yields.uint 8).bind fun a ha =>
      Yields.any.bind fun x _ => Yields.pure ⟨?_, by simp [txShorts]⟩
    simp only [txWords, List.mem_cons, List.not_mem_nil, or_false, forall_eq_or_imp, forall_eq]
    omega
  | 17 =>
    refine (Yields.uint 8).bind fun author hauthor =>
      ((Yields.uint 4).bind fun i _ => yields_kind i).bind fun kind hkind =>
      Yields.pure ⟨?_, by simp [txShorts]⟩
    simp only [txWords, List.mem_cons, forall_eq_or_imp]
    exact ⟨by omega, hkind⟩
  | 18 =>
    refine (Yields.uint 8).bind fun m hm => (Yields.uint 8).bind fun p hp =>
      Yields.pure ⟨?_, by simp [txShorts]⟩
    simp only [txWords, List.mem_cons, List.not_mem_nil, or_false, forall_eq_or_imp, forall_eq]
    omega
  | 19 => exact yields_one (fun _ => rfl) fun _ => rfl
  -- no variant has such an index
  | _ + 20 => exact Yields.failure

/-- The numbers of a transaction that was read are machine words. -/
theorem yields_tx : Yields readTx (Within (2 ^ 64)) :=
  (Yields.uint 4).bind fun i _ => yields_txBody i

/-! ### The preimage is injective -/

theorem utf8_inj {s t : String} (h : utf8 s = utf8 t) : s = t := by
  have hdata : s.toUTF8.data = t.toUTF8.data := Array.toList_inj.1 h
  exact String.toByteArray_inj.1 (ByteArray.ext hdata)

/-- **No two envelopes have one signed preimage.** -/
theorem txPreimage_inj {chain chain' : String} {tx tx' : Tx} {nonce nonce' : Nonce}
    {epoch epoch' : Nat} (hchain : (utf8 chain).length < 2 ^ 64)
    (hchain' : (utf8 chain').length < 2 ^ 64) (htx : Within (2 ^ 64) tx)
    (htx' : Within (2 ^ 64) tx') (hepoch : epoch < 2 ^ 64) (hepoch' : epoch' < 2 ^ 64)
    (h : txPreimage chain tx nonce epoch = txPreimage chain' tx' nonce' epoch') :
    chain = chain' ∧ tx = tx' ∧ nonce = nonce' ∧ epoch = epoch' := by
  simp only [txPreimage, List.flatten_cons, List.flatten_nil, List.append_nil] at h
  replace h := List.append_cancel_left h
  simp only [← List.append_assoc (u64 _) (utf8 _)] at h
  obtain ⟨hname, h⟩ := SelfDelimiting.framed (SelfDelimiting.leBytes 8) hchain hchain' h
  obtain ⟨rfl, h⟩ := SelfDelimiting.of_reads (fun tx (h : Within (2 ^ 64) tx) => reads_tx h)
    htx htx' h
  obtain ⟨hnonce, h⟩ := List.append_inj (List.append_cancel_left h)
    (by rw [nonce.property, nonce'.property])
  exact ⟨utf8_inj hname, rfl, Subtype.ext hnonce, leBytes_inj hepoch hepoch' h⟩

end Edet.Encoding
