import Edet.Library.Serde
import Edet.Node.Block

/-!
# Blocks as JSON

Inside consensus messages and in the engine's log a block is a JSON document, by the derived
serializers of the block, its transactions and what these hold. A number or a key comes back from
it, and so does every finite amount. One that is not finite, which the encoding of `Node.Block`
carries like any other, is written as `null` and refused: a block is read back exactly if all its
amounts are finite (`block_carriesIf`).
-/

namespace Edet.Wire

open Node Serde Fields Variant

/-- A document as the codec writes it. -/
abbrev Document := Json F64

/-! ### Numbers and bytes -/

def u64 : Serde F64 Nat := .word 64
def u32 : Serde F64 Nat := .word 32

def f64OfInt (n : Int) : F64 := if 0 ≤ n then F64.ofNat n.toNat else -F64.ofNat n.natAbs

def f64 : Serde F64 F64 := .real F64.isFinite f64OfInt

def byte : Serde F64 UInt8 := .via (.word 8) UInt8.toNat fun n => some (UInt8.ofNat n)

def bytes : Serde F64 Bytes := byte.list

/-- Thirty-two bytes. -/
def key : Serde F64 Key :=
  bytes.via Encoding.key fun b => if b.length = 32 then Prod.fst <$> Encoding.readKey.run b else none

def nonce : Serde F64 Encoding.Nonce :=
  bytes.via Subtype.val fun b => if h : b.length = 16 then some ⟨b, h⟩ else none

def idSet : Serde F64 (OrdSet MemberId) :=
  u64.list.via (·.toList) fun l => some (Std.ExtTreeSet.ofList l compare)

/-! ### Transactions -/

def party : Serde F64 Party := .enum [
  .of "Member" u64 (fun | .member id => some id | _ => none) .member,
  .of "Key" key (fun | .key k => some k | _ => none) .key]

def paramKey : Serde F64 ParamKey := .enum [
  .unit "RiskK" (· = .riskK) .riskK,
  .unit "SealAmounts" (· = .sealAmounts) .sealAmounts,
  .unit "BondFraction" (· = .bondFraction) .bondFraction,
  .unit "StakeDecay" (· = .stakeDecay) .stakeDecay,
  .unit "SeedRate" (· = .seedRate) .seedRate,
  .unit "InsuredHorizon" (· = .insuredHorizon) .insuredHorizon]

def proposalKind : Serde F64 ProposalKind := .enum [
  .of "ParamChange" (.struct <| field "key" paramKey <| field "value" f64 .nil)
    (fun | .paramChange k value => some (k, value, ()) | _ => none)
    fun (k, value, _) => .paramChange k value,
  .of "Redenominate" (.struct <| field "num" u64 <| field "den" u64 .nil)
    (fun | .redenominate num den => some (num, den, ()) | _ => none)
    fun (num, den, _) => .redenominate num den,
  .of "Suspend" (.struct <| field "member" u64 .nil)
    (fun | .suspend member => some (member, ()) | _ => none) fun (member, _) => .suspend member,
  .of "Unsuspend" (.struct <| field "member" u64 .nil)
    (fun | .unsuspend member => some (member, ()) | _ => none) fun (member, _) => .unsuspend member,
  .of "ValidatorPower" (.struct <| field "member" u64 <| field "power" u64 .nil)
    (fun | .validatorPower member power => some (member, power, ()) | _ => none)
    fun (member, power, _) => .validatorPower member power,
  .of "SeedAmendment" (.struct <| field "amount" f64 .nil)
    (fun | .seedAmendment amount => some (amount, ()) | _ => none)
    fun (amount, _) => .seedAmendment amount]

def arbTerms : Serde F64 ArbTermsWire :=
  .via (.struct <| field "arbiters" idSet <| field "quorum" u32 <| field "window_epochs" u64 <|
      field "award_cap" f64 .nil)
    (fun t => (t.arbiters, t.quorum, t.windowEpochs, t.awardCap, ()))
    fun (arbiters, quorum, windowEpochs, awardCap, _) =>
      some { arbiters, quorum, windowEpochs, awardCap }

def tx : Serde F64 Tx := .enum [
  .of "RegisterGuardians" (.struct <| field "member" u64 <| field "guardians" u64.list <|
      field "threshold" u32 <| field "veto_window_epochs" u64 .nil)
    (fun
      | .registerGuardians member guardians threshold vetoWindowEpochs =>
        some (member, guardians, threshold, vetoWindowEpochs, ())
      | _ => none)
    fun (member, guardians, threshold, vetoWindowEpochs, _) =>
      .registerGuardians member guardians threshold vetoWindowEpochs,
  .of "RotateRequest" (.struct <| field "member" u64 <| field "new_keys" key.list .nil)
    (fun | .rotateRequest member newKeys => some (member, newKeys, ()) | _ => none)
    fun (member, newKeys, _) => .rotateRequest member newKeys,
  .of "RotateVeto" (.struct <| field "member" u64 .nil)
    (fun | .rotateVeto member => some (member, ()) | _ => none) fun (member, _) => .rotateVeto member,
  .of "RotateFinalize" (.struct <| field "member" u64 .nil)
    (fun | .rotateFinalize member => some (member, ()) | _ => none)
    fun (member, _) => .rotateFinalize member,
  .of "SetConsensusKey" (.struct <| field "member" u64 <| cons "key" key.option (some none) .nil)
    (fun | .setConsensusKey member k => some (member, k, ()) | _ => none)
    fun (member, k, _) => .setConsensusKey member k,
  .of "Exit" (.struct <| field "member" u64 .nil)
    (fun | .exit member => some (member, ()) | _ => none) fun (member, _) => .exit member,
  .of "ListBeneficiaries" (.struct <| field "supporter" u64 <| field "entries" (u64.pair f64).list .nil)
    (fun | .listBeneficiaries supporter entries => some (supporter, entries, ()) | _ => none)
    fun (supporter, entries, _) => .listBeneficiaries supporter entries,
  .of "ApproveSupporter" (.struct <| field "beneficiary" u64 <| field "supporter" u64 <|
      field "approved" .bool .nil)
    (fun
      | .approveSupporter beneficiary supporter approved => some (beneficiary, supporter, approved, ())
      | _ => none)
    fun (beneficiary, supporter, approved, _) => .approveSupporter beneficiary supporter approved,
  .of "Sale" (.struct <| field "seller" party <| field "buyer" party <| field "amount" f64 <|
      field "maturity_epochs" u64 .nil)
    (fun
      | .sale seller buyer amount maturityEpochs => some (seller, buyer, amount, maturityEpochs, ())
      | _ => none)
    fun (seller, buyer, amount, maturityEpochs, _) => .sale seller buyer amount maturityEpochs,
  .of "DeclareSupply" (.struct <| field "member" u64 <| field "supply" f64 .nil)
    (fun | .declareSupply member supply => some (member, supply, ()) | _ => none)
    fun (member, supply, _) => .declareSupply member supply,
  .of "Accept" (.struct <| field "debtor" party <| field "creditor" party <| field "amount" f64 <|
      field "maturity_epochs" u64 <| cons "arb" arbTerms.option (some none) .nil)
    (fun
      | .accept debtor creditor amount maturityEpochs arb =>
        some (debtor, creditor, amount, maturityEpochs, arb, ())
      | _ => none)
    fun (debtor, creditor, amount, maturityEpochs, arb, _) =>
      .accept debtor creditor amount maturityEpochs arb,
  .of "Transfer" (.struct <| field "contract" u64 <| field "new_debtor" u64 .nil)
    (fun | .transfer contract newDebtor => some (contract, newDebtor, ()) | _ => none)
    fun (contract, newDebtor, _) => .transfer contract newDebtor,
  .of "Settle" (.struct <| field "contract" u64 <| field "amount" f64 .nil)
    (fun | .settle contract amount => some (contract, amount, ()) | _ => none)
    fun (contract, amount, _) => .settle contract amount,
  .of "Extend" (.struct <| field "contract" u64 <| field "new_maturity_epoch" u64 .nil)
    (fun | .extend contract newMaturityEpoch => some (contract, newMaturityEpoch, ()) | _ => none)
    fun (contract, newMaturityEpoch, _) => .extend contract newMaturityEpoch,
  .of "MarkExpired" (.struct <| field "contract" u64 .nil)
    (fun | .markExpired contract => some (contract, ()) | _ => none)
    fun (contract, _) => .markExpired contract,
  .of "Cure" (.struct <| field "contract" u64 <| field "amount" f64 .nil)
    (fun | .cure contract amount => some (contract, amount, ()) | _ => none)
    fun (contract, amount, _) => .cure contract amount,
  .of "ArbAttest" (.struct <| field "contract" u64 <| field "arbiter" u64 <| field "amount" f64 .nil)
    (fun | .arbAttest contract arbiter amount => some (contract, arbiter, amount, ()) | _ => none)
    fun (contract, arbiter, amount, _) => .arbAttest contract arbiter amount,
  .of "Propose" (.struct <| field "author" u64 <| field "kind" proposalKind .nil)
    (fun | .propose author kind => some (author, kind, ()) | _ => none)
    fun (author, kind, _) => .propose author kind,
  .of "Assent" (.struct <| field "member" u64 <| field "proposal" u64 .nil)
    (fun | .assent member proposal => some (member, proposal, ()) | _ => none)
    fun (member, proposal, _) => .assent member proposal,
  .of "ForfeitBonds" (.struct <| field "member" u64 .nil)
    (fun | .forfeitBonds member => some (member, ()) | _ => none)
    fun (member, _) => .forfeitBonds member]

/-! ### Blocks -/

def signedTx : Serde F64 SignedTx :=
  .via (.struct <| field "tx" tx <| field "nonce" nonce <| field "not_after_epoch" u64 <|
      field "signers" key.list <| cons "signatures" bytes.list (some []) .nil)
    (fun t => (t.tx, t.nonce, t.notAfterEpoch, t.signers, t.signatures, ()))
    fun (tx, nonce, notAfterEpoch, signers, signatures, _) =>
      some { tx, nonce, notAfterEpoch, signers, signatures }

def block : Serde F64 Block :=
  .via (.struct <| field "height" u64 <| field "time_secs" u64 <| field "app_hash" key <|
      field "txs" signedTx.list .nil)
    (fun b => (b.height, b.timeSecs, b.appHash, b.txs, ()))
    fun (height, timeSecs, appHash, txs, _) => some { height, timeSecs, appHash, txs }

/-! ### What comes back -/

theorem u64_carries {n : Nat} (h : n < 2 ^ 64) : u64.Carries n := word_carries h

theorem u32_carries {n : Nat} (h : n < 2 ^ 32) : u32.Carries n := word_carries h

theorem f64_carriesIf (x : F64) : f64.CarriesIf x.isFinite x := real_carriesIf x

theorem byte_carries (b : UInt8) : byte.Carries b :=
  via_carriesIf (word_carries b.toNat_lt) (by rw [UInt8.ofNat_toNat]) rfl

theorem bytes_carries (l : Bytes) : bytes.Carries l := list_carries fun b _ => byte_carries b

theorem key_carries (k : Key) : key.Carries k := by
  refine via_carriesIf (bytes_carries (Encoding.key k)) ?_ rfl
  have hread := Encoding.reads_key k []
  rw [List.append_nil] at hread
  rw [if_pos (Encoding.length_key k), hread]
  rfl

theorem nonce_carries (n : Encoding.Nonce) : nonce.Carries n :=
  via_carriesIf (bytes_carries n.val) (dif_pos n.property) rfl

theorem idSet_carries {ids : OrdSet MemberId} (h : ∀ n ∈ ids.toList, n < 2 ^ 64) : idSet.Carries ids :=
  via_carriesIf (list_carries fun n hn => u64_carries (h n hn)) (by rw [Encoding.ofList_toList]) rfl

theorem party_carries {p : Party} (h : ∀ n ∈ Encoding.Party.words p, n < 2 ^ 64) : party.Carries p := by
  cases p with
  | member id =>
    exact enum_carriesIf 0 rfl rfl rfl rfl (u64_carries (h id (List.mem_singleton_self id))) rfl
  | key k => exact enum_carriesIf 1 rfl rfl rfl rfl (key_carries k) rfl

theorem paramKey_carries (k : ParamKey) : paramKey.Carries k := by cases k <;> rfl

theorem proposalKind_carriesIf {k : ProposalKind} (h : ∀ n ∈ Encoding.kindWords k, n < 2 ^ 64) :
    proposalKind.CarriesIf ((Encoding.kindAmounts k).all F64.isFinite) k := by
  cases k <;> simp only [Encoding.kindWords, List.mem_cons, List.not_mem_nil, or_false,
    forall_eq_or_imp, forall_eq] at h
  case paramChange k value =>
    exact enum_carriesIf 0 rfl rfl rfl rfl (struct_carriesIf
      (.cons (paramKey_carries k) <| .cons (f64_carriesIf value) nil_carries) rfl) rfl
  case redenominate num den =>
    exact enum_carriesIf 1 rfl rfl rfl rfl (struct_carriesIf
      (.cons (u64_carries h.1) <| .cons (u64_carries h.2) nil_carries) rfl) rfl
  case suspend member =>
    exact enum_carriesIf 2 rfl rfl rfl rfl (struct_carriesIf
      (.cons (u64_carries h) nil_carries) rfl) rfl
  case unsuspend member =>
    exact enum_carriesIf 3 rfl rfl rfl rfl (struct_carriesIf
      (.cons (u64_carries h) nil_carries) rfl) rfl
  case validatorPower member power =>
    exact enum_carriesIf 4 rfl rfl rfl rfl (struct_carriesIf
      (.cons (u64_carries h.1) <| .cons (u64_carries h.2) nil_carries) rfl) rfl
  case seedAmendment amount =>
    exact enum_carriesIf 5 rfl rfl rfl rfl (struct_carriesIf
      (.cons (f64_carriesIf amount) nil_carries) rfl) rfl

theorem arbTerms_carriesIf {t : ArbTermsWire} (hwords : ∀ n ∈ Encoding.arbWords (some t), n < 2 ^ 64)
    (hshorts : ∀ n ∈ Encoding.arbShorts (some t), n < 2 ^ 32) :
    arbTerms.CarriesIf (t.awardCap.isFinite && true) t := by
  simp only [Encoding.arbWords, Encoding.arbShorts, List.mem_cons, List.not_mem_nil, or_false,
    forall_eq_or_imp, forall_eq] at hwords hshorts
  obtain ⟨-, hwindow, harbiters⟩ := hwords
  exact via_carriesIf (struct_carriesIf
    (.cons (idSet_carries harbiters) <| .cons (u32_carries hshorts) <| .cons (u64_carries hwindow) <|
      .cons (f64_carriesIf t.awardCap) nil_carries) rfl) rfl rfl

/-- Terms that were agreed, with the award they are capped at. -/
theorem arb_carriesIf {arb : Option ArbTermsWire} (hwords : ∀ n ∈ Encoding.arbWords arb, n < 2 ^ 64)
    (hshorts : ∀ n ∈ Encoding.arbShorts arb, n < 2 ^ 32) :
    arbTerms.option.CarriesIf ((Encoding.arbAmounts arb).all F64.isFinite) arb := by
  cases arb with
  | none => rfl
  | some t =>
    have hoption := option_carriesIf (s := arbTerms) (p := fun t => t.awardCap.isFinite && true)
      (o := some t) fun t' ht' => by
        obtain rfl := Option.some.inj ht'
        exact ⟨arbTerms_carriesIf hwords hshorts, fun hnull => by cases hnull⟩
    exact hoption

theorem entries_carriesIf {entries : List (MemberId × F64)}
    (h : ∀ n ∈ entries.map Prod.fst, n < 2 ^ 64) :
    (u64.pair f64).list.CarriesIf ((entries.map Prod.snd).all F64.isFinite) entries := by
  have hlist := list_carriesIf (s := u64.pair f64) (p := fun e => e.2.isFinite) (l := entries)
    fun e he => pair_carriesIf (u64_carries (h e.1 (List.mem_map_of_mem he))) (f64_carriesIf e.2)
  rw [List.all_map]
  exact hlist

theorem keys_carries (l : List Key) : key.list.Carries l := list_carries fun k _ => key_carries k

/-- **A transaction comes back exactly if its amounts are finite.** -/
theorem tx_carriesIf {t : Tx} (h : Encoding.Within (2 ^ 64) t) :
    tx.CarriesIf ((Encoding.txAmounts t).all F64.isFinite) t := by
  obtain ⟨hw, hs⟩ := h
  -- variant by variant: every field comes back, an amount where it is finite
  cases t <;> simp only [Encoding.txWords, Encoding.txShorts, List.mem_cons, List.mem_append,
    List.not_mem_nil, or_false, forall_eq_or_imp, forall_eq] at hw hs
  case registerGuardians member guardians threshold vetoWindowEpochs =>
    obtain ⟨hmember, -, hveto, hguardians⟩ := hw
    exact enum_carriesIf 0 rfl rfl rfl rfl (struct_carriesIf
      (.cons (u64_carries hmember) <| .cons (list_carries fun n hn => u64_carries (hguardians n hn)) <|
        .cons (u32_carries hs) <| .cons (u64_carries hveto) nil_carries) rfl) rfl
  case rotateRequest member newKeys =>
    exact enum_carriesIf 1 rfl rfl rfl rfl (struct_carriesIf
      (.cons (u64_carries hw.1) <| .cons (keys_carries newKeys) nil_carries) rfl) rfl
  case rotateVeto member =>
    exact enum_carriesIf 2 rfl rfl rfl rfl (struct_carriesIf
      (.cons (u64_carries hw) nil_carries) rfl) rfl
  case rotateFinalize member =>
    exact enum_carriesIf 3 rfl rfl rfl rfl (struct_carriesIf
      (.cons (u64_carries hw) nil_carries) rfl) rfl
  case setConsensusKey member k =>
    have hkey : key.option.Carries k := by
      have := option_carriesIf (s := key) (p := fun _ => true) (o := k)
        fun k' _ => ⟨key_carries k', fun hnull => by cases hnull⟩
      cases k <;> exact this
    exact enum_carriesIf 4 rfl rfl rfl rfl (struct_carriesIf
      (.cons (u64_carries hw) <| .cons hkey nil_carries) rfl) rfl
  case exit member =>
    exact enum_carriesIf 5 rfl rfl rfl rfl (struct_carriesIf
      (.cons (u64_carries hw) nil_carries) rfl) rfl
  case listBeneficiaries supporter entries =>
    obtain ⟨hsupporter, -, hentries⟩ := hw
    exact enum_carriesIf 6 rfl rfl rfl rfl (struct_carriesIf
      (.cons (u64_carries hsupporter) <| .cons (entries_carriesIf hentries) nil_carries) rfl)
      (Bool.and_true _)
  case approveSupporter beneficiary supporter approved =>
    exact enum_carriesIf 7 rfl rfl rfl rfl (struct_carriesIf
      (.cons (u64_carries hw.1) <| .cons (u64_carries hw.2) <|
        .cons (bool_carries approved) nil_carries)
      rfl) rfl
  case sale seller buyer amount maturityEpochs =>
    obtain ⟨hmaturity, hparties⟩ := hw
    exact enum_carriesIf 8 rfl rfl rfl rfl (struct_carriesIf
      (.cons (party_carries fun n hn => hparties n (.inl hn)) <|
        .cons (party_carries fun n hn => hparties n (.inr hn)) <|
        .cons (f64_carriesIf amount) <| .cons (u64_carries hmaturity) nil_carries) rfl) rfl
  case declareSupply member supply =>
    exact enum_carriesIf 9 rfl rfl rfl rfl (struct_carriesIf
      (.cons (u64_carries hw) <| .cons (f64_carriesIf supply) nil_carries) rfl) rfl
  case accept debtor creditor amount maturityEpochs arb =>
    obtain ⟨hmaturity, hwords⟩ := hw
    refine enum_carriesIf 10 rfl rfl rfl rfl (struct_carriesIf
      (.cons (party_carries fun n hn => hwords n (.inl (.inl hn))) <|
        .cons (party_carries fun n hn => hwords n (.inl (.inr hn))) <|
        .cons (f64_carriesIf amount) <| .cons (u64_carries hmaturity) <|
        .cons (arb_carriesIf (fun n hn => hwords n (.inr hn)) hs) nil_carries) rfl) ?_
    show (_ && (_ && true)) = _
    rw [Bool.and_true]
    rfl
  case transfer contract newDebtor =>
    exact enum_carriesIf 11 rfl rfl rfl rfl (struct_carriesIf
      (.cons (u64_carries hw.1) <| .cons (u64_carries hw.2) nil_carries) rfl) rfl
  case settle contract amount =>
    exact enum_carriesIf 12 rfl rfl rfl rfl (struct_carriesIf
      (.cons (u64_carries hw) <| .cons (f64_carriesIf amount) nil_carries) rfl) rfl
  case extend contract newMaturityEpoch =>
    exact enum_carriesIf 13 rfl rfl rfl rfl (struct_carriesIf
      (.cons (u64_carries hw.1) <| .cons (u64_carries hw.2) nil_carries) rfl) rfl
  case markExpired contract =>
    exact enum_carriesIf 14 rfl rfl rfl rfl (struct_carriesIf
      (.cons (u64_carries hw) nil_carries) rfl) rfl
  case cure contract amount =>
    exact enum_carriesIf 15 rfl rfl rfl rfl (struct_carriesIf
      (.cons (u64_carries hw) <| .cons (f64_carriesIf amount) nil_carries) rfl) rfl
  case arbAttest contract arbiter amount =>
    exact enum_carriesIf 16 rfl rfl rfl rfl (struct_carriesIf
      (.cons (u64_carries hw.1) <| .cons (u64_carries hw.2) <|
        .cons (f64_carriesIf amount) nil_carries)
      rfl) rfl
  case propose author kind =>
    exact enum_carriesIf 17 rfl rfl rfl rfl (struct_carriesIf
      (.cons (u64_carries hw.1) <| .cons (proposalKind_carriesIf hw.2) nil_carries) rfl)
      (Bool.and_true _)
  case assent member proposal =>
    exact enum_carriesIf 18 rfl rfl rfl rfl (struct_carriesIf
      (.cons (u64_carries hw.1) <| .cons (u64_carries hw.2) nil_carries) rfl) rfl
  case forfeitBonds member =>
    exact enum_carriesIf 19 rfl rfl rfl rfl (struct_carriesIf
      (.cons (u64_carries hw) nil_carries) rfl) rfl

/-- Are the amounts of a transaction finite? -/
def finiteTx (t : SignedTx) : Bool := (Encoding.txAmounts t.tx).all F64.isFinite

/-- Are all amounts of a block finite? -/
def finiteBlock (b : Block) : Bool := b.txs.all finiteTx

theorem signedTx_carriesIf {t : SignedTx} (h : t.Fits) : signedTx.CarriesIf (finiteTx t) t := by
  refine via_carriesIf (struct_carriesIf
    (.cons (tx_carriesIf h.tx) <| .cons (nonce_carries t.nonce) <|
      .cons (u64_carries h.notAfterEpoch) <| .cons (keys_carries t.signers) <|
      .cons (list_carries fun b _ => bytes_carries b) nil_carries) rfl) rfl ?_
  exact Bool.and_true _

/-- **A block comes back exactly if its amounts are finite.** -/
theorem block_carriesIf {b : Block} (h : b.Fits) : block.CarriesIf (finiteBlock b) b := by
  refine via_carriesIf (struct_carriesIf
    (.cons (u64_carries h.height) <| .cons (u64_carries h.timeSecs) <| .cons (key_carries b.appHash) <|
      .cons (list_carriesIf fun t ht => signedTx_carriesIf (h.txs t ht)) nil_carries) rfl) rfl ?_
  exact Bool.and_true _

end Edet.Wire
