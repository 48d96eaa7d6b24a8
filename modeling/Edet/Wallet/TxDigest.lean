import Edet.Ledger.Encoding
import Edet.Wallet.Number

/-!
# The wallet's transaction encoder

A member's device computes what it signs itself, in another language and by another
program: `writeTx` walks a transaction held as an object of that language and appends
bytes to an output, refusing a number it cannot represent exactly. `TxView.of` is the
transaction as the wallet holds it, where a set is an array in any order.

`Writes o code` says that an output step appends exactly `code`; the rules compose as the
steps do, and `writes_tx` walks the twenty variants once.
-/

namespace Edet.Wallet

/-! ### The output -/

/-- Why the encoder refused. -/
inductive TxEncodeError
  | notU64 (n : Number)
  | wrongLength (expected got : Nat)
  | unknownParamKey (name : String)
  | nonceLength (got : Nat)
deriving DecidableEq

/-- A step that appends to the output, or refuses. -/
abbrev Out := StateT Bytes (Except TxEncodeError) Unit

namespace Out

def bytes (b : Bytes) : Out := modify fun out => out ++ b

/-- The low bits of a number, at a width. -/
def low (bits : Nat) (n : Number) : Nat := (n.truncate % 2 ^ bits).toNat

def u8 (n : Number) : Out := bytes [UInt8.ofNat (low 8 n)]

def u32 (n : Number) : Out := bytes (leBytes 4 (low 32 n))

def u64 (n : Number) : Out :=
  match n.safe? with
  | none => throw (.notU64 n)
  | some v => bytes (leBytes 8 v)

/-- Every value that is not a number is one value, written one way. -/
def f64 (x : F64) : Out :=
  bytes (leBytes 8 (if x.isNaN then F64.nan else x).bits.toNat)

def bool (v : Bool) : Out := u8 (.int (if v then 1 else 0))

def variant (index : Nat) : Out := u32 (.int index)

def each {α : Type} (write : α → Out) : List α → Out
  | [] => pure ()
  | x :: items => do
    write x
    each write items

def seq {α : Type} (items : List α) (write : α → Out) : Out := do
  u64 (.int items.length)
  each write items

def fixed (b : List Number) (expected : Nat) : Out :=
  if b.length ≠ expected then throw (.wrongLength expected b.length)
  else bytes (b.map fun n => UInt8.ofNat (low 8 n))

def finish (o : Out) : Except TxEncodeError Bytes := (fun r => r.2) <$> o.run []

end Out

/-! ### Transactions as the wallet holds them -/

inductive PartyView
  | Member (id : Number)
  | Key (key : List Number)

structure ArbTermsView where
  arbiters : List Number
  quorum : Number
  window_epochs : Number
  award_cap : F64

inductive KindView
  | ParamChange (key : String) (value : F64)
  | Redenominate (num den : Number)
  | Suspend (member : Number)
  | Unsuspend (member : Number)
  | ValidatorPower (member power : Number)
  | SeedAmendment (amount : F64)

inductive TxView
  | RegisterGuardians (member : Number) (guardians : List Number) (threshold : Number)
      (veto_window_epochs : Number)
  | RotateRequest (member : Number) (new_keys : List (List Number))
  | RotateVeto (member : Number)
  | RotateFinalize (member : Number)
  | SetConsensusKey (member : Number) (key : Option (List Number))
  | Exit (member : Number)
  | ListBeneficiaries (supporter : Number) (entries : List (Number × F64))
  | ApproveSupporter (beneficiary supporter : Number) (approved : Bool)
  | Sale (seller buyer : PartyView) (amount : F64) (maturity_epochs : Number)
  | DeclareSupply (member : Number) (supply : F64)
  | Accept (debtor creditor : PartyView) (amount : F64) (maturity_epochs : Number)
      (arb : Option ArbTermsView)
  | Transfer (contract new_debtor : Number)
  | Settle (contract : Number) (amount : F64)
  | Extend (contract new_maturity_epoch : Number)
  | MarkExpired (contract : Number)
  | Cure (contract : Number) (amount : F64)
  | ArbAttest (contract arbiter : Number) (amount : F64)
  | Propose (author : Number) (kind : KindView)
  | Assent (member proposal : Number)
  | ForfeitBonds (member : Number)

/-! ### The encoder -/

def party : PartyView → Out
  | .Member id => do
    Out.variant 0
    Out.u64 id
  | .Key key => do
    Out.variant 1
    Out.fixed key 32

/-- Arbiters are written in ascending order, whatever order they are held in. -/
def arbTerms : Option ArbTermsView → Out
  | none => Out.u8 (.int 0)
  | some t => do
    Out.u8 (.int 1)
    let arbiters := t.arbiters.mergeSort fun a b => a.truncate ≤ b.truncate
    Out.seq arbiters Out.u64
    Out.u32 t.quorum
    Out.u64 t.window_epochs
    Out.f64 t.award_cap

def PARAM_KEYS : List String :=
  ["RiskK", "SealAmounts", "BondFraction", "StakeDecay", "SeedRate", "InsuredHorizon"]

def proposalKind : KindView → Out
  | .ParamChange key value => do
    Out.variant 0
    match PARAM_KEYS.idxOf? key with
    | none => throw (.unknownParamKey key)
    | some index =>
      Out.variant index
      Out.f64 value
  | .Redenominate num den => do
    Out.variant 1
    Out.u64 num
    Out.u64 den
  | .Suspend member => do
    Out.variant 2
    Out.u64 member
  | .Unsuspend member => do
    Out.variant 3
    Out.u64 member
  | .ValidatorPower member power => do
    Out.variant 4
    Out.u64 member
    Out.u64 power
  | .SeedAmendment amount => do
    Out.variant 5
    Out.f64 amount

def writeTx : TxView → Out
  | .RegisterGuardians member guardians threshold veto_window_epochs => do
    Out.variant 0
    Out.u64 member
    Out.seq guardians Out.u64
    Out.u32 threshold
    Out.u64 veto_window_epochs
  | .RotateRequest member new_keys => do
    Out.variant 1
    Out.u64 member
    Out.seq new_keys fun k => Out.fixed k 32
  | .RotateVeto member => do
    Out.variant 2
    Out.u64 member
  | .RotateFinalize member => do
    Out.variant 3
    Out.u64 member
  | .SetConsensusKey member key => do
    Out.variant 4
    Out.u64 member
    match key with
    | none => Out.u8 (.int 0)
    | some key =>
      Out.u8 (.int 1)
      Out.fixed key 32
  | .Exit member => do
    Out.variant 5
    Out.u64 member
  | .ListBeneficiaries supporter entries => do
    Out.variant 6
    Out.u64 supporter
    Out.seq entries fun e => do
      Out.u64 e.1
      Out.f64 e.2
  | .ApproveSupporter beneficiary supporter approved => do
    Out.variant 7
    Out.u64 beneficiary
    Out.u64 supporter
    Out.bool approved
  | .Sale seller buyer amount maturity_epochs => do
    Out.variant 8
    party seller
    party buyer
    Out.f64 amount
    Out.u64 maturity_epochs
  | .DeclareSupply member supply => do
    Out.variant 9
    Out.u64 member
    Out.f64 supply
  | .Accept debtor creditor amount maturity_epochs arb => do
    Out.variant 10
    party debtor
    party creditor
    Out.f64 amount
    Out.u64 maturity_epochs
    arbTerms arb
  | .Transfer contract new_debtor => do
    Out.variant 11
    Out.u64 contract
    Out.u64 new_debtor
  | .Settle contract amount => do
    Out.variant 12
    Out.u64 contract
    Out.f64 amount
  | .Extend contract new_maturity_epoch => do
    Out.variant 13
    Out.u64 contract
    Out.u64 new_maturity_epoch
  | .MarkExpired contract => do
    Out.variant 14
    Out.u64 contract
  | .Cure contract amount => do
    Out.variant 15
    Out.u64 contract
    Out.f64 amount
  | .ArbAttest contract arbiter amount => do
    Out.variant 16
    Out.u64 contract
    Out.u64 arbiter
    Out.f64 amount
  | .Propose author kind => do
    Out.variant 17
    Out.u64 author
    proposalKind kind
  | .Assent member proposal => do
    Out.variant 18
    Out.u64 member
    Out.u64 proposal
  | .ForfeitBonds member => do
    Out.variant 19
    Out.u64 member

def encodeTx (tx : TxView) : Except TxEncodeError Bytes := (writeTx tx).finish

/-- The digest this device signs. -/
def txDigestLocal {D : Type} (sha256 : Bytes → D) (chainId : String) (tx : TxView)
    (nonce : List Number) (notAfterEpoch : Number) : Except TxEncodeError D :=
  if nonce.length ≠ 16 then throw (.nonceLength nonce.length)
  else
    sha256 <$> Out.finish do
      Out.bytes (Encoding.utf8 "edet-tx-v1")
      let chain := Encoding.utf8 chainId
      Out.u64 (.int chain.length)
      Out.bytes chain
      writeTx tx
      Out.fixed nonce 16
      Out.u64 notAfterEpoch

/-! ### The same transaction, on the wallet -/

def nat (n : Nat) : Number := .int n

def byteView (b : Bytes) : List Number := b.map fun x => nat x.toNat

def keyView (k : Key) : List Number := byteView (beBytes 32 k.toNat)

def PartyView.of : Party → PartyView
  | .member id => .Member (nat id)
  | .key k => .Key (keyView k)

/-- Arbitration terms as the wallet holds them, the arbiters in the given order. -/
def ArbTermsView.of (order : List MemberId) (t : ArbTermsWire) : ArbTermsView where
  arbiters := order.map nat
  quorum := nat t.quorum
  window_epochs := nat t.windowEpochs
  award_cap := t.awardCap

def paramKeyName : ParamKey → String
  | .riskK => "RiskK"
  | .sealAmounts => "SealAmounts"
  | .bondFraction => "BondFraction"
  | .stakeDecay => "StakeDecay"
  | .seedRate => "SeedRate"
  | .insuredHorizon => "InsuredHorizon"

def KindView.of : ProposalKind → KindView
  | .paramChange k value => .ParamChange (paramKeyName k) value
  | .redenominate num den => .Redenominate (nat num) (nat den)
  | .suspend member => .Suspend (nat member)
  | .unsuspend member => .Unsuspend (nat member)
  | .validatorPower member power => .ValidatorPower (nat member) (nat power)
  | .seedAmendment amount => .SeedAmendment amount

/-- A transaction as the wallet holds it, its arbiters in the given order. -/
def TxView.of (order : List MemberId) : Tx → TxView
  | .registerGuardians member guardians threshold vetoWindowEpochs =>
    .RegisterGuardians (nat member) (guardians.map nat) (nat threshold) (nat vetoWindowEpochs)
  | .rotateRequest member newKeys => .RotateRequest (nat member) (newKeys.map keyView)
  | .rotateVeto member => .RotateVeto (nat member)
  | .rotateFinalize member => .RotateFinalize (nat member)
  | .setConsensusKey member k => .SetConsensusKey (nat member) (k.map keyView)
  | .exit member => .Exit (nat member)
  | .listBeneficiaries supporter entries =>
    .ListBeneficiaries (nat supporter) (entries.map fun e => (nat e.1, e.2))
  | .approveSupporter beneficiary supporter approved =>
    .ApproveSupporter (nat beneficiary) (nat supporter) approved
  | .sale seller buyer amount maturityEpochs =>
    .Sale (.of seller) (.of buyer) amount (nat maturityEpochs)
  | .declareSupply member supply => .DeclareSupply (nat member) supply
  | .accept debtor creditor amount maturityEpochs arb =>
    .Accept (.of debtor) (.of creditor) amount (nat maturityEpochs) (arb.map (.of order))
  | .transfer contract newDebtor => .Transfer (nat contract) (nat newDebtor)
  | .settle contract amount => .Settle (nat contract) amount
  | .extend contract newMaturityEpoch => .Extend (nat contract) (nat newMaturityEpoch)
  | .markExpired contract => .MarkExpired (nat contract)
  | .cure contract amount => .Cure (nat contract) amount
  | .arbAttest contract arbiter amount => .ArbAttest (nat contract) (nat arbiter) amount
  | .propose author kind => .Propose (nat author) (.of kind)
  | .assent member proposal => .Assent (nat member) (nat proposal)
  | .forfeitBonds member => .ForfeitBonds (nat member)

/-- The set of arbiters a transaction names. -/
def arbiters : Tx → List MemberId
  | .accept _ _ _ _ (some t) => t.arbiters.toList
  | _ => []

/-! ### What the steps append -/

/-- The step appends exactly `code`. -/
def Writes (o : Out) (code : Bytes) : Prop := ∀ out, o.run out = .ok ((), out ++ code)

namespace Writes

variable {o o' : Out} {code code' : Bytes}

theorem then_ (h : Writes o code) (h' : Writes o' code') :
    Writes (do o; o') (code ++ code') := by
  intro out
  rw [StateT.run_bind, h]
  show o'.run (out ++ code) = _
  rw [h', List.append_assoc]

theorem bytes (b : Bytes) : Writes (Out.bytes b) b := fun _ => rfl

theorem u64 {n : Nat} (h : n < 2 ^ 53) : Writes (Out.u64 (nat n)) (Encoding.u64 n) := by
  rw [Out.u64, nat, Number.safe?_int h]
  exact bytes _

theorem low_nat {bits n : Nat} (h : n < 2 ^ bits) : Out.low bits (nat n) = n := by
  have hmod : ((n : Int) % 2 ^ bits).toNat = n % 2 ^ bits := by
    rw [show (2 : Int) ^ bits = ((2 ^ bits : Nat) : Int) by push_cast; rfl, ← Int.natCast_emod,
      Int.toNat_natCast]
  rw [Out.low, nat, Number.truncate, hmod, Nat.mod_eq_of_lt h]

theorem u32 {n : Nat} (h : n < 2 ^ 32) : Writes (Out.u32 (nat n)) (Encoding.u32 n) := by
  rw [Out.u32, low_nat h]
  exact bytes _

theorem variant {n : Nat} (h : n < 2 ^ 32) : Writes (Out.variant n) (Encoding.variant n) :=
  u32 h

theorem f64 {x : F64} (h : x.isNaN = false) : Writes (Out.f64 x) (Encoding.f64 x) := by
  rw [Out.f64, h, if_neg Bool.false_ne_true]
  exact bytes _

theorem bool (b : Bool) : Writes (Out.bool b) (Encoding.bool b) := by
  cases b <;> exact bytes _

theorem fixed {b : Bytes} {n : Nat} (h : b.length = n) : Writes (Out.fixed (byteView b) n) b := by
  have hview : (byteView b).length = n := by rw [byteView, List.length_map, h]
  have hback : ((byteView b).map fun x => UInt8.ofNat (Out.low 8 x)) = b := by
    rw [byteView, List.map_map]
    refine List.map_id'' (fun x => ?_) b
    show UInt8.ofNat (Out.low 8 (nat x.toNat)) = x
    rw [low_nat x.toNat_lt, UInt8.ofNat_toNat]
  rw [Out.fixed, if_neg (not_not.2 hview), hback]
  exact bytes b

theorem key (k : Key) : Writes (Out.fixed (keyView k) 32) (Encoding.key k) :=
  fixed (length_beBytes 32 _)

theorem each {α β : Type} {write : α → Out} {enc : β → Bytes} {view : β → α} {l : List β}
    (h : ∀ b ∈ l, Writes (write (view b)) (enc b)) :
    Writes (Out.each write (l.map view)) (l.flatMap enc) := by
  induction l with
  | nil =>
    intro out
    show Except.ok ((), out) = _
    rw [List.flatMap_nil, List.append_nil]
  | cons b l ih =>
    exact (h b List.mem_cons_self).then_ (ih fun b' hb => h b' (List.mem_cons_of_mem b hb))

theorem seq {α β : Type} {write : α → Out} {enc : β → Bytes} {view : β → α} {l : List β}
    (hlen : l.length < 2 ^ 53) (h : ∀ b ∈ l, Writes (write (view b)) (enc b)) :
    Writes (Out.seq (l.map view) write) (Encoding.seq enc l) := by
  rw [Out.seq, List.length_map]
  exact (u64 hlen).then_ (each h)

theorem finish (h : Writes o code) : o.finish = .ok code := by
  rw [Out.finish, h]
  rfl

end Writes

/-! ### The wallet writes the ledger's encoding -/

theorem writes_party {p : Party} (h : ∀ n ∈ Encoding.Party.words p, n < 2 ^ 53) :
    Writes (party (.of p)) (Encoding.party p) := by
  cases p with
  | member id =>
    simp only [Encoding.party, List.flatten_cons, List.flatten_nil, List.append_nil]
    exact (Writes.variant (by norm_num)).then_
      (Writes.u64 (h id (by simp [Encoding.Party.words])))
  | key k =>
    simp only [Encoding.party, List.flatten_cons, List.flatten_nil, List.append_nil]
    exact (Writes.variant (by norm_num)).then_ (Writes.key k)

/-- Sorting the wallet's arbiters gives the set's own order. -/
theorem mergeSort_arbiters {set : OrdSet MemberId} {order : List MemberId}
    (h : order.Perm set.toList) :
    ((order.map nat).mergeSort fun a b => a.truncate ≤ b.truncate) = set.toList.map nat := by
  rw [← List.map_mergeSort (r := fun a b => decide (a ≤ b))]
  · congr 1
    have hsorted : set.toList.Pairwise fun a b => decide (a ≤ b) = true :=
      (Std.ExtTreeSet.ordered_toList (t := set)).imp fun {a b} hab => by
        rw [decide_eq_true_iff]
        exact le_of_lt (Nat.compare_eq_lt.1 hab)
    refine List.Perm.eq_of_pairwise (fun a b _ _ hab hba => ?_)
      (List.pairwise_mergeSort (fun a b c hab hbc => ?_) (fun a b => ?_) order) hsorted
      ((List.mergeSort_perm _ _).trans h)
    · rw [decide_eq_true_iff] at hab hba
      omega
    · rw [decide_eq_true_iff] at hab hbc ⊢
      omega
    · rw [Bool.or_eq_true, decide_eq_true_iff, decide_eq_true_iff]
      omega
  · intro a _ b _
    simp [nat, Number.truncate]

theorem writes_arbTerms {t : ArbTermsWire} {order : List MemberId}
    (horder : order.Perm t.arbiters.toList) (hw : ∀ n ∈ Encoding.arbWords (some t), n < 2 ^ 53)
    (hs : ∀ n ∈ Encoding.arbShorts (some t), n < 2 ^ 32)
    (ha : ∀ x ∈ Encoding.arbAmounts (some t), x.isNaN = false) :
    Writes (arbTerms (some (.of order t))) (1 :: Encoding.arbTerms t) := by
  simp only [Encoding.arbWords, Encoding.arbShorts, Encoding.arbAmounts, List.mem_cons,
    List.not_mem_nil, or_false, forall_eq_or_imp, forall_eq] at hw hs ha
  obtain ⟨hlen, hwindow, harbiters⟩ := hw
  simp only [arbTerms, ArbTermsView.of, mergeSort_arbiters horder, Encoding.arbTerms, List.flatten_cons,
    List.flatten_nil, List.append_nil]
  exact (Writes.bytes [1]).then_ <|
    (Writes.seq hlen fun n hn => Writes.u64 (harbiters n hn)).then_ <|
    (Writes.u32 hs).then_ <| (Writes.u64 hwindow).then_ <| Writes.f64 ha

theorem idxOf?_paramKeyName (k : ParamKey) :
    PARAM_KEYS.idxOf? (paramKeyName k) = some (Encoding.paramKeyIndex k) := by
  cases k <;> decide

theorem writes_kind {k : ProposalKind} (hw : ∀ n ∈ Encoding.kindWords k, n < 2 ^ 53)
    (ha : ∀ x ∈ Encoding.kindAmounts k, x.isNaN = false) :
    Writes (proposalKind (.of k)) (Encoding.proposalKind k) := by
  cases k <;>
    simp only [Encoding.kindWords, Encoding.kindAmounts, List.mem_cons, List.not_mem_nil,
      or_false, forall_eq_or_imp, forall_eq] at hw ha <;>
    simp only [Encoding.proposalKind, List.flatten_cons, List.flatten_nil, List.append_nil] <;>
    refine (Writes.variant (by norm_num)).then_ ?_
  case paramChange k value =>
    simp only [idxOf?_paramKeyName]
    have hindex : Encoding.paramKeyIndex k < 2 ^ 32 := by cases k <;> decide
    exact (Writes.variant hindex).then_ (Writes.f64 ha)
  case redenominate num den => exact (Writes.u64 hw.1).then_ (Writes.u64 hw.2)
  case suspend member => exact Writes.u64 hw
  case unsuspend member => exact Writes.u64 hw
  case validatorPower member power => exact (Writes.u64 hw.1).then_ (Writes.u64 hw.2)
  case seedAmendment amount => exact Writes.f64 ha

/-- **Variant by variant, the wallet writes the ledger's bytes.** -/
theorem writes_tx {tx : Tx} {order : List MemberId} (hwithin : Encoding.Within (2 ^ 53) tx)
    (hamounts : ∀ x ∈ Encoding.txAmounts tx, x.isNaN = false) (horder : order.Perm (arbiters tx)) :
    Writes (writeTx (.of order tx)) (Encoding.encodeTx tx) := by
  obtain ⟨hw, hs⟩ := hwithin
  cases tx <;>
    simp only [Encoding.txWords, Encoding.txAmounts, List.mem_cons, List.not_mem_nil, or_false,
      forall_eq_or_imp, forall_eq] at hw hamounts <;>
    simp only [Encoding.encodeTx, List.flatten_cons, List.flatten_nil, List.append_nil] <;>
    refine (Writes.variant (by norm_num)).then_ ?_
  case registerGuardians member guardians threshold vetoWindowEpochs =>
    obtain ⟨hmember, hlen, hveto, hguardians⟩ := hw
    exact (Writes.u64 hmember).then_ <|
      (Writes.seq hlen fun n hn => Writes.u64 (hguardians n hn)).then_ <|
      (Writes.u32 (hs _ (by simp [Encoding.txShorts]))).then_ <| Writes.u64 hveto
  case rotateRequest member newKeys =>
    exact (Writes.u64 hw.1).then_ (Writes.seq hw.2 fun k _ => Writes.key k)
  case rotateVeto member => exact Writes.u64 hw
  case rotateFinalize member => exact Writes.u64 hw
  case setConsensusKey member k =>
    refine (Writes.u64 hw).then_ ?_
    cases k with
    | none => exact Writes.bytes [0]
    | some k => exact (Writes.bytes [1]).then_ (Writes.key k)
  case exit member => exact Writes.u64 hw
  case listBeneficiaries supporter entries =>
    obtain ⟨hsupporter, hlen, hids⟩ := hw
    refine (Writes.u64 hsupporter).then_ <| Writes.seq hlen fun e he => ?_
    exact (Writes.u64 (hids e.1 (List.mem_map_of_mem he))).then_
      (Writes.f64 (hamounts e.2 (List.mem_map_of_mem he)))
  case approveSupporter beneficiary supporter approved =>
    exact (Writes.u64 hw.1).then_ <| (Writes.u64 hw.2).then_ <| Writes.bool approved
  case sale seller buyer amount maturityEpochs =>
    simp only [List.mem_append] at hw
    exact (writes_party fun n hn => hw.2 n (.inl hn)).then_ <|
      (writes_party fun n hn => hw.2 n (.inr hn)).then_ <| (Writes.f64 hamounts).then_ <|
      Writes.u64 hw.1
  case declareSupply member supply => exact (Writes.u64 hw).then_ (Writes.f64 hamounts)
  case accept debtor creditor amount maturityEpochs arb =>
    simp only [List.mem_append] at hw
    refine (writes_party fun n hn => hw.2 n (.inl (.inl hn))).then_ <|
      (writes_party fun n hn => hw.2 n (.inl (.inr hn))).then_ <|
      (Writes.f64 hamounts.1).then_ <| (Writes.u64 hw.1).then_ ?_
    cases arb with
    | none => exact Writes.bytes [0]
    | some t => exact writes_arbTerms horder (fun n hn => hw.2 n (.inr hn)) hs hamounts.2
  case transfer contract newDebtor => exact (Writes.u64 hw.1).then_ (Writes.u64 hw.2)
  case settle contract amount => exact (Writes.u64 hw).then_ (Writes.f64 hamounts)
  case extend contract newMaturityEpoch => exact (Writes.u64 hw.1).then_ (Writes.u64 hw.2)
  case markExpired contract => exact Writes.u64 hw
  case cure contract amount => exact (Writes.u64 hw).then_ (Writes.f64 hamounts)
  case arbAttest contract arbiter amount =>
    exact (Writes.u64 hw.1).then_ <| (Writes.u64 hw.2).then_ <| Writes.f64 hamounts
  case propose author kind => exact (Writes.u64 hw.1).then_ (writes_kind hw.2 hamounts)
  case assent member proposal => exact (Writes.u64 hw.1).then_ (Writes.u64 hw.2)
  case forfeitBonds member => exact Writes.u64 hw

/-! ### The digest -/

theorem txDigestLocal_of {D : Type} (sha256 : Bytes → D) {chain : String} {tx : Tx}
    {order : List MemberId} {nonce : Encoding.Nonce} {epoch : Nat}
    (hwithin : Encoding.Within (2 ^ 53) tx)
    (hamounts : ∀ x ∈ Encoding.txAmounts tx, x.isNaN = false) (horder : order.Perm (arbiters tx))
    (hchain : (Encoding.utf8 chain).length < 2 ^ 53) (hepoch : epoch < 2 ^ 53) :
    txDigestLocal sha256 chain (.of order tx) (byteView nonce.val) (nat epoch) =
      .ok (Encoding.txDigest sha256 chain tx nonce epoch) := by
  have hnonce : ¬ (byteView nonce.val).length ≠ 16 := by
    rw [byteView, List.length_map, nonce.property]
    exact not_not.2 rfl
  have hpreimage := (Writes.bytes (Encoding.utf8 "edet-tx-v1")).then_ <|
    (Writes.u64 hchain).then_ <| (Writes.bytes (Encoding.utf8 chain)).then_ <|
    (writes_tx hwithin hamounts horder).then_ <| (Writes.fixed nonce.property).then_ <|
    Writes.u64 hepoch
  rw [txDigestLocal, if_neg hnonce]
  simp only [show Number.int (Encoding.utf8 chain).length = nat (Encoding.utf8 chain).length
    from rfl, hpreimage.finish]
  show Except.ok _ = _
  simp only [Encoding.txDigest, Encoding.txPreimage, Encoding.txDomain, List.flatten_cons,
    List.flatten_nil, List.append_nil]

/-- **The wallet signs what the ledger executes.** The wallet's encoding of a transaction
is the ledger's and so is the digest it signs, in whatever order it holds a set; and the
signed preimage is injective over chain, transaction, nonce and last epoch. -/
theorem wallet_signs_what_ledger_executes {D : Type} (sha256 : Bytes → D) :
    (∀ (chain : String) (tx : Tx) (order : List MemberId) (nonce : Encoding.Nonce) (epoch : Nat),
      Encoding.Within (2 ^ 53) tx → (∀ x ∈ Encoding.txAmounts tx, x.isNaN = false) →
      order.Perm (arbiters tx) → (Encoding.utf8 chain).length < 2 ^ 53 → epoch < 2 ^ 53 →
        encodeTx (.of order tx) = .ok (Encoding.encodeTx tx) ∧
          txDigestLocal sha256 chain (.of order tx) (byteView nonce.val) (nat epoch) =
            .ok (Encoding.txDigest sha256 chain tx nonce epoch)) ∧
    (∀ (chain chain' : String) (tx tx' : Tx) (nonce nonce' : Encoding.Nonce) (epoch epoch' : Nat),
      Encoding.Within (2 ^ 53) tx → Encoding.Within (2 ^ 53) tx' →
      (Encoding.utf8 chain).length < 2 ^ 53 → (Encoding.utf8 chain').length < 2 ^ 53 →
      epoch < 2 ^ 53 → epoch' < 2 ^ 53 →
      Encoding.txPreimage chain tx nonce epoch = Encoding.txPreimage chain' tx' nonce' epoch' →
        chain = chain' ∧ tx = tx' ∧ nonce = nonce' ∧ epoch = epoch') := by
  constructor
  · intro chain tx order nonce epoch hwithin hamounts horder hchain hepoch
    exact ⟨(writes_tx hwithin hamounts horder).finish,
      txDigestLocal_of sha256 hwithin hamounts horder hchain hepoch⟩
  · intro chain chain' tx tx' nonce nonce' epoch epoch' htx htx' hchain hchain' hepoch hepoch' h
    exact Encoding.txPreimage_inj (by omega) (by omega) (htx.mono (by norm_num))
      (htx'.mono (by norm_num)) (by omega) (by omega) h

/-- An obligation between a member and a newcomer's key, with two arbiters. -/
def acceptTx : Tx :=
  .accept (.member 1) (.key 5) (F64.ofNat 12) 30
    (some { arbiters := Std.ExtTreeSet.ofList [3, 7] compare, quorum := 2, windowEpochs := 60,
            awardCap := F64.ofNat 8 })

/-- The wallet holds the arbiters of `acceptTx` the other way round. -/
theorem wallet_signs_accept :
    encodeTx (.of [7, 3] acceptTx) = .ok (Encoding.encodeTx acceptTx) ∧
      txDigestLocal id "edet-dev" (.of [7, 3] acceptTx)
          (byteView (List.replicate 16 0)) (nat 40) =
        .ok (Encoding.txDigest id "edet-dev" acceptTx ⟨List.replicate 16 0, rfl⟩ 40) :=
  (wallet_signs_what_ledger_executes id).1 "edet-dev" acceptTx [7, 3] ⟨List.replicate 16 0, rfl⟩
    40 ⟨by decide +kernel, by decide +kernel⟩ (by decide +kernel) (by decide +kernel)
    (by decide +kernel) (by decide +kernel)

end Edet.Wallet
