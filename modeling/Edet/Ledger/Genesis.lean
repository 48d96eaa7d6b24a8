import Edet.Ledger.Audit
import Edet.Library.Runs

/-!
# Genesis and runs

A chain starts from the state its genesis describes (`genesisState`) and moves by
events: a block opens (`Event.block`), or a transaction is applied in a block
(`Event.transaction`), and whether it is accepted or refused the state it leaves behind is the
next one (`Event.next`).

A founding entry is a member that may stand behind the others with a supply, and may
validate. Its keys are checked as they are seated: a key names one account, and no
consensus key is a member key.
-/

namespace Edet

/-- One founding member. -/
structure GenesisEntry where
  address : MemberId
  publicKey : Key
  consensusKey : Option Key := none
  votingPower : Nat

/-- The supply of a founding underwriter. -/
structure GenesisUnderwriter where
  address : MemberId
  supply : F64

structure Genesis where
  validators : List GenesisEntry
  underwriters : List GenesisUnderwriter := []
  chainId : String := "edet-dev"
  rootSalt : Option Key := none
  minValidators : Option Nat := none
  sealAmounts : Option F64 := none

/-- Why a genesis is turned away. -/
inductive GenesisError
  | emptyChainId
  | zeroRootSalt
  | devRootSalt
  | noRootSalt
  | strangeUnderwriter (address : MemberId)
  | badSupply (address : MemberId) (supply : F64)
  | repeatedUnderwriter (address : MemberId)
  | seedTotal (total : Nat)
  | badSealAmounts (value : F64)
  | addressOrder (expected got : MemberId)
  | sharedKey (address : MemberId)
  | noConsensusKey (address : MemberId)
  | refused (code : Code)

def isDevChain (chainId : String) : Bool := chainId == "edet-dev"

namespace Genesis

def checkRootSalt (g : Genesis) : Except GenesisError Key :=
  match g.rootSalt with
  | some salt =>
    if salt = 0 then .error .zeroRootSalt
    else if ¬isDevChain g.chainId ∧ salt = Edet.devRootSalt then .error .devRootSalt
    else .ok salt
  | none => if isDevChain g.chainId then .ok Edet.devRootSalt else .error .noRootSalt

/-- The supplies the underwriters declare, each once and each by a founding member. -/
def supplies (g : Genesis) :
    List GenesisUnderwriter → OrdMap MemberId F64 → Except GenesisError (OrdMap MemberId F64)
  | [], out => .ok out
  | uw :: rest, out =>
    if g.validators.all fun v => v.address ≠ uw.address then
      .error (.strangeUnderwriter uw.address)
    else if ¬amountRepresentable uw.supply then .error (.badSupply uw.address uw.supply)
    else if out.contains uw.address then .error (.repeatedUnderwriter uw.address)
    else supplies g rest (out.insert uw.address uw.supply)

/-- The supplies together must be an amount the ledger can name. -/
def checkSeedTotal (supplies : List F64) : Except GenesisError Unit :=
  let total := (supplies.map toMinor).sum
  if Constants.maxAmountMinor < total then .error (.seedTotal total) else .ok ()

/-- Lift a refusal of the ledger. -/
def refusal {α : Type} : Res α → Except GenesisError α
  | .ok a => .ok a
  | .error code => .error (.refused code)

/-- Name an entry's consensus key and seat it among the validators. -/
def seatValidator (entry : GenesisEntry) (s : State) : Except GenesisError State :=
  match entry.consensusKey with
  | none => if 0 < entry.votingPower then .error (.noConsensusKey entry.address) else .ok s
  | some ck =>
    if ck = entry.publicKey then .error (.sharedKey entry.address)
    else
      match refusal (s.setGenesisConsensusKey entry.address ck) with
      | .error e => .error e
      | .ok s =>
        if 0 < entry.votingPower then refusal (s.setGenesisValidator entry.address entry.votingPower)
        else .ok s

/-- Seat one founding member. -/
def seatEntry (supplies : OrdMap MemberId F64) (entry : GenesisEntry) (s : State) :
    Except GenesisError State :=
  match refusal (s.addUnderwriter [entry.publicKey]
      (OrdMap.getD' supplies entry.address (F64.zero false))) with
  | .error e => .error e
  | .ok (id, s) =>
    if id ≠ entry.address then .error (.addressOrder id entry.address)
    else seatValidator entry s

def seatEntries (supplies : OrdMap MemberId F64) :
    List GenesisEntry → State → Except GenesisError State
  | [], s => .ok s
  | entry :: rest, s =>
    match seatEntry supplies entry s with
    | .error e => .error e
    | .ok s => seatEntries supplies rest s

/-- The parameters a chain starts with. -/
def params (g : Genesis) : Params :=
  let dev := isDevChain g.chainId
  { minValidators := g.minValidators.getD
      (if dev then Constants.minValidators else Constants.minValidatorsRealChain)
    sealAmounts := g.sealAmounts.getD (if dev then F64.zero false else F64.ofNat 1) }

end Genesis

/-- The state a genesis describes. -/
def genesisState (g : Genesis) : Except GenesisError State :=
  if g.chainId = "" then .error .emptyChainId
  else
    match g.checkRootSalt with
    | .error e => .error e
    | .ok rootSalt =>
      match g.supplies g.underwriters ∅ with
      | .error e => .error e
      | .ok supplies =>
        match Genesis.checkSeedTotal supplies.vals with
        | .error e => .error e
        | .ok _ =>
          let params := g.params
          if ¬(F64.zero false ≤ params.sealAmounts ∧ params.sealAmounts ≤ F64.ofNat 1) then
            .error (.badSealAmounts params.sealAmounts)
          else
            Genesis.seatEntries supplies g.validators
              { chainId := g.chainId, rootSalt, params }

/-- A state that a genesis describes. -/
def Founding (s : State) : Prop := ∃ g, genesisState g = .ok s

/-- The state a genesis describes, for one that is not turned away. -/
def Genesis.state (g : Genesis) : State := (genesisState g).toOption.getD {}

theorem Genesis.founding_state {g : Genesis} (h : (genesisState g).toOption.isSome) :
    Founding g.state := by
  refine ⟨g, ?_⟩
  unfold Genesis.state
  cases hg : genesisState g with
  | error e => simp [hg, Except.toOption] at h
  | ok s => rfl

/-- What a genesis seats, entry by entry, keeps what each entry keeps. -/
theorem Genesis.seatEntries_keeps {I : State → Prop} {supplies : OrdMap MemberId F64}
    (hentry : ∀ entry s s', I s → Genesis.seatEntry supplies entry s = .ok s' → I s')
    {entries : List GenesisEntry} {s s' : State} (hs : I s)
    (h : Genesis.seatEntries supplies entries s = .ok s') : I s' := by
  induction entries generalizing s with
  | nil =>
    simp only [Genesis.seatEntries, Except.ok.injEq] at h
    exact h ▸ hs
  | cons entry rest ih =>
    unfold Genesis.seatEntries at h
    cases he : Genesis.seatEntry supplies entry s with
    | error e => simp [he] at h
    | ok t =>
      rw [he] at h
      exact ih (hentry _ _ _ hs he) h

/-- A founding state has what the empty state has and every entry keeps. -/
theorem genesisState_keeps {I : State → Prop} {g : Genesis} {s : State}
    (hempty : ∀ chainId rootSalt params, I { chainId, rootSalt, params })
    (hentry : ∀ supplies entry s s', I s → Genesis.seatEntry supplies entry s = .ok s' → I s')
    (h : genesisState g = .ok s) : I s := by
  unfold genesisState at h
  split at h
  · cases h
  split at h
  · cases h
  split at h
  · cases h
  split at h
  · cases h
  simp only at h
  split at h
  · cases h
  · exact Genesis.seatEntries_keeps (fun _ _ _ => hentry _ _ _ _) (hempty _ _ _) h

/-! ### Events -/

/-- What happens to a ledger. -/
inductive Event
  | block (nowSecs : Nat)
  | transaction (tx : Tx) (txId : TxId) (notAfterEpoch : Nat) (signers : List Key) (nowSecs : Nat)

section Event

variable [Libm]

/-- The state after an event, whether its transaction was accepted or refused. -/
def Event.next : Event → State → State
  | .block nowSecs, s => s.beginBlock nowSecs
  | .transaction tx txId notAfterEpoch signers nowSecs, s =>
    (Op.exec (Apply.apply tx txId notAfterEpoch signers nowSecs) s).2

end Event

/-! ### A development chain -/

/-- The key of the founder `i` of a development chain. -/
def founderKey (i : Nat) : Key := BitVec.ofNat 256 (i + 1)

/-- A development chain whose founders declare the supplies of a list, in whole units. -/
def devGenesis (supplies : List Nat) : Genesis where
  validators := (List.range supplies.length).map fun i =>
    { address := i, publicKey := founderKey i, votingPower := 0 }
  underwriters := supplies.zipIdx.map fun p => { address := p.2, supply := F64.ofNat p.1 }

/-- A library whose logarithm is a constant, for runs that table no redenomination and
so never take one. -/
def Libm.unused : Libm := ⟨fun _ => F64.zero false⟩

end Edet
