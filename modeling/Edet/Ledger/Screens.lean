import Edet.Ledger.Block

/-!
# The screens

What a node asks of a transaction before it carries it any further: whether the ids it names
have been issued (`Apply.namesIssuedIds`), whether the bond gate would let it pass
(`Bond.admits`), and whether its signers are the ones the transition asks for
(`Apply.authorises`). All three only read the state. The first two are a node's own opinion;
the third is also a rule of every block.
-/

namespace Edet

namespace Bond

/-- Would the bond gate let the transaction pass? -/
def admits (s : State) (tx : Tx) (signers : List Key) : Bool :=
  match due s tx signers with
  | .free | .allowance _ | .slot _ => true
  | .bond payer bond => decide (bond ≤ s.bondHeadroomMinor payer)
  | .seat payer bond rows =>
    isActive s payer && decide (bond ≤ s.bondHeadroomMinor payer) && s.canSeatMinor payer rows
  | .unpayable => false

end Bond

namespace Apply

/-! ### Issued ids -/

def memberIssued (s : State) (id : MemberId) : Bool := decide (id < s.nextMember)

def contractIssued (s : State) (id : ContractId) : Bool := decide (id < s.nextContract)

def proposalIssued (s : State) (id : ProposalId) : Bool := decide (id < s.nextProposal)

def partyIssued (s : State) : Party → Bool
  | .member id => memberIssued s id
  | .key _ => true

def kindIssued (s : State) : ProposalKind → Bool
  | .suspend m | .unsuspend m | .validatorPower m _ => memberIssued s m
  | _ => true

/-- Does every id a transaction names exist on the ledger yet? -/
def namesIssuedIds (s : State) : Tx → Bool
  | .registerGuardians m guardians _ _ => memberIssued s m && guardians.all (memberIssued s)
  | .rotateRequest m _ | .rotateVeto m | .rotateFinalize m | .setConsensusKey m _ | .exit m
  | .declareSupply m _ | .forfeitBonds m => memberIssued s m
  | .listBeneficiaries supporter entries =>
    memberIssued s supporter && entries.all fun e => memberIssued s e.1
  | .approveSupporter beneficiary supporter _ =>
    memberIssued s beneficiary && memberIssued s supporter
  | .sale seller buyer _ _ => partyIssued s seller && partyIssued s buyer
  | .accept debtor creditor _ _ arb =>
    partyIssued s debtor && partyIssued s creditor &&
      (arb.elim true fun a => a.arbiters.toList.all (memberIssued s))
  | .transfer c newDebtor => contractIssued s c && memberIssued s newDebtor
  | .settle c _ | .extend c _ | .markExpired c | .cure c _ => contractIssued s c
  | .arbAttest c arbiter _ => contractIssued s c && memberIssued s arbiter
  | .propose author kind => memberIssued s author && kindIssued s kind
  | .assent m p => memberIssued s m && proposalIssued s p

/-! ### The deterministic signer rule -/

section

variable (s : State) (signers : List Key)

/-- The member signed; an unknown one asks for nothing. -/
def signed (id : MemberId) : Bool :=
  match s.members[id]? with
  | none => true
  | some m => signers.any (m.hasKey ·)

/-- The party signed: the member its key belongs to, or the key itself. -/
def partySigned : Party → Bool
  | .member id => signed s signers id
  | .key k =>
    match s.memberOfKey k with
    | some id => signed s signers id
    | none => signers.contains k

/-- Who a contract is between. -/
def partiesOf (id : ContractId) : Option (MemberId × MemberId) :=
  (s.contracts[id]?).map fun c => (c.debtor, c.creditor)

/-- Enough of the guardians signed, those counted that `known` admits. -/
def guardiansSigned (known : MemberId → Bool) (cfg : GuardianConfig) : Bool :=
  decide (cfg.threshold ≤ cfg.guardians.toList.countP fun g => known g && signed s signers g)

def guardianOf (id : MemberId) : Option GuardianConfig := (s.members[id]?).bind (·.guardian)

/-- Do the signatures authorise a transition at all? -/
def authorises (tx : Tx) : Bool :=
  match tx with
  | .markExpired _ | .forfeitBonds _ | .rotateFinalize _ => true
  | .registerGuardians m _ _ _ | .rotateVeto m | .setConsensusKey m _ | .exit m
  | .declareSupply m _ | .assent m _ => signed s signers m
  | .listBeneficiaries supporter _ => signed s signers supporter
  | .approveSupporter beneficiary _ _ => signed s signers beneficiary
  | .arbAttest _ arbiter _ => signed s signers arbiter
  | .propose author _ => signed s signers author
  | .rotateRequest m _ =>
    match guardianOf s m with
    | none => true
    -- an unknown guardian counts, for an unknown member asks for nothing
    | some cfg => guardiansSigned s signers (fun _ => true) cfg
  | .accept debtor creditor _ _ _ => partySigned s signers debtor && partySigned s signers creditor
  | .sale seller buyer _ _ => partySigned s signers seller && partySigned s signers buyer
  | .extend c _ =>
    match partiesOf s c with
    | none => true
    | some (debtor, creditor) => signed s signers debtor && signed s signers creditor
  | .settle c _ | .cure c _ =>
    match partiesOf s c with
    | none => true
    | some (debtor, creditor) =>
      signed s signers debtor &&
        (signed s signers creditor ||
          (guardianOf s creditor).any (guardiansSigned s signers fun g => s.members.contains g))
  | .transfer c newDebtor =>
    match partiesOf s c with
    | none => signed s signers newDebtor
    | some (debtor, _) => signed s signers debtor && signed s signers newDebtor

end

end Apply

end Edet
