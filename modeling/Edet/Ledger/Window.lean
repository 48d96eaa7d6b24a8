import Edet.Ledger.Frames
import Edet.Ledger.Genesis

/-!
# The window of applied transactions

The ledger remembers the ids it has applied in buckets, one for each epoch an envelope may
still name. In every state reached (`inWindow_of_reaches`) the buckets lie in the window
`[epoch, epoch + maxTxLifetimeEpochs]`: an id is recorded only after its envelope was found
admissible, and an epoch that passes drops the buckets it leaves behind.

No transition itself touches the epoch or the buckets (`Steady`, `steady_dispatch`); only
the opening of a block and the frame around a transition do. Most leave the validators and
the parameters alone as well (`Routine`, `routine_dispatch`).
-/

namespace Edet

open Edet.Flow

/-- Every bucket of applied ids lies in the window that opens at this epoch. -/
def State.InWindow (s : State) : Prop :=
  ∀ (e : Nat) (ids : OrdSet TxId), s.appliedByExpiry[e]? = some ids →
    s.epoch ≤ e ∧ e ≤ horizon s.epoch Constants.maxTxLifetimeEpochs

/-- Neither the epoch nor a bucket of applied ids has changed. -/
structure Steady (s s' : State) : Prop where
  epoch : s'.epoch = s.epoch
  applied : s'.appliedByExpiry = s.appliedByExpiry

instance : Std.Refl Steady := ⟨fun _ => ⟨rfl, rfl⟩⟩

instance : IsTrans State Steady :=
  ⟨fun _ _ _ h h' => ⟨h'.epoch.trans h.epoch, h'.applied.trans h.applied⟩⟩

namespace Steady

theorem inWindow {s s' : State} (h : Steady s s') (hs : s.InWindow) : s'.InWindow := by
  intro e ids he
  rw [h.applied] at he
  rw [h.epoch]
  exact hs e ids he

theorem of_offBooks {s s' : State} (h : OffBooks s s') : Steady s s' := by
  have hepoch : s'.offBooks.epoch = s.offBooks.epoch := by rw [h]
  have happlied : s'.offBooks.appliedByExpiry = s.offBooks.appliedByExpiry := by rw [h]
  exact ⟨hepoch, happlied⟩

end Steady

/-- Nor have the validators and the parameters. -/
structure Routine (s s' : State) : Prop where
  epoch : s'.epoch = s.epoch
  applied : s'.appliedByExpiry = s.appliedByExpiry
  validators : s'.validators = s.validators
  params : s'.params = s.params

instance : Std.Refl Routine := ⟨fun _ => ⟨rfl, rfl, rfl, rfl⟩⟩

instance : IsTrans State Routine :=
  ⟨fun _ _ _ h h' => ⟨h'.epoch.trans h.epoch, h'.applied.trans h.applied,
    h'.validators.trans h.validators, h'.params.trans h.params⟩⟩

namespace Routine

theorem steady {s s' : State} (h : Routine s s') : Steady s s' := ⟨h.epoch, h.applied⟩

theorem of_offBooks {s s' : State} (h : OffBooks s s') : Routine s s' := by
  have hepoch : s'.offBooks.epoch = s.offBooks.epoch := by rw [h]
  have happlied : s'.offBooks.appliedByExpiry = s.offBooks.appliedByExpiry := by rw [h]
  have hvalidators : s'.offBooks.validators = s.offBooks.validators := by rw [h]
  have hparams : s'.offBooks.params = s.offBooks.params := by rw [h]
  exact ⟨hepoch, happlied, hvalidators, hparams⟩

theorem foldl {β : Type} {f : State → β → State} (l : List β) (s : State)
    (h : ∀ s x, Routine s (f s x)) : Routine s (l.foldl f s) := Op.Moves.foldl h l s

end Routine

/-- Everything but the rows is the same. -/
def RowsAlone (s s' : State) : Prop := { s' with members := s.members } = s

instance : Std.Refl RowsAlone := ⟨fun _ => rfl⟩

instance : IsTrans State RowsAlone := by
  refine ⟨fun s s' s'' h h' => ?_⟩
  have heq : { s'' with members := s.members } =
      { { s'' with members := s'.members } with members := s.members } := rfl
  unfold RowsAlone
  rw [heq, h']
  exact h

namespace RowsAlone

variable {s s' : State}

theorem contracts (h : RowsAlone s s') : s'.contracts = s.contracts := by
  have heq : ({ s' with members := s.members } : State).contracts = s.contracts := by rw [h]
  exact heq

theorem keyIndex (h : RowsAlone s s') : s'.keyIndex = s.keyIndex := by
  have heq : ({ s' with members := s.members } : State).keyIndex = s.keyIndex := by rw [h]
  exact heq

theorem edges (h : RowsAlone s s') : s'.edges = s.edges := by
  have heq : ({ s' with members := s.members } : State).edges = s.edges := by rw [h]
  exact heq

theorem underwriters (h : RowsAlone s s') : s'.underwriters = s.underwriters := by
  have heq : ({ s' with members := s.members } : State).underwriters = s.underwriters := by rw [h]
  exact heq

end RowsAlone

namespace Apply

/-- A transition that leaves the epoch and the applied ids alone. -/
abbrev KeepsWindow {α : Type} (op : Tr α) : Prop := Op.Moves Steady op

/-- A transition that leaves the validators and the parameters alone as well. -/
abbrev KeepsRoutine {α : Type} (op : Tr α) : Prop := Op.Moves Routine op

theorem KeepsRoutine.keepsWindow {α : Type} {op : Tr α} (h : KeepsRoutine op) : KeepsWindow op :=
  fun s => (h s).steady

theorem KeepsRoutine.of_bookkeeping {α : Type} {op : Tr α} (h : Bookkeeping op) :
    KeepsRoutine op :=
  fun s => .of_offBooks (h s)

theorem routine_memberMut (id : MemberId) (f : Member → Member) : KeepsRoutine (memberMut id f) := by
  unfold memberMut
  exact .bind (.check _) fun _ => .write fun _ => ⟨rfl, rfl, rfl, rfl⟩

/-! ### Parties and their seats -/

theorem routine_seatPair (first second : Resolved) (sponsor : Option MemberId) :
    KeepsRoutine (seatPair first second sponsor) :=
  moves_seatPair (fun _ _ _ => ⟨rfl, rfl, rfl, rfl⟩) (fun _ _ => ⟨rfl, rfl, rfl, rfl⟩)
    (fun _ _ _ => ⟨rfl, rfl, rfl, rfl⟩) _ _ _

theorem routine_accept (debtor creditor : Party) (amount : F64) (maturityEpochs : Nat)
    (arb : Option ArbTermsWire) (signers : List Key) (sponsor : Option MemberId) :
    KeepsRoutine (accept debtor creditor amount maturityEpochs arb signers sponsor) := by
  unfold accept
  refine .bind (quiet_acceptTerms _ _ _ _ _ _).moves fun _ =>
    .bind (routine_seatPair _ _ _) fun _ => ?_
  exact .bind (KeepsRoutine.of_bookkeeping (bookkeeping_book _ _ _ _ _)) fun _ => .pure _

theorem routine_sale (seller buyer : Party) (amount : F64) (maturityEpochs : Nat)
    (signers : List Key) (sponsor : Option MemberId) :
    KeepsRoutine (Cascade.sale seller buyer amount maturityEpochs signers sponsor) := by
  unfold Cascade.sale
  refine .bind (quiet_saleTerms _ _ _ _ _).moves fun _ =>
    .bind (routine_seatPair _ _ _) fun _ =>
    .bind (KeepsRoutine.of_bookkeeping (bookkeeping_netMutual _ _ _)) fun _ =>
    .ite (fun _ => .pure _) fun _ => .bind (.ask _) fun _ => ?_
  exact KeepsRoutine.of_bookkeeping (Cascade.bookkeeping_originate _ _ _ _)

/-! ### Keys, listings and supplies -/

/-- A relation that admits what a transition writes to rows and keys. -/
structure FramesKeys (R : State → State → Prop) : Prop where
  row : ∀ (s : State) id f, R s (s.modMember id f)
  keyIndex : ∀ (s : State) x, R s { s with keyIndex := x }

/-- A relation that admits what a transition writes to rows, keys and supplies. -/
structure FramesFields (R : State → State → Prop) : Prop where
  row : ∀ (s : State) id f, R s (s.modMember id f)
  keyIndex : ∀ (s : State) x, R s { s with keyIndex := x }
  underwriters : ∀ (s : State) x, R s { s with underwriters := x }

/-- A relation that admits what a transition writes that moves no obligation, forfeits nothing
and carries no proposal out. -/
structure FramesRows (R : State → State → Prop) : Prop where
  row : ∀ (s : State) id f, R s (s.modMember id f)
  keyIndex : ∀ (s : State) x, R s { s with keyIndex := x }
  underwriters : ∀ (s : State) x, R s { s with underwriters := x }
  tabled : ∀ (s : State) x n, R s { s with proposals := x, nextProposal := n }

/-- A relation that admits whatever a transition other than an obligation's or a proposal's
may write. -/
structure FramesWrites (R : State → State → Prop) : Prop where
  row : ∀ (s : State) id f, R s (s.modMember id f)
  keyIndex : ∀ (s : State) x, R s { s with keyIndex := x }
  underwriters : ∀ (s : State) x, R s { s with underwriters := x }
  forfeited : ∀ (s : State) x, R s { s with forfeitReserve := x }
  tabled : ∀ (s : State) x n, R s { s with proposals := x, nextProposal := n }

section Frames

variable {R : State → State → Prop} [Std.Refl R] [IsTrans State R]

omit [Std.Refl R] [IsTrans State R] in
theorem FramesWrites.rows (h : FramesWrites R) : FramesRows R :=
  ⟨h.row, h.keyIndex, h.underwriters, h.tabled⟩

instance : Coe (FramesWrites R) (FramesRows R) := ⟨FramesWrites.rows⟩

omit [Std.Refl R] [IsTrans State R] in
theorem FramesRows.fields (h : FramesRows R) : FramesFields R := ⟨h.row, h.keyIndex, h.underwriters⟩

instance : Coe (FramesRows R) (FramesFields R) := ⟨FramesRows.fields⟩

omit [Std.Refl R] [IsTrans State R] in
theorem FramesFields.keys (h : FramesFields R) : FramesKeys R := ⟨h.row, h.keyIndex⟩

instance : Coe (FramesFields R) (FramesKeys R) := ⟨FramesFields.keys⟩

theorem FramesKeys.memberMut (h : FramesKeys R) (id : MemberId) (f : Member → Member) :
    Op.Moves R (memberMut id f) := by
  unfold Apply.memberMut
  exact .bind (.check _) fun _ => .write fun s => h.row s id f

theorem FramesRows.memberMut (h : FramesRows R) (id : MemberId) (f : Member → Member) :
    Op.Moves R (memberMut id f) := h.fields.keys.memberMut id f

theorem moves_registerGuardians (h : FramesKeys R) (id : MemberId) (guardians : List MemberId)
    (threshold vetoWindowEpochs : Nat) (signers : List Key) :
    Op.Moves R (registerGuardians id guardians threshold vetoWindowEpochs signers) := by
  unfold registerGuardians
  refine .bind (.check _) fun _ => .bind (.refuseIf _ _) fun _ => .bind (.refuseIf _ _) fun _ =>
    .bind (.forM fun g _ => ?_) fun _ => h.memberMut _ _
  exact .bind (.check _) fun _ => .refuseIf _ _

theorem moves_rotateRequest (h : FramesKeys R) (id : MemberId) (newKeys : List Key) (signers : List Key) :
    Op.Moves R (rotateRequest id newKeys signers) := by
  unfold rotateRequest
  refine .bind (.check _) fun m => ?_
  cases m.guardian with
  | none => exact .refuse _
  | some cfg =>
    exact .bind (.refuseIf _ _) fun _ => .bind (.ask _) fun _ => .bind (.refuseIf _ _) fun _ =>
      .bind (.ask _) fun _ => .bind (.refuseIf _ _) fun _ => .bind (.ask _) fun _ =>
      h.memberMut _ _

theorem moves_rotateVeto (h : FramesKeys R) (id : MemberId) (signers : List Key) :
    Op.Moves R (rotateVeto id signers) := by
  unfold rotateVeto
  exact .bind (.check _) fun _ => .bind (.check _) fun _ => .bind (.refuseIf _ _) fun _ =>
    h.memberMut _ _

theorem moves_rotateFinalize (h : FramesKeys R) (id : MemberId) : Op.Moves R (rotateFinalize id) := by
  unfold rotateFinalize
  refine .bind (.check _) fun m => ?_
  cases m.guardian with
  | none => exact .refuse _
  | some cfg =>
    cases m.pendingRotation with
    | none => exact .refuse _
    | some p =>
      exact .bind (.ask _) fun _ => .bind (.refuseIf _ _) fun _ =>
        .bind (.write fun s => h.keyIndex s _) fun _ => h.memberMut _ _

theorem moves_setConsensusKey (h : FramesKeys R) (id : MemberId) (key : Option Key) (signers : List Key) :
    Op.Moves R (setConsensusKey id key signers) := by
  unfold setConsensusKey
  refine .bind (.check _) fun _ => .bind (.check _) fun _ => ?_
  cases key with
  | some k =>
    exact .bind (.ask _) fun _ => .bind (.refuseIf _ _) fun _ => .bind (.ask _) fun _ =>
      .bind (.refuseIf _ _) fun _ => h.memberMut _ _
  | none =>
    exact .bind (.ask _) fun _ => .bind (.refuseIf _ _) fun _ => h.memberMut _ _

theorem moves_declareSupply (h : FramesFields R) (id : MemberId) (supply : F64) (signers : List Key) :
    Op.Moves R (declareSupply id supply signers) := by
  unfold declareSupply
  refine .bind (.check _) fun _ => .bind (.check _) fun _ => .bind (.refuseIf _ _) fun _ =>
    .bind (.refuseIf _ _) fun _ => .bind (.ask _) fun _ => .bind (.refuseIf _ _) fun _ =>
    .bind (.ask _) fun _ => .bind (.refuseIf _ _) fun _ => ?_
  exact .write fun s => h.underwriters s _

theorem moves_listBeneficiaries (h : FramesKeys R) (supporter : MemberId) (entries : List (MemberId × F64))
    (signers : List Key) : Op.Moves R (listBeneficiaries supporter entries signers) := by
  unfold listBeneficiaries
  refine .bind (.check _) fun _ => .bind (.check _) fun _ => .bind (.refuseIf _ _) fun _ => ?_
  refine .bind (.forM fun e _ => .bind (.refuseIf _ _) fun _ => .bind (.check _) fun _ => .pure _)
    fun _ => .bind (.check _) fun self => .bind (.write fun s => ?_) fun _ => ?_
  · refine Op.Moves.foldl (fun s b => ?_) _ s
    split
    · exact Std.Refl.refl s
    · exact h.row s b _
  · refine .bind (.forM fun e _ => .ite (fun _ => ?_) fun _ => .pure _) fun _ => ?_
    · exact h.memberMut _ _
    · exact h.memberMut _ _

theorem moves_approveSupporter (h : FramesKeys R) (beneficiary supporter : MemberId) (approved : Bool)
    (signers : List Key) :
    Op.Moves R (approveSupporter beneficiary supporter approved signers) := by
  unfold approveSupporter
  refine .bind (.check _) fun _ => .ite (fun _ => ?_) fun _ => h.memberMut _ _
  exact .bind (.check _) fun _ => .bind (.refuseIf _ _) fun _ => h.memberMut _ _

theorem moves_forfeitBonds (h : FramesWrites R) (target : MemberId) : Op.Moves R (forfeitBonds target) := by
  unfold forfeitBonds
  exact .bind (.check _) fun m => .bind (.ask _) fun _ => .bind (.refuseIf _ _) fun _ =>
    .bind (.ask _) fun _ => .bind (.refuseIf _ _) fun _ => .bind (h.rows.memberMut _ _) fun _ =>
    .write fun s => h.forfeited s _

theorem moves_propose [Libm] (h : FramesRows R) (author : MemberId) (kind : ProposalKind)
    (signers : List Key) : Op.Moves R (propose author kind signers) := by
  unfold propose
  exact .bind (.check _) fun _ => .bind (.check _) fun _ => .bind (.ask _) fun _ =>
    .bind (.refuseIf _ _) fun _ => .bind (.check _) fun _ => .write fun s => h.tabled s _ _

theorem moves_exit (h : FramesKeys R)
    (hvalidators : ∀ (s : State) x, R s { s with validators := x }) (id : MemberId)
    (signers : List Key) : Op.Moves R (exit id signers) := by
  unfold exit
  refine .bind (.check _) fun _ => .bind (.check _) fun m => .bind (.refuseIf _ _) fun _ =>
    .bind (.ask _) fun _ => .bind (.refuseIf _ _) fun _ => .bind (.refuseIf _ _) fun _ =>
    .bind (.ask _) fun _ => .bind (.refuseIf _ _) fun _ => .bind (.ask _) fun _ =>
    .bind (.refuseIf _ _) fun _ => .bind (.write fun s => ?_) fun _ => .bind (.check _) fun m => ?_
  · exact Op.Moves.foldl (fun s b => h.row s b _) _ s
  refine .bind (.write fun s => ?_) fun _ => .bind (.write fun s => hvalidators s _) fun _ => ?_
  · exact Op.Moves.foldl (fun s l => h.row s l _) _ s
  · exact h.memberMut _ _

end Frames

theorem framesWrites_routine : FramesWrites Routine :=
  ⟨fun _ _ _ => ⟨rfl, rfl, rfl, rfl⟩, fun _ _ => ⟨rfl, rfl, rfl, rfl⟩,
    fun _ _ => ⟨rfl, rfl, rfl, rfl⟩, fun _ _ => ⟨rfl, rfl, rfl, rfl⟩,
    fun _ _ _ => ⟨rfl, rfl, rfl, rfl⟩⟩

theorem routine_forfeitBonds (target : MemberId) : KeepsRoutine (forfeitBonds target) :=
  moves_forfeitBonds framesWrites_routine target

theorem framesWrites_steady : FramesWrites Steady :=
  ⟨fun _ _ _ => ⟨rfl, rfl⟩, fun _ _ => ⟨rfl, rfl⟩, fun _ _ => ⟨rfl, rfl⟩, fun _ _ => ⟨rfl, rfl⟩,
    fun _ _ _ => ⟨rfl, rfl⟩⟩

/-! ### Governance -/

theorem steady_rescale (s : State) (pi : F64) : Steady s (s.rescale pi) := by
  unfold State.rescale State.rescaleWith
  extract_lets s₁ s₂ s₃ s₄ s₅ byDebtor
  have hshave : Steady s₁ s₂ := .of_offBooks (offBooks_shave s₁)
  exact ⟨hshave.epoch, hshave.applied⟩

theorem steady_enact (kind : ProposalKind) (author : MemberId) :
    KeepsWindow (enact kind author) := by
  unfold enact
  cases kind with
  | paramChange key value => exact .write fun _ => ⟨rfl, rfl⟩
  | redenominate num den =>
    refine .write fun s => ?_
    have hscaled := steady_rescale s (ratio num den)
    exact ⟨hscaled.epoch, hscaled.applied⟩
  | suspend target =>
    exact .bind (.ask _) fun _ => .bind (.refuseIf _ _) fun _ =>
      .bind (routine_memberMut _ _).keepsWindow fun _ => .write fun _ => ⟨rfl, rfl⟩
  | unsuspend target => exact (routine_memberMut _ _).keepsWindow
  | validatorPower target power =>
    refine .ite (fun _ => ?_) fun _ => ?_
    · exact .bind (.check _) fun _ => .write fun _ => ⟨rfl, rfl⟩
    · exact .bind (.ask _) fun _ => .bind (.refuseIf _ _) fun _ => .write fun _ => ⟨rfl, rfl⟩
  | seedAmendment amount => exact .bind (.check _) fun _ => .write fun _ => ⟨rfl, rfl⟩

theorem steady_assent (id : MemberId) (proposalId : ProposalId) (signers : List Key) :
    KeepsWindow (assent id proposalId signers) := by
  unfold assent
  refine .bind (quiet_mayAssent _ _ _).moves fun carried =>
    .bind (.write fun _ => ⟨rfl, rfl⟩) fun _ => .ite (fun _ => ?_) fun _ => .pure _
  exact .bind (steady_enact _ _) fun _ => .write fun _ => ⟨rfl, rfl⟩

section Dispatch

variable [Libm]

/-- What every transition does that opens no row, moves no obligation and governs nothing. -/
theorem moves_dispatch {R : State → State → Prop} [Std.Refl R] [IsTrans State R]
    (h : FramesWrites R) (hbooks : ∀ s s', OffBooks s s' → R s s') (tx : Tx) (signers : List Key)
    (sponsor : Option MemberId) (haccept : ∀ d c a m p, tx ≠ .accept d c a m p)
    (hsale : ∀ d c a m, tx ≠ .sale d c a m) (hexit : ∀ id, tx ≠ .exit id)
    (hassent : ∀ id proposal, tx ≠ .assent id proposal) :
    Op.Moves R (dispatch tx signers sponsor) := by
  have of_books : ∀ {op : Tr Unit}, Bookkeeping op → Op.Moves R op := fun hop s => hbooks _ _ (hop s)
  cases tx with
  | registerGuardians => exact moves_registerGuardians h _ _ _ _ _
  | rotateRequest => exact moves_rotateRequest h _ _ _
  | rotateVeto => exact moves_rotateVeto h _ _
  | rotateFinalize => exact moves_rotateFinalize h _
  | setConsensusKey => exact moves_setConsensusKey h _ _ _
  | declareSupply => exact moves_declareSupply h _ _ _
  | accept d c a m p => exact absurd rfl (haccept d c a m p)
  | transfer => exact of_books (bookkeeping_transfer _ _ _)
  | settle => exact of_books (bookkeeping_repayment _ _ _ _ _ _)
  | extend => exact of_books (bookkeeping_extend _ _ _)
  | markExpired => exact of_books (bookkeeping_markExpired _)
  | cure => exact of_books (bookkeeping_repayment _ _ _ _ _ _)
  | listBeneficiaries => exact moves_listBeneficiaries h _ _ _
  | approveSupporter => exact moves_approveSupporter h _ _ _ _
  | sale d c a m => exact absurd rfl (hsale d c a m)
  | arbAttest => exact of_books (bookkeeping_arbAttest _ _ _ _)
  | exit id => exact absurd rfl (hexit id)
  | propose => exact moves_propose h _ _ _
  | assent id proposal => exact absurd rfl (hassent id proposal)
  | forfeitBonds => exact moves_forfeitBonds h _

/-- **No transition touches the epoch or the applied ids**, and only an exit and governance
touch the validators or the parameters. -/
theorem routine_dispatch (tx : Tx) (signers : List Key) (sponsor : Option MemberId)
    (hexit : ∀ id, tx ≠ .exit id) (hassent : ∀ id proposal, tx ≠ .assent id proposal) :
    KeepsRoutine (dispatch tx signers sponsor) := by
  cases tx with
  | accept => exact routine_accept _ _ _ _ _ _ _
  | sale => exact routine_sale _ _ _ _ _ _
  | _ =>
    exact moves_dispatch framesWrites_routine (fun _ _ h => .of_offBooks h) _ signers sponsor
      (by simp) (by simp) hexit hassent

theorem steady_dispatch (tx : Tx) (signers : List Key) (sponsor : Option MemberId) :
    KeepsWindow (dispatch tx signers sponsor) := by
  cases tx with
  | exit => exact moves_exit framesWrites_steady (fun _ _ => ⟨rfl, rfl⟩) _ _
  | assent => exact steady_assent _ _ _
  | _ => exact (routine_dispatch _ signers sponsor (by simp) (by simp)).keepsWindow

end Dispatch

/-! ### The frame around a transition -/

theorem bondGate_moves {R : State → State → Prop} [Std.Refl R] [IsTrans State R]
    (hrow : ∀ s id f, R s (s.modMember id f)) (tx : Tx) (signers : List Key) :
    Op.Moves R (bondGate tx signers) := by
  have hmut : ∀ (id : MemberId) (f : Member → Member), Op.Moves R (memberMut id f) := by
    intro id f
    unfold memberMut
    exact .bind (.check _) fun _ => .write fun s => hrow s id f
  have hencumber : ∀ (payer : MemberId) (bond : Nat), Op.Moves R (encumber payer bond) := by
    intro payer bond
    unfold encumber
    exact .bind (.ask _) fun _ => .bind (hmut _ _) fun _ => .pure _
  have hheadroom : ∀ (payer : MemberId) (bond : Nat), Op.Moves R (requireHeadroom payer bond) := by
    intro payer bond
    unfold requireHeadroom
    refine .bind (.check _) fun _ => .bind (.refuseIf _ _) fun _ => .bind (.ask _) fun _ =>
      .ite (fun _ => ?_) fun _ => .pure _
    exact .bind (hmut _ _) fun _ => .refuse _
  unfold bondGate
  refine .bind (.ask _) fun due => ?_
  cases due with
  | free => exact .pure _
  | allowance payer => exact .bind (hmut _ _) fun _ => .pure _
  | slot payer => exact .bind (hmut _ _) fun _ => .pure _
  | bond payer bond =>
    exact .bind (hheadroom _ _) fun _ => .bind (hencumber _ _) fun _ => .pure _
  | seat payer bond rows =>
    exact .bind (hheadroom _ _) fun _ => .bind (.ask _) fun _ => .bind (.refuseIf _ _) fun _ =>
      .bind (hencumber _ _) fun _ => .pure _
  | unpayable => exact .refuse _

/-- The gate writes rows and nothing else. -/
theorem rowsAlone_bondGate (tx : Tx) (signers : List Key) :
    Op.Moves RowsAlone (bondGate tx signers) :=
  bondGate_moves (fun _ _ _ => rfl) tx signers

theorem routine_bondGate (tx : Tx) (signers : List Key) : KeepsRoutine (bondGate tx signers) :=
  bondGate_moves (fun _ _ _ => ⟨rfl, rfl, rfl, rfl⟩) tx signers

/-- Forgetting an id leaves the buckets where they are, or drops an empty one. -/
theorem inWindow_forgetApplied {s : State} (hs : s.InWindow) (txId : TxId) (notAfterEpoch : Nat) :
    (s.forgetApplied txId notAfterEpoch).InWindow := by
  unfold State.forgetApplied
  split
  · exact hs
  · next bucket hbucket =>
    intro e ids he
    dsimp only at he ⊢
    split at he
    · rw [Std.ExtTreeMap.getElem?_erase] at he
      split at he
      · cases he
      · exact hs e ids he
    · rw [Std.ExtTreeMap.getElem?_insert] at he
      split at he
      · next heq =>
        obtain rfl := Std.LawfulEqCmp.compare_eq_iff_eq.1 heq
        exact hs _ _ hbucket
      · exact hs e ids he

theorem routine_refund (charged : Charged) (s : State) : Routine s (refund charged s) := by
  cases charged <;> exact ⟨rfl, rfl, rfl, rfl⟩

theorem routine_priceRefusal (subject : Option MemberId) (signers : List Key) (s : State) :
    Routine s (priceRefusal subject signers s).2 := by
  unfold priceRefusal
  dsimp only
  split
  · exact ⟨rfl, rfl, rfl, rfl⟩
  · split <;> exact ⟨rfl, rfl, rfl, rfl⟩

/-- Settling an outcome forgets an id, refunds a charge or prices a refusal. -/
theorem settleOutcome_moves {R : State → State → Prop} [Std.Refl R] [IsTrans State R]
    (hforget : ∀ (s : State) txId notAfterEpoch, R s (s.forgetApplied txId notAfterEpoch))
    (hrefund : ∀ s charged, R s (refund charged s))
    (hprice : ∀ s subject signers, R s (priceRefusal subject signers s).2) (tx : Tx) (txId : TxId)
    (notAfterEpoch : Nat) (signers : List Key) (charged : Charged) (outcome : Res Unit)
    (s : State) : R s (settleOutcome tx txId notAfterEpoch signers charged outcome s) := by
  unfold settleOutcome
  split
  · exact Std.Refl.refl s
  split
  · exact IsTrans.trans _ _ _ (hforget _ _ _) (hrefund _ _)
  split
  · split
    · exact hforget _ _ _
    · dsimp only
      split
      · exact hprice _ _ _
      · exact IsTrans.trans _ _ _ (hprice _ _ _) (hforget _ _ _)
  · exact Std.Refl.refl s

theorem inWindow_settleOutcome {s : State} (hs : s.InWindow) (tx : Tx) (txId : TxId)
    (notAfterEpoch : Nat) (signers : List Key) (charged : Charged) (outcome : Res Unit) :
    (settleOutcome tx txId notAfterEpoch signers charged outcome s).InWindow := by
  unfold settleOutcome
  split
  · exact hs
  split
  · exact (routine_refund _ _).steady.inWindow (inWindow_forgetApplied hs _ _)
  split
  · split
    · exact inWindow_forgetApplied hs _ _
    · have hpriced := (routine_priceRefusal (Bond.selfActSubject tx) signers s).steady.inWindow hs
      dsimp only
      split
      · exact hpriced
      · exact inWindow_forgetApplied hpriced _ _
  · exact hs

/-! ### The opening of a block -/

theorem routine_retireRow (id : MemberId) (s : State) : Routine s (retireRow id s) := by
  unfold retireRow
  split
  · exact Std.Refl.refl s
  · next m hm =>
    extract_lets s₁ s₂ s₃
    have h₁ : Routine s s₁ := .foldl _ s fun _ _ => ⟨rfl, rfl, rfl, rfl⟩
    have h₂ : Routine s₁ s₂ := .foldl _ s₁ fun _ _ => ⟨rfl, rfl, rfl, rfl⟩
    have h₃ : Routine s₂ s₃ := by
      simp only [s₃]
      split
      · exact Std.Refl.refl s₂
      · exact ⟨rfl, rfl, rfl, rfl⟩
    have h : Routine s s₃ := IsTrans.trans _ _ _ h₁ (IsTrans.trans _ _ _ h₂ h₃)
    exact ⟨h.epoch, h.applied, h.validators, h.params⟩

theorem routine_sweepCranks : KeepsRoutine sweepCranks := by
  unfold sweepCranks
  refine .bind (.ask _) fun due => .bind (.forM fun id _ => ?_) fun _ =>
    .bind (KeepsRoutine.of_bookkeeping (bookkeeping_netRings _)) fun _ => .bind (.ask _) fun sat =>
    .bind (.forM fun id _ => ?_) fun _ => .bind (.ask _) fun closed =>
    .bind (.forM fun id _ => ?_) fun _ => .bind (.write fun _ => ⟨rfl, rfl, rfl, rfl⟩) fun _ => ?_
  · exact .attempt (KeepsRoutine.of_bookkeeping (bookkeeping_markExpired _))
  · exact .attempt (routine_forfeitBonds _)
  · exact .attempt (KeepsRoutine.of_bookkeeping (bookkeeping_arbAward _))
  · exact .write fun s => Routine.foldl _ s fun s id => routine_retireRow id s

end Apply

theorem horizon_mono {base base' : Nat} (h : base ≤ base') (delta : Nat) :
    horizon base delta ≤ horizon base' delta := by
  unfold horizon
  omega

/-- An epoch that passes drops the buckets that fall out of the window. -/
theorem inWindow_advanceEpoch {s : State} (hs : s.InWindow) : s.advanceEpoch.InWindow := by
  intro e ids he
  have hkept : s.appliedByExpiry[e]? = some ids ∧ decide (¬e < s.epoch + 1) = true :=
    OrdMap.getElem?_filter_of_some he
  obtain ⟨hlow, hhigh⟩ := hs e ids hkept.1
  have hepoch : s.epoch + 1 ≤ e := by simpa using hkept.2
  exact ⟨hepoch, hhigh.trans (horizon_mono (Nat.le_succ _) _)⟩

theorem inWindow_beginBlock {s : State} (hs : s.InWindow) (nowSecs : Nat) :
    (s.beginBlock nowSecs).InWindow := by
  unfold State.beginBlock
  split
  · exact hs
  dsimp only
  split
  · have hadvance : ∀ (n : Nat) (s : State), s.InWindow →
        (Nat.repeat State.advanceEpoch n s).InWindow := by
      intro n
      induction n with
      | zero => exact fun _ h => h
      | succ n ih => exact fun s h => inWindow_advanceEpoch (ih s h)
    have hreleased : ∀ s : State, Steady s s.releaseBonds := fun _ => ⟨rfl, rfl⟩
    refine (hreleased _).inWindow ?_
    refine (Apply.routine_sweepCranks _).steady.inWindow ?_
    exact hadvance _ _ hs
  · exact hs

namespace Apply

section Apply

variable [Libm]

/-- A transaction keeps the buckets in their window. -/
theorem inWindow_apply (tx : Tx) (txId : TxId) (notAfterEpoch : Nat) (signers : List Key)
    (nowSecs : Nat) : Op.Triple State.InWindow (apply tx txId notAfterEpoch signers nowSecs)
      (fun _ => State.InWindow) State.InWindow := by
  -- from the admission on, the epoch that the envelope names is in the window
  let admitted (s : State) : Prop :=
    s.InWindow ∧ s.epoch ≤ notAfterEpoch ∧
      notAfterEpoch ≤ horizon s.epoch Constants.maxTxLifetimeEpochs
  have hkeep : ∀ s s', Steady s s' → admitted s → admitted s' := by
    intro s s' h ha
    refine ⟨h.inWindow ha.1, ?_⟩
    rw [h.epoch]
    exact ha.2
  unfold apply
  refine Op.Triple.bind (Q := fun _ => State.InWindow) (.write fun s hs => inWindow_beginBlock hs _)
    fun _ => ?_
  refine Op.Triple.bind (Q := fun _ => admitted) (.check (fun s _ hs hok => ?_) fun _ hs => hs)
    fun _ => ?_
  · unfold admissible at hok
    split_ifs at hok with h₁ h₂
    exact ⟨hs, by omega, by omega⟩
  refine Op.Triple.bind (Q := fun _ => admitted) ?_ fun charged => ?_
  · exact ((routine_bondGate tx signers).keepsWindow.triple hkeep).weaken (fun _ h => h) (fun _ _ h => h)
      fun _ h => h.1
  refine Op.Triple.bind (Q := fun _ => State.InWindow) (.write fun s hs => ?_) fun _ => ?_
  · intro e ids he
    simp only [State.recordApplied, Std.ExtTreeMap.getElem?_insert] at he
    split at he
    · next heq =>
      obtain rfl := Std.LawfulEqCmp.compare_eq_iff_eq.1 heq
      exact hs.2
    · exact hs.1 e ids he
  refine Op.Triple.bind (Q := fun _ => State.InWindow) ?_ fun outcome => ?_
  · exact ((steady_dispatch tx signers charged.2).outcome).triple fun s s' h hs => h.inWindow hs
  refine Op.Triple.bind (Q := fun _ => State.InWindow)
    (.write fun s hs => inWindow_settleOutcome hs _ _ _ _ _ _) fun _ => ?_
  exact .check (fun _ _ hs _ => hs) fun _ hs => hs

end Apply

end Apply

/-- Nothing is applied, and no capacity and no seat is held, that was not before. -/
structure Unspent (s s' : State) : Prop extends Steady s s' where
  reserved : s'.reserved = s.reserved
  seatReserved : s'.seatReserved = s.seatReserved

instance : Std.Refl Unspent := ⟨fun s => ⟨Std.Refl.refl s, rfl, rfl⟩⟩

instance : IsTrans State Unspent :=
  ⟨fun _ _ _ h h' => ⟨IsTrans.trans _ _ _ h.toSteady h'.toSteady, h'.reserved.trans h.reserved,
    h'.seatReserved.trans h.seatReserved⟩⟩

/-- What a genesis seats has applied nothing and holds nothing. -/
theorem unspent_seatEntry {supplies : OrdMap MemberId F64} {entry : GenesisEntry} {s s' : State}
    (h : Genesis.seatEntry supplies entry s = .ok s') : Unspent s s' := by
  have hvalidator : ∀ {s s' : State}, Genesis.seatValidator entry s = .ok s' → Unspent s s' := by
    intro s s' h
    unfold Genesis.seatValidator at h
    split at h
    · split at h
      · cases h
      · exact Except.ok.inj h ▸ Std.Refl.refl s
    · split at h
      · cases h
      · next ck _ _ =>
        have hname : ∀ t, s.setGenesisConsensusKey entry.address ck = .ok t → Unspent s t := by
          intro t ht
          unfold State.setGenesisConsensusKey at ht
          split_ifs at ht
          exact Except.ok.inj ht ▸ ⟨⟨rfl, rfl⟩, rfl, rfl⟩
        cases hkey : s.setGenesisConsensusKey entry.address ck with
        | error e => simp [hkey, Genesis.refusal] at h
        | ok t =>
          simp only [hkey, Genesis.refusal] at h
          have hseat : ∀ u, t.setGenesisValidator entry.address entry.votingPower = .ok u →
              Unspent t u := by
            intro u hu
            unfold State.setGenesisValidator at hu
            split at hu
            · cases hu
            · split_ifs at hu
              exact Except.ok.inj hu ▸ ⟨⟨rfl, rfl⟩, rfl, rfl⟩
          split at h
          · cases hset : t.setGenesisValidator entry.address entry.votingPower with
            | error e => simp [hset] at h
            | ok u =>
              simp only [hset, Except.ok.injEq] at h
              exact h ▸ IsTrans.trans _ _ _ (hname t hkey) (hseat u hset)
          · exact Except.ok.inj h ▸ hname t hkey
  unfold Genesis.seatEntry at h
  cases hadd : s.addUnderwriter [entry.publicKey]
      (OrdMap.getD' supplies entry.address (F64.zero false)) with
  | error e => simp [hadd, Genesis.refusal] at h
  | ok p =>
    simp only [hadd, Genesis.refusal] at h
    split at h
    · cases h
    · refine IsTrans.trans _ _ _ ?_ (hvalidator h)
      unfold State.addUnderwriter at hadd
      dsimp only at hadd
      split_ifs at hadd <;> exact Except.ok.inj hadd ▸ ⟨⟨rfl, rfl⟩, rfl, rfl⟩

theorem inWindow_of_genesis {g : Genesis} {s : State} (h : genesisState g = .ok s) :
    s.InWindow :=
  genesisState_keeps (fun _ _ _ e ids he => by simp at he)
    (fun _ _ _ _ hs hseat => (unspent_seatEntry hseat).toSteady.inWindow hs) h

theorem inWindow_next [Libm] (e : Event) {s : State} (hs : s.InWindow) :
    (e.next s).InWindow := by
  cases e with
  | block nowSecs => exact inWindow_beginBlock hs nowSecs
  | transaction tx txId notAfterEpoch signers nowSecs =>
    exact (Apply.inWindow_apply tx txId notAfterEpoch signers nowSecs).exec_snd hs

/-- **The replay cache stays in its window**, in every run from a genesis. -/
theorem inWindow_of_reaches [Libm] {s : State}
    (h : Reaches Event.next Founding (fun _ _ => True) s) : s.InWindow :=
  h.invariant (fun _ ⟨_, hg⟩ => inWindow_of_genesis hg) fun e _ hs _ => inWindow_next e hs

end Edet
