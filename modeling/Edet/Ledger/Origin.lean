import Edet.Ledger.Rows

/-!
# The chain of a ledger

A ledger carries the name of its chain and the salt of its commitments, both written once, by the
genesis. No transition and no boundary touches either (`sameOrigin_beginBlock`,
`sameOrigin_apply`), so a snapshot of a ledger is one of the chain its genesis names.
-/

namespace Edet

open Edet.Flow

/-- Neither the chain's name nor the salt has changed. -/
structure SameOrigin (s s' : State) : Prop where
  chainId : s'.chainId = s.chainId
  rootSalt : s'.rootSalt = s.rootSalt

instance : Std.Refl SameOrigin := ⟨fun _ => ⟨rfl, rfl⟩⟩

instance : IsTrans State SameOrigin :=
  ⟨fun _ _ _ h h' => ⟨h'.chainId.trans h.chainId, h'.rootSalt.trans h.rootSalt⟩⟩

/-- What moves on the books of reservations alone leaves both. -/
theorem SameOrigin.of_offBooks {s s' : State} (h : OffBooks s s') : SameOrigin s s' := by
  have hchain : s'.offBooks.chainId = s.offBooks.chainId := by rw [h]
  have hsalt : s'.offBooks.rootSalt = s.offBooks.rootSalt := by rw [h]
  exact ⟨hchain, hsalt⟩

namespace Apply

/-- However the operation ends, the ledger is of the same origin. -/
abbrev KeepsOrigin {α : Type} (op : Tr α) : Prop := Op.Moves SameOrigin op

/-- An operation on the books alone keeps the origin. -/
theorem KeepsOrigin.of_bookkeeping {α : Type} {op : Tr α} (h : Bookkeeping op) : KeepsOrigin op :=
  fun s => .of_offBooks (h s)

/-- No write a transition is made of touches either. -/
theorem framesWrites_sameOrigin : FramesWrites SameOrigin :=
  ⟨fun _ _ _ => ⟨rfl, rfl⟩, fun _ _ => ⟨rfl, rfl⟩, fun _ _ => ⟨rfl, rfl⟩, fun _ _ => ⟨rfl, rfl⟩,
    fun _ _ _ => ⟨rfl, rfl⟩⟩

/-! ### Parties and their seats -/

/-- The two parties of a trade are given rows. -/
theorem sameOrigin_seatPair (first second : Resolved) (sponsor : Option MemberId) :
    KeepsOrigin (seatPair first second sponsor) :=
  moves_seatPair (fun _ _ _ => ⟨rfl, rfl⟩) (fun _ _ => ⟨rfl, rfl⟩) (fun _ _ _ => ⟨rfl, rfl⟩) _ _ _

/-- A pledge, from the seats of its parties to the contract. -/
theorem sameOrigin_accept (debtor creditor : Party) (amount : F64) (maturityEpochs : Nat)
    (arb : Option ArbTermsWire) (signers : List Key) (sponsor : Option MemberId) :
    KeepsOrigin (accept debtor creditor amount maturityEpochs arb signers sponsor) := by
  unfold accept
  refine .bind (quiet_acceptTerms _ _ _ _ _ _).moves fun _ =>
    .bind (sameOrigin_seatPair _ _ _) fun _ => ?_
  exact .bind (KeepsOrigin.of_bookkeeping (bookkeeping_book _ _ _ _ _)) fun _ => .pure _

/-- A sale, with what it nets, drains and opens. -/
theorem sameOrigin_sale (seller buyer : Party) (amount : F64) (maturityEpochs : Nat)
    (signers : List Key) (sponsor : Option MemberId) :
    KeepsOrigin (Cascade.sale seller buyer amount maturityEpochs signers sponsor) := by
  unfold Cascade.sale
  refine .bind (quiet_saleTerms _ _ _ _ _).moves fun _ =>
    .bind (sameOrigin_seatPair _ _ _) fun _ =>
    .bind (KeepsOrigin.of_bookkeeping (bookkeeping_netMutual _ _ _)) fun _ =>
    .ite (fun _ => .pure _) fun _ => .bind (.ask _) fun _ => ?_
  exact KeepsOrigin.of_bookkeeping (Cascade.bookkeeping_originate _ _ _ _)

/-! ### Governance -/

/-- A redenomination rescales amounts, and the two are none. -/
theorem sameOrigin_rescale (s : State) (pi : F64) : SameOrigin s (s.rescale pi) := by
  unfold State.rescale State.rescaleWith
  extract_lets s₁ s₂ s₃ s₄ s₅ byDebtor
  have hshave : SameOrigin s₁ s₂ := .of_offBooks (offBooks_shave s₁)
  exact ⟨hshave.chainId, hshave.rootSalt⟩

/-- A row is changed in place. -/
theorem sameOrigin_memberMut (id : MemberId) (f : Member → Member) : KeepsOrigin (memberMut id f) :=
  FramesRows.memberMut framesWrites_sameOrigin id f

/-- A ratified proposal, kind by kind. -/
theorem sameOrigin_enact (kind : ProposalKind) (author : MemberId) :
    KeepsOrigin (enact kind author) := by
  unfold enact
  cases kind with
  | paramChange key value => exact .write fun _ => ⟨rfl, rfl⟩
  | redenominate num den =>
    refine .write fun s => ?_
    have hscaled := sameOrigin_rescale s (ratio num den)
    exact ⟨hscaled.chainId, hscaled.rootSalt⟩
  | suspend target =>
    exact .bind (.ask _) fun _ => .bind (.refuseIf _ _) fun _ =>
      .bind (sameOrigin_memberMut _ _) fun _ => .write fun _ => ⟨rfl, rfl⟩
  | unsuspend target => exact sameOrigin_memberMut _ _
  | validatorPower target power =>
    refine .ite (fun _ => ?_) fun _ => ?_
    · exact .bind (.check _) fun _ => .write fun _ => ⟨rfl, rfl⟩
    · exact .bind (.ask _) fun _ => .bind (.refuseIf _ _) fun _ => .write fun _ => ⟨rfl, rfl⟩
  | seedAmendment amount => exact .bind (.check _) fun _ => .write fun _ => ⟨rfl, rfl⟩

/-- An assent, with the enactment it may complete. -/
theorem sameOrigin_assent (id : MemberId) (proposalId : ProposalId) (signers : List Key) :
    KeepsOrigin (assent id proposalId signers) := by
  unfold assent
  refine .bind (quiet_mayAssent _ _ _).moves fun carried =>
    .bind (.write fun _ => ⟨rfl, rfl⟩) fun _ => .ite (fun _ => ?_) fun _ => .pure _
  exact .bind (sameOrigin_enact _ _) fun _ => .write fun _ => ⟨rfl, rfl⟩

/-! ### Boundaries -/

/-- A row leaves at a boundary. -/
theorem sameOrigin_retireRow (id : MemberId) (s : State) : SameOrigin s (retireRow id s) := by
  unfold retireRow
  split
  · exact Std.Refl.refl s
  · next m hm =>
    extract_lets s₁ s₂ s₃
    have h₁ : SameOrigin s s₁ := Op.Moves.foldl (fun _ _ => ⟨rfl, rfl⟩) _ s
    have h₂ : SameOrigin s₁ s₂ := Op.Moves.foldl (fun _ _ => ⟨rfl, rfl⟩) _ s₁
    have h₃ : SameOrigin s₂ s₃ := by
      simp only [s₃]
      split
      · exact Std.Refl.refl s₂
      · exact ⟨rfl, rfl⟩
    have h : SameOrigin s s₃ := IsTrans.trans _ _ _ h₁ (IsTrans.trans _ _ _ h₂ h₃)
    exact ⟨h.chainId, h.rootSalt⟩

/-- **A boundary keeps the origin**, through every pass of an epoch. -/
theorem sameOrigin_beginBlock (nowSecs : Nat) (s : State) : SameOrigin s (s.beginBlock nowSecs) := by
  have hretire : ∀ s, SameOrigin s (retireEmptyRows s) := fun s =>
    Op.Moves.foldl (fun s id => sameOrigin_retireRow id s) _ s
  obtain ⟨u, v, hu, hv, hend⟩ := beginBlock_ends (fun _ _ => SameOrigin.of_offBooks)
    (moves_forfeitBonds framesWrites_sameOrigin) (fun _ _ => ⟨rfl, rfl⟩) (fun _ => ⟨rfl, rfl⟩)
    (fun _ => ⟨rfl, rfl⟩) nowSecs s
  refine IsTrans.trans _ _ _ hu (IsTrans.trans _ _ _ ?_ hend)
  rcases hv with rfl | rfl
  · exact Std.Refl.refl v
  · have hpruned : SameOrigin u (pruneClosedRows u) := ⟨rfl, rfl⟩
    exact IsTrans.trans _ _ _ hpruned (hretire _)

/-! ### Transactions -/

/-- The bond is settled, and the envelope remembered. -/
theorem sameOrigin_settleOutcome (tx : Tx) (txId : TxId) (notAfterEpoch : Nat)
    (signers : List Key) (charged : Charged) (outcome : Res Unit) (s : State) :
    SameOrigin s (settleOutcome tx txId notAfterEpoch signers charged outcome s) := by
  refine settleOutcome_moves (fun s txId notAfterEpoch => ?_) (fun s charged => ?_)
    (fun s subject signers => ?_) tx txId notAfterEpoch signers charged outcome s
  · unfold State.forgetApplied
    split
    · exact Std.Refl.refl s
    · dsimp only
      split <;> exact ⟨rfl, rfl⟩
  · cases charged <;> exact ⟨rfl, rfl⟩
  · unfold priceRefusal
    dsimp only
    split
    · exact ⟨rfl, rfl⟩
    · split <;> exact ⟨rfl, rfl⟩

section

variable [Libm]

/-- The transition of a transaction, kind by kind. -/
theorem sameOrigin_dispatch (tx : Tx) (signers : List Key) (sponsor : Option MemberId) :
    KeepsOrigin (dispatch tx signers sponsor) := by
  cases tx with
  | accept => exact sameOrigin_accept _ _ _ _ _ _ _
  | sale => exact sameOrigin_sale _ _ _ _ _ _
  | exit => exact moves_exit framesWrites_sameOrigin (fun _ _ => ⟨rfl, rfl⟩) _ _
  | assent => exact sameOrigin_assent _ _ _
  | _ =>
    exact moves_dispatch framesWrites_sameOrigin (fun _ _ => .of_offBooks) _ signers sponsor
      (by simp) (by simp) (by simp) (by simp)

/-- **A transaction keeps the origin**, accepted or refused. -/
theorem sameOrigin_apply (tx : Tx) (txId : TxId) (notAfterEpoch : Nat) (signers : List Key)
    (nowSecs : Nat) : KeepsOrigin (apply tx txId notAfterEpoch signers nowSecs) := by
  unfold apply
  refine .bind (.write fun s => sameOrigin_beginBlock _ s) fun _ => .bind (.check _) fun _ =>
    .bind (bondGate_moves framesWrites_sameOrigin.row _ _) fun charged =>
    .bind (.write fun _ => ⟨rfl, rfl⟩) fun _ =>
    .bind (.outcome (sameOrigin_dispatch _ _ _)) fun outcome =>
    .bind (.write fun s => sameOrigin_settleOutcome _ _ _ _ _ _ s) fun _ => .check _

end

end Apply

end Edet
