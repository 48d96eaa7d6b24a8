import Edet.Ledger.Frames
import Edet.Ledger.Genesis
import Edet.Ledger.KeyBook

/-!
# Who holds which key

`State.keyBook` reads the key book off a state. Most transitions leave it as it is
(`SameKeys`): all that only keep the books of obligations, and those on listings,
bonds, supplies and proposals (`keys_*` below). The few that write keys do on the key
book what one of its operations does.
-/

namespace Edet

open Edet.Flow

/-- What a row says about keys. -/
def Member.keyRow (m : Member) : KeyRow :=
  { id := m.id, keys := m.keys, consensusKey := m.consensusKey,
    pendingRotation := m.pendingRotation }

/-- The key book of a state. -/
def State.keyBook (s : State) : KeyBook :=
  { index := s.keyIndex, next := s.nextMember, rows := s.members.map fun _ m => m.keyRow }

theorem State.keyBook_rows (s : State) (id : MemberId) :
    s.keyBook.rows[id]? = (s.members[id]?).map Member.keyRow := by
  simp [State.keyBook, Std.ExtTreeMap.getElem?_map]

theorem State.keyBook_row {s : State} {id : MemberId} {m : Member} (h : s.members[id]? = some m) :
    s.keyBook.rows[id]? = some m.keyRow := by
  rw [keyBook_rows, h]
  rfl

/-- Nothing changed in the key book. -/
def SameKeys (s s' : State) : Prop := s'.keyBook = s.keyBook

instance : Std.Refl SameKeys := ⟨fun _ => rfl⟩

instance : IsTrans State SameKeys := ⟨fun _ _ _ h h' => h'.trans h⟩

namespace SameKeys

/-- Nothing the key book reads was written. -/
theorem of_eq {s s' : State} (hindex : s'.keyIndex = s.keyIndex)
    (hnext : s'.nextMember = s.nextMember) (hmembers : s'.members = s.members) : SameKeys s s' := by
  refine KeyBook.ext hindex hnext ?_
  show (s'.members.map fun _ m => m.keyRow) = s.members.map fun _ m => m.keyRow
  rw [hmembers]

theorem modMember (s : State) (id : MemberId) {f : Member → Member}
    (hf : ∀ m, (f m).keyRow = m.keyRow) : SameKeys s (s.modMember id f) := by
  have hrows : (s.members.modify id f).map (fun _ m => m.keyRow)
      = s.members.map fun _ m => m.keyRow := OrdMap.map_modify hf s.members id
  exact KeyBook.ext rfl rfl hrows

theorem foldl {β : Type} {f : State → β → State} (l : List β) (s : State)
    (h : ∀ s x, SameKeys s (f s x)) : SameKeys s (l.foldl f s) := Op.Moves.foldl h l s

/-- Rewriting all rows without touching their keys. -/
theorem mapMembers {s s' : State} {f : MemberId → Member → Member}
    (hf : ∀ id m, (f id m).keyRow = m.keyRow) (hindex : s'.keyIndex = s.keyIndex)
    (hnext : s'.nextMember = s.nextMember) (hmembers : s'.members = s.members.map f) :
    SameKeys s s' := by
  refine KeyBook.ext hindex hnext ?_
  refine Std.ExtTreeMap.ext_getElem? fun a => ?_
  show (s'.members.map fun _ m => m.keyRow)[a]? = (s.members.map fun _ m => m.keyRow)[a]?
  rw [hmembers]
  simp only [Std.ExtTreeMap.getElem?_map, Option.map_map]
  cases s.members[a]? with
  | none => rfl
  | some m => simp [hf]

theorem of_offBooks {s s' : State} (h : OffBooks s s') : SameKeys s s' := by
  have hview : ∀ t : State, t.keyBook = t.offBooks.keyBook := by
    intro t
    refine KeyBook.ext rfl rfl (Std.ExtTreeMap.ext_getElem? fun a => ?_)
    show _ = ((t.members.map fun _ m => m.offBooks).map fun _ m => m.keyRow)[a]?
    rw [State.keyBook_rows, Std.ExtTreeMap.getElem?_map, Std.ExtTreeMap.getElem?_map]
    cases t.members[a]? <;> rfl
  rw [SameKeys, hview s', hview s, show s'.offBooks = s.offBooks from h]

end SameKeys

namespace Apply

/-- A transition that leaves all keys alone. -/
abbrev KeepsKeys {α : Type} (op : Tr α) : Prop := Op.Moves SameKeys op

theorem KeepsKeys.of_bookkeeping {α : Type} {op : Tr α} (h : Bookkeeping op) : KeepsKeys op :=
  fun s => .of_offBooks (h s)

theorem keys_memberMut {id : MemberId} {f : Member → Member} (hf : ∀ m, (f m).keyRow = m.keyRow) :
    KeepsKeys (memberMut id f) := by
  unfold memberMut
  exact .bind (.check _) fun _ => .write fun s => .modMember s id hf

theorem keys_declareSupply (id : MemberId) (supply : F64) (signers : List Key) :
    KeepsKeys (declareSupply id supply signers) := by
  unfold declareSupply
  refine .bind (.check _) fun _ => .bind (.check _) fun _ => .bind (.refuseIf _ _) fun _ =>
    .bind (.refuseIf _ _) fun _ => .bind (.ask _) fun _ => .bind (.refuseIf _ _) fun _ =>
    .bind (.ask _) fun _ => .bind (.refuseIf _ _) fun _ => ?_
  exact .write fun _ => .of_eq rfl rfl rfl

theorem keys_listBeneficiaries (supporter : MemberId) (entries : List (MemberId × F64))
    (signers : List Key) : KeepsKeys (listBeneficiaries supporter entries signers) := by
  unfold listBeneficiaries
  refine .bind (.check _) fun _ => .bind (.check _) fun _ => .bind (.refuseIf _ _) fun _ => ?_
  refine .bind (.forM fun e _ => .bind (.refuseIf _ _) fun _ => .bind (.check _) fun _ => .pure _)
    fun _ => .bind (.check _) fun self => .bind (.write fun s => ?_) fun _ => ?_
  · refine SameKeys.foldl _ s fun s b => ?_
    split
    · rfl
    · exact SameKeys.modMember s b fun _ => rfl
  · refine .bind (.forM fun e _ => .ite (fun _ => ?_) fun _ => .pure _) fun _ => ?_
    · exact keys_memberMut fun _ => rfl
    · exact keys_memberMut fun _ => rfl

theorem keys_approveSupporter (beneficiary supporter : MemberId) (approved : Bool)
    (signers : List Key) : KeepsKeys (approveSupporter beneficiary supporter approved signers) := by
  unfold approveSupporter
  refine .bind (.check _) fun _ => .ite (fun _ => ?_) fun _ => ?_
  · exact .bind (.check _) fun _ => .bind (.refuseIf _ _) fun _ => keys_memberMut fun _ => rfl
  · exact keys_memberMut fun _ => rfl

theorem keys_exit (id : MemberId) (signers : List Key) : KeepsKeys (exit id signers) := by
  unfold exit
  refine .bind (.check _) fun _ => .bind (.check _) fun m => .bind (.refuseIf _ _) fun _ =>
    .bind (.ask _) fun _ => .bind (.refuseIf _ _) fun _ => .bind (.refuseIf _ _) fun _ =>
    .bind (.ask _) fun _ => .bind (.refuseIf _ _) fun _ => .bind (.ask _) fun _ =>
    .bind (.refuseIf _ _) fun _ => .bind (.write fun s => ?_) fun _ => .bind (.check _) fun m => ?_
  · exact SameKeys.foldl _ s fun s b => .modMember (f := unlist id) s b fun _ => rfl
  refine .bind (.write fun s => ?_) fun _ => .bind (.write fun _ => .of_eq rfl rfl rfl) fun _ => ?_
  · exact SameKeys.foldl _ s fun s l => .modMember (f := undelegate id) s l fun _ => rfl
  · exact keys_memberMut fun _ => rfl

theorem keys_forfeitBonds (target : MemberId) : KeepsKeys (forfeitBonds target) := by
  unfold forfeitBonds
  refine .bind (.check _) fun m => .bind (.ask _) fun _ => .bind (.refuseIf _ _) fun _ =>
    .bind (.ask _) fun _ => .bind (.refuseIf _ _) fun _ => ?_
  exact .bind (keys_memberMut fun _ => rfl) fun _ => .write fun _ => .of_eq rfl rfl rfl

theorem keys_rescaleWith (scale : Nat → Nat) (pi : F64) (s : State) :
    SameKeys s (s.rescaleWith scale pi) := by
  unfold State.rescaleWith
  extract_lets s₁ s₂ s₃ s₄ s₅ byDebtor
  have h₁ : SameKeys s s₁ := .mapMembers (f := fun _ m => State.rescaleMember scale pi m)
    (fun _ _ => rfl) rfl rfl rfl
  have h₂ : SameKeys s₁ s₂ := .of_offBooks (offBooks_shave s₁)
  have h₃ : SameKeys s₂ s₃ := .of_eq rfl rfl rfl
  have h₄ : SameKeys s₃ s₄ := .of_eq rfl rfl rfl
  have h₅ : SameKeys s₄ s₅ := .of_eq rfl rfl rfl
  refine IsTrans.trans _ _ _ h₁ <| IsTrans.trans _ _ _ h₂ <| IsTrans.trans _ _ _ h₃ <|
    IsTrans.trans _ _ _ h₄ <| IsTrans.trans _ _ _ h₅ ?_
  exact .mapMembers (f := fun id m => { m with debtOut := OrdMap.getD' byDebtor id 0 })
    (fun _ _ => rfl) rfl rfl rfl

theorem keys_rescale (s : State) (pi : F64) : SameKeys s (s.rescale pi) :=
  keys_rescaleWith _ _ _

section Governance

variable [Libm]

theorem keys_propose (author : MemberId) (kind : ProposalKind) (signers : List Key) :
    KeepsKeys (propose author kind signers) := by
  unfold propose
  refine .bind (.check _) fun _ => .bind (.check _) fun _ => .bind (.ask _) fun _ =>
    .bind (.refuseIf _ _) fun _ => .bind (.check _) fun _ => ?_
  exact .write fun _ => .of_eq rfl rfl rfl

end Governance

theorem keys_enact (kind : ProposalKind) (author : MemberId) : KeepsKeys (enact kind author) := by
  unfold enact
  cases kind with
  | paramChange key value => exact .write fun _ => .of_eq rfl rfl rfl
  | redenominate num den =>
    exact .write fun s => IsTrans.trans _ _ _ (keys_rescale s (ratio num den)) (.of_eq rfl rfl rfl)
  | suspend target =>
    refine .bind (.ask _) fun _ => .bind (.refuseIf _ _) fun _ => ?_
    refine .bind (keys_memberMut fun m => ?_) fun _ => .write fun _ => .of_eq rfl rfl rfl
    split <;> rfl
  | unsuspend target =>
    refine keys_memberMut fun m => ?_
    split <;> rfl
  | validatorPower target power =>
    refine .ite (fun _ => ?_) fun _ => ?_
    · exact .bind (.check _) fun _ => .write fun _ => .of_eq rfl rfl rfl
    · exact .bind (.ask _) fun _ => .bind (.refuseIf _ _) fun _ => .write fun _ => .of_eq rfl rfl rfl
  | seedAmendment amount => exact .bind (.check _) fun _ => .write fun _ => .of_eq rfl rfl rfl

theorem keys_assent (id : MemberId) (proposalId : ProposalId) (signers : List Key) :
    KeepsKeys (assent id proposalId signers) := by
  unfold assent
  refine .bind (quiet_mayAssent _ _ _).moves fun carried =>
    .bind (.write fun _ => .of_eq rfl rfl rfl) fun _ => .ite (fun _ => ?_) fun _ => .pure _
  exact .bind (keys_enact _ _) fun _ => .write fun _ => .of_eq rfl rfl rfl

theorem keys_bondGate (tx : Tx) (signers : List Key) : KeepsKeys (bondGate tx signers) := by
  have hencumber : ∀ (payer : MemberId) (bond : Nat), KeepsKeys (encumber payer bond) := by
    intro payer bond
    unfold encumber
    exact .bind (.ask _) fun _ => .bind (keys_memberMut fun _ => rfl) fun _ => .pure _
  have hheadroom : ∀ (payer : MemberId) (bond : Nat), KeepsKeys (requireHeadroom payer bond) := by
    intro payer bond
    unfold requireHeadroom
    refine .bind (.check _) fun _ => .bind (.refuseIf _ _) fun _ => .bind (.ask _) fun _ =>
      .ite (fun _ => ?_) fun _ => .pure _
    exact .bind (keys_memberMut fun _ => rfl) fun _ => .refuse _
  unfold bondGate
  refine .bind (.ask _) fun due => ?_
  cases due with
  | free => exact .pure _
  | allowance payer => exact .bind (keys_memberMut fun _ => rfl) fun _ => .pure _
  | slot payer => exact .bind (keys_memberMut fun _ => rfl) fun _ => .pure _
  | bond payer bond =>
    exact .bind (hheadroom _ _) fun _ => .bind (hencumber _ _) fun _ => .pure _
  | seat payer bond rows =>
    exact .bind (hheadroom _ _) fun _ => .bind (.ask _) fun _ => .bind (.refuseIf _ _) fun _ =>
      .bind (hencumber _ _) fun _ => .pure _
  | unpayable => exact .refuse _

theorem keys_forgetApplied (s : State) (txId : TxId) (notAfterEpoch : Nat) :
    SameKeys s (s.forgetApplied txId notAfterEpoch) := by
  unfold State.forgetApplied
  split <;> rfl

theorem keys_refund (charged : Charged) (s : State) : SameKeys s (refund charged s) := by
  cases charged with
  | free => rfl
  | allowance payer => exact .modMember s _ fun _ => rfl
  | slot payer => exact .modMember s _ fun _ => rfl
  | bond payer releaseAt amount =>
    refine .modMember s _ fun m => ?_
    split <;> rfl

theorem keys_priceRefusal (subject : Option MemberId) (signers : List Key) (s : State) :
    SameKeys s (priceRefusal subject signers s).2 := by
  unfold priceRefusal
  simp only
  split
  · exact .modMember s _ fun _ => rfl
  · split
    · exact .modMember s _ fun _ => rfl
    · rfl

theorem keys_settleOutcome (tx : Tx) (txId : TxId) (notAfterEpoch : Nat) (signers : List Key)
    (charged : Charged) (outcome : Res Unit) (s : State) :
    SameKeys s (settleOutcome tx txId notAfterEpoch signers charged outcome s) := by
  unfold settleOutcome
  split
  · rfl
  split
  · exact IsTrans.trans _ _ _ (keys_forgetApplied _ _ _) (keys_refund _ _)
  split
  · split
    · exact keys_forgetApplied _ _ _
    · simp only
      split
      · exact keys_priceRefusal _ _ _
      · exact IsTrans.trans _ _ _ (keys_priceRefusal _ _ _) (keys_forgetApplied _ _ _)
  · rfl

end Apply

/-! ### Boundaries -/

/-- The key book is at most smaller: if it was sound it still is, and no row of it is
new. -/
def KeysShrink (s s' : State) : Prop :=
  (s.keyBook.Sound → s'.keyBook.Sound) ∧
    ∀ (id : MemberId) (r : KeyRow), s'.keyBook.rows[id]? = some r → s.keyBook.rows[id]? = some r

instance : Std.Refl KeysShrink := ⟨fun _ => ⟨id, fun _ _ h => h⟩⟩

instance : IsTrans State KeysShrink :=
  ⟨fun _ _ _ h h' => ⟨fun hs => h'.1 (h.1 hs), fun id r hr => h.2 id r (h'.2 id r hr)⟩⟩

theorem SameKeys.shrink {s s' : State} (h : SameKeys s s') : KeysShrink s s' := by
  unfold KeysShrink
  rw [show s'.keyBook = s.keyBook from h]
  exact ⟨id, fun _ _ hr => hr⟩

namespace Apply

theorem keys_pruneClosedRows (s : State) : SameKeys s (pruneClosedRows s) := .of_eq rfl rfl rfl

/-- Retiring a row drops it from the key book. -/
theorem keysShrink_retireRow (id : MemberId) (s : State) : KeysShrink s (retireRow id s) := by
  unfold retireRow
  split
  · exact Std.Refl.refl s
  · next m hm =>
    extract_lets s₁ s₂ s₃
    have h₁ : SameKeys s s₁ := .foldl _ s fun s b => .modMember (f := unlist id) s b fun _ => rfl
    have h₂ : SameKeys s₁ s₂ :=
      .foldl _ s₁ fun s l => .modMember (f := undelegate id) s l fun _ => rfl
    have h₃ : SameKeys s₂ s₃ := by
      simp only [s₃]
      split
      · rfl
      · exact .of_eq rfl rfl rfl
    have h : SameKeys s s₃ := IsTrans.trans _ _ _ h₁ (IsTrans.trans _ _ _ h₂ h₃)
    have hrow : s₃.keyBook.rows[id]? = some m.keyRow := by
      rw [show s₃.keyBook = s.keyBook from h]
      exact State.keyBook_row hm
    refine IsTrans.trans _ _ _ h.shrink ?_
    have hbook : State.keyBook { s₃ with
        keyIndex := m.keys.foldl (fun m k => m.erase k) s₃.keyIndex
        members := s₃.members.erase id } = s₃.keyBook.drop id m.keys := by
      refine KeyBook.ext rfl rfl (Std.ExtTreeMap.ext_getElem? fun a => ?_)
      simp only [State.keyBook, KeyBook.drop, Std.ExtTreeMap.getElem?_map,
        Std.ExtTreeMap.getElem?_erase]
      split <;> rfl
    refine ⟨fun hs => hbook ▸ hs.drop hrow, fun a r hr => ?_⟩
    rw [hbook] at hr
    simp only [KeyBook.drop, Std.ExtTreeMap.getElem?_erase] at hr
    split at hr
    · cases hr
    · exact hr

theorem keysShrink_retireEmptyRows (s : State) : KeysShrink s (retireEmptyRows s) :=
  Op.Moves.foldl (R := KeysShrink) (fun s id => keysShrink_retireRow id s) _ s

theorem keysShrink_sweepCranks : Op.Moves KeysShrink sweepCranks := by
  have of_keys : ∀ {α : Type} {op : Tr α}, KeepsKeys op → Op.Moves KeysShrink op :=
    fun h => h.mono fun _ _ => SameKeys.shrink
  unfold sweepCranks
  refine .bind (.ask _) fun due => .bind (.forM fun id _ => ?_) fun _ =>
    .bind (of_keys (.of_bookkeeping (bookkeeping_netRings _))) fun _ => .bind (.ask _) fun sat =>
    .bind (.forM fun id _ => ?_) fun _ => .bind (.ask _) fun closed =>
    .bind (.forM fun id _ => ?_) fun _ =>
    .bind (.write fun s => (keys_pruneClosedRows s).shrink) fun _ => ?_
  · exact .attempt (of_keys (.of_bookkeeping (bookkeeping_markExpired _)))
  · exact .attempt (of_keys (keys_forfeitBonds _))
  · exact .attempt (of_keys (.of_bookkeeping (bookkeeping_arbAward _)))
  · exact .write keysShrink_retireEmptyRows

end Apply

theorem keys_advanceEpoch (s : State) : SameKeys s s.advanceEpoch :=
  .mapMembers (f := fun _ m =>
    { m with
      rep := { m.rep with dIn := F64.zero false, dOut := F64.zero false }
      bondSaturatedEpochs := if m.bondDeniedThisEpoch then m.bondSaturatedEpochs + 1 else 0
      bondDeniedThisEpoch := false
      bondFreeUsed := 0 }) (fun _ _ => rfl) rfl rfl rfl

theorem keys_releaseBonds (s : State) : SameKeys s s.releaseBonds :=
  .mapMembers (f := fun _ m =>
    { m with bonds := m.bonds.filter fun k _ => decide (horizon s.epoch 1 ≤ k) })
    (fun _ _ => rfl) rfl rfl rfl

/-- A boundary only drops rows from the key book. -/
theorem keysShrink_beginBlock (nowSecs : Nat) (s : State) :
    KeysShrink s (s.beginBlock nowSecs) := by
  unfold State.beginBlock
  split
  · exact Std.Refl.refl s
  simp only
  split
  · have hadvance : ∀ (n : Nat) (s : State), SameKeys s (Nat.repeat State.advanceEpoch n s) := by
      intro n s
      induction n with
      | zero => rfl
      | succ n ih => exact IsTrans.trans _ _ _ ih (keys_advanceEpoch _)
    refine IsTrans.trans _ _ _ ?_ (keys_releaseBonds _).shrink
    refine IsTrans.trans _ _ _ ?_ (Apply.keysShrink_sweepCranks _)
    have hstart : SameKeys s { s with lastBeginSecs := nowSecs } := .of_eq rfl rfl rfl
    exact SameKeys.shrink (IsTrans.trans _ _ _ hstart (hadvance _ _))
  · exact SameKeys.shrink (.of_eq rfl rfl rfl)

end Edet
