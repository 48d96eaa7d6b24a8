import Edet.Ledger.Window
import Edet.Ledger.Seating

/-!
# What a transition leaves of the rows

A property of rows reads a few fields of each, its `view` of a row. `RowsKept view` relates
two states where every row of the first is a row of the second with the same view, and a row
that is new has the view of a row just opened (`Blank`). A transition keeps the rows in this
sense if the view reads none of the fields that it writes: `Untouched view tx` says so of
the fields that `tx` itself is about, `IgnoresBooks view` of debts, reputations and
listings, which most transitions write, and `IgnoresCharges view` of what the bond gate
takes. From these follows what a dispatch (`keepsRows_dispatch`), the frame around it and a boundary
(`rowsLeft_beginBlock`) leave of the rows. At a boundary rows are retired, so there only the
rows that are left keep their view.

`exec_apply_cases` takes `apply` apart: an envelope that is not admissible, a gate that
refuses, or a dispatch whose outcome is settled.
-/

namespace Edet

open Edet.Flow

/-- Rows have ids the ledger has handed out. -/
def State.Issued (s : State) : Prop := ∀ id : MemberId, s.nextMember ≤ id → s.members[id]? = none

/-- A row just opened. -/
def Blank (m : Member) : Prop :=
  ∃ (id : MemberId) (keys : List Key) (joinedEpoch : Nat) (seat : Option Seat) (seatSlot : Bool),
    m = { id, keys, joinedEpoch, seat, seatSlot }

variable {β : Type}

/-- The view does not read debts, reputations and listings. -/
structure IgnoresBooks (view : Member → β) : Prop where
  books : ∀ m, view m.offBooks = view m
  listings : ∀ m b l a,
    view { m with beneficiaries := b, supportersOf := l, approvedSupporters := a } = view m

/-- The view does not read what the bond gate takes and an epoch gives back. -/
structure IgnoresCharges (view : Member → β) : Prop where
  charges : ∀ (m : Member) used slot bonds saturated denied,
    view { m with bondFreeUsed := used, seatSlot := slot, bonds, bondSaturatedEpochs := saturated
                  bondDeniedThisEpoch := denied } = view m

/-- The view does not read the fields that the transaction is about. -/
def Untouched (view : Member → β) : Tx → Prop
  | .registerGuardians _ _ _ _ =>
    ∀ m g, view { m with guardian := g, pendingRotation := none } = view m
  | .rotateRequest _ _ | .rotateVeto _ => ∀ m p, view { m with pendingRotation := p } = view m
  | .rotateFinalize _ => ∀ m ks, view { m with keys := ks, pendingRotation := none } = view m
  | .setConsensusKey _ _ => ∀ m k, view { m with consensusKey := k } = view m
  | .exit _ => ∀ m, view { m with status := .exited } = view m
  | .assent _ _ => (∀ m st, view { m with status := st } = view m) ∧
      ∀ scale pi m, view (State.rescaleMember scale pi m) = view m
  | .forfeitBonds _ => ∀ m b,
    view { m with bonds := b, bondSaturatedEpochs := 0, bondDeniedThisEpoch := false } = view m
  | _ => True

/-- Every row is kept as far as the view reads it, and a new row is blank to the view. -/
structure RowsKept (view : Member → β) (s s' : State) : Prop where
  issued : s'.Issued
  next : s.nextMember ≤ s'.nextMember
  kept : ∀ (id : MemberId) (m : Member), s.members[id]? = some m →
    ∃ m', s'.members[id]? = some m' ∧ view m' = view m
  born : ∀ (id : MemberId) (m' : Member), s'.members[id]? = some m' → s.members[id]? = none →
    s.nextMember ≤ id ∧ ∃ m₀, Blank m₀ ∧ view m' = view m₀

/-- What a transition does to the rows of a state whose ids are issued. -/
def KeepsRows (view : Member → β) (s s' : State) : Prop := s.Issued → RowsKept view s s'

instance (view : Member → β) : Std.Refl (KeepsRows view) :=
  by
  refine ⟨fun s hs => ⟨hs, le_rfl, fun _ m hm => ⟨m, hm, rfl⟩, fun id m' hm' h => ?_⟩⟩
  rw [h] at hm'
  cases hm'

instance (view : Member → β) : IsTrans State (KeepsRows view) := by
  refine ⟨fun s s' s'' h h' hs => ?_⟩
  have h₁ := h hs
  have h₂ := h' h₁.issued
  refine ⟨h₂.issued, h₁.next.trans h₂.next, fun id m hm => ?_, fun id m'' hm'' hnone => ?_⟩
  · obtain ⟨m', hm', hv⟩ := h₁.kept id m hm
    obtain ⟨m'', hm'', hv'⟩ := h₂.kept id m' hm'
    exact ⟨m'', hm'', hv'.trans hv⟩
  · cases hmid : s'.members[id]? with
    | none =>
      obtain ⟨hid, hblank⟩ := h₂.born id m'' hm'' hmid
      exact ⟨h₁.next.trans hid, hblank⟩
    | some m' =>
      obtain ⟨hid, m₀, hblank, hv⟩ := h₁.born id m' hmid hnone
      obtain ⟨n, hn, hv'⟩ := h₂.kept id m' hmid
      obtain rfl : m'' = n := Option.some.inj (hm''.symm.trans hn)
      exact ⟨hid, m₀, hblank, hv'.trans hv⟩

/-- The rows are the same rows to the view. -/
structure SameView (view : Member → β) (s s' : State) : Prop where
  next : s'.nextMember = s.nextMember
  rows : ∀ id : MemberId, s'.members[id]?.map view = s.members[id]?.map view

instance (view : Member → β) : Std.Refl (SameView view) := ⟨fun _ => ⟨rfl, fun _ => rfl⟩⟩

instance (view : Member → β) : IsTrans State (SameView view) :=
  ⟨fun _ _ _ h h' => ⟨h'.next.trans h.next, fun id => (h'.rows id).trans (h.rows id)⟩⟩

namespace SameView

variable {view : Member → β}

theorem keeps {s s' : State} (h : SameView view s s') : KeepsRows view s s' := by
  intro hs
  have hnone : ∀ id : MemberId, s.members[id]? = none ↔ s'.members[id]? = none := by
    intro id
    have := h.rows id
    cases hm : s.members[id]? <;> cases hm' : s'.members[id]? <;> simp_all
  refine ⟨fun id hid => (hnone id).1 (hs id (h.next ▸ hid)), h.next.ge, fun id m hm => ?_,
    fun id m' hm' hm => ?_⟩
  · have hrow := h.rows id
    rw [hm, Option.map_some, Option.map_eq_some_iff] at hrow
    exact hrow
  · rw [(hnone id).1 hm] at hm'
    cases hm'

theorem of_eq {s s' : State} (hmembers : s'.members = s.members)
    (hnext : s'.nextMember = s.nextMember) : SameView view s s' :=
  ⟨hnext, fun id => by rw [hmembers]⟩

/-- Writing fields of one row that the view does not read. -/
theorem modMember {f : Member → Member} (hf : ∀ m, view (f m) = view m) (s : State)
    (id : MemberId) : SameView view s (s.modMember id f) := by
  refine ⟨rfl, fun a => ?_⟩
  simp only [State.modMember, OrdMap.getElem?_modify_map, Option.map_map]
  cases s.members[a]? with
  | none => rfl
  | some m =>
    show some (view (if id = a then f m else m)) = some (view m)
    split
    · rw [hf]
    · rfl

/-- Writing fields of all rows that the view does not read. -/
theorem mapMembers {s s' : State} {f : MemberId → Member → Member}
    (hf : ∀ id m, view (f id m) = view m) (hnext : s'.nextMember = s.nextMember)
    (hmembers : s'.members = s.members.map f) : SameView view s s' := by
  refine ⟨hnext, fun a => ?_⟩
  rw [hmembers, Std.ExtTreeMap.getElem?_map, Option.map_map]
  cases s.members[a]? with
  | none => rfl
  | some m => exact congrArg some (hf a m)

theorem foldl {γ : Type} {f : State → γ → State} (l : List γ) (s : State)
    (h : ∀ s x, SameView view s (f s x)) : SameView view s (l.foldl f s) := Op.Moves.foldl h l s

theorem of_offBooks (hbooks : ∀ m, view m.offBooks = view m) {s s' : State}
    (h : OffBooks s s') : SameView view s s' := by
  have hnext : s'.offBooks.nextMember = s.offBooks.nextMember := by rw [h]
  refine ⟨hnext, fun id => ?_⟩
  have hrow := congrArg (Option.map view) (h.members_getElem? id)
  simp only [Option.map_map] at hrow
  have hviews : view ∘ Member.offBooks = view := funext hbooks
  rwa [hviews] at hrow

end SameView

namespace Apply

variable {view : Member → β}

/-- A transition after which the view reads the same rows. -/
abbrev KeepsView {α : Type} (view : Member → β) (op : Tr α) : Prop := Op.Moves (SameView view) op

theorem KeepsView.of_bookkeeping (hbooks : ∀ m, view m.offBooks = view m) {α : Type} {op : Tr α}
    (h : Bookkeeping op) : KeepsView view op := fun s => .of_offBooks hbooks (h s)

theorem KeepsView.keepsRows {α : Type} {op : Tr α} (h : KeepsView view op) :
    Op.Moves (KeepsRows view) op := fun s => (h s).keeps

theorem keepsView_memberMut {id : MemberId} {f : Member → Member}
    (hf : ∀ m, view (f m) = view m) : KeepsView view (memberMut id f) := by
  unfold memberMut
  exact .bind (.check _) fun _ => .write fun s => .modMember hf s id

/-! ### Listings, supplies and bonds -/

theorem keepsView_unlist (hview : IgnoresBooks view) (id : MemberId) (l : List MemberId)
    (s : State) : SameView view s (l.foldl (fun s b => s.modMember b (unlist id)) s) :=
  .foldl l s fun s b => .modMember (fun m => hview.listings m _ _ _) s b

theorem keepsView_undelegate (hview : IgnoresBooks view) (id : MemberId) (l : List MemberId)
    (s : State) : SameView view s (l.foldl (fun s b => s.modMember b (undelegate id)) s) :=
  .foldl l s fun s b => .modMember (fun m => hview.listings m _ _ _) s b

theorem keepsView_listBeneficiaries (hview : IgnoresBooks view) (supporter : MemberId)
    (entries : List (MemberId × F64)) (signers : List Key) :
    KeepsView view (listBeneficiaries supporter entries signers) := by
  unfold listBeneficiaries
  refine .bind (.check _) fun _ => .bind (.check _) fun _ => .bind (.refuseIf _ _) fun _ => ?_
  refine .bind (.forM fun e _ => .bind (.refuseIf _ _) fun _ => .bind (.check _) fun _ => .pure _)
    fun _ => .bind (.check _) fun self => .bind (.write fun s => ?_) fun _ => ?_
  · refine SameView.foldl _ s fun s b => ?_
    split
    · exact Std.Refl.refl s
    · exact .modMember (fun m => hview.listings m _ _ _) s b
  · refine .bind (.forM fun e _ => .ite (fun _ => ?_) fun _ => .pure _) fun _ => ?_
    · exact keepsView_memberMut fun m => hview.listings m _ _ _
    · exact keepsView_memberMut fun m => hview.listings m _ _ _

theorem keepsView_approveSupporter (hview : IgnoresBooks view) (beneficiary supporter : MemberId)
    (approved : Bool) (signers : List Key) :
    KeepsView view (approveSupporter beneficiary supporter approved signers) := by
  unfold approveSupporter
  refine .bind (.check _) fun _ => .ite (fun _ => ?_) fun _ =>
    keepsView_memberMut fun m => hview.listings m _ _ _
  exact .bind (.check _) fun _ => .bind (.refuseIf _ _) fun _ =>
    keepsView_memberMut fun m => hview.listings m _ _ _

theorem keepsView_declareSupply (id : MemberId) (supply : F64) (signers : List Key) :
    KeepsView view (declareSupply id supply signers) := by
  unfold declareSupply
  refine .bind (.check _) fun _ => .bind (.check _) fun _ => .bind (.refuseIf _ _) fun _ =>
    .bind (.refuseIf _ _) fun _ => .bind (.ask _) fun _ => .bind (.refuseIf _ _) fun _ =>
    .bind (.ask _) fun _ => .bind (.refuseIf _ _) fun _ => ?_
  exact .write fun _ => .of_eq rfl rfl

theorem keepsView_forfeitBonds (target : MemberId)
    (hview : Untouched view (.forfeitBonds target)) : KeepsView view (forfeitBonds target) := by
  unfold forfeitBonds
  refine .bind (.check _) fun m => .bind (.ask _) fun _ => .bind (.refuseIf _ _) fun _ =>
    .bind (.ask _) fun _ => .bind (.refuseIf _ _) fun _ => ?_
  exact .bind (keepsView_memberMut fun m => hview m ∅) fun _ => .write fun _ => .of_eq rfl rfl

/-! ### Keys and guardians -/

theorem keepsView_registerGuardians (id : MemberId) (guardians : List MemberId)
    (threshold window : Nat) (signers : List Key)
    (hview : Untouched view (.registerGuardians id guardians threshold window)) :
    KeepsView view (registerGuardians id guardians threshold window signers) := by
  unfold registerGuardians
  refine .bind (.check _) fun _ => .bind (.refuseIf _ _) fun _ => .bind (.refuseIf _ _) fun _ =>
    .bind (.forM fun g _ => .bind (.check _) fun _ => .refuseIf _ _) fun _ => ?_
  exact keepsView_memberMut fun m => hview m _

theorem keepsView_rotateRequest (id : MemberId) (newKeys : List Key) (signers : List Key)
    (hview : Untouched view (.rotateRequest id newKeys)) :
    KeepsView view (rotateRequest id newKeys signers) := by
  unfold rotateRequest
  refine .bind (.check _) fun m => ?_
  cases m.guardian with
  | none => exact .refuse _
  | some cfg =>
    exact .bind (.refuseIf _ _) fun _ => .bind (.ask _) fun _ => .bind (.refuseIf _ _) fun _ =>
      .bind (.ask _) fun _ => .bind (.refuseIf _ _) fun _ => .bind (.ask _) fun _ =>
      keepsView_memberMut fun m => hview m _

theorem keepsView_rotateVeto (id : MemberId) (signers : List Key)
    (hview : Untouched view (.rotateVeto id)) : KeepsView view (rotateVeto id signers) := by
  unfold rotateVeto
  exact .bind (.check _) fun _ => .bind (.check _) fun _ => .bind (.refuseIf _ _) fun _ =>
    keepsView_memberMut fun m => hview m _

theorem keepsView_rotateFinalize (id : MemberId) (hview : Untouched view (.rotateFinalize id)) :
    KeepsView view (rotateFinalize id) := by
  unfold rotateFinalize
  refine .bind (.check _) fun m => ?_
  cases m.guardian with
  | none => exact .refuse _
  | some cfg =>
    cases m.pendingRotation with
    | none => exact .refuse _
    | some p =>
      exact .bind (.ask _) fun _ => .bind (.refuseIf _ _) fun _ =>
        .bind (.write fun _ => .of_eq rfl rfl) fun _ => keepsView_memberMut fun m => hview m _

theorem keepsView_setConsensusKey (id : MemberId) (key : Option Key) (signers : List Key)
    (hview : Untouched view (.setConsensusKey id key)) :
    KeepsView view (setConsensusKey id key signers) := by
  unfold setConsensusKey
  refine .bind (.check _) fun _ => .bind (.check _) fun _ => ?_
  cases key with
  | some k =>
    exact .bind (.ask _) fun _ => .bind (.refuseIf _ _) fun _ => .bind (.ask _) fun _ =>
      .bind (.refuseIf _ _) fun _ => keepsView_memberMut fun m => hview m _
  | none =>
    exact .bind (.ask _) fun _ => .bind (.refuseIf _ _) fun _ =>
      keepsView_memberMut fun m => hview m _

/-! ### Leaving and governance -/

theorem keepsView_exit (hbooks : IgnoresBooks view) (id : MemberId) (signers : List Key)
    (hview : Untouched view (.exit id)) : KeepsView view (exit id signers) := by
  unfold exit
  refine .bind (.check _) fun _ => .bind (.check _) fun m => .bind (.refuseIf _ _) fun _ =>
    .bind (.ask _) fun _ => .bind (.refuseIf _ _) fun _ => .bind (.refuseIf _ _) fun _ =>
    .bind (.ask _) fun _ => .bind (.refuseIf _ _) fun _ => .bind (.ask _) fun _ =>
    .bind (.refuseIf _ _) fun _ => .bind (.write fun s => keepsView_unlist hbooks id _ s) fun _ =>
    .bind (.check _) fun m => .bind (.write fun s => keepsView_undelegate hbooks id _ s) fun _ =>
    .bind (.write fun _ => .of_eq rfl rfl) fun _ => ?_
  refine keepsView_memberMut fun m => ?_
  exact (hbooks.listings { m with status := .exited } ∅ ∅ ∅).trans (hview m)

theorem keepsView_rescale (hbooks : ∀ m, view m.offBooks = view m)
    (hview : ∀ scale pi m, view (State.rescaleMember scale pi m) = view m) (s : State) (pi : F64) :
    SameView view s (s.rescale pi) := by
  unfold State.rescale State.rescaleWith
  extract_lets s₁ s₂ s₃ s₄ s₅ byDebtor
  have h₁ : SameView view s s₁ :=
    .mapMembers (f := fun _ m => State.rescaleMember (scaleMinor · pi) pi m)
      (fun _ m => hview _ _ m) rfl rfl
  have h₂ : SameView view s₁ s₂ := .of_offBooks hbooks (offBooks_shave s₁)
  have h₅ : SameView view s₂ s₅ := .of_eq rfl rfl
  have hdebt : ∀ (m : Member) (d : Nat), view { m with debtOut := d } = view m := fun m d =>
    (hbooks _).symm.trans (hbooks m)
  refine IsTrans.trans _ _ _ h₁ <| IsTrans.trans _ _ _ h₂ <| IsTrans.trans _ _ _ h₅ ?_
  exact .mapMembers (f := fun id m => { m with debtOut := OrdMap.getD' byDebtor id 0 })
    (fun _ m => hdebt m _) rfl rfl

theorem keepsView_enact (hbooks : ∀ m, view m.offBooks = view m) (kind : ProposalKind)
    (author : MemberId) (hview : Untouched view (.assent author 0)) : KeepsView view (enact kind author) := by
  unfold enact
  cases kind with
  | paramChange key value => exact .write fun _ => .of_eq rfl rfl
  | redenominate num den =>
    refine .write fun s => ?_
    have hscaled := keepsView_rescale hbooks hview.2 s (ratio num den)
    exact ⟨hscaled.next, hscaled.rows⟩
  | suspend target =>
    exact .bind (.ask _) fun _ => .bind (.refuseIf _ _) fun _ =>
      .bind (keepsView_memberMut fun m => hview.1 m _) fun _ => .write fun _ => .of_eq rfl rfl
  | unsuspend target => exact keepsView_memberMut fun m => hview.1 m _
  | validatorPower target power =>
    refine .ite (fun _ => ?_) fun _ => ?_
    · exact .bind (.check _) fun _ => .write fun _ => .of_eq rfl rfl
    · exact .bind (.ask _) fun _ => .bind (.refuseIf _ _) fun _ => .write fun _ => .of_eq rfl rfl
  | seedAmendment amount => exact .bind (.check _) fun _ => .write fun _ => .of_eq rfl rfl

theorem keepsView_assent (hbooks : ∀ m, view m.offBooks = view m) (id : MemberId)
    (proposal : ProposalId) (signers : List Key) (hview : Untouched view (.assent id proposal)) :
    KeepsView view (assent id proposal signers) := by
  unfold assent
  refine .bind (quiet_mayAssent _ _ _).moves fun carried =>
    .bind (.write fun _ => .of_eq rfl rfl) fun _ => .ite (fun _ => ?_) fun _ => .pure _
  exact .bind (keepsView_enact hbooks _ _ hview) fun _ => .write fun _ => .of_eq rfl rfl

/-! ### Seats -/

theorem keepsView_reserveSeats (sponsor : Option MemberId) (parties : List Resolved)
    (held : List (MemberId × Held)) : KeepsView view (reserveSeats sponsor parties held) :=
  moves_reserveSeats (fun _ _ _ => .of_eq rfl rfl) _ _ _

/-- A row is opened on an id that no row has. -/
theorem keepsRows_openRow (s : State) (k : Key) (sponsor : MemberId) (held : Held) :
    KeepsRows view s (s.openRow k sponsor held) := by
  intro hs
  have hfree : s.members[s.nextMember]? = none := hs _ le_rfl
  refine ⟨fun id hid => ?_, Nat.le_succ _, fun id m hm => ?_, fun id m' hm' hm => ?_⟩
  · rw [State.openRow_nextMember] at hid
    rw [State.openRow_other s k sponsor held (Nat.ne_of_lt hid)]
    exact hs id (Nat.le_of_succ_le hid)
  · have hne : s.nextMember ≠ id := by
      rintro rfl
      rw [hfree] at hm
      cases hm
    exact ⟨m, (State.openRow_other s k sponsor held hne).trans hm, rfl⟩
  · by_cases hid : s.nextMember = id
    · subst hid
      rw [State.openRow_row] at hm'
      obtain rfl : s.seatedRow k sponsor held = m' := Option.some.inj hm'
      exact ⟨le_rfl, _, ⟨_, _, _, _, _, rfl⟩, rfl⟩
    · rw [State.openRow_other s k sponsor held hid, hm] at hm'
      cases hm'

theorem keepsRows_seatParty (party : Resolved) (taken : List (MemberId × Held)) :
    Op.Moves (KeepsRows view) (seatParty party taken) := by
  cases party with
  | existing id => exact .pure _
  | fresh k =>
    cases taken with
    | nil => exact .refuse _
    | cons t taken => exact fun s => keepsRows_openRow s k t.1 t.2

theorem keepsRows_seatPair (first second : Resolved) (sponsor : Option MemberId) :
    Op.Moves (KeepsRows view) (seatPair first second sponsor) := by
  unfold seatPair
  exact .bind (keepsView_reserveSeats _ _ _).keepsRows fun _ => .bind (keepsRows_seatParty _ _)
    fun _ => .bind (keepsRows_seatParty _ _) fun _ => .pure _

theorem keepsRows_accept (hview : IgnoresBooks view) (debtor creditor : Party) (amount : F64)
    (maturityEpochs : Nat) (arb : Option ArbTermsWire) (signers : List Key)
    (sponsor : Option MemberId) : Op.Moves (KeepsRows view)
      (accept debtor creditor amount maturityEpochs arb signers sponsor) := by
  unfold accept
  refine .bind (quiet_acceptTerms _ _ _ _ _ _).moves fun _ =>
    .bind (keepsRows_seatPair _ _ _) fun _ => ?_
  exact .bind (KeepsView.of_bookkeeping hview.books (bookkeeping_book _ _ _ _ _)).keepsRows fun _ =>
    .pure _

theorem keepsRows_sale (hview : IgnoresBooks view) (seller buyer : Party) (amount : F64)
    (maturityEpochs : Nat) (signers : List Key) (sponsor : Option MemberId) :
    Op.Moves (KeepsRows view)
      (Cascade.sale seller buyer amount maturityEpochs signers sponsor) := by
  unfold Cascade.sale
  refine .bind (quiet_saleTerms _ _ _ _ _).moves fun _ =>
    .bind (keepsRows_seatPair _ _ _) fun _ =>
    .bind (KeepsView.of_bookkeeping hview.books (bookkeeping_netMutual _ _ _)).keepsRows fun _ =>
    .ite (fun _ => .pure _) fun _ => .bind (.ask _) fun _ => ?_
  exact (KeepsView.of_bookkeeping hview.books (Cascade.bookkeeping_originate _ _ _ _)).keepsRows

/-! ### Dispatch and apply -/

section Dispatch

variable [Libm]

theorem keepsView_propose (author : MemberId) (kind : ProposalKind) (signers : List Key) :
    KeepsView view (propose author kind signers) := by
  unfold propose
  exact .bind (.check _) fun _ => .bind (.check _) fun _ => .bind (.ask _) fun _ =>
    .bind (.refuseIf _ _) fun _ => .bind (.check _) fun _ => .write fun _ => .of_eq rfl rfl

/-- **A transaction keeps the rows** as far as a view reads them that reads nothing the
transaction is about. -/
theorem keepsRows_dispatch (hview : IgnoresBooks view) (tx : Tx) (signers : List Key)
    (sponsor : Option MemberId) (htx : Untouched view tx) :
    Op.Moves (KeepsRows view) (dispatch tx signers sponsor) := by
  have of_books : ∀ {op : Tr Unit}, Bookkeeping op → Op.Moves (KeepsRows view) op :=
    fun h => (KeepsView.of_bookkeeping hview.books h).keepsRows
  cases tx with
  | registerGuardians => exact (keepsView_registerGuardians _ _ _ _ _ htx).keepsRows
  | rotateRequest => exact (keepsView_rotateRequest _ _ _ htx).keepsRows
  | rotateVeto => exact (keepsView_rotateVeto _ _ htx).keepsRows
  | rotateFinalize => exact (keepsView_rotateFinalize _ htx).keepsRows
  | setConsensusKey => exact (keepsView_setConsensusKey _ _ _ htx).keepsRows
  | declareSupply => exact (keepsView_declareSupply _ _ _).keepsRows
  | accept => exact keepsRows_accept hview _ _ _ _ _ _ _
  | transfer => exact of_books (bookkeeping_transfer _ _ _)
  | settle => exact of_books (bookkeeping_repayment _ _ _ _ _ _)
  | extend => exact of_books (bookkeeping_extend _ _ _)
  | markExpired => exact of_books (bookkeeping_markExpired _)
  | cure => exact of_books (bookkeeping_repayment _ _ _ _ _ _)
  | listBeneficiaries => exact (keepsView_listBeneficiaries hview _ _ _).keepsRows
  | approveSupporter => exact (keepsView_approveSupporter hview _ _ _ _).keepsRows
  | sale => exact keepsRows_sale hview _ _ _ _ _ _
  | arbAttest => exact of_books (bookkeeping_arbAttest _ _ _ _)
  | exit => exact (keepsView_exit hview _ _ htx).keepsRows
  | propose => exact (keepsView_propose _ _ _).keepsRows
  | assent => exact (keepsView_assent hview.books _ _ _ htx).keepsRows
  | forfeitBonds => exact (keepsView_forfeitBonds _ htx).keepsRows

end Dispatch

theorem keepsView_bondGate (hview : IgnoresCharges view) (tx : Tx) (signers : List Key) :
    KeepsView view (bondGate tx signers) := by
  have hencumber : ∀ (payer : MemberId) (bond : Nat), KeepsView view (encumber payer bond) := by
    intro payer bond
    unfold encumber
    exact .bind (.ask _) fun _ =>
      .bind (keepsView_memberMut fun m => hview.charges m _ _ _ _ _) fun _ => .pure _
  have hheadroom : ∀ (payer : MemberId) (bond : Nat),
      KeepsView view (requireHeadroom payer bond) := by
    intro payer bond
    unfold requireHeadroom
    refine .bind (.check _) fun _ => .bind (.refuseIf _ _) fun _ => .bind (.ask _) fun _ =>
      .ite (fun _ => ?_) fun _ => .pure _
    exact .bind (keepsView_memberMut fun m => hview.charges m _ _ _ _ _) fun _ => .refuse _
  unfold bondGate
  refine .bind (.ask _) fun due => ?_
  cases due with
  | free => exact .pure _
  | allowance payer =>
    exact .bind (keepsView_memberMut fun m => hview.charges m _ _ _ _ _) fun _ => .pure _
  | slot payer =>
    exact .bind (keepsView_memberMut fun m => hview.charges m _ _ _ _ _) fun _ => .pure _
  | bond payer bond =>
    exact .bind (hheadroom _ _) fun _ => .bind (hencumber _ _) fun _ => .pure _
  | seat payer bond rows =>
    exact .bind (hheadroom _ _) fun _ => .bind (.ask _) fun _ => .bind (.refuseIf _ _) fun _ =>
      .bind (hencumber _ _) fun _ => .pure _
  | unpayable => exact .refuse _

theorem sameView_forgetApplied (s : State) (txId : TxId) (notAfterEpoch : Nat) :
    SameView view s (s.forgetApplied txId notAfterEpoch) := by
  unfold State.forgetApplied
  split <;> exact .of_eq rfl rfl

theorem sameView_refund (hview : IgnoresCharges view) (charged : Charged) (s : State) :
    SameView view s (refund charged s) := by
  cases charged with
  | free => exact Std.Refl.refl s
  | allowance payer => exact .modMember (fun m => hview.charges m _ _ _ _ _) s _
  | slot payer => exact .modMember (fun m => hview.charges m _ _ _ _ _) s _
  | bond payer releaseAt amount =>
    refine .modMember (fun m => ?_) s _
    split
    · rfl
    · exact hview.charges m _ _ _ _ _

theorem sameView_priceRefusal (hview : IgnoresCharges view) (subject : Option MemberId)
    (signers : List Key) (s : State) :
    SameView view s (priceRefusal subject signers s).2 := by
  unfold priceRefusal
  dsimp only
  split
  · exact .modMember (fun m => hview.charges m _ _ _ _ _) s _
  · split
    · exact .modMember (fun m => hview.charges m _ _ _ _ _) s _
    · exact Std.Refl.refl s

theorem sameView_settleOutcome (hview : IgnoresCharges view) (tx : Tx) (txId : TxId)
    (notAfterEpoch : Nat) (signers : List Key) (charged : Charged) (outcome : Res Unit)
    (s : State) :
    SameView view s (settleOutcome tx txId notAfterEpoch signers charged outcome s) :=
  settleOutcome_moves sameView_forgetApplied (fun s charged => sameView_refund hview charged s)
    (fun s subject signers => sameView_priceRefusal hview subject signers s) tx txId notAfterEpoch
    signers charged outcome s

section Apply

variable [Libm]

/-- **The three ways through `apply`**: the envelope is not admissible in the state the
block opens with, the bond gate refuses it, or it is charged, recorded and dispatched, and
what its outcome still costs is settled. -/
theorem exec_apply_cases (tx : Tx) (txId : TxId) (notAfterEpoch : Nat) (signers : List Key)
    (nowSecs : Nat) (s : State) :
    (∃ e, admissible (s.beginBlock nowSecs) txId notAfterEpoch = .error e ∧
      Op.exec (apply tx txId notAfterEpoch signers nowSecs) s = (.error e, s.beginBlock nowSecs)) ∨
    (admissible (s.beginBlock nowSecs) txId notAfterEpoch = .ok () ∧
      ∃ e t, Op.exec (bondGate tx signers) (s.beginBlock nowSecs) = (.error e, t) ∧
        Op.exec (apply tx txId notAfterEpoch signers nowSecs) s = (.error e, t)) ∨
    (admissible (s.beginBlock nowSecs) txId notAfterEpoch = .ok () ∧
      ∃ charged sponsor t outcome u,
        Op.exec (bondGate tx signers) (s.beginBlock nowSecs) = (.ok (charged, sponsor), t) ∧
        Op.exec (dispatch tx signers sponsor) (t.recordApplied txId notAfterEpoch) = (outcome, u) ∧
        Op.exec (apply tx txId notAfterEpoch signers nowSecs) s =
          (outcome, settleOutcome tx txId notAfterEpoch signers charged outcome u)) := by
  unfold apply
  rw [Op.exec_bind, Op.exec_write]
  dsimp only
  rw [Op.exec_bind, Op.exec_check]
  cases hadm : admissible (s.beginBlock nowSecs) txId notAfterEpoch with
  | error e => exact Or.inl ⟨e, rfl, rfl⟩
  | ok a =>
    refine Or.inr ?_
    dsimp only
    rw [Op.exec_bind]
    cases hgate : Op.exec (bondGate tx signers) (s.beginBlock nowSecs) with
    | mk result t =>
      cases result with
      | error e => exact Or.inl ⟨rfl, e, t, rfl, rfl⟩
      | ok p =>
        obtain ⟨charged, sponsor⟩ := p
        refine Or.inr ⟨rfl, charged, sponsor, t, _, _, rfl, rfl, ?_⟩
        rfl

end Apply

/-! ### Boundaries -/

end Apply

/-- The rows that are left are rows there were, with the same view. -/
structure RowsLeft (view : Member → β) (s s' : State) : Prop where
  next : s'.nextMember = s.nextMember
  rows : ∀ (id : MemberId) (m' : Member), s'.members[id]? = some m' →
    ∃ m, s.members[id]? = some m ∧ view m' = view m

instance (view : Member → β) : Std.Refl (RowsLeft view) :=
  ⟨fun _ => ⟨rfl, fun _ m hm => ⟨m, hm, rfl⟩⟩⟩

instance (view : Member → β) : IsTrans State (RowsLeft view) := by
  refine ⟨fun s s' s'' h h' => ⟨h'.next.trans h.next, fun id m'' hm'' => ?_⟩⟩
  obtain ⟨m', hm', hv'⟩ := h'.rows id m'' hm''
  obtain ⟨m, hm, hv⟩ := h.rows id m' hm'
  exact ⟨m, hm, hv'.trans hv⟩

variable {view : Member → β}

theorem SameView.rowsLeft {s s' : State} (h : SameView view s s') : RowsLeft view s s' := by
  refine ⟨h.next, fun id m' hm' => ?_⟩
  have hrow := h.rows id
  rw [hm', Option.map_some, eq_comm, Option.map_eq_some_iff] at hrow
  obtain ⟨m, hm, hv⟩ := hrow
  exact ⟨m, hm, hv.symm⟩

theorem RowsLeft.issued {s s' : State} (h : RowsLeft view s s') (hs : s.Issued) : s'.Issued := by
  intro id hid
  cases hm : s'.members[id]? with
  | none => rfl
  | some m' =>
    obtain ⟨m, hm, -⟩ := h.rows id m' hm
    rw [hs id (h.next ▸ hid)] at hm
    cases hm

namespace Apply

theorem rowsLeft_retireRow (hview : IgnoresBooks view) (id : MemberId) (s : State) :
    RowsLeft view s (retireRow id s) := by
  unfold retireRow
  split
  · exact Std.Refl.refl s
  · next m hm =>
    extract_lets s₁ s₂ s₃
    have h₁ : SameView view s s₁ := keepsView_unlist hview id _ s
    have h₂ : SameView view s₁ s₂ := keepsView_undelegate hview id _ s₁
    have h₃ : SameView view s₂ s₃ := by
      simp only [s₃]
      split
      · exact Std.Refl.refl s₂
      · exact .of_eq rfl rfl
    have h : SameView view s s₃ := IsTrans.trans _ _ _ h₁ (IsTrans.trans _ _ _ h₂ h₃)
    refine IsTrans.trans _ _ _ h.rowsLeft ⟨rfl, fun a m' hm' => ?_⟩
    dsimp only at hm'
    rw [Std.ExtTreeMap.getElem?_erase] at hm'
    split at hm'
    · cases hm'
    · exact ⟨m', hm', rfl⟩

theorem rowsLeft_sweepCranks (hview : IgnoresBooks view) (hcharges : IgnoresCharges view) :
    Op.Moves (RowsLeft view) sweepCranks := by
  have of_view : ∀ {α : Type} {op : Tr α}, KeepsView view op → Op.Moves (RowsLeft view) op :=
    fun h s => (h s).rowsLeft
  unfold sweepCranks
  refine .bind (.ask _) fun due => .bind (.forM fun id _ => ?_) fun _ =>
    .bind (of_view (.of_bookkeeping hview.books (bookkeeping_netRings _))) fun _ => .bind (.ask _) fun sat =>
    .bind (.forM fun id _ => ?_) fun _ => .bind (.ask _) fun closed =>
    .bind (.forM fun id _ => ?_) fun _ =>
    .bind (.write fun s => SameView.rowsLeft ⟨rfl, fun _ => rfl⟩) fun _ => ?_
  · exact .attempt (of_view (.of_bookkeeping hview.books (bookkeeping_markExpired _)))
  · refine .attempt (of_view (keepsView_forfeitBonds _ fun m b => ?_))
    exact hcharges.charges m _ _ _ _ _
  · exact .attempt (of_view (.of_bookkeeping hview.books (bookkeeping_arbAward _)))
  · exact .write fun s => Op.Moves.foldl (R := RowsLeft view)
      (fun s id => rowsLeft_retireRow hview id s) _ s

end Apply

theorem sameView_advanceEpoch (hbooks : ∀ m, view m.offBooks = view m) (hcharges : IgnoresCharges view)
    (s : State) : SameView view s s.advanceEpoch := by
  have hrep : ∀ (m : Member) (r : Reputation), view { m with rep := r } = view m := fun m r =>
    (hbooks _).symm.trans (hbooks m)
  refine .mapMembers (f := fun _ m =>
    { m with
      rep := { m.rep with dIn := F64.zero false, dOut := F64.zero false }
      bondSaturatedEpochs := if m.bondDeniedThisEpoch then m.bondSaturatedEpochs + 1 else 0
      bondDeniedThisEpoch := false
      bondFreeUsed := 0 }) (fun _ m => ?_) rfl rfl
  exact (hcharges.charges { m with rep := { m.rep with dIn := F64.zero false, dOut := F64.zero false } }
    _ _ _ _ _).trans (hrep m _)

/-- **A boundary keeps the rows it leaves**, as far as a view reads them that reads neither
books nor charges. -/
theorem rowsLeft_beginBlock (hview : IgnoresBooks view) (hcharges : IgnoresCharges view)
    (nowSecs : Nat) (s : State) : RowsLeft view s (s.beginBlock nowSecs) := by
  unfold State.beginBlock
  split
  · exact Std.Refl.refl s
  dsimp only
  have hstart : SameView view s { s with lastBeginSecs := nowSecs } := .of_eq rfl rfl
  split
  · have hadvance : ∀ (n : Nat) (s : State), SameView view s (Nat.repeat State.advanceEpoch n s) := by
      intro n s
      induction n with
      | zero => exact Std.Refl.refl s
      | succ n ih => exact IsTrans.trans _ _ _ ih (sameView_advanceEpoch hview.books hcharges _)
    have hreleased : ∀ s : State, SameView view s s.releaseBonds := fun s =>
      .mapMembers (f := fun _ m =>
        { m with bonds := m.bonds.filter fun k _ => decide (horizon s.epoch 1 ≤ k) })
        (fun _ m => hcharges.charges m _ _ _ _ _) rfl rfl
    refine IsTrans.trans _ _ _ ?_ (hreleased _).rowsLeft
    refine IsTrans.trans _ _ _ ?_ (Apply.rowsLeft_sweepCranks hview hcharges _)
    exact (IsTrans.trans _ _ _ hstart (hadvance _ _)).rowsLeft
  · exact hstart.rowsLeft

/-! ### How a boundary ends -/

namespace Apply

/-- A sweep moves obligations and forfeits bonds, and then prunes and retires. -/
theorem sweepCranks_ends {R : State → State → Prop} [Std.Refl R] [IsTrans State R]
    (hbooks : ∀ s s', OffBooks s s' → R s s') (hforfeit : ∀ id, Op.Moves R (forfeitBonds id))
    (s : State) : ∃ u, R s u ∧ ((Op.exec sweepCranks s).2 = u ∨
      (Op.exec sweepCranks s).2 = retireEmptyRows (pruneClosedRows u)) := by
  have of_books : ∀ {α : Type} {op : Tr α}, Bookkeeping op → Op.Moves R op :=
    fun h s => hbooks _ _ (h s)
  have keeps : ∀ {α : Type} {op : Tr α}, Op.Moves R op →
      Op.Triple (R s) op (fun _ => R s) (R s) :=
    fun h => h.triple fun _ _ hR hs => IsTrans.trans _ _ _ hs hR
  have hend : Op.Triple (R s) sweepCranks
      (fun _ t => ∃ u, R s u ∧ t = retireEmptyRows (pruneClosedRows u)) (R s) := by
    unfold sweepCranks
    refine .bind (keeps (.ask _)) fun due => .bind (keeps (.forM fun id _ => ?_)) fun _ =>
      .bind (keeps (of_books (bookkeeping_netRings _))) fun _ => .bind (keeps (.ask _)) fun sat =>
      .bind (keeps (.forM fun id _ => ?_)) fun _ => .bind (keeps (.ask _)) fun closed =>
      .bind (keeps (.forM fun id _ => ?_)) fun _ => ?_
    · exact .attempt (of_books (bookkeeping_markExpired _))
    · exact .attempt (hforfeit _)
    · exact .attempt (of_books (bookkeeping_arbAward _))
    · refine .bind (Q := fun _ t => ∃ u, R s u ∧ t = pruneClosedRows u)
        (.write fun t ht => ⟨t, ht, rfl⟩) fun _ => .write fun t ht => ?_
      obtain ⟨u, hu, rfl⟩ := ht
      exact ⟨u, hu, rfl⟩
  have hs := hend s (Std.Refl.refl s)
  rcases hexec : Op.exec sweepCranks s with ⟨_ | _, t⟩ <;> rw [hexec] at hs
  · exact ⟨t, hs, Or.inl rfl⟩
  · obtain ⟨u, hu, ht⟩ := hs
    exact ⟨u, hu, Or.inr ht⟩

end Apply

/-- What a boundary does: epochs pass and obligations move, then rows may be pruned and
retired, and bonds are released. -/
theorem beginBlock_ends {R : State → State → Prop} [Std.Refl R] [IsTrans State R]
    (hbooks : ∀ s s', OffBooks s s' → R s s')
    (hforfeit : ∀ id, Op.Moves R (Apply.forfeitBonds id))
    (hclock : ∀ (s : State) n, R s { s with lastBeginSecs := n })
    (hadvance : ∀ s : State, R s s.advanceEpoch) (hrelease : ∀ s : State, R s s.releaseBonds)
    (nowSecs : Nat) (s : State) : ∃ u v, R s u ∧
      (v = u ∨ v = Apply.retireEmptyRows (Apply.pruneClosedRows u)) ∧
      R v (s.beginBlock nowSecs) := by
  unfold State.beginBlock
  split
  · exact ⟨s, s, Std.Refl.refl s, Or.inl rfl, Std.Refl.refl s⟩
  dsimp only
  split
  · have hpass : ∀ (n : Nat) (s : State), R s (Nat.repeat State.advanceEpoch n s) := by
      intro n s
      induction n with
      | zero => exact Std.Refl.refl s
      | succ n ih => exact IsTrans.trans _ _ _ ih (hadvance _)
    obtain ⟨u, hu, hend⟩ := Apply.sweepCranks_ends hbooks hforfeit (Nat.repeat State.advanceEpoch
      (State.targetEpoch { s with lastBeginSecs := nowSecs } nowSecs - s.epoch)
      { s with lastBeginSecs := nowSecs })
    exact ⟨u, _, IsTrans.trans _ _ _ (hclock s nowSecs) (IsTrans.trans _ _ _ (hpass _ _) hu), hend,
      hrelease _⟩
  · exact ⟨_, _, hclock s nowSecs, Or.inl rfl, Std.Refl.refl _⟩

/-- Retiring rows drops no row that is not among them. -/
theorem Apply.getElem?_foldl_retireRow {id : MemberId} (l : List MemberId) (hid : id ∉ l)
    {s : State} {m : Member} (hm : s.members[id]? = some m) :
    ∃ m', (l.foldl (fun s a => retireRow a s) s).members[id]? = some m' := by
  induction l generalizing s m with
  | nil => exact ⟨m, hm⟩
  | cons a l ih =>
    have hne : a ≠ id := fun h => hid (h ▸ List.mem_cons_self)
    have hrow : ∃ m', (retireRow a s).members[id]? = some m' := by
      unfold retireRow
      split
      · exact ⟨m, hm⟩
      · next r hr =>
        extract_lets s₁ s₂ s₃
        have hview : IgnoresBooks fun _ : Member => () := ⟨fun _ => rfl, fun _ _ _ _ => rfl⟩
        have h₁ := (keepsView_unlist hview a (r.beneficiaries.toList.map Prod.fst) s).rows id
        have h₂ := (keepsView_undelegate hview a r.supportersOf.toList s₁).rows id
        have h₃ : s₃.members = s₂.members := by
          simp only [s₃]
          split <;> rfl
        have hthere : (s₃.members[id]?).isSome := by
          rw [h₃, ← Option.isSome_map (f := fun _ : Member => ()), h₂, h₁, hm]
          rfl
        obtain ⟨m', hm'⟩ := Option.isSome_iff_exists.1 hthere
        refine ⟨m', ?_⟩
        dsimp only
        rwa [Std.ExtTreeMap.getElem?_erase, if_neg fun h =>
          hne (Std.LawfulEqCmp.compare_eq_iff_eq.1 h)]
    obtain ⟨m', hm'⟩ := hrow
    exact ih (fun h => hid (List.mem_cons_of_mem _ h)) hm'

/-! ### Genesis -/

/-- An account opened for keys that have none yet. -/
theorem keepsRows_newAccount (s : State) (keys : List Key) :
    KeepsRows view s (s.newAccount keys).2 := by
  intro hs
  have hrow : ∀ id : MemberId, (s.newAccount keys).2.members[id]? =
      if s.nextMember = id then
        some { id := s.nextMember, keys, joinedEpoch := s.epoch }
      else s.members[id]? := by
    intro id
    simp only [State.newAccount, Std.ExtTreeMap.getElem?_insert, Std.compare_eq_iff_eq]
  refine ⟨fun id hid => ?_, Nat.le_succ _, fun id m hm => ?_, fun id m' hm' hm => ?_⟩
  · rw [hrow, if_neg (Nat.ne_of_lt hid)]
    exact hs id (Nat.le_of_succ_le hid)
  · rw [hrow]
    split
    · next hid =>
      subst hid
      rw [hs _ le_rfl] at hm
      cases hm
    · exact ⟨m, hm, rfl⟩
  · rw [hrow] at hm'
    split at hm'
    · next hid =>
      subst hid
      exact ⟨le_rfl, m', ⟨_, _, _, _, _, (Option.some.inj hm').symm⟩, rfl⟩
    · rw [hm] at hm'
      cases hm'

theorem keepsRows_addUnderwriter {s s' : State} {keys : List Key} {supply : F64} {id : MemberId}
    (h : s.addUnderwriter keys supply = .ok (id, s')) :
    KeepsRows view s s' ∧ s'.validators = s.validators := by
  unfold State.addUnderwriter at h
  dsimp only at h
  have hsupply : ∀ t : State, ∀ u, SameView view t { t with underwriters := u } :=
    fun _ _ => .of_eq rfl rfl
  split_ifs at h
  · rw [Except.ok.injEq, Prod.mk.injEq] at h
    obtain ⟨-, rfl⟩ := h
    exact ⟨IsTrans.trans _ _ _ (keepsRows_newAccount s _) (hsupply _ _).keeps, rfl⟩
  · rw [Except.ok.injEq, Prod.mk.injEq] at h
    obtain ⟨-, rfl⟩ := h
    exact ⟨keepsRows_newAccount s _, rfl⟩

/-- A founding entry opens an account, declares a supply, names a consensus key and seats a
validator. -/
theorem seatEntry_moves {R : State → State → Prop} [Std.Refl R] [IsTrans State R]
    (hopen : ∀ (s : State) keys, R s (s.newAccount keys).2)
    (hsupply : ∀ (s : State) x, R s { s with underwriters := x })
    (hkey : ∀ (s : State) id k, R s (s.modMember id fun m => { m with consensusKey := k }))
    (hvalidators : ∀ (s : State) x, R s { s with validators := x })
    {supplies : OrdMap MemberId F64} {entry : GenesisEntry} {s s' : State}
    (h : Genesis.seatEntry supplies entry s = .ok s') : R s s' := by
  have hunderwriter : ∀ {keys : List Key} {supply : F64} {p : MemberId × State},
      s.addUnderwriter keys supply = .ok p → R s p.2 := by
    intro keys supply p hp
    unfold State.addUnderwriter at hp
    dsimp only at hp
    split_ifs at hp
    · exact Except.ok.inj hp ▸ IsTrans.trans _ _ _ (hopen s _) (hsupply _ _)
    · exact Except.ok.inj hp ▸ hopen s _
  have hvalidator : ∀ {s s' : State}, Genesis.seatValidator entry s = .ok s' → R s s' := by
    intro s s' h
    unfold Genesis.seatValidator at h
    split at h
    · split at h
      · cases h
      · exact Except.ok.inj h ▸ Std.Refl.refl s
    · split at h
      · cases h
      · next ck _ _ =>
        have hname : ∀ t, s.setGenesisConsensusKey entry.address ck = .ok t → R s t := by
          intro t ht
          unfold State.setGenesisConsensusKey at ht
          split_ifs at ht
          exact Except.ok.inj ht ▸ hkey s _ _
        cases hkey : s.setGenesisConsensusKey entry.address ck with
        | error e => simp [hkey, Genesis.refusal] at h
        | ok t =>
          simp only [hkey, Genesis.refusal] at h
          have hseat : ∀ u, t.setGenesisValidator entry.address entry.votingPower = .ok u →
              R t u := by
            intro u hu
            unfold State.setGenesisValidator at hu
            split at hu
            · cases hu
            · split_ifs at hu
              exact Except.ok.inj hu ▸ hvalidators t _
          split at h
          · cases hset : t.setGenesisValidator entry.address entry.votingPower with
            | error e => simp [hset] at h
            | ok u =>
              simp only [hset, Except.ok.injEq] at h
              exact h ▸ IsTrans.trans _ _ _ (hname t hkey) (hseat u hset)
          · exact Except.ok.inj h ▸ hname t hkey
  unfold Genesis.seatEntry at h
  cases hadd : s.addUnderwriter [entry.publicKey]
      (OrdMap.getD' supplies entry.address (F64.zero false)) with
  | error e => simp [hadd, Genesis.refusal] at h
  | ok p =>
    simp only [hadd, Genesis.refusal] at h
    split at h
    · cases h
    · exact IsTrans.trans _ _ _ (hunderwriter hadd) (hvalidator h)

/-- A view that does not read consensus keys finds a founding row blank. -/
theorem keepsRows_seatEntry (hview : ∀ m k, view { m with consensusKey := k } = view m)
    {supplies : OrdMap MemberId F64} {entry : GenesisEntry} {s s' : State}
    (h : Genesis.seatEntry supplies entry s = .ok s') : KeepsRows view s s' := by
  have of_view : ∀ {s s' : State}, SameView view s s' → KeepsRows view s s' := fun h => h.keeps
  exact seatEntry_moves (fun s keys => keepsRows_newAccount s keys)
    (fun _ _ => of_view (.of_eq rfl rfl))
    (fun s id k => of_view (.modMember (f := fun m => { m with consensusKey := k })
      (fun m => hview m k) s id))
    (fun _ _ => of_view (.of_eq rfl rfl)) h

/-! ### Issued ids -/

theorem issued_of_genesis {g : Genesis} {s : State} (h : genesisState g = .ok s) : s.Issued :=
  have hseated : ∀ {supplies : OrdMap MemberId F64} {entry : GenesisEntry} {s s' : State},
      Genesis.seatEntry supplies entry s = .ok s' → KeepsRows (fun _ => ()) s s' :=
    keepsRows_seatEntry fun _ _ => rfl
  genesisState_keeps (fun _ _ _ id _ => by simp) (fun _ _ _ _ hs hseat => (hseated hseat hs).issued) h

section Events

variable [Libm]

/-- The state a transaction leads to is the one `apply` leaves. -/
theorem Event.next_of_exec {tx : Tx} {txId : TxId} {expiry : Nat} {signers : List Key} {nowSecs : Nat}
    {s : State} {r : Res Unit × State}
    (h : Op.exec (Apply.apply tx txId expiry signers nowSecs) s = r) :
    Event.next (.transaction tx txId expiry signers nowSecs) s = r.2 :=
  congrArg Prod.snd h

/-- A transaction keeps the rows the block opens with, as far as a view reads them that
reads nothing the transaction is about. -/
theorem keepsRows_next {view : Member → β} (hview : IgnoresBooks view)
    (hcharges : IgnoresCharges view) (tx : Tx) (htx : Untouched view tx) (txId : TxId)
    (expiry : Nat) (signers : List Key) (nowSecs : Nat) (s : State) :
    KeepsRows view (s.beginBlock nowSecs)
      (Event.next (.transaction tx txId expiry signers nowSecs) s) := by
  have hgate := (Apply.keepsView_bondGate hcharges tx signers).keepsRows (s.beginBlock nowSecs)
  rcases Apply.exec_apply_cases tx txId expiry signers nowSecs s with
    ⟨e, -, hexec⟩ | ⟨-, e, t, ht, hexec⟩ | ⟨-, charged, sponsor, t, outcome, u, ht, hu, hexec⟩
  · rw [Event.next, hexec]
    exact Std.Refl.refl (r := KeepsRows view) _
  · rw [ht] at hgate
    rw [Event.next, hexec]
    exact hgate
  · rw [ht] at hgate
    have hrecorded : SameView view t (t.recordApplied txId expiry) := .of_eq rfl rfl
    have hdispatch := Apply.keepsRows_dispatch hview tx signers sponsor htx
      (t.recordApplied txId expiry)
    rw [hu] at hdispatch
    rw [Event.next, hexec]
    exact IsTrans.trans _ _ _ hgate <| IsTrans.trans _ _ _ hrecorded.keeps <|
      IsTrans.trans _ _ _ hdispatch
        (Apply.sameView_settleOutcome hcharges tx txId expiry signers charged outcome u).keeps

/-- Every event leaves the ids of the rows issued. -/
theorem issued_next (e : Event) {s : State} (hs : s.Issued) : (e.next s).Issued := by
  have hview : IgnoresBooks fun _ : Member => () := ⟨fun _ => rfl, fun _ _ _ _ => rfl⟩
  have hcharges : IgnoresCharges fun _ : Member => () := ⟨fun _ _ _ _ _ _ => rfl⟩
  have hbegin : ∀ nowSecs, (s.beginBlock nowSecs).Issued := fun nowSecs =>
    (rowsLeft_beginBlock hview hcharges nowSecs s).issued hs
  cases e with
  | block nowSecs => exact hbegin nowSecs
  | transaction tx txId expiry signers nowSecs =>
    have htx : Untouched (fun _ : Member => ()) tx := by
      cases tx <;> simp [Untouched]
    exact (keepsRows_next hview hcharges tx htx txId expiry signers nowSecs s
      (hbegin nowSecs)).issued

theorem issued_run (es : List Event) {s : State} (hs : s.Issued) :
    (es.foldl (fun s e => e.next s) s).Issued := by
  induction es generalizing s with
  | nil => exact hs
  | cons e es ih => exact ih (issued_next e hs)

end Events

end Edet
