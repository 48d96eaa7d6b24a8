import Edet.Ledger.CleanRefusal
import Edet.Ledger.Rows

/-!
# The validator set stays usable

Whoever is listed as a validator can act as one: it is an active member with a consensus
key and has positive power (`ValidatorsUsable.listed`). The set does not fall below the
floor of the parameters, and its total power fits the machine word it is summed in.

Three transitions can take a validator out, each behind the same guard (`usable_drop`), one
gives power (`usable_empower`), and naming no consensus key is refused to a validator. All
others leave the set and the floor alone and keep the standing of every row. A boundary
retires no row of a validator. So a set that is usable at genesis is usable in every state
reached (`validatorsUsable_of_reaches`). A genesis itself is not asked for its total power
(`not_usable_at_genesis`).
-/

namespace Edet

open Edet.Flow

/-- What makes a row fit to be a validator's. -/
structure Standing where
  status : MemberStatus
  consensusKey : Option Key

def Member.standing (m : Member) : Standing := ⟨m.status, m.consensusKey⟩

theorem standing_ignoresBooks : IgnoresBooks Member.standing := ⟨fun _ => rfl, fun _ _ _ _ => rfl⟩

theorem standing_ignoresCharges : IgnoresCharges Member.standing := ⟨fun _ _ _ _ _ _ => rfl⟩

/-- An active member that has named a consensus key. -/
def State.Eligible (s : State) (id : MemberId) : Prop :=
  ∃ m, s.members[id]? = some m ∧ m.status = .active ∧ m.consensusKey.isSome

/-- The power of all validators. -/
def State.totalPower (s : State) : Nat := OrdMap.total (fun _ power => power) s.validators

/-- The set of validators can order blocks. -/
structure ValidatorsUsable (s : State) : Prop where
  /-- Whoever is listed can act. -/
  listed : ∀ (id : MemberId) (power : Nat), s.validators[id]? = some power →
    0 < power ∧ s.Eligible id
  /-- There are as many as the parameters ask for. -/
  quorum : s.params.minValidators ≤ s.validators.size
  /-- The total power is a machine word. -/
  fits : s.totalPower < 2 ^ 64

theorem State.Eligible.of_row {s s' : State} {id : MemberId} (h : s.Eligible id)
    (hrow : s'.members[id]?.map Member.standing = s.members[id]?.map Member.standing) :
    s'.Eligible id := by
  obtain ⟨m, hm, hactive, hkey⟩ := h
  rw [hm, Option.map_some, Option.map_eq_some_iff] at hrow
  obtain ⟨m', hm', hstanding⟩ := hrow
  refine ⟨m', hm', (congrArg Standing.status hstanding).trans hactive, ?_⟩
  rw [show m'.consensusKey = m.consensusKey from congrArg Standing.consensusKey hstanding]
  exact hkey

theorem State.Eligible.of_kept {s s' : State} {id : MemberId} (h : s.Eligible id)
    (hkept : RowsKept Member.standing s s') : s'.Eligible id := by
  have hrow := h
  obtain ⟨m, hm, -⟩ := hrow
  obtain ⟨m', hm', hstanding⟩ := hkept.kept _ m hm
  refine h.of_row ?_
  rw [hm, hm', Option.map_some, Option.map_some, hstanding]

namespace ValidatorsUsable

/-- A step that leaves the set and the floor alone, and everybody eligible who was. -/
theorem of_same {s s' : State} (h : ValidatorsUsable s) (hvalidators : s'.validators = s.validators)
    (hfloor : s'.params.minValidators = s.params.minValidators)
    (helig : ∀ id, id ∈ s.validators → s.Eligible id → s'.Eligible id) : ValidatorsUsable s' := by
  refine ⟨fun id power hpower => ?_, ?_, ?_⟩
  · rw [hvalidators] at hpower
    obtain ⟨hpos, hid⟩ := h.listed id power hpower
    exact ⟨hpos, helig id (Std.ExtTreeMap.mem_iff_isSome_getElem?.2 (hpower ▸ rfl)) hid⟩
  · rw [hvalidators, hfloor]
    exact h.quorum
  · unfold State.totalPower
    rw [hvalidators]
    exact h.fits

theorem of_view {s s' : State} (h : ValidatorsUsable s) (hroutine : Routine s s')
    (hview : SameView Member.standing s s') : ValidatorsUsable s' :=
  h.of_same hroutine.validators (by rw [hroutine.params]) fun id _ hid => hid.of_row (hview.rows id)

end ValidatorsUsable

namespace Apply

/-- **A validator the set can spare may go**, whatever becomes of its row. -/
theorem usable_drop {s s' : State} {target : MemberId} (h : ValidatorsUsable s)
    (hspare : ¬lastValidator s target) (hvalidators : s'.validators = s.validators.erase target)
    (hfloor : s'.params.minValidators = s.params.minValidators)
    (hrows : ∀ id, id ≠ target →
      s'.members[id]?.map Member.standing = s.members[id]?.map Member.standing) :
    ValidatorsUsable s' := by
  refine ⟨fun id power hpower => ?_, ?_, ?_⟩
  · rw [hvalidators, Std.ExtTreeMap.getElem?_erase] at hpower
    split at hpower
    · cases hpower
    · next hne =>
      obtain ⟨hpos, hid⟩ := h.listed id power hpower
      exact ⟨hpos, hid.of_row (hrows id fun he => hne (he ▸ Std.ReflCmp.compare_self))⟩
  · rw [hvalidators, hfloor, Std.ExtTreeMap.size_erase]
    unfold lastValidator at hspare
    have hquorum := h.quorum
    split
    · next hmem =>
      have hmany : ¬s.validators.size ≤ s.params.minValidators := fun hle =>
        hspare ⟨Std.ExtTreeMap.contains_iff_mem.2 hmem, hle⟩
      omega
    · exact hquorum
  · have hfits := h.fits
    unfold State.totalPower at hfits ⊢
    rw [hvalidators]
    have := OrdMap.total_erase (fun _ power => power) s.validators target
    omega

/-- **An eligible member may be given power** that the total has room for. -/
theorem usable_empower {s : State} {target : MemberId} {power : Nat} (h : ValidatorsUsable s)
    (hpos : 0 < power) (hok : empowerable s target power = .ok ()) :
    ValidatorsUsable { s with validators := s.validators.insert target power } := by
  unfold empowerable at hok
  split at hok
  · cases hok
  next m hm =>
  have hrow := findMember_eq_ok.1 hm
  dsimp only at hok
  split_ifs at hok with hactive hlarge hkey
  refine ⟨fun id p hp => ?_, ?_, ?_⟩
  · simp only [Std.ExtTreeMap.getElem?_insert] at hp
    split at hp
    · next heq =>
      obtain rfl := Std.LawfulEqCmp.compare_eq_iff_eq.1 heq
      obtain rfl := Option.some.inj hp
      exact ⟨hpos, m, hrow, not_not.1 hactive, by simpa [Option.isSome_iff_ne_none] using hkey⟩
    · exact h.listed id p hp
  · refine h.quorum.trans ?_
    rw [Std.ExtTreeMap.size_insert]
    split <;> omega
  · -- the power of the others is that of the set without the target
    have hothers : OrdMap.total (fun id p => if id = target then 0 else p) s.validators =
        OrdMap.total (fun _ p => p) (s.validators.erase target) := by
      rw [← OrdMap.total_erase _ s.validators target]
      have hnone : (s.validators[target]?).elim 0
          ((fun id p => if id = target then 0 else p : MemberId → Nat → Nat) target) = 0 := by
        cases s.validators[target]? <;> simp
      rw [hnone, Nat.add_zero]
      refine OrdMap.total_congr fun id p hp => if_neg ?_
      rintro rfl
      simp at hp
    have htotal : OrdMap.total (fun _ p => p) (s.validators.insert target power) =
        power + OrdMap.total (fun _ p => p) (s.validators.erase target) := by
      rw [OrdMap.total_eq_of_getElem? (k := target) (v := power) (by simp), OrdMap.erase_insert]
    show OrdMap.total (fun _ p => p) (s.validators.insert target power) < 2 ^ 64
    rw [hothers] at hlarge
    rw [htotal]
    omega

/-! ### The transitions that touch the set or a standing -/

theorem usable_setConsensusKey (id : MemberId) (key : Option Key) (signers : List Key) :
    Op.Triple ValidatorsUsable (setConsensusKey id key signers) (fun _ => ValidatorsUsable)
      ValidatorsUsable := by
  have hname : ∀ (s : State) (k : Option Key), ValidatorsUsable s →
      (k.isSome ∨ s.validators.contains id = false) →
        ValidatorsUsable (s.modMember id fun m => { m with consensusKey := k }) := by
    intro s k hs hk
    refine hs.of_same rfl rfl fun a ha ⟨m, hm, hactive, hkey⟩ => ?_
    refine ⟨if id = a then { m with consensusKey := k } else m, ?_, ?_, ?_⟩
    · simp only [State.modMember, OrdMap.getElem?_modify_map, hm, Option.map_some]
    · split <;> exact hactive
    · split
      · next heq =>
        subst heq
        refine hk.resolve_right fun hnot => ?_
        rw [Std.ExtTreeMap.contains_iff_mem.2 ha] at hnot
        cases hnot
      · exact hkey
  unfold setConsensusKey
  refine .bind_quiet (Op.quiet_check _) (fun _ h => h) fun _ =>
    .bind_quiet (Op.quiet_check _) (fun _ h => h) fun _ => ?_
  cases key with
  | some k =>
    refine .bind_quiet (Op.quiet_ask _) (fun _ h => h) fun _ =>
      .bind_quiet (Op.quiet_refuseIf _ _) (fun _ h => h) fun _ =>
      .bind_quiet (Op.quiet_ask _) (fun _ h => h) fun _ =>
      .bind_quiet (Op.quiet_refuseIf _ _) (fun _ h => h) fun _ => ?_
    exact triple_memberMut (fun s _ hs _ => hname s _ hs (Or.inl rfl)) fun _ hs => hs
  | none =>
    refine .bind (Q := fun listed s => ValidatorsUsable s ∧ listed = s.validators.contains id)
      (.ask fun s hs => ⟨hs, rfl⟩) fun listed => ?_
    refine .bind (Q := fun _ s => ValidatorsUsable s ∧ s.validators.contains id = false)
      (.refuseIf (fun s hs hnot => ⟨hs.1, ?_⟩) fun s hs _ => hs.1) fun _ => ?_
    · rw [← hs.2]
      simpa using hnot
    · exact triple_memberMut (fun s _ hs _ => hname s _ hs.1 (Or.inr hs.2)) fun _ hs => hs.1

/-- A validator that may be dropped. -/
def Spares (s : State) (target : MemberId) : Prop := ValidatorsUsable s ∧ ¬lastValidator s target

theorem Spares.of_view {s s' : State} {target : MemberId} (h : Spares s target)
    (hroutine : Routine s s') (hview : SameView Member.standing s s') : Spares s' target := by
  refine ⟨h.1.of_view hroutine hview, ?_⟩
  unfold lastValidator
  rw [hroutine.validators, hroutine.params]
  exact h.2

theorem usable_exit (id : MemberId) (signers : List Key) :
    Op.Triple ValidatorsUsable (exit id signers) (fun _ => ValidatorsUsable) ValidatorsUsable := by
  have hlistings : ∀ (f : State → MemberId → State) (l : List MemberId) (s : State),
      (∀ s b, Routine s (f s b)) → (∀ s b, SameView Member.standing s (f s b)) →
        Spares s id → Spares (l.foldl f s) id := fun f l s hr hv hs =>
    hs.of_view (Routine.foldl l s hr) (SameView.foldl l s hv)
  unfold exit
  refine .bind_quiet (Op.quiet_check _) (fun _ h => h) fun _ =>
    .bind_quiet (quiet_member _) (fun _ h => h) fun m =>
    .bind_quiet (Op.quiet_refuseIf _ _) (fun _ h => h) fun _ =>
    .bind_quiet (Op.quiet_ask _) (fun _ h => h) fun _ =>
    .bind_quiet (Op.quiet_refuseIf _ _) (fun _ h => h) fun _ =>
    .bind_quiet (Op.quiet_refuseIf _ _) (fun _ h => h) fun _ =>
    .bind_quiet (Op.quiet_ask _) (fun _ h => h) fun _ =>
    .bind_quiet (Op.quiet_refuseIf _ _) (fun _ h => h) fun _ => ?_
  refine .bind (Q := fun last s => ValidatorsUsable s ∧ last = decide (lastValidator s id))
    (.ask fun s hs => ⟨hs, rfl⟩) fun last => ?_
  refine .bind (Q := fun _ s => Spares s id)
    (.refuseIf (fun s hs hnot => ⟨hs.1, ?_⟩) fun s hs _ => hs.1) fun _ => ?_
  · rw [hs.2] at hnot
    simpa using hnot
  refine .bind (Q := fun _ s => Spares s id) (.write fun s hs => ?_) fun _ => ?_
  · exact hlistings _ _ s (fun _ _ => ⟨rfl, rfl, rfl, rfl⟩)
      (fun s b => .modMember (f := unlist id) (fun m => rfl) s b) hs
  refine .bind_quiet (quiet_member _) (fun _ h => h.1) fun m => ?_
  refine .bind (Q := fun _ s => Spares s id) (.write fun s hs => ?_) fun _ => ?_
  · exact hlistings _ _ s (fun _ _ => ⟨rfl, rfl, rfl, rfl⟩)
      (fun s b => .modMember (f := undelegate id) (fun m => rfl) s b) hs
  refine .bind (Q := fun _ s => ∃ t, Spares t id ∧ s = { t with validators := t.validators.erase id })
    (.write fun s hs => ⟨s, hs, rfl⟩) fun _ => ?_
  refine triple_memberMut (fun s m hs _ => ?_) fun s hs => ?_
  · obtain ⟨t, ht, rfl⟩ := hs
    refine usable_drop ht.1 ht.2 rfl rfl fun a ha => ?_
    simp only [State.modMember, OrdMap.getElem?_modify_map, if_neg (Ne.symm ha), Option.map_id']
  · obtain ⟨t, ht, rfl⟩ := hs
    exact usable_drop ht.1 ht.2 rfl rfl fun _ _ => rfl

theorem sameSet_rescale (s : State) (pi : F64) :
    (s.rescale pi).validators = s.validators ∧
      (s.rescale pi).params.minValidators = s.params.minValidators := by
  unfold State.rescale State.rescaleWith
  extract_lets s₁ s₂ s₃ s₄ s₅ byDebtor
  have hshave : Routine s₁ s₂ := .of_offBooks (offBooks_shave s₁)
  exact ⟨hshave.validators, show s₂.params.minValidators = s₁.params.minValidators by rw [hshave.params]⟩

theorem usable_enact (kind : ProposalKind) (author : MemberId) :
    Op.Triple ValidatorsUsable (enact kind author) (fun _ => ValidatorsUsable) ValidatorsUsable := by
  unfold enact
  cases kind with
  | paramChange key value =>
    refine .write fun s hs => hs.of_same rfl ?_ fun _ _ h => h
    cases key <;> rfl
  | redenominate num den =>
    refine .write fun s hs => ?_
    have hview := keepsView_rescale standing_ignoresBooks.books (fun _ _ _ => rfl) s (ratio num den)
    have hscaled := sameSet_rescale s (ratio num den)
    exact hs.of_same hscaled.1 hscaled.2 fun id _ hid => hid.of_row (hview.rows id)
  | suspend target =>
    refine .bind (Q := fun last s => ValidatorsUsable s ∧ last = decide (lastValidator s target))
      (.ask fun s hs => ⟨hs, rfl⟩) fun last => ?_
    refine .bind (Q := fun _ s => Spares s target)
      (.refuseIf (fun s hs hnot => ⟨hs.1, ?_⟩) fun s hs _ => hs.1) fun _ => ?_
    · rw [hs.2] at hnot
      simpa using hnot
    refine .bind (Q := fun _ s => ∃ t f, Spares t target ∧ s = t.modMember target f)
      (triple_memberMut (fun s m hs _ => ⟨s, _, hs, rfl⟩) fun s hs => hs.1) fun _ => ?_
    refine .write fun s hs => ?_
    obtain ⟨t, f, ht, rfl⟩ := hs
    refine usable_drop ht.1 ht.2 rfl rfl fun a ha => ?_
    simp only [State.modMember, OrdMap.getElem?_modify_map, if_neg (Ne.symm ha), Option.map_id']
  | unsuspend target =>
    refine triple_memberMut (fun s m hs hm => ?_) fun s hs => hs
    refine hs.of_same rfl rfl fun a _ heligible => ?_
    obtain ⟨m', hm', hactive, hkey⟩ := heligible
    simp only [State.Eligible, State.modMember, OrdMap.getElem?_modify_map, hm', Option.map_some]
    refine ⟨_, rfl, ?_, ?_⟩
    · split
      · rw [hactive]
        rfl
      · exact hactive
    · split <;> exact hkey
  | validatorPower target power =>
    refine .ite (fun hpos => ?_) fun _ => ?_
    · refine .bind (Q := fun _ s => ValidatorsUsable s ∧ empowerable s target power = .ok ())
        (.check (fun s _ hs hok => ⟨hs, hok⟩) fun s hs => hs) fun _ => ?_
      exact .write fun s hs => usable_empower hs.1 hpos hs.2
    · refine .bind (Q := fun last s => ValidatorsUsable s ∧ last = decide (lastValidator s target))
        (.ask fun s hs => ⟨hs, rfl⟩) fun last => ?_
      refine .bind (Q := fun _ s => Spares s target)
        (.refuseIf (fun s hs hnot => ⟨hs.1, ?_⟩) fun s hs _ => hs.1) fun _ => ?_
      · rw [hs.2] at hnot
        simpa using hnot
      · exact .write fun s hs => usable_drop hs.1 hs.2 rfl rfl fun _ _ => rfl
  | seedAmendment amount =>
    refine .bind_quiet (Op.quiet_check _) (fun _ h => h) fun _ => ?_
    exact .write fun s hs => hs.of_same rfl rfl fun _ _ h => h

theorem usable_assent (id : MemberId) (proposalId : ProposalId) (signers : List Key) :
    Op.Triple ValidatorsUsable (assent id proposalId signers) (fun _ => ValidatorsUsable)
      ValidatorsUsable := by
  have hmod : ∀ (s : State) (f : Proposal → Proposal), ValidatorsUsable s →
      ValidatorsUsable (modProposal proposalId f s) :=
    fun s f hs => hs.of_same rfl rfl fun _ _ h => h
  unfold assent
  refine .bind_quiet (quiet_mayAssent _ _ _) (fun _ h => h) fun carried => ?_
  refine .bind (.write fun s hs => hmod s _ hs) fun _ => .ite (fun _ => ?_) fun _ => .pure fun _ h => h
  exact .bind (usable_enact _ _) fun _ => .write fun s hs => hmod s _ hs

section Dispatch

variable [Libm]

/-- **No transaction leaves the set unusable.** -/
theorem usable_dispatch (tx : Tx) (signers : List Key) (sponsor : Option MemberId) {s : State}
    (hs : s.Issued) (h : ValidatorsUsable s) :
    ValidatorsUsable (Op.exec (dispatch tx signers sponsor) s).2 := by
  have of_kept : (hexit : ∀ id, tx ≠ .exit id) → (∀ id proposal, tx ≠ .assent id proposal) →
      Untouched Member.standing tx → ValidatorsUsable (Op.exec (dispatch tx signers sponsor) s).2 := by
    intro hexit hassent htx
    have hroutine := routine_dispatch tx signers sponsor hexit hassent s
    have hrows := keepsRows_dispatch standing_ignoresBooks tx signers sponsor htx s hs
    exact h.of_same hroutine.validators (by rw [hroutine.params]) fun _ _ hid => hid.of_kept hrows
  cases tx with
  | exit id => exact (usable_exit id signers).exec_snd h
  | assent id proposal => exact (usable_assent id proposal signers).exec_snd h
  | setConsensusKey id key => exact (usable_setConsensusKey id key signers).exec_snd h
  | registerGuardians => exact of_kept (by simp) (by simp) fun _ _ => rfl
  | rotateRequest => exact of_kept (by simp) (by simp) fun _ _ => rfl
  | rotateVeto => exact of_kept (by simp) (by simp) fun _ _ => rfl
  | rotateFinalize => exact of_kept (by simp) (by simp) fun _ _ => rfl
  | forfeitBonds => exact of_kept (by simp) (by simp) fun _ _ => rfl
  | _ => exact of_kept (by simp) (by simp) trivial

end Dispatch

end Apply

/-! ### Boundaries -/

/-- The set, the parameters and the standing of every row are the same. -/
structure SameOrder (s s' : State) : Prop where
  validators : s'.validators = s.validators
  params : s'.params = s.params
  view : SameView Member.standing s s'

instance : Std.Refl SameOrder := ⟨fun s => ⟨rfl, rfl, Std.Refl.refl s⟩⟩

instance : IsTrans State SameOrder :=
  ⟨fun _ _ _ h h' => ⟨h'.validators.trans h.validators, h'.params.trans h.params,
    IsTrans.trans _ _ _ h.view h'.view⟩⟩

theorem SameOrder.usable {s s' : State} (h : SameOrder s s') (hs : ValidatorsUsable s) :
    ValidatorsUsable s' :=
  hs.of_same h.validators (by rw [h.params]) fun id _ hid => hid.of_row (h.view.rows id)

theorem Apply.sameOrder_settleOutcome (tx : Tx) (txId : TxId) (notAfterEpoch : Nat)
    (signers : List Key) (charged : Charged) (outcome : Res Unit) (s : State) :
    SameOrder s (settleOutcome tx txId notAfterEpoch signers charged outcome s) := by
  refine settleOutcome_moves (fun s txId notAfterEpoch => ⟨?_, ?_, sameView_forgetApplied _ _ _⟩)
    (fun s charged => ⟨(routine_refund charged s).validators, (routine_refund charged s).params,
      sameView_refund standing_ignoresCharges charged s⟩)
    (fun s subject signers => ⟨(routine_priceRefusal subject signers s).validators,
      (routine_priceRefusal subject signers s).params,
      sameView_priceRefusal standing_ignoresCharges subject signers s⟩) tx txId notAfterEpoch
    signers charged outcome s
  · unfold State.forgetApplied
    split <;> rfl
  · unfold State.forgetApplied
    split <;> rfl

/-- A boundary retires no validator. -/
theorem usable_retireEmptyRows {s : State} (h : ValidatorsUsable s) :
    ValidatorsUsable (Apply.retireEmptyRows (Apply.pruneClosedRows s)) := by
  have hpruned : SameOrder s (Apply.pruneClosedRows s) := ⟨rfl, rfl, .of_eq rfl rfl⟩
  replace h := hpruned.usable h
  generalize Apply.pruneClosedRows s = t at h
  unfold Apply.retireEmptyRows
  extract_lets named empty
  have hroutine : Routine t (empty.foldl (fun s id => Apply.retireRow id s) t) :=
    .foldl _ t fun s id => Apply.routine_retireRow id s
  have hleft : RowsLeft Member.standing t (empty.foldl (fun s id => Apply.retireRow id s) t) :=
    Op.Moves.foldl (fun s id => Apply.rowsLeft_retireRow standing_ignoresBooks id s) empty t
  refine h.of_same hroutine.validators (by rw [hroutine.params]) fun id hlisted hid => ?_
  obtain ⟨m, hm, hfit⟩ := hid
  have hkept : id ∉ empty := by
    intro hmem
    obtain ⟨p, hp, rfl⟩ := List.mem_map.1 hmem
    have hempty := (List.mem_filter.1 hp).2
    unfold Apply.emptyRow at hempty
    simp only [Bool.and_eq_true, Bool.not_eq_true'] at hempty
    rw [Std.ExtTreeMap.contains_iff_mem.2 hlisted] at hempty
    exact absurd hempty.2 (by simp)
  obtain ⟨m', hm'⟩ := Apply.getElem?_foldl_retireRow empty hkept hm
  obtain ⟨m₀, hm₀, hstanding⟩ := hleft.rows id m' hm'
  exact State.Eligible.of_row ⟨m, hm, hfit⟩
    (by rw [hm', hm₀, Option.map_some, Option.map_some, hstanding])

theorem usable_beginBlock {s : State} (h : ValidatorsUsable s) (nowSecs : Nat) :
    ValidatorsUsable (s.beginBlock nowSecs) := by
  obtain ⟨u, v, hu, hv, hend⟩ := beginBlock_ends (R := SameOrder)
    (fun s s' h => ⟨(Routine.of_offBooks h).validators, (Routine.of_offBooks h).params,
      .of_offBooks standing_ignoresBooks.books h⟩)
    (fun id s => ⟨(Apply.routine_forfeitBonds id s).validators,
      (Apply.routine_forfeitBonds id s).params, Apply.keepsView_forfeitBonds id (fun _ _ => rfl) s⟩)
    (fun _ _ => ⟨rfl, rfl, .of_eq rfl rfl⟩)
    (fun s => ⟨rfl, rfl, sameView_advanceEpoch standing_ignoresBooks.books standing_ignoresCharges s⟩)
    (fun s => ⟨rfl, rfl, .mapMembers (f := fun _ m =>
      { m with bonds := m.bonds.filter fun k _ => decide (horizon s.epoch 1 ≤ k) })
      (fun _ _ => rfl) rfl rfl⟩) nowSecs s
  refine hend.usable ?_
  rcases hv with rfl | rfl
  · exact hu.usable h
  · exact usable_retireEmptyRows (hu.usable h)

section Events

variable [Libm]

theorem usable_next (e : Event) {s : State} (hs : s.Issued) (h : ValidatorsUsable s) :
    ValidatorsUsable (e.next s) := by
  cases e with
  | block nowSecs => exact usable_beginBlock h nowSecs
  | transaction tx txId expiry signers nowSecs =>
    have hissued : (s.beginBlock nowSecs).Issued :=
      (rowsLeft_beginBlock standing_ignoresBooks standing_ignoresCharges nowSecs s).issued hs
    have hopened := usable_beginBlock h nowSecs
    have hgate : ∀ r t, Op.exec (Apply.bondGate tx signers) (s.beginBlock nowSecs) = (r, t) →
        ValidatorsUsable t ∧ t.Issued := by
      intro r t ht
      have hview := Apply.keepsView_bondGate standing_ignoresCharges tx signers (s.beginBlock nowSecs)
      have hroutine := Apply.routine_bondGate tx signers (s.beginBlock nowSecs)
      rw [ht] at hview hroutine
      exact ⟨hopened.of_view hroutine hview, (hview.keeps hissued).issued⟩
    rcases Apply.exec_apply_cases tx txId expiry signers nowSecs s with
      ⟨e, -, hexec⟩ | ⟨-, e, t, ht, hexec⟩ | ⟨-, charged, sponsor, t, outcome, u, ht, hu, hexec⟩
    · rw [Event.next, hexec]
      exact hopened
    · rw [Event.next, hexec]
      exact (hgate _ _ ht).1
    · obtain ⟨husable, hrows⟩ := hgate _ _ ht
      have hrecorded : SameOrder t (t.recordApplied txId expiry) := ⟨rfl, rfl, .of_eq rfl rfl⟩
      have hdispatch := Apply.usable_dispatch tx signers sponsor
        ((hrecorded.view.keeps hrows).issued) (hrecorded.usable husable)
      rw [hu] at hdispatch
      rw [Event.next, hexec]
      exact (Apply.sameOrder_settleOutcome tx txId expiry signers charged outcome u).usable hdispatch

end Events

/-! ### Genesis -/

/-- Everybody listed so far can act. -/
def ListedSound (s : State) : Prop :=
  s.Issued ∧ ∀ (id : MemberId) (power : Nat), s.validators[id]? = some power →
    0 < power ∧ s.Eligible id

theorem listedSound_seatValidator {entry : GenesisEntry} {s s' : State} (hs : ListedSound s)
    (h : Genesis.seatValidator entry s = .ok s') : ListedSound s' := by
  have hname : ∀ {t : State} {ck : Key}, s.setGenesisConsensusKey entry.address ck = .ok t →
      ListedSound t := by
    intro t ck ht
    unfold State.setGenesisConsensusKey at ht
    split_ifs at ht
    rw [Except.ok.injEq] at ht
    subst ht
    have hrows : SameView (fun _ => ()) s
        (s.modMember entry.address fun m => { m with consensusKey := some ck }) :=
      .modMember (f := fun m => { m with consensusKey := some ck }) (fun _ => rfl) s _
    refine ⟨(hrows.keeps hs.1).issued, fun id power hpower => ?_⟩
    obtain ⟨hpos, m, hm, hactive, hkey⟩ := hs.2 id power hpower
    refine ⟨hpos, if entry.address = id then { m with consensusKey := some ck } else m, ?_, ?_, ?_⟩
    · simp only [State.modMember, OrdMap.getElem?_modify_map, hm, Option.map_some]
    · split <;> exact hactive
    · split
      · rfl
      · exact hkey
  unfold Genesis.seatValidator at h
  split at h
  · split at h
    · cases h
    · exact Except.ok.inj h ▸ hs
  · split at h
    · cases h
    · next ck _ _ =>
      cases hkey : s.setGenesisConsensusKey entry.address ck with
      | error e => simp [hkey, Genesis.refusal] at h
      | ok t =>
        have ht := hname hkey
        simp only [hkey, Genesis.refusal] at h
        split at h
        · cases hset : t.setGenesisValidator entry.address entry.votingPower with
          | error e => simp [hset] at h
          | ok u =>
            simp only [hset, Except.ok.injEq] at h
            subst h
            unfold State.setGenesisValidator at hset
            split at hset
            · cases hset
            next m hm =>
            split_ifs at hset with hfit hnone
            rw [not_or, not_not] at hfit
            refine Except.ok.inj hset ▸ ⟨ht.1, fun id power hpower => ?_⟩
            simp only [Std.ExtTreeMap.getElem?_insert] at hpower
            split at hpower
            · next heq =>
              obtain rfl := Std.LawfulEqCmp.compare_eq_iff_eq.1 heq
              obtain rfl := Option.some.inj hpower
              exact ⟨Nat.pos_of_ne_zero hfit.2, m, hm, hfit.1,
                by simpa [Option.isSome_iff_ne_none] using hnone⟩
            · exact ht.2 id power hpower
        · exact Except.ok.inj h ▸ ht

theorem listedSound_of_genesis {g : Genesis} {s : State} (h : genesisState g = .ok s) :
    ListedSound s := by
  refine genesisState_keeps (fun _ _ _ => ⟨fun id _ => by simp, fun id power hp => by simp at hp⟩)
    (fun supplies entry s s' hs hseat => ?_) h
  unfold Genesis.seatEntry at hseat
  cases hadd : s.addUnderwriter [entry.publicKey]
      (OrdMap.getD' supplies entry.address (F64.zero false)) with
  | error e => simp [hadd, Genesis.refusal] at hseat
  | ok p =>
    simp only [hadd, Genesis.refusal] at hseat
    split at hseat
    · cases hseat
    · refine listedSound_seatValidator ?_ hseat
      obtain ⟨hkept, hvalidators⟩ :
          KeepsRows Member.standing s p.2 ∧ p.2.validators = s.validators :=
        keepsRows_addUnderwriter hadd
      refine ⟨(hkept hs.1).issued, fun id power hpower => ?_⟩
      rw [hvalidators] at hpower
      obtain ⟨hpos, hid⟩ := hs.2 id power hpower
      exact ⟨hpos, hid.of_kept (hkept hs.1)⟩

/-- A founding state with as many validators as its parameters ask for. -/
def FoundingQuorate (s : State) : Prop := Founding s ∧ s.params.minValidators ≤ s.validators.size

section Runs

variable [Libm]

/-- **The validator set stays usable**: in every run from a genesis with enough validators,
whose total power is a machine word, everybody listed can act, the set is large enough and
its total power stays a machine word. -/
theorem validatorsUsable_of_reaches {s : State}
    (h : Reaches Event.next (fun s => FoundingQuorate s ∧ s.totalPower < 2 ^ 64)
      (fun _ _ => True) s) : ValidatorsUsable s := by
  have hinv : s.Issued ∧ ValidatorsUsable s := by
    refine h.invariant (I := fun s => s.Issued ∧ ValidatorsUsable s) (fun s hs => ?_)
      fun e s hs _ => ⟨issued_next e hs.1, usable_next e hs.1 hs.2⟩
    obtain ⟨⟨⟨g, hg⟩, hquorum⟩, hfits⟩ := hs
    obtain ⟨hissued, hlisted⟩ := listedSound_of_genesis hg
    exact ⟨hissued, hlisted, hquorum, hfits⟩
  exact hinv.2

end Runs

/-- A chain of one validator is usable after that validator asked to leave. -/
theorem validatorsUsable_sole :
    letI := Libm.unused
    ValidatorsUsable ((Event.transaction (.exit 0) 0 0 [founderKey 0] 10).next
      Apply.soleValidator.state) := by
  let _ : Libm := Libm.unused
  refine validatorsUsable_of_reaches (.step (.start ⟨⟨?_, by decide +kernel⟩, by decide +kernel⟩) _
    trivial)
  exact Genesis.founding_state (by decide +kernel)

/-- Two founders with half of the word each. -/
def heavyGenesis : Genesis where
  validators := (List.range 2).map fun i =>
    { address := i, publicKey := founderKey i, votingPower := 2 ^ 63
      consensusKey := some (founderKey (7 + i)) }

/-- A genesis is not asked for its total power: that of two founders may overflow. -/
theorem not_usable_at_genesis :
    letI := Libm.unused
    ∃ s, Reaches Event.next FoundingQuorate (fun _ _ => True) s ∧ ¬ValidatorsUsable s := by
  let _ : Libm := Libm.unused
  refine ⟨heavyGenesis.state, .start ⟨Genesis.founding_state (by decide +kernel),
    by decide +kernel⟩, fun h => ?_⟩
  have hpower : heavyGenesis.state.totalPower = 2 ^ 64 := by decide +kernel
  have hfits := h.fits
  omega

end Edet
