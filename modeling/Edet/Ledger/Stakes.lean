import Edet.Kernel.Decay
import Edet.Ledger.Governance

/-!
# Stakes within an epoch

Between two epochs a stake only rises: a settlement adds to it, and nothing that a transition writes
takes from it but a redenomination (`rises_dispatch`). A redenomination is recorded in the
parameters, and a second one in the same epoch is refused by its cooldown. So of two states of one
epoch with the same record, the later has the larger stakes (`Upholds`), whatever happened in between.
-/

namespace Edet

open Edet.Flow

/-- Within an epoch, and with no redenomination: the stakes and the number of rows do not fall. -/
structure Rises (s s' : State) : Prop where
  epoch : s'.epoch = s.epoch
  cooldown : s'.params.govCooldownEpochs = s.params.govCooldownEpochs
  redenominated : s'.params.lastRedenomEpoch = s.params.lastRedenomEpoch
  edges : ∀ k, OrdMap.getD' s.edges k 0 ≤ OrdMap.getD' s'.edges k 0
  rows : s.nextMember ≤ s'.nextMember

namespace Rises

variable {s s' s'' : State}

theorem refl (s : State) : Rises s s := ⟨rfl, rfl, rfl, fun _ => le_rfl, le_rfl⟩

theorem trans (h : Rises s s') (h' : Rises s' s'') : Rises s s'' where
  epoch := h'.epoch.trans h.epoch
  cooldown := h'.cooldown.trans h.cooldown
  redenominated := h'.redenominated.trans h.redenominated
  edges k := (h.edges k).trans (h'.edges k)
  rows := h.rows.trans h'.rows

instance : Std.Refl Rises := ⟨refl⟩

instance : IsTrans State Rises := ⟨fun _ _ _ => trans⟩

theorem of_eq (hepoch : s'.epoch = s.epoch) (hparams : s'.params = s.params)
    (hedges : s'.edges = s.edges) (hrows : s'.nextMember = s.nextMember) : Rises s s' :=
  ⟨hepoch, by rw [hparams], by rw [hparams], fun k => by rw [hedges], hrows.ge⟩

end Rises

namespace Apply

/-- A transition that lowers no stake. -/
abbrev KeepsStakes {α : Type} (op : Tr α) : Prop := Op.Moves Rises op

/-! ### Obligations -/

theorem rises_memberMut (id : MemberId) (f : Member → Member) : KeepsStakes (memberMut id f) := by
  unfold memberMut
  exact .bind (.check _) fun _ => .write fun _ => .of_eq rfl rfl rfl rfl

theorem rises_contractMut (id : ContractId) (f : Contract → Contract) :
    KeepsStakes (contractMut id f) := by
  unfold contractMut
  exact .bind (.check _) fun _ => .write fun _ => .of_eq rfl rfl rfl rfl

theorem rises_reserve (debtor : MemberId) (want : Nat) :
    KeepsStakes (Op.draw (·.reserveCapacityMinor debtor want)) := by
  refine .draw fun s => ?_
  unfold State.reserveCapacityMinor
  dsimp only
  split <;> exact .of_eq rfl rfl rfl rfl

theorem rises_reserveIf (allowed : Bool) (debtor : MemberId) (amount : Nat) :
    KeepsStakes (reserveIf allowed debtor amount) := by
  unfold reserveIf
  exact .ite (fun _ => rises_reserve _ _) fun _ => .pure _

theorem rises_rehold (id : ContractId) : KeepsStakes (rehold id) := by
  unfold rehold
  refine .bind (.check _) fun c => .ite (fun _ => .pure _) fun _ => .ite (fun _ => ?_) fun _ => ?_
  · refine .ite (fun _ => .pure _) fun _ => ?_
    exact .bind (.write fun _ => .of_eq rfl rfl rfl rfl) fun _ => rises_contractMut _ _
  · refine .bind (.ask _) fun dust => .ite (fun _ => ?_) fun _ => .pure _
    refine .bind (rises_reserve _ _) fun held => ?_
    cases held with
    | none => exact rises_contractMut _ _
    | some h => exact rises_contractMut _ _

theorem rises_openObligation (debtor creditor : MemberId) (amount maturityEpoch : Nat)
    (arb : Option ArbTerms) (held : Option Held) (acceptedEpoch : Nat) :
    KeepsStakes (openObligation debtor creditor amount maturityEpoch arb held acceptedEpoch) := by
  unfold openObligation
  refine .bind (.check _) fun _ => .bind (.ask _) fun _ => .bind (.write fun _ => .of_eq rfl rfl rfl rfl) fun _ => ?_
  exact .bind (rises_memberMut _ _) fun _ => .pure _

theorem rises_book (debtor creditor : MemberId) (amount maturityEpoch : Nat)
    (arb : Option ArbTerms) : KeepsStakes (book debtor creditor amount maturityEpoch arb) := by
  unfold book
  refine .bind (.check _) fun _ => .bind (.ask _) fun inside => ?_
  refine .bind (rises_reserveIf _ _ _) fun held => .bind (.ask _) fun _ => ?_
  exact rises_openObligation _ _ _ _ _ _ _

theorem rises_moveDebtor (c : Contract) (newDebtor : MemberId) (held : Option Held) :
    KeepsStakes (moveDebtor c newDebtor held) := by
  unfold moveDebtor
  refine .bind (.check _) fun _ => .bind (.write fun _ => .of_eq rfl rfl rfl rfl) fun _ => ?_
  refine .bind (rises_memberMut _ _) fun _ => ?_
  refine .bind (rises_contractMut _ _) fun _ => .bind (.ask _) fun inside => .bind ?_ fun _ => ?_
  · cases held with
    | none => exact rises_reserveIf _ _ _
    | some h => exact .pure _
  · exact .bind (rises_openObligation _ _ _ _ _ _ _) fun _ => .pure _

theorem rises_substitutionLeg (underwriter creditor : MemberId)
    (amount maturityEpoch : Nat) :
    KeepsStakes (substitutionLeg underwriter creditor amount maturityEpoch) := by
  unfold substitutionLeg
  refine .ite (fun _ => .pure _) fun _ => .bind (.check _) fun _ => ?_
  exact .bind (.write fun _ => .of_eq rfl rfl rfl rfl) fun _ => rises_memberMut _ _

theorem rises_substituteLeg (c : Contract) (maturityEpoch : Nat) (share : Share) :
    KeepsStakes (substituteLeg c maturityEpoch share) := by
  unfold substituteLeg
  exact .ite (fun _ => rises_substitutionLeg _ _ _ _) fun _ => .pure _

theorem rises_substitute (id : ContractId) : KeepsStakes (substitute id) := by
  unfold substitute
  refine .bind (.check _) fun c => .ite (fun _ => .pure _) fun _ => .ite (fun _ => .pure _) fun _ =>
    .ite (fun _ => .pure _) fun _ => .ite (fun _ => .pure _) fun _ => .bind (.ask _) fun maturity => ?_
  cases shares c with
  | nil => exact .pure _
  | cons first rest =>
    refine .bind (rises_contractMut _ _) fun _ => ?_
    refine .bind (rises_substituteLeg _ _ _) fun _ => .forM fun share _ => ?_
    exact .bind (.write fun _ => .of_eq rfl rfl rfl rfl) fun _ => rises_substituteLeg _ _ _

theorem rises_markExpired (id : ContractId) : KeepsStakes (markExpired id) := by
  unfold markExpired
  refine .bind (quiet_expirable id).moves fun _ => ?_
  refine .bind (rises_contractMut _ _) fun _ => ?_
  exact .bind (rises_memberMut _ _) fun _ => rises_substitute _

theorem rises_dischargeCredit (debtor creditor : MemberId) (amount : Nat) (s : State) :
    Rises s (dischargeCredit debtor creditor amount s) := by
  unfold dischargeCredit State.recordStake
  split
  · exact .refl s
  · exact ⟨rfl, rfl, rfl, le_stake _ _ _ _ _, le_rfl⟩

theorem rises_dischargeHop (id : ContractId) (want : Nat) :
    KeepsStakes (dischargeHop id want) := by
  unfold dischargeHop
  refine .bind (.ask _) fun dust => .bind (.check _) fun c => .ite (fun _ => .pure _) fun _ => ?_
  refine .bind (rises_contractMut _ _) fun _ => ?_
  refine .bind (rises_memberMut _ _) fun _ => ?_
  refine .bind (rises_rehold _) fun _ => .bind (.write fun s => ?_) fun _ => .pure _
  exact rises_dischargeCredit _ _ _ s

theorem rises_netMutual (budget : Nat) (ids : List ContractId) (netted : Nat) :
    KeepsStakes (netMutual budget ids netted) := by
  -- each debt netted raises the stake of the pair
  induction ids generalizing netted with
  | nil => exact .pure _
  | cons id ids ih =>
    unfold netMutual
    refine .bind (.ask _) fun dust => .ite (fun _ => .pure _) fun _ => ?_
    exact .bind (rises_dischargeHop _ _) fun took => ih _

theorem rises_repay (id : ContractId) (c : Contract) (amount : Nat)
    (closed : ContractStatus) (cured : Bool) : KeepsStakes (repay id c amount closed cured) := by
  unfold repay
  refine .bind (.ask _) fun dust => .bind (rises_contractMut _ _) fun _ => ?_
  refine .bind (rises_rehold _) fun _ => .bind (.write fun s => ?_) fun _ => ?_
  · exact rises_dischargeCredit _ _ _ s
  · exact rises_memberMut _ _

theorem rises_repayment (status closed : ContractStatus) (cured : Bool) (id : ContractId)
    (amount : F64) (signers : List Key) :
    KeepsStakes (repayment status closed cured id amount signers) := by
  unfold repayment
  refine .bind (.check _) fun _ => .bind (.refuseIf _ _) fun _ => .bind (.check _) fun _ =>
    .bind (.check _) fun _ => .bind (.refuseIf _ _) fun _ => .bind (.refuseIf _ _) fun _ => ?_
  exact rises_repay _ _ _ _ _

theorem rises_transfer (id : ContractId) (newDebtor : MemberId) (signers : List Key) :
    KeepsStakes (transfer id newDebtor signers) := by
  unfold transfer
  exact .bind (quiet_transferable _ _ _).moves fun _ => rises_moveDebtor _ _ _

theorem rises_extend (id : ContractId) (newMaturityEpoch : Nat) (signers : List Key) :
    KeepsStakes (extend id newMaturityEpoch signers) := by
  unfold extend
  refine .bind (.check _) fun _ => .bind (.refuseIf _ _) fun _ => .bind (.check _) fun _ =>
    .bind (.check _) fun _ => .bind (.refuseIf _ _) fun _ => .bind (.ask _) fun _ =>
    .bind (.refuseIf _ _) fun _ => .bind (.ask _) fun drops => .ite (fun _ => ?_) fun _ => ?_
  · exact .bind (.write fun _ => .of_eq rfl rfl rfl rfl) fun _ => rises_contractMut _ _
  · exact rises_contractMut _ _

theorem rises_arbAttest (id : ContractId) (arbiter : MemberId) (amount : F64)
    (signers : List Key) : KeepsStakes (arbAttest id arbiter amount signers) := by
  unfold arbAttest
  refine .bind (.check _) fun _ => .bind (.check _) fun c => ?_
  cases c.arb with
  | none => exact .refuse _
  | some terms =>
    refine .bind (.refuseIf _ _) fun _ => .bind (.ask _) fun _ => .bind (.refuseIf _ _) fun _ =>
      .bind (.refuseIf _ _) fun _ => .bind (.refuseIf _ _) fun _ => .bind (.refuseIf _ _) fun _ => ?_
    exact rises_contractMut _ _

end Apply

namespace Cascade

open Apply

theorem rises_clearDebts (buyer : MemberId) (budget saleMaturity : Nat)
    (ids : List ContractId) (spent : Nat) (assumed : Assumed) :
    KeepsStakes (clearDebts buyer budget saleMaturity ids spent assumed) := by
  induction ids generalizing spent assumed with
  | nil => exact .pure _
  | cons id ids ih =>
    unfold clearDebts
    refine .bind (.ask _) fun dust => .ite (fun _ => .pure _) fun _ => .bind (.check _) fun c =>
      .bind (.ask _) fun last => .ite (fun _ => ih _ _) fun _ => .bind (.ask _) fun room =>
      .ite (fun _ => ih _ _) fun _ => .bind (.write fun _ => .of_eq rfl rfl rfl rfl) fun _ => ?_
    refine .bind (rises_contractMut _ _) fun _ => ?_
    refine .bind (rises_reserve _ _) fun got => ?_
    cases got with
    | none => exact .bind (rises_rehold _) fun _ => ih _ _
    | some held =>
      refine .bind (rises_contractMut _ _) fun _ => ?_
      refine .bind (rises_memberMut _ _) fun _ => ?_
      exact .bind (rises_rehold _) fun _ => ih _ _

theorem rises_clearMemberDebts (debtor buyer : MemberId) (budget saleMaturity : Nat)
    (assumed : Assumed) :
    KeepsStakes (clearMemberDebts debtor buyer budget saleMaturity assumed) := by
  unfold clearMemberDebts
  exact .bind (.ask _) fun _ => rises_clearDebts _ _ _ _ _ _

/-- The loop over one level's targets leaves the stakes if going one level deeper
does. -/
theorem rises_drainTargetsLoop {buyer : MemberId} {saleMaturity depth : Nat}
    (hdeeper : ∀ lister budget visited assumed,
      KeepsStakes (drainLevel buyer saleMaturity depth lister budget visited assumed))
    (lister : MemberId) (targets : List (MemberId × Nat)) (absorbed : Nat)
    (visited : List MemberId) (assumed : Assumed) :
    KeepsStakes
      (drainTargetsLoop buyer saleMaturity depth lister targets absorbed visited assumed) := by
  induction targets generalizing absorbed visited assumed with
  | nil => unfold drainTargetsLoop; exact .pure _
  | cons target rest ih =>
    unfold drainTargetsLoop
    refine .bind (.ask _) fun dust => .ite (fun _ => ih _ _ _) fun _ => ?_
    refine .bind (rises_clearMemberDebts _ _ _ _ _) fun cleared => .ite (fun _ => ?_) fun _ => ?_
    · exact .bind (hdeeper _ _ _ _) fun deeper => ih _ _ _
    · exact ih _ _ _

theorem rises_drainLevel (buyer : MemberId) (saleMaturity depth : Nat) (lister : MemberId)
    (budget : Nat) (visited : List MemberId) (assumed : Assumed) :
    KeepsStakes (drainLevel buyer saleMaturity depth lister budget visited assumed) := by
  -- by induction on the depth that is left
  induction depth generalizing lister budget visited assumed with
  | zero => unfold drainLevel; exact .pure _
  | succ depth ih =>
    unfold drainLevel
    refine .bind (.ask _) fun dust => .ite (fun _ => .pure _) fun _ => .bind (.check _) fun self =>
      .bind (.ask _) fun targets => .ite (fun _ => .pure _) fun _ => ?_
    exact rises_drainTargetsLoop ih _ _ _ _ _

theorem rises_takeOver (seller buyer : MemberId) (budget saleMaturity : Nat) :
    KeepsStakes (takeOver seller buyer budget saleMaturity) := by
  unfold takeOver
  refine .bind (.ask _) fun dust => .ite (fun _ => .pure _) fun _ => .bind (.check _) fun self =>
    .ite (fun _ => rises_clearMemberDebts _ _ _ _ _) fun _ => ?_
  exact .bind (rises_drainLevel _ _ _ _ _ _ _) fun _ => .pure _

theorem rises_originate (seller buyer : MemberId) (budget saleMaturity : Nat) :
    KeepsStakes (originate seller buyer budget saleMaturity) := by
  unfold originate
  refine .bind (.ask _) fun dust => .bind (rises_takeOver _ _ _ _) fun taken => ?_
  refine .bind (.forM fun slot _ => ?_) fun _ => .ite (fun _ => ?_) fun _ => .pure _
  · unfold openAssumed
    refine .ite (fun _ => ?_) fun _ => .write fun _ => .of_eq rfl rfl rfl rfl
    exact .bind (rises_openObligation _ _ _ _ _ _ _) fun _ => .pure _
  · exact .bind (rises_book _ _ _ _ _) fun _ => .pure _

end Cascade

namespace Apply

/-! ### Transitions -/

/-- A new row raises the number of rows. -/
theorem framesSeats_rises : FramesSeats Rises where
  reserved s sponsor := by
    unfold State.reserveSeat
    dsimp only
    split <;> exact .of_eq rfl rfl rfl rfl
  released _ _ := .of_eq rfl rfl rfl rfl
  account _ _ := ⟨rfl, rfl, rfl, fun _ => le_rfl, Nat.le_succ _⟩
  row _ _ _ := .of_eq rfl rfl rfl rfl

theorem framesWrites_rises : FramesWrites Rises :=
  ⟨fun _ _ _ => .of_eq rfl rfl rfl rfl, fun _ _ => .of_eq rfl rfl rfl rfl,
    fun _ _ => .of_eq rfl rfl rfl rfl, fun _ _ => .of_eq rfl rfl rfl rfl,
    fun _ _ _ => .of_eq rfl rfl rfl rfl⟩

section Dispatch

variable [Libm]

/-- **No transition lowers a stake**, other than the one that governs. -/
theorem rises_dispatch (tx : Tx) (signers : List Key) (sponsor : Option MemberId)
    (hassent : ∀ id proposal, tx ≠ .assent id proposal) :
    KeepsStakes (dispatch tx signers sponsor) := by
  have h := framesWrites_rises
  cases tx with
  | registerGuardians => exact moves_registerGuardians h _ _ _ _ _
  | rotateRequest => exact moves_rotateRequest h _ _ _
  | rotateVeto => exact moves_rotateVeto h _ _
  | rotateFinalize => exact moves_rotateFinalize h _
  | setConsensusKey => exact moves_setConsensusKey h _ _ _
  | declareSupply => exact moves_declareSupply h _ _ _
  | accept => exact framesSeats_rises.accept rises_book _ _ _ _ _ _ _
  | transfer => exact rises_transfer _ _ _
  | settle => exact rises_repayment _ _ _ _ _ _
  | extend => exact rises_extend _ _ _
  | markExpired => exact rises_markExpired _
  | cure => exact rises_repayment _ _ _ _ _ _
  | listBeneficiaries => exact moves_listBeneficiaries h _ _ _
  | approveSupporter => exact moves_approveSupporter h _ _ _ _
  | sale => exact framesSeats_rises.sale rises_netMutual Cascade.rises_originate _ _ _ _ _ _
  | arbAttest => exact rises_arbAttest _ _ _ _
  | exit => exact moves_exit h (fun _ _ => .of_eq rfl rfl rfl rfl) _ _
  | propose => exact moves_propose h _ _ _
  | assent id proposal => exact absurd rfl (hassent id proposal)
  | forfeitBonds => exact moves_forfeitBonds h _

end Dispatch

theorem rises_settleOutcome (tx : Tx) (txId : TxId) (notAfterEpoch : Nat) (signers : List Key)
    (charged : Charged) (outcome : Res Unit) (s : State) :
    Rises s (settleOutcome tx txId notAfterEpoch signers charged outcome s) := by
  refine settleOutcome_moves (fun s txId notAfterEpoch => ?_) (fun s charged => ?_)
    (fun s subject signers => ?_) tx txId notAfterEpoch signers charged outcome s
  · unfold State.forgetApplied
    split
    · exact .refl s
    · exact .of_eq rfl rfl rfl rfl
  · cases charged <;> exact .of_eq rfl rfl rfl rfl
  · unfold priceRefusal
    dsimp only
    split
    · exact .of_eq rfl rfl rfl rfl
    · split
      · exact .of_eq rfl rfl rfl rfl
      · exact .refl s

end Apply

/-! ### Redenominations -/

/-- A redenomination rests, and the clock has not run out. -/
structure State.Cools (s : State) : Prop where
  cooldown : 0 < s.params.govCooldownEpochs
  epoch : s.epoch < u64Max

/-- A later state: the stakes have risen if it is of the same epoch, or one redenomination is on
record that was not. -/
structure Upholds (s s' : State) : Prop where
  epoch : s.epoch ≤ s'.epoch
  cooldown : s'.params.govCooldownEpochs = s.params.govCooldownEpochs
  same : s'.epoch = s.epoch → s.Cools → Rises s s' ∨
    s.params.lastRedenomEpoch ≠ some s.epoch ∧ s'.params.lastRedenomEpoch = some s.epoch

namespace Upholds

variable {s s' s'' : State}

theorem of_rises (h : Rises s s') : Upholds s s' := ⟨h.epoch.ge, h.cooldown, fun _ _ => .inl h⟩

theorem trans (h : Upholds s s') (h' : Upholds s' s'') : Upholds s s'' where
  epoch := h.epoch.trans h'.epoch
  cooldown := h'.cooldown.trans h.cooldown
  same hepoch hcools := by
    have hfirst : s'.epoch = s.epoch := le_antisymm (hepoch ▸ h'.epoch) h.epoch
    have hcools' : s'.Cools := ⟨h.cooldown ▸ hcools.cooldown, hfirst ▸ hcools.epoch⟩
    -- within an epoch each step raises the stakes or redenominates, and the cooldown lets at most
    -- one of them redenominate
    rcases h.same hfirst hcools with hrises | ⟨hnot, hthen⟩ <;>
      rcases h'.same (hepoch.trans hfirst.symm) hcools' with hrises' | ⟨hnot', hthen'⟩
    · exact .inl (hrises.trans hrises')
    · exact .inr ⟨by rwa [hrises.redenominated, hfirst] at hnot', hfirst ▸ hthen'⟩
    · exact .inr ⟨hnot, hrises'.redenominated.trans hthen⟩
    · exact absurd (hfirst ▸ hthen) hnot'

instance : Std.Refl Upholds := ⟨fun s => .of_rises (.refl s)⟩

instance : IsTrans State Upholds := ⟨fun _ _ _ => trans⟩

end Upholds

/-- A later state of the same epoch. -/
structure Within (s s' : State) : Prop extends Upholds s s' where
  stays : s'.epoch = s.epoch

instance : Std.Refl Within := ⟨fun s => ⟨Std.Refl.refl s, rfl⟩⟩

instance : IsTrans State Within :=
  ⟨fun _ _ _ h h' => ⟨h.toUpholds.trans h'.toUpholds, h'.stays.trans h.stays⟩⟩

theorem State.Cools.of_within {s s' : State} (hs : s.Cools) (h : Within s s') : s'.Cools :=
  ⟨h.cooldown ▸ hs.cooldown, h.stays ▸ hs.epoch⟩

theorem Rises.within {s s' : State} (h : Rises s s') : Within s s' := ⟨.of_rises h, h.epoch⟩

namespace Apply

/-- Within a cooldown no redenomination is carried out. -/
theorem redenominated_of_not_cooling {s : State} (hcools : s.Cools) {num den : Nat}
    (h : ¬cooling s (.redenominate num den)) : s.params.lastRedenomEpoch ≠ some s.epoch := by
  intro hlast
  unfold cooling at h
  rw [hlast] at h
  have hnow : s.epoch < horizon s.epoch s.params.govCooldownEpochs :=
    lt_min (Nat.lt_add_of_pos_right hcools.cooldown) hcools.epoch
  exact h hnow

theorem cooldown_rescale (s : State) (pi : F64) :
    (s.rescale pi).params.govCooldownEpochs = s.params.govCooldownEpochs := by
  unfold State.rescale State.rescaleWith
  extract_lets s₁ s₂ s₃ s₄ s₅ byDebtor
  have hshave : SameLaws s₁ s₂ := .of_offBooks (offBooks_shave s₁)
  have hcooldown : s₂.params.govCooldownEpochs = s₁.params.govCooldownEpochs :=
    congrArg Params.govCooldownEpochs hshave.params
  clear_value s₂
  exact hcooldown

/-- A proposal that is carried out lowers no stake, unless it redenominates. -/
theorem rises_enact (kind : ProposalKind) (author : MemberId)
    (hkind : ∀ num den, kind ≠ .redenominate num den) : KeepsStakes (enact kind author) := by
  unfold enact
  cases kind with
  | paramChange key value =>
    refine .write fun s => ?_
    cases key <;> exact ⟨rfl, rfl, rfl, fun _ => le_rfl, le_rfl⟩
  | redenominate num den => exact absurd rfl (hkind num den)
  | suspend target =>
    exact .bind (.ask _) fun _ => .bind (.refuseIf _ _) fun _ =>
      .bind (rises_memberMut _ _) fun _ => .write fun _ => .of_eq rfl rfl rfl rfl
  | unsuspend target => exact rises_memberMut _ _
  | validatorPower target power =>
    refine .ite (fun _ => ?_) fun _ => ?_
    · exact .bind (.check _) fun _ => .write fun _ => .of_eq rfl rfl rfl rfl
    · exact .bind (.ask _) fun _ => .bind (.refuseIf _ _) fun _ =>
        .write fun _ => .of_eq rfl rfl rfl rfl
  | seedAmendment amount => exact .bind (.check _) fun _ => .write fun _ => .of_eq rfl rfl rfl rfl

/-- A redenomination is put on record. -/
theorem exec_enact_redenominate (num den : Nat) (author : MemberId) (s : State) :
    ∃ t, Op.exec (enact (.redenominate num den) author) s = (.ok (), t) ∧ t.epoch = s.epoch ∧
      t.params.govCooldownEpochs = s.params.govCooldownEpochs ∧
      t.params.lastRedenomEpoch = some s.epoch := by
  have hepoch := (steady_rescale s (ratio num den)).epoch
  have hcooldown := cooldown_rescale s (ratio num den)
  unfold enact
  rw [Op.exec_write]
  generalize s.rescale (ratio num den) = r at hepoch hcooldown ⊢
  exact ⟨_, rfl, hepoch, hcooldown, congrArg some hepoch⟩

/-- An assent lowers no stake, or puts a redenomination on record. -/
theorem upholds_assent (id : MemberId) (proposalId : ProposalId) (signers : List Key) (s : State) :
    Upholds s (Op.exec (assent id proposalId signers) s).2 := by
  unfold assent
  rw [Op.exec_bind]
  rcases hmay : Op.exec (mayAssent id proposalId signers) s with ⟨⟨e⟩ | ⟨p, enacts⟩, t⟩
  all_goals
    obtain rfl : t = s := (congrArg Prod.snd hmay).symm.trans (quiet_mayAssent id proposalId signers s)
  · exact Std.Refl.refl t
  dsimp only
  -- a redenomination lowers stakes, and is on record afterwards
  by_cases hkind : enacts = true ∧ ∃ num den, p.kind = .redenominate num den
  · obtain ⟨rfl, num, den, hkind⟩ := hkind
    have hrests := (assents_of_mayAssent (congrArg Prod.fst hmay)).rests rfl
    rw [hkind] at hrests
    obtain ⟨u, hu, hepoch, hcooldown, hrecorded⟩ := exec_enact_redenominate num den p.author
      (modProposal proposalId (fun p => { p with assents := p.assents.insert id }) t)
    rw [Op.exec_bind, Op.exec_write, if_pos rfl, hkind]
    dsimp only
    rw [Op.exec_bind_ok hu, Op.exec_write]
    exact ⟨hepoch.ge, hcooldown, fun _ hcools => .inr
      ⟨redenominated_of_not_cooling hcools hrests, hrecorded⟩⟩
  · have hrest : KeepsStakes (do
        Op.write (modProposal proposalId fun p => { p with assents := p.assents.insert id })
        if enacts = true then do
          enact p.kind p.author
          Op.write (modProposal proposalId fun p => { p with enacted := true })
        else pure ()) := by
      refine .bind (.write fun _ => .of_eq rfl rfl rfl rfl) fun _ => .ite (fun henacts => ?_)
        fun _ => .pure _
      exact .bind (rises_enact _ _ fun num den h => hkind ⟨henacts, num, den, h⟩) fun _ =>
        .write fun _ => .of_eq rfl rfl rfl rfl
    exact .of_rises (hrest t)

section Dispatch

variable [Libm]

theorem within_dispatch (tx : Tx) (signers : List Key) (sponsor : Option MemberId) :
    Op.Moves Within (dispatch tx signers sponsor) := by
  intro s
  by_cases hassent : ∃ id proposal, tx = .assent id proposal
  · obtain ⟨id, proposal, rfl⟩ := hassent
    exact ⟨upholds_assent id proposal signers s, (steady_assent id proposal signers s).epoch⟩
  · exact (rises_dispatch tx signers sponsor (fun id proposal h =>
      hassent ⟨id, proposal, h⟩) s).within

end Dispatch

end Apply

/-! ### Boundaries -/

theorem repeat_advanceEpoch (n : Nat) (s : State) :
    (Nat.repeat State.advanceEpoch n s).epoch = s.epoch + n ∧
      (Nat.repeat State.advanceEpoch n s).params = s.params := by
  induction n with
  | zero => exact ⟨rfl, rfl⟩
  | succ n ih => exact ⟨(congrArg (· + 1) ih.1).trans (Nat.add_assoc _ _ _), ih.2⟩

/-- A boundary within an epoch changes no stake, and one that ends it comes to another. -/
theorem upholds_beginBlock (nowSecs : Nat) (s : State) :
    Upholds s (s.beginBlock nowSecs) ∧
      (s.beginBlock nowSecs).epoch ≤ max s.epoch (nowSecs / Constants.epochSecs) := by
  unfold State.beginBlock
  split
  · exact ⟨Std.Refl.refl s, le_max_left _ _⟩
  set t : State := { s with lastBeginSecs := nowSecs }
  dsimp only
  split
  · next hlt =>
    obtain ⟨hepoch, hparams⟩ := repeat_advanceEpoch (t.targetEpoch nowSecs - t.epoch) t
    rw [Nat.add_sub_cancel' hlt.le] at hepoch
    have hswept := Apply.routine_sweepCranks
      (Nat.repeat State.advanceEpoch (t.targetEpoch nowSecs - t.epoch) t)
    have hlater : (Op.exec Apply.sweepCranks (Nat.repeat State.advanceEpoch
        (t.targetEpoch nowSecs - t.epoch) t)).2.releaseBonds.epoch = t.targetEpoch nowSecs :=
      hswept.epoch.trans hepoch
    refine ⟨⟨?_, ?_, fun h => absurd (hlater.symm.trans h) hlt.ne'⟩, ?_⟩
    · rw [hlater]
      exact hlt.le
    · exact congrArg Params.govCooldownEpochs (hswept.params.trans hparams)
    · rw [hlater]
      exact (Nat.min_le_left _ _).trans (le_max_right _ _)
  · exact ⟨.of_rises (.of_eq rfl rfl rfl rfl), le_max_left _ _⟩

end Edet
