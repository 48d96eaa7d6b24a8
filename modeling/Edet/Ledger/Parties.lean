import Edet.Ledger.Replay
import Edet.Ledger.Rows

/-!
# The parties of a contract

What becomes of the contracts of a ledger (`Follows`): each keeps its debtor, and for as long
as it is active its creditor; what is not active does not become so again; contract ids are
only used up, and none is in use that was not issued (`State.ContractsIssued`).

A creditor is written in one place, by the substitution that follows a default
(`follows_markExpired`). Every transition and every boundary moves the ledger along `Follows`
(`follows_dispatch`, `follows_beginBlock`), so in every run the ids in use are issued
(`contractsIssued_run`) and every contract stands under its own (`contractsNamed_run`).
-/

namespace Edet

open Edet.Flow

/-- A contract is carried on: its debtor stays, and while it is active its creditor does. -/
structure Carried (c c' : Contract) : Prop where
  id : c'.id = c.id
  debtor : c'.debtor = c.debtor
  creditor : c'.status = .active → c'.creditor = c.creditor
  active : c'.status = .active → c.status = .active

namespace Carried

theorem refl (c : Contract) : Carried c c := ⟨rfl, rfl, fun _ => rfl, fun h => h⟩

theorem trans {c c' c'' : Contract} (h : Carried c c') (h' : Carried c' c'') : Carried c c'' where
  id := h'.id.trans h.id
  debtor := h'.debtor.trans h.debtor
  creditor hactive := (h'.creditor hactive).trans (h.creditor (h'.active hactive))
  active hactive := h.active (h'.active hactive)

/-- A contract that is not active is carried on with any creditor. -/
theorem of_inactive {c c' : Contract} (hid : c'.id = c.id) (hdebtor : c'.debtor = c.debtor)
    (hstatus : c'.status ≠ .active) : Carried c c' :=
  ⟨hid, hdebtor, fun h => absurd h hstatus, fun h => absurd h hstatus⟩

end Carried

/-- Only issued ids are in use. -/
def State.ContractsIssued (s : State) : Prop :=
  ∀ id : ContractId, s.nextContract ≤ id → s.contracts[id]? = none

/-- Every contract stands under its own id. -/
def State.ContractsNamed (s : State) : Prop :=
  ∀ (id : ContractId) (c : Contract), s.contracts[id]? = some c → c.id = id

/-- The contracts of `s` are carried on in `s'`, as far as they are still there. -/
structure Follows (s s' : State) : Prop where
  next : s.nextContract ≤ s'.nextContract
  old : ∀ (id : ContractId) (c' : Contract), id < s.nextContract → s'.contracts[id]? = some c' →
    ∃ c, s.contracts[id]? = some c ∧ Carried c c'
  issued : s.ContractsIssued → s'.ContractsIssued
  named : s.ContractsNamed → s'.ContractsNamed

instance : Std.Refl Follows :=
  ⟨fun _ => ⟨le_rfl, fun _ c' _ hc => ⟨c', hc, .refl c'⟩, id, id⟩⟩

instance : IsTrans State Follows := by
  refine ⟨fun s s' s'' h h' => ⟨h.next.trans h'.next, ?_, fun hs => h'.issued (h.issued hs),
    fun hs => h'.named (h.named hs)⟩⟩
  intro id c'' hid hc''
  obtain ⟨c', hc', hcarried'⟩ := h'.old id c'' (hid.trans_le h.next) hc''
  obtain ⟨c, hc, hcarried⟩ := h.old id c' hid hc'
  exact ⟨c, hc, hcarried.trans hcarried'⟩

namespace Follows

theorem refl (s : State) : Follows s s := Std.Refl.refl s

theorem trans {s s' s'' : State} (h : Follows s s') (h' : Follows s' s'') : Follows s s'' :=
  IsTrans.trans _ _ _ h h'

theorem foldl {β : Type} {f : State → β → State} (h : ∀ s x, Follows s (f s x)) (l : List β)
    (s : State) : Follows s (l.foldl f s) := Op.Moves.foldl h l s

/-- No contract is opened, and those left are carried on. -/
theorem of_carried {s s' : State} (hnext : s'.nextContract = s.nextContract)
    (h : ∀ (id : ContractId) (c' : Contract), s'.contracts[id]? = some c' →
      ∃ c, s.contracts[id]? = some c ∧ Carried c c') : Follows s s' := by
  refine ⟨hnext.ge, fun id c' _ hc' => h id c' hc', fun hs id hid => ?_, fun hs id c' hc' => ?_⟩
  · cases hc' : s'.contracts[id]? with
    | none => rfl
    | some c' =>
      obtain ⟨c, hc, -⟩ := h id c' hc'
      rw [hs id (hnext ▸ hid)] at hc
      cases hc
  · obtain ⟨c, hc, hcarried⟩ := h id c' hc'
    rw [hcarried.id]
    exact hs id c hc

theorem of_eq {s s' : State} (hcontracts : s'.contracts = s.contracts)
    (hnext : s'.nextContract = s.nextContract) : Follows s s' :=
  .of_carried hnext fun _ c' hc' => ⟨c', hcontracts ▸ hc', .refl c'⟩

theorem modContract {s : State} {id : ContractId} {f : Contract → Contract}
    (hf : ∀ c, s.contracts[id]? = some c → Carried c (f c)) : Follows s (s.modContract id f) := by
  refine .of_carried rfl fun a c' hc' => ?_
  rw [State.modContract, OrdMap.getElem?_modify_map, Option.map_eq_some_iff] at hc'
  obtain ⟨c, hc, rfl⟩ := hc'
  refine ⟨c, hc, ?_⟩
  split
  · next heq => exact hf c (heq ▸ hc)
  · exact .refl c

theorem map {s s' : State} {f : ContractId → Contract → Contract} (hf : ∀ id c, Carried c (f id c))
    (hcontracts : s'.contracts = s.contracts.map f) (hnext : s'.nextContract = s.nextContract) :
    Follows s s' := by
  refine .of_carried hnext fun id c' hc' => ?_
  rw [hcontracts, Std.ExtTreeMap.getElem?_map, Option.map_eq_some_iff] at hc'
  obtain ⟨c, hc, rfl⟩ := hc'
  exact ⟨c, hc, hf id c⟩

/-- A contract is opened at the next id. -/
theorem opened {s s' : State} (c : Contract) (hid : c.id = s.nextContract)
    (hcontracts : s'.contracts = s.contracts.insert s.nextContract c)
    (hnext : s'.nextContract = s.nextContract + 1) : Follows s s' := by
  have hget : ∀ id : ContractId,
      s'.contracts[id]? = if s.nextContract = id then some c else s.contracts[id]? := by
    intro id
    rw [hcontracts, Std.ExtTreeMap.getElem?_insert]
    simp only [Std.LawfulEqCmp.compare_eq_iff_eq]
  refine ⟨hnext ▸ Nat.le_succ _, fun id c' hid hc' => ?_, fun hs id hid => ?_,
    fun hs id c' hc' => ?_⟩
  · rw [hget, if_neg (Nat.ne_of_gt hid)] at hc'
    exact ⟨c', hc', .refl c'⟩
  · rw [hnext] at hid
    have hlt : s.nextContract < id := hid
    rw [hget, if_neg (Nat.ne_of_lt hlt)]
    exact hs id (Nat.le_of_lt hlt)
  · rw [hget] at hc'
    split at hc'
    · next heq =>
      cases hc'
      exact hid.trans heq
    · exact hs id c' hc'

end Follows

namespace Apply

/-- A transition that carries the contracts on. -/
abbrev CarriesOn {α : Type} (op : Tr α) : Prop := Op.Moves Follows op

theorem follows_memberMut (id : MemberId) (f : Member → Member) : CarriesOn (memberMut id f) := by
  unfold memberMut
  exact .bind (.check _) fun _ => .write fun _ => .of_eq rfl rfl

theorem follows_contractMut {id : ContractId} {f : Contract → Contract}
    (hf : ∀ c, Carried c (f c)) : CarriesOn (contractMut id f) := by
  unfold contractMut
  exact .bind (.check _) fun _ => .write fun _ => .modContract fun c _ => hf c

/-- A write that leaves the parties and the status alone. -/
theorem follows_contractMut_terms {id : ContractId} {f : Contract → Contract}
    (hid : ∀ c, (f c).id = c.id) (hdebtor : ∀ c, (f c).debtor = c.debtor)
    (hcreditor : ∀ c, (f c).creditor = c.creditor)
    (hstatus : ∀ c, (f c).status = c.status) : CarriesOn (contractMut id f) :=
  follows_contractMut fun c => ⟨hid c, hdebtor c, fun _ => hcreditor c, fun h => hstatus c ▸ h⟩

theorem follows_reserve (debtor : MemberId) (want : Nat) :
    CarriesOn (Op.draw (·.reserveCapacityMinor debtor want)) := by
  refine .draw fun s => ?_
  unfold State.reserveCapacityMinor
  split <;> exact .of_eq rfl rfl

theorem follows_reserveIf (allowed : Bool) (debtor : MemberId) (amount : Nat) :
    CarriesOn (reserveIf allowed debtor amount) := by
  unfold reserveIf
  exact .ite (fun _ => follows_reserve _ _) fun _ => .pure _

theorem follows_rehold (id : ContractId) : CarriesOn (rehold id) := by
  have hheld : ∀ held, CarriesOn (contractMut id fun c => { c with held }) := fun held =>
    follows_contractMut_terms (fun _ => rfl) (fun _ => rfl) (fun _ => rfl) fun _ => rfl
  unfold rehold
  refine .bind (.check _) fun c => .ite (fun _ => .pure _) fun _ => .ite (fun _ => ?_) fun _ => ?_
  · refine .ite (fun _ => .pure _) fun _ => ?_
    exact .bind (.write fun _ => .of_eq rfl rfl) fun _ => hheld _
  · refine .bind (.ask _) fun dust => .ite (fun _ => ?_) fun _ => .pure _
    refine .bind (follows_reserve _ _) fun held => ?_
    cases held with
    | none => exact follows_contractMut_terms (fun _ => rfl) (fun _ => rfl) (fun _ => rfl) fun _ => rfl
    | some h => exact hheld h

theorem follows_openObligation (debtor creditor : MemberId) (amount maturityEpoch : Nat)
    (arb : Option ArbTerms) (held : Option Held) (acceptedEpoch : Nat) :
    CarriesOn (openObligation debtor creditor amount maturityEpoch arb held acceptedEpoch) := by
  unfold openObligation
  refine .bind (.check _) fun debtOut => fun s => ?_
  -- the id read is the next one of the state that is written
  rw [Op.exec_bind, Op.exec_ask]
  dsimp only
  rw [Op.exec_bind, Op.exec_write]
  dsimp only
  exact .trans (.opened _ rfl rfl rfl) (Op.Moves.bind (follows_memberMut _ _) (fun _ => .pure _) _)

theorem follows_book (debtor creditor : MemberId) (amount maturityEpoch : Nat)
    (arb : Option ArbTerms) : CarriesOn (book debtor creditor amount maturityEpoch arb) := by
  unfold book
  refine .bind (.check _) fun _ => .bind (.ask _) fun inside => ?_
  refine .bind (follows_reserveIf _ _ _) fun held => .bind (.ask _) fun _ => ?_
  exact follows_openObligation _ _ _ _ _ _ _

theorem follows_moveDebtor (c : Contract) (newDebtor : MemberId) (held : Option Held) :
    CarriesOn (moveDebtor c newDebtor held) := by
  unfold moveDebtor
  refine .bind (.check _) fun _ => .bind (.write fun _ => .of_eq rfl rfl) fun _ => ?_
  refine .bind (follows_memberMut _ _) fun _ => ?_
  refine .bind (follows_contractMut fun _ => .of_inactive rfl rfl (by simp)) fun _ =>
    .bind (.ask _) fun inside => .bind ?_ fun _ => ?_
  · cases held with
    | none => exact follows_reserveIf _ _ _
    | some h => exact .pure _
  · exact .bind (follows_openObligation _ _ _ _ _ _ _) fun _ => .pure _

/-! ### Substitution -/

theorem follows_substituteLeg (c : Contract) (maturityEpoch : Nat) (share : Share) :
    CarriesOn (substituteLeg c maturityEpoch share) := by
  unfold substituteLeg substitutionLeg
  refine .ite (fun _ => .ite (fun _ => .pure _) fun _ => .bind (.check _) fun _ => ?_) fun _ => .pure _
  exact .bind (.write fun _ => .opened _ rfl rfl rfl) fun _ => follows_memberMut _ _

/-- The contract is in default, or not there. -/
def Defaulted (id : ContractId) (s : State) : Prop :=
  ∀ c : Contract, s.contracts[id]? = some c → c.status = .expired

/-- A substitution changes the creditor of a contract in default. -/
theorem follows_substitute (id : ContractId) {s : State} (hs : Defaulted id s) :
    Follows s (Op.exec (substitute id) s).2 := by
  have hrest : ∀ (c : Contract) (maturity : Nat) (first : Share) (rest : List Share),
      CarriesOn (do
        substituteLeg c maturity first
        rest.forM fun share => do
          Op.write (subrogatedClaim c share.underwriter share.amount share.held)
          substituteLeg c maturity share) := fun c maturity first rest =>
    .bind (follows_substituteLeg _ _ _) fun _ => .forM fun share _ =>
      .bind (.write fun _ => .opened _ rfl rfl rfl) fun _ => follows_substituteLeg _ _ _
  have hpure : Op.Triple (fun t => t = s) (pure () : Tr Unit) (fun _ => Follows s) (Follows s) :=
    .pure fun t ht => ht ▸ Follows.refl s
  have hsub : Op.Triple (fun t => t = s) (substitute id) (fun _ => Follows s) (Follows s) := by
    unfold substitute
    refine .bind (Q := fun _ t => t = s) (.check (fun _ _ ht _ => ht) fun t ht => ht ▸ Follows.refl s)
      fun c => ?_
    refine .ite (fun _ => hpure) fun _ => .ite (fun _ => hpure) fun _ => .ite (fun _ => hpure) fun _ =>
      .ite (fun _ => hpure) fun _ => .bind (Q := fun _ t => t = s) (.ask fun _ ht => ht) fun maturity => ?_
    cases shares c with
    | nil => exact hpure
    | cons first rest =>
      refine .bind (Q := fun _ => Follows s) ?_ fun _ =>
        (hrest c maturity first rest).triple fun _ _ h hst => hst.trans h
      unfold contractMut
      refine .bind (Q := fun _ t => t = s)
        (.check (fun _ _ ht _ => ht) fun t ht => ht ▸ Follows.refl s) fun _ => .write fun t ht => ?_
      subst ht
      exact .modContract fun c hc => .of_inactive rfl rfl (by simp [hs c hc])
  exact hsub.exec_snd rfl

/-- **A default carries the contracts on**: its own is not active any more when its creditor is
replaced. -/
theorem follows_markExpired (id : ContractId) : CarriesOn (markExpired id) := by
  intro s
  have hkeep : ∀ {α : Type} {op : Tr α}, CarriesOn op →
      Op.Triple (Follows s) op (fun _ => Follows s) (Follows s) :=
    fun h => h.triple fun _ _ h hst => hst.trans h
  have hmark : Op.Triple (Follows s) (markExpired id) (fun _ => Follows s) (Follows s) := by
    unfold markExpired
    refine .bind (hkeep (quiet_expirable id).moves) fun c =>
      .bind (Q := fun _ t => Follows s t ∧ Defaulted id t) ?_ fun _ =>
      .bind (Q := fun _ t => Follows s t ∧ Defaulted id t) ?_ fun _ => ?_
    · unfold contractMut
      refine .bind (hkeep (.check _)) fun _ => .write fun t ht => ⟨?_, fun c' hc' => ?_⟩
      · exact ht.trans (.modContract fun c _ => .of_inactive rfl rfl (by simp))
      · rw [State.modContract, OrdMap.getElem?_modify_map, Option.map_eq_some_iff] at hc'
        obtain ⟨c, -, rfl⟩ := hc'
        rw [if_pos rfl]
    · unfold memberMut
      refine .bind (Q := fun _ t => Follows s t ∧ Defaulted id t)
        (.check (fun _ _ ht _ => ht) fun _ ht => ht.1) fun _ => .write fun t ht => ⟨?_, ht.2⟩
      exact ht.1.trans (.of_eq rfl rfl)
    · intro t ht
      have h := ht.1.trans (follows_substitute id ht.2)
      rcases hexec : Op.exec (substitute id) t with ⟨_ | _, u⟩ <;> rw [hexec] at h <;> exact h
  exact hmark.exec_snd (.refl s)

/-! ### Discharge -/

theorem follows_dischargeCredit (debtor creditor : MemberId) (amount : Nat) (s : State) :
    Follows s (dischargeCredit debtor creditor amount s) := by
  unfold dischargeCredit
  split <;> exact .of_eq rfl rfl

theorem follows_dischargeHop (id : ContractId) (want : Nat) : CarriesOn (dischargeHop id want) := by
  unfold dischargeHop
  refine .bind (.ask _) fun dust => .bind (.check _) fun c => .ite (fun _ => .pure _) fun _ => ?_
  refine .bind (follows_contractMut fun cm => ⟨rfl, rfl, fun _ => rfl, fun hactive => ?_⟩) fun _ => ?_
  · dsimp only at hactive
    split at hactive
    · split at hactive <;> cases hactive
    · exact hactive
  · refine .bind (follows_memberMut _ _) fun _ => ?_
    refine .bind (follows_rehold _) fun _ => .bind (.write fun s => ?_) fun _ => .pure _
    exact follows_dischargeCredit _ _ _ s

theorem follows_netMutual (budget : Nat) (ids : List ContractId) (netted : Nat) :
    CarriesOn (netMutual budget ids netted) := by
  induction ids generalizing netted with
  | nil => exact .pure _
  | cons id ids ih =>
    unfold netMutual
    refine .bind (.ask _) fun dust => .ite (fun _ => .pure _) fun _ => ?_
    exact .bind (follows_dischargeHop _ _) fun took => ih _

theorem follows_repayment (status : ContractStatus) {closed : ContractStatus}
    (hclosed : closed ≠ .active) (cured : Bool) (id : ContractId) (amount : F64)
    (signers : List Key) : CarriesOn (repayment status closed cured id amount signers) := by
  unfold repayment repay
  refine .bind (.check _) fun _ => .bind (.refuseIf _ _) fun _ => .bind (.check _) fun _ =>
    .bind (.check _) fun _ => .bind (.refuseIf _ _) fun _ => .bind (.refuseIf _ _) fun _ =>
    .bind (.ask _) fun dust => .bind ?_ fun _ => ?_
  · refine follows_contractMut fun cm => ⟨rfl, rfl, fun _ => rfl, fun hactive => ?_⟩
    dsimp only at hactive
    split at hactive
    · exact absurd hactive hclosed
    · exact hactive
  · refine .bind (follows_rehold _) fun _ => .bind (.write fun s => ?_) fun _ => ?_
    · exact follows_dischargeCredit _ _ _ s
    · exact follows_memberMut _ _

theorem follows_netRings (rounds : Nat) : CarriesOn (netRings rounds) :=
  moves_netRings follows_dischargeHop rounds

/-! ### Transfers, extensions and panels -/

theorem follows_transfer (id : ContractId) (newDebtor : MemberId) (signers : List Key) :
    CarriesOn (transfer id newDebtor signers) := by
  unfold transfer
  exact .bind (quiet_transferable _ _ _).moves fun _ => follows_moveDebtor _ _ _

theorem follows_extend (id : ContractId) (newMaturityEpoch : Nat) (signers : List Key) :
    CarriesOn (extend id newMaturityEpoch signers) := by
  unfold extend
  refine .bind (.check _) fun _ => .bind (.refuseIf _ _) fun _ => .bind (.check _) fun _ =>
    .bind (.check _) fun _ => .bind (.refuseIf _ _) fun _ => .bind (.ask _) fun _ =>
    .bind (.refuseIf _ _) fun _ => .bind (.ask _) fun drops => .ite (fun _ => ?_) fun _ => ?_
  · exact .bind (.write fun _ => .of_eq rfl rfl) fun _ =>
      follows_contractMut_terms (fun _ => rfl) (fun _ => rfl) (fun _ => rfl) fun _ => rfl
  · exact follows_contractMut_terms (fun _ => rfl) (fun _ => rfl) (fun _ => rfl) fun _ => rfl

theorem follows_arbAttest (id : ContractId) (arbiter : MemberId) (amount : F64)
    (signers : List Key) : CarriesOn (arbAttest id arbiter amount signers) := by
  unfold arbAttest
  refine .bind (.check _) fun _ => .bind (.check _) fun c => ?_
  cases c.arb with
  | none => exact .refuse _
  | some terms =>
    refine .bind (.refuseIf _ _) fun _ => .bind (.ask _) fun _ => .bind (.refuseIf _ _) fun _ =>
      .bind (.refuseIf _ _) fun _ => .bind (.refuseIf _ _) fun _ => .bind (.refuseIf _ _) fun _ => ?_
    exact follows_contractMut_terms (fun _ => rfl) (fun _ => rfl) (fun _ => rfl) fun _ => rfl

theorem follows_arbAward (id : ContractId) : CarriesOn (arbAward id) :=
  moves_arbAward
    (fun _ => follows_contractMut_terms (fun _ => rfl) (fun _ => rfl) (fun _ => rfl) fun _ => rfl)
    (fun _ _ _ _ _ => follows_openObligation _ _ _ _ _ _ _) id

/-! ### Sales -/

theorem follows_seatPair (first second : Resolved) (sponsor : Option MemberId) :
    CarriesOn (seatPair first second sponsor) :=
  moves_seatPair (fun _ _ _ => .of_eq rfl rfl) (fun _ _ => .of_eq rfl rfl)
    (fun _ _ _ => .of_eq rfl rfl) _ _ _

theorem follows_accept (debtor creditor : Party) (amount : F64) (maturityEpochs : Nat)
    (arb : Option ArbTermsWire) (signers : List Key) (sponsor : Option MemberId) :
    CarriesOn (accept debtor creditor amount maturityEpochs arb signers sponsor) := by
  unfold accept
  refine .bind (quiet_acceptTerms _ _ _ _ _ _).moves fun _ =>
    .bind (follows_seatPair _ _ _) fun _ => ?_
  exact .bind (follows_book _ _ _ _ _) fun _ => .pure _

end Apply

namespace Cascade

open Apply

theorem follows_clearDebts (buyer : MemberId) (budget saleMaturity : Nat)
    (ids : List ContractId) (spent : Nat) (assumed : Assumed) :
    CarriesOn (clearDebts buyer budget saleMaturity ids spent assumed) := by
  have hheld : ∀ id held, CarriesOn (contractMut id fun c => { c with held }) := fun _ _ =>
    follows_contractMut_terms (fun _ => rfl) (fun _ => rfl) (fun _ => rfl) fun _ => rfl
  induction ids generalizing spent assumed with
  | nil => exact .pure _
  | cons id ids ih =>
    unfold clearDebts
    refine .bind (.ask _) fun dust => .ite (fun _ => .pure _) fun _ => .bind (.check _) fun c =>
      .bind (.ask _) fun last => .ite (fun _ => ih _ _) fun _ => .bind (.ask _) fun room =>
      .ite (fun _ => ih _ _) fun _ => .bind (.write fun _ => .of_eq rfl rfl) fun _ => ?_
    refine .bind (hheld _ _) fun _ => .bind (follows_reserve _ _) fun got => ?_
    cases got with
    | none => exact .bind (follows_rehold _) fun _ => ih _ _
    | some held =>
      refine .bind (follows_contractMut fun cm => ⟨rfl, rfl, fun _ => rfl, fun hactive => ?_⟩) fun _ => ?_
      · dsimp only at hactive
        split at hactive
        · cases hactive
        · exact hactive
      · refine .bind (follows_memberMut _ _) fun _ => ?_
        exact .bind (follows_rehold _) fun _ => ih _ _

theorem follows_clearMemberDebts (debtor buyer : MemberId) (budget saleMaturity : Nat)
    (assumed : Assumed) :
    CarriesOn (clearMemberDebts debtor buyer budget saleMaturity assumed) := by
  unfold clearMemberDebts
  exact .bind (.ask _) fun _ => follows_clearDebts _ _ _ _ _ _

/-- The loop over one level's targets carries the contracts on if going one level deeper
does. -/
theorem follows_drainTargetsLoop {buyer : MemberId} {saleMaturity depth : Nat}
    (hdeeper : ∀ lister budget visited assumed,
      CarriesOn (drainLevel buyer saleMaturity depth lister budget visited assumed))
    (lister : MemberId) (targets : List (MemberId × Nat)) (absorbed : Nat)
    (visited : List MemberId) (assumed : Assumed) :
    CarriesOn
      (drainTargetsLoop buyer saleMaturity depth lister targets absorbed visited assumed) := by
  induction targets generalizing absorbed visited assumed with
  | nil => unfold drainTargetsLoop; exact .pure _
  | cons target rest ih =>
    unfold drainTargetsLoop
    refine .bind (.ask _) fun dust => .ite (fun _ => ih _ _ _) fun _ => ?_
    refine .bind (follows_clearMemberDebts _ _ _ _ _) fun cleared => .ite (fun _ => ?_) fun _ => ?_
    · exact .bind (hdeeper _ _ _ _) fun deeper => ih _ _ _
    · exact ih _ _ _

theorem follows_drainLevel (buyer : MemberId) (saleMaturity depth : Nat) (lister : MemberId)
    (budget : Nat) (visited : List MemberId) (assumed : Assumed) :
    CarriesOn (drainLevel buyer saleMaturity depth lister budget visited assumed) := by
  induction depth generalizing lister budget visited assumed with
  | zero => unfold drainLevel; exact .pure _
  | succ depth ih =>
    unfold drainLevel
    refine .bind (.ask _) fun dust => .ite (fun _ => .pure _) fun _ => .bind (.check _) fun self =>
      .bind (.ask _) fun targets => .ite (fun _ => .pure _) fun _ => ?_
    exact follows_drainTargetsLoop ih _ _ _ _ _

theorem follows_takeOver (seller buyer : MemberId) (budget saleMaturity : Nat) :
    CarriesOn (takeOver seller buyer budget saleMaturity) := by
  unfold takeOver
  refine .bind (.ask _) fun dust => .ite (fun _ => .pure _) fun _ => .bind (.check _) fun self =>
    .ite (fun _ => follows_clearMemberDebts _ _ _ _ _) fun _ => ?_
  exact .bind (follows_drainLevel _ _ _ _ _ _ _) fun _ => .pure _

theorem follows_openAssumed (buyer : MemberId) (dust : Nat)
    (slot : (MemberId × Nat) × Nat × Held × Nat) : CarriesOn (openAssumed buyer dust slot) := by
  unfold openAssumed
  refine .ite (fun _ => ?_) fun _ => .write fun _ => .of_eq rfl rfl
  exact .bind (follows_openObligation _ _ _ _ _ _ _) fun _ => .pure _

theorem follows_originate (seller buyer : MemberId) (budget saleMaturity : Nat) :
    CarriesOn (originate seller buyer budget saleMaturity) := by
  unfold originate
  refine .bind (.ask _) fun dust => .bind (follows_takeOver _ _ _ _) fun taken => ?_
  refine .bind (.forM fun slot _ => follows_openAssumed _ _ _) fun _ => ?_
  refine .ite (fun _ => ?_) fun _ => .pure _
  exact .bind (follows_book _ _ _ _ _) fun _ => .pure _

theorem follows_sale (seller buyer : Party) (amount : F64) (maturityEpochs : Nat)
    (signers : List Key) (sponsor : Option MemberId) :
    CarriesOn (sale seller buyer amount maturityEpochs signers sponsor) := by
  unfold sale
  refine .bind (quiet_saleTerms _ _ _ _ _).moves fun _ => .bind (follows_seatPair _ _ _) fun _ =>
    .bind (follows_netMutual _ _ _) fun _ => .ite (fun _ => .pure _) fun _ => .bind (.ask _) fun _ => ?_
  exact follows_originate _ _ _ _

end Cascade

/-! ### Governance -/

theorem follows_rescale (s : State) (pi : F64) : Follows s (s.rescale pi) := by
  have hshave : ∀ s : State, Follows s s.shaveHoldsToWhatTheArcsDeliver := by
    intro s
    refine .foldl (fun s p => ?_) _ s
    unfold State.shaveDebtor
    extract_lets holds arcs sources claimed deliverable excess claims shaved written
    split
    · exact .refl s
    split
    · exact .refl s
    · have hclaims : Follows s written := by
        refine .foldl (fun s cl => ?_) shaved s
        exact .modContract fun c _ => ⟨rfl, rfl, fun _ => rfl, fun h => h⟩
      refine hclaims.trans (.foldl (fun s id => ?_) p.2 written)
      exact .modContract fun c _ => ⟨rfl, rfl, fun _ => rfl, fun h => h⟩
  have hsettled : ∀ c, Carried c (State.settleRescaled c) := by
    intro c
    unfold State.settleRescaled
    split
    · split <;> exact ⟨rfl, rfl, fun _ => rfl, fun h => h⟩
    · exact .refl c
  unfold State.rescale State.rescaleWith
  extract_lets s₁ s₂ s₃ s₄ s₅ byDebtor
  have h₁ : Follows s s₁ :=
    .map (f := fun _ c => State.rescaleContract _ c) (fun _ c => ⟨rfl, rfl, fun _ => rfl, fun h => h⟩) rfl rfl
  have h₂ : Follows s₂ s₃ := .map (f := fun _ c => State.settleRescaled c) (fun _ c => hsettled c) rfl rfl
  have h₃ : Follows s₃ { s₅ with
      members := s₅.members.map fun id m => { m with debtOut := OrdMap.getD' byDebtor id 0 } } :=
    .of_eq rfl rfl
  exact h₁.trans ((hshave s₁).trans (h₂.trans h₃))

namespace Apply

theorem follows_assent (id : MemberId) (proposalId : ProposalId) (signers : List Key) :
    CarriesOn (assent id proposalId signers) := by
  have hwrite : ∀ {f : State → State}, (∀ s, (f s).contracts = s.contracts) →
      (∀ s, (f s).nextContract = s.nextContract) → CarriesOn (Op.write f) := fun hc hn =>
    .write fun s => .of_eq (hc s) (hn s)
  unfold assent
  refine .bind (quiet_mayAssent _ _ _).moves fun carried =>
    .bind (hwrite (fun _ => rfl) fun _ => rfl) fun _ => .ite (fun _ => ?_) fun _ => .pure _
  refine .bind ?_ fun _ => hwrite (fun _ => rfl) fun _ => rfl
  unfold enact
  cases carried.1.kind with
  | paramChange key value => exact hwrite (fun _ => rfl) fun _ => rfl
  | redenominate num den =>
    exact .write fun s => (follows_rescale s (ratio num den)).trans (.of_eq rfl rfl)
  | suspend target =>
    exact .bind (.ask _) fun _ => .bind (.refuseIf _ _) fun _ =>
      .bind (follows_memberMut _ _) fun _ => hwrite (fun _ => rfl) fun _ => rfl
  | unsuspend target => exact follows_memberMut _ _
  | validatorPower target power =>
    refine .ite (fun _ => ?_) fun _ => ?_
    · exact .bind (.check _) fun _ => hwrite (fun _ => rfl) fun _ => rfl
    · exact .bind (.ask _) fun _ => .bind (.refuseIf _ _) fun _ => hwrite (fun _ => rfl) fun _ => rfl
  | seedAmendment amount => exact .bind (.check _) fun _ => hwrite (fun _ => rfl) fun _ => rfl

theorem framesWrites_follows : FramesWrites Follows :=
  ⟨fun _ _ _ => .of_eq rfl rfl, fun _ _ => .of_eq rfl rfl, fun _ _ => .of_eq rfl rfl,
    fun _ _ => .of_eq rfl rfl, fun _ _ _ => .of_eq rfl rfl⟩

/-- **Every transition carries the contracts on.** -/
theorem follows_dispatch [Libm] (tx : Tx) (signers : List Key) (sponsor : Option MemberId) :
    CarriesOn (dispatch tx signers sponsor) := by
  have h := framesWrites_follows
  cases tx with
  | registerGuardians => exact moves_registerGuardians h _ _ _ _ _
  | rotateRequest => exact moves_rotateRequest h _ _ _
  | rotateVeto => exact moves_rotateVeto h _ _
  | rotateFinalize => exact moves_rotateFinalize h _
  | setConsensusKey => exact moves_setConsensusKey h _ _ _
  | declareSupply => exact moves_declareSupply h _ _ _
  | accept => exact follows_accept _ _ _ _ _ _ _
  | transfer => exact follows_transfer _ _ _
  | settle => exact follows_repayment _ (by simp) _ _ _ _
  | extend => exact follows_extend _ _ _
  | markExpired => exact follows_markExpired _
  | cure => exact follows_repayment _ (by simp) _ _ _ _
  | listBeneficiaries => exact moves_listBeneficiaries h _ _ _
  | approveSupporter => exact moves_approveSupporter h _ _ _ _
  | sale => exact Cascade.follows_sale _ _ _ _ _ _
  | arbAttest => exact follows_arbAttest _ _ _ _
  | exit => exact moves_exit h (fun _ _ => .of_eq rfl rfl) _ _
  | propose => exact moves_propose h _ _ _
  | assent => exact follows_assent _ _ _
  | forfeitBonds => exact moves_forfeitBonds h _

/-! ### Boundaries and runs -/

theorem follows_sweepCranks : CarriesOn sweepCranks := by
  have hretire : ∀ (s : State) id, Follows s (retireRow id s) := by
    intro s id
    unfold retireRow
    split
    · exact .refl s
    · next m hm =>
      extract_lets s₁ s₂ s₃
      have h₁ : Follows s s₁ :=
        .foldl (fun s b => (.of_eq rfl rfl : Follows s (s.modMember b (unlist id)))) _ s
      have h₂ : Follows s₁ s₂ :=
        .foldl (fun s l => (.of_eq rfl rfl : Follows s (s.modMember l (undelegate id)))) _ s₁
      have h₃ : Follows s₂ s₃ := by
        simp only [s₃]
        split
        · exact .refl s₂
        · exact .of_eq rfl rfl
      exact h₁.trans (h₂.trans (h₃.trans (.of_eq rfl rfl)))
  unfold sweepCranks
  refine .bind (.ask _) fun due => .bind (.forM fun id _ => .attempt (follows_markExpired _)) fun _ =>
    .bind (follows_netRings _) fun _ => .bind (.ask _) fun sat =>
    .bind (.forM fun id _ => .attempt (moves_forfeitBonds framesWrites_follows _)) fun _ =>
    .bind (.ask _) fun closed =>
    .bind (.forM fun id _ => .attempt (follows_arbAward _)) fun _ =>
    .bind (.write fun s => ?_) fun _ => .write fun s => ?_
  · refine .of_carried rfl fun id c' hc' => ⟨c', ?_, .refl c'⟩
    exact (OrdMap.getElem?_filter_of_some hc').1
  · exact .foldl (fun s id => hretire s id) _ s

end Apply

theorem follows_advance (n : Nat) (s : State) : Follows s (Nat.repeat State.advanceEpoch n s) := by
  induction n with
  | zero => exact .refl s
  | succ n ih => exact ih.trans (.of_eq rfl rfl)

/-- A boundary carries the contracts on. -/
theorem follows_beginBlock (nowSecs : Nat) (s : State) : Follows s (s.beginBlock nowSecs) := by
  unfold State.beginBlock
  split
  · exact .refl s
  dsimp only
  have hstart : Follows s { s with lastBeginSecs := nowSecs } := .of_eq rfl rfl
  split
  · have hreleased : ∀ s : State, Follows s s.releaseBonds := fun _ => .of_eq rfl rfl
    exact (hstart.trans (follows_advance _ _)).trans ((Apply.follows_sweepCranks _).trans (hreleased _))
  · exact hstart

section Events

variable [Libm]

/-- A block, or a transaction that begins one, carries the contracts on. -/
theorem follows_next (e : Event) (s : State) : Follows s (e.next s) := by
  have hbegin : ∀ nowSecs, Follows s (s.beginBlock nowSecs) := fun nowSecs =>
    follows_beginBlock nowSecs s
  cases e with
  | block nowSecs => exact hbegin nowSecs
  | transaction tx txId expiry signers nowSecs =>
    have hgate : Follows (s.beginBlock nowSecs)
        (Op.exec (Apply.bondGate tx signers) (s.beginBlock nowSecs)).2 :=
      Apply.bondGate_moves (fun _ _ _ => .of_eq rfl rfl) tx signers _
    rcases Apply.exec_apply_cases tx txId expiry signers nowSecs s with
      ⟨e, -, hexec⟩ | ⟨-, e, t, ht, hexec⟩ | ⟨-, charged, sponsor, t, outcome, u, ht, hu, hexec⟩
    · rw [Event.next, hexec]
      exact hbegin nowSecs
    · rw [ht] at hgate
      rw [Event.next, hexec]
      exact (hbegin nowSecs).trans hgate
    · rw [ht] at hgate
      have hrecorded : Follows t (t.recordApplied txId expiry) := .of_eq rfl rfl
      have hdispatch := Apply.follows_dispatch tx signers sponsor (t.recordApplied txId expiry)
      rw [hu] at hdispatch
      have hsettled : Follows u (Apply.settleOutcome tx txId expiry signers charged outcome u) := by
        refine Apply.settleOutcome_moves ?_ ?_ ?_ tx txId expiry signers charged outcome u
        · intro s txId expiry
          unfold State.forgetApplied
          split
          · exact .refl s
          · exact .of_eq rfl rfl
        · intro s charged
          cases charged <;> exact .of_eq rfl rfl
        · intro s subject signers
          unfold Apply.priceRefusal
          dsimp only
          split
          · exact .of_eq rfl rfl
          · split <;> exact .of_eq rfl rfl
      rw [Event.next, hexec]
      exact (hbegin nowSecs).trans <| hgate.trans <| hrecorded.trans <| hdispatch.trans hsettled

/-- What the contracts satisfy at a genesis, and keep as they are carried on, holds in every
run. -/
theorem carriedOn_run {I : State → Prop} (hempty : ∀ s : State, s.contracts = ∅ → I s)
    (hkeep : ∀ s s', Follows s s' → I s → I s') {s : State} (h : Founding s) (es : List Event) :
    I (Event.run es s) := by
  obtain ⟨g, hg⟩ := h
  have hfounded : I s :=
    genesisState_keeps (fun _ _ _ => hempty _ rfl) (fun _ _ _ _ hs hseat =>
      hkeep _ _ (seatEntry_moves (R := Follows) (fun _ _ => .of_eq rfl rfl)
        (fun _ _ => .of_eq rfl rfl) (fun _ _ _ => .of_eq rfl rfl) (fun _ _ => .of_eq rfl rfl)
        hseat) hs) hg
  clear hg
  induction es generalizing s with
  | nil => exact hfounded
  | cons e es ih => exact ih (hkeep _ _ (follows_next e s) hfounded)

/-- **The ids of contracts in use are issued**, in every run from a genesis. -/
theorem contractsIssued_run {s : State} (h : Founding s) (es : List Event) :
    (Event.run es s).ContractsIssued :=
  carriedOn_run (fun s hs id _ => by simp [hs]) (fun _ _ h => h.issued) h es

/-- **Every contract stands under its own id**, in every run from a genesis. -/
theorem contractsNamed_run {s : State} (h : Founding s) (es : List Event) :
    (Event.run es s).ContractsNamed :=
  carriedOn_run (fun s hs id c hc => by simp [hs] at hc) (fun _ _ h => h.named) h es

end Events

end Edet
