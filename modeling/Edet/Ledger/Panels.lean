import Edet.Ledger.Parties
import Edet.Ledger.SeatBound

/-!
# The panels of contracts

A contract whose terms name arbiters carries a panel: the terms, what was attested, and whether
the panel was closed (`Contract.panel`). Only three things are written on a panel. An attestation
is entered, a redenomination puts its figures in the new unit (`PanelWrite`), and an award closes
it. Every other transition leaves the panels of all contracts as they are (`KeepsPanels`), and a
contract it opens has a panel nobody has attested (`PanelsKept`).

`writes_dispatch` says what each transition writes, and that an attestation is the first of a
member of its panel.
-/

namespace Edet

open Edet.Flow

/-- What a contract keeps of its panel. -/
structure Panel where
  id : ContractId
  created : Nat
  terms : Option ArbTerms
  attested : OrdMap MemberId Nat
  awarded : Bool

def Contract.panel (c : Contract) : Panel :=
  ⟨c.id, c.createdEpoch, c.arb, c.arbAttestations, c.arbAwarded⟩

/-- A contract nobody has attested. -/
def Contract.Unattested (c : Contract) : Prop := c.arbAttestations = ∅ ∧ c.arbAwarded = false

/-- Every contract is kept, with its panel in the relation `P`, and a new one is unattested. -/
structure PanelsKept (P : Panel → Panel → Prop) (s s' : State) : Prop where
  next : s.nextContract ≤ s'.nextContract
  issued : s'.ContractsIssued
  kept : ∀ (id : ContractId) (c : Contract), s.contracts[id]? = some c →
    ∃ c', s'.contracts[id]? = some c' ∧ P c.panel c'.panel
  born : ∀ (id : ContractId) (c' : Contract), s'.contracts[id]? = some c' → s.contracts[id]? = none →
    s.nextContract ≤ id ∧ c'.Unattested ∧ c'.id = id

/-- Every contract is kept with its panel, where the ids are issued. -/
def KeepsPanels (s s' : State) : Prop := s.ContractsIssued → PanelsKept Eq s s'

instance : Std.Refl KeepsPanels :=
  ⟨fun _ hs => ⟨le_rfl, hs, fun _ c hc => ⟨c, hc, rfl⟩, fun id c' hc' h => by rw [h] at hc'; cases hc'⟩⟩

instance : IsTrans State KeepsPanels := by
  refine ⟨fun s s' s'' h h' hs => ?_⟩
  have h₁ := h hs
  have h₂ := h' h₁.issued
  refine ⟨h₁.next.trans h₂.next, h₂.issued, fun id c hc => ?_, fun id c'' hc'' hnone => ?_⟩
  · obtain ⟨c', hc', hpanel⟩ := h₁.kept id c hc
    obtain ⟨c'', hc'', hpanel'⟩ := h₂.kept id c' hc'
    exact ⟨c'', hc'', hpanel.trans hpanel'⟩
  · cases hmid : s'.contracts[id]? with
    | none =>
      obtain ⟨hid, hfresh⟩ := h₂.born id c'' hc'' hmid
      exact ⟨h₁.next.trans hid, hfresh⟩
    | some c' =>
      obtain ⟨hid, hfresh, hnamed⟩ := h₁.born id c' hmid hnone
      obtain ⟨d, hd, hpanel⟩ := h₂.kept id c' hmid
      obtain rfl : c'' = d := Option.some.inj (hc''.symm.trans hd)
      have hattested : c''.arbAttestations = c'.arbAttestations := congrArg Panel.attested hpanel.symm
      have hawarded : c''.arbAwarded = c'.arbAwarded := congrArg Panel.awarded hpanel.symm
      have hid'' : c''.id = c'.id := congrArg Panel.id hpanel.symm
      exact ⟨hid, ⟨hattested.trans hfresh.1, hawarded.trans hfresh.2⟩, hid''.trans hnamed⟩

namespace KeepsPanels

theorem refl (s : State) : KeepsPanels s s := Std.Refl.refl s

theorem trans {s s' s'' : State} (h : KeepsPanels s s') (h' : KeepsPanels s' s'') :
    KeepsPanels s s'' := IsTrans.trans _ _ _ h h'

theorem foldl {β : Type} {f : State → β → State} (h : ∀ s x, KeepsPanels s (f s x)) (l : List β)
    (s : State) : KeepsPanels s (l.foldl f s) := Op.Moves.foldl h l s

theorem map {s s' : State} {f : ContractId → Contract → Contract} (hf : ∀ id c, (f id c).panel = c.panel)
    (hcontracts : s'.contracts = s.contracts.map f) (hnext : s'.nextContract = s.nextContract) :
    KeepsPanels s s' := by
  have hget : ∀ id : ContractId, s'.contracts[id]? = (s.contracts[id]?).map (f id) := fun id => by
    rw [hcontracts, Std.ExtTreeMap.getElem?_map]
  intro hs
  refine ⟨hnext.ge, fun id hid => ?_, fun id c hc => ⟨f id c, ?_, (hf id c).symm⟩, fun id c' hc' hnone => ?_⟩
  · rw [hget, hs id (hnext ▸ hid)]
    rfl
  · rw [hget, hc]
    rfl
  · rw [hget, hnone] at hc'
    cases hc'

theorem of_eq {s s' : State} (hcontracts : s'.contracts = s.contracts)
    (hnext : s'.nextContract = s.nextContract) : KeepsPanels s s' := by
  intro hs
  refine ⟨hnext.ge, fun id hid => ?_, fun id c hc => ⟨c, hcontracts ▸ hc, rfl⟩, fun id c' hc' hnone => ?_⟩
  · rw [hcontracts]
    exact hs id (hnext ▸ hid)
  · rw [hcontracts, hnone] at hc'
    cases hc'

theorem modContract {f : Contract → Contract} (hf : ∀ c, (f c).panel = c.panel) (s : State)
    (id : ContractId) : KeepsPanels s (s.modContract id f) := by
  have hget : ∀ a : ContractId, (s.modContract id f).contracts[a]? =
      (s.contracts[a]?).map fun c => if id = a then f c else c := fun a => by
    rw [State.modContract, OrdMap.getElem?_modify_map]
  intro hs
  refine ⟨le_rfl, fun a ha => ?_, fun a c hc => ⟨if id = a then f c else c, ?_, ?_⟩,
    fun a c' hc' hnone => ?_⟩
  · rw [hget, hs a ha]
    rfl
  · rw [hget, hc]
    rfl
  · split
    · exact (hf c).symm
    · rfl
  · rw [hget, hnone] at hc'
    cases hc'

/-- A contract is opened at the next id, unattested. -/
theorem opened {s s' : State} (c : Contract) (hid : c.id = s.nextContract)
    (hattested : c.arbAttestations = ∅) (hawarded : c.arbAwarded = false)
    (hcontracts : s'.contracts = s.contracts.insert s.nextContract c)
    (hnext : s'.nextContract = s.nextContract + 1) : KeepsPanels s s' := by
  have hget : ∀ id : ContractId,
      s'.contracts[id]? = if s.nextContract = id then some c else s.contracts[id]? := by
    intro id
    rw [hcontracts, Std.ExtTreeMap.getElem?_insert]
    simp only [Std.LawfulEqCmp.compare_eq_iff_eq]
  intro hs
  refine ⟨hnext ▸ Nat.le_succ _, fun id hid => ?_, fun id c' hc' => ⟨c', ?_, rfl⟩,
    fun id c' hc' hnone => ?_⟩
  · rw [hnext] at hid
    have hlt : s.nextContract < id := hid
    rw [hget, if_neg (Nat.ne_of_lt hlt)]
    exact hs id (Nat.le_of_lt hlt)
  · rw [hget]
    split
    · next heq =>
      subst heq
      rw [hs _ le_rfl] at hc'
      cases hc'
    · exact hc'
  · rw [hget] at hc'
    split at hc'
    · next heq =>
      obtain rfl := Option.some.inj hc'
      exact ⟨heq.le, ⟨hattested, hawarded⟩, hid.trans heq⟩
    · rw [hnone] at hc'
      cases hc'

end KeepsPanels

namespace Apply

/-- A transition that no panel sees. -/
abbrev SparesPanels {α : Type} (op : Tr α) : Prop := Op.Moves KeepsPanels op

theorem panels_memberMut (id : MemberId) (f : Member → Member) : SparesPanels (memberMut id f) := by
  unfold memberMut
  exact .bind (.check _) fun _ => .write fun _ => .of_eq rfl rfl

theorem panels_contractMut {id : ContractId} {f : Contract → Contract}
    (hf : ∀ c, (f c).panel = c.panel) : SparesPanels (contractMut id f) := by
  unfold contractMut
  exact .bind (.check _) fun _ => .write fun _ => .modContract hf _ _

theorem panels_reserve (debtor : MemberId) (want : Nat) :
    SparesPanels (Op.draw (·.reserveCapacityMinor debtor want)) := by
  refine .draw fun s => ?_
  unfold State.reserveCapacityMinor
  split <;> exact .of_eq rfl rfl

theorem panels_reserveIf (allowed : Bool) (debtor : MemberId) (amount : Nat) :
    SparesPanels (reserveIf allowed debtor amount) := by
  unfold reserveIf
  exact .ite (fun _ => panels_reserve _ _) fun _ => .pure _

theorem panels_rehold (id : ContractId) : SparesPanels (rehold id) := by
  have hheld : ∀ held, SparesPanels (contractMut id fun c => { c with held }) := fun held =>
    panels_contractMut fun _ => rfl
  unfold rehold
  refine .bind (.check _) fun c => .ite (fun _ => .pure _) fun _ => .ite (fun _ => ?_) fun _ => ?_
  · refine .ite (fun _ => .pure _) fun _ => ?_
    exact .bind (.write fun _ => .of_eq rfl rfl) fun _ => hheld _
  · refine .bind (.ask _) fun dust => .ite (fun _ => ?_) fun _ => .pure _
    refine .bind (panels_reserve _ _) fun held => ?_
    cases held with
    | none => exact panels_contractMut fun _ => rfl
    | some h => exact hheld h

theorem panels_openObligation (debtor creditor : MemberId) (amount maturityEpoch : Nat)
    (arb : Option ArbTerms) (held : Option Held) (acceptedEpoch : Nat) :
    SparesPanels (openObligation debtor creditor amount maturityEpoch arb held acceptedEpoch) := by
  unfold openObligation
  refine .bind (.check _) fun debtOut => fun s => ?_
  -- the id read is the next one of the state that is written
  rw [Op.exec_bind, Op.exec_ask]
  dsimp only
  rw [Op.exec_bind, Op.exec_write]
  dsimp only
  exact .trans (.opened _ rfl rfl rfl rfl rfl) (Op.Moves.bind (panels_memberMut _ _) (fun _ => .pure _) _)

theorem panels_book (debtor creditor : MemberId) (amount maturityEpoch : Nat)
    (arb : Option ArbTerms) : SparesPanels (book debtor creditor amount maturityEpoch arb) := by
  unfold book
  refine .bind (.check _) fun _ => .bind (.ask _) fun inside => ?_
  refine .bind (panels_reserveIf _ _ _) fun held => .bind (.ask _) fun _ => ?_
  exact panels_openObligation _ _ _ _ _ _ _

theorem panels_moveDebtor (c : Contract) (newDebtor : MemberId) (held : Option Held) :
    SparesPanels (moveDebtor c newDebtor held) := by
  unfold moveDebtor
  refine .bind (.check _) fun _ => .bind (.write fun _ => .of_eq rfl rfl) fun _ => ?_
  refine .bind (panels_memberMut _ _) fun _ => ?_
  refine .bind (panels_contractMut fun _ => rfl) fun _ =>
    .bind (.ask _) fun inside => .bind ?_ fun _ => ?_
  · cases held with
    | none => exact panels_reserveIf _ _ _
    | some h => exact .pure _
  · exact .bind (panels_openObligation _ _ _ _ _ _ _) fun _ => .pure _

/-! ### Substitution -/

theorem panels_substituteLeg (c : Contract) (maturityEpoch : Nat) (share : Share) :
    SparesPanels (substituteLeg c maturityEpoch share) := by
  unfold substituteLeg substitutionLeg
  refine .ite (fun _ => .ite (fun _ => .pure _) fun _ => .bind (.check _) fun _ => ?_) fun _ => .pure _
  exact .bind (.write fun _ => .opened _ rfl rfl rfl rfl rfl) fun _ => panels_memberMut _ _

theorem panels_substitute (id : ContractId) : SparesPanels (substitute id) := by
  unfold substitute
  refine .bind (.check _) fun c => .ite (fun _ => .pure _) fun _ => .ite (fun _ => .pure _) fun _ =>
    .ite (fun _ => .pure _) fun _ => .ite (fun _ => .pure _) fun _ => .bind (.ask _) fun maturity => ?_
  cases shares c with
  | nil => exact .pure _
  | cons first rest =>
    refine .bind (panels_contractMut fun _ => rfl) fun _ => .bind (panels_substituteLeg _ _ _) fun _ =>
      .forM fun share _ => ?_
    exact .bind (.write fun _ => .opened _ rfl rfl rfl rfl rfl) fun _ => panels_substituteLeg _ _ _

theorem panels_markExpired (id : ContractId) : SparesPanels (markExpired id) := by
  unfold markExpired
  exact .bind (quiet_expirable id).moves fun _ => .bind (panels_contractMut fun _ => rfl) fun _ =>
    .bind (panels_memberMut _ _) fun _ => panels_substitute _

/-! ### Discharge -/

theorem panels_dischargeCredit (debtor creditor : MemberId) (amount : Nat) (s : State) :
    KeepsPanels s (dischargeCredit debtor creditor amount s) := by
  unfold dischargeCredit
  split <;> exact .of_eq rfl rfl

theorem panels_dischargeHop (id : ContractId) (want : Nat) : SparesPanels (dischargeHop id want) := by
  unfold dischargeHop
  refine .bind (.ask _) fun dust => .bind (.check _) fun c => .ite (fun _ => .pure _) fun _ => ?_
  refine .bind (panels_contractMut fun _ => rfl) fun _ => ?_
  · refine .bind (panels_memberMut _ _) fun _ => ?_
    refine .bind (panels_rehold _) fun _ => .bind (.write fun s => ?_) fun _ => .pure _
    exact panels_dischargeCredit _ _ _ s

theorem panels_netMutual (budget : Nat) (ids : List ContractId) (netted : Nat) :
    SparesPanels (netMutual budget ids netted) := by
  induction ids generalizing netted with
  | nil => exact .pure _
  | cons id ids ih =>
    unfold netMutual
    refine .bind (.ask _) fun dust => .ite (fun _ => .pure _) fun _ => ?_
    exact .bind (panels_dischargeHop _ _) fun took => ih _

theorem panels_repayment (status closed : ContractStatus) (cured : Bool) (id : ContractId) (amount : F64)
    (signers : List Key) : SparesPanels (repayment status closed cured id amount signers) := by
  unfold repayment repay
  refine .bind (.check _) fun _ => .bind (.refuseIf _ _) fun _ => .bind (.check _) fun _ =>
    .bind (.check _) fun _ => .bind (.refuseIf _ _) fun _ => .bind (.refuseIf _ _) fun _ =>
    .bind (.ask _) fun dust => .bind ?_ fun _ => ?_
  · exact panels_contractMut fun _ => rfl
  · refine .bind (panels_rehold _) fun _ => .bind (.write fun s => ?_) fun _ => ?_
    · exact panels_dischargeCredit _ _ _ s
    · exact panels_memberMut _ _

theorem panels_netRings (rounds : Nat) : SparesPanels (netRings rounds) :=
  moves_netRings panels_dischargeHop rounds

/-! ### Transfers, extensions and panels -/

theorem panels_transfer (id : ContractId) (newDebtor : MemberId) (signers : List Key) :
    SparesPanels (transfer id newDebtor signers) := by
  unfold transfer
  exact .bind (quiet_transferable _ _ _).moves fun _ => panels_moveDebtor _ _ _

theorem panels_extend (id : ContractId) (newMaturityEpoch : Nat) (signers : List Key) :
    SparesPanels (extend id newMaturityEpoch signers) := by
  unfold extend
  refine .bind (.check _) fun _ => .bind (.refuseIf _ _) fun _ => .bind (.check _) fun _ =>
    .bind (.check _) fun _ => .bind (.refuseIf _ _) fun _ => .bind (.ask _) fun _ =>
    .bind (.refuseIf _ _) fun _ => .bind (.ask _) fun drops => .ite (fun _ => ?_) fun _ => ?_
  · exact .bind (.write fun _ => .of_eq rfl rfl) fun _ =>
      panels_contractMut fun _ => rfl
  · exact panels_contractMut fun _ => rfl

/-! ### Sales -/

theorem panels_seatPair (first second : Resolved) (sponsor : Option MemberId) :
    SparesPanels (seatPair first second sponsor) :=
  moves_seatPair (fun _ _ _ => .of_eq rfl rfl) (fun _ _ => .of_eq rfl rfl)
    (fun _ _ _ => .of_eq rfl rfl) _ _ _

theorem panels_accept (debtor creditor : Party) (amount : F64) (maturityEpochs : Nat)
    (arb : Option ArbTermsWire) (signers : List Key) (sponsor : Option MemberId) :
    SparesPanels (accept debtor creditor amount maturityEpochs arb signers sponsor) := by
  unfold accept
  refine .bind (quiet_acceptTerms _ _ _ _ _ _).moves fun _ =>
    .bind (panels_seatPair _ _ _) fun _ => ?_
  exact .bind (panels_book _ _ _ _ _) fun _ => .pure _

end Apply

namespace Cascade

open Apply

theorem panels_clearDebts (buyer : MemberId) (budget saleMaturity : Nat)
    (ids : List ContractId) (spent : Nat) (assumed : Assumed) :
    SparesPanels (clearDebts buyer budget saleMaturity ids spent assumed) := by
  have hheld : ∀ id held, SparesPanels (contractMut id fun c => { c with held }) := fun _ _ =>
    panels_contractMut fun _ => rfl
  induction ids generalizing spent assumed with
  | nil => exact .pure _
  | cons id ids ih =>
    unfold clearDebts
    refine .bind (.ask _) fun dust => .ite (fun _ => .pure _) fun _ => .bind (.check _) fun c =>
      .bind (.ask _) fun last => .ite (fun _ => ih _ _) fun _ => .bind (.ask _) fun room =>
      .ite (fun _ => ih _ _) fun _ => .bind (.write fun _ => .of_eq rfl rfl) fun _ => ?_
    refine .bind (hheld _ _) fun _ => .bind (panels_reserve _ _) fun got => ?_
    cases got with
    | none => exact .bind (panels_rehold _) fun _ => ih _ _
    | some held =>
      refine .bind (panels_contractMut fun _ => rfl) fun _ => ?_
      · refine .bind (panels_memberMut _ _) fun _ => ?_
        exact .bind (panels_rehold _) fun _ => ih _ _

theorem panels_clearMemberDebts (debtor buyer : MemberId) (budget saleMaturity : Nat)
    (assumed : Assumed) :
    SparesPanels (clearMemberDebts debtor buyer budget saleMaturity assumed) := by
  unfold clearMemberDebts
  exact .bind (.ask _) fun _ => panels_clearDebts _ _ _ _ _ _

/-- The loop over one level's targets is seen by no panel if going one level deeper is not. -/
theorem panels_drainTargetsLoop {buyer : MemberId} {saleMaturity depth : Nat}
    (hdeeper : ∀ lister budget visited assumed,
      SparesPanels (drainLevel buyer saleMaturity depth lister budget visited assumed))
    (lister : MemberId) (targets : List (MemberId × Nat)) (absorbed : Nat)
    (visited : List MemberId) (assumed : Assumed) :
    SparesPanels
      (drainTargetsLoop buyer saleMaturity depth lister targets absorbed visited assumed) := by
  induction targets generalizing absorbed visited assumed with
  | nil => unfold drainTargetsLoop; exact .pure _
  | cons target rest ih =>
    unfold drainTargetsLoop
    refine .bind (.ask _) fun dust => .ite (fun _ => ih _ _ _) fun _ => ?_
    refine .bind (panels_clearMemberDebts _ _ _ _ _) fun cleared => .ite (fun _ => ?_) fun _ => ?_
    · exact .bind (hdeeper _ _ _ _) fun deeper => ih _ _ _
    · exact ih _ _ _

theorem panels_drainLevel (buyer : MemberId) (saleMaturity depth : Nat) (lister : MemberId)
    (budget : Nat) (visited : List MemberId) (assumed : Assumed) :
    SparesPanels (drainLevel buyer saleMaturity depth lister budget visited assumed) := by
  induction depth generalizing lister budget visited assumed with
  | zero => unfold drainLevel; exact .pure _
  | succ depth ih =>
    unfold drainLevel
    refine .bind (.ask _) fun dust => .ite (fun _ => .pure _) fun _ => .bind (.check _) fun self =>
      .bind (.ask _) fun targets => .ite (fun _ => .pure _) fun _ => ?_
    exact panels_drainTargetsLoop ih _ _ _ _ _

theorem panels_takeOver (seller buyer : MemberId) (budget saleMaturity : Nat) :
    SparesPanels (takeOver seller buyer budget saleMaturity) := by
  unfold takeOver
  refine .bind (.ask _) fun dust => .ite (fun _ => .pure _) fun _ => .bind (.check _) fun self =>
    .ite (fun _ => panels_clearMemberDebts _ _ _ _ _) fun _ => ?_
  exact .bind (panels_drainLevel _ _ _ _ _ _ _) fun _ => .pure _

theorem panels_openAssumed (buyer : MemberId) (dust : Nat)
    (slot : (MemberId × Nat) × Nat × Held × Nat) : SparesPanels (openAssumed buyer dust slot) := by
  unfold openAssumed
  refine .ite (fun _ => ?_) fun _ => .write fun _ => .of_eq rfl rfl
  exact .bind (panels_openObligation _ _ _ _ _ _ _) fun _ => .pure _

theorem panels_originate (seller buyer : MemberId) (budget saleMaturity : Nat) :
    SparesPanels (originate seller buyer budget saleMaturity) := by
  unfold originate
  refine .bind (.ask _) fun dust => .bind (panels_takeOver _ _ _ _) fun taken => ?_
  refine .bind (.forM fun slot _ => panels_openAssumed _ _ _) fun _ => ?_
  refine .ite (fun _ => ?_) fun _ => .pure _
  exact .bind (panels_book _ _ _ _ _) fun _ => .pure _

theorem panels_sale (seller buyer : Party) (amount : F64) (maturityEpochs : Nat)
    (signers : List Key) (sponsor : Option MemberId) :
    SparesPanels (sale seller buyer amount maturityEpochs signers sponsor) := by
  unfold sale
  refine .bind (quiet_saleTerms _ _ _ _ _).moves fun _ => .bind (panels_seatPair _ _ _) fun _ =>
    .bind (panels_netMutual _ _ _) fun _ => .ite (fun _ => .pure _) fun _ => .bind (.ask _) fun _ => ?_
  exact panels_originate _ _ _ _

end Cascade

/-! ### What is written on a panel -/

/-- What an event writes on the panels: nothing, the figures in another unit, or an attestation. -/
inductive PanelWrite
  | none
  | scale (pi : F64)
  | attest (id : ContractId) (arbiter : MemberId) (amount : Nat)

namespace PanelWrite

/-- The attestations of a contract after the write. -/
def attested (w : PanelWrite) (id : ContractId) (figures : OrdMap MemberId Nat) : OrdMap MemberId Nat :=
  match w with
  | .none => figures
  | .scale pi => figures.map fun _ v => scaleMinor v pi
  | .attest id' arbiter amount => if id' = id then figures.insert arbiter amount else figures

/-- The terms of a panel after the write. -/
def terms (w : PanelWrite) (terms : Option ArbTerms) : Option ArbTerms :=
  match w with
  | .scale pi => terms.map fun a => { a with awardCap := scaleMinor a.awardCap pi }
  | _ => terms

def panel (w : PanelWrite) (p : Panel) : Panel :=
  { p with attested := w.attested p.id p.attested, terms := w.terms p.terms }

theorem exists_terms {w : PanelWrite} {terms : Option ArbTerms} {a : ArbTerms} (h : terms = some a) :
    ∃ a', w.terms terms = some a' ∧ a'.arbiters = a.arbiters ∧ a'.quorum = a.quorum ∧
      a'.windowEpochs = a.windowEpochs ∧ a'.debtor = a.debtor ∧ a'.creditor = a.creditor := by
  subst h
  cases w <;> exact ⟨_, rfl, rfl, rfl, rfl, rfl, rfl⟩

end PanelWrite

/-- The panels are kept, but for what is written on them. -/
abbrev Writes (w : PanelWrite) (s s' : State) : Prop :=
  PanelsKept (fun p p' => p' = w.panel p) s s'

theorem PanelsKept.unwritten {s s' : State} (h : PanelsKept Eq s s') : Writes .none s s' :=
  ⟨h.next, h.issued, fun id c hc => by
    obtain ⟨c', hc', hpanel⟩ := h.kept id c hc
    exact ⟨c', hc', hpanel.symm⟩, h.born⟩

/-- What leaves the panels may come before a write. -/
theorem PanelsKept.after {P : Panel → Panel → Prop} {s s' s'' : State} (h : PanelsKept Eq s s')
    (h' : PanelsKept P s' s'') (hfresh : ∀ c c' : Contract, c.Unattested → P c.panel c'.panel →
      c'.Unattested ∧ c'.id = c.id) : PanelsKept P s s'' := by
  refine ⟨h.next.trans h'.next, h'.issued, fun id c hc => ?_, fun id c'' hc'' hnone => ?_⟩
  · obtain ⟨c', hc', hpanel⟩ := h.kept id c hc
    rw [hpanel]
    exact h'.kept id c' hc'
  · cases hmid : s'.contracts[id]? with
    | none =>
      obtain ⟨hid, hrest⟩ := h'.born id c'' hc'' hmid
      exact ⟨h.next.trans hid, hrest⟩
    | some c' =>
      obtain ⟨hid, hun, hnamed⟩ := h.born id c' hmid hnone
      obtain ⟨d, hd, hP⟩ := h'.kept id c' hmid
      obtain rfl : c'' = d := Option.some.inj (hc''.symm.trans hd)
      obtain ⟨hun', hid'⟩ := hfresh c' c'' hun hP
      exact ⟨hid, hun', hid'.trans hnamed⟩

/-- What leaves the panels may come after a write. -/
theorem PanelsKept.before {P : Panel → Panel → Prop} {s s' s'' : State} (h : PanelsKept P s s')
    (h' : KeepsPanels s' s'') : PanelsKept P s s'' := by
  have h₂ := h' h.issued
  refine ⟨h.next.trans h₂.next, h₂.issued, fun id c hc => ?_, fun id c'' hc'' hnone => ?_⟩
  · obtain ⟨c', hc', hP⟩ := h.kept id c hc
    obtain ⟨c'', hc'', hpanel⟩ := h₂.kept id c' hc'
    exact ⟨c'', hc'', hpanel ▸ hP⟩
  · cases hmid : s'.contracts[id]? with
    | none =>
      obtain ⟨hid, hrest⟩ := h₂.born id c'' hc'' hmid
      exact ⟨h.next.trans hid, hrest⟩
    | some c' =>
      obtain ⟨hid, hfresh, hnamed⟩ := h.born id c' hmid hnone
      obtain ⟨d, hd, hpanel⟩ := h₂.kept id c' hmid
      obtain rfl : c'' = d := Option.some.inj (hc''.symm.trans hd)
      have hattested : c''.arbAttestations = c'.arbAttestations := congrArg Panel.attested hpanel.symm
      have hawarded : c''.arbAwarded = c'.arbAwarded := congrArg Panel.awarded hpanel.symm
      have hid'' : c''.id = c'.id := congrArg Panel.id hpanel.symm
      exact ⟨hid, ⟨hattested.trans hfresh.1, hawarded.trans hfresh.2⟩, hid''.trans hnamed⟩

/-- A write on the contracts themselves, where ids are issued. -/
theorem PanelsKept.map {P : Panel → Panel → Prop} {s s' : State} {f : ContractId → Contract → Contract}
    (hs : s.ContractsIssued) (hf : ∀ id c, s.contracts[id]? = some c → P c.panel (f id c).panel)
    (hget : ∀ id : ContractId, s'.contracts[id]? = (s.contracts[id]?).map (f id))
    (hnext : s'.nextContract = s.nextContract) : PanelsKept P s s' := by
  refine ⟨hnext.ge, fun id hid => ?_, fun id c hc => ⟨f id c, ?_, hf id c hc⟩, fun id c' hc' hnone => ?_⟩
  · rw [hget, hs id (hnext ▸ hid)]
    rfl
  · rw [hget, hc]
    rfl
  · rw [hget, hnone] at hc'
    cases hc'

/-! ### Governance -/

theorem writes_rescale {s : State} (hs : s.ContractsIssued) (pi : F64) :
    Writes (.scale pi) s (s.rescale pi) := by
  have hshave : ∀ s : State, KeepsPanels s s.shaveHoldsToWhatTheArcsDeliver := by
    intro s
    refine .foldl (fun s p => ?_) _ s
    unfold State.shaveDebtor
    extract_lets holds arcs sources claimed deliverable excess claims shaved written
    split
    · exact .refl s
    split
    · exact .refl s
    · have hclaims : KeepsPanels s written := by
        refine .foldl (fun s cl => ?_) shaved s
        exact .modContract (fun c => by rfl) _ _
      refine hclaims.trans (.foldl (fun s id => ?_) p.2 written)
      exact .modContract (fun c => by rfl) _ _
  have hsettled : ∀ c, (State.settleRescaled c).panel = c.panel := by
    intro c
    unfold State.settleRescaled
    split
    · split <;> rfl
    · rfl
  unfold State.rescale State.rescaleWith
  extract_lets s₁ s₂ s₃ s₄ s₅ byDebtor
  have h₁ : Writes (.scale pi) s s₁ := by
    refine .map (f := fun _ c => State.rescaleContract (fun v => scaleMinor v pi) c) hs
      (fun id c _ => rfl) (fun id => ?_) rfl
    exact Std.ExtTreeMap.getElem?_map
  have h₂ : KeepsPanels s₂ s₃ := .map (f := fun _ c => State.settleRescaled c) (fun _ c => hsettled c) rfl rfl
  have h₃ : KeepsPanels s₃ { s₅ with
      members := s₅.members.map fun id m => { m with debtOut := OrdMap.getD' byDebtor id 0 } } :=
    .of_eq rfl rfl
  exact h₁.before ((hshave s₁).trans (h₂.trans h₃))

namespace Apply

/-- What an assent writes on the panels: the unit, where it has just redenominated. -/
def assentWrite (proposalId : ProposalId) (s t : State) : PanelWrite :=
  match s.proposals[proposalId]?, t.proposals[proposalId]? with
  | some p, some p' =>
    match p.enacted, p'.enacted, p'.kind with
    | false, true, .redenominate num den => .scale (ratio num den)
    | _, _, _ => .none
  | _, _ => .none

theorem assentWrite_of_not_enacted {proposalId : ProposalId} {s t : State}
    (h : ∀ p, t.proposals[proposalId]? = some p → p.enacted = false) :
    assentWrite proposalId s t = .none := by
  unfold assentWrite
  split
  · next p p' hp hp' =>
    rw [h p' hp']
    split <;> simp_all
  · rfl

/-- A proposal that may be assented to is not enacted. -/
theorem triple_mayAssent_open {P : State → Prop} (id : MemberId) (proposalId : ProposalId)
    (signers : List Key) :
    Op.Triple P (mayAssent id proposalId signers)
      (fun r s => P s ∧ s.proposals[proposalId]? = some r.1 ∧ r.1.enacted = false) P := by
  unfold mayAssent
  refine .bind_quiet (Op.quiet_check _) (fun _ h => h) fun _ => ?_
  refine .bind (Q := fun p s => P s ∧ s.proposals[proposalId]? = some p)
    (.check (fun s p hs hp => ⟨hs, ?_⟩) fun _ h => h) fun p => ?_
  · unfold findProposal at hp
    split at hp
    · next q hq =>
      cases hp
      exact hq
    · cases hp
  refine .bind_quiet (Op.quiet_check _) (fun _ h => h.1) fun _ => ?_
  refine .bind (Q := fun _ s => P s ∧ s.proposals[proposalId]? = some p ∧ p.enacted = false)
    (.refuseIf (fun s hs hopen => ⟨hs.1, hs.2, by simpa using hopen⟩) fun _ h _ => h.1) fun _ => ?_
  exact .bind_quiet (Op.quiet_refuseIf _ _) (fun _ h => h.1) fun _ =>
    .bind_quiet (Op.quiet_ask _) (fun _ h => h.1) fun _ =>
    .bind_quiet (Op.quiet_refuseIf _ _) (fun _ h => h.1) fun _ =>
    .bind_quiet (Op.quiet_refuseIf _ _) (fun _ h => h.1) fun _ =>
    .bind_quiet (Op.quiet_ask _) (fun _ h => h.1) fun _ =>
    .bind_quiet (Op.quiet_ask _) (fun _ h => h.1) fun _ =>
    .bind_quiet (Op.quiet_refuseIf _ _) (fun _ h => h.1) fun _ =>
    .bind_quiet (Op.quiet_check _) (fun _ h => h.1) fun _ => .pure fun _ h => h

/-- The panels and the proposals are kept. -/
structure KeepsTabled (s s' : State) : Prop where
  panels : KeepsPanels s s'
  proposals : s'.proposals = s.proposals

instance : Std.Refl KeepsTabled := ⟨fun s => ⟨.refl s, rfl⟩⟩

instance : IsTrans State KeepsTabled :=
  ⟨fun _ _ _ h h' => ⟨h.panels.trans h'.panels, h'.proposals.trans h.proposals⟩⟩

theorem tabled_enact {kind : ProposalKind} (hkind : ∀ num den, kind ≠ .redenominate num den)
    (author : MemberId) : Op.Moves KeepsTabled (enact kind author) := by
  have hmut : ∀ (id : MemberId) (f : Member → Member), Op.Moves KeepsTabled (memberMut id f) := by
    intro id f
    unfold memberMut
    exact .bind (.check _) fun _ => .write fun _ => ⟨.of_eq rfl rfl, rfl⟩
  unfold enact
  cases kind with
  | paramChange key value => exact .write fun _ => ⟨.of_eq rfl rfl, rfl⟩
  | redenominate num den => exact absurd rfl (hkind num den)
  | suspend target =>
    exact .bind (.ask _) fun _ => .bind (.refuseIf _ _) fun _ => .bind (hmut _ _) fun _ =>
      .write fun _ => ⟨.of_eq rfl rfl, rfl⟩
  | unsuspend target => exact hmut _ _
  | validatorPower target power =>
    refine .ite (fun _ => ?_) fun _ => ?_
    · exact .bind (.check _) fun _ => .write fun _ => ⟨.of_eq rfl rfl, rfl⟩
    · exact .bind (.ask _) fun _ => .bind (.refuseIf _ _) fun _ =>
        .write fun _ => ⟨.of_eq rfl rfl, rfl⟩
  | seedAmendment amount => exact .bind (.check _) fun _ => .write fun _ => ⟨.of_eq rfl rfl, rfl⟩

/-- **An assent writes the unit on the panels**, if it redenominates, and else nothing. -/
theorem writes_assent {s : State} (hs : s.ContractsIssued) (id : MemberId) (proposalId : ProposalId)
    (signers : List Key) : Writes (assentWrite proposalId s (Op.exec (assent id proposalId signers) s).2) s
      (Op.exec (assent id proposalId signers) s).2 := by
  let Done (t : State) : Prop := Writes (assentWrite proposalId s t) s t
  -- refused before the first write: no proposal has become enacted
  have hself : Done s := by
    have hnone : assentWrite proposalId s s = .none := by
      unfold assentWrite
      split
      · next p p' hp hp' =>
        obtain rfl : p = p' := Option.some.inj (hp.symm.trans hp')
        split <;> simp_all
      · rfl
    show Writes _ s s
    rw [hnone]
    exact (KeepsPanels.refl s hs).unwritten
  -- an assent without a ratification, or with one that fails, leaves the proposal open
  have hopen : ∀ t, KeepsPanels s t → (∀ p, t.proposals[proposalId]? = some p → p.enacted = false) →
      Done t := by
    intro t hkept hp
    show Writes _ s t
    rw [assentWrite_of_not_enacted hp]
    exact (hkept hs).unwritten
  have hdone : Op.Triple (· = s) (assent id proposalId signers) (fun _ => Done) Done := by
    unfold assent
    refine .bind ((triple_mayAssent_open id proposalId signers).weaken (fun _ h => h) (fun _ _ h => h)
      fun t ht => ht ▸ hself) fun r => ?_
    refine .bind (Q := fun _ t => (KeepsPanels s t ∧ s.proposals[proposalId]? = some r.1 ∧
        r.1.enacted = false) ∧ ∃ p, t.proposals[proposalId]? = some p ∧ p.enacted = false ∧ p.kind = r.1.kind)
      (.write fun t ht => ?_) fun _ => ?_
    · obtain ⟨rfl, hp, henacted⟩ := ht
      refine ⟨⟨.of_eq rfl rfl, hp, henacted⟩, { r.1 with assents := r.1.assents.insert id }, ?_, henacted, rfl⟩
      simp only [modProposal, OrdMap.getElem?_modify_map, hp, Option.map_some, if_true]
    refine .ite (fun _ => ?_) fun _ => .pure fun t ht => ?_
    swap
    · obtain ⟨⟨hkept, -⟩, p, hp, henacted, -⟩ := ht
      exact hopen t hkept fun q hq => Option.some.inj (hp.symm.trans hq) ▸ henacted
    -- of what is enacted, a redenomination alone writes to the panels
    by_cases hkind : ∃ num den, r.1.kind = .redenominate num den
    · obtain ⟨num, den, hkind⟩ := hkind
      rw [hkind]
      refine .bind (Q := fun _ t => (Writes (.scale (ratio num den)) s t ∧
          s.proposals[proposalId]? = some r.1 ∧ r.1.enacted = false) ∧
          ∃ p, t.proposals[proposalId]? = some p ∧ p.kind = .redenominate num den)
        (.write fun t ht => ?_) fun _ => .write fun t ht => ?_
      · obtain ⟨⟨hkept, hbefore⟩, p, hp, -, hpkind⟩ := ht
        refine ⟨⟨?_, hbefore⟩, p, (congrArg (·[proposalId]?)
          (proposals_rescale t (ratio num den))).trans hp, hpkind⟩
        have hkept' := hkept hs
        refine PanelsKept.after hkept' ((writes_rescale hkept'.issued (ratio num den)).before
          (.of_eq rfl rfl)) fun c c' hun hpanel => ?_
        have hattested : c'.arbAttestations = c.arbAttestations.map fun _ v => scaleMinor v (ratio num den) :=
          congrArg Panel.attested hpanel
        have hawarded : c'.arbAwarded = c.arbAwarded := congrArg Panel.awarded hpanel
        have hid : c'.id = c.id := congrArg Panel.id hpanel
        refine ⟨⟨?_, hawarded.trans hun.2⟩, hid⟩
        rw [hattested, hun.1]
        exact Std.ExtTreeMap.ext_getElem? fun m => by simp
      -- the proposal was open before and is enacted now, so the write is the scaling
      · obtain ⟨⟨hwrites, hbefore, henacted⟩, p, hp, hpkind⟩ := ht
        have hafter : (modProposal proposalId (fun p => { p with enacted := true }) t).proposals[proposalId]? =
            some { p with enacted := true } := by
          simp only [modProposal, OrdMap.getElem?_modify_map, hp, Option.map_some, if_true]
        have hscale : assentWrite proposalId s
            (modProposal proposalId (fun p => { p with enacted := true }) t) =
              .scale (ratio num den) := by
          unfold assentWrite
          rw [hbefore, hafter]
          simp only [henacted, hpkind]
        show Writes _ s _
        rw [hscale]
        exact hwrites.before (.of_eq rfl rfl)
    -- any other kind keeps the panels and the proposal, whether its enactment fails or not
    · push Not at hkind
      refine .bind (Q := fun _ t => KeepsPanels s t ∧ ∃ p, t.proposals[proposalId]? = some p ∧
          p.kind = r.1.kind) (((tabled_enact hkind r.1.author).triple
          (I := fun t => KeepsPanels s t ∧ ∃ p, t.proposals[proposalId]? = some p ∧ p.enacted = false ∧
            p.kind = r.1.kind) fun t t' hmoved ht => ?_).weaken (fun _ h => ⟨h.1.1, h.2⟩)
          (fun _ t ht => ⟨ht.1, ht.2.imp fun p hp => ⟨hp.1, hp.2.2⟩⟩) fun t ht => ?_) fun _ => .write fun t ht => ?_
      · refine ⟨ht.1.trans hmoved.panels, ?_⟩
        rw [hmoved.proposals]
        exact ht.2
      · obtain ⟨hkept, p, hp, henacted, -⟩ := ht
        exact hopen t hkept fun q hq => Option.some.inj (hp.symm.trans hq) ▸ henacted
      · obtain ⟨hkept, p, hp, hpkind⟩ := ht
        have hafter : (modProposal proposalId (fun p => { p with enacted := true }) t).proposals[proposalId]? =
            some { p with enacted := true } := by
          simp only [modProposal, OrdMap.getElem?_modify_map, hp, Option.map_some, if_true]
        have hnone : assentWrite proposalId s
            (modProposal proposalId (fun p => { p with enacted := true }) t) = .none := by
          unfold assentWrite
          rw [hafter]
          split
          · next q q' hq hq' =>
            obtain rfl := Option.some.inj hq'
            split
            · next num den _ _ h => exact absurd (hpkind.symm.trans h) (hkind num den)
            · rfl
          · rfl
        show Writes _ s _
        rw [hnone]
        refine PanelsKept.unwritten ((hkept hs).before ?_)
        exact .of_eq rfl rfl
  exact hdone.exec_snd rfl

end Apply

namespace Apply

/-! ### Attestations -/

/-- An attestation that is accepted is a panel member's, in the window, and the first of its. -/
theorem arbAttest_spec (s : State) (id : ContractId) (arbiter : MemberId) (amount : F64)
    (signers : List Key) :
    Op.Triple (· = s) (arbAttest id arbiter amount signers)
      (fun _ t => ∃ c terms, s.contracts[id]? = some c ∧ c.arb = some terms ∧
        terms.arbiters.contains arbiter = true ∧ arbiter ∉ c.arbAttestations ∧ t = s.modContract id fun cm =>
          { cm with arbAttestations := cm.arbAttestations.insert arbiter (toMinor amount) })
      (· = s) := by
  unfold arbAttest
  refine .bind_quiet (Op.quiet_check _) (fun _ h => h) fun _ => ?_
  refine .bind (Q := fun c t => t = s ∧ s.contracts[id]? = some c)
    (.check (fun t c ht hc => ⟨ht, ht ▸ findContract_eq_ok.1 hc⟩) fun _ h => h) fun c => ?_
  cases harb : c.arb with
  | none => exact .refuse fun _ h => h.1
  | some terms =>
    refine .bind (Q := fun _ t => (t = s ∧ s.contracts[id]? = some c) ∧
        terms.arbiters.contains arbiter = true)
      (.refuseIf (fun t ht hpanel => ⟨ht, by simpa using hpanel⟩) fun _ h _ => h.1) fun _ => ?_
    refine .bind_quiet (Op.quiet_ask _) (fun _ h => h.1.1) fun _ =>
      .bind_quiet (Op.quiet_refuseIf _ _) (fun _ h => h.1.1) fun _ =>
      .bind_quiet (Op.quiet_refuseIf _ _) (fun _ h => h.1.1) fun _ => ?_
    refine .bind (Q := fun _ t => ((t = s ∧ s.contracts[id]? = some c) ∧
        terms.arbiters.contains arbiter = true) ∧ arbiter ∉ c.arbAttestations)
      (.refuseIf (fun t ht hfirst => ⟨ht, by simpa using hfirst⟩) fun _ h _ => h.1.1) fun _ => ?_
    refine .bind_quiet (Op.quiet_refuseIf _ _) (fun _ h => h.1.1.1) fun _ => ?_
    unfold contractMut
    refine .bind_quiet (Op.quiet_check _) (fun _ h => h.1.1.1) fun _ => .write fun t ht => ?_
    obtain ⟨⟨⟨rfl, hc⟩, hpanel⟩, hfirst⟩ := ht
    exact ⟨c, terms, hc, harb, hpanel, hfirst, rfl⟩

section Dispatch

variable [Libm]

/-- What a dispatch writes on the panels. -/
def dispatchWrite (tx : Tx) (outcome : Res Unit) (s t : State) : PanelWrite :=
  match tx, outcome with
  | .arbAttest id arbiter amount, .ok _ => .attest id arbiter (toMinor amount)
  | .assent _ proposalId, _ => assentWrite proposalId s t
  | _, _ => .none

omit [Libm] in
theorem framesWrites_panels : FramesWrites KeepsPanels :=
  ⟨fun _ _ _ => .of_eq rfl rfl, fun _ _ => .of_eq rfl rfl, fun _ _ => .of_eq rfl rfl,
    fun _ _ => .of_eq rfl rfl, fun _ _ _ => .of_eq rfl rfl⟩

/-- No transition but an attestation and a redenomination writes on a panel. -/
theorem panels_dispatch (tx : Tx) (signers : List Key) (sponsor : Option MemberId)
    (hassent : ∀ id proposal, tx ≠ .assent id proposal) (hattest : ∀ id m a, tx ≠ .arbAttest id m a) :
    SparesPanels (dispatch tx signers sponsor) := by
  have h := framesWrites_panels
  cases tx with
  | registerGuardians => exact moves_registerGuardians h _ _ _ _ _
  | rotateRequest => exact moves_rotateRequest h _ _ _
  | rotateVeto => exact moves_rotateVeto h _ _
  | rotateFinalize => exact moves_rotateFinalize h _
  | setConsensusKey => exact moves_setConsensusKey h _ _ _
  | declareSupply => exact moves_declareSupply h _ _ _
  | accept => exact panels_accept _ _ _ _ _ _ _
  | transfer => exact panels_transfer _ _ _
  | settle => exact panels_repayment _ _ _ _ _ _
  | extend => exact panels_extend _ _ _
  | markExpired => exact panels_markExpired _
  | cure => exact panels_repayment _ _ _ _ _ _
  | listBeneficiaries => exact moves_listBeneficiaries h _ _ _
  | approveSupporter => exact moves_approveSupporter h _ _ _ _
  | sale => exact Cascade.panels_sale _ _ _ _ _ _
  | arbAttest id m a => exact absurd rfl (hattest id m a)
  | exit => exact moves_exit h (fun _ _ => .of_eq rfl rfl) _ _
  | propose => exact moves_propose h _ _ _
  | assent id proposal => exact absurd rfl (hassent id proposal)
  | forfeitBonds => exact moves_forfeitBonds h _

/-- **What a dispatch does to the panels**: it writes what it is said to, and an attestation is of
a member of the panel. -/
theorem writes_dispatch (tx : Tx) (signers : List Key) (sponsor : Option MemberId) {s t : State}
    {outcome : Res Unit} (hs : s.ContractsIssued) (hnamed : s.ContractsNamed)
    (ht : Op.exec (dispatch tx signers sponsor) s = (outcome, t)) :
    Writes (dispatchWrite tx outcome s t) s t ∧
      ∀ id arbiter amount, dispatchWrite tx outcome s t = .attest id arbiter amount →
        ∃ c terms, s.contracts[id]? = some c ∧ c.arb = some terms ∧
          terms.arbiters.contains arbiter = true ∧ arbiter ∉ c.arbAttestations := by
  by_cases hattest : ∃ id m a, tx = .arbAttest id m a
  · obtain ⟨id, m, a, rfl⟩ := hattest
    have hspec := arbAttest_spec s id m a signers s rfl
    replace ht : Op.exec (arbAttest id m a signers) s = (outcome, t) := ht
    rw [ht] at hspec
    cases outcome with
    | error e =>
      obtain rfl : t = s := hspec
      exact ⟨(KeepsPanels.refl t hs).unwritten, fun _ _ _ h => by cases h⟩
    | ok u =>
      obtain ⟨c, terms, hc, harb, hpanel, hfirst, rfl⟩ := hspec
      refine ⟨?_, fun id' m' a' h => ?_⟩
      · refine .map (f := fun a' cm => if id = a' then
          { cm with arbAttestations := cm.arbAttestations.insert m (toMinor a) } else cm) hs
          (fun id' cm hcm => ?_) (fun id' => ?_) rfl
        · have hid := hnamed id' cm hcm
          dsimp only [dispatchWrite]
          subst hid
          unfold PanelWrite.panel PanelWrite.attested
          dsimp only
          by_cases hsame : id = cm.id
          · rw [if_pos hsame]
            simp [Contract.panel, hsame, PanelWrite.terms]
          · rw [if_neg hsame]
            simp [Contract.panel, hsame, PanelWrite.terms]
        · rw [State.modContract, OrdMap.getElem?_modify_map]
      · injection h with hid hm ha
        subst hid hm
        exact ⟨c, terms, hc, harb, hpanel, hfirst⟩
  by_cases hassent : ∃ id proposalId, tx = .assent id proposalId
  · obtain ⟨id, proposalId, rfl⟩ := hassent
    have hwrites := writes_assent hs id proposalId signers
    replace ht : Op.exec (assent id proposalId signers) s = (outcome, t) := ht
    rw [ht] at hwrites
    refine ⟨hwrites, fun id' m' a' h => ?_⟩
    have hassent : assentWrite proposalId s t = .attest id' m' a' := h
    unfold assentWrite at hassent
    split at hassent
    · split at hassent <;> cases hassent
    · cases hassent
  · push Not at hattest hassent
    have hkept := panels_dispatch tx signers sponsor hassent hattest s
    rw [ht] at hkept
    have hnone : dispatchWrite tx outcome s t = .none := by
      unfold dispatchWrite
      split
      · next id m a _ => exact absurd rfl (hattest id m a)
      · next id proposalId => exact absurd rfl (hassent id proposalId)
      · rfl
    rw [hnone]
    exact ⟨(hkept hs).unwritten, fun _ _ _ h => by cases h⟩

end Dispatch

end Apply

end Edet
