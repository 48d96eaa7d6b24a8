import Edet.View.Disclose
import Edet.Ledger.Genesis

/-!
# Who is owed

Two ledgers that differ only in whom some contracts are owed to, contracts to which the viewer is
a party in neither, look the same to that viewer (`Concealed`). A contract's view names its
parties to nobody else (`contractView_of_concealed`). That a contract stands in a member's list is
a disclosure too: the lists leave out what the viewer is no party to, unless they are the viewer's
own, and then the viewer is a party (`contractsOf_creditor_of_concealed`). No other field of a
view reads a contract.
-/

namespace Edet.View

/-- A contract without its creditor, who is also named in its terms of arbitration. -/
def anonymous (c : Contract) : Contract :=
  { c with creditor := 0, arb := c.arb.map fun t => { t with creditor := 0 } }

/-- One contract as two ledgers have it: the same but for the creditor, and that too where the
viewer is a party in either. -/
structure SameButCreditor (viewer : Option MemberId) (c c' : Contract) : Prop where
  anonymous : anonymous c' = anonymous c
  known : isParty viewer c = true ∨ isParty viewer c' = true → c'.creditor = c.creditor

/-- Two ledgers that differ only in the creditors of contracts to which the viewer is a party in
neither. -/
structure Concealed (viewer : Option MemberId) (s s' : State) : Prop where
  rest : s' = { s with contracts := s'.contracts }
  contracts : ∀ id : ContractId, Option.Rel (SameButCreditor viewer) s.contracts[id]? s'.contracts[id]?

theorem isParty_iff {viewer : Option MemberId} {c : Contract} :
    isParty viewer c = true ↔ viewer = some c.debtor ∨ viewer = some c.creditor := by
  unfold isParty
  cases viewer with
  | none => simp
  | some v => simp

/-! ### One contract -/

namespace SameButCreditor

variable {viewer : Option MemberId} {c c' : Contract}

theorem debtor (h : SameButCreditor viewer c c') : c'.debtor = c.debtor :=
  (congrArg Contract.debtor h.anonymous : (View.anonymous c').debtor = (View.anonymous c).debtor)

theorem listed (h : SameButCreditor viewer c c') : View.listed c' = View.listed c :=
  (congrArg View.listed h.anonymous : View.listed (View.anonymous c') = View.listed (View.anonymous c))

/-- What is read off the terms of arbitration without the creditor they name. -/
theorem arb {α : Type} {f : ArbTerms → α} (hf : ∀ t, f { t with creditor := 0 } = f t)
    (h : SameButCreditor viewer c c') : c'.arb.map f = c.arb.map f := by
  have hsame := congrArg (fun c => c.arb.map f) h.anonymous
  dsimp only [View.anonymous] at hsame
  simpa only [Option.map_map, Function.comp_def, hf] using hsame

/-- The viewer is a party of both or of neither. -/
theorem isParty (h : SameButCreditor viewer c c') : View.isParty viewer c' = View.isParty viewer c := by
  by_cases hparty : View.isParty viewer c = true ∨ View.isParty viewer c' = true
  · have hcreditor := h.known hparty
    unfold View.isParty
    rw [h.debtor, hcreditor]
  · rw [not_or, Bool.not_eq_true, Bool.not_eq_true] at hparty
    rw [hparty.1, hparty.2]

end SameButCreditor

/-! ### All contracts -/

/-- What two lists select and show is the same where it is so entry by entry. -/
theorem filter_map_congr {α β γ : Type} {R : α → β → Prop} {l : List α} {l' : List β}
    (h : List.Forall₂ R l l') {p : α → Bool} {p' : β → Bool} {f : α → γ} {f' : β → γ}
    (hp : ∀ a b, R a b → p a = p' b) (hf : ∀ a b, R a b → p a = true → f a = f' b) :
    (l.filter p).map f = (l'.filter p').map f' := by
  induction h with
  | nil => rfl
  | cons hab _ ih =>
    rw [List.filter_cons, List.filter_cons, ← hp _ _ hab]
    split
    · next hpa => rw [List.map_cons, List.map_cons, hf _ _ hab hpa, ih]
    · exact ih

/-- The contracts of two such ledgers correspond, in the order of their ids. -/
theorem Concealed.vals {viewer : Option MemberId} {s s' : State} (h : Concealed viewer s s') :
    List.Forall₂ (SameButCreditor viewer) s.contracts.vals s'.contracts.vals := by
  have hmap : s'.contracts = s.contracts.map fun id c => (s'.contracts[id]?).getD c := by
    refine Std.ExtTreeMap.ext_getElem? fun id => ?_
    rw [Std.ExtTreeMap.getElem?_map]
    have hrel := h.contracts id
    cases hc : s.contracts[id]? <;> cases hc' : s'.contracts[id]? <;> rw [hc, hc'] at hrel <;>
      cases hrel <;> rfl
  unfold OrdMap.vals
  rw [hmap, Std.ExtTreeMap.toList_map, List.map_map, List.forall₂_map_left_iff,
    List.forall₂_map_right_iff, List.forall₂_same]
  rintro ⟨id, c⟩ hp
  have hrel := h.contracts id
  rw [OrdMap.mem_toList.1 hp] at hrel
  dsimp only [Function.comp_apply]
  cases hc' : s'.contracts[id]? with
  | none => rw [hc'] at hrel; cases hrel
  | some c' =>
    rw [hc'] at hrel
    cases hrel with
    | some hsame => exact hsame

section Views

variable [LibmPow] (sha256 : Bytes → Digest) {viewer : Option MemberId} {s s' : State}
  {c c' : Contract}

/-- A contract looks the same, whoever is owed it. -/
theorem contractView_of_concealed (hs : s' = { s with contracts := s'.contracts })
    (hvalidator : viewerIsValidator s viewer = false) (h : SameButCreditor viewer c c') :
    contractView c' s' viewer = contractView c s viewer := by
  have hvalidator' : viewerIsValidator s' viewer = false := by rw [hs]; exact hvalidator
  have hseal : ∀ x full, visibleMinor s' x full = visibleMinor s x full := by
    intro x full
    rw [hs]
    rfl
  have hcreditor : (if isParty viewer c then some c'.creditor else none)
      = if isParty viewer c then some c.creditor else none := by
    split
    · next hparty => rw [h.known (.inl hparty)]
    · rfl
  have hterms := h.arb (f := fun t => ArbView.mk t.arbiters.toList t.quorum t.windowEpochs t.awardCap)
    fun _ => rfl
  have harbiter : ∀ v, (c'.arb.map fun t => t.arbiters.contains v)
      = c.arb.map fun t => t.arbiters.contains v := fun v => h.arb fun _ => rfl
  have hrest := h.anonymous
  simp only [anonymous, Contract.mk.injEq] at hrest
  obtain ⟨hid, hdebtor, -, houtstanding, horiginal, hmaturity, hstatus, hcreated, haccepted, hinsured,
    -, -, hattested, hawarded⟩ := hrest
  unfold contractView
  simp only [hvalidator, hvalidator', Bool.or_false, h.isParty, hseal, hcreditor, hterms,
    harbiter, hid, hdebtor, houtstanding, horiginal, hmaturity, hstatus, hcreated, haccepted, hinsured, hattested, hawarded]

/-! ### The lists of a member -/

/-- A member's list shows the same contracts, when all that a contract has to do with it is a side
that both ledgers agree on or that the viewer, being this member, would know. -/
theorem contractsOf_of_concealed (h : Concealed viewer s s')
    (hvalidator : viewerIsValidator s viewer = false) {side : Contract → MemberId} {id : MemberId}
    (hside : ∀ c c', SameButCreditor viewer c c' →
      (side c = id ∧ edgeVisible (decide (viewer = some id)) viewer c = true ↔
        side c' = id ∧ edgeVisible (decide (viewer = some id)) viewer c' = true)) :
    contractsOf side s' id viewer (decide (viewer = some id))
      = contractsOf side s id viewer (decide (viewer = some id)) := by
  unfold contractsOf
  rw [List.filter_filter, List.filter_filter]
  refine (filter_map_congr h.vals (fun c c' hc => ?_) fun c c' hc _ => ?_).symm
  · have hboth := hside c c' hc
    rw [Bool.eq_iff_iff]
    simp only [Bool.and_eq_true, decide_eq_true_eq, hc.listed]
    tauto
  · exact (contractView_of_concealed h.rest hvalidator hc).symm

omit [LibmPow] in
theorem edgeVisible_of_same {full : Bool} (h : SameButCreditor viewer c c') :
    edgeVisible full viewer c' = edgeVisible full viewer c := by
  unfold edgeVisible
  rw [h.isParty]

/-- The debtor of a contract is the same in both. -/
theorem contractsOf_debtor_of_concealed (h : Concealed viewer s s')
    (hvalidator : viewerIsValidator s viewer = false) (id : MemberId) :
    contractsOf Contract.debtor s' id viewer (decide (viewer = some id))
      = contractsOf Contract.debtor s id viewer (decide (viewer = some id)) := by
  refine contractsOf_of_concealed h hvalidator fun c c' hc => ?_
  rw [hc.debtor, edgeVisible_of_same hc]

/-- Where the creditors differ, the contract stands in neither list: the viewer is no party, and
if the list is the viewer's own, the member whose list it is is not the creditor. -/
theorem contractsOf_creditor_of_concealed (h : Concealed viewer s s')
    (hvalidator : viewerIsValidator s viewer = false) (id : MemberId) :
    contractsOf Contract.creditor s' id viewer (decide (viewer = some id))
      = contractsOf Contract.creditor s id viewer (decide (viewer = some id)) := by
  refine contractsOf_of_concealed h hvalidator fun c c' hc => ?_
  -- a contract of the list that the viewer may see there is one whose creditor the viewer knows
  have hknown : ∀ c₀ : Contract, c₀.creditor = id →
      edgeVisible (decide (viewer = some id)) viewer c₀ = true → isParty viewer c₀ = true := by
    intro c₀ hcreditor hvisible
    unfold edgeVisible at hvisible
    rw [Bool.or_eq_true, decide_eq_true_eq] at hvisible
    rcases hvisible with hself | hparty
    · exact isParty_iff.2 (.inr (hcreditor ▸ hself))
    · exact hparty
  constructor
  · rintro ⟨hcreditor, hvisible⟩
    rw [edgeVisible_of_same hc, hc.known (.inl (hknown c hcreditor hvisible))]
    exact ⟨hcreditor, hvisible⟩
  · rintro ⟨hcreditor, hvisible⟩
    rw [← edgeVisible_of_same hc, ← hc.known (.inr (hknown c' hcreditor hvisible))]
    exact ⟨hcreditor, hvisible⟩

/-! ### Every view -/

/-- **Who is owed stays hidden**: all that a viewer can read of members and of contracts is the
same in two ledgers that differ only in the creditors of contracts the viewer is no party to. -/
theorem views_of_concealed (h : Concealed viewer s s')
    (hvalidator : viewerIsValidator s viewer = false) :
    (∀ id, member sha256 s' id viewer = member sha256 s id viewer) ∧
    (∀ (id : MemberId) cached,
      (s'.members[id]?).map (fun m => memberRow sha256 s' m viewer cached)
        = (s.members[id]?).map fun m => memberRow sha256 s m viewer cached) ∧
    (∀ id : ContractId, (s'.contracts[id]?).map (fun c => contractView c s' viewer)
      = (s.contracts[id]?).map fun c => contractView c s viewer) := by
  have hrest := h.rest
  refine ⟨fun id => ?_, fun id cached => ?_, fun id => ?_⟩
  · have howes := contractsOf_debtor_of_concealed h hvalidator id
    have howed := contractsOf_creditor_of_concealed h hvalidator id
    obtain ⟨contracts, rfl⟩ : ∃ contracts, s' = { s with contracts } := ⟨_, hrest⟩
    have hvalidator' : viewerIsValidator { s with contracts } viewer = false := hvalidator
    unfold member
    dsimp only
    cases s.members[id]? with
    | none => rfl
    | some m =>
      simp only [hvalidator, hvalidator', Bool.false_or, howes, howed]
      rfl
  · rw [hrest]
    rfl
  · have hrel := h.contracts id
    cases hc : s.contracts[id]? <;> cases hc' : s'.contracts[id]? <;> rw [hc, hc'] at hrel <;>
      cases hrel
    · rfl
    · next hsame =>
      rw [Option.map_some, Option.map_some, contractView_of_concealed hrest hvalidator hsame]

end Views

/-- Four members, and a contract that the first owes to one of the others. -/
def owing (creditor : MemberId) : State where
  members := [0, 1, 2, 3].foldl
    (fun ms id => ms.insert id { id, keys := [founderKey id], joinedEpoch := 0 }) ∅
  nextMember := 4
  contracts := (∅ : OrdMap ContractId Contract).insert 0
    { id := 0, debtor := 0, creditor, outstanding := 500, original := 500, maturityEpoch := 9
      createdEpoch := 0, acceptedEpoch := 0, insured := false }
  nextContract := 1
  validators := (∅ : OrdMap MemberId Nat).insert 0 1

theorem concealed_owing : Concealed (some 3) (owing 1) (owing 2) := by
  refine ⟨rfl, fun id => ?_⟩
  simp only [owing, Std.ExtTreeMap.getElem?_insert, Std.ExtTreeMap.getElem?_empty]
  split
  · exact .some ⟨rfl, by decide⟩
  · exact .none

/-- A bystander reads the same of the debtor, whichever of the others is owed. -/
theorem views_of_concealed_owing :
    letI : LibmPow := ⟨id, id, id⟩
    member (fun _ => 0) (owing 2) 0 (some 3) = member (fun _ => 0) (owing 1) 0 (some 3) :=
  letI : LibmPow := ⟨id, id, id⟩
  (views_of_concealed (fun _ => 0) concealed_owing (by decide)).1 0

end Edet.View
