import Edet.Ledger.Bonds
import Edet.Ledger.Panels

/-!
# Arbitration pays once

A boundary closes the panels whose window has passed. `exec_sweepCranks` takes its sweep apart:
debts expire, rings are netted and bonds forfeited (`sweepDues`), the panels are closed one
after the other (`closePanel`), and then rows are pruned and retired. `arbAward_spec` says what
closing one does, and `ClosesAll` what a boundary does to all of them, and to the rows of the
contracts and members an open panel binds.

A book beside the ledger (`PanelBook`) keeps the attestations of each panel in the order they
arrive, and each panel that was closed with the obligation it opened. `Minuted` is what the two
have in common at every moment of a run: no panel is closed twice, and each was closed as it
should be (`Closing.Proper`).
-/

namespace Edet

namespace Apply

/-! ### Awards -/

/-- The panel of one contract is closed. -/
def Flagged (id : ContractId) (p p' : Panel) : Prop :=
  p' = if p.id = id then { p with awarded := true } else p

/-- What an award that is opened is worth. -/
def awardFigure (terms : ArbTerms) (attested : OrdMap MemberId Nat) : Nat :=
  min (min (median attested.vals) terms.awardCap) terms.amount

/-- At most one obligation has been opened, and it is this one. -/
def OpensOne (debtor creditor : MemberId) (amount : Nat) (s t : State) : Prop :=
  t.nextContract = s.nextContract ∨ t.nextContract = s.nextContract + 1 ∧
    ∃ d, t.contracts[s.nextContract]? = some d ∧ d.outstanding = amount ∧ d.debtor = debtor ∧
      d.creditor = creditor

/-- A panel whose window has passed is closed: its award is opened where the quorum is reached. -/
structure ClosesPanel (id : ContractId) (c : Contract) (terms : ArbTerms) (s t : State) : Prop where
  row : s.contracts[id]? = some c
  agreed : c.arb = some terms
  pending : c.arbAwarded = false
  late : horizon c.createdEpoch terms.windowEpochs < s.epoch
  panels : PanelsKept (Flagged id) s t
  epoch : t.epoch = s.epoch
  opened : t.nextContract = s.nextContract ∨ terms.quorum ≤ c.arbAttestations.size ∧
    OpensOne terms.creditor terms.debtor (awardFigure terms c.arbAttestations) s t

theorem openObligation_spec (s : State) (debtor creditor : MemberId)
    (amount maturityEpoch acceptedEpoch : Nat) :
    Op.Triple (· = s) (openObligation debtor creditor amount maturityEpoch none none acceptedEpoch)
      (fun _ t => KeepsPanels s t ∧ t.epoch = s.epoch ∧ OpensOne debtor creditor amount s t)
      (fun t => KeepsPanels s t ∧ t.epoch = s.epoch ∧ OpensOne debtor creditor amount s t) := by
  have hself : ∀ t, t = s → KeepsPanels s t ∧ t.epoch = s.epoch ∧ OpensOne debtor creditor amount s t := by
    rintro t rfl
    exact ⟨.refl t, rfl, Or.inl rfl⟩
  unfold openObligation
  refine .bind_quiet (Op.quiet_check _) hself fun debtOut => ?_
  refine .bind (Q := fun id t => t = s ∧ id = s.nextContract) (.ask fun t ht => ⟨ht, ht ▸ rfl⟩)
    fun id => ?_
  refine .bind (Q := fun _ t => KeepsPanels s t ∧ t.epoch = s.epoch ∧ OpensOne debtor creditor amount s t)
    (.write fun t ht => ?_) fun _ => .bind (triple_memberMut (Q := fun _ t => KeepsPanels s t ∧
      t.epoch = s.epoch ∧ OpensOne debtor creditor amount s t) (fun t _ ht _ => ?_) fun _ h => h)
      fun _ => .pure fun _ h => h
  · obtain ⟨rfl, rfl⟩ := ht
    exact ⟨.opened _ rfl rfl rfl rfl rfl, rfl,
      Or.inr ⟨rfl, _, Std.ExtTreeMap.getElem?_insert_self, rfl, rfl, rfl⟩⟩
  · exact ⟨ht.1.trans (.of_eq rfl rfl), ht.2.1, ht.2.2⟩

/-- **What an award that is due does**: it closes the panel. -/
theorem arbAward_spec {s : State} (hs : s.ContractsIssued) (hnamed : s.ContractsNamed) {id : ContractId}
    {c : Contract} {terms : ArbTerms} (hc : s.contracts[id]? = some c) (harb : c.arb = some terms)
    (hopen : c.arbAwarded = false) (hlate : horizon c.createdEpoch terms.windowEpochs < s.epoch) :
    Op.Triple (· = s) (arbAward id) (fun _ => ClosesPanel id c terms s) (ClosesPanel id c terms s) := by
  let flagged : State := s.modContract id fun cm => { cm with arbAwarded := true }
  have hflagged : PanelsKept (Flagged id) s flagged := by
    refine .map (f := fun a cm => if id = a then { cm with arbAwarded := true } else cm) hs
      (fun a cm hcm => ?_) (fun a => by simp only [flagged, State.modContract,
        OrdMap.getElem?_modify_map]) rfl
    have hid := hnamed a cm hcm
    subst hid
    by_cases hsame : id = cm.id
    · simp [Flagged, Contract.panel, hsame]
    · simp [Flagged, Contract.panel, hsame, Ne.symm hsame]
  have hcloses : ∀ t, KeepsPanels flagged t → t.epoch = s.epoch →
      (t.nextContract = s.nextContract ∨ terms.quorum ≤ c.arbAttestations.size ∧
        OpensOne terms.creditor terms.debtor (awardFigure terms c.arbAttestations) s t) →
      ClosesPanel id c terms s t := fun t hkept hepoch hopened =>
    ⟨hc, harb, hopen, hlate, hflagged.before hkept, hepoch, hopened⟩
  have hdone : ClosesPanel id c terms s flagged := hcloses flagged (.refl _) rfl (Or.inl rfl)
  have hfound : findContract s id = .ok c := findContract_eq_ok.2 hc
  have hmut : Op.exec (contractMut id fun cm => { cm with arbAwarded := true }) s = (.ok (), flagged) := by
    unfold contractMut contract
    rw [Op.exec_bind, Op.exec_check, hfound]
    rfl
  rintro _ rfl
  unfold arbAward contract
  rw [Op.exec_bind, Op.exec_check, hfound]
  dsimp only
  rw [harb]
  dsimp only
  rw [Op.exec_bind, Op.exec_refuseIf, if_neg (by simp [hopen])]
  dsimp only
  rw [Op.exec_bind, Op.exec_ask]
  dsimp only
  rw [Op.exec_bind, Op.exec_refuseIf, if_neg (by simpa using hlate)]
  dsimp only
  by_cases hquorum : c.arbAttestations.size < terms.quorum
  · rw [if_pos hquorum, hmut]
    exact hdone
  rw [if_neg hquorum, Op.exec_bind, hmut]
  dsimp only
  rw [Op.exec_bind, Op.exec_ask]
  dsimp only
  by_cases hdust : min (min (median c.arbAttestations.vals) terms.awardCap) terms.amount ≤
    flagged.params.dustMinor
  · rw [if_pos hdust]
    exact hdone
  rw [if_neg hdust, Op.exec_bind, Op.exec_ask]
  dsimp only
  rw [Op.exec_bind, Op.exec_ask]
  dsimp only
  rw [Op.exec_bind]
  have hspec := fun m a => openObligation_spec flagged terms.creditor terms.debtor
    (awardFigure terms c.arbAttestations) m a flagged rfl
  have hopens : ∀ t, KeepsPanels flagged t ∧ t.epoch = flagged.epoch ∧ OpensOne terms.creditor terms.debtor
      (awardFigure terms c.arbAttestations) flagged t → ClosesPanel id c terms _ t :=
    fun t h => hcloses t h.1 h.2.1 (Or.inr ⟨Nat.le_of_not_lt hquorum, h.2.2⟩)
  specialize hspec (horizon flagged.epoch flagged.params.minMaturityEpochs) flagged.epoch
  unfold awardFigure at hspec hopens
  cases hexec : Op.exec (openObligation terms.creditor terms.debtor
      (min (min (median c.arbAttestations.vals) terms.awardCap) terms.amount)
      (horizon flagged.epoch flagged.params.minMaturityEpochs) none none flagged.epoch) flagged with
  | mk outcome t =>
    rw [hexec] at hspec
    cases outcome with
    | error e => exact hopens t hspec
    | ok d => exact hopens t hspec

end Apply

/-! ### Closing the panels -/

theorem PanelsKept.named {P : Panel → Panel → Prop} {s s' : State} (h : PanelsKept P s s')
    (hP : ∀ p p', P p p' → p'.id = p.id) (hs : s.ContractsNamed) : s'.ContractsNamed := by
  intro id c' hc'
  cases hold : s.contracts[id]? with
  | none => exact (h.born id c' hc' hold).2.2
  | some c =>
    obtain ⟨d, hd, hpanel⟩ := h.kept id c hold
    obtain rfl : c' = d := Option.some.inj (hc'.symm.trans hd)
    exact (hP _ _ hpanel).trans (hs id c hold)

/-- Two writes, one after the other. -/
theorem PanelsKept.comp {P P' Q : Panel → Panel → Prop} {s s' s'' : State} (h : PanelsKept P s s')
    (h' : PanelsKept P' s' s'') (hQ : ∀ p p' p'', P p p' → P' p' p'' → Q p p'')
    (hborn : ∀ (id : ContractId) (c c' : Contract), s.contracts[id]? = none → c.Unattested → c.id = id →
      P' c.panel c'.panel → c'.Unattested ∧ c'.id = id) : PanelsKept Q s s'' := by
  refine ⟨h.next.trans h'.next, h'.issued, fun id c hc => ?_, fun id c'' hc'' hnone => ?_⟩
  · obtain ⟨c', hc', hP⟩ := h.kept id c hc
    obtain ⟨c'', hc'', hP'⟩ := h'.kept id c' hc'
    exact ⟨c'', hc'', hQ _ _ _ hP hP'⟩
  · cases hmid : s'.contracts[id]? with
    | none =>
      obtain ⟨hid, hrest⟩ := h'.born id c'' hc'' hmid
      exact ⟨h.next.trans hid, hrest⟩
    | some c' =>
      obtain ⟨hid, hfresh, hnamed⟩ := h.born id c' hmid hnone
      obtain ⟨d, hd, hP'⟩ := h'.kept id c' hmid
      obtain rfl : c'' = d := Option.some.inj (hc''.symm.trans hd)
      exact ⟨hid, hborn id c' c'' hnone hfresh hnamed hP'⟩

/-- The attestations a panel holds are the ones that were made: of members of the panel, and one of
each. -/
structure Panel.Minuted (p : Panel) (made : List (MemberId × Nat)) : Prop where
  once : (made.map Prod.fst).Nodup
  held : ∀ (m : MemberId) (v : Nat), p.attested[m]? = some v ↔ (m, v) ∈ made
  panel : ∀ x ∈ made, ∃ terms, p.terms = some terms ∧ terms.arbiters.contains x.1 = true

namespace Panel.Minuted

variable {p : Panel} {made : List (MemberId × Nat)}

theorem perm (h : p.Minuted made) : p.attested.toList.Perm made := by
  have hmade : made.Nodup := .of_map _ h.once
  refine (List.perm_ext_iff_of_nodup (OrdMap.nodup_toList _) hmade).2 fun x => ?_
  rw [← h.held x.1 x.2, OrdMap.mem_toList]

theorem size (h : p.Minuted made) : p.attested.size = made.length := by
  rw [← h.perm.length_eq, Std.ExtTreeMap.length_toList]

end Panel.Minuted

/-- A panel that was closed: the contract as it stood, the epoch, the attestations as they were made
until then, and the obligation that was opened. -/
structure Closing where
  contract : Contract
  epoch : Nat
  made : List (MemberId × Nat)
  opened : Option Contract

/-- **A panel is closed as it should be**: its window has passed and no award was taken; an obligation
that is opened has the quorum, and is the median of what was attested, in any order, up to the cap and
the amount of the terms. -/
structure Closing.Proper (a : Closing) (terms : ArbTerms) : Prop where
  agreed : a.contract.arb = some terms
  pending : a.contract.arbAwarded = false
  late : horizon a.contract.createdEpoch terms.windowEpochs < a.epoch
  once : (a.made.map Prod.fst).Nodup
  panel : ∀ x ∈ a.made, x.1 ∈ terms.arbiters
  quorum : ∀ d, a.opened = some d → terms.quorum ≤ a.made.length
  median : ∀ d, a.opened = some d → ∀ figures : List Nat, figures.Perm (a.made.map Prod.snd) →
    d.outstanding = min (min (Apply.median figures) terms.awardCap) terms.amount
  parties : ∀ d, a.opened = some d → d.debtor = terms.creditor ∧ d.creditor = terms.debtor

namespace Apply

theorem median_perm {l l' : List Nat} (h : l.Perm l') : median l = median l' := by
  have hsorted : l.insertionSort (· ≤ ·) = l'.insertionSort (· ≤ ·) :=
    (((List.perm_insertionSort _ l).trans h).trans (List.perm_insertionSort _ l').symm).eq_of_pairwise'
      (List.pairwise_insertionSort _ l) (List.pairwise_insertionSort _ l')
  unfold median
  rw [hsorted]

/-- The contracts whose panel is to be closed. -/
def closedPanels (s : State) : List ContractId :=
  (s.contracts.toList.filter fun p =>
    !p.2.arbAwarded &&
      match p.2.arb with
      | none => false
      | some a => decide (horizon p.2.createdEpoch a.windowEpochs < s.epoch)).map fun p => p.2.id

/-- The contract has a panel that is to be closed. -/
def Due (id : ContractId) (s : State) : Prop :=
  ∃ c terms, s.contracts[id]? = some c ∧ c.arb = some terms ∧ c.arbAwarded = false ∧
    horizon c.createdEpoch terms.windowEpochs < s.epoch

theorem mem_closedPanels {s : State} (hnamed : s.ContractsNamed) {id : ContractId} :
    id ∈ closedPanels s ↔ Due id s := by
  unfold closedPanels Due
  constructor
  · intro h
    obtain ⟨p, hp, rfl⟩ := List.mem_map.1 h
    obtain ⟨hrow, hopen⟩ := List.mem_filter.1 hp
    have hc : s.contracts[p.1]? = some p.2 := OrdMap.mem_toList.1 hrow
    rw [← hnamed p.1 p.2 hc] at hc
    simp only [Bool.and_eq_true, Bool.not_eq_true'] at hopen
    obtain ⟨hpending, hlate⟩ := hopen
    cases harb : p.2.arb with
    | none =>
      rw [harb] at hlate
      cases hlate
    | some terms =>
      rw [harb] at hlate
      exact ⟨p.2, terms, hc, harb, hpending, of_decide_eq_true hlate⟩
  · rintro ⟨c, terms, hc, harb, hpending, hlate⟩
    refine List.mem_map.2 ⟨(id, c), List.mem_filter.2 ⟨OrdMap.mem_toList.2 hc, ?_⟩, hnamed id c hc⟩
    simp only [harb, hpending, Bool.not_false, Bool.true_and, decide_eq_true_eq]
    exact hlate

theorem nodup_closedPanels {s : State} (hnamed : s.ContractsNamed) : (closedPanels s).Nodup := by
  unfold closedPanels
  have hkeys : ((s.contracts.toList.filter fun p =>
      !p.2.arbAwarded &&
        match p.2.arb with
        | none => false
        | some a => decide (horizon p.2.createdEpoch a.windowEpochs < s.epoch)).map fun p => p.2.id) =
      (s.contracts.toList.filter fun p =>
      !p.2.arbAwarded &&
        match p.2.arb with
        | none => false
        | some a => decide (horizon p.2.createdEpoch a.windowEpochs < s.epoch)).map Prod.fst :=
    List.map_congr_left fun p hp => hnamed p.1 p.2 (OrdMap.mem_toList.1 (List.mem_filter.1 hp).1)
  rw [hkeys]
  exact (OrdMap.nodup_keys _).sublist (List.filter_sublist.map Prod.fst)

/-- The state an award leads to, taken or refused. -/
def closePanel (s : State) (id : ContractId) : State := (Op.exec (arbAward id) s).2

/-- The panels that some awards close, one after the other. -/
def closings (made : ContractId → List (MemberId × Nat)) : List ContractId → State → List Closing
  | [], _ => []
  | id :: ids, s =>
    let t := closePanel s id
    let opened := if t.nextContract = s.nextContract then none else t.contracts[s.nextContract]?
    match s.contracts[id]? with
    | none => closings made ids t
    | some c => ⟨c, s.epoch, made id, opened⟩ :: closings made ids t

/-- These panels are closed, and no other. -/
def Shut (ids : List ContractId) (p p' : Panel) : Prop :=
  p' = if p.id ∈ ids then { p with awarded := true } else p

theorem Shut.cons {id : ContractId} {ids : List ContractId} {p p' p'' : Panel} (h : Flagged id p p')
    (h' : Shut ids p' p'') : Shut (id :: ids) p p'' := by
  unfold Flagged at h
  unfold Shut at h' ⊢
  by_cases hp : p.id = id
  · have hmem : p.id ∈ id :: ids := by simp [hp]
    rw [if_pos hp] at h
    rw [if_pos hmem, h', h]
    dsimp only
    split <;> rfl
  · rw [if_neg hp] at h
    rw [h', h]
    simp only [List.mem_cons, hp, false_or]

theorem closesPanel_closePanel {s : State} (hs : s.ContractsIssued) (hnamed : s.ContractsNamed)
    {id : ContractId} (hdue : Due id s) : ∃ c terms, ClosesPanel id c terms s (closePanel s id) := by
  obtain ⟨c, terms, hc, harb, hopen, hlate⟩ := hdue
  have hspec := arbAward_spec hs hnamed hc harb hopen hlate s rfl
  unfold closePanel
  refine ⟨c, terms, ?_⟩
  rcases hexec : Op.exec (arbAward id) s with ⟨_ | _, t⟩ <;> rw [hexec] at hspec <;> exact hspec

/-- A panel that is closed with its minutes is closed as it should be. -/
theorem ClosesPanel.proper {id : ContractId} {c : Contract} {terms : ArbTerms} {s t : State}
    {made : List (MemberId × Nat)} (h : ClosesPanel id c terms s t) (hmade : c.panel.Minuted made) :
    Closing.Proper ⟨c, s.epoch, made,
      if t.nextContract = s.nextContract then none else t.contracts[s.nextContract]?⟩ terms := by
  have hopens : ∀ d, (if t.nextContract = s.nextContract then none else t.contracts[s.nextContract]?) =
      some d → terms.quorum ≤ c.arbAttestations.size ∧
        d.outstanding = awardFigure terms c.arbAttestations ∧ d.debtor = terms.creditor ∧
        d.creditor = terms.debtor := by
    intro d hd
    split at hd
    · cases hd
    next hnext =>
    obtain ⟨hquorum, hsame | ⟨-, d', hd', hrest⟩⟩ := h.opened.resolve_left hnext
    · exact absurd hsame hnext
    · obtain rfl : d = d' := Option.some.inj (hd.symm.trans hd')
      exact ⟨hquorum, hrest⟩
  refine ⟨h.agreed, h.pending, h.late, hmade.once, fun x hx => ?_, fun d hd => ?_, fun d hd figures hp => ?_,
    fun d hd => (hopens d hd).2.2⟩
  · obtain ⟨terms', hterms, hmem⟩ := hmade.panel x hx
    obtain rfl : terms = terms' := Option.some.inj (h.agreed.symm.trans hterms)
    exact Std.ExtTreeSet.contains_iff_mem.1 hmem
  · exact (hopens d hd).1.trans hmade.size.le
  · rw [(hopens d hd).2.1, awardFigure, median_perm (hp.trans (hmade.perm.symm.map Prod.snd))]
    rfl

/-- **What the awards of a sweep do**: each closes the panel it is asked for, as it should be. -/
theorem closings_spec (made : ContractId → List (MemberId × Nat)) (ids : List ContractId) {s : State}
    (hs : s.ContractsIssued) (hnamed : s.ContractsNamed) (hnodup : ids.Nodup) (hdue : ∀ id ∈ ids, Due id s)
    (hmade : ∀ id ∈ ids, ∀ c, s.contracts[id]? = some c → c.panel.Minuted (made id)) :
    PanelsKept (Shut ids) s (ids.foldl closePanel s) ∧ (ids.foldl closePanel s).epoch = s.epoch ∧
      (closings made ids s).map (fun a => a.contract.id) = ids ∧
      ∀ a ∈ closings made ids s, ∃ terms, a.Proper terms := by
  induction ids generalizing s with
  | nil =>
    refine ⟨⟨le_rfl, hs, fun id c hc => ⟨c, hc, by simp [Shut]⟩, fun id c hc h => ?_⟩, rfl, rfl,
      fun a ha => by cases ha⟩
    rw [List.foldl_nil, h] at hc
    cases hc
  | cons id ids ih =>
    obtain ⟨hfirst, hnodup⟩ := List.nodup_cons.1 hnodup
    obtain ⟨c, terms, hcloses⟩ := closesPanel_closePanel hs hnamed (hdue id (by simp))
    set t := closePanel s id with ht
    have hspared : ∀ (a : ContractId) d, s.contracts[a]? = some d → a ≠ id →
        ∃ d', t.contracts[a]? = some d' ∧ d'.panel = d.panel := by
      intro a d hd hne
      obtain ⟨d', hd', hpanel⟩ := hcloses.panels.kept a d hd
      have hid : d.panel.id ≠ id := fun h => hne ((hnamed a d hd).symm.trans h)
      exact ⟨d', hd', hpanel.trans (if_neg hid)⟩
    have hnamed' : t.ContractsNamed := by
      refine hcloses.panels.named (fun p p' h => ?_) hnamed
      rw [h]
      split <;> rfl
    have hdue' : ∀ a ∈ ids, Due a t := by
      intro a ha
      obtain ⟨d, terms', hd, harb, hopen, hlate⟩ := hdue a (by simp [ha])
      obtain ⟨d', hd', hpanel⟩ := hspared a d hd fun h => hfirst (h ▸ ha)
      refine ⟨d', terms', hd', (congrArg Panel.terms hpanel).trans harb,
        (congrArg Panel.awarded hpanel).trans hopen, ?_⟩
      have hcreated : d'.createdEpoch = d.createdEpoch := congrArg Panel.created hpanel
      rw [hcreated, hcloses.epoch]
      exact hlate
    have hmade' : ∀ a ∈ ids, ∀ d, t.contracts[a]? = some d → d.panel.Minuted (made a) := by
      intro a ha d' hd'
      obtain ⟨d, terms', hd, -⟩ := hdue a (by simp [ha])
      obtain ⟨e, he, hpanel⟩ := hspared a d hd fun h => hfirst (h ▸ ha)
      obtain rfl : d' = e := Option.some.inj (hd'.symm.trans he)
      rw [hpanel]
      exact hmade a (by simp [ha]) d hd
    obtain ⟨hpanels, hepoch, hids, hproper⟩ := ih hcloses.panels.issued hnamed' hnodup hdue' hmade'
    refine ⟨?_, hepoch.trans hcloses.epoch, ?_, ?_⟩
    · refine hcloses.panels.comp hpanels (fun _ _ _ => Shut.cons) fun a d d' hnone hfresh hid h => ?_
      · have hout : d.panel.id ∉ ids := by
          intro hmem
          obtain ⟨e, _, he, -⟩ := hdue d.panel.id (List.mem_cons_of_mem _ hmem)
          have hda : d.panel.id = a := hid
          rw [hda, hnone] at he
          cases he
        unfold Shut at h
        rw [if_neg hout] at h
        exact ⟨⟨(congrArg Panel.attested h).trans hfresh.1, (congrArg Panel.awarded h).trans hfresh.2⟩,
          (congrArg Panel.id h).trans hid⟩
    · simp only [closings]
      rw [hcloses.row]
      exact congrArg₂ List.cons (hnamed id c hcloses.row) hids
    · intro a ha
      simp only [closings] at ha
      rw [hcloses.row] at ha
      rcases List.mem_cons.1 ha with rfl | ha
      · exact ⟨terms, hcloses.proper (hmade id (by simp) c hcloses.row)⟩
      · exact hproper a ha

end Apply

/-! ### The boundary -/

/-- The members the terms of a panel bind. -/
def ArbTerms.bound (terms : ArbTerms) : List MemberId :=
  terms.arbiters.toList ++ [terms.debtor, terms.creditor]

namespace Apply

/-- A sweep up to the awards. -/
def sweepDues : Tr Unit := do
  let due ← Op.ask fun s =>
    (s.contracts.toList.filter fun p =>
      p.2.status = .active ∧ p.2.maturityEpoch < s.epoch ∧
        s.params.dustMinor < p.2.outstanding).map fun p => p.2.id
  due.forM fun id => Op.attempt (markExpired id)
  netRings Constants.nettingMaxRingsPerEpoch
  let saturated ← Op.ask fun s =>
    (s.members.toList.filter fun p =>
      s.params.bondForfeitEpochs ≤ p.2.bondSaturatedEpochs ∧
        s.params.dustMinor < p.2.bondEnc).map fun p => p.2.id
  saturated.forM fun id => Op.attempt (forfeitBonds id)

theorem exec_forM_attempt {β γ : Type} (op : β → Tr γ) (l : List β) (s : State) :
    Op.exec (l.forM fun x => Op.attempt (op x)) s =
      (.ok (), l.foldl (fun s x => (Op.exec (op x) s).2) s) := by
  induction l generalizing s with
  | nil => rfl
  | cons x l ih =>
    show Op.exec (Op.attempt (op x) >>= fun _ => l.forM fun x => Op.attempt (op x)) s = _
    rw [Op.exec_bind, Op.exec_attempt]
    exact ih _

theorem netRings_ok (rounds : Nat) (s : State) :
    Op.exec (netRings rounds) s = (.ok (), (Op.exec (netRings rounds) s).2) := by
  induction rounds generalizing s with
  | zero => rfl
  | succ rounds ih =>
    unfold netRings
    rw [Op.exec_bind, Op.exec_ask]
    dsimp only
    cases findRing s with
    | none => rfl
    | some ring =>
      dsimp only
      rw [Op.exec_bind, Op.exec_ask]
      dsimp only
      rw [Op.exec_bind, exec_forM_attempt]
      exact ih _

theorem exec_sweep {due closed : State → List ContractId} {saturated : State → List MemberId}
    {mark award : ContractId → Tr Unit} {forfeit : MemberId → Tr Unit} {net : Tr Unit}
    {netted prune retire : State → State} (hnet : ∀ s, Op.exec net s = (.ok (), netted s)) (s : State) :
    let dues : Tr Unit := do
      let ids ← Op.ask due
      ids.forM fun id => Op.attempt (mark id)
      net
      let members ← Op.ask saturated
      members.forM fun id => Op.attempt (forfeit id)
    let u := (Op.exec dues s).2
    (Op.exec (do
      let ids ← Op.ask due
      ids.forM fun id => Op.attempt (mark id)
      net
      let members ← Op.ask saturated
      members.forM fun id => Op.attempt (forfeit id)
      let ids ← Op.ask closed
      ids.forM fun id => Op.attempt (award id)
      Op.write prune
      Op.write retire) s).2 = retire (prune ((closed u).foldl (fun s id => (Op.exec (award id) s).2) u)) := by
  simp only [Op.exec_bind, Op.exec_ask, exec_forM_attempt, hnet, Op.exec_write]

/-- **How a sweep ends**: the panels whose window has passed are closed, and then rows are pruned
and retired. -/
theorem exec_sweepCranks (s : State) :
    (Op.exec sweepCranks s).2 = retireEmptyRows (pruneClosedRows
      ((closedPanels (Op.exec sweepDues s).2).foldl closePanel (Op.exec sweepDues s).2)) :=
  exec_sweep (netRings_ok _) s

theorem panels_sweepDues : SparesPanels sweepDues := by
  unfold sweepDues
  refine .bind (.ask _) fun due => .bind (.forM fun id _ => .attempt (panels_markExpired _)) fun _ =>
    .bind (panels_netRings _) fun _ => .bind (.ask _) fun sat => ?_
  exact .forM fun id _ => .attempt (moves_forfeitBonds framesWrites_panels _)

theorem steady_sweepDues : Op.Moves Steady sweepDues := by
  have hbooks : ∀ {op : Tr Unit}, Bookkeeping op → Op.Moves Steady op := fun h s => .of_offBooks (h s)
  unfold sweepDues
  refine .bind (.ask _) fun due =>
    .bind (.forM fun id _ => .attempt (hbooks (bookkeeping_markExpired _))) fun _ =>
    .bind (hbooks (bookkeeping_netRings _)) fun _ => .bind (.ask _) fun sat => ?_
  exact .forM fun id _ => .attempt fun s =>
    ⟨(routine_forfeitBonds id s).epoch, (routine_forfeitBonds id s).applied⟩

/-- The same members have rows. -/
abbrev SameRows (s s' : State) : Prop := SameView (fun _ => ()) s s'

theorem SameRows.exists_row {s s' : State} (h : SameRows s s') {id : MemberId} (hid : id ∈ s.members) :
    id ∈ s'.members := by
  have hrow := h.rows id
  rw [Std.ExtTreeMap.mem_iff_isSome_getElem?] at hid ⊢
  cases hm : s.members[id]? <;> cases hm' : s'.members[id]? <;> rw [hm, hm'] at hrow <;> simp_all

theorem ignoresBooks_rows : IgnoresBooks fun _ : Member => () := ⟨fun _ => rfl, fun _ _ _ _ => rfl⟩

theorem sameRows_sweepDues : Op.Moves SameRows sweepDues := by
  have hbooks : ∀ {op : Tr Unit}, Bookkeeping op → Op.Moves SameRows op := fun h s =>
    .of_offBooks (fun _ => rfl) (h s)
  unfold sweepDues
  refine .bind (.ask _) fun due =>
    .bind (.forM fun id _ => .attempt (hbooks (bookkeeping_markExpired _))) fun _ =>
    .bind (hbooks (bookkeeping_netRings _)) fun _ => .bind (.ask _) fun sat => ?_
  exact .forM fun id _ => .attempt (keepsView_forfeitBonds id fun _ _ => rfl)

/-- The same contracts, and the same next one. -/
def SameBooks (s s' : State) : Prop := s'.contracts = s.contracts ∧ s'.nextContract = s.nextContract

instance : Std.Refl SameBooks := ⟨fun _ => ⟨rfl, rfl⟩⟩

instance : IsTrans State SameBooks := ⟨fun _ _ _ h h' => ⟨h'.1.trans h.1, h'.2.trans h.2⟩⟩

theorem sameBooks_retireRow (id : MemberId) (s : State) : SameBooks s (retireRow id s) := by
  have hmod : ∀ (s : State) (a : MemberId) f, SameBooks s (s.modMember a f) := fun _ _ _ => ⟨rfl, rfl⟩
  unfold retireRow
  split
  · exact Std.Refl.refl s
  next m hm =>
  extract_lets s₁ s₂ s₃
  have h₁ : SameBooks s s₁ := Op.Moves.foldl (fun s b => hmod s b _) _ s
  have h₂ : SameBooks s₁ s₂ := Op.Moves.foldl (fun s l => hmod s l _) _ s₁
  have h₃ : SameBooks s₂ s₃ := by
    simp only [s₃]
    split
    · exact Std.Refl.refl s₂
    · exact ⟨rfl, rfl⟩
  have h₄ : SameBooks s₃ { s₃ with
      keyIndex := m.keys.foldl (fun m k => m.erase k) s₃.keyIndex
      members := s₃.members.erase id } := ⟨rfl, rfl⟩
  exact IsTrans.trans _ _ _ (IsTrans.trans _ _ _ h₁ h₂) (IsTrans.trans _ _ _ h₃ h₄)

theorem sameRows_closePanel (s : State) (id : ContractId) : SameRows s (closePanel s id) :=
  .of_offBooks (fun _ => rfl) (bookkeeping_arbAward id s)

end Apply

/-- What is done to the panels at a boundary: some are closed. A row whose panel is open stays
where its panel is not closed, and the members its terms bind keep their rows. -/
structure ClosesAll (ids : List ContractId) (s s' : State) : Prop where
  next : s.nextContract ≤ s'.nextContract
  issued : s'.ContractsIssued
  back : ∀ (id : ContractId) (c' : Contract), s'.contracts[id]? = some c' →
    (∃ c, s.contracts[id]? = some c ∧ Apply.Shut ids c.panel c'.panel) ∨
      (s.contracts[id]? = none ∧ s.nextContract ≤ id ∧ c'.panel.Minuted [] ∧ c'.id = id ∧
        (id ∈ ids → c'.arbAwarded = true))
  once : ids.Nodup
  due : ∀ id ∈ ids, (∃ c, s.contracts[id]? = some c ∧ c.arbAwarded = false) ∨ s.nextContract ≤ id
  fresh : ∀ id ∈ ids, id < s'.nextContract
  kept : ∀ (id : ContractId) (c : Contract) (terms : ArbTerms), s.contracts[id]? = some c →
    c.arb = some terms → c.arbAwarded = false → id ∉ ids →
      (∃ c', s'.contracts[id]? = some c' ∧ c'.panel = c.panel) ∧
        ∀ m ∈ terms.bound, m ∈ s.members → m ∈ s'.members

theorem Contract.Unattested.minuted {c : Contract} (h : c.Unattested) : c.panel.Minuted [] := by
  refine ⟨List.nodup_nil, fun m v => ?_, fun x hx => by cases hx⟩
  show c.arbAttestations[m]? = some v ↔ _
  rw [h.1]
  simp

theorem Apply.Shut.minuted {ids : List ContractId} {p p' : Panel} {made : List (MemberId × Nat)}
    (h : Apply.Shut ids p p') (hp : p.Minuted made) : p'.Minuted made := by
  unfold Apply.Shut at h
  split at h <;> subst h
  · exact ⟨hp.once, hp.held, hp.panel⟩
  · exact hp

theorem Apply.unnamed_of_emptyRow {s : State} {named : List MemberId} {m : Member}
    (h : emptyRow s named m = true) : m.id ∉ named := by
  unfold emptyRow at h
  simp only [Bool.and_eq_true, decide_eq_true_eq] at h
  tauto

open Apply in
/-- **What a boundary where epochs pass does to the panels.** -/
theorem sweepCranks_closesAll {s : State} (hs : s.ContractsIssued) (hnamed : s.ContractsNamed)
    (made : ContractId → List (MemberId × Nat))
    (hmade : ∀ (id : ContractId) c, s.contracts[id]? = some c → c.panel.Minuted (made id))
    (hfresh : ∀ id, s.nextContract ≤ id → made id = []) :
    let u := (Op.exec sweepDues s).2
    ClosesAll (closedPanels u) s (Op.exec sweepCranks s).2 ∧
      (closings made (closedPanels u) u).map (fun a => a.contract.id) = closedPanels u ∧
      ∀ a ∈ closings made (closedPanels u) u, ∃ terms, a.Proper terms := by
  intro u
  have hdues : PanelsKept Eq s u := panels_sweepDues s hs
  have hepoch : u.epoch = s.epoch := (steady_sweepDues s).epoch
  have hrows : SameRows s u := sameRows_sweepDues s
  have hunamed : u.ContractsNamed := hdues.named (fun _ _ h => h ▸ rfl) hnamed
  -- what a panel attested is in its minutes still after the dues are swept
  have hminuted : ∀ (id : ContractId) c, u.contracts[id]? = some c → c.panel.Minuted (made id) := by
    intro id c' hc'
    cases hold : s.contracts[id]? with
    | none =>
      obtain ⟨hid, hun, -⟩ := hdues.born id c' hc' hold
      rw [hfresh id hid]
      exact hun.minuted
    | some c =>
      obtain ⟨d, hd, hpanel⟩ := hdues.kept id c hold
      obtain rfl : c' = d := Option.some.inj (hc'.symm.trans hd)
      exact hpanel ▸ hmade id c hold
  -- the panels that are due are closed, one after another
  obtain ⟨hshut, hvepoch, hids, hproper⟩ := closings_spec made (closedPanels u) hdues.issued hunamed
    (nodup_closedPanels hunamed) (fun id hid => (mem_closedPanels hunamed).1 hid)
    fun id _ c hc => hminuted id c hc
  refine ⟨?_, hids, hproper⟩
  set v := (closedPanels u).foldl closePanel u with hv
  have hvrows : SameRows u v := Op.Moves.foldl (fun s id => sameRows_closePanel s id) _ _
  have hend := exec_sweepCranks s
  -- then closed rows are pruned, and the rows of members that are left empty retire
  have hcontracts : (Op.exec sweepCranks s).2.contracts = (pruneClosedRows v).contracts ∧
      (Op.exec sweepCranks s).2.nextContract = v.nextContract := by
    rw [hend]
    exact Op.Moves.foldl (R := SameBooks) (fun s id => sameBooks_retireRow id s) _ (pruneClosedRows v)
  have hrow : ∀ {id : ContractId} {c' : Contract}, (Op.exec sweepCranks s).2.contracts[id]? = some c' →
      v.contracts[id]? = some c' := by
    intro id c' hc'
    rw [hcontracts.1] at hc'
    exact (OrdMap.getElem?_filter_of_some hc').1
  have hopen : ∀ {id : ContractId}, id ∈ closedPanels u → ∃ d, u.contracts[id]? = some d ∧
      d.arbAwarded = false := by
    intro id hid
    obtain ⟨d, terms, hd, -, hpending, -⟩ := (mem_closedPanels hunamed).1 hid
    exact ⟨d, hd, hpending⟩
  refine ⟨?_, ?_, ?_, nodup_closedPanels hunamed, ?_, ?_, ?_⟩
  · rw [hcontracts.2]
    exact hdues.next.trans hshut.next
  · intro id hid
    rw [hcontracts.2] at hid
    cases hnone : (Op.exec sweepCranks s).2.contracts[id]? with
    | none => rfl
    | some c' => cases (hshut.issued id hid).symm.trans (hrow hnone)
  -- a contract that is there at the end was there before, or was born in the boundary
  · intro id c' hc'
    replace hc' := hrow hc'
    cases hmid : u.contracts[id]? with
    | none =>
      obtain ⟨hid, hun, hnamed'⟩ := hshut.born id c' hc' hmid
      refine Or.inr ⟨?_, hdues.next.trans hid, hun.minuted, hnamed', fun hmem => ?_⟩
      · cases hold : s.contracts[id]? with
        | none => rfl
        | some c =>
          obtain ⟨d, hd, -⟩ := hdues.kept id c hold
          cases hmid.symm.trans hd
      · obtain ⟨d, hd, -⟩ := hopen hmem
        cases hmid.symm.trans hd
    | some d =>
      obtain ⟨d', hd', hclosed⟩ := hshut.kept id d hmid
      obtain rfl : c' = d' := Option.some.inj (hc'.symm.trans hd')
      cases hold : s.contracts[id]? with
      | none =>
        obtain ⟨hid, hun, hnamed'⟩ := hdues.born id d hmid hold
        refine Or.inr ⟨rfl, hid, hclosed.minuted hun.minuted, ?_, fun hmem => ?_⟩
        · exact (hshut.named (fun p p' h => by rw [h]; split <;> rfl) hunamed) id c' hc'
        · have hself : d.panel.id ∈ closedPanels u := by
            rw [show d.panel.id = id from hnamed']
            exact hmem
          unfold Shut at hclosed
          rw [if_pos hself] at hclosed
          exact congrArg Panel.awarded hclosed
      | some c =>
        obtain ⟨e, he, hpanel⟩ := hdues.kept id c hold
        obtain rfl : d = e := Option.some.inj (hmid.symm.trans he)
        exact Or.inl ⟨c, rfl, hpanel ▸ hclosed⟩
  · intro id hid
    obtain ⟨d, hd, hpending⟩ := hopen hid
    cases hold : s.contracts[id]? with
    | none => exact Or.inr (hdues.born id d hd hold).1
    | some c =>
      obtain ⟨e, he, hpanel⟩ := hdues.kept id c hold
      obtain rfl : d = e := Option.some.inj (hd.symm.trans he)
      exact Or.inl ⟨c, rfl, (congrArg Panel.awarded hpanel).trans hpending⟩
  · intro id hid
    obtain ⟨d, hd, -⟩ := hopen hid
    have hlt : id < u.nextContract := by
      by_contra hge
      cases (hdues.issued id (Nat.le_of_not_lt hge)).symm.trans hd
    rw [hcontracts.2]
    exact hlt.trans_le hshut.next
  -- a panel that is open still: neither its contract nor its arbiters are pruned
  · intro id c terms hc harb hpending hid
    obtain ⟨d, hd, hpanel⟩ := hdues.kept id c hc
    obtain ⟨d', hd', hclosed⟩ := hshut.kept id d hd
    have hout : d.panel.id ∉ closedPanels u := by
      rw [show d.panel.id = id from hunamed id d hd]
      exact hid
    unfold Shut at hclosed
    rw [if_neg hout, ← hpanel] at hclosed
    have harb' : d'.arb = some terms := (congrArg Panel.terms hclosed).trans harb
    have hcreated : d'.createdEpoch = d.createdEpoch :=
      congrArg Panel.created (hclosed.trans hpanel)
    have hearly : ¬horizon d.createdEpoch terms.windowEpochs < u.epoch := fun hlate =>
      hid ((mem_closedPanels hunamed).2 ⟨d, terms, hd, (congrArg Panel.terms hpanel).symm.trans harb,
        (congrArg Panel.awarded hpanel).symm.trans hpending, hlate⟩)
    -- a row is kept for the window of its panel at least
    have hlasts : outlived v.epoch d' = false := by
      have hmono : horizon d.createdEpoch terms.windowEpochs ≤
          horizon d.createdEpoch (max Constants.closedRetentionEpochs terms.windowEpochs) := by
        have := le_max_right Constants.closedRetentionEpochs terms.windowEpochs
        unfold horizon
        omega
      unfold outlived
      rw [harb', hcreated, hvepoch]
      simp only [Bool.and_eq_false_iff, decide_eq_false_iff_not]
      exact Or.inr (by omega)
    have hpruned : (pruneClosedRows v).contracts[id]? = some d' := by
      show (v.contracts.filter fun _ c => !outlived v.epoch c)[id]? = some d'
      rw [Std.ExtTreeMap.getElem?_filter', hd']
      simp [hlasts]
    refine ⟨⟨d', hcontracts.1 ▸ hpruned, hclosed⟩, fun m hm hrowm => ?_⟩
    have hmv : m ∈ (pruneClosedRows v).members := hvrows.exists_row (hrows.exists_row hrowm)
    rw [Std.ExtTreeMap.mem_iff_isSome_getElem?, Option.isSome_iff_exists] at hmv ⊢
    obtain ⟨row, hmv⟩ := hmv
    rw [hend]
    refine getElem?_foldl_retireRow _ (fun hmem => ?_) hmv
    -- the terms name the member, so that its row is not an empty one
    obtain ⟨q, hq, rfl⟩ := List.mem_map.1 hmem
    have hempty := (List.mem_filter.1 hq).2
    have hname : q.2.id ∈ namedMembers (pruneClosedRows v) := by
      refine List.mem_append_left _ (List.mem_append_left _ (List.mem_append_right _
        (List.mem_flatMap.2 ⟨(id, d'), OrdMap.mem_toList.2 hpruned, ?_⟩)))
      unfold contractNames
      rw [harb']
      exact List.mem_append_right _ hm
    exact unnamed_of_emptyRow hempty hname

namespace ClosesAll

open Apply

variable {ids : List ContractId} {s s' : State}

theorem of_same (hs : s.ContractsIssued) (hbooks : SameBooks s s') (hrows : SameRows s s') :
    ClosesAll [] s s' := by
  refine ⟨hbooks.2.ge, fun id hid => ?_, fun id c' hc' => Or.inl ⟨c', hbooks.1 ▸ hc', by simp [Shut]⟩,
    List.nodup_nil, fun id hid => (by cases hid), fun id hid => (by cases hid),
    fun id c terms hc _ _ _ => ⟨⟨c, hbooks.1 ▸ hc, rfl⟩, fun m _ hm => hrows.exists_row hm⟩⟩
  rw [hbooks.1]
  exact hs id (hbooks.2 ▸ hid)

theorem congr {t t' : State} (hbooks : SameBooks s t) (hrows : SameRows s t) (h : ClosesAll ids t t')
    (hbooks' : SameBooks t' s') (hrows' : SameRows t' s') : ClosesAll ids s s' := by
  refine ⟨hbooks.2 ▸ hbooks'.2 ▸ h.next, fun id hid => ?_, fun id c' hc' => ?_, h.once, ?_, ?_, ?_⟩
  · rw [hbooks'.1]
    exact h.issued id (hbooks'.2 ▸ hid)
  · rw [← hbooks.1, ← hbooks.2]
    exact h.back id c' (hbooks'.1 ▸ hc')
  · rw [← hbooks.1, ← hbooks.2]
    exact h.due
  · rw [hbooks'.2]
    exact h.fresh
  · intro id c terms hc harb hpending hid
    obtain ⟨hrow, hbound⟩ := h.kept id c terms (hbooks.1 ▸ hc) harb hpending hid
    rw [hbooks'.1]
    exact ⟨hrow, fun m hm hrowm => hrows'.exists_row (hbound m hm (hrows.exists_row hrowm))⟩

end ClosesAll

theorem sameBooks_advance (n : Nat) (s : State) : Apply.SameBooks s (Nat.repeat State.advanceEpoch n s) := by
  induction n with
  | zero => exact Std.Refl.refl s
  | succ n ih => exact IsTrans.trans _ _ _ ih ⟨rfl, rfl⟩

theorem sameRows_advance (n : Nat) (s : State) : Apply.SameRows s (Nat.repeat State.advanceEpoch n s) := by
  induction n with
  | zero => exact Std.Refl.refl s
  | succ n ih =>
    exact IsTrans.trans _ _ _ ih (sameView_advanceEpoch (fun _ => rfl) ⟨fun _ _ _ _ _ _ => rfl⟩ _)

/-- The panels that the boundary of a block closes. -/
def State.closings (made : ContractId → List (MemberId × Nat)) (nowSecs : Nat) (s : State) : List Closing :=
  if nowSecs = s.lastBeginSecs then []
  else
    let s := { s with lastBeginSecs := nowSecs }
    let target := s.targetEpoch nowSecs
    if s.epoch < target then
      let u := (Op.exec Apply.sweepDues (Nat.repeat advanceEpoch (target - s.epoch) s)).2
      Apply.closings made (Apply.closedPanels u) u
    else []

/-- **What a boundary does to the panels.** -/
theorem beginBlock_closesAll {s : State} (hs : s.ContractsIssued) (hnamed : s.ContractsNamed)
    {made : ContractId → List (MemberId × Nat)}
    (hmade : ∀ (id : ContractId) c, s.contracts[id]? = some c → c.panel.Minuted (made id))
    (hfresh : ∀ id, s.nextContract ≤ id → made id = []) (nowSecs : Nat) :
    ClosesAll ((s.closings made nowSecs).map fun a => a.contract.id) s (s.beginBlock nowSecs) ∧
      ∀ a ∈ s.closings made nowSecs, ∃ terms, a.Proper terms := by
  unfold State.closings State.beginBlock
  split
  · exact ⟨.of_same hs (Std.Refl.refl s) (Std.Refl.refl s), fun a ha => by cases ha⟩
  dsimp only
  split
  · generalize State.targetEpoch { s with lastBeginSecs := nowSecs } nowSecs - s.epoch = n
    set t := Nat.repeat State.advanceEpoch n { s with lastBeginSecs := nowSecs } with ht
    have hstart : Apply.SameRows s { s with lastBeginSecs := nowSecs } := .of_eq rfl rfl
    have hbooks : Apply.SameBooks s t := sameBooks_advance n { s with lastBeginSecs := nowSecs }
    have hrows : Apply.SameRows s t := IsTrans.trans _ _ _ hstart (sameRows_advance n _)
    have hissued : t.ContractsIssued := fun id hid => by
      rw [hbooks.1]
      exact hs id (hbooks.2 ▸ hid)
    have hnamed' : t.ContractsNamed := fun id c hc => hnamed id c (hbooks.1 ▸ hc)
    obtain ⟨hcloses, hids, hproper⟩ := sweepCranks_closesAll hissued hnamed' made
      (fun id c hc => hmade id c (hbooks.1 ▸ hc)) fun id hid => hfresh id (hbooks.2 ▸ hid)
    have hreleased : Apply.SameRows (Op.exec Apply.sweepCranks t).2
        (Op.exec Apply.sweepCranks t).2.releaseBonds :=
      .mapMembers (f := fun _ m =>
        { m with bonds := m.bonds.filter fun k _ => decide (horizon (Op.exec Apply.sweepCranks t).2.epoch 1 ≤ k) })
        (fun _ _ => rfl) rfl rfl
    refine ⟨?_, hproper⟩
    rw [hids]
    exact .congr hbooks hrows hcloses ⟨rfl, rfl⟩ hreleased
  · exact ⟨.of_same hs ⟨rfl, rfl⟩ (.of_eq rfl rfl), fun a ha => by cases ha⟩

/-! ### The minutes -/

namespace PanelWrite

/-- The minutes of the panels after the write: an attestation goes to the end of its panel's. -/
def minutes (w : PanelWrite) (made : ContractId → List (MemberId × Nat)) :
    ContractId → List (MemberId × Nat) :=
  match w with
  | .none => made
  | .scale pi => fun id => (made id).map fun x => (x.1, scaleMinor x.2 pi)
  | .attest id arbiter amount => fun id' =>
    if id' = id then made id' ++ [(arbiter, amount)] else made id'

end PanelWrite

/-- An attestation that a write makes is the first of a member of the panel. -/
def PanelWrite.Fits (w : PanelWrite) (s : State) : Prop :=
  ∀ id arbiter amount, w = .attest id arbiter amount → ∃ c terms, s.contracts[id]? = some c ∧
    c.arb = some terms ∧ terms.arbiters.contains arbiter = true ∧ arbiter ∉ c.arbAttestations

theorem Panel.Minuted.attest {p : Panel} {made : List (MemberId × Nat)} (h : p.Minuted made)
    {arbiter : MemberId} {amount : Nat} {terms : ArbTerms} (harb : p.terms = some terms)
    (hpanel : terms.arbiters.contains arbiter = true) (hfirst : arbiter ∉ p.attested) :
    Panel.Minuted { p with attested := p.attested.insert arbiter amount } (made ++ [(arbiter, amount)]) := by
  have hnone : p.attested[arbiter]? = none := Std.ExtTreeMap.getElem?_eq_none hfirst
  have hnew : arbiter ∉ made.map Prod.fst := by
    intro hmem
    obtain ⟨x, hx, rfl⟩ := List.mem_map.1 hmem
    cases hnone.symm.trans ((h.held x.1 x.2).2 hx)
  refine ⟨?_, fun m v => ?_, fun x hx => ?_⟩
  · rw [List.map_append]
    exact h.once.append (List.nodup_singleton _) (by simpa using hnew)
  · dsimp only
    rw [Std.ExtTreeMap.getElem?_insert, List.mem_append, List.mem_singleton, ← h.held m v]
    by_cases hm : arbiter = m
    · subst hm
      simp [hnone, eq_comm]
    · simp [hm, Ne.symm hm]
  · rcases List.mem_append.1 hx with hx | hx
    · exact h.panel x hx
    · obtain rfl := List.mem_singleton.1 hx
      exact ⟨terms, harb, hpanel⟩

theorem Panel.Minuted.scale {p : Panel} {made : List (MemberId × Nat)} (h : p.Minuted made) (pi : F64) :
    ((PanelWrite.scale pi).panel p).Minuted (made.map fun x => (x.1, scaleMinor x.2 pi)) := by
  refine ⟨?_, fun m v => ?_, fun x hx => ?_⟩
  · rw [List.map_map]
    exact h.once
  · show (p.attested.map fun _ v => scaleMinor v pi)[m]? = some v ↔ _
    rw [Std.ExtTreeMap.getElem?_map, Option.map_eq_some_iff, List.mem_map]
    constructor
    · rintro ⟨v', hv', rfl⟩
      exact ⟨(m, v'), (h.held m v').1 hv', rfl⟩
    · rintro ⟨x, hx, heq⟩
      obtain ⟨rfl, rfl⟩ := Prod.mk.inj heq
      exact ⟨x.2, (h.held x.1 x.2).2 hx, rfl⟩
  · obtain ⟨y, hy, rfl⟩ := List.mem_map.1 hx
    obtain ⟨terms, hterms, hmem⟩ := h.panel y hy
    obtain ⟨terms', hterms', harbiters, -⟩ := PanelWrite.exists_terms (w := .scale pi) hterms
    exact ⟨terms', hterms', harbiters ▸ hmem⟩

/-- A panel and its minutes take a write. -/
theorem PanelWrite.Fits.minuted {w : PanelWrite} {s : State} (hw : w.Fits s) {id : ContractId} {c : Contract}
    (hc : s.contracts[id]? = some c) (hid : c.id = id) {made : ContractId → List (MemberId × Nat)}
    (h : c.panel.Minuted (made id)) : (w.panel c.panel).Minuted (w.minutes made id) := by
  cases w with
  | none => exact h
  | scale pi => exact h.scale pi
  | attest id' arbiter amount =>
    obtain ⟨d, terms, hd, harb, hpanel, hfirst⟩ := hw id' arbiter amount rfl
    unfold PanelWrite.panel PanelWrite.minutes PanelWrite.attested
    dsimp only
    by_cases hsame : id = id'
    · subst hsame
      obtain rfl : c = d := Option.some.inj (hc.symm.trans hd)
      rw [if_pos rfl, if_pos (show id = c.panel.id from hid.symm)]
      exact h.attest harb hpanel hfirst
    · rw [if_neg hsame, if_neg (show ¬id' = c.panel.id from fun heq => hsame (hid.symm.trans heq.symm))]
      exact h

/-- The attestations made on each panel, in the order they arrived, and the panels that were closed. -/
structure PanelBook where
  made : ContractId → List (MemberId × Nat)
  closed : List Closing

/-- The book of a ledger: each panel with its minutes, and what was closed was closed once, as it
should be. -/
structure Minuted (s : State) (b : PanelBook) : Prop where
  issued : s.ContractsIssued
  named : s.ContractsNamed
  rows : ∀ (id : ContractId) c, s.contracts[id]? = some c → c.panel.Minuted (b.made id)
  fresh : ∀ id, s.nextContract ≤ id → b.made id = []
  closed : ∀ a ∈ b.closed, a.contract.id < s.nextContract ∧
    ∀ c, s.contracts[a.contract.id]? = some c → c.arbAwarded = true
  once : (b.closed.map fun a => a.contract.id).Nodup
  proper : ∀ a ∈ b.closed, ∃ terms, a.Proper terms

/-- A boundary keeps the book. -/
theorem Minuted.boundary {s : State} {b : PanelBook} (h : Minuted s b) (nowSecs : Nat) :
    Minuted (s.beginBlock nowSecs) ⟨b.made, b.closed ++ s.closings b.made nowSecs⟩ := by
  obtain ⟨hcloses, hproper⟩ := beginBlock_closesAll h.issued h.named h.rows h.fresh nowSecs
  have hnamed : (s.beginBlock nowSecs).ContractsNamed := (follows_beginBlock nowSecs s).named h.named
  refine ⟨hcloses.issued, hnamed, fun id c' hc' => ?_, fun id hid => h.fresh id (hcloses.next.trans hid),
    fun a ha => ?_, ?_, fun a ha => ?_⟩
  · rcases hcloses.back id c' hc' with ⟨c, hc, hshut⟩ | ⟨-, hid, hminuted, -⟩
    · exact hshut.minuted (h.rows id c hc)
    · show c'.panel.Minuted (b.made id)
      rw [h.fresh id hid]
      exact hminuted
  · rcases List.mem_append.1 ha with ha | ha
    · obtain ⟨hlt, hflag⟩ := h.closed a ha
      refine ⟨hlt.trans_le hcloses.next, fun c' hc' => ?_⟩
      rcases hcloses.back _ c' hc' with ⟨c, hc, hshut⟩ | ⟨-, hid, -⟩
      · have hawarded : c.panel.awarded = true := hflag c hc
        unfold Apply.Shut at hshut
        have := congrArg Panel.awarded hshut
        split at this
        · exact this
        · exact this.trans hawarded
      · exact absurd hid (Nat.not_le_of_lt hlt)
    · have hmem := List.mem_map_of_mem (f := fun a : Closing => a.contract.id) ha
      refine ⟨hcloses.fresh _ hmem, fun c' hc' => ?_⟩
      rcases hcloses.back _ c' hc' with ⟨c, hc, hshut⟩ | ⟨-, -, -, -, hawarded⟩
      · unfold Apply.Shut at hshut
        rw [show c.panel.id = a.contract.id from h.named _ c hc, if_pos hmem] at hshut
        exact congrArg Panel.awarded hshut
      · exact hawarded hmem
  · rw [List.map_append]
    refine h.once.append hcloses.once fun id hold hnew => ?_
    obtain ⟨a, ha, rfl⟩ := List.mem_map.1 hold
    obtain ⟨hlt, hflag⟩ := h.closed a ha
    rcases hcloses.due _ hnew with ⟨c, hc, hopen⟩ | hid
    · rw [hflag c hc] at hopen
      cases hopen
    · exact absurd hid (Nat.not_le_of_lt hlt)
  · rcases List.mem_append.1 ha with ha | ha
    · exact h.proper a ha
    · exact hproper a ha

/-- What is written on the panels keeps the book. -/
theorem Minuted.write {s s' : State} {b : PanelBook} {w : PanelWrite} (h : Minuted s b)
    (hw : Writes w s s') (hfits : w.Fits s) : Minuted s' ⟨w.minutes b.made, b.closed⟩ := by
  have hmade : ∀ id, s.nextContract ≤ id → w.minutes b.made id = [] := by
    intro id hid
    cases w with
    | none => exact h.fresh id hid
    | scale pi => exact congrArg (List.map _) (h.fresh id hid)
    | attest id' arbiter amount =>
      obtain ⟨c, -, hc, -⟩ := hfits id' arbiter amount rfl
      have hne : id ≠ id' := by
        rintro rfl
        cases (h.issued id hid).symm.trans hc
      exact (if_neg hne).trans (h.fresh id hid)
  refine ⟨hw.issued, hw.named (fun p p' hp => by rw [hp]; rfl) h.named, fun id c' hc' => ?_,
    fun id hid => hmade id (hw.next.trans hid), fun a ha => ?_, h.once, h.proper⟩
  · cases hold : s.contracts[id]? with
    | none =>
      obtain ⟨hid, hun, -⟩ := hw.born id c' hc' hold
      show c'.panel.Minuted (w.minutes b.made id)
      rw [hmade id hid]
      exact hun.minuted
    | some c =>
      obtain ⟨d, hd, hpanel⟩ := hw.kept id c hold
      obtain rfl : c' = d := Option.some.inj (hc'.symm.trans hd)
      rw [hpanel]
      exact hfits.minuted hold (h.named id c hold) (h.rows id c hold)
  · obtain ⟨hlt, hflag⟩ := h.closed a ha
    refine ⟨hlt.trans_le hw.next, fun c' hc' => ?_⟩
    cases hold : s.contracts[a.contract.id]? with
    | none => exact absurd (hw.born _ c' hc' hold).1 (Nat.not_le_of_lt hlt)
    | some c =>
      obtain ⟨d, hd, hpanel⟩ := hw.kept _ c hold
      obtain rfl : c' = d := Option.some.inj (hc'.symm.trans hd)
      exact (congrArg Panel.awarded hpanel).trans (hflag c hold)

theorem PanelsKept.of_sameBooks {P : Panel → Panel → Prop} {s t s' : State} (h' : PanelsKept P t s')
    (h : Apply.SameBooks s t) : PanelsKept P s s' := by
  refine ⟨h.2 ▸ h'.next, h'.issued, fun id c hc => h'.kept id c (h.1 ▸ hc), fun id c' hc' hnone => ?_⟩
  rw [← h.2]
  exact h'.born id c' hc' (h.1 ▸ hnone)

section Events

variable [Libm]

/-- What an event writes on the panels, after its boundary. -/
def Event.panelWrite (e : Event) (s : State) : PanelWrite :=
  match e with
  | .block _ => .none
  | .transaction tx txId notAfterEpoch signers nowSecs =>
    let t := s.beginBlock nowSecs
    match Apply.admissible t txId notAfterEpoch, Op.exec (Apply.bondGate tx signers) t with
    | .ok (), (.ok (_, sponsor), t) =>
      let t := t.recordApplied txId notAfterEpoch
      let r := Op.exec (Apply.dispatch tx signers sponsor) t
      Apply.dispatchWrite tx r.1 t r.2
    | _, _ => .none

/-- What an event does to the book. -/
def PanelBook.next (e : Event) (s : State) (b : PanelBook) : PanelBook :=
  ⟨(e.panelWrite s).minutes b.made, b.closed ++ s.closings b.made e.nowSecs⟩

/-- A ledger and the book beside it take an event. -/
def Event.nextPanels (e : Event) (r : State × PanelBook) : State × PanelBook :=
  (e.next r.1, r.2.next e r.1)

/-- **An event writes on the panels what it is said to**, and an attestation is the first of a member
of the panel. -/
theorem writes_next (e : Event) {s : State} (hs : (e.opens s).ContractsIssued)
    (hnamed : (e.opens s).ContractsNamed) :
    Writes (e.panelWrite s) (e.opens s) (e.next s) ∧ (e.panelWrite s).Fits (e.opens s) := by
  cases e with
  | block nowSecs => exact ⟨(KeepsPanels.refl _ hs).unwritten, fun _ _ _ h => by cases h⟩
  | transaction tx txId expiry signers nowSecs =>
    have hbegin : KeepsPanels (s.beginBlock nowSecs) (s.beginBlock nowSecs) := .refl _
    have hgate : KeepsPanels (s.beginBlock nowSecs)
        (Op.exec (Apply.bondGate tx signers) (s.beginBlock nowSecs)).2 :=
      Apply.bondGate_moves (fun _ _ _ => .of_eq rfl rfl) tx signers _
    have hbooks : Apply.SameBooks (s.beginBlock nowSecs)
        (Op.exec (Apply.bondGate tx signers) (s.beginBlock nowSecs)).2 :=
      Apply.bondGate_moves (fun _ _ _ => ⟨rfl, rfl⟩) tx signers _
    rcases Apply.exec_apply_cases tx txId expiry signers nowSecs s with
      ⟨e, hadm, hexec⟩ | ⟨hadm, e, t, ht, hexec⟩ |
        ⟨hadm, charged, sponsor, t, outcome, u, ht, hu, hexec⟩
    · rw [Event.next_of_exec hexec]
      simp only [Event.panelWrite, hadm]
      exact ⟨(hbegin hs).unwritten, fun _ _ _ h => by cases h⟩
    · rw [Event.next_of_exec hexec]
      rw [ht] at hgate
      simp only [Event.panelWrite, hadm, ht]
      exact ⟨(hgate hs).unwritten, fun _ _ _ h => by cases h⟩
    · rw [ht] at hgate hbooks
      have hrecordedBooks : Apply.SameBooks (s.beginBlock nowSecs) (t.recordApplied txId expiry) :=
        ⟨hbooks.1, hbooks.2⟩
      have hrecorded : KeepsPanels t (t.recordApplied txId expiry) := .of_eq rfl rfl
      have hready : KeepsPanels (s.beginBlock nowSecs) (t.recordApplied txId expiry) :=
        hgate.trans hrecorded
      have hissued : (t.recordApplied txId expiry).ContractsIssued := (hready hs).issued
      have hfiled : (t.recordApplied txId expiry).ContractsNamed :=
        (hready hs).named (fun _ _ h => h ▸ rfl) hnamed
      obtain ⟨hwrites, hfits⟩ := Apply.writes_dispatch tx signers sponsor hissued hfiled hu
      have hsettled : KeepsPanels u (Apply.settleOutcome tx txId expiry signers charged outcome u) := by
        refine Apply.settleOutcome_moves ?_ ?_ ?_ tx txId expiry signers charged outcome u
        · intro s txId expiry
          unfold State.forgetApplied
          split
          · exact .refl s
          · exact .of_eq rfl rfl
        · intro s charged
          cases charged <;> exact .of_eq rfl rfl
        · intro s subject signers
          unfold Apply.priceRefusal
          dsimp only
          split
          · exact .of_eq rfl rfl
          · split <;> exact .of_eq rfl rfl
      have hwrite : Event.panelWrite (.transaction tx txId expiry signers nowSecs) s =
          Apply.dispatchWrite tx outcome (t.recordApplied txId expiry) u := by
        simp only [Event.panelWrite, hadm, ht, hu]
      rw [Event.next_of_exec hexec, hwrite]
      refine ⟨(hwrites.before hsettled).of_sameBooks hrecordedBooks, fun id arbiter amount h => ?_⟩
      obtain ⟨c, terms, hc, hrest⟩ := hfits id arbiter amount h
      exact ⟨c, terms, hrecordedBooks.1 ▸ hc, hrest⟩

theorem minuted_next (e : Event) {s : State} {b : PanelBook} (h : Minuted s b) :
    Minuted (e.next s) (b.next e s) := by
  have hopened : Minuted (e.opens s) ⟨b.made, b.closed ++ s.closings b.made e.nowSecs⟩ := by
    cases e with
    | block nowSecs => exact h.boundary nowSecs
    | transaction tx txId expiry signers nowSecs => exact h.boundary nowSecs
  obtain ⟨hwrites, hfits⟩ := writes_next e hopened.issued hopened.named
  exact hopened.write hwrites hfits

theorem minuted_run (es : List Event) {r : State × PanelBook} (h : Minuted r.1 r.2) :
    Minuted (es.foldl (fun r e => e.nextPanels r) r).1 (es.foldl (fun r e => e.nextPanels r) r).2 := by
  induction es generalizing r with
  | nil => exact h
  | cons e es ih => exact ih (minuted_next e h)

theorem nextPanels_run (es : List Event) (r : State × PanelBook) :
    (es.foldl (fun r e => e.nextPanels r) r).1 = Event.run es r.1 := by
  induction es generalizing r with
  | nil => rfl
  | cons e es ih => exact ih _

/-- **An open panel stays, with its row and the members its terms bind**, unless the event's boundary
closes it. -/
theorem panel_stays (e : Event) {s : State} {b : PanelBook} (h : Minuted s b) (hrows : s.Issued)
    {id : ContractId} {c : Contract} {terms : ArbTerms} (hc : s.contracts[id]? = some c)
    (harb : c.arb = some terms) (hopen : c.arbAwarded = false)
    (hkept : ∀ a ∈ s.closings b.made e.nowSecs, a.contract.id ≠ id) :
    (∃ c' terms', (e.next s).contracts[id]? = some c' ∧ c'.arb = some terms' ∧ c'.arbAwarded = false ∧
        terms'.bound = terms.bound) ∧
      ∀ m ∈ terms.bound, m ∈ s.members → m ∈ (e.next s).members := by
  have hopens : e.opens s = s.beginBlock e.nowSecs := by cases e <;> rfl
  obtain ⟨hcloses, -⟩ := beginBlock_closesAll h.issued h.named h.rows h.fresh e.nowSecs
  obtain ⟨⟨d, hd, hpanel⟩, hbound⟩ := hcloses.kept id c terms hc harb hopen fun hid => by
    obtain ⟨a, ha, heq⟩ := List.mem_map.1 hid
    exact hkept a ha heq
  have hnamed := (follows_beginBlock e.nowSecs s).named h.named
  obtain ⟨hwrites, -⟩ := writes_next e (s := s) (hopens ▸ hcloses.issued) (hopens ▸ hnamed)
  rw [hopens] at hwrites
  obtain ⟨c', hc', hwritten⟩ := hwrites.kept id d hd
  have hterms : d.arb = some terms := (congrArg Panel.terms hpanel).trans harb
  obtain ⟨terms', hterms', harbiters, -, -, hdebtor, hcreditor⟩ :=
    PanelWrite.exists_terms (w := e.panelWrite s) hterms
  refine ⟨⟨c', terms', hc', (congrArg Panel.terms hwritten).trans hterms', ?_, ?_⟩, fun m hm hrow => ?_⟩
  · exact (congrArg Panel.awarded hwritten).trans ((congrArg Panel.awarded hpanel).trans hopen)
  · rw [ArbTerms.bound, ArbTerms.bound, harbiters, hdebtor, hcreditor]
  · have hrow' := hbound m hm hrow
    cases e with
    | block nowSecs => exact hrow'
    | transaction tx txId expiry signers nowSecs =>
      have htx : Untouched (fun _ : Member => ()) tx := by
        cases tx <;> simp [Untouched]
      have hissued : (s.beginBlock nowSecs).Issued :=
        (rowsLeft_beginBlock Apply.ignoresBooks_rows ⟨fun _ _ _ _ _ _ => rfl⟩ nowSecs s).issued hrows
      have hkeeps : KeepsRows (fun _ => ()) (s.beginBlock nowSecs)
          (Event.next (.transaction tx txId expiry signers nowSecs) s) :=
        keepsRows_next Apply.ignoresBooks_rows ⟨fun _ _ _ _ _ _ => rfl⟩ tx htx txId expiry signers nowSecs s
      rw [Std.ExtTreeMap.mem_iff_isSome_getElem?, Option.isSome_iff_exists] at hrow' ⊢
      obtain ⟨row, hrow'⟩ := hrow'
      obtain ⟨m', hm', -⟩ := (hkeeps hissued).kept m row hrow'
      exact ⟨m', hm'⟩

end Events

/-! ### Once, and by the median -/

/-- A run, with the book beside it. -/
def Event.runPanels [Libm] (es : List Event) (s : State) : State × PanelBook :=
  es.foldl (fun r e => e.nextPanels r) (s, ⟨fun _ => [], []⟩)

theorem contracts_of_founding {s : State} (h : Founding s) : s.contracts = ∅ := by
  obtain ⟨g, hg⟩ := h
  refine genesisState_keeps (I := fun s => s.contracts = ∅) (fun _ _ _ => rfl) (fun _ _ _ _ hs hseat => ?_) hg
  have hbooks := seatEntry_moves (R := Apply.SameBooks) (fun _ _ => ⟨rfl, rfl⟩) (fun _ _ => ⟨rfl, rfl⟩)
    (fun _ _ _ => ⟨rfl, rfl⟩) (fun _ _ => ⟨rfl, rfl⟩) hseat
  exact hbooks.1.trans hs

/-- **Arbitration pays once, and by the median.** In every run each panel is closed at most once, and
as it should be, and a panel that is open stays so, with its row and the members it binds, until a
boundary closes it. What is recorded as closed is what the boundary's sweep runs over. -/
theorem panels_closed_once [Libm] {s : State} (h : Founding s) (es : List Event) :
    let r := Event.runPanels es s
    r.1 = Event.run es s ∧ (r.2.closed.map fun a => a.contract.id).Nodup ∧
      (∀ a ∈ r.2.closed, ∃ terms, a.Proper terms) ∧
      (∀ t : State, (Op.exec Apply.sweepCranks t).2 =
        Apply.retireEmptyRows (Apply.pruneClosedRows
          ((Apply.closedPanels (Op.exec Apply.sweepDues t).2).foldl Apply.closePanel
            (Op.exec Apply.sweepDues t).2))) ∧
      ∀ (e : Event) (id : ContractId) (c : Contract) (terms : ArbTerms), r.1.contracts[id]? = some c →
        c.arb = some terms → c.arbAwarded = false →
        (∀ a ∈ (r.2.next e r.1).closed, a.contract.id ≠ id) →
          (∃ c' terms', (e.next r.1).contracts[id]? = some c' ∧ c'.arb = some terms' ∧
            c'.arbAwarded = false ∧ terms'.bound = terms.bound) ∧
          ∀ m ∈ terms.bound, m ∈ r.1.members → m ∈ (e.next r.1).members := by
  intro r
  have hrun : r.1 = Event.run es s := nextPanels_run es _
  have hstart : Minuted s ⟨fun _ => [], []⟩ := by
    have hnone : ∀ id : ContractId, s.contracts[id]? = none := fun id => by
      simp [contracts_of_founding h]
    refine ⟨fun id _ => hnone id, fun id c hc => ?_, fun id c hc => ?_, fun _ _ => rfl,
      fun a ha => (by cases ha), List.nodup_nil, fun a ha => (by cases ha)⟩
    all_goals
      rw [hnone id] at hc
      cases hc
  have hminuted : Minuted r.1 r.2 := minuted_run es hstart
  have hissued : r.1.Issued := by
    obtain ⟨g, hg⟩ := h
    exact hrun ▸ issued_run es (issued_of_genesis hg)
  refine ⟨hrun, hminuted.once, hminuted.proper, Apply.exec_sweepCranks, fun e id c terms hc harb hopen hkept => ?_⟩
  exact panel_stays e hminuted hissued hc harb hopen fun a ha => hkept a (List.mem_append_right _ ha)

/-- A debt that is repaid, then attested, and the block after its window. -/
def attestedEvents : List Event :=
  [.transaction (.accept (.member 1) (.member 0) (F64.ofNat 100) 30
      (some
        { arbiters := (∅ : OrdSet MemberId).insert 2, quorum := 1
          windowEpochs := 1, awardCap := F64.ofNat 80 })) 0 0 [founderKey 0, founderKey 1] 10,
    .transaction (.settle 0 (F64.ofNat 100)) 1 0 [founderKey 0, founderKey 1] 10,
    .transaction (.arbAttest 0 2 (F64.ofNat 50)) 2 0 [founderKey 2] 10,
    .block (2 * Constants.epochSecs)]

/-- The panel of the repaid debt is closed, and pays its median. -/
theorem panels_closed_once_attested :
    letI := Libm.unused
    let r := Event.runPanels attestedEvents (devGenesis [2000, 0, 0]).state
    (r.2.closed.map fun a => (a.contract.id, a.opened.map Contract.outstanding)) = [(0, some 5000)] ∧
      (r.2.closed.map fun a => a.contract.id).Nodup ∧ ∀ a ∈ r.2.closed, ∃ terms, a.Proper terms := by
  let _ : Libm := Libm.unused
  have hfounding : Founding (devGenesis [2000, 0, 0]).state := Genesis.founding_state (by decide +kernel)
  have hclosed := panels_closed_once hfounding attestedEvents
  exact ⟨by decide +kernel, hclosed.2.1, hclosed.2.2.1⟩

/-- An award is not bounded by what is owed. -/
theorem award_not_bounded_by_debt :
    letI := Libm.unused
    ¬∀ s : State, Founding s → ∀ es : List Event, ∀ a ∈ (Event.runPanels es s).2.closed,
      ∀ d, a.opened = some d → d.outstanding ≤ a.contract.outstanding := by
  let _ : Libm := Libm.unused
  intro h
  have hfounding : Founding (devGenesis [2000, 0, 0]).state := Genesis.founding_state (by decide +kernel)
  have hbounded := h _ hfounding attestedEvents
  have hpays : ((Event.runPanels attestedEvents (devGenesis [2000, 0, 0]).state).2.closed.any fun a =>
      a.opened.any fun d => decide (a.contract.outstanding < d.outstanding)) = true := by decide +kernel
  obtain ⟨a, ha, hopened⟩ := List.any_eq_true.1 hpays
  cases hd : a.opened with
  | none =>
    rw [hd] at hopened
    cases hopened
  | some d =>
    rw [hd] at hopened
    exact absurd (hbounded a ha d hd) (Nat.not_le_of_lt (of_decide_eq_true hopened))

end Edet
