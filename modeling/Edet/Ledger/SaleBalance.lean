import Edet.Ledger.Draining
import Edet.Ledger.Substitution

/-!
# The arithmetic of a sale closes

A sale nets what the seller owes the buyer, takes over debts along the seller's listings and books
what is left. Netting eases the seller's debts (`eased_netMutual`), the cascade those of the members
it drains, and what was gathered is opened on the buyer (`opens_originate`), none of it dust. Seating
the parties moves nothing that is owed (`seated_seatPair`).

So the phases add up to the amount, but for one remainder that is dust (`sale_closes`).
-/

namespace Edet

open Edet.Flow

namespace Cascade

open Apply

/-! ### Netting -/

/-- The contracts of a list are debts of `a` to `b`. -/
def Mutual (a b : MemberId) (ids : List ContractId) (s : State) : Prop :=
  ∀ id ∈ ids, ∃ c, s.contracts[id]? = some c ∧ c.debtor = a ∧ c.creditor = b

theorem Mutual.touched {a b : MemberId} {id : ContractId} {ids : List ContractId} {c : Contract}
    {s t : State} (hs : Mutual a b ids s) (ha : c.debtor = a) (hb : c.creditor = b)
    (h : Touched a id c s t) : Mutual a b ids t := by
  intro a' ha'
  by_cases heq : a' = id
  · obtain ⟨c', hc', hterms⟩ := h.stands
    exact ⟨c', heq ▸ hc', (congrArg (·.1) hterms).trans ha, (congrArg (·.2.1) hterms).trans hb⟩
  · rw [h.elsewhere.2 a' heq]
    exact hs a' ha'

/-- A hop between two members, where it accepts: it takes what was wanted at most, and its creditor
loses what it takes. -/
theorem eased_dischargeHop {a b : MemberId} {id : ContractId} {ids : List ContractId} {s : State}
    (hs : Mutual a b (id :: ids) s) (want : Nat) :
    Op.Triple (fun t => t = s) (dischargeHop id want) (fun take t =>
      Eased [a] (fun k => if b = k then take else 0) s t ∧ take ≤ want ∧ Mutual a b ids t)
      fun _ => True := by
  have hids : Mutual a b ids s := fun i hi => hs i (List.mem_cons_of_mem _ hi)
  obtain ⟨c, hc, ha, hb⟩ := hs id List.mem_cons_self
  unfold dischargeHop
  refine .ask_bind (triple_contract_bind hc (.ite (fun _ => ?_) fun _ => ?_))
  · refine .pure ?_
    rintro t rfl
    exact ⟨(Eased.refl t).mono (by simp) fun k => by simp, Nat.zero_le _, hids⟩
  set take := min want c.outstanding
  set closed : ContractStatus := if c.status = .expired then .cured else .settled
  have hstart : ∀ t, t = s → Touched a id c s t := by
    rintro _ rfl
    exact .refl hc
  have hlow : (lowered s.params.dustMinor take closed c).outstanding + take ≤ c.outstanding :=
    lowered_outstanding (min_le_right _ _)
  refine .bind ((triple_lower s.params.dustMinor take closed).weaken hstart (fun _ _ h => h)
    fun _ h => h) fun _ => ?_
  refine .bind (triple_beside (ha ▸ beside_memberMut _)) fun _ => ?_
  refine .bind (triple_beside beside_rehold) fun _ => ?_
  refine .bind (triple_beside (beside_dischargeCredit _ _ _)) fun _ => .pure fun t ht => ?_
  have heased := Eased.of_touched hc ha ht rfl rfl hlow
  rw [hb] at heased
  exact ⟨heased, min_le_left _ _, hids.touched (by exact ha) (by exact hb) ht⟩

/-- **Netting** takes the debtor's debts down by what it says, at most the budget. -/
theorem eased_netMutual {a b : MemberId} (budget : Nat) {ids : List ContractId} {s : State}
    (hs : Mutual a b ids s) {netted : Nat} (hle : netted ≤ budget) :
    Op.Triple (fun t => t = s) (netMutual budget ids netted) (fun took t =>
      netted ≤ took ∧ took ≤ budget ∧ Eased [a] (fun k => if b = k then took - netted else 0) s t)
      fun _ => True := by
  have hnone : ∀ s, Eased [a] (fun k => if b = k then netted - netted else 0) s s := fun s =>
    (Eased.refl s).mono (by simp) fun k => by simp
  induction ids generalizing s netted with
  | nil =>
    refine .pure ?_
    rintro t rfl
    exact ⟨Nat.le_refl _, hle, hnone t⟩
  | cons id ids ih =>
    unfold netMutual
    refine .ask_bind (.ite (fun _ => ?_) fun _ => .ok_bind fun took t hexec => ?_)
    · refine .pure ?_
      rintro t rfl
      exact ⟨Nat.le_refl _, hle, hnone t⟩
    obtain ⟨heased, htook, hids⟩ := (eased_dischargeHop hs _).ok rfl hexec
    have hle' : netted + took ≤ budget := by omega
    have hrest := ih hids hle' fun s => (Eased.refl s).mono (by simp) fun k => by simp
    refine hrest.weaken (fun _ h => h) ?_ fun _ h => h
    rintro total u ⟨hmore, hbudget, hrest⟩
    refine ⟨by omega, hbudget, (heased.trans hrest).mono (by simp) fun k => ?_⟩
    split <;> omega

/-! ### Opening -/

/-- What a member owes by its row; a member without one owes nothing. -/
def debtOut (s : State) (id : MemberId) : Nat := (s.members[id]?.map Member.debtOut).getD 0

/-- `buyer` owes `amount` more, by its row and by its contracts, and each creditor is owed `gain`
more. -/
structure Opens (buyer : MemberId) (amount : Nat) (gain : MemberId → Nat) (s t : State) : Prop where
  debtOut : ∀ m, debtOut t m = Cascade.debtOut s m + if buyer = m then amount else 0
  debts : ∀ m, t.owed Contract.debtor m = s.owed Contract.debtor m + if buyer = m then amount else 0
  claims : ∀ k, t.owed Contract.creditor k = s.owed Contract.creditor k + gain k

namespace Opens

variable {buyer : MemberId}

theorem of_eq {s t : State} (hmembers : t.members = s.members)
    (hcontracts : t.contracts = s.contracts) : Opens buyer 0 (fun _ => 0) s t := by
  refine ⟨fun m => ?_, fun m => ?_, fun k => ?_⟩
  · unfold Cascade.debtOut
    rw [hmembers]
    simp
  · unfold State.owed
    rw [hcontracts]
    simp
  · unfold State.owed
    rw [hcontracts, Nat.add_zero]

theorem trans {amount amount' : Nat} {gain gain' : MemberId → Nat} {s t u : State}
    (h : Opens buyer amount gain s t) (h' : Opens buyer amount' gain' t u) :
    Opens buyer (amount + amount') (fun k => gain k + gain' k) s u := by
  refine ⟨fun m => ?_, fun m => ?_, fun k => ?_⟩
  · rw [h'.debtOut, h.debtOut]
    split <;> omega
  · rw [h'.debts, h.debts]
    split <;> omega
  · rw [h'.claims, h.claims, Nat.add_assoc]

end Opens

/-- **Opening an obligation**, where it accepts. -/
theorem opens_openObligation (buyer creditor : MemberId) (amount maturityEpoch : Nat)
    (arb : Option ArbTerms) (held : Option Held) (acceptedEpoch : Nat) {s : State}
    (hissued : s.ContractsIssued) :
    Op.Triple (fun t => t = s)
      (openObligation buyer creditor amount maturityEpoch arb held acceptedEpoch)
      (fun id t => Opens buyer amount (fun k => if creditor = k then amount else 0) s t ∧
        id = s.nextContract ∧ ∃ c, t.contracts[id]? = some c ∧ c.debtor = buyer ∧
          c.creditor = creditor ∧ c.outstanding = amount) fun _ => True := by
  unfold openObligation
  refine .check_bind trivial fun out hout => .ask_bind ?_
  have hrow : ∃ m, s.members[buyer]? = some m ∧ out = m.debtOut + amount := by
    unfold debtAfter at hout
    split at hout
    · cases hout
    · next m hm =>
      split at hout
      · exact ⟨m, findMember_eq_ok.1 hm, (Except.ok.inj hout).symm⟩
      · cases hout
  obtain ⟨m, hm, rfl⟩ := hrow
  have hfree : s.contracts[s.nextContract]? = none := hissued _ (Nat.le_refl _)
  refine .ok_bind fun _ s₁ hexec₁ => .ok_bind fun _ s₂ hexec₂ => .pure ?_
  rintro t rfl
  have heq := (Prod.mk.inj hexec₁).2
  have hmembers : s₁.members = s.members := by rw [← heq]
  obtain ⟨c, hdebtor, hcreditor, houtstanding, hcontracts⟩ : ∃ c : Contract, c.debtor = buyer ∧
      c.creditor = creditor ∧ c.outstanding = amount ∧
        s₁.contracts = s.contracts.insert s.nextContract c := by
    rw [← heq]
    exact ⟨_, rfl, rfl, rfl, rfl⟩
  have hmember := exec_memberMut (hmembers ▸ hm)
    fun d : Member => { d with
      debtOut := m.debtOut + amount, rep := { d.rep with dIn := d.rep.dIn + fromMinor amount } }
  obtain ⟨-, rfl⟩ := Prod.mk.inj (hmember.symm.trans hexec₂)
  refine ⟨⟨fun a => ?_, fun a => ?_, fun k => ?_⟩, rfl, c, ?_, hdebtor, hcreditor, houtstanding⟩
  · unfold debtOut
    rw [State.modMember, OrdMap.getElem?_modify_map, hmembers]
    by_cases ha : buyer = a
    · subst ha
      rw [hm]
      simp
    · simp [ha]
  · have howed : s₁.owed Contract.debtor a = _ := owed_opened hfree hcontracts
    rw [owing, hdebtor, houtstanding] at howed
    exact howed
  · have howed : s₁.owed Contract.creditor k = _ := owed_opened hfree hcontracts
    rw [owing, hcreditor, houtstanding] at howed
    exact howed
  · show s₁.contracts[s.nextContract]? = some c
    rw [hcontracts, Std.ExtTreeMap.getElem?_insert_self]

/-- **What was gathered is opened** creditor by creditor, none of it being dust. -/
theorem opens_openAssumed (buyer : MemberId) (dust : Nat)
    {slots : List ((MemberId × Nat) × Nat × Held × Nat)} (hdust : ∀ slot ∈ slots, dust < slot.2.1)
    {s : State} (hissued : s.ContractsIssued) :
    Op.Triple (fun t => t = s) (slots.forM (openAssumed buyer dust)) (fun _ t =>
      Opens buyer (slots.map fun slot => slot.2.1).sum
        (fun k => (slots.map fun slot => if slot.1.1 = k then slot.2.1 else 0).sum) s t)
      fun _ => True := by
  induction slots generalizing s with
  | nil =>
    refine .pure ?_
    rintro t rfl
    exact .of_eq rfl rfl
  | cons slot slots ih =>
    obtain ⟨⟨creditor, due⟩, amount, held, accepted⟩ := slot
    have hfirst : dust < amount := hdust ((creditor, due), amount, held, accepted) List.mem_cons_self
    refine .ok_bind fun _ t hexec => ?_
    have hopened : Opens buyer amount (fun k => if creditor = k then amount else 0) s t ∧
        t.ContractsIssued := by
      unfold openAssumed at hexec
      dsimp only at hexec
      rw [if_pos hfirst] at hexec
      have hopen := (opens_openObligation buyer creditor amount due none (some held) accepted hissued)
      have hfollows := follows_openObligation buyer creditor amount due none (some held) accepted s
      rw [Op.exec_bind] at hexec
      rcases hop : Op.exec (openObligation buyer creditor amount due none (some held) accepted) s with
        ⟨_ | id, u⟩
      · rw [hop] at hexec
        cases hexec
      · rw [hop] at hexec hfollows
        obtain ⟨-, rfl⟩ := Prod.mk.inj hexec
        exact ⟨(hopen.ok rfl hop).1, hfollows.issued hissued⟩
    refine (ih (fun slot hslot => hdust slot (List.mem_cons_of_mem _ hslot)) hopened.2).weaken
      (fun _ h => h) (fun _ u hrest => ?_) fun _ h => h
    exact hopened.1.trans hrest

/-- What was gathered, opened as a whole. -/
theorem opens_gathered (buyer : MemberId) {dust : Nat} {assumed : Assumed}
    (hdust : NoDust dust assumed) {s : State} (hissued : s.ContractsIssued) :
    Op.Triple (fun t => t = s) (assumed.toList.forM (openAssumed buyer dust)) (fun _ t =>
      Opens buyer (gathered assumed) (fun k => gatheredFor k assumed) s t) fun _ => True :=
  opens_openAssumed buyer dust
    (fun slot hslot => hdust slot.1 slot.2 (OrdMap.mem_toList.1 hslot)) hissued

/-- **Booking**, where it accepts, is opening. -/
theorem opens_book (buyer creditor : MemberId) (amount maturityEpoch : Nat) (arb : Option ArbTerms)
    {s : State} (hissued : s.ContractsIssued) :
    Op.Triple (fun t => t = s) (book buyer creditor amount maturityEpoch arb)
      (fun id t => Opens buyer amount (fun k => if creditor = k then amount else 0) s t ∧
        id = s.nextContract ∧ ∃ c, t.contracts[id]? = some c ∧ c.debtor = buyer ∧
          c.creditor = creditor ∧ c.outstanding = amount) fun _ => True := by
  unfold book
  refine .check_bind trivial fun _ _ => .ask_bind (.ok_bind fun held s₁ hexec => .ask_bind ?_)
  have hsame : s₁.members = s.members ∧ s₁.contracts = s.contracts ∧
      s₁.nextContract = s.nextContract := by
    unfold reserveIf at hexec
    split at hexec
    · obtain ⟨-, rfl⟩ := Prod.mk.inj hexec
      unfold State.reserveCapacityMinor
      split <;> exact ⟨rfl, rfl, rfl⟩
    · obtain ⟨-, rfl⟩ := Prod.mk.inj hexec
      exact ⟨rfl, rfl, rfl⟩
  have hissued₁ : s₁.ContractsIssued := by
    intro id hid
    rw [hsame.2.1]
    exact hissued id (hsame.2.2 ▸ hid)
  refine (opens_openObligation buyer creditor amount maturityEpoch arb held _ hissued₁).weaken
    (fun _ h => h) (fun id t h => ⟨?_, h.2.1.trans hsame.2.2, h.2.2⟩) fun _ h => h
  have hreserved : Opens buyer 0 (fun _ => 0) s s₁ := .of_eq hsame.1 hsame.2.1
  simpa using hreserved.trans h.1

/-! ### The sale -/

theorem known_of_requireParty {s : State} {party : Resolved} {signers : List Key}
    (h : requireParty s party signers = .ok ()) {b : MemberId} (hb : party = .existing b) :
    ∃ m, s.members[b]? = some m := by
  subst hb
  unfold requireParty at h
  dsimp only at h
  split at h
  · cases h
  · next hsigned => exact known_of_signed hsigned

/-- What a sale was checked for. -/
structure Checked (s : State) (amount : F64) (terms : SaleTerms) : Prop where
  amount : terms.amount = toMinor amount
  candidates : terms.candidates = netCandidates s terms.seller terms.buyer
  apart : terms.seller ≠ terms.buyer
  seller : ∀ a, terms.seller = .existing a → ∃ m, s.members[a]? = some m
  buyer : ∀ b, terms.buyer = .existing b → ∃ m, s.members[b]? = some m
  suspended : terms.status = .suspended →
    terms.amount ≤ nettable s terms.amount terms.candidates 0 + s.params.dustMinor

theorem checked_saleTerms {s : State} {seller buyer : Party} {amount : F64} {maturityEpochs : Nat}
    {signers : List Key} {terms : SaleTerms}
    (h : (Op.exec (saleTerms seller buyer amount maturityEpochs signers) s).1 = .ok terms) :
    Checked s amount terms := by
  obtain ⟨-, hcandidates, hseller⟩ := saleTerms_ok h
  have h := Op.Succeeds.of_ok h
  unfold saleTerms at h
  obtain ⟨a, -, h⟩ := h.of_check_bind
  obtain ⟨b, -, h⟩ := h.of_check_bind
  obtain ⟨hapart, h⟩ := h.of_refuseIf_bind
  obtain ⟨status, -, h⟩ := h.of_check_bind
  obtain ⟨-, h⟩ := h.of_refuseIf_bind
  obtain ⟨_, hparty, h⟩ := h.of_check_bind
  obtain ⟨-, h⟩ := h.of_ask_bind.of_refuseIf_bind
  obtain ⟨-, h⟩ := h.of_ask_bind.of_refuseIf_bind
  obtain ⟨-, h⟩ := h.of_refuseIf_bind
  obtain ⟨hbeyond, h⟩ := h.of_ask_bind.of_ask_bind.of_refuseIf_bind
  have hterms := h.of_pure
  subst hterms
  refine ⟨rfl, hcandidates, hapart, hseller, fun b hb => known_of_requireParty hparty hb, fun hs => ?_⟩
  by_contra hlt
  exact hbeyond ⟨hs, decide_eq_true (not_le.1 hlt)⟩

/-- Both parties have their rows, and nothing else that is owed has changed. -/
structure SaleSeated (s : State) (terms : SaleTerms) (a b : MemberId) (s₁ : State) : Prop where
  apart : a ≠ b
  params : s₁.params = s.params
  contracts : s₁.contracts = s.contracts
  debtOut : ∀ id, debtOut s₁ id = Cascade.debtOut s id
  existing : ∀ a' b', terms.seller = .existing a' → terms.buyer = .existing b' →
    a = a' ∧ b = b' ∧ s₁ = s

theorem debtOut_openRow {s : State} (hrows : s.Issued) (k : Key) (sponsor : MemberId) (held : Held)
    (id : MemberId) : debtOut (s.openRow k sponsor held) id = debtOut s id := by
  unfold debtOut
  by_cases hid : s.nextMember = id
  · subst hid
    rw [State.openRow_row, hrows _ (Nat.le_refl _)]
    rfl
  · rw [State.openRow_other _ _ _ _ hid]

theorem issued_openRow {s : State} (hrows : s.Issued) (k : Key) (sponsor : MemberId) (held : Held) :
    (s.openRow k sponsor held).Issued := by
  intro id hid
  rw [State.openRow_nextMember] at hid
  have hlt : s.nextMember < id := hid
  rw [State.openRow_other _ _ _ _ (Nat.ne_of_lt hlt)]
  exact hrows id hlt.le

theorem reserveSeat_rows {s s₁ : State} {sponsor : MemberId} {held : Held}
    (h : s.reserveSeat sponsor = (some held, s₁)) : s₁.members = s.members ∧
      s₁.nextMember = s.nextMember ∧ s₁.contracts = s.contracts ∧ s₁.params = s.params := by
  rw [State.reserveSeat_some h]
  exact ⟨rfl, rfl, rfl, rfl⟩

/-- **Seating the parties** of a sale. -/
theorem seated_seatPair {s s₁ : State} {amount : F64} {terms : SaleTerms} {sponsor : Option MemberId}
    {a b : MemberId} (hrows : s.Issued) (hchecked : Checked s amount terms)
    (h : Op.exec (seatPair terms.seller terms.buyer sponsor) s = (.ok (a, b), s₁)) :
    SaleSeated s terms a b s₁ := by
  have hissued : ∀ {s₁ : State} {p : MemberId} {held : Held},
      s.reserveSeat p = (some held, s₁) → s₁.Issued := by
    intro s₁ p held hres id hid
    obtain ⟨hm, hn, -⟩ := reserveSeat_rows hres
    rw [hm]
    exact hrows id (hn ▸ hid)
  -- A row that is there is not the next one.
  have hknown : ∀ {id : MemberId}, (∃ m, s.members[id]? = some m) → id ≠ s.nextMember := by
    rintro id ⟨m, hm⟩ rfl
    rw [hrows _ (Nat.le_refl _)] at hm
    cases hm
  have hsame : ∀ {s₁ : State} {p : MemberId} {held : Held}, s.reserveSeat p = (some held, s₁) →
      ∀ id, debtOut s₁ id = debtOut s id := by
    intro s₁ p held hres id
    unfold debtOut
    rw [(reserveSeat_rows hres).1]
  cases hs : terms.seller with
  | existing a' =>
    cases hb : terms.buyer with
    | existing b' =>
      rw [hs, hb, exec_seatPair_existing] at h
      obtain ⟨hids, rfl⟩ := Prod.mk.inj h
      obtain ⟨rfl, rfl⟩ := Prod.mk.inj (Except.ok.inj hids)
      refine ⟨fun heq => hchecked.apart ?_, rfl, rfl, fun _ => rfl, fun a' b' ha hb' => ?_⟩
      · rw [hs, hb, heq]
      · rw [hs] at ha
        rw [hb] at hb'
        exact ⟨Resolved.existing.inj ha, Resolved.existing.inj hb', rfl⟩
    | fresh k =>
      rw [hs, hb] at h
      cases sponsor with
      | none =>
        rw [exec_seatPair_noSponsor (.inr rfl)] at h
        cases h
      | some sponsor =>
        rw [exec_seatPair_second] at h
        rcases hres : s.reserveSeat sponsor with ⟨_ | held, t⟩ <;> rw [hres] at h
        · cases h
        obtain ⟨hids, rfl⟩ := Prod.mk.inj h
        obtain ⟨rfl, rfl⟩ := Prod.mk.inj (Except.ok.inj hids)
        obtain ⟨-, hn, hc, hp⟩ := reserveSeat_rows hres
        refine ⟨?_, hp, hc, fun id => ?_, fun _ _ _ hb' => ?_⟩
        · rw [hn]
          exact hknown (hchecked.seller _ hs)
        · rw [debtOut_openRow (hissued hres), hsame hres]
        · rw [hb] at hb'
          cases hb'
  | fresh k =>
    cases hb : terms.buyer with
    | existing b' =>
      rw [hs, hb] at h
      cases sponsor with
      | none =>
        rw [exec_seatPair_noSponsor (.inl rfl)] at h
        cases h
      | some sponsor =>
        rw [exec_seatPair_first] at h
        rcases hres : s.reserveSeat sponsor with ⟨_ | held, t⟩ <;> rw [hres] at h
        · cases h
        obtain ⟨hids, rfl⟩ := Prod.mk.inj h
        obtain ⟨rfl, rfl⟩ := Prod.mk.inj (Except.ok.inj hids)
        obtain ⟨-, hn, hc, hp⟩ := reserveSeat_rows hres
        refine ⟨?_, hp, hc, fun id => ?_, fun _ _ hs' _ => ?_⟩
        · rw [hn]
          exact (hknown (hchecked.buyer _ hb)).symm
        · rw [debtOut_openRow (hissued hres), hsame hres]
        · rw [hs] at hs'
          cases hs'
    | fresh k' =>
      rw [hs, hb] at h
      cases sponsor with
      | none =>
        rw [exec_seatPair_noSponsor (.inl rfl)] at h
        cases h
      | some sponsor =>
        rw [exec_seatPair_both] at h
        rcases hres : s.reserveSeat sponsor with ⟨_ | held, t⟩ <;> rw [hres] at h
        · cases h
        dsimp only at h
        rcases hres' : t.reserveSeat sponsor with ⟨_ | held', u⟩ <;> rw [hres'] at h
        · cases h
        obtain ⟨hids, rfl⟩ := Prod.mk.inj h
        obtain ⟨rfl, rfl⟩ := Prod.mk.inj (Except.ok.inj hids)
        obtain ⟨-, hn, hc, hp⟩ := reserveSeat_rows hres
        obtain ⟨hm', hn', hc', hp'⟩ := reserveSeat_rows hres'
        have hissued' : u.Issued := by
          intro id hid
          rw [hm']
          exact hissued hres id (hn' ▸ hid)
        have hsame' : ∀ id, debtOut u id = debtOut s id := by
          intro id
          rw [← hsame hres id]
          unfold debtOut
          rw [hm']
        refine ⟨Nat.ne_of_lt (Nat.lt_succ_self _), hp'.trans hp, hc'.trans hc, fun id => ?_,
          fun _ _ hs' _ => ?_⟩
        · rw [debtOut_openRow (issued_openRow hissued' _ _ _), debtOut_openRow hissued', hsame']
        · rw [hs] at hs'
          cases hs'

theorem mutual_candidates {s s₁ : State} {amount : F64} {terms : SaleTerms} {a b : MemberId}
    (hchecked : Checked s amount terms) (hseated : SaleSeated s terms a b s₁) :
    Mutual a b terms.candidates s₁ := by
  intro id hid
  rw [hchecked.candidates] at hid
  unfold netCandidates at hid
  split at hid
  · next a' b' hs hb =>
    obtain ⟨rfl, rfl, rfl⟩ := hseated.existing a' b' hs hb
    obtain ⟨p, hp, rfl⟩ := List.mem_map.1 hid
    rw [List.mem_filter, OrdMap.mem_toList] at hp
    have hdebt := of_decide_eq_true hp.2
    exact ⟨p.2, hp.1, hdebt.2.1, hdebt.2.2.1⟩
  · cases hid

/-- A sale nets what it announced. -/
theorem netted_eq {s s₁ s₂ : State} {amount : F64} {terms : SaleTerms} {a b : MemberId} {netted : Nat}
    (hchecked : Checked s amount terms) (hseated : SaleSeated s terms a b s₁)
    (h : Op.exec (netMutual terms.amount terms.candidates 0) s₁ = (.ok netted, s₂)) :
    netted = nettable s terms.amount terms.candidates 0 := by
  cases hs : terms.seller with
  | existing a' =>
    cases hb : terms.buyer with
    | existing b' =>
      obtain ⟨-, -, rfl⟩ := hseated.existing a' b' hs hb
      obtain ⟨m, hm⟩ := hchecked.seller a' hs
      have hcandidates := hchecked.candidates
      rw [hs, hb] at hcandidates
      rw [hcandidates] at h ⊢
      exact ((succeeds_netMutual _ (netCandidates_nodup _ _ _) (netCandidates_owed hm) _).ok h).2
    | fresh k =>
      have hnone : terms.candidates = [] := by
        rw [hchecked.candidates, hs, hb]
        rfl
      rw [hnone] at h ⊢
      exact (Except.ok.inj (Prod.mk.inj h).1).symm
  | fresh k =>
    have hnone : terms.candidates = [] := by
      rw [hchecked.candidates, hs]
      rfl
    rw [hnone] at h ⊢
    exact (Except.ok.inj (Prod.mk.inj h).1).symm

/-- A debt of `amount` that the buyer owes the seller is booked since the contract ids were at
`next`, unless there was none to book. -/
def BookedDebt (a b : MemberId) (amount next : Nat) (s : State) : Prop :=
  amount = 0 ∨ ∃ (id : ContractId) (c : Contract), next ≤ id ∧ s.contracts[id]? = some c ∧
    c.debtor = b ∧ c.creditor = a ∧ c.outstanding = amount

/-- **Originating**, where it accepts: what is taken over and what is booked is the budget but for
dust. -/
theorem opens_originate {a b : MemberId} (hne : a ≠ b) (budget saleMaturity : Nat) {s : State}
    (hissued : s.ContractsIssued) :
    Op.Triple (fun t => t = s) (originate a b budget saleMaturity) (fun _ t =>
      ∃ ds assumed s₁ opened, TakenOver a b budget saleMaturity ds s assumed s₁ ∧
        Op.exec (takeOver a b budget saleMaturity) s = (.ok (drained ds, assumed), s₁) ∧
        Opens b (drained ds + opened) (fun k => gatheredFor k assumed + if a = k then opened else 0)
          s₁ t ∧
        drained ds + opened ≤ budget ∧ budget ≤ drained ds + opened + s.params.dustMinor ∧
        BookedDebt a b opened s.nextContract t) fun _ => True := by
  unfold originate
  refine .ask_bind (.ok_bind fun taken s₁ htake => ?_)
  obtain ⟨spent, assumed⟩ := taken
  obtain ⟨ds, htaken, hspent⟩ := (takenOver_takeOver hne budget saleMaturity s).ok rfl htake
  dsimp only at hspent htaken
  subst hspent
  have hfollows₁ := follows_takeOver a b budget saleMaturity s
  rw [htake] at hfollows₁
  obtain ⟨⟨_, -, -, hdust⟩, hgathered⟩ := htaken.drains.cleared
  have hdust := hdust fun k slot hslot => by simp at hslot
  refine .ok_bind fun _ s₂ hopen => ?_
  have hopens := (opens_gathered b hdust (hfollows₁.issued hissued)).ok rfl hopen
  have hfollows₂ : Follows s₁ s₂ := by
    have h : CarriesOn (assumed.toList.forM (openAssumed b s.params.dustMinor)) :=
      .forM fun slot _ => follows_openAssumed b _ slot
    have := h s₁
    rwa [hopen] at this
  have hgathered : gathered assumed = drained ds := by
    rw [hgathered]
    simp [gathered]
  rw [hgathered] at hopens
  have hwithin := htaken.within
  refine .ite (fun hleft => .ok_bind fun id s₃ hbook => .pure ?_) fun hleft => .pure ?_
  · rintro t rfl
    obtain ⟨hbooked, rfl, c, hc⟩ := (opens_book b a (budget - drained ds) saleMaturity none
      (hfollows₂.issued (hfollows₁.issued hissued))).ok rfl hbook
    refine ⟨ds, assumed, s₁, budget - drained ds, htaken, htake, hopens.trans hbooked, ?_, ?_,
      .inr ⟨_, c, hfollows₁.next.trans hfollows₂.next, hc⟩⟩
    · omega
    · omega
  · rintro t rfl
    refine ⟨ds, assumed, s₁, 0, htaken, htake, ?_, ?_, ?_, .inl rfl⟩
    · simpa using hopens
    · omega
    · omega

/-- How a sale of `amount` by `a` to `b` closes: `netted` between the two, `ds` drained along the
seller's listings, `opened` as the buyer's own debt. -/
structure Closes (amount : Nat) (a b : MemberId) (netted : Nat) (ds : List Drain) (opened : Nat)
    (s s' : State) : Prop where
  /-- It all adds up to the amount, but for a remainder that is dust. -/
  adds : ∃ dropped ≤ s.params.dustMinor, netted + drained ds + opened + dropped = amount
  /-- The buyer owes as much more, by its row and by its contracts. -/
  debtOut : debtOut s' b = Cascade.debtOut s b + (drained ds + opened)
  debts : s'.owed Contract.debtor b = s.owed Contract.debtor b + (drained ds + opened)
  booked : BookedDebt a b opened s.nextContract s'
  /-- What is netted or taken over of a creditor's claims is no more than they are lowered by. -/
  claims : ∀ k, s'.owed Contract.creditor k + (if b = k then netted else 0) ≤
    s.owed Contract.creditor k + if a = k then opened else 0
  /-- Each member is drained once, within its share, and nobody else is. -/
  once : (ds.map Drain.member).Nodup
  spared : b ∉ ds.map Drain.member
  share : ∀ d ∈ ds, d.cleared ≤ d.share
  others : ∀ m ∉ ds.map Drain.member, m ≠ a → m ≠ b →
    s'.owed Contract.debtor m = s.owed Contract.debtor m ∧
      Cascade.debtOut s' m = Cascade.debtOut s m

/-- The phases of a sale that was accepted: its terms, the rows of its parties, what netting took
and, unless the seller is suspended, how the rest was taken over. -/
def Phases (seller buyer : Party) (amount : F64) (maturityEpochs : Nat) (signers : List Key)
    (sponsor : Option MemberId) (s : State) (a b : MemberId) (netted : Nat) (ds : List Drain) : Prop :=
  ∃ terms s₁ s₂ s₃ assumed,
    Op.exec (saleTerms seller buyer amount maturityEpochs signers) s = (.ok terms, s) ∧
    Op.exec (seatPair terms.seller terms.buyer sponsor) s = (.ok (a, b), s₁) ∧
    Op.exec (netMutual (toMinor amount) terms.candidates 0) s₁ = (.ok netted, s₂) ∧
    (terms.status = .suspended → ds = [] ∧ s₃ = s₂) ∧
    (terms.status ≠ .suspended →
      TakesOver a b (toMinor amount - netted) (horizon s₂.epoch maturityEpochs) ds s₂ assumed s₃ ∧
      Op.exec (takeOver a b (toMinor amount - netted) (horizon s₂.epoch maturityEpochs)) s₂ =
        (.ok (drained ds, assumed), s₃))

theorem debtOut_of_eased {ms : List MemberId} {gain : MemberId → Nat} {s t : State}
    (h : Eased ms gain s t) {m : MemberId} (hm : m ∉ ms) : debtOut t m = debtOut s m := by
  unfold debtOut
  rw [h.rows m hm]

theorem owed_of_contracts {s t : State} (h : t.contracts = s.contracts)
    (who : Contract → MemberId) (m : MemberId) : t.owed who m = s.owed who m := by
  unfold State.owed
  rw [h]

/-- The phases of a sale, put together. -/
theorem closes_of_phases {s s₁ s₂ s₃ s' : State} {terms : SaleTerms} {a b : MemberId}
    {amount netted budget saleMaturity opened : Nat} {ds : List Drain} {assumed : Assumed}
    (hseated : SaleSeated s terms a b s₁)
    (heased : Eased [a] (fun k => if b = k then netted else 0) s₁ s₂)
    (htaken : TakenOver a b budget saleMaturity ds s₂ assumed s₃)
    (hopens : Opens b (drained ds + opened)
      (fun k => gatheredFor k assumed + if a = k then opened else 0) s₃ s')
    (hbooked : BookedDebt a b opened s.nextContract s')
    (hadds : ∃ dropped ≤ s.params.dustMinor, netted + drained ds + opened + dropped = amount) :
    Closes amount a b netted ds opened s s' := by
  obtain ⟨⟨gain, hcleared, hgain, -⟩, -⟩ := htaken.drains.cleared
  have hba : b ∉ [a] := by simpa using hseated.apart.symm
  -- What nobody but the drained and the seller is written stays through both phases.
  have hdebts : ∀ m ∉ ds.map Drain.member, m ∉ [a] →
      s₃.owed Contract.debtor m = s.owed Contract.debtor m ∧ debtOut s₃ m = debtOut s m := by
    intro m hm ha
    constructor
    · calc
        s₃.owed Contract.debtor m = s₂.owed Contract.debtor m := hcleared.debts m hm
        _ = s₁.owed Contract.debtor m := heased.debts m ha
        _ = s.owed Contract.debtor m := owed_of_contracts hseated.contracts _ _
    · calc
        debtOut s₃ m = debtOut s₂ m := debtOut_of_eased hcleared hm
        _ = debtOut s₁ m := debtOut_of_eased heased ha
        _ = debtOut s m := hseated.debtOut m
  obtain ⟨hdebtb, houtb⟩ := hdebts b htaken.spared hba
  refine ⟨hadds, ?_, ?_, hbooked, fun k => ?_, htaken.once, htaken.spared, htaken.share,
    fun m hm ha hb => ?_⟩
  · rw [hopens.debtOut, houtb, if_pos rfl]
  · rw [hopens.debts, hdebtb, if_pos rfl]
  · have hopened := hopens.claims k
    have htook := hcleared.claims k
    have hnetted := heased.claims k
    have hgathered := hgain k
    rw [owed_of_contracts hseated.contracts] at hnetted
    simp only [gatheredFor, OrdMap.total_empty, Nat.zero_add] at hgathered
    unfold gatheredFor at hopened
    omega
  · obtain ⟨hdebt, hout⟩ := hdebts m hm (by simpa using ha)
    refine ⟨?_, ?_⟩
    · rw [hopens.debts, hdebt, if_neg (Ne.symm hb), Nat.add_zero]
    · rw [hopens.debtOut, hout, if_neg (Ne.symm hb), Nat.add_zero]

/-- **The arithmetic of a sale closes**, whatever the listings are: what was netted, what was taken
over at every depth and what the buyer newly owes the seller add up to the amount. -/
theorem sale_closes {s s' : State} (hissued : s.ContractsIssued) (hrows : s.Issued)
    {seller buyer : Party} {amount : F64} {maturityEpochs : Nat} {signers : List Key}
    {sponsor : Option MemberId}
    (h : Op.exec (sale seller buyer amount maturityEpochs signers sponsor) s = (.ok (), s')) :
    ∃ a b netted ds opened,
      Phases seller buyer amount maturityEpochs signers sponsor s a b netted ds ∧
        Closes (toMinor amount) a b netted ds opened s s' := by
  suffices htriple : Op.Triple (fun t => t = s)
      (sale seller buyer amount maturityEpochs signers sponsor) (fun _ t =>
        ∃ a b netted ds opened,
          Phases seller buyer amount maturityEpochs signers sponsor s a b netted ds ∧
            Closes (toMinor amount) a b netted ds opened s t) fun _ => True from htriple.ok rfl h
  unfold sale
  refine .ok_bind fun terms t hterms => ?_
  obtain rfl : s = t := by
    have hquiet := quiet_saleTerms seller buyer amount maturityEpochs signers s
    rw [hterms] at hquiet
    exact hquiet.symm
  have hchecked : Checked s amount terms := checked_saleTerms (by rw [hterms])
  refine .ok_bind fun rows s₁ hseat => ?_
  obtain ⟨a, b⟩ := rows
  have hseated := seated_seatPair hrows hchecked hseat
  have hseats := follows_seatPair terms.seller terms.buyer sponsor s
  rw [hseat] at hseats
  refine .ok_bind fun netted s₂ hnet => ?_
  obtain ⟨-, hle, heased⟩ := (eased_netMutual terms.amount (mutual_candidates hchecked hseated)
    (Nat.zero_le _)).ok rfl hnet
  have hnets := follows_netMutual terms.amount terms.candidates 0 s₁
  rw [hnet] at hnets
  have hparams : s₂.params = s.params := heased.params.trans hseated.params
  have hnext : s.nextContract ≤ s₂.nextContract := hseats.next.trans hnets.next
  have hamount := hchecked.amount
  refine .ite (fun hsuspended => .pure ?_) fun hactive => .ask_bind ?_
  · rintro t rfl
    have hnetted := netted_eq hchecked hseated hnet
    have hbeyond := hchecked.suspended hsuspended
    rw [hamount] at hnet hle hnetted hbeyond
    refine ⟨a, b, netted, [], 0, ⟨terms, s₁, t, t, ∅, hterms, hseat, hnet, fun _ => ⟨rfl, rfl⟩,
      fun hne => absurd hsuspended hne⟩, ?_⟩
    have hnone : TakenOver a b 0 0 [] t ∅ t := takenOver_nil (Nat.zero_le _)
    refine closes_of_phases hseated heased hnone ?_ (.inl rfl) ?_
    · have hsame : Opens b 0 (fun _ => 0) t t := .of_eq rfl rfl
      simpa [drained, gatheredFor] using hsame
    · refine ⟨toMinor amount - netted, by omega, ?_⟩
      simp only [drained, List.map_nil, List.sum_nil]
      omega
  · refine (opens_originate hseated.apart _ _ (hnets.issued (hseats.issued hissued))).weaken
      (fun _ h => h) (fun _ t horiginated => ?_) fun _ h => h
    obtain ⟨ds, assumed, s₃, opened, htaken, htake, hopens, hwithin, hdropped, hbooked⟩ := horiginated
    rw [hamount] at hnet hle htake hwithin hdropped
    refine ⟨a, b, netted, ds, opened, ⟨terms, s₁, s₂, s₃, assumed, hterms, hseat, hnet,
      fun hsuspended => absurd hsuspended hactive, fun _ => ⟨hamount ▸ htaken.takes, htake⟩⟩, ?_⟩
    refine closes_of_phases hseated heased htaken hopens ?_ ?_
    · rcases hbooked with hnone | ⟨id, c, hid, hc⟩
      · exact .inl hnone
      · exact .inr ⟨id, c, hnext.trans hid, hc⟩
    · rw [hparams] at hdropped
      exact ⟨toMinor amount - netted - (drained ds + opened), by omega, by omega⟩

end Cascade

/-! ### A debt taken over -/

/-- The first founder stakes on the other two, which have repaid it, and the second owes it again. -/
def soldEvents : List Event :=
  [.transaction (.accept (.member 1) (.member 0) (F64.ofNat 100) 30 none) 0 0
      [founderKey 0, founderKey 1] 10,
    .transaction (.settle 0 (F64.ofNat 100)) 1 0 [founderKey 0, founderKey 1] 10,
    .transaction (.accept (.member 2) (.member 0) (F64.ofNat 100) 30 none) 2 0
      [founderKey 0, founderKey 2] 10,
    .transaction (.settle 1 (F64.ofNat 100)) 3 0 [founderKey 0, founderKey 2] 10,
    .transaction (.accept (.member 1) (.member 0) (F64.ofNat 100) 30 none) 4 0
      [founderKey 0, founderKey 1] 10]

def soldLedger : State :=
  letI := Libm.unused
  Event.run soldEvents (devGenesis [2000, 0, 0]).state

/-- The second founder sells to the third, which takes over its debt. -/
theorem sale_closes_founders :
    ∃ s', Op.exec (Cascade.sale (.member 1) (.member 2) (F64.ofNat 80) 30
        [founderKey 1, founderKey 2] none) soldLedger = (.ok (), s') ∧
      ∃ a b netted ds opened,
        Cascade.Phases (.member 1) (.member 2) (F64.ofNat 80) 30 [founderKey 1, founderKey 2] none
          soldLedger a b netted ds ∧
        Cascade.Closes (toMinor (F64.ofNat 80)) a b netted ds opened soldLedger s' := by
  have hfounding : Founding (devGenesis [2000, 0, 0]).state :=
    Genesis.founding_state (by decide +kernel)
  have hissued : soldLedger.ContractsIssued := by
    unfold soldLedger
    exact @contractsIssued_run Libm.unused _ hfounding soldEvents
  have hrows : soldLedger.Issued := by
    obtain ⟨g, hg⟩ := hfounding
    unfold soldLedger Event.run
    exact @issued_run Libm.unused soldEvents _ (issued_of_genesis hg)
  have hok : (Op.exec (Cascade.sale (.member 1) (.member 2) (F64.ofNat 80) 30
      [founderKey 1, founderKey 2] none) soldLedger).1 = .ok () := by decide +kernel
  obtain ⟨_, s', hexec, -⟩ := Op.Succeeds.of_ok hok
  exact ⟨s', hexec, Cascade.sale_closes hissued hrows hexec⟩

end Edet
