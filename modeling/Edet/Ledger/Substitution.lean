import Edet.Ledger.Backing
import Edet.Ledger.Conservative

/-!
# Substitution leaves everyone as well off

When an insured debt defaults, the underwriters behind its hold take the creditor's place:
each gets a claim on the debtor and owes the creditor as much (`substitute`). What was booked
after some of these claims and legs is in `Booked`, a step lemma for each of the two; the debt
itself becomes the first underwriter's claim.

A share's claim and its leg balance, and the shares make up the debt, so the default moves no
member's position, nor what the creditor is owed, nor the debtor's debt, and no reservation
(`neutral_markExpired`). The pieces of the hold make up the hold.
-/

namespace Edet

open Edet.Flow

namespace Apply

variable {s t : State} {c : Contract} {who : Contract → MemberId} {member : MemberId}

/-! ### What is owed, as contracts are written -/

/-- What a contract adds to what is owed. -/
def owing (who : Contract → MemberId) (member : MemberId) (c : Contract) : Nat :=
  if who c = member then c.outstanding else 0

theorem owed_opened {s' : State} {id : ContractId} (hfree : s.contracts[id]? = none)
    (hcontracts : s'.contracts = s.contracts.insert id c) :
    s'.owed who member = s.owed who member + owing who member c := by
  unfold State.owed
  rw [hcontracts]
  exact OrdMap.total_insert_of_none hfree c

theorem owed_modContract {id : ContractId} {f : Contract → Contract}
    (hc : s.contracts[id]? = some c) :
    (s.modContract id f).owed who member + owing who member c =
      s.owed who member + owing who member (f c) := by
  unfold State.owed State.modContract
  rw [OrdMap.modify_of_some hc]
  exact OrdMap.total_insert_of_some hc (f c)

/-! ### Claims and legs -/

/-- The amounts of shares together. -/
def amounts (l : List Share) : Nat := (l.map Share.amount).sum

/-- What of it is one underwriter's. -/
def amountsOf (l : List Share) (u : MemberId) : Nat :=
  (l.map fun sh => if sh.underwriter = u then sh.amount else 0).sum

@[simp] theorem amounts_append (l l' : List Share) : amounts (l ++ l') = amounts l + amounts l' := by
  simp [amounts]

@[simp] theorem amountsOf_append (l l' : List Share) (u : MemberId) :
    amountsOf (l ++ l') u = amountsOf l u + amountsOf l' u := by
  simp [amountsOf]

/-- The underwriter's claim on the debtor is there, with its piece of the hold. -/
def ClaimStands (c : Contract) (t : State) (sh : Share) : Prop :=
  ∃ (id : ContractId) (c' : Contract), t.contracts[id]? = some c' ∧ c'.debtor = c.debtor ∧
    c'.creditor = sh.underwriter ∧ c'.outstanding = sh.amount ∧ c'.held = sh.held

/-- What the underwriter owes the creditor in the debtor's place is there. -/
def LegStands (c : Contract) (t : State) (sh : Share) : Prop :=
  ∃ (id : ContractId) (c' : Contract), t.contracts[id]? = some c' ∧ c'.debtor = sh.underwriter ∧
    c'.creditor = c.creditor ∧ c'.outstanding = sh.amount

/-- Between `s` and `t` the underwriters of `claims` got their claims, and those of `legs` their
debts. -/
structure Booked (c : Contract) (claims legs : List Share) (s t : State) : Prop where
  kept : ∀ (id : ContractId) (c' : Contract), s.contracts[id]? = some c' →
    t.contracts[id]? = some c'
  issued : t.ContractsIssued
  reserved : t.reserved = s.reserved
  committed : t.committed = s.committed
  creditors : ∀ m, t.owed Contract.creditor m = s.owed Contract.creditor m + amountsOf claims m +
    if c.creditor = m then amounts legs else 0
  debtors : ∀ m, t.owed Contract.debtor m = s.owed Contract.debtor m + amountsOf legs m +
    if c.debtor = m then amounts claims else 0
  rows : ∀ (m : MemberId) (row : Member), s.members[m]? = some row →
    ∃ row', t.members[m]? = some row' ∧ row'.debtOut = row.debtOut + amountsOf legs m
  claimed : ∀ sh ∈ claims, ClaimStands c t sh
  owes : ∀ sh ∈ legs, sh.amount ≠ 0 → LegStands c t sh

namespace Booked

variable {claims legs : List Share} {sh : Share}

theorem refl (hissued : s.ContractsIssued) : Booked c [] [] s s where
  kept _ _ h := h
  issued := hissued
  reserved := rfl
  committed := rfl
  creditors m := by simp [amountsOf, amounts]
  debtors m := by simp [amountsOf, amounts]
  rows m row h := ⟨row, h, by simp [amountsOf]⟩
  claimed := by simp
  owes := by simp

/-- A contract opened at the next id leaves the others as they are. -/
theorem kept_insert {c₁ : Contract} (h : t.ContractsIssued) {id : ContractId} {c' : Contract}
    (hc' : t.contracts[id]? = some c') :
    (t.contracts.insert t.nextContract c₁)[id]? = some c' := by
  have hne : t.nextContract ≠ id := by
    rintro rfl
    rw [h _ (Nat.le_refl _)] at hc'
    cases hc'
  rw [Std.ExtTreeMap.getElem?_insert]
  simpa [hne] using hc'

theorem issued_insert {c₁ : Contract} {u : State} (h : t.ContractsIssued)
    (hcontracts : u.contracts = t.contracts.insert t.nextContract c₁)
    (hnext : u.nextContract = t.nextContract + 1) : u.ContractsIssued := by
  intro id hid
  rw [hnext] at hid
  have hne : t.nextContract ≠ id := Nat.ne_of_lt hid
  rw [hcontracts, Std.ExtTreeMap.getElem?_insert]
  simpa [hne] using h id (Nat.le_of_succ_le hid)

theorem get_insert {c₁ : Contract} {u : State}
    (hcontracts : u.contracts = t.contracts.insert t.nextContract c₁) :
    u.contracts[t.nextContract]? = some c₁ := by
  rw [hcontracts]
  simp


/-- The claim of one more underwriter. -/
theorem claim (h : Booked c claims legs s t) (sh : Share) :
    Booked c (claims ++ [sh]) legs s (subrogatedClaim c sh.underwriter sh.amount sh.held t) := by
  set u := subrogatedClaim c sh.underwriter sh.amount sh.held t with hu
  obtain ⟨c₁, hcontracts, hdebtor, hcreditor, houtstanding, hheld⟩ : ∃ c₁ : Contract,
      u.contracts = t.contracts.insert t.nextContract c₁ ∧ c₁.debtor = c.debtor ∧
        c₁.creditor = sh.underwriter ∧ c₁.outstanding = sh.amount ∧ c₁.held = sh.held :=
    ⟨_, rfl, rfl, rfl, rfl, rfl⟩
  have hfree : t.contracts[t.nextContract]? = none := h.issued _ (Nat.le_refl _)
  have hkept : ∀ (id : ContractId) (c' : Contract), t.contracts[id]? = some c' →
      u.contracts[id]? = some c' := fun id c' hc' => hcontracts ▸ kept_insert h.issued hc'
  refine ⟨fun id c' hc' => hkept id c' (h.kept id c' hc'), issued_insert h.issued hcontracts rfl,
    h.reserved, h.committed, fun m => ?_, fun m => ?_, h.rows, ?_, ?_⟩
  · rw [owed_opened hfree hcontracts, h.creditors m, owing, hcreditor, houtstanding]
    simp only [amountsOf_append]
    simp only [amountsOf, List.map_cons, List.map_nil, List.sum_cons, List.sum_nil]
    omega
  · rw [owed_opened hfree hcontracts, h.debtors m, owing, hdebtor, houtstanding]
    simp only [amounts_append]
    simp only [amounts, List.map_cons, List.map_nil, List.sum_cons, List.sum_nil]
    split
    · omega
    · omega
  · intro sh' hsh'
    rcases List.mem_append.1 hsh' with hold | hnew
    · obtain ⟨id, c', hc', hrest⟩ := h.claimed sh' hold
      exact ⟨id, c', hkept id c' hc', hrest⟩
    · obtain rfl := List.mem_singleton.1 hnew
      exact ⟨_, c₁, get_insert hcontracts, hdebtor, hcreditor, houtstanding, hheld⟩
  · intro sh' hsh' hne
    obtain ⟨id, c', hc', hrest⟩ := h.owes sh' hsh' hne
    exact ⟨id, c', hkept id c' hc', hrest⟩

/-- The debt of one more underwriter. -/
theorem leg (h : Booked c claims legs s t) {sh : Share} {row : Member} {debtOut : Nat}
    {f : Member → Member} {u : State} {c₁ : Contract}
    (hrow : t.members[sh.underwriter]? = some row) (hdebtOut : debtOut = row.debtOut + sh.amount)
    (hcontracts : u.contracts = t.contracts.insert t.nextContract c₁)
    (hmembers : u.members = t.members.modify sh.underwriter f)
    (hf : ∀ m, (f m).debtOut = debtOut) (hdebtor : c₁.debtor = sh.underwriter)
    (hcreditor : c₁.creditor = c.creditor) (houtstanding : c₁.outstanding = sh.amount)
    (hnext : u.nextContract = t.nextContract + 1) (hreserved : u.reserved = t.reserved)
    (hcommitted : u.committed = t.committed) :
    Booked c claims (legs ++ [sh]) s u := by
  have hfree : t.contracts[t.nextContract]? = none := h.issued _ (Nat.le_refl _)
  have hkept : ∀ (id : ContractId) (c' : Contract), t.contracts[id]? = some c' →
      u.contracts[id]? = some c' := fun id c' hc' => hcontracts ▸ kept_insert h.issued hc'
  refine ⟨fun id c' hc' => hkept id c' (h.kept id c' hc'), issued_insert h.issued hcontracts hnext,
    hreserved.trans h.reserved, hcommitted.trans h.committed, fun m => ?_, fun m => ?_,
    fun m r hr => ?_, ?_, ?_⟩
  · rw [owed_opened hfree hcontracts, h.creditors m, owing, hcreditor, houtstanding]
    simp only [amounts_append]
    simp only [amounts, List.map_cons, List.map_nil, List.sum_cons, List.sum_nil]
    split
    · omega
    · omega
  · rw [owed_opened hfree hcontracts, h.debtors m, owing, hdebtor, houtstanding]
    simp only [amountsOf_append]
    simp only [amountsOf, List.map_cons, List.map_nil, List.sum_cons, List.sum_nil]
    omega
  · obtain ⟨r', hr', hsum⟩ := h.rows m r hr
    refine ⟨if sh.underwriter = m then f r' else r', ?_, ?_⟩
    · rw [hmembers, OrdMap.getElem?_modify_map, hr']
      rfl
    · by_cases heq : sh.underwriter = m
      · subst heq
        rw [hr'] at hrow
        cases hrow
        rw [if_pos rfl, hf, hdebtOut, hsum]
        simp [amountsOf, Nat.add_assoc]
      · rw [if_neg heq, hsum]
        simp [amountsOf, heq]
  · intro sh' hsh'
    obtain ⟨id, c', hc', hrest⟩ := h.claimed sh' hsh'
    exact ⟨id, c', hkept id c' hc', hrest⟩
  · intro sh' hsh' hne
    rcases List.mem_append.1 hsh' with hold | hnew
    · obtain ⟨id, c', hc', hrest⟩ := h.owes sh' hold hne
      exact ⟨id, c', hkept id c' hc', hrest⟩
    · obtain rfl := List.mem_singleton.1 hnew
      exact ⟨_, c₁, get_insert hcontracts, hdebtor, hcreditor, houtstanding⟩

/-- A share of nothing needs no leg. -/
theorem leg_zero (h : Booked c claims legs s t) (hzero : sh.amount = 0) :
    Booked c claims (legs ++ [sh]) s t := by
  refine { h with creditors := fun m => ?_, debtors := fun m => ?_, rows := fun m row hrow => ?_,
                  owes := fun sh' hsh' hne => ?_ }
  · rw [h.creditors m]
    simp [amounts, hzero]
  · rw [h.debtors m]
    simp [amountsOf, hzero]
  · obtain ⟨row', hrow', hsum⟩ := h.rows m row hrow
    exact ⟨row', hrow', by rw [hsum]; simp [amountsOf, hzero]⟩
  · rcases List.mem_append.1 hsh' with hold | hnew
    · exact h.owes sh' hold hne
    · obtain rfl := List.mem_singleton.1 hnew
      exact absurd hzero hne

end Booked

/-- The shares that need a leg. -/
def legsOf (c : Contract) (l : List Share) : List Share :=
  l.filter fun sh => decide (sh.underwriter ≠ c.creditor)

/-- **One leg is booked**, or needed by nobody. -/
theorem booked_substituteLeg {claims legs : List Share} (sh : Share) (maturityEpoch : Nat) :
    Op.Triple (Booked c claims legs s) (substituteLeg c maturityEpoch sh)
      (fun _ => Booked c claims (legs ++ legsOf c [sh]) s) fun _ => True := by
  unfold substituteLeg
  refine .ite (fun hother => ?_) fun hsame => .pure fun t ht => ?_
  · have hlegs : legsOf c [sh] = [sh] := by simp [legsOf, hother]
    rw [hlegs]
    unfold substitutionLeg
    refine .ite (fun hzero => .pure fun t ht => ht.leg_zero hzero) fun hne => ?_
    refine .bind (Q := fun debtOut t => Booked c claims legs s t ∧
      ∃ row, t.members[sh.underwriter]? = some row ∧ debtOut = row.debtOut + sh.amount)
      (.check (fun t debtOut ht hok => ⟨ht, ?_⟩) fun _ _ => trivial) fun debtOut => ?_
    · unfold debtAfter at hok
      cases hrow : findMember t sh.underwriter with
      | error e =>
        rw [hrow] at hok
        cases hok
      | ok row =>
        rw [hrow] at hok
        dsimp only at hok
        split at hok
        · cases hok
          exact ⟨row, findMember_eq_ok.1 hrow, rfl⟩
        · cases hok
    · rintro t ⟨ht, row, hrow, hdebtOut⟩
      -- the row is still there when the debt is written to it
      have hmember : ∀ (w : State) (f : Member → Member), w.members = t.members →
          Op.exec (memberMut sh.underwriter f) w = (.ok (), w.modMember sh.underwriter f) :=
        fun w f hw => exec_memberMut (by rw [hw]; exact hrow) f
      rw [Op.exec_bind, Op.exec_write]
      dsimp only
      rw [hmember]
      · exact ht.leg hrow hdebtOut rfl rfl (fun _ => rfl) rfl rfl rfl rfl rfl rfl
      · rfl
  · have hlegs : legsOf c [sh] = [] := by simpa [legsOf] using hsame
    rw [hlegs, List.append_nil]
    exact ht

/-- The underwriters after the first are booked one by one. -/
theorem booked_rest {claims legs : List Share} (rest : List Share) (maturityEpoch : Nat) :
    Op.Triple (Booked c claims legs s)
      (rest.forM fun share => do
        Op.write (subrogatedClaim c share.underwriter share.amount share.held)
        substituteLeg c maturityEpoch share)
      (fun _ => Booked c (claims ++ rest) (legs ++ legsOf c rest) s) fun _ => True := by
  induction rest generalizing claims legs with
  | nil => exact .pure fun t ht => by simpa [legsOf] using ht
  | cons sh rest ih =>
    refine .bind (Q := fun _ => Booked c (claims ++ [sh]) (legs ++ legsOf c [sh]) s) ?_ fun _ => ?_
    · exact .bind (Q := fun _ => Booked c (claims ++ [sh]) legs s) (.write fun t ht => ht.claim sh)
        fun _ => booked_substituteLeg sh maturityEpoch
    · have hlegs : legsOf c (sh :: rest) = legsOf c [sh] ++ legsOf c rest :=
        List.filter_append [sh] rest
      rw [hlegs, ← List.append_assoc, show claims ++ sh :: rest = claims ++ [sh] ++ rest by simp]
      exact ih

/-! ### The shares of a contract -/

theorem amountsOf_legsOf (c : Contract) (l : List Share) (u : MemberId) :
    amountsOf (legsOf c l) u = if u = c.creditor then 0 else amountsOf l u := by
  induction l with
  | nil => simp [amountsOf, legsOf]
  | cons sh l ih =>
    unfold amountsOf legsOf at ih ⊢
    rw [List.filter_cons, List.map_cons, List.sum_cons]
    by_cases hcreditor : sh.underwriter = c.creditor
    · simp only [hcreditor, ne_eq, not_true, decide_false, Bool.false_eq_true, if_false, ih]
      split
      · rfl
      · next hne => simp [Ne.symm hne]
    · simp only [hcreditor, ne_eq, not_false_eq_true, decide_true, if_true, List.map_cons,
        List.sum_cons, ih]
      by_cases hu : u = c.creditor
      · subst hu
        simp [hcreditor]
      · simp [hu]

/-- What the creditor keeps and what it is owed by the others is all of it. -/
theorem amounts_legsOf (c : Contract) (l : List Share) :
    amounts (legsOf c l) + amountsOf l c.creditor = amounts l := by
  induction l with
  | nil => rfl
  | cons sh l ih =>
    unfold amounts amountsOf legsOf at ih ⊢
    simp only [ne_eq] at ih ⊢
    rw [List.filter_cons, List.map_cons, List.map_cons, List.sum_cons, List.sum_cons]
    by_cases hcreditor : sh.underwriter = c.creditor
    · simp only [hcreditor, not_true, decide_false, Bool.false_eq_true, if_false, if_true]
      omega
    · simp only [hcreditor, not_false_eq_true, decide_true, if_true, if_false, List.map_cons,
        List.sum_cons]
      omega

/-- A share beyond the first, as its entry in the supply and its piece of the arcs give it. -/
def plainShare (p : (MemberId × Nat) × List ((Nat × Nat) × Nat)) : Share :=
  { underwriter := p.1.1, amount := p.1.2, held := { edges := p.2, supply := [p.1] } }

theorem map_zipIdx_succ (residual n : Nat)
    (l : List ((MemberId × Nat) × List ((Nat × Nat) × Nat))) :
    (l.zipIdx (n + 1)).map (fun p =>
      ({ underwriter := p.1.1.1
         amount := if p.2 = 0 then p.1.1.2 + residual else p.1.1.2
         held := { edges := p.1.2, supply := [p.1.1] } } : Share)) = l.map plainShare := by
  induction l generalizing n with
  | nil => rfl
  | cons p l ih =>
    rw [List.zipIdx_cons, List.map_cons, List.map_cons, ih]
    rfl

theorem length_edgePieces (held : Held) (debtor : MemberId) :
    (Loss.edgePieces held debtor).length = held.supply.length := by
  unfold Loss.edgePieces
  split
  · exact List.length_map _
  · simp [Loss.splitEdges]

/-- The shares, the first with what is owed beyond the hold. -/
theorem shares_eq {p : MemberId × Nat} {ps : List (MemberId × Nat)} (hsupply : c.held.supply = p :: ps) :
    ∃ e es, Loss.edgePieces c.held c.debtor = e :: es ∧ es.length = ps.length ∧
      shares c = { plainShare (p, e) with amount := p.2 + (c.outstanding - c.held.amount) } ::
        (ps.zip es).map plainShare := by
  have hlength := length_edgePieces c.held c.debtor
  rw [hsupply] at hlength
  cases hpieces : Loss.edgePieces c.held c.debtor with
  | nil =>
    rw [hpieces] at hlength
    cases hlength
  | cons e es =>
    rw [hpieces] at hlength
    refine ⟨e, es, rfl, Nat.succ.inj hlength, ?_⟩
    unfold shares
    dsimp only
    rw [hpieces, hsupply, List.zip_cons_cons, List.zipIdx_cons, List.map_cons, map_zipIdx_succ]
    rfl

/-- **The shares make up the debt**. -/
theorem amounts_shares (hne : c.held.supply ≠ []) (hcover : c.held.amount ≤ c.outstanding) :
    amounts (shares c) = c.outstanding := by
  cases hsupply : c.held.supply with
  | nil => exact absurd hsupply hne
  | cons p ps =>
    obtain ⟨e, es, -, hlength, hshares⟩ := shares_eq hsupply
    have hrest : ((ps.zip es).map plainShare).map Share.amount = ps.map Prod.snd := by
      rw [List.map_map]
      have hfst : (ps.zip es).map Prod.fst = ps := List.map_fst_zip hlength.ge
      conv_rhs => rw [← hfst, List.map_map]
      rfl
    have hheld : c.held.amount = p.2 + (ps.map Prod.snd).sum := by
      rw [Held.amount, hsupply, List.map_cons, List.sum_cons]
    rw [amounts, hshares, List.map_cons, List.sum_cons, hrest]
    dsimp only
    omega

/-- A substitution that goes through books a claim and a leg for each share; the first claim is
the debt itself. -/
theorem booked_substitute {id : ContractId} {s' : State} {first : Share} {rest : List Share}
    (hissued : s.ContractsIssued) (hc : s.contracts[id]? = some c) (hsub : Substitutes c)
    (hshares : shares c = first :: rest) (h : Op.exec (substitute id) s = (.ok (), s')) :
    Booked c rest (legsOf c (shares c))
      (s.modContract id fun cm =>
        { cm with creditor := first.underwriter, outstanding := first.amount,
                  original := first.amount, held := first.held }) s' := by
  rw [exec_substitute hc hsub, hshares] at h
  set f : Contract → Contract := fun cm =>
    { cm with creditor := first.underwriter, outstanding := first.amount,
              original := first.amount, held := first.held } with hf
  have hissued₀ : (s.modContract id f).ContractsIssued := by
    intro a ha
    rw [State.modContract, OrdMap.getElem?_modify_map, hissued a ha]
    rfl
  have hlegs : legsOf c (shares c) = [] ++ legsOf c [first] ++ legsOf c rest := by
    rw [hshares]
    exact List.filter_append [first] rest
  have hbody : Op.Triple (fun t => t = s) (substituteShares id c (first :: rest))
      (fun _ => Booked c rest (legsOf c (shares c)) (s.modContract id f)) fun _ => True := by
    unfold substituteShares
    refine .bind (Q := fun _ t => t = s) (.ask fun _ ht => ht) fun maturityEpoch => ?_
    refine .bind (Q := fun _ => Booked c [] [] (s.modContract id f)) ?_ fun _ => ?_
    · unfold contractMut
      refine .bind (Q := fun _ t => t = s) (.check (fun _ _ ht _ => ht) fun _ _ => trivial)
        fun _ => .write fun t ht => ?_
      subst ht
      exact .refl hissued₀
    · rw [hlegs]
      exact .bind (booked_substituteLeg first maturityEpoch) fun _ => booked_rest rest maturityEpoch
  exact hbody.ok rfl h

end Apply

/-! ### The pieces of a hold -/

namespace Loss

theorem length_topUpFree (rs : List (Nat × Nat)) (left : Nat) (out : List Nat) :
    (topUpFree rs left out).length = out.length := by
  induction rs generalizing left out with
  | nil => rfl
  | cons r rs ih =>
    unfold topUpFree
    split
    · rfl
    · rw [ih, List.length_set]

/-- A unit is handed out for each remainder, as far as there are units. -/
theorem sum_topUpFree {rs : List (Nat × Nat)} {left : Nat} {out : List Nat}
    (hlt : ∀ r ∈ rs, r.2 < out.length) :
    (topUpFree rs left out).sum = out.sum + min left rs.length := by
  induction rs generalizing left out with
  | nil => simp [topUpFree]
  | cons r rs ih =>
    unfold topUpFree
    split
    · next hzero => rw [hzero, Nat.zero_min, Nat.add_zero]
    · have hi := hlt r List.mem_cons_self
      rw [ih (by simpa using fun a b hab => hlt (a, b) (List.mem_cons_of_mem _ hab)), sum_set hi,
        List.length_cons]
      omega

/-- **One arc is divided without loss.** -/
theorem sum_splitAmount {weights : List Nat} (htotal : 0 < weights.sum) (amount : Nat) :
    (splitAmount amount weights weights.sum).sum = amount := by
  have hfloors : (weights.map fun w => amount * w / weights.sum) =
      weights.map fun w => w * amount / weights.sum := by
    refine List.map_congr_left fun w _ => ?_
    rw [Nat.mul_comm]
  have hleft : amount - (weights.map fun w => w * amount / weights.sum).sum ≤
      (remainders weights amount weights.sum).countP fun _ => true :=
    left_le_countP htotal rfl fun _ _ _ => rfl
  rw [List.countP_true, length_remainders] at hleft
  have hle : (weights.map fun w => w * amount / weights.sum).sum ≤ amount := by
    have hsum := sum_div_mod weights amount weights.sum
    refine Nat.le_of_mul_le_mul_left ?_ htotal
    omega
  unfold splitAmount
  dsimp only
  rw [hfloors, sum_topUpFree, length_remainders]
  · omega
  · intro r hr
    rw [List.length_map]
    exact (mem_remainders hr).1

/-- The entries of a list, by their places. -/
theorem sum_range_getD {l : List Nat} {n : Nat} (hlength : l.length = n) :
    ((List.range n).map fun i => l.getD i 0).sum = l.sum := by
  subst hlength
  congr 1
  refine List.ext_getElem (by simp) fun i hi _ => ?_
  have hi' : i < l.length := by simpa using hi
  simp [List.getD_eq_getElem?_getD, hi']

theorem amountAt_filter_pos {κ : Type} [DecidableEq κ] (l : List (κ × Nat)) (k : κ) :
    amountAt (l.filter fun p => decide (0 < p.2)) k = amountAt l k := by
  unfold amountAt
  induction l with
  | nil => rfl
  | cons p l ih =>
    rw [List.filter_cons]
    by_cases hpos : 0 < p.2
    · simp only [hpos, decide_true, if_true, List.map_cons, List.sum_cons, ih]
    · have hzero : p.2 = 0 := Nat.eq_zero_of_not_pos hpos
      rw [if_neg (by simpa using hpos), ih, List.map_cons, List.sum_cons, hzero, ite_self,
        Nat.zero_add]

/-- **Dividing every arc by weight loses nothing.** -/
theorem sum_splitEdges {weights : List Nat} (htotal : 0 < weights.sum)
    (edges : List ((Nat × Nat) × Nat)) (a : Nat × Nat) :
    ((splitEdges edges weights weights.sum).map fun piece => amountAt piece a).sum =
      amountAt edges a := by
  unfold splitEdges
  rw [List.map_map]
  have hpiece : ∀ i, amountAt ((edges.map fun p =>
      (p.1, (splitAmount p.2 weights weights.sum).getD i 0)).filter fun p => decide (0 < p.2)) a =
      (edges.map fun p =>
        if p.1 = a then (splitAmount p.2 weights weights.sum).getD i 0 else 0).sum := by
    intro i
    rw [amountAt_filter_pos, amountAt, List.map_map]
    rfl
  rw [show (fun piece => amountAt piece a) ∘ _ = _ from funext hpiece]
  induction edges with
  | nil => simp [amountAt]
  | cons p edges ih =>
    have hone : ((List.range weights.length).map fun i =>
        if p.1 = a then (splitAmount p.2 weights weights.sum).getD i 0 else 0).sum =
        if p.1 = a then p.2 else 0 := by
      split
      · rw [sum_range_getD, sum_splitAmount htotal]
        unfold splitAmount
        dsimp only
        rw [length_topUpFree, List.length_map]
      · simp
    have hrest : ((List.range weights.length).map fun i => (edges.map fun p =>
        if p.1 = a then (splitAmount p.2 weights weights.sum).getD i 0 else 0).sum).sum =
        amountAt edges a := by
      refine ih fun i => ?_
      rw [amountAt_filter_pos, amountAt, List.map_map]
      rfl
    simp only [List.map_cons, List.sum_cons]
    rw [List.sum_map_add, hone, hrest, amountAt, amountAt, List.map_cons, List.sum_cons]

end Loss

namespace Apply

/-- **The pieces of the hold make up its arcs**, whether it is read as routes or divided by
weight. -/
theorem sum_shares_edges (whole : c.held.Whole) (hpos : 0 < c.held.amount) (a : Nat × Nat) :
    ((shares c).map fun sh => amountAt sh.held.edges a).sum = amountAt c.held.edges a := by
  cases hpaths : decompose c.held c.debtor with
  | ok paths => exact (Loss.shares_split whole hpaths).1 a
  | error e =>
    cases hsupply : c.held.supply with
    | nil => simp [Held.amount, hsupply] at hpos
    | cons p ps =>
      obtain ⟨e, es, hpieces, hlength, hshares⟩ := shares_eq hsupply
      have hedges : (shares c).map (fun sh => sh.held.edges) = e :: es := by
        rw [hshares, List.map_cons, List.map_map]
        refine congrArg (e :: ·) ?_
        have hsnd : (ps.zip es).map Prod.snd = es := List.map_snd_zip hlength.le
        conv_rhs => rw [← hsnd]
        rfl
      have hsum := Loss.sum_splitEdges hpos c.held.edges a
      have hsplit : Loss.edgePieces c.held c.debtor =
          Loss.splitEdges c.held.edges (c.held.supply.map Prod.snd) c.held.amount := by
        unfold Loss.edgePieces
        rw [hpaths]
      rw [← hsum]
      refine Eq.trans ?_ (congrArg (fun l => (l.map fun piece => amountAt piece a).sum)
        (hedges.trans (hpieces.symm.trans hsplit)))
      rw [List.map_map]
      rfl

/-- The pieces of the hold make up its supply. -/
theorem sum_shares_supply (u : MemberId) :
    ((shares c).map fun sh => amountAt sh.held.supply u).sum = amountAt c.held.supply u := by
  cases hsupply : c.held.supply with
  | nil => simp [shares, hsupply, amountAt]
  | cons p ps =>
    obtain ⟨e, es, -, hlength, hshares⟩ := shares_eq hsupply
    have hrest : (((ps.zip es).map plainShare).map fun sh => amountAt sh.held.supply u) =
        ps.map fun p => if p.1 = u then p.2 else 0 := by
      rw [List.map_map]
      have hfst : (ps.zip es).map Prod.fst = ps := List.map_fst_zip hlength.ge
      conv_rhs => rw [← hfst, List.map_map]
      refine List.map_congr_left fun q _ => ?_
      simp [plainShare, amountAt]
    rw [hshares, List.map_cons, List.sum_cons, hrest]
    simp [plainShare, amountAt]

/-! ### A default -/

theorem exec_substitute_of_not {id : ContractId} (hc : s.contracts[id]? = some c)
    (hsub : ¬Substitutes c) : Op.Succeeds (substitute id) s fun _ s' => s' = s := by
  unfold substitute
  refine .bind (succeeds_contract (Q := fun c' t' => c = c' ∧ s = t') hc ⟨rfl, rfl⟩) ?_
  rintro _ _ ⟨rfl, rfl⟩
  exact .ite (fun _ => .pure rfl) fun h₁ => .ite (fun _ => .pure rfl) fun h₂ =>
    .ite (fun _ => .pure rfl) fun h₃ => .ite (fun _ => .pure rfl) fun h₄ =>
      absurd ⟨h₁, h₂, h₃, h₄⟩ hsub

/-- Nobody's position, nor the flow behind it, moves between two states. -/
structure Neutral (c : Contract) (s s' : State) : Prop where
  reserved : s'.reserved = s.reserved
  committed : s'.committed = s.committed
  debtor : ∃ row row', s.members[c.debtor]? = some row ∧ s'.members[c.debtor]? = some row' ∧
    row'.debtOut = row.debtOut
  debts : s'.owed Contract.debtor c.debtor = s.owed Contract.debtor c.debtor
  claims : s'.owed Contract.creditor c.creditor = s.owed Contract.creditor c.creditor
  net : ∀ m, s'.net m = s.net m

/-- The underwriters stand where the creditor stood: their claims and their debts make up the
debt, and their pieces of the hold the hold. -/
structure Partitioned (c : Contract) (s' : State) : Prop where
  claims : amounts (shares c) = c.outstanding
  legs : amounts (legsOf c (shares c)) + amountsOf (shares c) c.creditor = c.outstanding
  edges : ∀ a, ((shares c).map fun sh => amountAt sh.held.edges a).sum = amountAt c.held.edges a
  supply : ∀ u, ((shares c).map fun sh => amountAt sh.held.supply u).sum =
    amountAt c.held.supply u
  claimed : ∀ sh ∈ shares c, ClaimStands c s' sh
  owes : ∀ sh ∈ shares c, sh.underwriter ≠ c.creditor → sh.amount ≠ 0 → LegStands c s' sh

theorem underwriter_of_mem_shares {sh : Share} (h : sh ∈ shares c) :
    ∃ p ∈ c.held.supply, p.1 = sh.underwriter := by
  cases hsupply : c.held.supply with
  | nil => simp [shares, hsupply] at h
  | cons p ps =>
    obtain ⟨e, es, -, -, hshares⟩ := shares_eq hsupply
    rw [hshares] at h
    rcases List.mem_cons.1 h with rfl | h
    · exact ⟨p, List.mem_cons_self, rfl⟩
    · obtain ⟨q, hq, rfl⟩ := List.mem_map.1 h
      exact ⟨q.1, List.mem_cons_of_mem _ (List.of_mem_zip hq).1, rfl⟩

/-- **A substitution is neutral**, and loses nothing of the debt or of its hold. -/
theorem neutral_substitute {id : ContractId} {s' : State} {row : Member}
    (hissued : s.ContractsIssued) (hc : s.contracts[id]? = some c)
    (hrow : s.members[c.debtor]? = some row) (hsub : Substitutes c) (whole : c.held.Whole)
    (hcover : c.held.amount ≤ c.outstanding) (h : Op.exec (substitute id) s = (.ok (), s')) :
    Neutral c s s' ∧ Partitioned c s' := by
  have hne : c.held.supply ≠ [] := fun hnil => hsub.1 (.inr (by simp [hnil]))
  have hall := amounts_shares hne hcover
  have hsplit := amounts_legsOf c (shares c)
  have hlegs := amountsOf_legsOf c (shares c)
  -- the debtor stands behind none of its own debt
  have hself : amountsOf (legsOf c (shares c)) c.debtor = 0 := by
    refine List.sum_eq_zero fun x hx => ?_
    obtain ⟨sh, hsh, rfl⟩ := List.mem_map.1 hx
    obtain ⟨p, hp, hunderwriter⟩ := underwriter_of_mem_shares (List.mem_filter.1 hsh).1
    refine if_neg fun heq => hsub.2.2.2 (List.any_eq_true.2 ⟨p, hp, ?_⟩)
    exact decide_eq_true (hunderwriter.trans heq)
  obtain ⟨first, rest, hshares⟩ : ∃ first rest, shares c = first :: rest := by
    obtain ⟨p, ps, hsupply⟩ := List.exists_cons_of_ne_nil hne
    obtain ⟨e, es, -, -, hshares⟩ := shares_eq hsupply
    exact ⟨_, _, hshares⟩
  have hbooked := booked_substitute hissued hc hsub hshares h
  set f : Contract → Contract := fun cm =>
    { cm with creditor := first.underwriter, outstanding := first.amount,
              original := first.amount, held := first.held } with hf
  have hcreditors : ∀ m, s'.owed Contract.creditor m +
      (if c.creditor = m then c.outstanding else 0) = s.owed Contract.creditor m +
        amountsOf (shares c) m + if c.creditor = m then amounts (legsOf c (shares c)) else 0 := by
    intro m
    have hfirst : (s.modContract id f).owed Contract.creditor m +
        (if c.creditor = m then c.outstanding else 0) = s.owed Contract.creditor m +
          if first.underwriter = m then first.amount else 0 := owed_modContract hc
    have hsum : amountsOf (shares c) m =
        (if first.underwriter = m then first.amount else 0) + amountsOf rest m := by
      rw [hshares]
      rfl
    rw [hbooked.creditors m, hsum]
    omega
  have hdebtors : ∀ m, s'.owed Contract.debtor m =
      s.owed Contract.debtor m + amountsOf (legsOf c (shares c)) m := by
    intro m
    have hfirst : (s.modContract id f).owed Contract.debtor m +
        (if c.debtor = m then c.outstanding else 0) = s.owed Contract.debtor m +
          if c.debtor = m then first.amount else 0 := owed_modContract hc
    have hsum : first.amount + amounts rest = c.outstanding := by
      rw [← hall, hshares]
      rfl
    rw [hbooked.debtors m]
    split at hfirst
    · next heq =>
      rw [if_pos heq]
      omega
    · next hother =>
      rw [if_neg hother]
      omega
  refine ⟨⟨hbooked.reserved, hbooked.committed, ?_, ?_, ?_, fun m => ?_⟩, ?_⟩
  · obtain ⟨row', hrow', hdebtOut⟩ := hbooked.rows c.debtor row hrow
    exact ⟨row, row', hrow, hrow', by rw [hdebtOut, hself, Nat.add_zero]⟩
  · rw [hdebtors, hself, Nat.add_zero]
  · have hclaims := hcreditors c.creditor
    rw [if_pos rfl, if_pos rfl] at hclaims
    omega
  · have hclaims := hcreditors m
    have hdebts := hdebtors m
    rw [hlegs m] at hdebts
    unfold State.net
    by_cases heq : m = c.creditor
    · rw [if_pos heq] at hdebts
      rw [if_pos heq.symm, if_pos heq.symm, heq] at hclaims
      rw [heq] at hdebts ⊢
      omega
    · rw [if_neg heq] at hdebts
      rw [if_neg (Ne.symm heq), if_neg (Ne.symm heq)] at hclaims
      omega
  · refine ⟨hall, hsplit.trans hall, sum_shares_edges whole (Nat.pos_of_ne_zero hsub.2.2.1),
      sum_shares_supply, fun sh hsh => ?_, fun sh hsh hother hamount => ?_⟩
    · rw [hshares] at hsh
      rcases List.mem_cons.1 hsh with rfl | hrest
      · -- the debt itself is the first claim
        have hget : (s.modContract id f).contracts[id]? = some (f c) := by
          rw [State.modContract, OrdMap.getElem?_modify_map, hc, Option.map_some, if_pos rfl]
        exact ⟨id, f c, hbooked.kept id _ hget, rfl, rfl, rfl, rfl⟩
      · exact hbooked.claimed sh hrest
    · exact hbooked.owes sh (List.mem_filter.2 ⟨hsh, decide_eq_true hother⟩) hamount

/-- **A default is neutral**: it moves nobody's position, what the creditor is owed, what the
debtor owes, nor a reservation, and where underwriters take over, their pieces make up the debt
and its hold. In every run the debts are backed (`sound_run`) and the ids in use issued
(`contractsIssued_run`). -/
theorem neutral_markExpired {id : ContractId} {s' : State} (hbacked : s.Backed)
    (hissued : s.ContractsIssued) (hc : s.contracts[id]? = some c)
    (h : Op.exec (markExpired id) s = (.ok (), s')) :
    Neutral c s s' ∧ (Substitutes c → Partitioned c s') ∧
      (¬Substitutes c → s'.contracts[id]? = some { c with status := .expired }) := by
  unfold markExpired at h
  rcases hexpirable : Op.exec (expirable id) s with ⟨e | c₁, t⟩
  · rw [Op.exec_bind_error hexpirable] at h
    cases h
  obtain rfl : t = s := by
    have hquiet := quiet_expirable id s
    rwa [hexpirable] at hquiet
  obtain ⟨hget₁, hactive⟩ := expirable_ok (c := c₁) (by rw [hexpirable])
  obtain rfl : c = c₁ := Option.some.inj (hc.symm.trans hget₁)
  rw [Op.exec_bind_ok hexpirable, Op.exec_bind_ok (exec_contractMut hc _)] at h
  cases hrow : t.members[c.debtor]? with
  | none =>
    obtain ⟨e, he⟩ := refuses_memberMut (s := t.modContract id fun cm => { cm with status := .expired })
      hrow fun m => { m with rep := { m.rep with openDefault := m.rep.openDefault + c.outstanding } }
    rw [Op.exec_bind_error he] at h
    cases h
  | some row =>
    set u := (t.modContract id fun cm => { cm with status := .expired }).modMember c.debtor fun m =>
      { m with rep := { m.rep with openDefault := m.rep.openDefault + c.outstanding } } with hu
    have hmember : Op.exec (memberMut c.debtor fun m =>
        { m with rep := { m.rep with openDefault := m.rep.openDefault + c.outstanding } })
        (t.modContract id fun cm => { cm with status := .expired }) = (.ok (), u) :=
      exec_memberMut (s := t.modContract id fun cm => { cm with status := .expired }) hrow _
    rw [Op.exec_bind_ok hmember] at h
    -- what is written before the substitution is in no account of what is owed
    have hget : u.contracts[id]? = some { c with status := .expired } := by
      show (t.modContract id _).contracts[id]? = _
      rw [State.modContract, OrdMap.getElem?_modify_map, hc, Option.map_some, if_pos rfl]
    have howed : ∀ who m, owing who m { c with status := .expired } = owing who m c →
        u.owed who m = t.owed who m := by
      intro who m hsame
      have hmod : u.owed who m + owing who m c =
          t.owed who m + owing who m { c with status := .expired } := owed_modContract hc
      rw [hsame] at hmod
      exact Nat.add_right_cancel hmod
    have hdebts : ∀ m, u.owed Contract.debtor m = t.owed Contract.debtor m := fun m => howed _ m rfl
    have hclaims : ∀ m, u.owed Contract.creditor m = t.owed Contract.creditor m := fun m =>
      howed _ m rfl
    have hrow' : ∃ row', u.members[c.debtor]? = some row' ∧ row'.debtOut = row.debtOut := by
      refine ⟨_, by rw [hu, State.modMember, OrdMap.getElem?_modify_map]; erw [hrow]; rfl, ?_⟩
      dsimp only
      rw [if_pos rfl]
    obtain ⟨row', hrow', hdebtOut⟩ := hrow'
    have hissued' : u.ContractsIssued := by
      intro a ha
      show (t.modContract id _).contracts[a]? = none
      rw [State.modContract, OrdMap.getElem?_modify_map, hissued a ha]
      rfl
    by_cases hsub : Substitutes c
    · obtain ⟨whole, hcover⟩ := hbacked id c hc
        (not_not.1 fun hno => hsub.1 (.inl hno)) hactive
      obtain ⟨hneutral, hparts⟩ := neutral_substitute hissued' hget hrow' hsub whole hcover h
      obtain ⟨hreserved, hcommitted, ⟨r, r', hr, hr', hsame⟩, hd, hcl, hnet⟩ := hneutral
      refine ⟨⟨hreserved, hcommitted, ?_, hd.trans (hdebts _), hcl.trans (hclaims _), fun m => ?_⟩,
        fun _ => ?_, fun hnot => absurd hsub hnot⟩
      · obtain rfl : row' = r := Option.some.inj (hrow'.symm.trans hr)
        exact ⟨row, r', hrow, hr', hsame.trans hdebtOut⟩
      · rw [hnet m, State.net, State.net, hdebts m, hclaims m]
      · exact ⟨hparts.claims, hparts.legs, hparts.edges, hparts.supply, hparts.claimed, hparts.owes⟩
    · obtain ⟨_, u', hexec, hsame⟩ := exec_substitute_of_not hget hsub
      obtain rfl : u' = s' := congrArg Prod.snd (hexec.symm.trans h)
      subst hsame
      refine ⟨⟨rfl, rfl, ⟨row, row', hrow, hrow', hdebtOut⟩, hdebts _, hclaims _, fun m => ?_⟩,
        fun hyes => absurd hyes hsub, fun _ => hget⟩
      rw [State.net, State.net, hdebts m, hclaims m]

end Apply

/-- The debt that the first founder stands behind, past its maturity. -/
def maturedDebt : State :=
  letI := Libm.unused
  Nat.repeat State.advanceEpoch 31 (Event.run vouchedEvents (devGenesis [2000, 0, 0]).state)

/-- Its default leaves every position as it was. -/
theorem neutral_maturedDebt :
    ∃ s', Op.exec (Apply.markExpired 1) maturedDebt = (.ok (), s') ∧
      ∀ m, s'.net m = maturedDebt.net m := by
  have hfounding : Founding (devGenesis [2000, 0, 0]).state :=
    Genesis.founding_state (by decide +kernel)
  have hbacked : maturedDebt.Backed := by
    unfold maturedDebt
    exact (sound_advance 31 (@sound_run Libm.unused _ hfounding vouchedEvents)).2
  have hissued : maturedDebt.ContractsIssued := by
    unfold maturedDebt
    exact (follows_advance 31 _).issued (@contractsIssued_run Libm.unused _ hfounding vouchedEvents)
  have hthere : (maturedDebt.contracts[1]?).isSome := by decide +kernel
  obtain ⟨c, hc⟩ := Option.isSome_iff_exists.1 hthere
  have hok : (Op.exec (Apply.markExpired 1) maturedDebt).1 = .ok () := by decide +kernel
  obtain ⟨_, s', hexec, -⟩ := Op.Succeeds.of_ok hok
  exact ⟨s', hexec, (Apply.neutral_markExpired hbacked hissued hc hexec).1.net⟩

end Edet
