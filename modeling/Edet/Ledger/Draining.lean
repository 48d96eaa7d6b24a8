import Edet.Ledger.Rings

/-!
# Draining the debts a seller lists

A step at one debt of a member writes that contract and that member's row only (`Touched`), so a
pass over a member's debts eases its debts and nobody else's (`Eased`), and what the creditors'
claims are lowered by is gathered for the buyer (`Cleared`).

A cascade is a list of such passes (`Drains`), made level by level: each level hands out the shares
that its lister's budget is divided into, by the ledger and the visited it finds (`levelTargets`),
and what a member leaves of its share goes to those it lists itself (`Descends`). The cascade runs
so (`descends_drainLevel`, by induction on the depth and, in a level, on its targets). What it visits
is handed on, so that no member is drained twice on any graph of listings, nor beyond its share
(`Descends.drained`).
-/

namespace Edet

open Edet.Flow

namespace Cascade

open Apply

/-! ### One debt -/

/-- Only the contract `id` and the row of `d` were written, and no terms were. -/
structure Beside (d : MemberId) (id : ContractId) (s t : State) : Prop where
  elsewhere : Elsewhere id s t
  terms : SameTerms s t
  rows : ∀ m ≠ d, t.members[m]? = s.members[m]?

instance (d : MemberId) (id : ContractId) : Std.Refl (Beside d id) :=
  ⟨fun s => ⟨Std.Refl.refl s, Std.Refl.refl s, fun _ _ => rfl⟩⟩

instance (d : MemberId) (id : ContractId) : IsTrans State (Beside d id) :=
  ⟨fun _ _ _ h h' => ⟨IsTrans.trans _ _ _ h.elsewhere h'.elsewhere,
    IsTrans.trans _ _ _ h.terms h'.terms, fun m hm => (h'.rows m hm).trans (h.rows m hm)⟩⟩

section Beside

variable {d : MemberId} {id : ContractId}

theorem Beside.of_eq {s t : State} (hparams : t.params = s.params)
    (hcontracts : t.contracts = s.contracts) (hmembers : t.members = s.members) :
    Beside d id s t :=
  ⟨⟨hparams, fun _ _ => by rw [hcontracts]⟩, .of_eq hcontracts, fun _ _ => by rw [hmembers]⟩

theorem beside_memberMut (f : Member → Member) : Op.Moves (Beside d id) (memberMut d f) := by
  unfold memberMut
  refine .bind (.check _) fun _ => .write fun s => ?_
  refine ⟨⟨rfl, fun _ _ => rfl⟩, .of_eq rfl, fun m hm => ?_⟩
  rw [State.modMember, OrdMap.getElem?_modify_map]
  simp [Ne.symm hm]

theorem beside_contractMut {f : Contract → Contract} (hf : ∀ c, (f c).terms = c.terms) :
    Op.Moves (Beside d id) (contractMut id f) := fun s =>
  ⟨elsewhere_contractMut id f s, sameTerms_contractMut hf s, fun m _ => by
    have hmembers : Op.Moves (fun s t : State => t.members = s.members) (contractMut id f) := by
      have : Std.Refl fun s t : State => t.members = s.members := ⟨fun _ => rfl⟩
      have : IsTrans State fun s t => t.members = s.members := ⟨fun _ _ _ h h' => h'.trans h⟩
      unfold contractMut
      exact .bind (.check _) fun _ => .write fun _ => rfl
    rw [hmembers s]⟩

theorem beside_reserve (debtor : MemberId) (want : Nat) :
    Op.Moves (Beside d id) (Op.draw (·.reserveCapacityMinor debtor want) : Tr (Option Held)) := by
  refine .draw fun s => ?_
  unfold State.reserveCapacityMinor
  split <;> exact .of_eq rfl rfl rfl

theorem beside_release (held : Held) :
    Op.Moves (Beside d id) (Op.write (·.releaseCapacity held) : Tr Unit) :=
  .write fun _ => .of_eq rfl rfl rfl

theorem beside_dischargeCredit (debtor creditor : MemberId) (amount : Nat) :
    Op.Moves (Beside d id) (Op.write (dischargeCredit debtor creditor amount) : Tr Unit) := by
  refine .write fun s => ?_
  unfold dischargeCredit
  split <;> exact .of_eq rfl rfl rfl

theorem beside_rehold : Op.Moves (Beside d id) (rehold id) := by
  unfold rehold
  refine .bind (.check _) fun c => .ite (fun _ => .pure _) fun _ => .ite (fun _ => ?_) fun _ => ?_
  · exact .ite (fun _ => .pure _) fun _ =>
      .bind (beside_release _) fun _ => beside_contractMut fun _ => rfl
  · refine .bind (.ask _) fun _ => .ite (fun _ => ?_) fun _ => .pure _
    refine .bind (beside_reserve _ _) fun held => ?_
    cases held <;> exact beside_contractMut fun _ => rfl

end Beside

/-- Only the contract `id` and the row of `d` were written, and the contract stands on the terms
of `c`. -/
structure Touched (d : MemberId) (id : ContractId) (c : Contract) (s t : State) : Prop where
  elsewhere : Elsewhere id s t
  rows : ∀ m ≠ d, t.members[m]? = s.members[m]?
  stands : OnTerms id c t

section Touched

variable {d : MemberId} {id : ContractId} {c : Contract} {s : State}

theorem Touched.refl (hc : s.contracts[id]? = some c) : Touched d id c s s :=
  ⟨Std.Refl.refl s, fun _ _ => rfl, c, hc, rfl⟩

theorem Touched.beside {t t' : State} (h : Touched d id c s t) (h' : Beside d id t t') :
    Touched d id c s t' :=
  ⟨IsTrans.trans _ _ _ h.elsewhere h'.elsewhere, fun m hm => (h'.rows m hm).trans (h.rows m hm),
    h.stands.sameTerms h'.terms⟩

/-- A step beside the contract leaves it touched. -/
theorem triple_beside {α : Type} {op : Tr α} (h : Op.Moves (Beside d id) op) :
    Op.Triple (Touched d id c s) op (fun _ => Touched d id c s) fun _ => True :=
  (h.triple fun _ _ hmoves ht => ht.beside hmoves).weaken (fun _ ht => ht) (fun _ _ ht => ht)
    fun _ _ => trivial

/-- The contract is written new terms. -/
theorem triple_contractMut {f : Contract → Contract} {c' : Contract}
    (hf : ∀ c₁, c₁.terms = c.terms → (f c₁).terms = c'.terms) :
    Op.Triple (Touched d id c s) (contractMut id f) (fun _ => Touched d id c' s) fun _ => True := by
  refine .pointwise fun t ht => .check_bind trivial fun c₂ _ => ?_
  refine .write fun t' heq => ?_
  subst heq
  obtain ⟨c₁, hc₁, hterms⟩ := ht.stands
  refine ⟨⟨ht.elsewhere.1, fun a ha => ?_⟩, ht.rows, f c₁, ?_, hf c₁ hterms⟩
  · rw [State.modContract, OrdMap.getElem?_modify_map]
    simp [Ne.symm ha, ht.elsewhere.2 a ha]
  · rw [State.modContract, OrdMap.getElem?_modify_map, hc₁]
    simp

/-- A debt lowered by `take`; what is left closes if it is dust. -/
def lowered (dust take : Nat) (closed : ContractStatus) (c : Contract) : Contract :=
  { c with
    outstanding := if c.outstanding - take ≤ dust then 0 else c.outstanding - take
    status := if c.outstanding - take ≤ dust then closed else c.status }

theorem lowered_outstanding {dust take : Nat} {closed : ContractStatus} (h : take ≤ c.outstanding) :
    (lowered dust take closed c).outstanding + take ≤ c.outstanding := by
  unfold lowered
  dsimp only
  split <;> omega

theorem triple_lower (dust take : Nat) (closed : ContractStatus) :
    Op.Triple (Touched d id c s)
      (contractMut id fun cm =>
        { cm with
          outstanding := if c.outstanding - take ≤ dust then 0 else c.outstanding - take
          status := if c.outstanding - take ≤ dust then closed else cm.status })
      (fun _ => Touched d id (lowered dust take closed c) s) fun _ => True := by
  refine triple_contractMut fun c₁ hterms => ?_
  have hdebtor : c₁.debtor = c.debtor := congrArg (·.1) hterms
  have hcreditor : c₁.creditor = c.creditor := congrArg (·.2.1) hterms
  have hstatus : c₁.status = c.status := congrArg (·.2.2.2) hterms
  simp [lowered, Contract.terms, hdebtor, hcreditor, hstatus]

/-- A contract that is there is read. -/
theorem triple_contract_bind {α : Type} {k : Contract → Tr α} {Q : α → State → Prop}
    {E : State → Prop} (hc : s.contracts[id]? = some c)
    (h : Op.Triple (fun t => t = s) (k c) Q E) :
    Op.Triple (fun t => t = s) (contract id >>= k) Q E := by
  rintro _ rfl
  rw [Op.exec_bind_ok (exec_contract hc)]
  exact h _ rfl

/-- A touched contract and its terms tell what is owed. -/
theorem Touched.owed {who : Contract → MemberId}
    (hwho : ∀ c c' : Contract, c.terms = c'.terms → who c = who c') {c₀ : Contract} {t : State}
    (hc : s.contracts[id]? = some c₀) (h : Touched d id c s t) (member : MemberId) :
    t.owed who member + (if who c₀ = member then c₀.outstanding else 0) =
      s.owed who member + if who c = member then c.outstanding else 0 :=
  owed_of_elsewhere hwho hc h.elsewhere h.stands member

end Touched

/-! ### What has been gathered -/

/-- What has been gathered of a creditor's claims. -/
def gatheredFor (creditor : MemberId) (assumed : Assumed) : Nat :=
  OrdMap.total (fun k slot => if k.1 = creditor then slot.1 else 0) assumed

theorem gatheredFor_assume (k : MemberId) (assumed : Assumed) (creditor due amount accepted : Nat)
    (held : Held) :
    gatheredFor k (assume assumed creditor due amount accepted held) =
      gatheredFor k assumed + if creditor = k then amount else 0 := by
  unfold gatheredFor assume
  cases h : assumed[(creditor, due)]? with
  | none =>
    rw [OrdMap.total_insert_of_none h]
    simp [OrdMap.getD'_eq, h]
  | some slot =>
    have hsum := OrdMap.total_insert_of_some
      (f := fun (k' : MemberId × Nat) (slot : Nat × Held × Nat) => if k'.1 = k then slot.1 else 0) h
      (slot.1 + amount, mergeHeld slot.2.1 held, min slot.2.2 accepted)
    simp only [OrdMap.getD'_eq, h, Option.getD_some]
    by_cases hk : creditor = k
    · simp only [if_pos hk] at hsum ⊢
      omega
    · simp only [if_neg hk] at hsum ⊢
      omega

/-- Nothing that was gathered is dust. -/
def NoDust (dust : Nat) (assumed : Assumed) : Prop :=
  ∀ (k : MemberId × Nat) (slot : Nat × Held × Nat), assumed[k]? = some slot → dust < slot.1

theorem noDust_assume {dust : Nat} {assumed : Assumed} (h : NoDust dust assumed)
    (creditor due accepted : Nat) {amount : Nat} (hamount : dust < amount) (held : Held) :
    NoDust dust (assume assumed creditor due amount accepted held) := by
  intro k slot hslot
  unfold assume at hslot
  rw [Std.ExtTreeMap.getElem?_insert] at hslot
  split at hslot
  · cases hslot
    exact lt_of_lt_of_le hamount (Nat.le_add_left _ _)
  · exact h k slot hslot

/-! ### Clearing -/

/-- The debts of the members of `eased` were lowered: no other member's row or debt is written,
and every creditor's claims are lowered by `gain` at least. -/
structure Eased (eased : List MemberId) (gain : MemberId → Nat) (s t : State) : Prop where
  params : t.params = s.params
  rows : ∀ m ∉ eased, t.members[m]? = s.members[m]?
  debts : ∀ m ∉ eased, t.owed Contract.debtor m = s.owed Contract.debtor m
  claims : ∀ k, t.owed Contract.creditor k + gain k ≤ s.owed Contract.creditor k

namespace Eased

theorem refl (s : State) : Eased [] (fun _ => 0) s s :=
  ⟨rfl, fun _ _ => rfl, fun _ _ => rfl, fun _ => Nat.le_refl _⟩

theorem trans {ms ms' : List MemberId} {gain gain' : MemberId → Nat} {s t u : State}
    (h : Eased ms gain s t) (h' : Eased ms' gain' t u) :
    Eased (ms ++ ms') (fun k => gain k + gain' k) s u where
  params := h'.params.trans h.params
  rows m hm := by
    rw [List.mem_append, not_or] at hm
    exact (h'.rows m hm.2).trans (h.rows m hm.1)
  debts m hm := by
    rw [List.mem_append, not_or] at hm
    exact (h'.debts m hm.2).trans (h.debts m hm.1)
  claims k := by
    have h₁ := h.claims k
    have h₂ := h'.claims k
    omega

theorem mono {ms ms' : List MemberId} {gain gain' : MemberId → Nat} {s t : State}
    (h : Eased ms gain s t) (hsub : ∀ m ∈ ms, m ∈ ms') (hgain : ∀ k, gain' k = gain k) :
    Eased ms' gain' s t where
  params := h.params
  rows m hm := h.rows m fun h' => hm (hsub m h')
  debts m hm := h.debts m fun h' => hm (hsub m h')
  claims k := hgain k ▸ h.claims k

/-- One debt of `d` lowered by `take` at least. -/
theorem of_touched {d : MemberId} {id : ContractId} {c c' : Contract} {s t : State} {take : Nat}
    (hc : s.contracts[id]? = some c) (hd : c.debtor = d) (h : Touched d id c' s t)
    (hdebtor : c'.debtor = c.debtor) (hcreditor : c'.creditor = c.creditor)
    (htake : c'.outstanding + take ≤ c.outstanding) :
    Eased [d] (fun k => if c.creditor = k then take else 0) s t where
  params := h.elsewhere.1
  rows m hm := h.rows m (by simpa using hm)
  debts m hm := by
    have howed := h.owed (fun _ _ h => congrArg (·.1) h : ∀ c c' : Contract, c.terms = c'.terms →
      Contract.debtor c = Contract.debtor c') hc m
    have hne : c.debtor ≠ m := fun heq => hm (by simp [← heq, hd])
    rwa [if_neg hne, hdebtor, if_neg hne, Nat.add_zero, Nat.add_zero] at howed
  claims k := by
    have howed := h.owed (fun _ _ h => congrArg (·.2.1) h : ∀ c c' : Contract, c.terms = c'.terms →
      Contract.creditor c = Contract.creditor c') hc k
    rw [hcreditor] at howed
    by_cases hk : c.creditor = k
    · simp only [if_pos hk] at howed ⊢
      omega
    · simp only [if_neg hk] at howed ⊢
      omega

end Eased

/-- The debts of the members of `drained` were cleared, and what the creditors' claims were lowered
by was gathered. -/
def Cleared (drained : List MemberId) (s : State) (assumed : Assumed) (t : State)
    (assumed' : Assumed) : Prop :=
  ∃ gain, Eased drained gain s t ∧ (∀ k, gatheredFor k assumed' = gatheredFor k assumed + gain k) ∧
    (NoDust s.params.dustMinor assumed → NoDust s.params.dustMinor assumed')

namespace Cleared

theorem refl (s : State) (assumed : Assumed) : Cleared [] s assumed s assumed :=
  ⟨_, .refl s, fun _ => rfl, fun h => h⟩

theorem trans {ds ds' : List MemberId} {s t u : State} {A B C : Assumed}
    (h : Cleared ds s A t B) (h' : Cleared ds' t B u C) : Cleared (ds ++ ds') s A u C := by
  obtain ⟨gain, heased, hgain, hdust⟩ := h
  obtain ⟨gain', heased', hgain', hdust'⟩ := h'
  refine ⟨_, heased.trans heased', fun k => ?_, fun hA => ?_⟩
  · rw [hgain', hgain, Nat.add_assoc]
  · rw [heased.params] at hdust'
    exact hdust' (hdust hA)

theorem mono {ds ds' : List MemberId} {s t : State} {A B : Assumed} (h : Cleared ds s A t B)
    (hsub : ∀ m ∈ ds, m ∈ ds') : Cleared ds' s A t B := by
  obtain ⟨gain, heased, hgain, hdust⟩ := h
  exact ⟨gain, heased.mono hsub fun _ => rfl, hgain, hdust⟩

end Cleared

/-- A loop over the debts of one member: each that is left is still there. -/
def Debts (d : MemberId) (ids : List ContractId) (s : State) : Prop :=
  ∀ id ∈ ids, ∃ c, s.contracts[id]? = some c ∧ c.debtor = d

theorem Debts.touched {d : MemberId} {id : ContractId} {ids : List ContractId} {c : Contract}
    {s t : State} (hs : Debts d ids s) (hd : c.debtor = d) (h : Touched d id c s t) :
    Debts d ids t := by
  intro a ha
  by_cases heq : a = id
  · obtain ⟨c', hc', hterms⟩ := h.stands
    exact ⟨c', heq ▸ hc', (congrArg (·.1) hterms).trans hd⟩
  · rw [h.elsewhere.2 a heq]
    exact hs a ha

/-- What a pass over the debts of `d` comes to. -/
def Passed (d : MemberId) (budget : Nat) (s : State) (spent : Nat) (assumed : Assumed)
    (r : Nat × Assumed) (t : State) : Prop :=
  Cleared [d] s assumed t r.2 ∧ spent ≤ r.1 ∧ (spent ≤ budget → r.1 ≤ budget) ∧
    gathered r.2 + spent = gathered assumed + r.1

theorem Passed.stays (d : MemberId) (budget : Nat) (s : State) (spent : Nat) (assumed : Assumed) :
    Passed d budget s spent assumed (spent, assumed) s :=
  ⟨(Cleared.refl s assumed).mono (by simp), Nat.le_refl _, fun h => h, rfl⟩

theorem Passed.trans {d : MemberId} {budget : Nat} {s t u : State} {spent : Nat} {A : Assumed}
    {r r' : Nat × Assumed} (h : Passed d budget s spent A r t) (h' : Passed d budget t r.1 r.2 r' u) :
    Passed d budget s spent A r' u := by
  refine ⟨(h.1.trans h'.1).mono (by simp), h.2.1.trans h'.2.1, fun hle => h'.2.2.1 (h.2.2.1 hle), ?_⟩
  have h₁ := h.2.2.2
  have h₂ := h'.2.2.2
  omega

/-- **A pass over a member's debts**, where it accepts. -/
theorem passed_clearDebts (d buyer : MemberId) (budget saleMaturity : Nat) (ids : List ContractId)
    {s : State} (hs : Debts d ids s) (spent : Nat) (assumed : Assumed) :
    Op.Triple (fun t => t = s) (clearDebts buyer budget saleMaturity ids spent assumed)
      (Passed d budget s spent assumed) fun _ => True := by
  induction ids generalizing s spent assumed with
  | nil =>
    refine .pure fun t heq => ?_
    subst heq
    exact .stays _ _ _ _ _
  | cons id ids ih =>
    have hids : Debts d ids s := fun a ha => hs a (List.mem_cons_of_mem _ ha)
    -- What follows starts from the state this debt was left in.
    have hrest : ∀ {t : State} {spent' : Nat} {assumed' : Assumed}, Debts d ids t →
        Passed d budget s spent assumed (spent', assumed') t →
        Op.Triple (fun u => u = t) (clearDebts buyer budget saleMaturity ids spent' assumed')
          (Passed d budget s spent assumed) fun _ => True := by
      intro t spent' assumed' ht hpassed
      exact (ih ht spent' assumed').weaken (fun _ h => h) (fun _ _ h => hpassed.trans h) fun _ h => h
    have hskip := hrest hids (.stays d budget s spent assumed)
    obtain ⟨c, hc, hd⟩ := hs id List.mem_cons_self
    unfold clearDebts
    refine .ask_bind (.ite (fun _ => ?_) fun hleft => ?_)
    · refine .pure fun t heq => ?_
      subst heq
      exact .stays _ _ _ _ _
    refine triple_contract_bind hc (.ask_bind (.ite (fun _ => hskip) fun hsize => ?_))
    refine .ask_bind (.ite (fun _ => hskip) fun htake => ?_)
    set take := min (min c.outstanding (budget - spent))
      (s.insurableMinorAfterRelease buyer (min c.outstanding (budget - spent)) c.held) with htakeDef
    have htake_le : take ≤ min c.outstanding (budget - spent) := min_le_left _ _
    have hstart : ∀ t, t = s → Touched d id c s t := by
      rintro _ rfl
      exact .refl hc
    refine .bind (Q := fun _ => Touched d id c s) ((triple_beside (beside_release _)).weaken hstart
      (fun _ _ h => h) fun _ h => h) fun _ => ?_
    refine .bind (Q := fun _ => Touched d id c s) (triple_beside (beside_contractMut fun _ => rfl))
      fun _ => ?_
    refine .bind (Q := fun _ => Touched d id c s) (triple_beside (beside_reserve _ _)) fun got => ?_
    cases got with
    | none =>
      refine .bind (Q := fun _ => Touched d id c s) (triple_beside beside_rehold) fun _ => ?_
      refine .pointwise fun t ht => hrest (hids.touched hd ht) ?_
      have heased := Eased.of_touched (d := d) hc hd ht rfl rfl (Nat.le_refl (c.outstanding + 0))
      exact ⟨⟨_, heased, fun k => by simp, fun h => h⟩, Nat.le_refl _, fun h => h, rfl⟩
    | some held =>
      dsimp only
      have hlow : (lowered s.params.dustMinor take .transferred c).outstanding + take ≤
          c.outstanding := lowered_outstanding (htake_le.trans (min_le_left _ _))
      refine .bind (triple_lower s.params.dustMinor take .transferred) fun _ => ?_
      refine .bind (triple_beside (hd ▸ beside_memberMut _)) fun _ => ?_
      refine .bind (triple_beside beside_rehold) fun _ => .pointwise fun t ht => ?_
      refine hrest (hids.touched (by exact hd) ht) ?_
      refine ⟨⟨_, .of_touched hc hd ht rfl rfl hlow, fun k => ?_, fun hdust => ?_⟩,
        Nat.le_add_right _ _, fun hle => ?_, ?_⟩
      · exact gatheredFor_assume _ _ _ _ _ _ _
      · exact noDust_assume hdust _ _ _ (not_le.1 htake) _
      · have := htake_le.trans (min_le_right _ _)
        dsimp only
        omega
      · rw [gathered_assume]
        dsimp only
        omega

theorem debts_clearable (s : State) (d buyer : MemberId) : Debts d (clearable s d buyer) s := by
  intro id hid
  unfold clearable at hid
  obtain ⟨p, hp, rfl⟩ := List.mem_map.1 hid
  rw [List.mem_filter, OrdMap.mem_toList] at hp
  exact ⟨p.2, hp.1, (of_decide_eq_true hp.2).2.1⟩

theorem passed_clearMemberDebts (d buyer : MemberId) (budget saleMaturity : Nat) (assumed : Assumed)
    (s : State) :
    Op.Triple (fun t => t = s) (clearMemberDebts d buyer budget saleMaturity assumed)
      (Passed d budget s 0 assumed) fun _ => True := by
  unfold clearMemberDebts
  exact .ask_bind (passed_clearDebts d buyer budget saleMaturity _ (debts_clearable s d buyer) 0 _)

/-! ### Draining -/

/-- One drain of a cascade: the member whose debts are cleared, the share of its lister's budget
it is allotted, and what of it was cleared. -/
structure Drain where
  member : MemberId
  share : Nat
  cleared : Nat

/-- What each target of a lister is allotted. -/
def allotted (s : State) (lister : MemberId) (budget : Nat) (visited : List MemberId)
    (self : Member) : List (MemberId × Nat) :=
  ((drainTargets s lister visited self).map Prod.fst).zip
    (waterfillMinor ((drainTargets s lister visited self).map Prod.snd) budget)

/-- What a level hands out, and to whom: nothing where it has no depth left or no more than dust. -/
def levelTargets (s : State) (lister : MemberId) (budget : Nat) (visited : List MemberId)
    (depth : Nat) : List (MemberId × Nat) :=
  if depth = 0 ∨ budget ≤ s.params.dustMinor then []
  else
    match s.members[lister]? with
    | none => []
    | some self => allotted s lister budget visited self

/-- Members are drained one after the other. -/
inductive Drains (buyer : MemberId) (saleMaturity : Nat) :
    List Drain → State → Assumed → State → Assumed → Prop
  | nil (s : State) (assumed : Assumed) : Drains buyer saleMaturity [] s assumed s assumed
  | cons {d : Drain} {ds : List Drain} {s t u : State} {A B C : Assumed}
      (pass : Op.exec (clearMemberDebts d.member buyer d.share saleMaturity A) s =
        (.ok (d.cleared, B), t))
      (rest : Drains buyer saleMaturity ds t B u C) :
      Drains buyer saleMaturity (d :: ds) s A u C

/-- How the targets of a lister are drained, each with its share: one whose share is dust, or that
was visited, is passed over; any other is drained, and what it leaves of its share is handed on
to those it lists itself, by the ledger, the visited and what is left at that point. -/
inductive Descends (buyer : MemberId) (saleMaturity : Nat) :
    Nat → MemberId → List (MemberId × Nat) → State → List MemberId → Assumed → List Drain →
      State → List MemberId → Assumed → Prop
  | nil (depth : Nat) (lister : MemberId) (s : State) (visited : List MemberId) (assumed : Assumed) :
      Descends buyer saleMaturity depth lister [] s visited assumed [] s visited assumed
  | pass {depth : Nat} {lister b : MemberId} {share : Nat} {targets : List (MemberId × Nat)}
      {s t : State} {visited visited' : List MemberId} {A B : Assumed} {ds : List Drain}
      (passed : share ≤ s.params.dustMinor ∨ b ∈ visited)
      (rest : Descends buyer saleMaturity depth lister targets s visited A ds t visited' B) :
      Descends buyer saleMaturity depth lister ((b, share) :: targets) s visited A ds t visited' B
  | drain {depth : Nat} {lister b : MemberId} {share cleared : Nat}
      {targets : List (MemberId × Nat)} {s t u v : State}
      {visited visited' visited'' : List MemberId} {A B C D : Assumed} {ds ds' : List Drain}
      (beyond : s.params.dustMinor < share) (new : b ∉ visited)
      (clears : Op.exec (clearMemberDebts b buyer share saleMaturity A) s = (.ok (cleared, B), t))
      (deeper : Descends buyer saleMaturity (depth - 1) b
        (if b = lister then [] else levelTargets t b (share - cleared) (b :: visited) depth)
        t (b :: visited) B ds u visited' C)
      (rest : Descends buyer saleMaturity depth lister targets u visited' C ds' v visited'' D) :
      Descends buyer saleMaturity depth lister ((b, share) :: targets) s visited A
        (⟨b, share, cleared⟩ :: (ds ++ ds')) v visited'' D

/-- What the drains cleared. -/
def drained (ds : List Drain) : Nat := (ds.map Drain.cleared).sum

section Drains

variable {buyer : MemberId} {saleMaturity : Nat}

theorem Drains.append {ds ds' : List Drain} {s t u : State} {A B C : Assumed}
    (h : Drains buyer saleMaturity ds s A t B) (h' : Drains buyer saleMaturity ds' t B u C) :
    Drains buyer saleMaturity (ds ++ ds') s A u C := by
  induction h with
  | nil => exact h'
  | cons pass _ ih => exact .cons pass (ih h')

/-- **Draining** clears the debts of the members drained and of no other, and gathers what it
clears. -/
theorem Drains.cleared {ds : List Drain} {s t : State} {A B : Assumed}
    (h : Drains buyer saleMaturity ds s A t B) :
    Cleared (ds.map Drain.member) s A t B ∧ gathered B = gathered A + drained ds := by
  induction h with
  | nil s A => exact ⟨.refl s A, rfl⟩
  | @cons d ds s t u A B C pass _ ih =>
    have hpass := (passed_clearMemberDebts d.member buyer d.share saleMaturity A s).ok rfl pass
    refine ⟨hpass.1.trans ih.1, ?_⟩
    have hgathered := hpass.2.2.2
    simp only [drained, List.map_cons, List.sum_cons] at ih ⊢
    rw [ih.2]
    dsimp only at hgathered
    omega

theorem drained_cons (d : Drain) (ds : List Drain) : drained (d :: ds) = d.cleared + drained ds := rfl

theorem drained_append (ds ds' : List Drain) : drained (ds ++ ds') = drained ds + drained ds' := by
  rw [drained, List.map_append, List.sum_append]
  rfl

/-- **No member is drained twice, nor beyond its share**, on any graph of listings: those drained
were not visited before, and are visited then. -/
theorem Descends.drained {depth : Nat} {lister : MemberId} {targets : List (MemberId × Nat)}
    {s t : State} {visited visited' : List MemberId} {A B : Assumed} {ds : List Drain}
    (h : Descends buyer saleMaturity depth lister targets s visited A ds t visited' B) :
    Drains buyer saleMaturity ds s A t B ∧ visited ⊆ visited' ∧ (ds.map Drain.member).Nodup ∧
      (∀ d ∈ ds, d.member ∉ visited ∧ d.member ∈ visited') ∧ ∀ d ∈ ds, d.cleared ≤ d.share := by
  induction h with
  | nil depth lister s visited assumed =>
    exact ⟨.nil _ _, fun _ h => h, List.nodup_nil, fun d hd => (nomatch hd), fun d hd => (nomatch hd)⟩
  | pass _ _ ih => exact ih
  | @drain depth lister b share cleared targets s t u v visited visited' visited'' A B C D ds ds'
      beyond new clears _ _ ihdeeper ihrest =>
    obtain ⟨hdeep, hsub, hnodup, hnew, hshare⟩ := ihdeeper
    obtain ⟨hlater, hsub', hnodup', hnew', hshare'⟩ := ihrest
    have hpass := (passed_clearMemberDebts b buyer share saleMaturity A s).ok rfl clears
    have hb : b ∈ visited' := hsub List.mem_cons_self
    refine ⟨.cons clears (hdeep.append hlater), fun m hm => hsub' (hsub (List.mem_cons_of_mem _ hm)),
      ?_, fun d hd => ?_, fun d hd => ?_⟩
    · rw [List.map_cons, List.map_append, List.nodup_cons, List.mem_append, List.nodup_append]
      refine ⟨?_, hnodup, hnodup', fun m hm m' hm' heq => ?_⟩
      · -- The member itself is visited before anything deeper, and before the rest.
        rintro (hmem | hmem)
        · obtain ⟨d, hd, hmember⟩ := List.mem_map.1 hmem
          exact (hnew d hd).1 (hmember ▸ List.mem_cons_self)
        · obtain ⟨d, hd, hmember⟩ := List.mem_map.1 hmem
          exact (hnew' d hd).1 (hmember ▸ hb)
      · obtain ⟨d, hd, rfl⟩ := List.mem_map.1 hm
        obtain ⟨d', hd', rfl⟩ := List.mem_map.1 hm'
        -- What was drained deeper, the rest passes over.
        exact (hnew' d' hd').1 (heq ▸ (hnew d hd).2)
    · rcases List.mem_cons.1 hd with rfl | hd
      · exact ⟨new, hsub' hb⟩
      rcases List.mem_append.1 hd with hd | hd
      · exact ⟨fun hv => (hnew d hd).1 (List.mem_cons_of_mem _ hv), hsub' (hnew d hd).2⟩
      · exact ⟨fun hv => (hnew' d hd).1 (hsub (List.mem_cons_of_mem _ hv)), (hnew' d hd).2⟩
    · rcases List.mem_cons.1 hd with rfl | hd
      · exact hpass.2.2.1 (Nat.zero_le _)
      rcases List.mem_append.1 hd with hd | hd
      · exact hshare d hd
      · exact hshare' d hd

/-- The loop over one level's targets drains them so, given that going one level deeper does. -/
theorem descends_drainTargetsLoop {depth : Nat}
    (hdeeper : ∀ (s : State) (lister : MemberId) (budget : Nat) (visited : List MemberId)
      (assumed : Assumed),
      Op.Triple (fun t => t = s) (drainLevel buyer saleMaturity depth lister budget visited assumed)
        (fun r t => ∃ ds, Descends buyer saleMaturity (depth - 1) lister
          (levelTargets s lister budget visited depth) s visited assumed ds t r.2.1 r.2.2 ∧
            r.1 = drained ds) fun _ => True)
    (lister : MemberId) (targets : List (MemberId × Nat)) (s : State) (absorbed : Nat)
    (visited : List MemberId) (assumed : Assumed) :
    Op.Triple (fun t => t = s)
      (drainTargetsLoop buyer saleMaturity depth lister targets absorbed visited assumed)
      (fun r t => ∃ ds, Descends buyer saleMaturity depth lister targets s visited assumed ds t r.2.1
        r.2.2 ∧ r.1 = absorbed + drained ds) fun _ => True := by
  induction targets generalizing s absorbed visited assumed with
  | nil =>
    unfold drainTargetsLoop
    refine .pure ?_
    rintro _ rfl
    exact ⟨[], .nil _ _ _ _ _, rfl⟩
  | cons target rest ih =>
    obtain ⟨b, share⟩ := target
    unfold drainTargetsLoop
    refine .ask_bind (.ite (fun hpassed => ?_) fun hpassed => ?_)
    · refine (ih s absorbed visited assumed).weaken (fun _ h => h) (fun r t h => ?_) fun _ h => h
      obtain ⟨ds, hds, hsum⟩ := h
      exact ⟨ds, .pass hpassed hds, hsum⟩
    obtain ⟨hbeyond, hnew⟩ := not_or.1 hpassed
    refine .ok_bind fun r s₁ clears => ?_
    obtain ⟨cleared, assumed₁⟩ := r
    have hpass := (passed_clearMemberDebts b buyer share saleMaturity assumed s).ok rfl clears
    have hparams : s₁.params = s.params := hpass.1.choose_spec.1.params
    dsimp only
    refine .ite (fun hdeep => .ok_bind fun r s₂ hexec => ?_) fun hdeep => ?_
    · obtain ⟨deeper, visited₂, assumed₂⟩ := r
      obtain ⟨ds, hds, hsum⟩ :=
        (hdeeper s₁ b (share - cleared) (b :: visited) assumed₁).ok rfl hexec
      refine (ih s₂ _ visited₂ assumed₂).weaken (fun _ h => h) (fun r t h => ?_) fun _ h => h
      obtain ⟨ds', hds', hsum'⟩ := h
      have hbelow : Descends buyer saleMaturity (depth - 1) b
          (if b = lister then [] else levelTargets s₁ b (share - cleared) (b :: visited) depth)
          s₁ (b :: visited) assumed₁ ds s₂ visited₂ assumed₂ := by
        rw [if_neg hdeep.1]
        exact hds
      refine ⟨_, .drain (not_le.1 hbeyond) hnew clears hbelow hds', ?_⟩
      rw [hsum', drained_cons, drained_append]
      dsimp only at hsum ⊢
      omega
    · -- Nothing is handed on: the member lists itself, or no more than dust is left.
      have hnone : Descends buyer saleMaturity (depth - 1) b
          (if b = lister then [] else levelTargets s₁ b (share - cleared) (b :: visited) depth)
          s₁ (b :: visited) assumed₁ [] s₁ (b :: visited) assumed₁ := by
        split
        · exact .nil _ _ _ _ _
        · next hne =>
          unfold levelTargets
          rw [hparams, if_pos (Or.inr (not_lt.1 fun hlt => hdeep ⟨hne, hlt⟩))]
          exact .nil _ _ _ _ _
      refine (ih s₁ _ (b :: visited) assumed₁).weaken (fun _ h => h) (fun r t h => ?_) fun _ h => h
      obtain ⟨ds', hds', hsum'⟩ := h
      refine ⟨_, .drain (not_le.1 hbeyond) hnew clears hnone hds', ?_⟩
      rw [hsum', List.nil_append, drained_cons, Nat.add_assoc]

/-- **Draining a level** hands out what the level's lister, its budget and those visited say. -/
theorem descends_drainLevel (depth : Nat) (s : State) (lister : MemberId) (budget : Nat)
    (visited : List MemberId) (assumed : Assumed) :
    Op.Triple (fun t => t = s) (drainLevel buyer saleMaturity depth lister budget visited assumed)
      (fun r t => ∃ ds, Descends buyer saleMaturity (depth - 1) lister
        (levelTargets s lister budget visited depth) s visited assumed ds t r.2.1 r.2.2 ∧
          r.1 = drained ds) fun _ => True := by
  induction depth generalizing s lister budget visited assumed with
  | zero =>
    unfold drainLevel
    refine .pure ?_
    rintro _ rfl
    exact ⟨[], .nil _ _ _ _ _, rfl⟩
  | succ depth ih =>
    unfold drainLevel levelTargets
    refine .ask_bind (.ite (fun hdust => .pure ?_) fun hdust => .check_bind trivial fun self hself => ?_)
    · rintro _ rfl
      rw [if_pos (Or.inr hdust)]
      exact ⟨[], .nil _ _ _ _ _, rfl⟩
    rw [if_neg (not_or.2 ⟨Nat.succ_ne_zero depth, hdust⟩), findMember_eq_ok.1 hself]
    refine .ask_bind (.ite (fun hempty => .pure ?_) fun _ => ?_)
    · rintro _ rfl
      refine ⟨[], ?_, rfl⟩
      dsimp only [allotted]
      rw [List.isEmpty_iff.1 hempty]
      exact .nil _ _ _ _ _
    · refine (descends_drainTargetsLoop ih lister _ s 0 visited assumed).weaken (fun _ h => h)
        (fun r t h => ?_) fun _ h => h
      obtain ⟨ds, hds, hsum⟩ := h
      exact ⟨ds, hds, by rw [hsum, Nat.zero_add]⟩

end Drains

/-! ### Taking over -/

/-- How a buyer takes over debts along the seller's listings: with a budget of dust none, and the
seller's own where it lists nobody. -/
def TakesOver (seller buyer : MemberId) (budget saleMaturity : Nat) (ds : List Drain) (s : State)
    (assumed : Assumed) (t : State) : Prop :=
  if budget ≤ s.params.dustMinor then ds = [] ∧ assumed = ∅ ∧ t = s
  else ∃ self, s.members[seller]? = some self ∧
    if self.beneficiaries.isEmpty then
      ∃ cleared, ds = [⟨seller, budget, cleared⟩] ∧
        Op.exec (clearMemberDebts seller buyer budget saleMaturity ∅) s = (.ok (cleared, assumed), t)
    else ∃ visited, Descends buyer saleMaturity (Constants.maxCascadeDepth - 1) seller
      (levelTargets s seller budget [buyer] Constants.maxCascadeDepth) s [buyer] ∅ ds t visited assumed

/-- What a buyer takes over: the drains it took, each member once and none beyond its share, the
buyer never, and no more in all than the budget. -/
structure TakenOver (seller buyer : MemberId) (budget saleMaturity : Nat) (ds : List Drain)
    (s : State) (assumed : Assumed) (t : State) : Prop where
  takes : TakesOver seller buyer budget saleMaturity ds s assumed t
  drains : Drains buyer saleMaturity ds s ∅ t assumed
  once : (ds.map Drain.member).Nodup
  spared : buyer ∉ ds.map Drain.member
  share : ∀ d ∈ ds, d.cleared ≤ d.share
  within : drained ds ≤ budget

theorem takenOver_nil {seller buyer : MemberId} {budget saleMaturity : Nat} {s : State}
    (hdust : budget ≤ s.params.dustMinor) :
    TakenOver seller buyer budget saleMaturity [] s ∅ s where
  takes := by
    unfold TakesOver
    rw [if_pos hdust]
    exact ⟨rfl, rfl, rfl⟩
  drains := .nil _ _
  once := List.nodup_nil
  spared := fun hb => nomatch hb
  share := fun d hd => nomatch hd
  within := Nat.zero_le _

/-- **Taking over**, where it accepts. -/
theorem takenOver_takeOver {seller buyer : MemberId} (hne : seller ≠ buyer)
    (budget saleMaturity : Nat) (s : State) :
    Op.Triple (fun t => t = s) (takeOver seller buyer budget saleMaturity)
      (fun r t => ∃ ds, TakenOver seller buyer budget saleMaturity ds s r.2 t ∧ r.1 = drained ds)
      fun _ => True := by
  unfold takeOver
  refine .ask_bind (.ite (fun hdust => ?_) fun hdust => .check_bind trivial fun self hself => ?_)
  · refine .pure ?_
    rintro _ rfl
    exact ⟨[], takenOver_nil hdust, rfl⟩
  refine .ite (fun hempty => ?_) fun hlists => .ok_bind fun r t hexec => .pure ?_
  · rintro _ rfl
    rcases hexec : Op.exec (clearMemberDebts seller buyer budget saleMaturity ∅) _ with ⟨_ | r, t⟩
    · trivial
    have hpass := (passed_clearMemberDebts seller buyer budget saleMaturity ∅ _).ok rfl hexec
    have hle : r.1 ≤ budget := hpass.2.2.1 (Nat.zero_le _)
    refine ⟨[⟨seller, budget, r.1⟩], ⟨?_, .cons hexec (.nil _ _), by simp, ?_, ?_, ?_⟩, ?_⟩
    · unfold TakesOver
      rw [if_neg hdust]
      refine ⟨self, findMember_eq_ok.1 hself, ?_⟩
      rw [if_pos hempty]
      exact ⟨r.1, rfl, hexec⟩
    · simpa using Ne.symm hne
    · simpa using hle
    · simpa [drained] using hle
    · simp [drained]
  · rintro _ rfl
    obtain ⟨ds, hds, hsum⟩ :=
      (descends_drainLevel Constants.maxCascadeDepth s seller budget [buyer] ∅).ok rfl hexec
    have htakes := (succeeds_drainLevel buyer saleMaturity Constants.maxCascadeDepth s seller self
      (findMember_eq_ok.1 hself) budget [buyer] ∅).ok hexec
    obtain ⟨hdrains, -, hnodup, hnew, hshare⟩ := hds.drained
    refine ⟨ds, ⟨?_, hdrains, hnodup, fun hb => ?_, hshare, hsum ▸ htakes.2.2⟩, hsum⟩
    · unfold TakesOver
      rw [if_neg hdust]
      refine ⟨self, findMember_eq_ok.1 hself, ?_⟩
      rw [if_neg hlists]
      exact ⟨_, hds⟩
    · obtain ⟨d, hd, rfl⟩ := List.mem_map.1 hb
      exact (hnew d hd).1 List.mem_cons_self

end Cascade

end Edet
