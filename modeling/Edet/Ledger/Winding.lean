import Edet.Ledger.Frames
import Edet.Kernel.Waterfill

/-!
# Winding obligations down

Repaying, netting and taking over move what is owed without opening anything new:
every row and every contract stays, a contract keeps its debtor, and no debt grows
(`Winds`). None of these steps refuses where the contracts it walks are there with
their debtors' rows, and what they report adds up: a cascade takes over at most its
budget, and what it gathers for the buyer is exactly what it says it spent
(`succeeds_takeOver`).

So the only refusal left in a sale, once it has begun to write, is the buyer's new
debt not fitting (`succeeds_originate`).
-/

namespace Edet

open Edet.Flow

/-- Rows and contracts stay, contracts keep their debtors, and no debt grows. -/
structure Winds (s s' : State) : Prop where
  row : ∀ (id : MemberId) (m : Member), s.members[id]? = some m →
    ∃ m', s'.members[id]? = some m' ∧ m'.debtOut ≤ m.debtOut
  contract : ∀ (id : ContractId) (c : Contract), s.contracts[id]? = some c →
    ∃ c', s'.contracts[id]? = some c' ∧ c'.debtor = c.debtor

namespace Winds

theorem refl (s : State) : Winds s s := ⟨fun _ m h => ⟨m, h, le_refl _⟩, fun _ c h => ⟨c, h, rfl⟩⟩

theorem trans {s s' s'' : State} (h : Winds s s') (h' : Winds s' s'') : Winds s s'' where
  row id m hm := by
    obtain ⟨m', hm', hle⟩ := h.row id m hm
    obtain ⟨m'', hm'', hle'⟩ := h'.row id m' hm'
    exact ⟨m'', hm'', hle'.trans hle⟩
  contract id c hc := by
    obtain ⟨c', hc', heq⟩ := h.contract id c hc
    obtain ⟨c'', hc'', heq'⟩ := h'.contract id c' hc'
    exact ⟨c'', hc'', heq'.trans heq⟩

theorem of_eq {s s' : State} (hm : s'.members = s.members) (hc : s'.contracts = s.contracts) :
    Winds s s' := by
  refine ⟨fun id m h => ⟨m, ?_, le_refl _⟩, fun id c h => ⟨c, ?_, rfl⟩⟩
  · rw [hm, h]
  · rw [hc, h]

theorem modMember (s : State) (id : MemberId) {f : Member → Member}
    (hf : ∀ m, (f m).debtOut ≤ m.debtOut) : Winds s (s.modMember id f) := by
  refine ⟨fun a m h => ⟨if id = a then f m else m, ?_, ?_⟩, fun a c h => ⟨c, h, rfl⟩⟩
  · rw [State.modMember, OrdMap.getElem?_modify_map, h]
    rfl
  · split
    · exact hf m
    · exact le_refl _

theorem modContract (s : State) (id : ContractId) {f : Contract → Contract}
    (hf : ∀ c, (f c).debtor = c.debtor) : Winds s (s.modContract id f) := by
  refine ⟨fun a m h => ⟨m, h, le_refl _⟩, fun a c h => ⟨if id = a then f c else c, ?_, ?_⟩⟩
  · rw [State.modContract, OrdMap.getElem?_modify_map, h]
    rfl
  · split
    · exact hf c
    · rfl

/-- A contract whose debtor has a row keeps both. -/
theorem owed {s s' : State} (h : Winds s s') {id : ContractId}
    (hc : ∃ c m, s.contracts[id]? = some c ∧ s.members[c.debtor]? = some m) :
    ∃ c m, s'.contracts[id]? = some c ∧ s'.members[c.debtor]? = some m := by
  obtain ⟨c, m, hc, hm⟩ := hc
  obtain ⟨c', hc', heq⟩ := h.contract id c hc
  obtain ⟨m', hm', -⟩ := h.row _ m hm
  exact ⟨c', m', hc', heq ▸ hm'⟩

end Winds

/-- The contract is there, and its debtor has a row. -/
def Owed (s : State) (id : ContractId) : Prop :=
  ∃ c m, s.contracts[id]? = some c ∧ s.members[c.debtor]? = some m

theorem Owed.winds {s s' : State} {id : ContractId} (h : Owed s id) (hw : Winds s s') :
    Owed s' id := hw.owed h

namespace Apply

/-! ### Single steps -/

theorem succeeds_member {s : State} {id : MemberId} {m : Member} {Q : Member → State → Prop}
    (hm : s.members[id]? = some m) (h : Q m s) : Op.Succeeds (member id) s Q :=
  .check (findMember_eq_ok.2 hm) h

theorem succeeds_memberMut {s : State} {id : MemberId} {m : Member} {f : Member → Member}
    {Q : Unit → State → Prop} (hm : s.members[id]? = some m) (h : Q () (s.modMember id f)) :
    Op.Succeeds (memberMut id f) s Q :=
  .bind (succeeds_member (Q := fun _ s' => s' = s) hm rfl) fun _ _ hs => .write (hs ▸ h)

theorem succeeds_contract {s : State} {id : ContractId} {c : Contract} {Q : Contract → State → Prop}
    (hc : s.contracts[id]? = some c) (h : Q c s) : Op.Succeeds (contract id) s Q :=
  .check (findContract_eq_ok.2 hc) h

theorem succeeds_contractMut {s : State} {id : ContractId} {c : Contract}
    {f : Contract → Contract} {Q : Unit → State → Prop} (hc : s.contracts[id]? = some c)
    (h : Q () (s.modContract id f)) : Op.Succeeds (contractMut id f) s Q :=
  .bind (succeeds_contract (Q := fun _ s' => s' = s) hc rfl) fun _ _ hs => .write (hs ▸ h)

theorem winds_reserve (s : State) (debtor : MemberId) (want : Nat) :
    Winds s (s.reserveCapacityMinor debtor want).2 := by
  unfold State.reserveCapacityMinor
  split
  · exact .refl s
  · exact .of_eq rfl rfl

theorem succeeds_rehold {s : State} {id : ContractId} {c : Contract}
    (hc : s.contracts[id]? = some c) : Op.Succeeds (rehold id) s fun _ => Winds s := by
  unfold rehold
  refine .bind (succeeds_contract (Q := fun c' s' => c = c' ∧ s = s') hc ⟨rfl, rfl⟩) ?_
  rintro _ _ ⟨rfl, rfl⟩
  refine .ite (fun _ => .pure (.refl _)) fun _ => .ite (fun _ => ?_) fun _ => ?_
  · refine .ite (fun _ => .pure (.refl _)) fun _ => ?_
    refine .bind (.write (Q := fun _ s' => Winds s s' ∧ s'.contracts[id]? = some c)
      ⟨.of_eq rfl rfl, hc⟩) fun _ s' hs => ?_
    exact succeeds_contractMut hs.2 (hs.1.trans (.modContract _ _ fun _ => rfl))
  · refine .bind_ask (.ite (fun _ => ?_) fun _ => .pure (.refl _))
    have hw := winds_reserve s c.debtor (if c.status.live then c.outstanding else 0)
    obtain ⟨c', hc', -⟩ := hw.contract id c hc
    refine .bind (.draw (Q := fun _ s' => Winds s s' ∧ s'.contracts[id]? = some c')
      ⟨hw, hc'⟩) fun held s' hs => ?_
    cases held with
    | none => exact succeeds_contractMut hs.2 (hs.1.trans (.modContract _ _ fun _ => rfl))
    | some h => exact succeeds_contractMut hs.2 (hs.1.trans (.modContract _ _ fun _ => rfl))

theorem winds_dischargeCredit (debtor creditor : MemberId) (amount : Nat) (s : State) :
    Winds s (dischargeCredit debtor creditor amount s) := by
  unfold dischargeCredit
  split
  · exact .refl s
  · exact .of_eq rfl rfl

/-! ### Netting and repaying -/

/-- A contract netted by more than dust is netted by all there is of it. -/
theorem succeeds_dischargeHop {s : State} {id : ContractId} {c : Contract} {m : Member}
    (hc : s.contracts[id]? = some c) (hm : s.members[c.debtor]? = some m) (want : Nat) :
    Op.Succeeds (dischargeHop id want) s fun take s' =>
      Winds s s' ∧ (s.params.dustMinor < min want c.outstanding → take = min want c.outstanding) := by
  unfold dischargeHop
  refine .bind_ask ?_
  refine .bind (succeeds_contract (Q := fun c' s' => c = c' ∧ s = s') hc ⟨rfl, rfl⟩) ?_
  rintro _ _ ⟨rfl, rfl⟩
  refine .ite (fun hle => .pure ⟨.refl _, fun hlt => absurd hle (not_le.2 hlt)⟩) fun _ => ?_
  refine .bind (Q := fun _ => Winds s) (succeeds_contractMut hc (.modContract _ _ fun _ => rfl))
    fun _ s₁ h₁ => ?_
  obtain ⟨m₁, hm₁, -⟩ := h₁.row _ m hm
  refine .bind (Q := fun _ => Winds s) (succeeds_memberMut hm₁ (h₁.trans (.modMember _ _ fun _ => ?_)))
    fun _ s₂ h₂ => ?_
  · exact Nat.sub_le _ _
  obtain ⟨c₂, hc₂, -⟩ := h₂.contract id c hc
  refine .bind (succeeds_rehold hc₂) fun _ s₃ h₃ => ?_
  refine .bind (Q := fun _ => Winds s) (.write ?_) fun _ s₄ h₄ => .pure ⟨h₄, fun _ => rfl⟩
  exact h₂.trans (h₃.trans (winds_dischargeCredit _ _ _ _))

end Apply

namespace Cascade

open Apply

/-! ### Taking over -/

/-- What has been gathered for the buyer. -/
def gathered (assumed : Assumed) : Nat := OrdMap.total (fun _ slot => slot.1) assumed

theorem gathered_assume (assumed : Assumed) (creditor due amount accepted : Nat) (held : Held) :
    gathered (assume assumed creditor due amount accepted held) = gathered assumed + amount := by
  unfold gathered assume
  cases h : assumed[(creditor, due)]? with
  | none =>
    rw [OrdMap.total_insert_of_none h]
    simp [OrdMap.getD'_eq, h]
  | some slot =>
    have hsum := OrdMap.total_insert_of_some (f := fun _ (slot : Nat × Held × Nat) => slot.1) h
      (slot.1 + amount, mergeHeld slot.2.1 held, min slot.2.2 accepted)
    simp only [OrdMap.getD'_eq, h, Option.getD_some]
    exact Nat.add_right_cancel (m := slot.1) (hsum.trans (by ring))

/-- How a step of a cascade ends: what it says it took is what it gathered, and at most
`budget`. -/
def Takes (s : State) (before : Assumed) (budget : Nat) (r : Nat × Assumed) (s' : State) : Prop :=
  Winds s s' ∧ gathered r.2 = gathered before + r.1 ∧ r.1 ≤ budget

theorem succeeds_clearDebts {s : State} (buyer : MemberId) (budget saleMaturity : Nat)
    {ids : List ContractId} (h : ∀ id ∈ ids, Owed s id) {spent : Nat} {assumed before : Assumed}
    (hsum : gathered assumed = gathered before + spent) (hle : spent ≤ budget) :
    Op.Succeeds (clearDebts buyer budget saleMaturity ids spent assumed) s
      (Takes s before budget) := by
  induction ids generalizing s spent assumed with
  | nil => exact .pure ⟨.refl _, hsum, hle⟩
  | cons id ids ih =>
    -- The debts after this one are walked in a state that winds this one down.
    have hrest : ∀ {s₁ : State} {spent : Nat} {assumed : Assumed}, Winds s s₁ →
        gathered assumed = gathered before + spent → spent ≤ budget →
        Op.Succeeds (clearDebts buyer budget saleMaturity ids spent assumed) s₁
          (Takes s before budget) := by
      intro s₁ spent assumed h₁ hsum hle
      refine (ih (fun id' hid' => (h id' (by simp [hid'])).winds h₁) hsum hle).weaken ?_
      exact fun r s₂ hr => ⟨h₁.trans hr.1, hr.2⟩
    obtain ⟨c, m, hc, hm⟩ := h id (by simp)
    unfold clearDebts
    refine .bind_ask (.ite (fun _ => .pure ⟨.refl _, hsum, hle⟩) fun _ => ?_)
    refine .bind (succeeds_contract (Q := fun c' s' => c = c' ∧ s = s') hc ⟨rfl, rfl⟩) ?_
    rintro _ _ ⟨rfl, rfl⟩
    refine .bind_ask (.ite (fun _ => hrest (.refl _) hsum hle) fun _ => ?_)
    refine .bind_ask (.ite (fun _ => hrest (.refl _) hsum hle) fun htake => ?_)
    refine .bind (Q := fun _ => Winds s) (.write (.of_eq rfl rfl)) fun _ s₁ h₁ => ?_
    obtain ⟨c₁, hc₁, -⟩ := h₁.contract id c hc
    refine .bind (Q := fun _ => Winds s)
      (succeeds_contractMut hc₁ (h₁.trans (.modContract _ _ fun _ => rfl))) fun _ s₂ h₂ => ?_
    refine .bind (Q := fun _ => Winds s) (.draw (h₂.trans (winds_reserve _ _ _)))
      fun got s₃ h₃ => ?_
    obtain ⟨c₃, hc₃, -⟩ := h₃.contract id c hc
    cases got with
    | none =>
      refine .bind (succeeds_rehold hc₃) fun _ s₄ h₄ => ?_
      exact hrest (h₃.trans h₄) hsum hle
    | some held =>
      refine .bind (Q := fun _ => Winds s)
        (succeeds_contractMut hc₃ (h₃.trans (.modContract _ _ fun _ => rfl))) fun _ s₄ h₄ => ?_
      obtain ⟨m₄, hm₄, -⟩ := h₄.row _ m hm
      refine .bind (Q := fun _ => Winds s)
        (succeeds_memberMut hm₄ (h₄.trans (.modMember _ _ fun _ => Nat.sub_le _ _)))
        fun _ s₅ h₅ => ?_
      obtain ⟨c₅, hc₅, -⟩ := h₅.contract id c hc
      refine .bind (succeeds_rehold hc₅) fun _ s₆ h₆ => hrest (h₅.trans h₆) ?_ ?_
      · rw [gathered_assume, hsum, Nat.add_assoc]
      · omega

theorem succeeds_clearMemberDebts {s : State} {debtor : MemberId} {m : Member}
    (hm : s.members[debtor]? = some m) (buyer : MemberId) (budget saleMaturity : Nat)
    (assumed : Assumed) :
    Op.Succeeds (clearMemberDebts debtor buyer budget saleMaturity assumed) s
      (Takes s assumed budget) := by
  unfold clearMemberDebts
  refine .bind_ask (succeeds_clearDebts buyer budget saleMaturity (fun id hid => ?_) ?_ ?_)
  · unfold clearable at hid
    obtain ⟨p, hp, rfl⟩ := List.mem_map.1 hid
    rw [List.mem_filter, OrdMap.mem_toList] at hp
    have hdebtor : p.2.debtor = debtor := by
      have := hp.2
      simp only [Bool.decide_and] at this
      simp_all
    exact ⟨p.2, m, hp.1, hdebtor ▸ hm⟩
  · rfl
  · exact Nat.zero_le _

theorem known_of_drainTargets {s : State} {lister : MemberId} {visited : List MemberId}
    {self : Member} (hself : s.members[lister]? = some self) {b : MemberId} {need : Nat} {w : F64}
    (h : (b, need, w) ∈ drainTargets s lister visited self) : ∃ m, s.members[b]? = some m := by
  unfold drainTargets at h
  obtain ⟨p, -, hp⟩ := List.mem_filterMap.1 h
  simp only at hp
  split at hp
  · cases hp
  split at hp
  · next heq =>
    simp only [Option.some.injEq, Prod.mk.injEq] at hp
    exact ⟨self, by rw [← hp.1, heq, hself]⟩
  · split at hp
    · cases hp
    · next bm hbm =>
      split at hp
      · cases hp
      · simp only [Option.some.injEq, Prod.mk.injEq] at hp
        exact ⟨bm, by rw [← hp.1, hbm]⟩

theorem sum_map_snd_zip_le {α : Type} (l : List α) (amounts : List Nat) :
    ((l.zip amounts).map Prod.snd).sum ≤ amounts.sum := by
  induction l generalizing amounts with
  | nil => simp
  | cons x l ih =>
    cases amounts with
    | nil => simp
    | cons a amounts =>
      have := ih amounts
      simp only [List.zip_cons_cons, List.map_cons, List.sum_cons]
      omega

/-- The loop over one level's targets, given what going one level deeper does. -/
theorem succeeds_drainTargetsLoop {buyer : MemberId} {saleMaturity depth : Nat}
    (hdeeper : ∀ (s : State) (lister : MemberId) (m : Member), s.members[lister]? = some m →
      ∀ (budget : Nat) (visited : List MemberId) (assumed : Assumed),
        Op.Succeeds (drainLevel buyer saleMaturity depth lister budget visited assumed) s
          fun r => Takes s assumed budget (r.1, r.2.2))
    {s : State} (lister : MemberId) {targets : List (MemberId × Nat)}
    (h : ∀ p ∈ targets, ∃ m, s.members[p.1]? = some m) {absorbed budget : Nat}
    (visited : List MemberId) {assumed before : Assumed}
    (hsum : gathered assumed = gathered before + absorbed)
    (hle : absorbed + (targets.map Prod.snd).sum ≤ budget) :
    Op.Succeeds (drainTargetsLoop buyer saleMaturity depth lister targets absorbed visited assumed)
      s fun r => Takes s before budget (r.1, r.2.2) := by
  induction targets generalizing s absorbed visited assumed with
  | nil =>
    unfold drainTargetsLoop
    exact .pure ⟨.refl _, hsum, by simpa using hle⟩
  | cons target rest ih =>
    obtain ⟨b, share⟩ := target
    simp only [List.map_cons, List.sum_cons] at hle
    have hrest : ∀ {s₁ : State} {absorbed : Nat} (visited : List MemberId) {assumed : Assumed},
        Winds s s₁ → gathered assumed = gathered before + absorbed →
        absorbed + (rest.map Prod.snd).sum ≤ budget →
        Op.Succeeds (drainTargetsLoop buyer saleMaturity depth lister rest absorbed visited assumed)
          s₁ fun r => Takes s before budget (r.1, r.2.2) := by
      intro s₁ absorbed visited assumed h₁ hsum hle
      refine (ih (fun p hp => ?_) visited hsum hle).weaken
        fun r s₂ hr => ⟨h₁.trans hr.1, hr.2⟩
      obtain ⟨m, hm⟩ := h p (by simp [hp])
      obtain ⟨m₁, hm₁, -⟩ := h₁.row _ m hm
      exact ⟨m₁, hm₁⟩
    obtain ⟨m, hm⟩ := h (b, share) (by simp)
    unfold drainTargetsLoop
    refine .bind_ask (.ite (fun _ => hrest visited (.refl _) hsum (by omega)) fun _ => ?_)
    refine .bind (succeeds_clearMemberDebts hm buyer share saleMaturity assumed) ?_
    rintro ⟨cleared, assumed₁⟩ s₁ ⟨h₁, hsum₁, hle₁⟩
    simp only at hsum₁ hle₁
    refine .ite (fun _ => ?_) fun _ => hrest _ h₁ (by rw [hsum₁, hsum]; omega) (by omega)
    obtain ⟨m₁, hm₁, -⟩ := h₁.row _ m hm
    refine .bind (hdeeper s₁ b m₁ hm₁ (share - cleared) (b :: visited) assumed₁) ?_
    rintro ⟨deeper, visited₂, assumed₂⟩ s₂ ⟨h₂, hsum₂, hle₂⟩
    simp only at hsum₂ hle₂
    exact hrest _ (h₁.trans h₂) (by rw [hsum₂, hsum₁, hsum]; omega) (by omega)

theorem succeeds_drainLevel (buyer : MemberId) (saleMaturity depth : Nat) (s : State)
    (lister : MemberId) (m : Member) (hm : s.members[lister]? = some m) (budget : Nat)
    (visited : List MemberId) (assumed : Assumed) :
    Op.Succeeds (drainLevel buyer saleMaturity depth lister budget visited assumed) s
      fun r => Takes s assumed budget (r.1, r.2.2) := by
  induction depth generalizing s lister m budget visited assumed with
  | zero =>
    unfold drainLevel
    exact .pure ⟨.refl _, rfl, Nat.zero_le _⟩
  | succ depth ih =>
    unfold drainLevel
    refine .bind_ask (.ite (fun _ => .pure ⟨.refl _, rfl, Nat.zero_le _⟩) fun _ => ?_)
    refine .bind (succeeds_member (Q := fun m' s' => m = m' ∧ s = s') hm ⟨rfl, rfl⟩) ?_
    rintro _ _ ⟨rfl, rfl⟩
    refine .bind_ask (.ite (fun _ => .pure ⟨.refl _, rfl, Nat.zero_le _⟩) fun _ => ?_)
    refine succeeds_drainTargetsLoop (fun s lister m hm => ih s lister m hm) lister (fun p hp => ?_)
      visited rfl ?_
    · obtain ⟨⟨b, need, w⟩, hbw, hb⟩ := List.mem_map.1 (List.of_mem_zip hp).1
      obtain ⟨m', hm'⟩ := known_of_drainTargets hm hbw
      exact ⟨m', by rw [← hb, hm']⟩
    · have hzip := sum_map_snd_zip_le ((drainTargets s lister visited m).map Prod.fst)
        (waterfillMinor ((drainTargets s lister visited m).map Prod.snd) budget)
      have := waterfillMinor_sum ((drainTargets s lister visited m).map Prod.snd) budget
      omega

/-- A member's row is there, and `amount` more still fits on its debt. -/
def Fits (id : MemberId) (amount : Nat) (s : State) : Prop :=
  ∃ m, s.members[id]? = some m ∧ m.debtOut + amount < 2 ^ 64

theorem Fits.winds {id : MemberId} {amount : Nat} {s s' : State} (h : Fits id amount s)
    (hw : Winds s s') : Fits id amount s' := by
  obtain ⟨m, hm, hfit⟩ := h
  obtain ⟨m', hm', hle⟩ := hw.row id m hm
  exact ⟨m', hm', by omega⟩

theorem Fits.mono {id : MemberId} {amount amount' : Nat} {s : State} (h : Fits id amount s)
    (hle : amount' ≤ amount) : Fits id amount' s := by
  obtain ⟨m, hm, hfit⟩ := h
  exact ⟨m, hm, by omega⟩

theorem Fits.modMember {id : MemberId} {amount : Nat} {s : State} {m : Member}
    {f : Member → Member} (hm : s.members[id]? = some m) (h : (f m).debtOut + amount < 2 ^ 64) :
    Fits id amount (s.modMember id f) := by
  refine ⟨f m, ?_, h⟩
  rw [State.modMember, OrdMap.getElem?_modify_map, hm, Option.map_some, if_pos rfl]

end Cascade

end Edet
