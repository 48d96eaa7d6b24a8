import Edet.Ledger.Backing
import Edet.Ledger.Conservative
import Edet.Ledger.SeatBound
import Mathlib.Algebra.Order.Floor.Div

/-!
# Installments

How many repayments a contract can still take (`Contract.repaymentsLeft`): what it owes, divided
by the least installment and rounded up, and while it is active a whole plan more but one, for a
default may turn it into the claim of an underwriter, whose installments are counted anew.

Nothing raises it. Netting, cascades and transfers lower what is owed and leave the installment
alone; a default gives up the reserve for the new plan (`worn_expired`, `worn_claim`). A repayment
lowers it by one at least (`worn_repaid`), whether it is an installment or closes the contract.
Only a redenomination moves the installment of a contract that stands (`Event.KeepsUnit`).

One plan bounds all repayments of a contract where no default makes it another claim once it has
been settled in part (`KeptOnPlan`): a contract leaves its plan once at most, when it ceases to be
active (`OnePlan`), and then nothing has been repaid yet (`WithinPlan`). Where one does, there are
more (`not_one_plan`).
-/

namespace Edet

open Edet.Flow Constants

/-- The installments there are in what a contract owes. -/
def Contract.installments (c : Contract) : Nat := c.outstanding * maxInstallments ⌈/⌉ c.original

/-- How many repayments a contract can still take. -/
def Contract.repaymentsLeft (c : Contract) : Nat :=
  match c.status with
  | .active => c.installments + (maxInstallments - 1)
  | .expired => c.installments
  | _ => 0

/-- No contract can take more. -/
def mostRepayments : Nat := maxInstallments + (maxInstallments - 1)

/-- How many installments the plan of a contract has left. -/
def Contract.planLeft (c : Contract) : Nat := if c.status.live then c.installments else 0

/-- A contract owes no more than it did at first. -/
def Contract.Partial (c : Contract) : Prop := c.outstanding ≤ c.original

namespace Contract

variable {c c' : Contract}

theorem installments_le (h : c.Partial) : c.installments ≤ maxInstallments := by
  unfold installments
  rcases Nat.eq_zero_or_pos c.original with h0 | hpos
  · rw [h0, ceilDiv_zero]
    exact Nat.zero_le _
  · rw [ceilDiv_le_iff_le_mul hpos]
    exact Nat.mul_le_mul_right _ h

theorem installments_mono (horiginal : c'.original = c.original)
    (hle : c'.outstanding ≤ c.outstanding) : c'.installments ≤ c.installments := by
  unfold installments
  rw [horiginal]
  rcases Nat.eq_zero_or_pos c.original with h0 | hpos
  · rw [h0, ceilDiv_zero]
    exact Nat.zero_le _
  · rw [ceilDiv_le_iff_le_mul hpos]
    calc c'.outstanding * maxInstallments ≤ c.outstanding * maxInstallments :=
          Nat.mul_le_mul_right _ hle
      _ ≤ c.original * (c.outstanding * maxInstallments ⌈/⌉ c.original) := le_smul_ceilDiv hpos

theorem installments_pos (h : c.Partial) (howed : 0 < c.outstanding) : 0 < c.installments := by
  have hpos : 0 < c.original := howed.trans_le h
  have hle : c.outstanding * maxInstallments ≤ c.original * c.installments := le_smul_ceilDiv hpos
  have howes : 0 < c.outstanding * maxInstallments := Nat.mul_pos howed (by decide)
  exact Nat.pos_of_mul_pos_left (howes.trans_le hle)

/-- An installment leaves one less. -/
theorem installments_lt (horiginal : c'.original = c.original) {amount : Nat}
    (hpaid : c'.outstanding + amount ≤ c.outstanding) (hpos : 0 < c.original)
    (hfloor : c.original ≤ amount * maxInstallments) : c'.installments < c.installments := by
  have hle : c.outstanding * maxInstallments ≤ c.original * c.installments := le_smul_ceilDiv hpos
  have hmul : (c'.outstanding + amount) * maxInstallments ≤ c.outstanding * maxInstallments :=
    Nat.mul_le_mul_right _ hpaid
  rw [Nat.add_mul] at hmul
  have hleft : c'.outstanding * maxInstallments + c.original ≤ c.original * c.installments := by omega
  have hone : 0 < c.installments := by
    rcases Nat.eq_zero_or_pos c.installments with h0 | h
    · rw [h0, Nat.mul_zero] at hleft
      omega
    · exact h
  have hfewer : c'.installments ≤ c.installments - 1 := by
    unfold installments at hleft hone ⊢
    rw [horiginal, ceilDiv_le_iff_le_mul hpos, Nat.mul_sub, Nat.mul_one]
    omega
  omega

theorem planLeft_le (h : c.Partial) : c.planLeft ≤ maxInstallments := by
  unfold planLeft
  split
  · exact installments_le h
  · exact Nat.zero_le _

/-- What takes a repayment off a contract that keeps its status takes one off its plan. -/
theorem planLeft_lt (hpos : 0 < c.installments)
    (hstays : c'.status = c.status ∨ c'.status.live = false)
    (hfewer : c'.repaymentsLeft < c.repaymentsLeft) : c'.planLeft < c.planLeft := by
  unfold repaymentsLeft at hfewer
  unfold planLeft
  rcases hstays with hsame | hclosed
  · rw [hsame] at hfewer ⊢
    cases hstatus : c.status <;> rw [hstatus] at hfewer <;> simp [ContractStatus.live] at hfewer ⊢ <;>
      exact hfewer
  · rw [hclosed]
    cases hstatus : c.status <;> rw [hstatus] at hfewer <;> simp [ContractStatus.live] at hfewer ⊢ <;>
      exact hpos

theorem repaymentsLeft_le (h : c.Partial) : c.repaymentsLeft ≤ mostRepayments := by
  have hle := installments_le h
  unfold repaymentsLeft mostRepayments
  split <;> omega

end Contract

/-- The contract is on the plan it was on: the amount it began with stays, and it owes no more. -/
structure SamePlan (c c' : Contract) : Prop where
  original : c'.original = c.original
  outstanding : c'.outstanding ≤ c.outstanding

theorem SamePlan.refl (c : Contract) : SamePlan c c := ⟨rfl, le_rfl⟩

theorem SamePlan.trans {c c' c'' : Contract} (h : SamePlan c c') (h' : SamePlan c' c'') :
    SamePlan c c'' := ⟨h'.original.trans h.original, h'.outstanding.trans h.outstanding⟩

/-- On the same plan no installment is added. -/
theorem SamePlan.planLeft_le {c c' : Contract} (h : SamePlan c c')
    (hlive : c'.status.live = true → c.status.live = true) : c'.planLeft ≤ c.planLeft := by
  unfold Contract.planLeft
  split
  · next hlive' =>
    rw [if_pos (hlive hlive')]
    exact Contract.installments_mono h.original h.outstanding
  · exact Nat.zero_le _

instance (c c' : Contract) : Decidable (SamePlan c c') :=
  decidable_of_iff (c'.original = c.original ∧ c'.outstanding ≤ c.outstanding)
    ⟨fun h => ⟨h.1, h.2⟩, fun h => ⟨h.original, h.outstanding⟩⟩

/-- A contract is on one plan as long as it is active and from then on, and does not come back. -/
structure OnePlan (c c' : Contract) : Prop where
  active : c'.status = .active → SamePlan c c'
  stays : c.status ≠ .active → SamePlan c c' ∧ c'.status ≠ .active
  live : c'.status.live = true → c.status.live = true

theorem OnePlan.refl (c : Contract) : OnePlan c c :=
  ⟨fun _ => .refl c, fun h => ⟨.refl c, h⟩, fun h => h⟩

theorem OnePlan.trans {c c' c'' : Contract} (h : OnePlan c c') (h' : OnePlan c' c'') :
    OnePlan c c'' where
  active hactive := by
    have hbefore : c'.status = .active := not_imp_comm.1 (fun hne => (h'.stays hne).2) (not_not.2 hactive)
    exact (h.active hbefore).trans (h'.active hactive)
  stays hne := by
    obtain ⟨hsame, hne'⟩ := h.stays hne
    obtain ⟨hsame', hne''⟩ := h'.stays hne'
    exact ⟨hsame.trans hsame', hne''⟩
  live hlive := h.live (h'.live hlive)

/-- What stays on its plan, with its status or closed. -/
theorem OnePlan.of_same {c c' : Contract} (hsame : SamePlan c c')
    (hstatus : c'.status = c.status ∨ c'.status.live = false) : OnePlan c c' where
  active _ := hsame
  stays hne := by
    refine ⟨hsame, ?_⟩
    rcases hstatus with hstatus | hclosed
    · exact hstatus ▸ hne
    · intro heq
      rw [heq] at hclosed
      cases hclosed
  live hlive := by
    rcases hstatus with hstatus | hclosed
    · exact hstatus ▸ hlive
    · rw [hclosed] at hlive
      cases hlive

/-- What was active and has expired, on whatever plan. -/
theorem OnePlan.expired {c c' : Contract} (hactive : c.status = .active)
    (hexpired : c'.status = .expired) : OnePlan c c' where
  active h := by
    rw [hexpired] at h
    cases h
  stays hne := absurd hactive hne
  live _ := by
    rw [hactive]
    rfl

/-- A contract is worn: it owes no more than it did at first, can take no more repayments than
before, and leaves its plan by a default only. -/
def Worn (c c' : Contract) : Prop :=
  c.Partial → c'.Partial ∧ c'.repaymentsLeft ≤ c.repaymentsLeft ∧ OnePlan c c'

theorem Worn.refl (c : Contract) : Worn c c := fun h => ⟨h, le_rfl, .refl c⟩

/-- What is owed, the amount it began with and the status decide. -/
theorem Worn.of_eq {c c' : Contract} (houtstanding : c'.outstanding = c.outstanding)
    (horiginal : c'.original = c.original) (hstatus : c'.status = c.status) : Worn c c' := by
  have hplan : OnePlan c c' := .of_same ⟨horiginal, houtstanding.le⟩ (.inl hstatus)
  unfold Worn Contract.Partial Contract.repaymentsLeft Contract.installments
  rw [houtstanding, horiginal, hstatus]
  exact fun h => ⟨h, le_rfl, hplan⟩

/-- A contract that is closed takes no repayment. -/
theorem Worn.closed {c c' : Contract} (hsame : SamePlan c c') (hclosed : c'.status.live = false) :
    Worn c c' := by
  refine fun h => ⟨?_, ?_, .of_same hsame (.inr hclosed)⟩
  · have hle := hsame.outstanding
    unfold Contract.Partial at h ⊢
    rw [hsame.original]
    omega
  · unfold Contract.repaymentsLeft
    split
    · next heq =>
      rw [heq] at hclosed
      cases hclosed
    · next heq =>
      rw [heq] at hclosed
      cases hclosed
    · exact Nat.zero_le _

/-- Less is owed, and the status stays or the contract closes. -/
theorem worn_lowered {c c' : Contract} (horiginal : c'.original = c.original)
    (hle : c'.outstanding ≤ c.outstanding)
    (hstatus : c'.status = c.status ∨ c'.status.live = false) : Worn c c' := by
  rcases hstatus with hstatus | hclosed
  · intro h
    have hpart : c'.Partial := by
      unfold Contract.Partial at h ⊢
      omega
    refine ⟨hpart, ?_, .of_same ⟨horiginal, hle⟩ (.inl hstatus)⟩
    have hmono := Contract.installments_mono horiginal hle
    unfold Contract.repaymentsLeft
    rw [hstatus]
    split <;> omega
  · exact .closed ⟨horiginal, hle⟩ hclosed

/-- A default gives up the plan that was kept in reserve for it. -/
theorem worn_expired {c c' : Contract} (hactive : c.status = .active) (hexpired : c'.status = .expired)
    (horiginal : c'.original = c.original) (houtstanding : c'.outstanding = c.outstanding) :
    Worn c c' := by
  have hplan := OnePlan.expired hactive hexpired
  unfold Worn Contract.Partial Contract.repaymentsLeft Contract.installments
  rw [hactive, hexpired, horiginal, houtstanding]
  exact fun h => ⟨h, Nat.le_add_right _ _, hplan⟩

/-- The claim of an underwriter takes the plan's place. -/
theorem worn_claim {c c' : Contract} (hactive : c.status = .active) (howed : 0 < c.outstanding)
    (hexpired : c'.status = .expired) (hnew : c'.outstanding = c'.original) : Worn c c' := by
  intro h
  have hpart : c'.Partial := hnew.le
  have hle := Contract.installments_le hpart
  have hpos := Contract.installments_pos h howed
  refine ⟨hpart, ?_, .expired hactive hexpired⟩
  unfold Contract.repaymentsLeft
  rw [hactive, hexpired]
  dsimp only
  have hmost : 0 < maxInstallments := by decide
  omega

/-! ### States -/

/-- Only issued ids are in use, and no contract owes more than it did at first. -/
structure State.Plans (s : State) : Prop where
  issued : s.ContractsIssued
  partially : ∀ (id : ContractId) (c : Contract), s.contracts[id]? = some c → c.Partial

/-- How many repayments the contract of an id can still take, before it is opened and after. -/
def State.repaymentsLeft (s : State) (id : ContractId) : Nat :=
  match s.contracts[id]? with
  | some c => c.repaymentsLeft
  | none => if id < s.nextContract then 0 else mostRepayments

/-- How many installments the plan of an id's contract has left, before it is opened and after. -/
def State.planLeft (s : State) (id : ContractId) : Nat :=
  match s.contracts[id]? with
  | some c => c.planLeft
  | none => if id < s.nextContract then 0 else maxInstallments

theorem State.Plans.planLeft_le {s : State} (h : s.Plans) (id : ContractId) :
    s.planLeft id ≤ maxInstallments := by
  unfold State.planLeft
  split
  · next c hc => exact Contract.planLeft_le (h.partially id c hc)
  · split
    · exact Nat.zero_le _
    · exact le_rfl

/-- An id that is not yet in use has a whole plan before it. -/
theorem State.Plans.planLeft_new {s : State} (h : s.Plans) {id : ContractId}
    (hnew : s.nextContract ≤ id) : s.planLeft id = maxInstallments := by
  unfold State.planLeft
  rw [h.issued id hnew]
  exact if_neg (not_lt.2 hnew)

theorem State.Plans.repaymentsLeft_le {s : State} (h : s.Plans) (id : ContractId) :
    s.repaymentsLeft id ≤ mostRepayments := by
  unfold State.repaymentsLeft
  split
  · next c hc => exact Contract.repaymentsLeft_le (h.partially id c hc)
  · split
    · exact Nat.zero_le _
    · exact le_rfl

/-- Where a contract comes from: it stood before, and has left its plan by a default only, or its
id was not yet in use. -/
structure State.Planned (s s' : State) : Prop where
  next : s.nextContract ≤ s'.nextContract
  stood : ∀ (id : ContractId) (c' : Contract), s'.contracts[id]? = some c' →
    s.nextContract ≤ id ∨ ∃ c, s.contracts[id]? = some c ∧ OnePlan c c'

theorem State.Planned.refl (s : State) : s.Planned s :=
  ⟨le_rfl, fun _ c hc => .inr ⟨c, hc, .refl c⟩⟩

theorem State.Planned.trans {s s' s'' : State} (h : s.Planned s') (h' : s'.Planned s'') :
    s.Planned s'' where
  next := h.next.trans h'.next
  stood id c'' hc'' := by
    rcases h'.stood id c'' hc'' with hnew | ⟨c', hc', hplan'⟩
    · exact .inl (h.next.trans hnew)
    · rcases h.stood id c' hc' with hnew | ⟨c, hc, hplan⟩
      · exact .inl hnew
      · exact .inr ⟨c, hc, hplan.trans hplan'⟩

/-- No contract can take more repayments than before. -/
def Wears (s s' : State) : Prop :=
  s.Plans → s'.Plans ∧ (∀ id, s'.repaymentsLeft id ≤ s.repaymentsLeft id) ∧ s.Planned s'

instance : Std.Refl Wears := ⟨fun s h => ⟨h, fun _ => le_rfl, .refl s⟩⟩

instance : IsTrans State Wears := by
  refine ⟨fun s s' s'' h h' hs => ?_⟩
  obtain ⟨hs', hle, hplanned⟩ := h hs
  obtain ⟨hs'', hle', hplanned'⟩ := h' hs'
  exact ⟨hs'', fun id => (hle' id).trans (hle id), hplanned.trans hplanned'⟩

namespace Wears

theorem refl (s : State) : Wears s s := Std.Refl.refl s

theorem trans {s s' s'' : State} (h : Wears s s') (h' : Wears s' s'') : Wears s s'' :=
  IsTrans.trans _ _ _ h h'

theorem foldl {β : Type} {f : State → β → State} (h : ∀ s x, Wears s (f s x)) (l : List β)
    (s : State) : Wears s (l.foldl f s) := Op.Moves.foldl h l s

/-- No contract is opened, and those left are worn. -/
theorem of_worn {s s' : State} (hnext : s'.nextContract = s.nextContract)
    (h : ∀ (id : ContractId) (c' : Contract), s'.contracts[id]? = some c' →
      ∃ c, s.contracts[id]? = some c ∧ Worn c c') : Wears s s' := by
  intro hs
  have hissued : s'.ContractsIssued := by
    intro id hid
    cases hc' : s'.contracts[id]? with
    | none => rfl
    | some c' =>
      obtain ⟨c, hc, -⟩ := h id c' hc'
      rw [hs.issued id (hnext ▸ hid)] at hc
      cases hc
  refine ⟨⟨hissued, fun id c' hc' => ?_⟩, fun id => ?_, hnext.ge, fun id c' hc' => ?_⟩
  · obtain ⟨c, hc, hworn⟩ := h id c' hc'
    exact (hworn (hs.partially id c hc)).1
  · cases hc' : s'.contracts[id]? with
    | some c' =>
      obtain ⟨c, hc, hworn⟩ := h id c' hc'
      unfold State.repaymentsLeft
      rw [hc', hc]
      exact (hworn (hs.partially id c hc)).2.1
    | none =>
      rcases Nat.lt_or_ge id s.nextContract with hlt | hge
      · have hnone : s'.repaymentsLeft id = 0 := by
          unfold State.repaymentsLeft
          rw [hc', hnext]
          exact if_pos hlt
        exact hnone ▸ Nat.zero_le _
      · unfold State.repaymentsLeft
        rw [hc', hnext, hs.issued id hge]
  · obtain ⟨c, hc, hworn⟩ := h id c' hc'
    exact .inr ⟨c, hc, (hworn (hs.partially id c hc)).2.2⟩

theorem of_eq {s s' : State} (hcontracts : s'.contracts = s.contracts)
    (hnext : s'.nextContract = s.nextContract) : Wears s s' :=
  .of_worn hnext fun _ c' hc' => ⟨c', hcontracts ▸ hc', .refl c'⟩

theorem modContract {s : State} {id : ContractId} {f : Contract → Contract}
    (hf : ∀ c, s.contracts[id]? = some c → Worn c (f c)) : Wears s (s.modContract id f) := by
  refine .of_worn rfl fun a c' hc' => ?_
  rw [State.modContract, OrdMap.getElem?_modify_map, Option.map_eq_some_iff] at hc'
  obtain ⟨c, hc, rfl⟩ := hc'
  refine ⟨c, hc, ?_⟩
  split
  · next heq => exact hf c (heq ▸ hc)
  · exact .refl c

/-- A contract is opened at the next id, for the amount it owes. -/
theorem opened {s s' : State} (c : Contract) (hc : c.outstanding = c.original)
    (hcontracts : s'.contracts = s.contracts.insert s.nextContract c)
    (hnext : s'.nextContract = s.nextContract + 1) : Wears s s' := by
  have hget : ∀ id : ContractId,
      s'.contracts[id]? = if s.nextContract = id then some c else s.contracts[id]? := by
    intro id
    rw [hcontracts, Std.ExtTreeMap.getElem?_insert]
    simp only [Std.LawfulEqCmp.compare_eq_iff_eq]
  intro hs
  refine ⟨⟨fun id hid => ?_, fun id c' hc' => ?_⟩, fun id => ?_, hnext ▸ Nat.le_succ _,
    fun id c' hc' => ?_⟩
  · rw [hnext] at hid
    have hlt : s.nextContract < id := hid
    rw [hget, if_neg (Nat.ne_of_lt hlt)]
    exact hs.issued id (Nat.le_of_lt hlt)
  · rw [hget] at hc'
    split at hc'
    · cases hc'
      exact hc.le
    · exact hs.partially id c' hc'
  · unfold State.repaymentsLeft
    rw [hget]
    rcases eq_or_ne s.nextContract id with rfl | hne
    · rw [if_pos rfl, hs.issued _ le_rfl, if_neg (Nat.lt_irrefl _)]
      exact Contract.repaymentsLeft_le hc.le
    · rw [if_neg hne, hnext]
      cases s.contracts[id]? with
      | some c' => exact le_rfl
      | none =>
        have hiff : id < s.nextContract + 1 ↔ id < s.nextContract := by
          rw [Nat.lt_succ_iff, le_iff_lt_or_eq]
          exact or_iff_left fun heq => hne heq.symm
        simp only [hiff]
        exact le_rfl
  · rw [hget] at hc'
    split at hc'
    · next heq => exact .inl heq.le
    · exact .inr ⟨c', hc', .refl c'⟩

end Wears


namespace Apply

/-- A transition that wears the contracts. -/
abbrev WearsOut {α : Type} (op : Tr α) : Prop := Op.Moves Wears op

variable {s : State}

/-- What moves on from a worn state has worn it. -/
theorem WearsOut.after {α : Type} {op : Tr α} (h : WearsOut op) :
    Op.Triple (Wears s) op (fun _ => Wears s) (Wears s) := h.triple fun _ _ h hst => hst.trans h

theorem WearsOut.of_triple {α : Type} {op : Tr α}
    (h : ∀ s, Op.Triple (fun t => t = s) op (fun _ => Wears s) (Wears s)) : WearsOut op :=
  fun s => (h s).exec_snd rfl

theorem wears_memberMut (id : MemberId) (f : Member → Member) : WearsOut (memberMut id f) := by
  unfold memberMut
  exact .bind (.check _) fun _ => .write fun _ => .of_eq rfl rfl

theorem wears_contractMut {id : ContractId} {f : Contract → Contract} (hf : ∀ c, Worn c (f c)) :
    WearsOut (contractMut id f) := by
  unfold contractMut
  exact .bind (.check _) fun _ => .write fun _ => .modContract fun c _ => hf c

/-- A write to a contract that is known. -/
theorem triple_contractMut_known {P : State → Prop} {id : ContractId} {f : Contract → Contract}
    (hP : ∀ t, P t → Wears s t)
    (hf : ∀ t c, P t → t.contracts[id]? = some c → Worn c (f c)) :
    Op.Triple P (contractMut id f) (fun _ => Wears s) (Wears s) := by
  unfold contractMut
  refine .bind (Q := fun _ => P) (.check (fun _ _ ht _ => ht) hP) fun _ => .write fun t ht => ?_
  exact (hP t ht).trans (.modContract fun c hc => hf t c ht hc)

theorem wears_reserve (debtor : MemberId) (want : Nat) :
    WearsOut (Op.draw (·.reserveCapacityMinor debtor want)) := by
  refine .draw fun s => ?_
  unfold State.reserveCapacityMinor
  split <;> exact .of_eq rfl rfl

theorem wears_reserveIf (allowed : Bool) (debtor : MemberId) (amount : Nat) :
    WearsOut (reserveIf allowed debtor amount) := by
  unfold reserveIf
  exact .ite (fun _ => wears_reserve _ _) fun _ => .pure _

theorem wears_rehold (id : ContractId) : WearsOut (rehold id) := by
  have hheld : ∀ held, WearsOut (contractMut id fun c => { c with held }) := fun held =>
    wears_contractMut fun _ => .of_eq rfl rfl rfl
  unfold rehold
  refine .bind (.check _) fun c => .ite (fun _ => .pure _) fun _ => .ite (fun _ => ?_) fun _ => ?_
  · refine .ite (fun _ => .pure _) fun _ => ?_
    exact .bind (.write fun _ => .of_eq rfl rfl) fun _ => hheld _
  · refine .bind (.ask _) fun dust => .ite (fun _ => ?_) fun _ => .pure _
    refine .bind (wears_reserve _ _) fun held => ?_
    cases held with
    | none => exact wears_contractMut fun _ => .of_eq rfl rfl rfl
    | some h => exact hheld h

/-! ### Opening -/

theorem wears_openObligation (debtor creditor : MemberId) (amount maturityEpoch : Nat)
    (arb : Option ArbTerms) (held : Option Held) (acceptedEpoch : Nat) :
    WearsOut (openObligation debtor creditor amount maturityEpoch arb held acceptedEpoch) := by
  unfold openObligation
  refine .bind (.check _) fun debtOut => fun s => ?_
  -- the id read is the next one of the state that is written
  rw [Op.exec_bind, Op.exec_ask]
  dsimp only
  rw [Op.exec_bind, Op.exec_write]
  dsimp only
  exact .trans (.opened _ rfl rfl rfl) (Op.Moves.bind (wears_memberMut _ _) (fun _ => .pure _) _)

theorem wears_book (debtor creditor : MemberId) (amount maturityEpoch : Nat)
    (arb : Option ArbTerms) : WearsOut (book debtor creditor amount maturityEpoch arb) := by
  unfold book
  refine .bind (.check _) fun _ => .bind (.ask _) fun inside => ?_
  refine .bind (wears_reserveIf _ _ _) fun held => .bind (.ask _) fun _ => ?_
  exact wears_openObligation _ _ _ _ _ _ _

theorem wears_moveDebtor (c : Contract) (newDebtor : MemberId) (held : Option Held) :
    WearsOut (moveDebtor c newDebtor held) := by
  unfold moveDebtor successorHold
  refine .bind (.check _) fun _ => .bind (.write fun _ => .of_eq rfl rfl) fun _ => ?_
  refine .bind (wears_memberMut _ _) fun _ => ?_
  refine .bind (wears_contractMut fun cm => ?_) fun _ => .bind (.ask _) fun inside => .bind ?_ fun _ => ?_
  · exact .closed ⟨rfl, Nat.zero_le _⟩ rfl
  · cases held with
    | none => exact wears_reserveIf _ _ _
    | some h => exact .pure _
  · exact .bind (wears_openObligation _ _ _ _ _ _ _) fun _ => .pure _

/-! ### Substitution -/

theorem wears_substituteLeg (c : Contract) (maturityEpoch : Nat) (share : Share) :
    WearsOut (substituteLeg c maturityEpoch share) := by
  unfold substituteLeg substitutionLeg
  refine .ite (fun _ => .ite (fun _ => .pure _) fun _ => .bind (.check _) fun _ => ?_) fun _ => .pure _
  exact .bind (.write fun _ => .opened _ rfl rfl rfl) fun _ => wears_memberMut _ _

/-- The contract, active in `s` and above nothing, has been marked: its reserve is given up. -/
structure MarkedSince (s : State) (id : ContractId) (t : State) : Prop where
  wears : Wears s t
  claimed : ∀ creditor amount held, Wears s (t.modContract id fun cm =>
    { cm with creditor, outstanding := amount, original := amount, held })

/-- A substitution opens a plan in place of the one that was given up. -/
theorem wears_substitute {id : ContractId} {t : State} (h : MarkedSince s id t) :
    Wears s (Op.exec (substitute id) t).2 := by
  have hrest : ∀ (c : Contract) (maturity : Nat) (first : Share) (rest : List Share),
      WearsOut (do
        substituteLeg c maturity first
        rest.forM fun share => do
          Op.write (subrogatedClaim c share.underwriter share.amount share.held)
          substituteLeg c maturity share) := fun c maturity first rest =>
    .bind (wears_substituteLeg _ _ _) fun _ => .forM fun share _ =>
      .bind (.write fun _ => .opened _ rfl rfl rfl) fun _ => wears_substituteLeg _ _ _
  have hpure : Op.Triple (fun u => u = t) (pure () : Tr Unit) (fun _ => Wears s) (Wears s) :=
    .pure fun u hu => hu ▸ h.wears
  have hsub : Op.Triple (fun u => u = t) (substitute id) (fun _ => Wears s) (Wears s) := by
    unfold substitute
    refine .check_bind h.wears fun c _ => ?_
    refine .ite (fun _ => hpure) fun _ => .ite (fun _ => hpure) fun _ => .ite (fun _ => hpure) fun _ =>
      .ite (fun _ => hpure) fun _ => .ask_bind ?_
    cases shares c with
    | nil => exact hpure
    | cons first rest =>
      refine .bind (Q := fun _ => Wears s) ?_ fun _ => (hrest c _ first rest).after
      unfold contractMut
      refine .bind (Q := fun _ u => u = t)
        (.check (fun _ _ hu _ => hu) fun u hu => hu ▸ h.wears) fun _ => .write fun u hu => ?_
      subst hu
      exact h.claimed _ _ _
  exact hsub.exec_snd rfl

/-- Marking an active contract gives up the reserve that the claim of an underwriter needs. -/
theorem markedSince_expired {id : ContractId} {c : Contract} (hc : s.contracts[id]? = some c)
    (hactive : c.status = .active) (howed : 0 < c.outstanding) :
    MarkedSince s id (s.modContract id fun cm => { cm with status := .expired }) := by
  refine ⟨.modContract fun c' hc' => ?_, fun creditor amount held => ?_⟩
  · rw [hc] at hc'
    cases hc'
    exact worn_expired hactive rfl rfl rfl
  · refine .of_worn rfl fun a c' hc' => ?_
    simp only [State.modContract, OrdMap.getElem?_modify_map, Option.map_map,
      Option.map_eq_some_iff] at hc'
    obtain ⟨c₀, hc₀, rfl⟩ := hc'
    refine ⟨c₀, hc₀, ?_⟩
    rcases eq_or_ne id a with rfl | hne
    · rw [hc] at hc₀
      cases hc₀
      simp only [Function.comp_apply, if_true]
      exact worn_claim hactive howed rfl rfl
    · simp only [Function.comp_apply, if_neg hne]
      exact .refl c₀

theorem MarkedSince.of_eq {id : ContractId} {t u : State} (h : MarkedSince s id t)
    (hcontracts : u.contracts = t.contracts) (hnext : u.nextContract = t.nextContract) :
    MarkedSince s id u := by
  refine ⟨h.wears.trans (.of_eq hcontracts hnext), fun creditor amount held => ?_⟩
  refine (h.claimed creditor amount held).trans (.of_eq ?_ hnext)
  rw [State.modContract, State.modContract, hcontracts]

theorem triple_expirable (s : State) (id : ContractId) :
    Op.Triple (fun t => t = s) (expirable id)
      (fun c t => t = s ∧ s.contracts[id]? = some c ∧ c.status = .active ∧ 0 < c.outstanding)
      (fun t => t = s) := by
  unfold expirable
  refine .check_bind rfl fun c hfound => ?_
  have hc : s.contracts[id]? = some c := findContract_eq_ok.1 hfound
  refine .bind (Q := fun _ t => t = s ∧ c.status = .active)
    (.refuseIf (fun t ht hactive => ⟨ht, not_not.1 hactive⟩) fun t ht _ => ht) fun _ =>
    .of_fact fun hactive => .ask_bind ?_
  refine .bind (Q := fun _ t => t = s ∧ 0 < c.outstanding)
    (.refuseIf (fun t ht hdue => ⟨ht, ?_⟩) fun t ht _ => ht) fun _ => .of_fact fun howed =>
    .pure fun t ht => ⟨ht, hc, hactive, howed⟩
  simp only [decide_eq_true_eq, not_or, not_le] at hdue
  exact Nat.zero_lt_of_lt hdue.2

/-- **A default wears its contract**, whether an underwriter takes it over or not. -/
theorem wears_markExpired (id : ContractId) : WearsOut (markExpired id) := by
  refine WearsOut.of_triple fun s => ?_
  unfold markExpired
  refine .bind ((triple_expirable s id).weaken (fun _ h => h) (fun _ _ h => h)
    fun t ht => ht ▸ .refl s) fun c => .of_fact fun hc => ?_
  refine .bind (Q := fun _ => MarkedSince s id) ?_ fun _ =>
    .bind (Q := fun _ => MarkedSince s id) ?_ fun _ t ht => ?_
  · unfold contractMut
    refine .check_bind (.refl s) fun _ _ => .write fun t ht => ?_
    subst ht
    exact markedSince_expired hc.1 hc.2.1 hc.2.2
  · unfold memberMut
    exact .bind (Q := fun _ => MarkedSince s id) (.check (fun _ _ ht _ => ht) fun _ ht => ht.wears)
      fun _ => .write fun t ht => ht.of_eq rfl rfl
  · have h := wears_substitute ht
    rcases hexec : Op.exec (substitute id) t with ⟨_ | _, u⟩ <;> rw [hexec] at h <;> exact h

/-! ### Discharge -/

theorem wears_dischargeCredit (debtor creditor : MemberId) (amount : Nat) (s : State) :
    Wears s (dischargeCredit debtor creditor amount s) := by
  unfold dischargeCredit
  split <;> exact .of_eq rfl rfl

theorem wears_dischargeHop (id : ContractId) (want : Nat) : WearsOut (dischargeHop id want) := by
  refine WearsOut.of_triple fun s => ?_
  unfold dischargeHop
  refine .ask_bind (.check_bind (.refl s) fun c hfound => ?_)
  have hc : s.contracts[id]? = some c := findContract_eq_ok.1 hfound
  refine .ite (fun _ => .pure fun t ht => ht ▸ .refl s) fun _ => ?_
  refine .bind (triple_contractMut_known (fun t ht => ht ▸ .refl s) fun t c' ht hc' => ?_) fun _ =>
    WearsOut.after ?_
  · subst ht
    rw [hc] at hc'
    cases hc'
    refine worn_lowered rfl ?_ ?_
    · dsimp only
      split
      · exact Nat.zero_le _
      · exact Nat.sub_le _ _
    · dsimp only
      split
      · split <;> exact .inr rfl
      · exact .inl rfl
  · refine .bind (wears_memberMut _ _) fun _ => .bind (wears_rehold _) fun _ =>
      .bind (.write fun s => ?_) fun _ => .pure _
    exact wears_dischargeCredit _ _ _ s

theorem wears_netMutual (budget : Nat) (ids : List ContractId) (netted : Nat) :
    WearsOut (netMutual budget ids netted) := by
  induction ids generalizing netted with
  | nil => exact .pure _
  | cons id ids ih =>
    unfold netMutual
    refine .bind (.ask _) fun dust => .ite (fun _ => .pure _) fun _ => ?_
    exact .bind (wears_dischargeHop _ _) fun took => ih _

theorem wears_netRings (rounds : Nat) : WearsOut (netRings rounds) :=
  moves_netRings wears_dischargeHop rounds

/-! ### Repayment -/

/-- The contract, which was in this status, can take fewer repayments than before, and owes
less. -/
structure Repaid (status : ContractStatus) (id : ContractId) (s t : State) : Prop where
  wears : Wears s t
  fewer : s.Plans → t.repaymentsLeft id < s.repaymentsLeft id
  less : ∃ c c', s.contracts[id]? = some c ∧ c.status = status ∧ t.contracts[id]? = some c' ∧
    c'.outstanding < c.outstanding ∧ (c'.status = c.status ∨ c'.status.live = false)

/-- What leaves the terms alone does not take a repayment back. -/
theorem Repaid.after {status : ContractStatus} {id : ContractId} {t u : State}
    (h : Repaid status id s t) (hwears : Wears t u) (hsame : SameTerms t u) :
    Repaid status id s u := by
  obtain ⟨c, c', hc, hstatus, hc', hless, hstays⟩ := h.less
  refine ⟨h.wears.trans hwears, fun hs => ?_, c, ?_⟩
  · exact ((hwears (h.wears hs).1).2.1 id).trans_lt (h.fewer hs)
  · have hmap := hsame id
    rw [hc', Option.map_some, Option.map_eq_some_iff] at hmap
    obtain ⟨c'', hc'', hterms⟩ := hmap
    have howes : c''.outstanding = c'.outstanding := congrArg (fun x => x.2.2.1) hterms
    have hsame : c''.status = c'.status := congrArg (fun x => x.2.2.2) hterms
    exact ⟨c'', hc, hstatus, hc'', howes ▸ hless, hsame ▸ hstays⟩

/-- **A repayment wears a contract by one repayment at least.** -/
theorem worn_repaid {c c' : Contract} {amount : Nat} (hlive : c.status.live = true)
    (hpaid : 0 < amount) (hle : amount ≤ c.outstanding) (hfloor : ¬belowInstallmentFloor c amount)
    (horiginal : c'.original = c.original)
    (hleft : (c'.outstanding = 0 ∧ c'.status.live = false) ∨
      (amount < c.outstanding ∧ c'.outstanding = c.outstanding - amount ∧ c'.status = c.status)) :
    Worn c c' ∧ (c.Partial → c'.repaymentsLeft < c.repaymentsLeft) := by
  refine ⟨?_, fun h => ?_⟩
  · rcases hleft with ⟨hnone, hclosed⟩ | ⟨-, hrest, hstatus⟩
    · exact worn_lowered horiginal (hnone ▸ Nat.zero_le _) (.inr hclosed)
    · exact worn_lowered horiginal (hrest ▸ Nat.sub_le _ _) (.inl hstatus)
  · have howed : 0 < c.outstanding := hpaid.trans_le hle
    have hpos := Contract.installments_pos h howed
    rcases hleft with ⟨-, hclosed⟩ | ⟨hlt, hrest, hstatus⟩
    · have hnone : c'.repaymentsLeft = 0 := by
        unfold Contract.repaymentsLeft
        split
        · next heq =>
          rw [heq] at hclosed
          cases hclosed
        · next heq =>
          rw [heq] at hclosed
          cases hclosed
        · rfl
      rw [hnone]
      unfold Contract.repaymentsLeft
      split
      · omega
      · exact hpos
      · next hactive hexpired =>
        cases heq : c.status with
        | active => exact absurd heq hactive
        | expired => exact absurd heq hexpired
        | transferred | settled | cured =>
          rw [heq] at hlive
          cases hlive
    · have hreaches : c.original ≤ amount * maxInstallments := by
        by_contra hshort
        exact hfloor ⟨hlt, not_le.1 hshort⟩
      have hpaid : c'.outstanding + amount ≤ c.outstanding := by omega
      have hfewer := Contract.installments_lt horiginal hpaid (howed.trans_le h) hreaches
      unfold Contract.repaymentsLeft
      rw [hstatus]
      cases heq : c.status with
      | active => exact Nat.add_lt_add_right hfewer _
      | expired => exact hfewer
      | transferred | settled | cured =>
        rw [heq] at hlive
        cases hlive

/-- The hold, the stake and the books of the debtor follow, and the terms stay. -/
theorem repaid_followed (status : ContractStatus) (id : ContractId)
    (debtor creditor : MemberId) (amount : Nat) (f : Member → Member) :
    Op.Triple (Repaid status id s)
      (do
        rehold id
        Op.write (dischargeCredit debtor creditor amount)
        memberMut debtor f)
      (fun _ => Repaid status id s) (Wears s) := by
  have hmember : Op.Moves SameTerms (memberMut debtor f) := by
    unfold memberMut
    exact .bind (.check _) fun _ => .write fun _ => .of_eq rfl
  have hwears : WearsOut (do
      rehold id
      Op.write (dischargeCredit debtor creditor amount)
      memberMut debtor f) :=
    .bind (wears_rehold _) fun _ => .bind (.write fun t => wears_dischargeCredit _ _ _ t) fun _ =>
      wears_memberMut _ _
  have hsame : Op.Moves SameTerms (do
      rehold id
      Op.write (dischargeCredit debtor creditor amount)
      memberMut debtor f) :=
    .bind (sameTerms_rehold _) fun _ =>
      .bind (.write fun t => .of_eq (contracts_dischargeCredit _ _ _ t)) fun _ => hmember
  intro t ht
  have hrepaid := ht.after (hwears t) (hsame t)
  split
  · next heq =>
    rw [heq] at hrepaid
    exact hrepaid
  · next heq =>
    rw [heq] at hrepaid
    exact hrepaid.wears

theorem repaid_repayment (s : State) {status closed : ContractStatus} (hlive : status.live = true)
    (hclosed : closed.live = false) (cured : Bool) (id : ContractId) (amount : F64)
    (signers : List Key) :
    Op.Triple (fun t => t = s) (repayment status closed cured id amount signers)
      (fun _ => Repaid status id s) (Wears s) := by
  unfold repayment
  refine .check_bind (.refl s) fun c hfound => ?_
  have hc : s.contracts[id]? = some c := findContract_eq_ok.1 hfound
  refine .bind (Q := fun _ t => t = s ∧ c.status = status)
    (.refuseIf (fun t ht h => ⟨ht, not_not.1 h⟩) fun t ht _ => ht ▸ .refl s) fun _ =>
    .of_fact fun hstatus => .check_bind (.refl s) fun _ _ => .check_bind (.refl s) fun _ _ => ?_
  refine .bind (Q := fun _ t => t = s)
    (.refuseIf (fun t ht _ => ht) fun t ht _ => ht ▸ .refl s) fun _ => ?_
  dsimp only
  generalize toMinor amount = paid
  refine .bind (Q := fun _ t => t = s ∧ 0 < paid ∧ paid ≤ c.outstanding ∧
      ¬belowInstallmentFloor c paid)
    (.refuseIf (fun t ht h => ⟨ht, ?_⟩) fun t ht _ => ht ▸ .refl s) fun _ =>
    .of_fact fun ⟨hpaid, hle, hfloor⟩ => ?_
  · obtain ⟨hzero, hover⟩ := not_or.1 h
    obtain ⟨hover, hfloor⟩ := not_or.1 hover
    exact ⟨Nat.pos_of_ne_zero hzero, not_lt.1 hover, hfloor⟩
  unfold repay
  refine .ask_bind ?_
  refine .bind (Q := fun _ => Repaid status id s) ?_ fun _ => repaid_followed _ _ _ _ _ _
  unfold contractMut
  refine .check_bind (.refl s) fun _ _ => .write fun t ht => ?_
  subst ht
  generalize hcm : ({ c with
    outstanding := if c.outstanding - paid ≤ t.params.dustMinor then 0 else c.outstanding - paid
    status := if c.outstanding - paid ≤ t.params.dustMinor then closed else c.status } : Contract) = c'
  have hget : (t.modContract id fun cm =>
      { cm with
        outstanding := if c.outstanding - paid ≤ t.params.dustMinor then 0 else c.outstanding - paid
        status := if c.outstanding - paid ≤ t.params.dustMinor then closed else cm.status
        }).contracts[id]? = some c' := by
    rw [State.modContract, OrdMap.getElem?_modify_map, hc, Option.map_some, if_pos rfl, hcm]
  have hleft : (c'.outstanding = 0 ∧ c'.status.live = false) ∨
      (paid < c.outstanding ∧ c'.outstanding = c.outstanding - paid ∧ c'.status = c.status) := by
    subst hcm
    by_cases hdust : c.outstanding - paid ≤ t.params.dustMinor
    · exact .inl ⟨if_pos hdust, (congrArg ContractStatus.live (if_pos hdust)).trans hclosed⟩
    · exact .inr ⟨by omega, if_neg hdust, if_neg hdust⟩
  obtain ⟨hworn, hfewer⟩ := worn_repaid (hstatus ▸ hlive) hpaid hle hfloor 
    (by rw [← hcm]) hleft
  refine ⟨.modContract fun c₀ hc₀ => ?_, fun hs => ?_, c, c', hc, hstatus, hget, ?_, ?_⟩
  · rw [hc] at hc₀
    cases hc₀
    rw [hcm]
    exact hworn
  · unfold State.repaymentsLeft
    rw [hget, hc]
    exact hfewer (hs.partially id c hc)
  · omega
  · exact hleft.elim (fun h => .inr h.2) fun h => .inl h.2.2

theorem repaid_settle (s : State) (id : ContractId) (amount : F64) (signers : List Key) :
    Op.Triple (fun t => t = s) (settle id amount signers) (fun _ => Repaid .active id s) (Wears s) :=
  repaid_repayment s rfl rfl false id amount signers

theorem repaid_cure (s : State) (id : ContractId) (amount : F64) (signers : List Key) :
    Op.Triple (fun t => t = s) (cure id amount signers) (fun _ => Repaid .expired id s) (Wears s) :=
  repaid_repayment s rfl rfl true id amount signers

/-- A transition that repays wears the contracts, also where it is refused. -/
theorem wears_of_repaid {status : ContractStatus} {id : ContractId} {op : Tr Unit}
    (h : ∀ s, Op.Triple (fun t => t = s) op (fun _ => Repaid status id s) (Wears s)) : WearsOut op :=
  WearsOut.of_triple fun s => (h s).weaken (fun _ h => h) (fun _ _ h => h.wears) fun _ h => h

/-! ### Transfers, extensions and panels -/

theorem wears_transfer (id : ContractId) (newDebtor : MemberId) (signers : List Key) :
    WearsOut (transfer id newDebtor signers) := by
  unfold transfer
  exact .bind (quiet_transferable _ _ _).moves fun _ => wears_moveDebtor _ _ _

theorem wears_extend (id : ContractId) (newMaturityEpoch : Nat) (signers : List Key) :
    WearsOut (extend id newMaturityEpoch signers) := by
  unfold extend
  refine .bind (.check _) fun _ => .bind (.refuseIf _ _) fun _ => .bind (.check _) fun _ =>
    .bind (.check _) fun _ => .bind (.refuseIf _ _) fun _ => .bind (.ask _) fun _ =>
    .bind (.refuseIf _ _) fun _ => .bind (.ask _) fun drops => .ite (fun _ => ?_) fun _ => ?_
  · exact .bind (.write fun _ => .of_eq rfl rfl) fun _ =>
      wears_contractMut fun _ => .of_eq rfl rfl rfl
  · exact wears_contractMut fun _ => .of_eq rfl rfl rfl

theorem wears_arbAttest (id : ContractId) (arbiter : MemberId) (amount : F64)
    (signers : List Key) : WearsOut (arbAttest id arbiter amount signers) := by
  unfold arbAttest
  refine .bind (.check _) fun _ => .bind (.check _) fun c => ?_
  cases c.arb with
  | none => exact .refuse _
  | some terms =>
    refine .bind (.refuseIf _ _) fun _ => .bind (.ask _) fun _ => .bind (.refuseIf _ _) fun _ =>
      .bind (.refuseIf _ _) fun _ => .bind (.refuseIf _ _) fun _ => .bind (.refuseIf _ _) fun _ => ?_
    exact wears_contractMut fun _ => .of_eq rfl rfl rfl

theorem wears_arbAward (id : ContractId) : WearsOut (arbAward id) :=
  moves_arbAward (fun _ => wears_contractMut fun _ => .of_eq rfl rfl rfl)
    (fun _ _ _ _ _ => wears_openObligation _ _ _ _ _ _ _) id

/-! ### Sales -/

theorem wears_seatPair (first second : Resolved) (sponsor : Option MemberId) :
    WearsOut (seatPair first second sponsor) :=
  moves_seatPair (fun _ _ _ => .of_eq rfl rfl) (fun _ _ => .of_eq rfl rfl)
    (fun _ _ _ => .of_eq rfl rfl) _ _ _

theorem wears_accept (debtor creditor : Party) (amount : F64) (maturityEpochs : Nat)
    (arb : Option ArbTermsWire) (signers : List Key) (sponsor : Option MemberId) :
    WearsOut (accept debtor creditor amount maturityEpochs arb signers sponsor) := by
  unfold accept
  refine .bind (quiet_acceptTerms _ _ _ _ _ _).moves fun _ =>
    .bind (wears_seatPair _ _ _) fun _ => ?_
  exact .bind (wears_book _ _ _ _ _) fun _ => .pure _

end Apply

namespace Cascade

open Apply

/-- The contract owes this much. -/
def Owes (id : ContractId) (amount : Nat) (t : State) : Prop :=
  ∀ c : Contract, t.contracts[id]? = some c → c.outstanding = amount

theorem wears_clearDebts (buyer : MemberId) (budget saleMaturity : Nat)
    (ids : List ContractId) (spent : Nat) (assumed : Assumed) :
    WearsOut (clearDebts buyer budget saleMaturity ids spent assumed) := by
  induction ids generalizing spent assumed with
  | nil => exact .pure _
  | cons id ids ih =>
    refine WearsOut.of_triple fun s => ?_
    have hnow : ∀ {α : Type} {op : Tr α}, WearsOut op →
        Op.Triple (fun t => t = s) op (fun _ => Wears s) (Wears s) := fun h =>
      h.after.weaken (fun t ht => ht ▸ .refl s) (fun _ _ h => h) fun _ h => h
    unfold clearDebts
    refine .ask_bind (.ite (fun _ => hnow (.pure _)) fun _ => .check_bind (.refl s) fun c hfound => ?_)
    have hc : s.contracts[id]? = some c := findContract_eq_ok.1 hfound
    refine .ask_bind (.ite (fun _ => hnow (ih _ _)) fun _ => .ask_bind ?_)
    refine .ite (fun _ => hnow (ih _ _)) fun _ => ?_
    -- what the debt owes is known until it is lowered
    refine .bind (Q := fun _ t => Wears s t ∧ Owes id c.outstanding t) (.write fun t ht => ?_) fun _ => ?_
    · subst ht
      refine ⟨.of_eq rfl rfl, fun c' hc' => ?_⟩
      have hsame : t.contracts[id]? = some c' := hc'
      rw [hc] at hsame
      cases hsame
      rfl
    refine .bind (Q := fun _ t => Wears s t ∧ Owes id c.outstanding t) ?_ fun _ => ?_
    · unfold contractMut
      refine .bind (Q := fun _ t => Wears s t ∧ Owes id c.outstanding t)
        (.check (fun _ _ ht _ => ht) fun _ ht => ht.1) fun _ => .write fun t ht => ⟨?_, fun c' hc' => ?_⟩
      · exact ht.1.trans (.modContract fun _ _ => .of_eq rfl rfl rfl)
      · simp only [State.modContract, OrdMap.getElem?_modify_map, if_true,
          Option.map_eq_some_iff] at hc'
        obtain ⟨c₀, hc₀, rfl⟩ := hc'
        exact ht.2 c₀ hc₀
    refine .bind (Q := fun _ t => Wears s t ∧ Owes id c.outstanding t) (.draw fun t ht => ?_) fun got => ?_
    · refine ⟨ht.1.trans (wears_reserve _ _ t), fun c' hc' => ht.2 c' ?_⟩
      rwa [contracts_reserve] at hc'
    cases got with
    | none =>
      refine (WearsOut.after ?_).weaken (fun _ h => h.1) (fun _ _ h => h) fun _ h => h
      exact .bind (wears_rehold _) fun _ => ih _ _
    | some held =>
      refine .bind (triple_contractMut_known (fun _ ht => ht.1) fun t c' ht hc' => ?_) fun _ =>
        WearsOut.after ?_
      · have howes : c'.outstanding = c.outstanding := ht.2 c' hc'
        refine worn_lowered rfl ?_ ?_
        · dsimp only
          split
          · exact Nat.zero_le _
          · exact howes ▸ Nat.sub_le _ _
        · dsimp only
          split
          · exact .inr rfl
          · exact .inl rfl
      · refine .bind (wears_memberMut _ _) fun _ => ?_
        exact .bind (wears_rehold _) fun _ => ih _ _

theorem wears_clearMemberDebts (debtor buyer : MemberId) (budget saleMaturity : Nat)
    (assumed : Assumed) :
    WearsOut (clearMemberDebts debtor buyer budget saleMaturity assumed) := by
  unfold clearMemberDebts
  exact .bind (.ask _) fun _ => wears_clearDebts _ _ _ _ _ _

/-- The loop over one level's targets wears the contracts if going one level deeper does. -/
theorem wears_drainTargetsLoop {buyer : MemberId} {saleMaturity depth : Nat}
    (hdeeper : ∀ lister budget visited assumed,
      WearsOut (drainLevel buyer saleMaturity depth lister budget visited assumed))
    (lister : MemberId) (targets : List (MemberId × Nat)) (absorbed : Nat)
    (visited : List MemberId) (assumed : Assumed) :
    WearsOut
      (drainTargetsLoop buyer saleMaturity depth lister targets absorbed visited assumed) := by
  induction targets generalizing absorbed visited assumed with
  | nil => unfold drainTargetsLoop; exact .pure _
  | cons target rest ih =>
    unfold drainTargetsLoop
    refine .bind (.ask _) fun dust => .ite (fun _ => ih _ _ _) fun _ => ?_
    refine .bind (wears_clearMemberDebts _ _ _ _ _) fun cleared => .ite (fun _ => ?_) fun _ => ?_
    · exact .bind (hdeeper _ _ _ _) fun deeper => ih _ _ _
    · exact ih _ _ _

theorem wears_drainLevel (buyer : MemberId) (saleMaturity depth : Nat) (lister : MemberId)
    (budget : Nat) (visited : List MemberId) (assumed : Assumed) :
    WearsOut (drainLevel buyer saleMaturity depth lister budget visited assumed) := by
  induction depth generalizing lister budget visited assumed with
  | zero => unfold drainLevel; exact .pure _
  | succ depth ih =>
    unfold drainLevel
    refine .bind (.ask _) fun dust => .ite (fun _ => .pure _) fun _ => .bind (.check _) fun self =>
      .bind (.ask _) fun targets => .ite (fun _ => .pure _) fun _ => ?_
    exact wears_drainTargetsLoop ih _ _ _ _ _

theorem wears_originate (seller buyer : MemberId) (budget saleMaturity : Nat) :
    WearsOut (originate seller buyer budget saleMaturity) := by
  unfold originate takeOver
  refine .bind (.ask _) fun dust => .bind ?_ fun taken => .bind (.forM fun slot _ => ?_) fun _ => ?_
  · refine .bind (.ask _) fun dust => .ite (fun _ => .pure _) fun _ => .bind (.check _) fun self =>
      .ite (fun _ => wears_clearMemberDebts _ _ _ _ _) fun _ => ?_
    exact .bind (wears_drainLevel _ _ _ _ _ _ _) fun _ => .pure _
  · unfold openAssumed
    refine .ite (fun _ => ?_) fun _ => .write fun _ => .of_eq rfl rfl
    exact .bind (wears_openObligation _ _ _ _ _ _ _) fun _ => .pure _
  · refine .ite (fun _ => ?_) fun _ => .pure _
    exact .bind (wears_book _ _ _ _ _) fun _ => .pure _

theorem wears_sale (seller buyer : Party) (amount : F64) (maturityEpochs : Nat)
    (signers : List Key) (sponsor : Option MemberId) :
    WearsOut (sale seller buyer amount maturityEpochs signers sponsor) := by
  unfold sale
  refine .bind (quiet_saleTerms _ _ _ _ _).moves fun _ => .bind (wears_seatPair _ _ _) fun _ =>
    .bind (wears_netMutual _ _ _) fun _ => .ite (fun _ => .pure _) fun _ => .bind (.ask _) fun _ => ?_
  exact wears_originate _ _ _ _

end Cascade

/-! ### Governance -/

namespace Apply

theorem framesWrites_wears : FramesWrites Wears :=
  ⟨fun _ _ _ => .of_eq rfl rfl, fun _ _ => .of_eq rfl rfl, fun _ _ => .of_eq rfl rfl,
    fun _ _ => .of_eq rfl rfl, fun _ _ _ => .of_eq rfl rfl⟩

theorem wears_enact {kind : ProposalKind} (hkind : ∀ num den, kind ≠ .redenominate num den)
    (author : MemberId) : WearsOut (enact kind author) := by
  have hwrite : ∀ {f : State → State}, (∀ s, (f s).contracts = s.contracts) →
      (∀ s, (f s).nextContract = s.nextContract) → WearsOut (Op.write f) := fun hc hn =>
    .write fun s => .of_eq (hc s) (hn s)
  unfold enact
  cases kind with
  | paramChange key value => exact hwrite (fun _ => rfl) fun _ => rfl
  | redenominate num den => exact absurd rfl (hkind num den)
  | suspend target =>
    exact .bind (.ask _) fun _ => .bind (.refuseIf _ _) fun _ =>
      .bind (wears_memberMut _ _) fun _ => hwrite (fun _ => rfl) fun _ => rfl
  | unsuspend target => exact wears_memberMut _ _
  | validatorPower target power =>
    refine .ite (fun _ => ?_) fun _ => ?_
    · exact .bind (.check _) fun _ => hwrite (fun _ => rfl) fun _ => rfl
    · exact .bind (.ask _) fun _ => .bind (.refuseIf _ _) fun _ => hwrite (fun _ => rfl) fun _ => rfl
  | seedAmendment amount => exact .bind (.check _) fun _ => hwrite (fun _ => rfl) fun _ => rfl

/-- An assent wears the contracts, or has enacted a redenomination. -/
theorem wears_assent (s : State) (id : MemberId) (proposalId : ProposalId) (signers : List Key) :
    Op.Triple (Wears s) (assent id proposalId signers)
      (fun _ t => ¬Redenominated proposalId t → Wears s t) (Wears s) := by
  unfold assent
  refine .bind (triple_mayAssent id proposalId signers) fun r => ?_
  refine .bind (Q := fun _ t => Wears s t ∧
      ∃ p, t.proposals[proposalId]? = some p ∧ p.kind = r.1.kind)
    (.write fun t ht => ⟨ht.1.trans (.of_eq rfl rfl), ?_⟩) fun _ => ?_
  · refine ⟨{ r.1 with assents := r.1.assents.insert id }, ?_, rfl⟩
    simp only [modProposal, OrdMap.getElem?_modify_map, ht.2, Option.map_some, if_true]
  refine .ite (fun _ => ?_) fun _ => .pure fun t ht _ => ht.1
  by_cases hkind : ∃ num den, r.1.kind = .redenominate num den
  · obtain ⟨num, den, hkind⟩ := hkind
    rw [hkind]
    -- a redenomination does not refuse, and the proposal is marked
    refine .bind (Q := fun _ t => ∃ p, t.proposals[proposalId]? = some p ∧
      p.kind = .redenominate num den) (.write fun t ht => ?_) fun _ => .write fun t ht hnot => ?_
    · obtain ⟨-, p, hp, hpkind⟩ := ht
      exact ⟨p, (congrArg (·[proposalId]?) (proposals_rescale t (ratio num den))).trans hp, hpkind⟩
    · obtain ⟨p, hp, hpkind⟩ := ht
      refine absurd ⟨{ p with enacted := true }, num, den, ?_, rfl, hpkind⟩ hnot
      simp only [modProposal, OrdMap.getElem?_modify_map, hp, Option.map_some, if_true]
  · push Not at hkind
    refine .bind (Q := fun _ => Wears s) ?_ fun _ => .write fun t ht _ => ht.trans (.of_eq rfl rfl)
    exact (wears_enact hkind r.1.author).after.weaken (fun _ h => h.1) (fun _ _ h => h) fun _ h => h

/-- **Every transition wears the contracts**, assents apart. -/
theorem wears_dispatch [Libm] (tx : Tx) (signers : List Key) (sponsor : Option MemberId)
    (hassent : ∀ id proposal, tx ≠ .assent id proposal) : WearsOut (dispatch tx signers sponsor) := by
  have h := framesWrites_wears
  cases tx with
  | registerGuardians => exact moves_registerGuardians h _ _ _ _ _
  | rotateRequest => exact moves_rotateRequest h _ _ _
  | rotateVeto => exact moves_rotateVeto h _ _
  | rotateFinalize => exact moves_rotateFinalize h _
  | setConsensusKey => exact moves_setConsensusKey h _ _ _
  | declareSupply => exact moves_declareSupply h _ _ _
  | accept => exact wears_accept _ _ _ _ _ _ _
  | transfer => exact wears_transfer _ _ _
  | settle id amount => exact wears_of_repaid fun s => repaid_settle s id amount signers
  | extend => exact wears_extend _ _ _
  | markExpired => exact wears_markExpired _
  | cure id amount => exact wears_of_repaid fun s => repaid_cure s id amount signers
  | listBeneficiaries => exact moves_listBeneficiaries h _ _ _
  | approveSupporter => exact moves_approveSupporter h _ _ _ _
  | sale => exact Cascade.wears_sale _ _ _ _ _ _
  | arbAttest => exact wears_arbAttest _ _ _ _
  | exit => exact moves_exit h (fun _ _ => .of_eq rfl rfl) _ _
  | propose => exact moves_propose h _ _ _
  | assent id proposal => exact absurd rfl (hassent id proposal)
  | forfeitBonds => exact moves_forfeitBonds h _

/-! ### Boundaries -/

theorem wears_sweepCranks : WearsOut sweepCranks := by
  have hretire : ∀ (s : State) id, Wears s (retireRow id s) := by
    intro s id
    unfold retireRow
    split
    · exact .refl s
    · next m hm =>
      extract_lets s₁ s₂ s₃
      have h₁ : Wears s s₁ := .foldl (fun s b => (.of_eq rfl rfl : Wears s (s.modMember b (unlist id)))) _ s
      have h₂ : Wears s₁ s₂ :=
        .foldl (fun s l => (.of_eq rfl rfl : Wears s (s.modMember l (undelegate id)))) _ s₁
      have h₃ : Wears s₂ s₃ := by
        simp only [s₃]
        split
        · exact .refl s₂
        · exact .of_eq rfl rfl
      exact h₁.trans (h₂.trans (h₃.trans (.of_eq rfl rfl)))
  unfold sweepCranks
  refine .bind (.ask _) fun due => .bind (.forM fun id _ => .attempt (wears_markExpired _)) fun _ =>
    .bind (wears_netRings _) fun _ => .bind (.ask _) fun sat =>
    .bind (.forM fun id _ => .attempt (moves_forfeitBonds framesWrites_wears _)) fun _ =>
    .bind (.ask _) fun closed =>
    .bind (.forM fun id _ => .attempt (wears_arbAward _)) fun _ =>
    .bind (.write fun s => ?_) fun _ => .write fun s => ?_
  · refine .of_worn rfl fun id c' hc' => ⟨c', ?_, .refl c'⟩
    exact (OrdMap.getElem?_filter_of_some hc').1
  · exact .foldl (fun s id => hretire s id) _ s

end Apply

theorem wears_beginBlock (nowSecs : Nat) (s : State) : Wears s (s.beginBlock nowSecs) := by
  have hadvance : ∀ (n : Nat) (s : State), Wears s (Nat.repeat State.advanceEpoch n s) := by
    intro n s
    induction n with
    | zero => exact .refl s
    | succ n ih => exact ih.trans (.of_eq rfl rfl)
  unfold State.beginBlock
  split
  · exact .refl s
  dsimp only
  have hstart : Wears s { s with lastBeginSecs := nowSecs } := .of_eq rfl rfl
  split
  · have hreleased : ∀ s : State, Wears s s.releaseBonds := fun _ => .of_eq rfl rfl
    exact (hstart.trans (hadvance _ _)).trans ((Apply.wears_sweepCranks _).trans (hreleased _))
  · exact hstart

/-! ### Runs -/

/-- The contract a transaction settles. -/
def Tx.settles : Tx → Option ContractId
  | .settle contract _ => some contract
  | _ => none

/-- The contract a transaction cures. -/
def Tx.cures : Tx → Option ContractId
  | .cure contract _ => some contract
  | _ => none

/-- The contract a transaction repays. -/
def Tx.repays : Tx → Option ContractId
  | .settle contract _ | .cure contract _ => some contract
  | _ => none

theorem wears_gated (tx : Tx) (txId : TxId) (notAfterEpoch : Nat) (signers : List Key) {s t : State}
    {r : Res (Apply.Charged × Option MemberId)}
    (h : Op.exec (Apply.bondGate tx signers) s = (r, t)) :
    Wears s (t.recordApplied txId notAfterEpoch) := by
  have hgate : Wears s (Op.exec (Apply.bondGate tx signers) s).2 :=
    Apply.bondGate_moves (fun _ _ _ => .of_eq rfl rfl) tx signers _
  rw [h] at hgate
  exact hgate.trans (.of_eq rfl rfl)

theorem wears_settleOutcome (tx : Tx) (txId : TxId) (expiry : Nat) (signers : List Key)
    (charged : Apply.Charged) (outcome : Res Unit) (u : State) :
    Wears u (Apply.settleOutcome tx txId expiry signers charged outcome u) := by
  refine Apply.settleOutcome_moves ?_ ?_ ?_ tx txId expiry signers charged outcome u
  · intro s txId expiry
    unfold State.forgetApplied
    split
    · exact .refl s
    · exact .of_eq rfl rfl
  · intro s charged
    cases charged <;> exact .of_eq rfl rfl
  · intro s subject signers
    unfold Apply.priceRefusal
    dsimp only
    split
    · exact .of_eq rfl rfl
    · split <;> exact .of_eq rfl rfl

theorem plans_of_founding {s : State} (h : Founding s) : s.Plans := by
  obtain ⟨g, hg⟩ := h
  refine genesisState_keeps (fun _ _ _ => ⟨fun id _ => by simp, fun id c hc => by simp at hc⟩) ?_ hg
  exact fun _ _ _ _ hs hseat => (seatEntry_moves (R := Wears) (fun _ _ => .of_eq rfl rfl)
    (fun _ _ => .of_eq rfl rfl) (fun _ _ _ => .of_eq rfl rfl) (fun _ _ => .of_eq rfl rfl) hseat hs).1

/-! ### One plan -/

/-- After `n` repayments of a contract, `settled` saying whether one was a settlement: one plan
has room for them and for what is left of it, and none but a settlement leaves a contract
active. -/
structure WithinPlan (id : ContractId) (n : Nat) (settled : Bool) (s : State) : Prop where
  room : n + s.planLeft id ≤ maxInstallments
  untouched : settled = false → n = 0 ∨ ∀ c, s.contracts[id]? = some c → c.status ≠ .active

/-- What wears the contracts stays within the plan, unless a contract that was settled in part
leaves it. -/
theorem WithinPlan.wears {id : ContractId} {n : Nat} {settled : Bool} {s t : State}
    (h : WithinPlan id n settled s) (hs : s.Plans) (hwears : Wears s t)
    (hkept : settled = true → ∀ c c', s.contracts[id]? = some c → t.contracts[id]? = some c' →
      SamePlan c c') : WithinPlan id n settled t := by
  obtain ⟨ht, -, hplanned⟩ := hwears hs
  have hroom := h.room
  cases hc' : t.contracts[id]? with
  | none =>
    refine ⟨?_, fun _ => .inr fun c hc => ?_⟩
    · rcases Nat.lt_or_ge id t.nextContract with hlt | hge
      · have hnone : t.planLeft id = 0 := by
          unfold State.planLeft
          rw [hc']
          exact if_pos hlt
        omega
      · have hwhole := hs.planLeft_new (hplanned.next.trans hge)
        have := ht.planLeft_le id
        omega
    · rw [hc'] at hc
      cases hc
  | some c' =>
    have hleft := ht.planLeft_le id
    rcases hplanned.stood id c' hc' with hnew | ⟨c, hc, hplan⟩
    · -- The contract is opened only now, with the whole plan before it.
      have hwhole := hs.planLeft_new hnew
      exact ⟨by omega, fun _ => .inl (by omega)⟩
    have hsame : SamePlan c c' → t.planLeft id ≤ s.planLeft id := fun hsame => by
      have hle := hsame.planLeft_le hplan.live
      unfold State.planLeft
      rwa [hc', hc]
    refine ⟨?_, fun hfalse => ?_⟩
    · cases hsettled : settled with
      | true =>
        have := hsame (hkept hsettled c c' hc hc')
        omega
      | false =>
        rcases h.untouched hsettled with hnone | hclosed
        · omega
        · have := hsame (hplan.stays (hclosed c hc)).1
          omega
    · refine (h.untouched hfalse).imp_right fun hclosed c₁ hc₁ => ?_
      rw [hc'] at hc₁
      cases hc₁
      exact (hplan.stays (hclosed c hc)).2

/-- A repayment stays within it, and counts. -/
theorem WithinPlan.repaid {id : ContractId} {n : Nat} {settled : Bool} {status : ContractStatus}
    {s t : State} (h : WithinPlan id n settled s) (hs : s.Plans)
    (hrepaid : Apply.Repaid status id s t) :
    WithinPlan id (n + 1) (settled || decide (status = .active)) t := by
  obtain ⟨c, c', hc, rfl, hc', hless, hstays⟩ := hrepaid.less
  have hpart := hs.partially id c hc
  have hpos := Contract.installments_pos hpart (Nat.zero_lt_of_lt hless)
  have hfewer := hrepaid.fewer hs
  have hroom := h.room
  have hplan : t.planLeft id < s.planLeft id := by
    unfold State.repaymentsLeft at hfewer
    unfold State.planLeft
    rw [hc, hc'] at hfewer ⊢
    exact Contract.planLeft_lt hpos hstays hfewer
  refine ⟨by omega, fun hfalse => .inr fun c₁ hc₁ => ?_⟩
  rw [hc'] at hc₁
  cases hc₁
  obtain ⟨-, hactive⟩ := Bool.or_eq_false_iff.1 hfalse
  have hne : c.status ≠ .active := of_decide_eq_false hactive
  rcases hstays with hsame | hclosed
  · exact hsame ▸ hne
  · intro heq
    rw [heq] at hclosed
    cases hclosed

section Runs

variable [Libm]

/-- The event discharges the contract by a transaction of this kind, and successfully. -/
def Event.Discharges (kind : Tx → Option ContractId) (id : ContractId) (s : State) : Event → Prop
  | .block _ => False
  | .transaction tx txId notAfterEpoch signers nowSecs =>
    kind tx = some id ∧ (Op.exec (Apply.apply tx txId notAfterEpoch signers nowSecs) s).1 = .ok ()

instance (kind : Tx → Option ContractId) (id : ContractId) (s : State) (e : Event) :
    Decidable (e.Discharges kind id s) :=
  match e with
  | .block _ => inferInstanceAs (Decidable False)
  | .transaction tx txId notAfterEpoch signers nowSecs =>
    inferInstanceAs (Decidable (kind tx = some id ∧
      (Op.exec (Apply.apply tx txId notAfterEpoch signers nowSecs) s).1 = .ok ()))

/-- How many discharges of a contract succeed in a run. -/
def discharges (kind : Tx → Option ContractId) (id : ContractId) : List Event → State → Nat
  | [], _ => 0
  | e :: es, s => (if e.Discharges kind id s then 1 else 0) + discharges kind id es (e.next s)

/-- The event lowers what the contract owes. -/
def Event.LowersDebt (id : ContractId) (e : Event) (s : State) : Prop :=
  ∃ c c', (e.opens s).contracts[id]? = some c ∧ (e.next s).contracts[id]? = some c' ∧
    c'.outstanding < c.outstanding

/-- **An event wears the contracts**, unless it redenominates. -/
theorem wears_next (e : Event) (s : State) (hkeeps : e.KeepsUnit s) : Wears s (e.next s) := by
  cases e with
  | block nowSecs => exact wears_beginBlock nowSecs s
  | transaction tx txId expiry signers nowSecs =>
    have hbegin := wears_beginBlock nowSecs s
    rcases Apply.exec_apply_cases tx txId expiry signers nowSecs s with
      ⟨e, -, hexec⟩ | ⟨-, e, t, ht, hexec⟩ | ⟨-, charged, sponsor, t, outcome, u, ht, hu, hexec⟩
    · rw [Event.next_of_exec hexec]
      exact hbegin
    · rw [Event.next_of_exec hexec]
      exact hbegin.trans ((wears_gated tx txId expiry signers ht).trans (.of_eq rfl rfl))
    · have hready := hbegin.trans (wears_gated tx txId expiry signers ht)
      have hsettled := wears_settleOutcome tx txId expiry signers charged outcome u
      by_cases hassent : ∃ id proposalId, tx = .assent id proposalId
      · obtain ⟨id, proposalId, rfl⟩ := hassent
        have hvoted := Apply.wears_assent s id proposalId signers _ hready
        have hkept : ¬Redenominated proposalId
            (Event.next (.transaction (.assent id proposalId) txId expiry signers nowSecs) s) := hkeeps
        rw [Event.next_of_exec hexec] at hkept ⊢
        replace hu : Op.exec (Apply.assent id proposalId signers) (t.recordApplied txId expiry) =
          (outcome, u) := hu
        rw [hu] at hvoted
        cases outcome with
        | ok _ => exact hvoted hkept
        | error e => exact hvoted.trans hsettled
      · push Not at hassent
        have hmoved := Apply.wears_dispatch tx signers sponsor hassent (t.recordApplied txId expiry)
        rw [hu] at hmoved
        rw [Event.next_of_exec hexec]
        exact hready.trans (hmoved.trans hsettled)

/-- A successful repayment is one of the ledger as the block has opened, behind the gate. -/
theorem repaid_step {status : ContractStatus} {id : ContractId} {tx : Tx} {txId : TxId}
    {expiry nowSecs : Nat} {signers : List Key} {s : State}
    (hrepaid : ∀ r sponsor t, Op.exec (Apply.dispatch tx signers sponsor) r = (.ok (), t) →
      Apply.Repaid status id r t)
    (hok : (Op.exec (Apply.apply tx txId expiry signers nowSecs) s).1 = .ok ()) :
    let e : Event := .transaction tx txId expiry signers nowSecs
    ∃ r, Wears s r ∧ r.contracts = (e.opens s).contracts ∧ Apply.Repaid status id r (e.next s) := by
  intro e
  rcases Apply.exec_apply_cases tx txId expiry signers nowSecs s with
    ⟨e, -, hexec⟩ | ⟨-, e, t, ht, hexec⟩ | ⟨-, charged, sponsor, t, outcome, u, ht, hu, hexec⟩
  · rw [hexec] at hok
    cases hok
  · rw [hexec] at hok
    cases hok
  have hnext : e.next s = u := by
    show (Op.exec (Apply.apply tx txId expiry signers nowSecs) s).2 = u
    rw [hexec] at hok ⊢
    obtain rfl : outcome = .ok () := hok
    rfl
  rw [hexec] at hok
  obtain rfl : outcome = .ok () := hok
  have halone := Apply.rowsAlone_bondGate tx signers (s.beginBlock nowSecs)
  rw [ht] at halone
  refine ⟨t.recordApplied txId expiry,
    (wears_beginBlock nowSecs s).trans (wears_gated tx txId expiry signers ht), halone.contracts, ?_⟩
  rw [hnext]
  exact hrepaid _ _ _ hu

/-- What a successful repayment is of: a contract in this status, as the block has opened. -/
theorem repaid_next {status : ContractStatus} {id : ContractId} {tx : Tx} {txId : TxId}
    {expiry nowSecs : Nat} {signers : List Key} {s : State} (hs : s.Plans)
    (hrepaid : ∀ r sponsor t, Op.exec (Apply.dispatch tx signers sponsor) r = (.ok (), t) →
      Apply.Repaid status id r t)
    (hok : (Op.exec (Apply.apply tx txId expiry signers nowSecs) s).1 = .ok ()) :
    let e : Event := .transaction tx txId expiry signers nowSecs
    ((e.next s).repaymentsLeft id < s.repaymentsLeft id ∧ e.LowersDebt id s) ∧
      (status = .active → maxInstallments ≤ s.repaymentsLeft id) ∧
      (status = .expired → (e.next s).repaymentsLeft id < maxInstallments) := by
  intro e
  obtain ⟨r, hwears, hopens, hdone⟩ := repaid_step hrepaid hok
  obtain ⟨hplans, hle, -⟩ := hwears hs
  have hfewer := hdone.fewer hplans
  obtain ⟨c, c', hc, hstatus, hc', hless, -⟩ := hdone.less
  have hinstallments := Contract.installments_le (hplans.partially id c hc)
  have hsome := Contract.installments_pos (hplans.partially id c hc) (Nat.zero_lt_of_lt hless)
  have hleft : r.repaymentsLeft id = c.repaymentsLeft := by
    unfold State.repaymentsLeft
    rw [hc]
  refine ⟨⟨hfewer.trans_le (hle id), c, c', hopens ▸ hc, hc', hless⟩, fun hactive => ?_,
    fun hexpired => ?_⟩
  · have hgone := hle id
    rw [hleft] at hgone
    unfold Contract.repaymentsLeft at hgone
    rw [hstatus, hactive] at hgone
    dsimp only at hgone
    omega
  · rw [hleft] at hfewer
    unfold Contract.repaymentsLeft at hfewer
    rw [hstatus, hexpired] at hfewer
    exact hfewer.trans_le hinstallments

theorem repaid_of_settle {id : ContractId} (amount : F64) (signers : List Key) :
    ∀ r sponsor t, Op.exec (Apply.dispatch (.settle id amount) signers sponsor) r = (.ok (), t) →
      Apply.Repaid .active id r t :=
  fun r _ _ hu => (Apply.repaid_settle r id amount signers).ok rfl hu

theorem repaid_of_cure {id : ContractId} (amount : F64) (signers : List Key) :
    ∀ r sponsor t, Op.exec (Apply.dispatch (.cure id amount) signers sponsor) r = (.ok (), t) →
      Apply.Repaid .expired id r t :=
  fun r _ _ hu => (Apply.repaid_cure r id amount signers).ok rfl hu

theorem settled_next {id : ContractId} {e : Event} {s : State} (hs : s.Plans)
    (h : e.Discharges Tx.settles id s) :
    (e.next s).repaymentsLeft id < s.repaymentsLeft id ∧ e.LowersDebt id s ∧
      maxInstallments ≤ s.repaymentsLeft id := by
  cases e with
  | block nowSecs => cases h
  | transaction tx txId expiry signers nowSecs =>
    obtain ⟨htx, hok⟩ := h
    cases tx with
    | settle contract amount =>
      obtain rfl : contract = id := Option.some.inj htx
      obtain ⟨hless, hactive, -⟩ := repaid_next hs (repaid_of_settle amount signers) hok
      exact ⟨hless.1, hless.2, hactive rfl⟩
    | _ => cases htx

theorem cured_next {id : ContractId} {e : Event} {s : State} (hs : s.Plans)
    (h : e.Discharges Tx.cures id s) :
    (e.next s).repaymentsLeft id < s.repaymentsLeft id ∧ e.LowersDebt id s ∧
      (e.next s).repaymentsLeft id < maxInstallments := by
  cases e with
  | block nowSecs => cases h
  | transaction tx txId expiry signers nowSecs =>
    obtain ⟨htx, hok⟩ := h
    cases tx with
    | cure contract amount =>
      obtain rfl : contract = id := Option.some.inj htx
      obtain ⟨hless, -, hexpired⟩ := repaid_next hs (repaid_of_cure amount signers) hok
      exact ⟨hless.1, hless.2, hexpired rfl⟩
    | _ => cases htx

theorem Event.Discharges.repays {id : ContractId} {e : Event} {s : State}
    (h : e.Discharges Tx.settles id s) : e.Discharges Tx.repays id s := by
  cases e with
  | block nowSecs => cases h
  | transaction tx txId expiry signers nowSecs =>
    obtain ⟨htx, hok⟩ := h
    cases tx with
    | settle contract amount => exact ⟨htx, hok⟩
    | _ => cases htx

/-- A repayment settles or cures. -/
theorem Event.Discharges.settles_or_cures {id : ContractId} {e : Event} {s : State}
    (h : e.Discharges Tx.repays id s) :
    e.Discharges Tx.settles id s ∨ e.Discharges Tx.cures id s := by
  cases e with
  | block nowSecs => cases h
  | transaction tx txId expiry signers nowSecs =>
    obtain ⟨htx, hok⟩ := h
    cases tx with
    | settle contract amount => exact .inl ⟨htx, hok⟩
    | cure contract amount => exact .inr ⟨htx, hok⟩
    | _ => cases htx

/-- A run repays a contract no more often than it could at its start. -/
theorem repayments_le (id : ContractId) {es : List Event} {s : State} (hs : s.Plans)
    (hkeeps : Reaches.Admits Event.next Event.KeepsUnit es s) :
    discharges Tx.repays id es s ≤ s.repaymentsLeft id := by
  induction es generalizing s with
  | nil => exact Nat.zero_le _
  | cons e es ih =>
    obtain ⟨he, hes⟩ := hkeeps
    obtain ⟨hplans, hle, -⟩ := wears_next e s he hs
    have hrest := ih hplans hes
    unfold discharges
    split
    · next h =>
      have hfewer : (e.next s).repaymentsLeft id < s.repaymentsLeft id := by
        rcases h.settles_or_cures with h | h
        · exact (settled_next hs h).1
        · exact (cured_next hs h).1
      omega
    · rw [Nat.zero_add]
      exact hrest.trans (hle id)

/-- It settles it no more often than leaves a plan for the cures. -/
theorem settles_le (id : ContractId) {es : List Event} {s : State} (hs : s.Plans)
    (hkeeps : Reaches.Admits Event.next Event.KeepsUnit es s) :
    discharges Tx.settles id es s = 0 ∨
      discharges Tx.settles id es s + (maxInstallments - 1) ≤ s.repaymentsLeft id := by
  induction es generalizing s with
  | nil => exact .inl rfl
  | cons e es ih =>
    obtain ⟨he, hes⟩ := hkeeps
    obtain ⟨hplans, hle, -⟩ := wears_next e s he hs
    have hrest := ih hplans hes
    have hgone := hle id
    unfold discharges
    split
    · next h =>
      obtain ⟨hfewer, -, hmost⟩ := settled_next hs h
      have hpos : 0 < maxInstallments := by decide
      omega
    · omega

/-- It cures it in one plan. -/
theorem cures_le (id : ContractId) {es : List Event} {s : State} (hs : s.Plans)
    (hkeeps : Reaches.Admits Event.next Event.KeepsUnit es s) :
    discharges Tx.cures id es s ≤ maxInstallments ∧
      discharges Tx.cures id es s ≤ s.repaymentsLeft id := by
  induction es generalizing s with
  | nil => exact ⟨Nat.zero_le _, Nat.zero_le _⟩
  | cons e es ih =>
    obtain ⟨he, hes⟩ := hkeeps
    obtain ⟨hplans, hle, -⟩ := wears_next e s he hs
    obtain ⟨hmost, hrest⟩ := ih hplans hes
    have hgone := hle id
    unfold discharges
    split
    · next h =>
      obtain ⟨hfewer, -, hshort⟩ := cured_next hs h
      omega
    · omega

theorem plans_run {es : List Event} {s : State} (hs : s.Plans)
    (hkeeps : Reaches.Admits Event.next Event.KeepsUnit es s) : (Event.run es s).Plans := by
  induction es generalizing s with
  | nil => exact hs
  | cons e es ih => exact ih (wears_next e s hkeeps.1 hs).1 hkeeps.2

theorem admits_of_append {es es' : List Event} {s : State}
    (h : Reaches.Admits Event.next Event.KeepsUnit (es ++ es') s) :
    Reaches.Admits Event.next Event.KeepsUnit es s := by
  induction es generalizing s with
  | nil => trivial
  | cons e es ih => exact ⟨h.1, ih h.2⟩

/-- A repayment is one of the ledger as the block has opened, and a settlement just where the
contract is active there. -/
theorem Event.Discharges.repaid {id : ContractId} {e : Event} {s : State}
    (h : e.Discharges Tx.repays id s) :
    ∃ status r, Wears s r ∧ r.contracts = (e.opens s).contracts ∧
      Apply.Repaid status id r (e.next s) ∧ (status = .active ↔ e.Discharges Tx.settles id s) := by
  cases e with
  | block nowSecs => cases h
  | transaction tx txId expiry signers nowSecs =>
    obtain ⟨htx, hok⟩ := h
    cases tx with
    | settle contract amount =>
      obtain rfl : contract = id := Option.some.inj htx
      obtain ⟨r, hwears, hopens, hdone⟩ := repaid_step (repaid_of_settle amount signers) hok
      exact ⟨_, r, hwears, hopens, hdone, iff_of_true rfl ⟨rfl, hok⟩⟩
    | cure contract amount =>
      obtain rfl : contract = id := Option.some.inj htx
      obtain ⟨r, hwears, hopens, hdone⟩ := repaid_step (repaid_of_cure amount signers) hok
      exact ⟨_, r, hwears, hopens, hdone, iff_of_false (by decide) fun hsettles => nomatch hsettles.1⟩
    | _ => cases htx

/-- The event leaves a contract on its plan, as its block opens and behind it. -/
def Event.KeepsPlan (id : ContractId) (e : Event) (s : State) : Prop :=
  ∀ c ∈ s.contracts[id]?, (∀ c' ∈ (e.opens s).contracts[id]?, SamePlan c c') ∧
    ∀ c' ∈ (e.next s).contracts[id]?, SamePlan c c'

/-- Once a contract has been settled in part, the run leaves it on its plan. -/
def KeptOnPlan (id : ContractId) : Bool → List Event → State → Prop
  | _, [], _ => True
  | settled, e :: es, s =>
    (settled = true → e.KeepsPlan id s) ∧
      KeptOnPlan id (settled || decide (e.Discharges Tx.settles id s)) es (e.next s)

instance (id : ContractId) (e : Event) (s : State) : Decidable (e.KeepsPlan id s) :=
  inferInstanceAs (Decidable (∀ c ∈ s.contracts[id]?,
    (∀ c' ∈ (e.opens s).contracts[id]?, SamePlan c c') ∧
      ∀ c' ∈ (e.next s).contracts[id]?, SamePlan c c'))

instance decidableKeptOnPlan (id : ContractId) :
    ∀ (settled : Bool) (es : List Event) (s : State), Decidable (KeptOnPlan id settled es s)
  | _, [], _ => isTrue trivial
  | settled, e :: es, s =>
    have := decidableKeptOnPlan id (settled || decide (e.Discharges Tx.settles id s)) es (e.next s)
    inferInstanceAs (Decidable ((settled = true → e.KeepsPlan id s) ∧
      KeptOnPlan id (settled || decide (e.Discharges Tx.settles id s)) es (e.next s)))

theorem WithinPlan.next {id : ContractId} {n : Nat} {settled : Bool} {e : Event} {s : State}
    (h : WithinPlan id n settled s) (hs : s.Plans) (hkeeps : e.KeepsUnit s)
    (hkept : settled = true → e.KeepsPlan id s) :
    WithinPlan id (n + if e.Discharges Tx.repays id s then 1 else 0)
      (settled || decide (e.Discharges Tx.settles id s)) (e.next s) := by
  split
  · next hrepays =>
    obtain ⟨status, r, hwears, hopens, hdone, hsettles⟩ := hrepays.repaid
    have hopened : WithinPlan id n settled r := h.wears hs hwears fun htrue c c' hc hc' =>
      (hkept htrue c hc).1 c' (hopens ▸ hc')
    have hrepaid := hopened.repaid (hwears hs).1 hdone
    rwa [decide_eq_decide.2 hsettles] at hrepaid
  · next hrepays =>
    have hnone : ¬e.Discharges Tx.settles id s := fun hsettles => hrepays hsettles.repays
    rw [decide_eq_false hnone, Bool.or_false]
    exact h.wears hs (wears_next e s hkeeps) fun htrue c c' hc hc' => (hkept htrue c hc).2 c' hc'

/-- A run that keeps a contract on its plan once it was settled stays within one plan. -/
theorem WithinPlan.run {id : ContractId} {n : Nat} {settled : Bool} {es : List Event} {s : State}
    (h : WithinPlan id n settled s) (hs : s.Plans)
    (hkeeps : Reaches.Admits Event.next Event.KeepsUnit es s) (hkept : KeptOnPlan id settled es s) :
    n + discharges Tx.repays id es s ≤ maxInstallments := by
  induction es generalizing s n settled with
  | nil => exact (Nat.le_add_right _ _).trans h.room
  | cons e es ih =>
    have hrest := ih (h.next hs hkeeps.1 hkept.1) (wears_next e s hkeeps.1 hs).1 hkeeps.2 hkept.2
    unfold discharges
    omega

/-- **A contract is paid in a bounded number of parts**: in every run from a genesis without a
redenomination, it is settled at most as often as the installment floor allows, cured at most as
often, and repaid at most one time fewer than that in all; and every repayment leaves it owing
less. Where no default makes the contract another underwriter's claim once it has been settled in
part, the floor bounds all repayments together. -/
theorem repayments_bounded {s : State} (h : Founding s) {es : List Event}
    (hkeeps : Reaches.Admits Event.next Event.KeepsUnit es s) (id : ContractId) :
    discharges Tx.settles id es s ≤ maxInstallments ∧
      discharges Tx.cures id es s ≤ maxInstallments ∧
      discharges Tx.repays id es s < 2 * maxInstallments ∧
      (KeptOnPlan id false es s → discharges Tx.repays id es s ≤ maxInstallments) ∧
      ∀ before e after, es = before ++ e :: after →
        e.Discharges Tx.repays id (Event.run before s) → e.LowersDebt id (Event.run before s) := by
  have hs := plans_of_founding h
  have hmost := hs.repaymentsLeft_le id
  have hpos : 0 < maxInstallments := by decide
  unfold mostRepayments at hmost
  refine ⟨?_, (cures_le id hs hkeeps).1, ?_, fun hkept => ?_, ?_⟩
  · have hsettles := settles_le id hs hkeeps
    omega
  · have hrepays := repayments_le id hs hkeeps
    omega
  · have hstart : WithinPlan id 0 false s :=
      ⟨(Nat.zero_add _).trans_le (hs.planLeft_le id), fun _ => .inl rfl⟩
    have hrun := hstart.run hs hkeeps hkept
    omega
  · rintro before e after rfl hrepays
    have hplans := plans_run hs (admits_of_append hkeeps)
    rcases hrepays.settles_or_cures with hsettles | hcures
    · exact (settled_next hplans hsettles).2.1
    · exact (cured_next hplans hcures).2.1

end Runs

/-- The debt that the first founder stands behind is settled in part, falls due, and is cured in
the least installments of what it then is. -/
def partEvents (cures : Nat) : List Event :=
  vouchedEvents ++
    [.transaction (.settle 1 (Apply.ratio 272 100)) 3 0 [founderKey 1, founderKey 2] 10,
      .block (32 * epochSecs)] ++
    (List.range cures).map fun i =>
      .transaction (.cure 1 (Apply.ratio 76 100)) (4 + i) 40 [founderKey 1, founderKey 0]
        (32 * epochSecs)

theorem admits_partEvents [Libm] (cures : Nat) (s : State) :
    Reaches.Admits Event.next Event.KeepsUnit (partEvents cures) s := by
  have hadmits : ∀ (es : List Event) (s : State),
      (∀ e ∈ es, ∀ s, Event.KeepsUnit e s) → Reaches.Admits Event.next Event.KeepsUnit es s := by
    intro es
    induction es with
    | nil => exact fun _ _ => trivial
    | cons e es ih =>
      intro s h
      exact ⟨h e List.mem_cons_self s, ih _ fun e' he' => h e' (List.mem_cons_of_mem _ he')⟩
  refine hadmits _ s fun e he t => ?_
  unfold partEvents vouchedEvents at he
  simp only [List.mem_append, List.mem_cons, List.not_mem_nil, or_false, List.mem_map] at he
  rcases he with ((rfl | rfl | rfl) | rfl | rfl) | ⟨i, -, rfl⟩ <;> trivial

/-- The installment floor bounds a plan and not a contract: one settlement and then the cures of
its underwriter's claim are one repayment more than a plan has. -/
theorem not_one_plan :
    letI := Libm.unused
    ¬∀ (s : State) (es : List Event) (id : ContractId), Founding s →
      Reaches.Admits Event.next Event.KeepsUnit es s →
      discharges Tx.repays id es s ≤ maxInstallments := by
  let _ : Libm := Libm.unused
  intro h
  have hplan := h (devGenesis [2000, 0, 0]).state (partEvents 128) 1
    (Genesis.founding_state (by decide +kernel)) (admits_partEvents 128 _)
  have hcount : discharges Tx.repays 1 (partEvents 128) (devGenesis [2000, 0, 0]).state = 129 := by
    decide +kernel
  rw [hcount] at hplan
  exact absurd hplan (by decide)

/-- A debt that nobody stands behind is settled in part, falls due, and is cured in part. -/
def plainEvents : List Event :=
  [.transaction (.accept (.member 0) (.member 1) (F64.ofNat 100) 30 none) 0 0
      [founderKey 0, founderKey 1] 10,
    .transaction (.settle 0 (F64.ofNat 10)) 1 0 [founderKey 0, founderKey 1] 10,
    .block (32 * epochSecs),
    .transaction (.cure 0 (F64.ofNat 10)) 2 40 [founderKey 0, founderKey 1] (32 * epochSecs)]

/-- Two cures of the claim, and what the bound says of them; and a debt without an underwriter,
which stays on its plan in default. -/
theorem repayments_bounded_cured :
    letI := Libm.unused
    let s := (devGenesis [2000, 0, 0]).state
    (discharges Tx.repays 1 (partEvents 2) s = 3 ∧
      discharges Tx.repays 1 (partEvents 2) s < 2 * maxInstallments) ∧
    discharges Tx.settles 0 plainEvents s = 1 ∧ discharges Tx.cures 0 plainEvents s = 1 ∧
      discharges Tx.repays 0 plainEvents s ≤ maxInstallments := by
  let _ : Libm := Libm.unused
  have hfounding : Founding (devGenesis [2000, 0, 0]).state :=
    Genesis.founding_state (by decide +kernel)
  have hbounded := repayments_bounded hfounding (admits_partEvents 2 _) 1
  have hplain := @repayments_bounded Libm.unused _ hfounding plainEvents
    ⟨trivial, trivial, trivial, trivial, trivial⟩ 0
  have hkept : KeptOnPlan 0 false plainEvents (devGenesis [2000, 0, 0]).state := by decide +kernel
  exact ⟨⟨by decide +kernel, hbounded.2.2.1⟩, by decide +kernel, by decide +kernel,
    hplain.2.2.2.1 hkept⟩

end Edet
