import Edet.Ledger.Rings
import Edet.Ledger.Splitting

/-!
# What stands behind an insured debt

An insured debt that is active owes at least what its hold draws, and its hold lists no arc and
no underwriter twice (`Contract.Backed`).

A payment first lowers the debt and then brings the hold down to it (`rehold`), so between these
two steps one contract is not backed (`BackedBut`). Everything else that a transition or a
boundary writes keeps all of them backed (`backed_dispatch`, `sound_beginBlock`), so they are in
every run (`sound_run`).
-/

namespace Edet

open Edet.Flow

/-- An insured debt that is active owes what its hold draws, or more. -/
def Contract.Backed (c : Contract) : Prop :=
  c.insured = true → c.status = .active → c.held.Whole ∧ c.held.amount ≤ c.outstanding

def State.Backed (s : State) : Prop :=
  ∀ (id : ContractId) (c : Contract), s.contracts[id]? = some c → c.Backed

/-- Every contract stands under its own id, and every insured one is backed. -/
def State.Sound (s : State) : Prop := s.ContractsNamed ∧ s.Backed

namespace Contract

theorem Backed.of_uninsured {c : Contract} (h : c.insured = false) : c.Backed := fun hinsured => by
  rw [h] at hinsured
  cases hinsured

theorem Backed.of_inactive {c : Contract} (h : c.status ≠ .active) : c.Backed :=
  fun _ hactive => absurd hactive h

end Contract

theorem Held.whole_empty : ({} : Held).Whole := ⟨List.nodup_nil, List.nodup_nil⟩

/-! ### Holds that are written -/

/-- What is kept of a hold is whole, and as much as is to be kept. -/
theorem whole_shrink {held : Held} {debtor keep : Nat} (whole : held.Whole)
    (hkeep : keep ≤ held.amount) :
    (Loss.shrink held debtor keep held.amount).1.Whole ∧
      (Loss.shrink held debtor keep held.amount).1.amount ≤ keep := by
  cases hpaths : decompose held debtor with
  | ok paths =>
    refine ⟨?_, (Loss.shrink_splits whole hpaths hkeep).2.1.le⟩
    unfold Loss.shrink
    rw [hpaths]
    exact whole_fromPaths _
  | error e =>
    unfold Loss.shrink
    rw [hpaths]
    dsimp only
    set kept := Loss.allocate (held.supply.map Prod.snd) keep held.amount with hkept
    have hsum : kept.sum = keep := (Loss.allocate_spec rfl hkeep).1
    have hlength : kept.length = held.supply.length := by
      rw [hkept, Loss.length_allocate, List.length_map]
    refine ⟨⟨?_, ?_⟩, ?_⟩
    · have hpiece : ∀ i, (((Loss.splitEdges held.edges [keep, held.amount - keep]
          held.amount).getD i []).map Prod.fst).Nodup := by
        intro i
        unfold Loss.splitEdges
        rw [List.getD_eq_getElem?_getD, List.getElem?_map]
        cases (List.range [keep, held.amount - keep].length)[i]? with
        | none => exact List.nodup_nil
        | some j =>
          refine (List.filter_sublist.map Prod.fst).nodup ?_
          rw [List.map_map]
          exact whole.edges
      exact hpiece 0
    · rw [List.map_map]
      have hkeys : (held.supply.zip kept).map ((fun p => p.1) ∘ fun p => (p.1.1, p.2)) =
          held.supply.map Prod.fst := by
        have hfst : (held.supply.zip kept).map Prod.fst = held.supply := List.map_fst_zip hlength.ge
        conv_rhs => rw [← hfst, List.map_map]
        rfl
      exact (List.filter_sublist.map _).nodup (hkeys ▸ whole.supply)
    · have hsnd : (held.supply.zip kept).map Prod.snd = kept := List.map_snd_zip hlength.le
      unfold Held.amount
      rw [List.map_map]
      refine le_trans ?_ (hsnd ▸ hsum).le
      exact (List.filter_sublist.map _).sum_le_sum fun _ _ => Nat.zero_le _

/-- A hold taken over together with another. -/
theorem whole_mergeHeld {into add : Held} (hinto : into.Whole) :
    (Cascade.mergeHeld into add).Whole ∧
      (Cascade.mergeHeld into add).amount = into.amount + add.amount := by
  refine ⟨⟨OrdMap.nodup_keys _, OrdMap.nodup_keys _⟩, ?_⟩
  have hflow : listFlow (Cascade.mergeHeld into add).supply =
      listFlow into.supply + listFlow add.supply := by
    ext u
    rw [Finsupp.add_apply, listFlow_apply, listFlow_apply, listFlow_apply, Cascade.mergeHeld]
    dsimp only
    rw [amountAt_toList, getD'_addAll, getD'_ofList hinto.supply]
  rw [Loss.amount_eq_sum, hflow, Finsupp.sum_add_index' (fun _ => rfl) fun _ _ _ => rfl,
    ← Loss.amount_eq_sum, ← Loss.amount_eq_sum]

/-- What is reserved is a whole hold of the amount asked for. -/
theorem whole_reserve {s s' : State} {debtor want : Nat} {held : Held}
    (h : s.reserveCapacityMinor debtor want = (some held, s')) :
    held.Whole ∧ held.amount = want := by
  unfold State.reserveCapacityMinor at h
  split at h
  · next hzero =>
    obtain ⟨hheld, -⟩ := Prod.mk.inj h
    obtain rfl := Option.some.inj hheld
    exact ⟨Held.whole_empty, hzero.symm⟩
  · dsimp only at h
    obtain ⟨hheld, -⟩ := Prod.mk.inj h
    have hnodup : (s.uw.map Prod.fst).Nodup := OrdMap.nodup_keys _
    have hreserve : reserveInner s.edges s.reserved s.committed s.uw debtor s.flowN want false =
        (some held, _, _) := Prod.ext hheld rfl
    have hspec := fun (supplies : Nat → Nat) (hle : ∀ p ∈ s.uw, p.2 ≤ supplies p.1) =>
      (reserveInner_spec hnodup hle hreserve).1
    have hflows := hspec (fun u => OrdMap.getD' s.underwriters u 0) fun p hp => by
      rw [OrdMap.getD'_eq, OrdMap.mem_toList.1 hp]
      exact Nat.le_refl _
    exact ⟨⟨hflows.nodup_edges, hflows.nodup_supply⟩, reserveInner_amount hnodup hreserve⟩

theorem contracts_reserve (s : State) (debtor want : Nat) :
    (s.reserveCapacityMinor debtor want).2.contracts = s.contracts := by
  unfold State.reserveCapacityMinor
  split <;> rfl

/-! ### Backed states -/

/-- What was backed stays so. -/
def KeepsBacked (s s' : State) : Prop := s.Backed → s'.Backed

instance : Std.Refl KeepsBacked := ⟨fun _ h => h⟩

instance : IsTrans State KeepsBacked := ⟨fun _ _ _ h h' hs => h' (h hs)⟩

namespace KeepsBacked

theorem refl (s : State) : KeepsBacked s s := fun h => h

theorem trans {s s' s'' : State} (h : KeepsBacked s s') (h' : KeepsBacked s' s'') :
    KeepsBacked s s'' := fun hs => h' (h hs)

theorem of_eq {s s' : State} (h : s'.contracts = s.contracts) : KeepsBacked s s' :=
  fun hs id c hc => hs id c (h ▸ hc)

theorem modContract {s : State} {id : ContractId} {f : Contract → Contract}
    (hf : ∀ c : Contract, c.Backed → (f c).Backed) : KeepsBacked s (s.modContract id f) := by
  intro hs a c' hc'
  rw [State.modContract, OrdMap.getElem?_modify_map, Option.map_eq_some_iff] at hc'
  obtain ⟨c, hc, rfl⟩ := hc'
  split
  · exact hf c (hs a c hc)
  · exact hs a c hc

theorem inserted {s s' : State} {id : ContractId} {c : Contract} (hc : c.Backed)
    (hcontracts : s'.contracts = s.contracts.insert id c) : KeepsBacked s s' := by
  intro hs a c' hc'
  rw [hcontracts, Std.ExtTreeMap.getElem?_insert] at hc'
  split at hc'
  · cases hc'
    exact hc
  · exact hs a c' hc'

theorem foldl {β : Type} {f : State → β → State} (h : ∀ s x, KeepsBacked s (f s x)) (l : List β)
    (s : State) : KeepsBacked s (l.foldl f s) := Op.Moves.foldl h l s

end KeepsBacked

/-- All are backed but `id`, whose hold is only whole. -/
def BackedBut (id : ContractId) (s : State) : Prop :=
  ∀ (a : ContractId) (c : Contract), s.contracts[a]? = some c →
    (a ≠ id → c.Backed) ∧ (c.insured = true → c.status = .active → c.held.Whole)

theorem State.Backed.but {s : State} (h : s.Backed) (id : ContractId) : BackedBut id s :=
  fun a c hc => ⟨fun _ => h a c hc, fun hi ha => (h a c hc hi ha).1⟩

theorem BackedBut.of_eq {s s' : State} {id : ContractId} (h : BackedBut id s)
    (hcontracts : s'.contracts = s.contracts) : BackedBut id s' :=
  fun a c hc => h a c (hcontracts ▸ hc)

/-- Once the one is backed, all are. -/
theorem BackedBut.backed {s s' : State} {id : ContractId} {f : Contract → Contract}
    (h : BackedBut id s) (hcontracts : s'.contracts = (s.modContract id f).contracts)
    (hf : ∀ c, s.contracts[id]? = some c → (f c).Backed) : s'.Backed := by
  intro a c' hc'
  rw [hcontracts, State.modContract, OrdMap.getElem?_modify_map, Option.map_eq_some_iff] at hc'
  obtain ⟨c, hc, rfl⟩ := hc'
  split
  · next heq => exact hf c (heq ▸ hc)
  · next hne => exact (h a c hc).1 (Ne.symm hne)

namespace Apply

abbrev Backs {α : Type} (op : Tr α) : Prop := Op.Moves KeepsBacked op

variable {s : State}

theorem backed_memberMut (id : MemberId) (f : Member → Member) : Backs (memberMut id f) := by
  unfold memberMut
  exact .bind (.check _) fun _ => .write fun _ => .of_eq rfl

theorem backed_contractMut {id : ContractId} {f : Contract → Contract}
    (hf : ∀ c : Contract, c.Backed → (f c).Backed) : Backs (contractMut id f) := by
  unfold contractMut
  exact .bind (.check _) fun _ => .write fun _ => .modContract hf

/-- **Bringing the hold down backs the contract**. -/
theorem backed_rehold_of_but {id : ContractId} (h : BackedBut id s) :
    (Op.exec (rehold id) s).2.Backed := by
  unfold rehold
  cases hc : s.contracts[id]? with
  | none =>
    have herror : Op.exec (contract id) s = (.error .ctrUnknown, s) :=
      Prod.ext (by rw [contract, Op.exec_check, findContract, hc]) rfl
    rw [Op.exec_bind_error herror]
    intro a c ha
    refine (h a c ha).1 ?_
    rintro rfl
    rw [hc] at ha
    cases ha
  | some c =>
    rw [Op.exec_bind_ok (exec_contract hc)]
    -- what has to be shown where nothing is written
    have hstays : c.Backed → s.Backed := by
      intro hbacked a c' ha
      by_cases heq : a = id
      · subst heq
        rw [hc] at ha
        cases ha
        exact hbacked
      · exact (h a c' ha).1 heq
    have hwhole := (h id c hc).2
    have hwant : (if c.status.live then c.outstanding else 0) ≤ c.outstanding := by
      split
      · exact Nat.le_refl _
      · exact Nat.zero_le _
    by_cases hinsured : c.insured = true
    swap
    · rw [if_pos hinsured]
      exact hstays (.of_uninsured (by simpa using hinsured))
    rw [if_neg (not_not.2 hinsured)]
    dsimp only
    generalize (if c.status.live then c.outstanding else 0) = want at hwant ⊢
    by_cases hpos : 0 < c.held.amount
    · rw [if_pos hpos]
      split
      · next hkeep =>
        exact hstays fun hi ha => ⟨hwhole hi ha, (min_eq_right_iff.1 hkeep).trans hwant⟩
      · rw [Op.exec_bind_ok (Op.exec_write _ s),
          exec_contractMut (s := s.releaseCapacity (Loss.shrink c.held c.debtor
            (min want c.held.amount) c.held.amount).2) hc]
        refine h.backed rfl fun c' hc' => ?_
        rw [hc] at hc'
        cases hc'
        intro hi ha
        obtain ⟨hshrunk, hamount⟩ := whole_shrink (hwhole hi ha) (Nat.min_le_right want c.held.amount)
        exact ⟨hshrunk, hamount.trans ((Nat.min_le_left _ _).trans hwant)⟩
    · rw [if_neg hpos, Op.exec_bind_ok (Op.exec_ask _ s)]
      have hnone : c.held.amount = 0 := Nat.eq_zero_of_not_pos hpos
      split
      · cases hgot : s.reserveCapacityMinor c.debtor want with
        | mk got s₁ =>
          have hcontracts : s₁.contracts = s.contracts := by
            have := contracts_reserve s c.debtor want
            rwa [hgot] at this
          have hdraw : Op.exec (Op.draw (·.reserveCapacityMinor c.debtor want) :
              Tr (Option Held)) s = (.ok got, s₁) := by
            rw [Op.exec_draw, hgot]
          have hc₁ : s₁.contracts[id]? = some c := by rw [hcontracts, hc]
          rw [Op.exec_bind_ok hdraw]
          cases got with
          | none =>
            dsimp only
            rw [exec_contractMut hc₁]
            exact (h.of_eq hcontracts).backed rfl fun c' _ => .of_uninsured rfl
          | some held =>
            dsimp only
            rw [exec_contractMut hc₁]
            refine (h.of_eq hcontracts).backed rfl fun c' hc' => ?_
            rw [hc₁] at hc'
            cases hc'
            obtain ⟨hheld, hamount⟩ := whole_reserve hgot
            exact fun _ _ => ⟨hheld, hamount.le.trans hwant⟩
      · exact hstays fun hi ha => ⟨hwhole hi ha, hnone ▸ Nat.zero_le _⟩

theorem backed_rehold (id : ContractId) : Backs (rehold id) := fun _ h =>
  backed_rehold_of_but (h.but id)

/-! ### Opening -/

theorem backed_reserve (debtor : MemberId) (want : Nat) :
    Backs (Op.draw (·.reserveCapacityMinor debtor want)) :=
  .draw fun s => .of_eq (contracts_reserve s debtor want)

/-- A hold that comes with an obligation of `amount`. -/
def Fitting (amount : Nat) (held : Option Held) : Prop :=
  ∀ h, held = some h → h.Whole ∧ h.amount ≤ amount

theorem backed_openObligation {amount : Nat} {held : Option Held} (hheld : Fitting amount held)
    (debtor creditor maturityEpoch : Nat) (arb : Option ArbTerms) (acceptedEpoch : Nat) :
    Backs (openObligation debtor creditor amount maturityEpoch arb held acceptedEpoch) := by
  unfold openObligation
  refine .bind (.check _) fun debtOut => .bind (.ask _) fun id => .bind (.write fun s => ?_) fun _ =>
    .bind (backed_memberMut _ _) fun _ => .pure _
  refine .inserted ?_ rfl
  intro hinsured _
  cases held with
  | none => cases hinsured
  | some h => exact hheld h rfl

/-- What `reserveIf` gives fits, and no contract was written. -/
theorem fitting_reserveIf (allowed : Bool) (debtor : MemberId) (amount : Nat) :
    Op.Triple State.Backed (reserveIf allowed debtor amount)
      (fun held s => s.Backed ∧ Fitting amount held) State.Backed := by
  unfold reserveIf
  refine .ite (fun _ => .draw fun s hs => ⟨backed_reserve debtor amount s hs, ?_⟩) fun _ =>
    .pure fun s hs => ⟨hs, fun h hnone => by cases hnone⟩
  intro h hheld
  obtain ⟨hwhole, hamount⟩ := whole_reserve (Prod.ext hheld rfl)
  exact ⟨hwhole, hamount.le⟩

/-- A triple that keeps the states backed is a move. -/
theorem Backs.of_triple {α : Type} {op : Tr α}
    (h : Op.Triple State.Backed op (fun _ => State.Backed) State.Backed) : Backs op :=
  fun _ hs => h.exec_snd hs

theorem Backs.to_triple {α : Type} {op : Tr α} (h : Backs op) :
    Op.Triple State.Backed op (fun _ => State.Backed) State.Backed :=
  h.triple fun _ _ hmoves hs => hmoves hs

theorem backed_book (debtor creditor : MemberId) (amount maturityEpoch : Nat)
    (arb : Option ArbTerms) : Backs (book debtor creditor amount maturityEpoch arb) := by
  unfold book
  refine .bind (.check _) fun _ => .bind (.ask _) fun inside => Backs.of_triple ?_
  refine .bind (fitting_reserveIf _ _ _) fun held => .of_fact fun hheld => ?_
  exact Backs.to_triple (.bind (.ask _) fun _ => backed_openObligation hheld _ _ _ _ _)

theorem backed_moveDebtor (c : Contract) (newDebtor : MemberId) :
    Backs (moveDebtor c newDebtor none) := by
  unfold moveDebtor successorHold
  refine .bind (.check _) fun _ => .bind (.write fun _ => .of_eq rfl) fun _ =>
    .bind (backed_memberMut _ _) fun _ => ?_
  refine .bind (backed_contractMut fun _ _ => .of_uninsured rfl) fun _ => .bind (.ask _) fun inside => ?_
  refine Backs.of_triple (.bind (fitting_reserveIf _ _ _) fun held => .of_fact fun hheld => ?_)
  exact Backs.to_triple (.bind (backed_openObligation hheld _ _ _ _ _) fun _ => .pure _)

/-! ### Discharge -/

/-- A step that lowers one debt leaves only its contract to be brought down. -/
theorem backedBut_modContract {id : ContractId} {f : Contract → Contract} (hs : s.Backed)
    (hinsured : ∀ c, (f c).insured = c.insured) (hheld : ∀ c, (f c).held = c.held)
    (hactive : ∀ c, s.contracts[id]? = some c → (f c).status = .active → c.status = .active) :
    BackedBut id (s.modContract id f) := by
  intro a c' hc'
  rw [State.modContract, OrdMap.getElem?_modify_map, Option.map_eq_some_iff] at hc'
  obtain ⟨c, hc, rfl⟩ := hc'
  split
  · next heq =>
    refine ⟨fun hne => absurd heq.symm hne, fun hi ha => ?_⟩
    rw [hheld]
    exact (hs a c hc (hinsured c ▸ hi) (hactive c (heq ▸ hc) ha)).1
  · exact ⟨fun _ => hs a c hc, fun hi ha => (hs a c hc hi ha).1⟩

theorem backed_dischargeCredit (debtor creditor : MemberId) (amount : Nat) (s : State) :
    KeepsBacked s (dischargeCredit debtor creditor amount s) := by
  unfold dischargeCredit
  split <;> exact .of_eq rfl

/-- **A hop whose debtor is there is discharged whole**. -/
theorem backed_dischargeHop {id : ContractId} (howed : Owed s id) (hs : s.Backed) (want : Nat) :
    Op.Succeeds (dischargeHop id want) s fun _ s' => Winds s s' ∧ s'.Backed := by
  obtain ⟨c, m, hc, hm⟩ := howed
  unfold dischargeHop
  refine .bind_ask ?_
  refine .bind (succeeds_contract (Q := fun c' s' => c = c' ∧ s = s') hc ⟨rfl, rfl⟩) ?_
  rintro _ _ ⟨rfl, rfl⟩
  refine .ite (fun _ => .pure ⟨.refl _, hs⟩) fun _ => ?_
  refine .bind (Q := fun _ t => BackedBut id t ∧ Winds s t) (succeeds_contractMut hc
    ⟨backedBut_modContract hs (fun _ => rfl) (fun _ => rfl) fun c' hc' ha => ?_,
      .modContract _ _ fun _ => rfl⟩) fun _ s₁ h₁ => ?_
  · rw [hc] at hc'
    cases hc'
    dsimp only at ha
    split at ha
    · split at ha <;> cases ha
    · exact ha
  obtain ⟨m₁, hm₁, -⟩ := h₁.2.row _ m hm
  refine .bind (Q := fun _ t => BackedBut id t ∧ Winds s t) (succeeds_memberMut hm₁
    ⟨h₁.1.of_eq rfl, h₁.2.trans (.modMember _ _ fun _ => Nat.sub_le _ _)⟩) fun _ s₂ h₂ => ?_
  obtain ⟨c₂, hc₂, -⟩ := h₂.2.contract id c hc
  refine .bind (Q := fun _ t => Winds s t ∧ t.Backed) ?_ fun _ s₃ h₃ => ?_
  · obtain ⟨u, s₃, hexec, hw⟩ := succeeds_rehold hc₂
    have hbacked := backed_rehold_of_but h₂.1
    rw [hexec] at hbacked
    exact ⟨u, s₃, hexec, h₂.2.trans hw, hbacked⟩
  · exact .bind (Q := fun _ t => Winds s t ∧ t.Backed) (.write
      ⟨h₃.1.trans (winds_dischargeCredit _ _ _ _), backed_dischargeCredit _ _ _ _ h₃.2⟩)
      fun _ _ h₄ => .pure h₄

theorem backed_netMutual {ids : List ContractId} (howed : ∀ id ∈ ids, Owed s id) (hs : s.Backed)
    (budget netted : Nat) :
    Op.Succeeds (netMutual budget ids netted) s fun _ s' => s'.Backed := by
  induction ids generalizing s netted with
  | nil => exact .pure hs
  | cons id ids ih =>
    unfold netMutual
    refine .bind_ask (.ite (fun _ => .pure hs) fun _ => ?_)
    refine .bind (backed_dischargeHop (howed id List.mem_cons_self) hs _) fun took s₁ h₁ => ?_
    exact ih (fun id' hid' => (howed id' (List.mem_cons_of_mem _ hid')).winds h₁.1) h₁.2 _

theorem triple_rehold (id : ContractId) :
    Op.Triple (BackedBut id) (rehold id) (fun _ => State.Backed) State.Backed := by
  intro s hs
  have hbacked := backed_rehold_of_but hs
  rcases hexec : Op.exec (rehold id) s with ⟨_ | _, t⟩ <;> rw [hexec] at hbacked <;> exact hbacked

theorem backed_repayment (status : ContractStatus) {closed : ContractStatus}
    (hclosed : closed ≠ .active) (cured : Bool) (id : ContractId) (amount : F64)
    (signers : List Key) : Backs (repayment status closed cured id amount signers) := by
  unfold repayment repay
  refine .bind (.check _) fun _ => .bind (.refuseIf _ _) fun _ => .bind (.check _) fun _ =>
    .bind (.check _) fun _ => .bind (.refuseIf _ _) fun _ => .bind (.refuseIf _ _) fun _ =>
    .bind (.ask _) fun dust => Backs.of_triple ?_
  refine .bind (Q := fun _ => BackedBut id) ?_ fun _ =>
    .bind (Q := fun _ => State.Backed) (triple_rehold id) fun _ => Backs.to_triple ?_
  · unfold contractMut
    refine .bind (Q := fun _ => State.Backed) (.check (fun _ _ h _ => h) fun _ h => h) fun _ =>
      .write fun s hs => backedBut_modContract hs (fun _ => rfl) (fun _ => rfl) fun c _ ha => ?_
    dsimp only at ha
    split at ha
    · exact absurd ha hclosed
    · exact ha
  · exact .bind (.write fun s => backed_dischargeCredit _ _ _ s) fun _ => backed_memberMut _ _

theorem backed_netRing {ring : List Contract} (hs : s.Sound) (hring : IsRing s ring) :
    (Op.exec (netRing (ring.map Contract.id)) s).2.Backed := by
  have howed : ∀ id ∈ ring.map Contract.id, Owed s id := by
    intro id hid
    obtain ⟨c, hc, rfl⟩ := List.mem_map.1 hid
    obtain ⟨hget, -, -, m, hm⟩ := hop_of_eligible hs.1 (hring.eligible c hc)
    exact ⟨c, m, hget, hm⟩
  have hloop : ∀ take, Op.Triple (fun t => Winds s t ∧ t.Backed)
      ((ring.map Contract.id).forM fun id => Op.attempt (dischargeHop id take))
      (fun _ t => Winds s t ∧ t.Backed) fun t => Winds s t ∧ t.Backed := by
    refine fun take => .forM fun id hid t ht => ?_
    obtain ⟨took, t', hexec, hwinds, hbacked⟩ :=
      backed_dischargeHop ((howed id hid).winds ht.1) ht.2 take
    rw [Op.exec_attempt, hexec]
    exact ⟨ht.1.trans hwinds, hbacked⟩
  unfold netRing
  rw [Op.exec_bind_ok (Op.exec_ask _ s)]
  exact ((hloop _).exec_snd ⟨.refl s, hs.2⟩).2

theorem backed_netRings (rounds : Nat) (hs : s.Sound) :
    (Op.exec (netRings rounds) s).2.Backed := by
  induction rounds generalizing s with
  | zero => exact hs.2
  | succ rounds ih =>
    cases hfind : findRing s with
    | none =>
      rw [exec_netRings_of_none hfind]
      exact hs.2
    | some ids =>
      obtain ⟨ring, hring, rfl⟩ := isRing_of_findRing hfind
      obtain ⟨s₁, hexec, -⟩ := netted_ring hs.1 hring
      have hfollows := follows_netRing (ring.map Contract.id) s
      have hbacked := backed_netRing hs hring
      rw [hexec] at hfollows hbacked
      rw [exec_netRings_of_some hfind hexec]
      exact ih ⟨hfollows.named hs.1, hbacked⟩

/-! ### Substitution -/

theorem backed_substituteLeg (c : Contract) (maturityEpoch : Nat) (share : Share) :
    Backs (substituteLeg c maturityEpoch share) := by
  unfold substituteLeg substitutionLeg
  refine .ite (fun _ => .ite (fun _ => .pure _) fun _ => .bind (.check _) fun _ => ?_) fun _ => .pure _
  exact .bind (.write fun _ => .inserted (.of_uninsured rfl) rfl) fun _ => backed_memberMut _ _

/-- What the shares of a default are written to is not active. -/
theorem backed_substitute (id : ContractId) {s : State} (hid : Defaulted id s) :
    KeepsBacked s (Op.exec (substitute id) s).2 := by
  have hrest : ∀ (c : Contract) (maturity : Nat) (first : Share) (rest : List Share),
      Backs (do
        substituteLeg c maturity first
        rest.forM fun share => do
          Op.write (subrogatedClaim c share.underwriter share.amount share.held)
          substituteLeg c maturity share) := fun c maturity first rest =>
    .bind (backed_substituteLeg _ _ _) fun _ => .forM fun share _ =>
      .bind (.write fun _ => .inserted (.of_inactive (by simp)) rfl) fun _ =>
        backed_substituteLeg _ _ _
  intro hs
  have hsub : Op.Triple (fun t => t = s) (substitute id) (fun _ => State.Backed) State.Backed := by
    have hpure : Op.Triple (fun t => t = s) (pure () : Tr Unit) (fun _ => State.Backed) State.Backed :=
      .pure fun t ht => ht ▸ hs
    unfold substitute
    refine .bind (Q := fun _ t => t = s) (.check (fun _ _ ht _ => ht) fun t ht => ht ▸ hs) fun c => ?_
    refine .ite (fun _ => hpure) fun _ => .ite (fun _ => hpure) fun _ => .ite (fun _ => hpure) fun _ =>
      .ite (fun _ => hpure) fun _ => .bind (Q := fun _ t => t = s) (.ask fun _ ht => ht) fun maturity => ?_
    cases shares c with
    | nil => exact hpure
    | cons first rest =>
      refine .bind (Q := fun _ => State.Backed) ?_ fun _ =>
        Backs.to_triple (hrest c maturity first rest)
      unfold contractMut
      refine .bind (Q := fun _ t => t = s)
        (.check (fun _ _ ht _ => ht) fun t ht => ht ▸ hs) fun _ => .write fun t ht => ?_
      subst ht
      exact (hs.but id).backed rfl fun c hc => .of_inactive (by simp [hid c hc])
  exact hsub.exec_snd rfl

theorem backed_markExpired (id : ContractId) : Backs (markExpired id) := by
  refine Backs.of_triple ?_
  unfold markExpired
  refine .bind (Backs.to_triple (quiet_expirable id).moves) fun c =>
    .bind (Q := fun _ t => t.Backed ∧ Defaulted id t) ?_ fun _ =>
    .bind (Q := fun _ t => t.Backed ∧ Defaulted id t) ?_ fun _ => ?_
  · unfold contractMut
    refine .bind (Q := fun _ => State.Backed) (.check (fun _ _ ht _ => ht) fun _ ht => ht) fun _ =>
      .write fun t ht => ⟨?_, fun c' hc' => ?_⟩
    · exact KeepsBacked.modContract (fun c _ => .of_inactive (by simp)) ht
    · rw [State.modContract, OrdMap.getElem?_modify_map, Option.map_eq_some_iff] at hc'
      obtain ⟨c, -, rfl⟩ := hc'
      rw [if_pos rfl]
  · unfold memberMut
    exact .bind (Q := fun _ t => t.Backed ∧ Defaulted id t)
      (.check (fun _ _ ht _ => ht) fun _ ht => ht.1) fun _ => .write fun t ht => ht
  · intro t ht
    have h := backed_substitute id ht.2 ht.1
    rcases hexec : Op.exec (substitute id) t with ⟨_ | _, u⟩ <;> rw [hexec] at h <;> exact h

/-! ### Transfers, extensions and panels -/

theorem backed_transfer (id : ContractId) (newDebtor : MemberId) (signers : List Key) :
    Backs (transfer id newDebtor signers) := by
  unfold transfer
  exact .bind (quiet_transferable _ _ _).moves fun _ => backed_moveDebtor _ _

theorem backed_extend (id : ContractId) (newMaturityEpoch : Nat) (signers : List Key) :
    Backs (extend id newMaturityEpoch signers) := by
  unfold extend
  refine .bind (.check _) fun _ => .bind (.refuseIf _ _) fun _ => .bind (.check _) fun _ =>
    .bind (.check _) fun _ => .bind (.refuseIf _ _) fun _ => .bind (.ask _) fun _ =>
    .bind (.refuseIf _ _) fun _ => .bind (.ask _) fun drops => .ite (fun _ => ?_) fun _ => ?_
  · exact .bind (.write fun _ => .of_eq rfl) fun _ =>
      backed_contractMut fun _ _ => .of_uninsured rfl
  · exact backed_contractMut fun c hc => hc

theorem backed_arbAttest (id : ContractId) (arbiter : MemberId) (amount : F64)
    (signers : List Key) : Backs (arbAttest id arbiter amount signers) := by
  unfold arbAttest
  refine .bind (.check _) fun _ => .bind (.check _) fun c => ?_
  cases c.arb with
  | none => exact .refuse _
  | some terms =>
    refine .bind (.refuseIf _ _) fun _ => .bind (.ask _) fun _ => .bind (.refuseIf _ _) fun _ =>
      .bind (.refuseIf _ _) fun _ => .bind (.refuseIf _ _) fun _ => .bind (.refuseIf _ _) fun _ => ?_
    exact backed_contractMut fun c hc => hc

theorem backed_arbAward (id : ContractId) : Backs (arbAward id) :=
  moves_arbAward (fun _ => backed_contractMut fun _ hc => hc)
    (fun _ _ _ _ _ => backed_openObligation (fun h hnone => by cases hnone) _ _ _ _ _) id

/-! ### Seats -/

/-- Contracts stay as they are, and rows stay. -/
def Seats (s s' : State) : Prop :=
  s'.contracts = s.contracts ∧
    ∀ id : MemberId, (∃ m, s.members[id]? = some m) → ∃ m, s'.members[id]? = some m

instance : Std.Refl Seats := ⟨fun _ => ⟨rfl, fun _ h => h⟩⟩

instance : IsTrans State Seats :=
  ⟨fun _ _ _ h h' => ⟨h'.1.trans h.1, fun id hid => h'.2 id (h.2 id hid)⟩⟩

theorem seats_seatPair (first second : Resolved) (sponsor : Option MemberId) :
    Op.Moves Seats (seatPair first second sponsor) := by
  refine moves_seatPair (fun _ _ _ => ⟨rfl, fun _ h => h⟩) (fun s k => ⟨rfl, fun id hid => ?_⟩)
    (fun s row x => ⟨rfl, fun id hid => ?_⟩) _ _ _
  · unfold State.newAccount
    dsimp only
    rw [Std.ExtTreeMap.getElem?_insert]
    split
    · exact ⟨_, rfl⟩
    · exact hid
  · obtain ⟨m, hm⟩ := hid
    exact ⟨_, by rw [State.modMember, OrdMap.getElem?_modify_map, hm]; rfl⟩

theorem backed_of_seats {α : Type} {op : Tr α} (h : Op.Moves Seats op) : Backs op :=
  fun s => .of_eq (h s).1

theorem backed_accept (debtor creditor : Party) (amount : F64) (maturityEpochs : Nat)
    (arb : Option ArbTermsWire) (signers : List Key) (sponsor : Option MemberId) :
    Backs (accept debtor creditor amount maturityEpochs arb signers sponsor) := by
  unfold accept
  refine .bind (quiet_acceptTerms _ _ _ _ _ _).moves fun _ =>
    .bind (backed_of_seats (seats_seatPair _ _ _)) fun _ => ?_
  exact .bind (backed_book _ _ _ _ _) fun _ => .pure _

end Apply

namespace Cascade

open Apply

/-! ### Sales -/

/-- Every hold that was gathered for the buyer is whole, and within its amount. -/
def FittingAll (assumed : Assumed) : Prop :=
  ∀ (k : MemberId × Nat) (slot : Nat × Held × Nat), assumed[k]? = some slot →
    slot.2.1.Whole ∧ slot.2.1.amount ≤ slot.1

theorem fittingAll_assume {assumed : Assumed} (h : FittingAll assumed)
    (creditor due amount accepted : Nat) {held : Held} (hamount : held.amount ≤ amount) :
    FittingAll (assume assumed creditor due amount accepted held) := by
  have hslot : (OrdMap.getD' assumed (creditor, due) (0, {}, u64Max)).2.1.Whole ∧
      (OrdMap.getD' assumed (creditor, due) (0, {}, u64Max)).2.1.amount ≤
        (OrdMap.getD' assumed (creditor, due) (0, {}, u64Max)).1 := by
    rw [OrdMap.getD'_eq]
    cases hget : assumed[(creditor, due)]? with
    | none => exact ⟨Held.whole_empty, Nat.le_refl _⟩
    | some slot => exact h _ slot hget
  intro k slot hk
  unfold assume at hk
  dsimp only at hk
  rw [Std.ExtTreeMap.getElem?_insert] at hk
  split at hk
  · obtain rfl := Option.some.inj hk
    obtain ⟨hwhole, hsum⟩ := @whole_mergeHeld _ held hslot.1
    exact ⟨hwhole, hsum ▸ Nat.add_le_add hslot.2 hamount⟩
  · exact h k slot hk

/-- The contract has no hold. -/
def Emptied (id : ContractId) (s : State) : Prop :=
  ∀ c : Contract, s.contracts[id]? = some c → c.held = {}

theorem triple_empty (id : ContractId) :
    Op.Triple State.Backed (contractMut id fun cm => { cm with held := {} })
      (fun _ s => s.Backed ∧ Emptied id s) State.Backed := by
  unfold contractMut
  refine .bind (Q := fun _ => State.Backed) (.check (fun _ _ hs _ => hs) fun _ hs => hs) fun _ =>
    .write fun s hs => ⟨?_, fun c' hc' => ?_⟩
  · exact KeepsBacked.modContract (fun c _ _ _ => ⟨Held.whole_empty, Nat.zero_le _⟩) hs
  · rw [State.modContract, OrdMap.getElem?_modify_map, Option.map_eq_some_iff] at hc'
    obtain ⟨c, -, rfl⟩ := hc'
    rw [if_pos rfl]

/-- What a step of a cascade gathers fits, and it keeps the debts backed. -/
abbrev Gathers {α : Type} (op : Tr α) (assumed : α → Assumed) : Prop :=
  Op.Triple State.Backed op (fun r s => s.Backed ∧ FittingAll (assumed r)) State.Backed

theorem gathers_clearDebts (buyer : MemberId) (budget saleMaturity : Nat)
    (ids : List ContractId) (spent : Nat) {assumed : Assumed} (h : FittingAll assumed) :
    Gathers (clearDebts buyer budget saleMaturity ids spent assumed) Prod.snd := by
  induction ids generalizing spent assumed with
  | nil => exact .pure fun s hs => ⟨hs, h⟩
  | cons id ids ih =>
    unfold clearDebts
    refine .bind (Q := fun _ => State.Backed) (.ask fun _ hs => hs) fun dust =>
      .ite (fun _ => .pure fun s hs => ⟨hs, h⟩) fun _ => ?_
    refine .bind (Q := fun _ => State.Backed) (.check (fun _ _ hs _ => hs) fun _ hs => hs) fun c => ?_
    refine .bind (Q := fun _ => State.Backed) (.ask fun _ hs => hs) fun last =>
      .ite (fun _ => ih _ h) fun _ => ?_
    refine .bind (Q := fun _ => State.Backed) (.ask fun _ hs => hs) fun room =>
      .ite (fun _ => ih _ h) fun _ => ?_
    refine .bind (Q := fun _ => State.Backed) (.write fun s hs => hs) fun _ => ?_
    -- with its hold gone the debt may be lowered at will
    refine .bind (Q := fun _ s => s.Backed ∧ Emptied id s) (triple_empty id) fun _ => ?_
    refine .bind (Q := fun got s => (s.Backed ∧ Emptied id s) ∧
      ∀ held, got = some held → held.amount ≤ min (min c.outstanding (budget - spent)) room)
      (.draw fun s hs => ⟨⟨?_, ?_⟩, fun held hheld => ?_⟩) fun got => .of_fact fun hgot => ?_
    · exact backed_reserve buyer _ s hs.1
    · intro c' hc'
      rw [contracts_reserve] at hc'
      exact hs.2 c' hc'
    · exact (whole_reserve (Prod.ext hheld rfl)).2.le
    cases got with
    | none =>
      refine .bind (Q := fun _ => State.Backed) ?_ fun _ => ih _ h
      exact (Backs.to_triple (backed_rehold id)).weaken (fun _ hs => hs.1) (fun _ _ hs => hs)
        fun _ hs => hs
    | some held =>
      refine .bind (Q := fun _ => State.Backed) ?_ fun _ =>
        .bind (Q := fun _ => State.Backed) (Backs.to_triple (backed_memberMut _ _)) fun _ =>
        .bind (Q := fun _ => State.Backed) (Backs.to_triple (backed_rehold id)) fun _ =>
        ih _ (fittingAll_assume h _ _ _ _ (hgot held rfl))
      unfold contractMut
      refine .bind (Q := fun _ s => s.Backed ∧ Emptied id s) (.check (fun _ _ hs _ => hs)
        fun _ hs => hs.1) fun _ => .write fun s hs => (hs.1.but id).backed rfl fun c' hc' => ?_
      intro _ _
      dsimp only
      rw [hs.2 c' hc']
      exact ⟨Held.whole_empty, Nat.zero_le _⟩

theorem gathers_clearMemberDebts (debtor buyer : MemberId) (budget saleMaturity : Nat)
    {assumed : Assumed} (h : FittingAll assumed) :
    Gathers (clearMemberDebts debtor buyer budget saleMaturity assumed) Prod.snd := by
  unfold clearMemberDebts
  exact .bind (Q := fun _ => State.Backed) (.ask fun _ hs => hs) fun _ =>
    gathers_clearDebts _ _ _ _ _ h

theorem gathers_drainTargetsLoop {buyer : MemberId} {saleMaturity depth : Nat}
    (hdeeper : ∀ lister budget visited assumed, FittingAll assumed →
      Gathers (drainLevel buyer saleMaturity depth lister budget visited assumed) fun r => r.2.2)
    (lister : MemberId) (targets : List (MemberId × Nat)) (absorbed : Nat)
    (visited : List MemberId) {assumed : Assumed} (h : FittingAll assumed) :
    Gathers (drainTargetsLoop buyer saleMaturity depth lister targets absorbed visited assumed)
      fun r => r.2.2 := by
  induction targets generalizing absorbed visited assumed with
  | nil => unfold drainTargetsLoop; exact .pure fun s hs => ⟨hs, h⟩
  | cons target rest ih =>
    unfold drainTargetsLoop
    refine .bind (Q := fun _ => State.Backed) (.ask fun _ hs => hs) fun dust =>
      .ite (fun _ => ih _ _ h) fun _ => ?_
    refine .bind (gathers_clearMemberDebts _ _ _ _ h) fun cleared => .of_fact fun hcleared => ?_
    refine .ite (fun _ => ?_) fun _ => ih _ _ hcleared
    exact .bind (hdeeper _ _ _ _ hcleared) fun deeper => .of_fact fun hdeep => ih _ _ hdeep

theorem gathers_drainLevel (buyer : MemberId) (saleMaturity depth : Nat) (lister : MemberId)
    (budget : Nat) (visited : List MemberId) {assumed : Assumed} (h : FittingAll assumed) :
    Gathers (drainLevel buyer saleMaturity depth lister budget visited assumed) fun r => r.2.2 := by
  induction depth generalizing lister budget visited assumed with
  | zero => unfold drainLevel; exact .pure fun s hs => ⟨hs, h⟩
  | succ depth ih =>
    unfold drainLevel
    refine .bind (Q := fun _ => State.Backed) (.ask fun _ hs => hs) fun dust =>
      .ite (fun _ => .pure fun s hs => ⟨hs, h⟩) fun _ => ?_
    refine .bind (Q := fun _ => State.Backed) (.check (fun _ _ hs _ => hs) fun _ hs => hs) fun self => ?_
    refine .bind (Q := fun _ => State.Backed) (.ask fun _ hs => hs) fun targets =>
      .ite (fun _ => .pure fun s hs => ⟨hs, h⟩) fun _ => ?_
    exact gathers_drainTargetsLoop (fun lister budget visited assumed hassumed =>
      ih lister budget visited hassumed) _ _ _ _ h

theorem fittingAll_empty : FittingAll ∅ := fun k slot hk => by simp at hk

theorem gathers_takeOver (seller buyer : MemberId) (budget saleMaturity : Nat) :
    Gathers (takeOver seller buyer budget saleMaturity) Prod.snd := by
  unfold takeOver
  refine .bind (Q := fun _ => State.Backed) (.ask fun _ hs => hs) fun dust =>
    .ite (fun _ => .pure fun s hs => ⟨hs, fittingAll_empty⟩) fun _ => ?_
  refine .bind (Q := fun _ => State.Backed) (.check (fun _ _ hs _ => hs) fun _ hs => hs) fun self =>
    .ite (fun _ => gathers_clearMemberDebts _ _ _ _ fittingAll_empty) fun _ => ?_
  exact .bind (gathers_drainLevel _ _ _ _ _ _ fittingAll_empty) fun drained => .pure fun s hs => hs

theorem backed_originate (seller buyer : MemberId) (budget saleMaturity : Nat) :
    Backs (originate seller buyer budget saleMaturity) := by
  unfold originate
  refine .bind (.ask _) fun dust => Backs.of_triple ?_
  refine .bind (gathers_takeOver _ _ _ _) fun taken => .of_fact fun htaken => Backs.to_triple ?_
  refine .bind (.forM fun slot hslot => ?_) fun _ => .ite (fun _ => ?_) fun _ => .pure _
  · unfold openAssumed
    refine .ite (fun _ => ?_) fun _ => .write fun _ => .of_eq rfl
    refine .bind (backed_openObligation (fun held hheld => ?_) _ _ _ _ _) fun _ => .pure _
    obtain rfl := Option.some.inj hheld
    exact htaken _ _ (OrdMap.mem_toList.1 hslot)
  · exact .bind (backed_book _ _ _ _ _) fun _ => .pure _

theorem owed_netCandidates {s : State} {seller buyer : Resolved}
    (hseller : ∀ a, seller = .existing a → ∃ m, s.members[a]? = some m) :
    ∀ id ∈ netCandidates s seller buyer, Owed s id := by
  intro id hid
  cases seller with
  | fresh k => cases hid
  | existing a =>
    cases buyer with
    | fresh k => cases hid
    | existing b =>
      obtain ⟨m, hm⟩ := hseller a rfl
      obtain ⟨c, m', hc, hm', -⟩ := netCandidates_owed hm id hid
      exact ⟨c, m', hc, hm'⟩

theorem backed_sale (seller buyer : Party) (amount : F64) (maturityEpochs : Nat)
    (signers : List Key) (sponsor : Option MemberId) :
    Backs (sale seller buyer amount maturityEpochs signers sponsor) := by
  intro s hs
  unfold sale
  have hquiet := quiet_saleTerms seller buyer amount maturityEpochs signers s
  rcases hterms : Op.exec (saleTerms seller buyer amount maturityEpochs signers) s with
    ⟨e | terms, t⟩
  · rw [hterms] at hquiet
    rw [Op.exec_bind_error hterms]
    exact hquiet ▸ hs
  · obtain rfl : t = s := by rwa [hterms] at hquiet
    have hok : (Op.exec (saleTerms seller buyer amount maturityEpochs signers) t).1 = .ok terms := by
      rw [hterms]
    obtain ⟨-, hcandidates, hseller⟩ := saleTerms_ok hok
    rw [Op.exec_bind_ok hterms]
    have howed : ∀ id ∈ terms.candidates, Owed t id := by
      rw [hcandidates]
      exact owed_netCandidates hseller
    have hrest : Op.Triple (fun u => u = t)
        (seatPair terms.seller terms.buyer sponsor >>= settled terms maturityEpochs)
        (fun _ => State.Backed) State.Backed := by
      refine .bind (Q := fun _ u => u.Backed ∧ ∀ id ∈ terms.candidates, Owed u id) ?_ fun rows => ?_
      · refine ((seats_seatPair _ _ _).triple (I := fun u => Seats t u)
          fun _ _ h ht => IsTrans.trans _ _ _ ht h).weaken (fun u hu => hu ▸ Std.Refl.refl (r := Seats) u)
          (fun _ u hu => ⟨KeepsBacked.of_eq hu.1 hs, fun id hid => ?_⟩)
          fun u hu => KeepsBacked.of_eq hu.1 hs
        obtain ⟨c, m, hc, hm⟩ := howed id hid
        obtain ⟨m', hm'⟩ := hu.2 _ ⟨m, hm⟩
        exact ⟨c, m', by rw [hu.1, hc], hm'⟩
      · unfold settled
        refine .bind (Q := fun _ => State.Backed) (.of_succeeds fun u hu =>
          backed_netMutual hu.2 hu.1 _ _) fun netted => Backs.to_triple ?_
        exact .ite (fun _ => .pure _) fun _ => .bind (.ask _) fun _ => backed_originate _ _ _ _
    exact hrest.exec_snd rfl

end Cascade

/-! ### Redenomination -/

/-- The holds of insured debts list nothing twice. -/
def State.Wholes (s : State) : Prop :=
  ∀ (id : ContractId) (c : Contract), s.contracts[id]? = some c → c.insured = true →
    c.status = .active → c.held.Whole

theorem State.Wholes.modContract {s : State} {id : ContractId} {f : Contract → Contract}
    (h : s.Wholes) (hinsured : ∀ c, (f c).insured = c.insured) (hstatus : ∀ c, (f c).status = c.status)
    (hf : ∀ c : Contract, c.held.Whole → (f c).held.Whole) : (s.modContract id f).Wholes := by
  intro a c' hc' hi ha
  rw [State.modContract, OrdMap.getElem?_modify_map, Option.map_eq_some_iff] at hc'
  obtain ⟨c, hc, rfl⟩ := hc'
  split at hi
  · next heq =>
    rw [if_pos heq] at ha ⊢
    exact hf c (h a c hc (hinsured c ▸ hi) (hstatus c ▸ ha))
  · next hne =>
    rw [if_neg hne] at ha ⊢
    exact h a c hc hi ha

theorem State.Wholes.foldl {β : Type} {f : State → β → State}
    (hf : ∀ s x, State.Wholes s → (f s x).Wholes) (l : List β) {s : State} (h : s.Wholes) :
    (l.foldl f s).Wholes := by
  induction l generalizing s with
  | nil => exact h
  | cons x l ih => exact ih (hf s x h)

theorem map_fst_modify {κ : Type} (l : List (κ × Nat)) (i : Nat) (f : κ × Nat → κ × Nat)
    (hf : ∀ p, (f p).1 = p.1) : (l.modify i f).map Prod.fst = l.map Prod.fst := by
  refine List.ext_getElem? fun j => ?_
  rw [List.getElem?_map, List.getElem?_map, List.getElem?_modify]
  cases l[j]? with
  | none => rfl
  | some p =>
    by_cases hij : i = j
    · simp [hij, hf]
    · simp [hij]

theorem whole_rescaleHeld {held : Held} (scale : Nat → Nat) (h : held.Whole) :
    (rescaleHeld scale held).Whole := by
  refine ⟨(List.filter_sublist.map Prod.fst).nodup ?_, (List.filter_sublist.map Prod.fst).nodup ?_⟩
  · rw [List.map_map]
    exact h.edges
  · rw [List.map_map]
    exact h.supply

theorem wholes_shave {s : State} (h : s.Wholes) : s.shaveHoldsToWhatTheArcsDeliver.Wholes := by
  have hdebtor : ∀ (s : State) (p : MemberId × List ContractId), s.Wholes →
      (s.shaveDebtor p.1 p.2).Wholes := by
    intro s p h
    unfold State.shaveDebtor
    extract_lets holds arcs sources claimed deliverable excess claims shaved written
    split
    · exact h
    split
    · exact h
    · have hwritten : written.Wholes := by
        refine .foldl (fun s cl hs => ?_) shaved h
        refine hs.modContract (fun _ => rfl) (fun _ => rfl) fun c hc => ⟨hc.edges, ?_⟩
        dsimp only
        rw [map_fst_modify _ _ (fun p => (p.1, cl.2.2)) fun _ => rfl]
        exact hc.supply
      refine .foldl (fun s id hs => ?_) p.2 hwritten
      exact hs.modContract (fun _ => rfl) (fun _ => rfl) fun c hc =>
        ⟨hc.edges, (List.filter_sublist.map Prod.fst).nodup hc.supply⟩
  exact .foldl (fun s p hs => hdebtor s p hs) _ h

theorem backed_rescale (s : State) (pi : F64) : KeepsBacked s (s.rescale pi) := by
  intro hs
  unfold State.rescale State.rescaleWith
  extract_lets s₁ s₂ s₃ s₄ s₅ byDebtor
  have h₁ : s₁.Wholes := by
    intro id c' hc' hi ha
    have hmap : s₁.contracts = s.contracts.map fun _ c => State.rescaleContract _ c := rfl
    rw [hmap, Std.ExtTreeMap.getElem?_map, Option.map_eq_some_iff] at hc'
    obtain ⟨c, hc, rfl⟩ := hc'
    exact whole_rescaleHeld (fun v => scaleMinor v pi) (hs id c hc hi ha).1
  have h₂ : s₂.Wholes := wholes_shave h₁
  have h₃ : s₃.Backed := by
    intro id c' hc'
    have hmap : s₃.contracts = s₂.contracts.map fun _ c => State.settleRescaled c := rfl
    rw [hmap, Std.ExtTreeMap.getElem?_map, Option.map_eq_some_iff] at hc'
    obtain ⟨c, hc, rfl⟩ := hc'
    unfold State.settleRescaled
    split
    · split
      · exact .of_uninsured rfl
      · exact fun hi ha => ⟨h₂ id c hc hi ha, Nat.le_refl _⟩
    · next hnot =>
      intro hi ha
      exact absurd ⟨hi, by rw [ha]; rfl⟩ hnot
  exact fun id c hc => h₃ id c hc

namespace Apply

theorem backed_assent (id : MemberId) (proposalId : ProposalId) (signers : List Key) :
    Backs (assent id proposalId signers) := by
  have hwrite : ∀ {f : State → State}, (∀ s, (f s).contracts = s.contracts) → Backs (Op.write f) :=
    fun hc => .write fun s => .of_eq (hc s)
  unfold assent
  refine .bind (quiet_mayAssent _ _ _).moves fun carried =>
    .bind (hwrite fun _ => rfl) fun _ => .ite (fun _ => ?_) fun _ => .pure _
  refine .bind ?_ fun _ => hwrite fun _ => rfl
  unfold enact
  cases carried.1.kind with
  | paramChange key value => exact hwrite fun _ => rfl
  | redenominate num den =>
    exact .write fun s => (backed_rescale s (ratio num den)).trans (.of_eq rfl)
  | suspend target =>
    exact .bind (.ask _) fun _ => .bind (.refuseIf _ _) fun _ =>
      .bind (backed_memberMut _ _) fun _ => hwrite fun _ => rfl
  | unsuspend target => exact backed_memberMut _ _
  | validatorPower target power =>
    refine .ite (fun _ => ?_) fun _ => ?_
    · exact .bind (.check _) fun _ => hwrite fun _ => rfl
    · exact .bind (.ask _) fun _ => .bind (.refuseIf _ _) fun _ => hwrite fun _ => rfl
  | seedAmendment amount => exact .bind (.check _) fun _ => hwrite fun _ => rfl

theorem framesWrites_backed : FramesWrites KeepsBacked :=
  ⟨fun _ _ _ => .of_eq rfl, fun _ _ => .of_eq rfl, fun _ _ => .of_eq rfl,
    fun _ _ => .of_eq rfl, fun _ _ _ => .of_eq rfl⟩

/-- **Every transition keeps the insured debts backed.** -/
theorem backed_dispatch [Libm] (tx : Tx) (signers : List Key) (sponsor : Option MemberId) :
    Backs (dispatch tx signers sponsor) := by
  have h := framesWrites_backed
  cases tx with
  | registerGuardians => exact moves_registerGuardians h _ _ _ _ _
  | rotateRequest => exact moves_rotateRequest h _ _ _
  | rotateVeto => exact moves_rotateVeto h _ _
  | rotateFinalize => exact moves_rotateFinalize h _
  | setConsensusKey => exact moves_setConsensusKey h _ _ _
  | declareSupply => exact moves_declareSupply h _ _ _
  | accept => exact backed_accept _ _ _ _ _ _ _
  | transfer => exact backed_transfer _ _ _
  | settle => exact backed_repayment _ (by simp) _ _ _ _
  | extend => exact backed_extend _ _ _
  | markExpired => exact backed_markExpired _
  | cure => exact backed_repayment _ (by simp) _ _ _ _
  | listBeneficiaries => exact moves_listBeneficiaries h _ _ _
  | approveSupporter => exact moves_approveSupporter h _ _ _ _
  | sale => exact Cascade.backed_sale _ _ _ _ _ _
  | arbAttest => exact backed_arbAttest _ _ _ _
  | exit => exact moves_exit h (fun _ _ => .of_eq rfl) _ _
  | propose => exact moves_propose h _ _ _
  | assent => exact backed_assent _ _ _
  | forfeitBonds => exact moves_forfeitBonds h _

/-! ### Boundaries and runs -/

/-- A transition that keeps states sound. -/
abbrev KeepsSound {α : Type} (op : Tr α) : Prop :=
  Op.Triple State.Sound op (fun _ => State.Sound) State.Sound

theorem KeepsSound.of_exec {α : Type} {op : Tr α}
    (h : ∀ s : State, s.Sound → (Op.exec op s).2.Sound) : KeepsSound op := by
  intro s hs
  have hsound := h s hs
  rcases hexec : Op.exec op s with ⟨_ | _, t⟩ <;> rw [hexec] at hsound <;> exact hsound

theorem sound_of {α : Type} {op : Tr α} (hfollows : CarriesOn op) (hbacked : Backs op) :
    KeepsSound op :=
  .of_exec fun s hs => ⟨(hfollows s).named hs.1, hbacked s hs.2⟩

theorem backed_retireRow (id : MemberId) (s : State) : KeepsBacked s (retireRow id s) := by
  unfold retireRow
  split
  · exact .refl s
  · next m hm =>
    extract_lets s₁ s₂ s₃
    have h₁ : KeepsBacked s s₁ :=
      .foldl (fun s b => (.of_eq rfl : KeepsBacked s (s.modMember b (unlist id)))) _ s
    have h₂ : KeepsBacked s₁ s₂ :=
      .foldl (fun s l => (.of_eq rfl : KeepsBacked s (s.modMember l (undelegate id)))) _ s₁
    have h₃ : KeepsBacked s₂ s₃ := by
      simp only [s₃]
      split
      · exact .refl s₂
      · exact .of_eq rfl
    exact h₁.trans (h₂.trans (h₃.trans (.of_eq rfl)))

/-- **A sweep keeps states sound.** -/
theorem sound_sweepCranks {s : State} (hs : s.Sound) : (Op.exec sweepCranks s).2.Sound := by
  have hnet : KeepsSound (netRings Constants.nettingMaxRingsPerEpoch) :=
    .of_exec fun s hs => ⟨(follows_netRings _ s).named hs.1, backed_netRings _ hs⟩
  have hforfeit : ∀ id, KeepsSound (Op.attempt (forfeitBonds id)) := fun id =>
    sound_of (.attempt (moves_forfeitBonds framesWrites_follows _))
      (.attempt (moves_forfeitBonds framesWrites_backed _))
  have hask : ∀ {β : Type} (f : State → β), KeepsSound (Op.ask f : Tr β) := fun f =>
    .ask fun _ hs => hs
  have hbacked : Op.Triple State.Sound sweepCranks (fun _ => State.Backed) State.Sound := by
    unfold sweepCranks
    refine .bind (hask _) fun due => .bind (.forM fun id _ => ?_) fun _ => .bind hnet fun _ =>
      .bind (hask _) fun sat => .bind (.forM fun id _ => hforfeit id) fun _ => .bind (hask _) fun closed =>
      .bind (.forM fun id _ => ?_) fun _ => .bind (Q := fun _ => State.Backed) (.write fun s hs => ?_)
        fun _ => .write fun s hs => ?_
    · exact sound_of (.attempt (follows_markExpired _)) (.attempt (backed_markExpired _))
    · exact sound_of (.attempt (follows_arbAward _)) (.attempt (backed_arbAward _))
    · exact fun id c hc => hs.2 id c (OrdMap.getElem?_filter_of_some hc).1
    · exact KeepsBacked.foldl (fun s id => backed_retireRow id s) _ s hs
  refine ⟨(follows_sweepCranks s).named hs.1, ?_⟩
  exact (hbacked.weaken (fun _ hs => hs) (fun _ _ hs => hs) fun _ hs => hs.2).exec_snd hs

end Apply

theorem sound_advance (n : Nat) {s : State} (hs : s.Sound) :
    (Nat.repeat State.advanceEpoch n s).Sound := by
  refine ⟨(follows_advance n s).named hs.1, ?_⟩
  induction n with
  | zero => exact hs.2
  | succ n ih => exact KeepsBacked.of_eq rfl ih

/-- **A boundary keeps states sound.** -/
theorem sound_beginBlock (nowSecs : Nat) {s : State} (hs : s.Sound) :
    (s.beginBlock nowSecs).Sound := by
  refine ⟨(follows_beginBlock nowSecs s).named hs.1, ?_⟩
  unfold State.beginBlock
  split
  · exact hs.2
  dsimp only
  split
  · have hstarted : State.Sound { s with lastBeginSecs := nowSecs } :=
      ⟨Follows.named (.of_eq rfl rfl) hs.1, KeepsBacked.of_eq rfl hs.2⟩
    exact KeepsBacked.of_eq rfl (Apply.sound_sweepCranks (sound_advance _ hstarted)).2
  · exact KeepsBacked.of_eq rfl hs.2

section Events

variable [Libm]

theorem sound_next (e : Event) {s : State} (hs : s.Sound) : (e.next s).Sound := by
  refine ⟨(follows_next e s).named hs.1, ?_⟩
  have hbegin : ∀ nowSecs, (s.beginBlock nowSecs).Backed := fun nowSecs =>
    (sound_beginBlock nowSecs hs).2
  cases e with
  | block nowSecs => exact hbegin nowSecs
  | transaction tx txId expiry signers nowSecs =>
    have hgate : KeepsBacked (s.beginBlock nowSecs)
        (Op.exec (Apply.bondGate tx signers) (s.beginBlock nowSecs)).2 :=
      Apply.bondGate_moves (fun _ _ _ => .of_eq rfl) tx signers _
    rcases Apply.exec_apply_cases tx txId expiry signers nowSecs s with
      ⟨e, -, hexec⟩ | ⟨-, e, t, ht, hexec⟩ | ⟨-, charged, sponsor, t, outcome, u, ht, hu, hexec⟩
    · rw [Event.next, hexec]
      exact hbegin nowSecs
    · rw [ht] at hgate
      rw [Event.next, hexec]
      exact hgate (hbegin nowSecs)
    · rw [ht] at hgate
      have hrecorded : KeepsBacked t (t.recordApplied txId expiry) := .of_eq rfl
      have hdispatch := Apply.backed_dispatch tx signers sponsor (t.recordApplied txId expiry)
      rw [hu] at hdispatch
      have hsettled : KeepsBacked u
          (Apply.settleOutcome tx txId expiry signers charged outcome u) := by
        refine Apply.settleOutcome_moves ?_ ?_ ?_ tx txId expiry signers charged outcome u
        · intro s txId expiry
          unfold State.forgetApplied
          split
          · exact .refl s
          · exact .of_eq rfl
        · intro s charged
          cases charged <;> exact .of_eq rfl
        · intro s subject signers
          unfold Apply.priceRefusal
          dsimp only
          split
          · exact .of_eq rfl
          · split <;> exact .of_eq rfl
      rw [Event.next, hexec]
      exact hsettled (hdispatch (hrecorded (hgate (hbegin nowSecs))))

/-- **Insured debts are backed in every run** from a genesis. -/
theorem sound_run {s : State} (h : Founding s) (es : List Event) : (Event.run es s).Sound := by
  have hfounded : s.Sound := by
    obtain ⟨g, hg⟩ := h
    refine ⟨contractsNamed_run ⟨g, hg⟩ [], ?_⟩
    exact genesisState_keeps (fun _ _ _ id c hc => by simp at hc) (fun _ _ _ _ hs hseat =>
      (seatEntry_moves (R := KeepsBacked) (fun _ _ => .of_eq rfl) (fun _ _ => .of_eq rfl)
        (fun _ _ _ => .of_eq rfl) (fun _ _ => .of_eq rfl) hseat) hs) hg
  clear h
  induction es generalizing s with
  | nil => exact hfounded
  | cons e es ih => exact ih (sound_next e hfounded)

end Events

end Edet
