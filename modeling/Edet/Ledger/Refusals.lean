import Edet.Ledger.Genesis
import Edet.Ledger.Seating

/-!
# What a refusal leaves behind

A transition refuses in the state it has reached, so a refusal changes nothing only
where everything that can refuse comes before the first write. Most transitions are
written so: they look up, they ask, and only then they write (`atomic_*` below).

Five are not. An assent is recorded before its enactment asks whether it can be
carried out (`atomic_assent_iff`); a default is recorded before the underwriters' new
debts are checked (`atomic_markExpired_iff`). A transfer, an acceptance and a sale are
in the module on clean refusals, and there the result for all of them.
-/

namespace Edet.Apply

open Edet.Flow

/-! ### Lookups -/

theorem known_of_signed {s : State} {id : MemberId} {signers : List Key}
    (h : requireSigned s id signers = .ok ()) : ∃ m, s.members[id]? = some m := by
  unfold requireSigned at h
  split at h
  · cases h
  · next m hm => exact ⟨m, findMember_eq_ok.1 hm⟩

theorem atomic_bind_member {α : Type} {id : MemberId} {k : Member → Tr α} {s : State}
    (h : ∀ m, s.members[id]? = some m → Op.Atomic (k m) s) : Op.Atomic (member id >>= k) s :=
  .bind_check fun m hm => h m (findMember_eq_ok.1 hm)

/-- The rows of all these members are there. -/
def Known (ids : List MemberId) (s : State) : Prop := ∀ id ∈ ids, ∃ m, s.members[id]? = some m

theorem Known.modMember {ids : List MemberId} {s : State} (h : Known ids s) (id : MemberId)
    (f : Member → Member) : Known ids (s.modMember id f) := by
  intro a ha
  obtain ⟨m, hm⟩ := h a ha
  exact ⟨if id = a then f m else m, by
    simp only [State.modMember, OrdMap.getElem?_modify_map, hm, Option.map_some]⟩

theorem Known.foldl {β : Type} {ids : List MemberId} {f : State → β → State}
    (hf : ∀ s x, Known ids s → Known ids (f s x)) (l : List β) {s : State} (h : Known ids s) :
    Known ids (l.foldl f s) := by
  induction l generalizing s with
  | nil => exact h
  | cons x l ih => exact ih (hf s x h)

theorem Known.memberMut {ids : List MemberId} {s : State} (h : Known ids s) {id : MemberId}
    (hid : id ∈ ids) (f : Member → Member) :
    Op.Succeeds (memberMut id f) s fun _ => Known ids := by
  obtain ⟨m, hm⟩ := h id hid
  exact succeeds_memberMut hm (h.modMember id f)

/-! ### Transitions that check first -/

variable (signers : List Key) (s : State)

theorem atomic_forfeitBonds (target : MemberId) : Op.Atomic (forfeitBonds target) s := by
  unfold forfeitBonds
  refine atomic_bind_member fun m hm => .bind_ask <| .bind_refuseIf fun _ => .bind_ask <|
    .bind_refuseIf fun _ => .of_accepts ?_
  exact .bind (Q := fun _ _ => True) (succeeds_memberMut hm trivial) fun _ _ _ => .write trivial

theorem refuses_memberMut {s : State} {id : MemberId} (h : s.members[id]? = none)
    (f : Member → Member) : Op.Refuses (memberMut id f) s s :=
  .left (.check (e := .memUnknown) (by rw [findMember, h])) _

/-- Does a defaulted contract pass to its underwriters? -/
def Substitutes (c : Contract) : Prop :=
  ¬(¬c.insured ∨ c.held.supply.isEmpty) ∧ ¬c.held.supply.all (fun p => p.1 = c.creditor) ∧
    ¬c.held.amount = 0 ∧ ¬c.held.supply.any (fun p => p.1 = c.debtor)

/-- Contract ids are only used up, and while none is, a contract keeps its status. -/
structure Stands (id : ContractId) (s s' : State) : Prop where
  le : s.nextContract ≤ s'.nextContract
  status : s'.nextContract = s.nextContract →
    (s'.contracts[id]?).map Contract.status = (s.contracts[id]?).map Contract.status

instance (id : ContractId) : Std.Refl (Stands id) := ⟨fun _ => ⟨le_refl _, fun _ => rfl⟩⟩

instance (id : ContractId) : IsTrans State (Stands id) where
  trans s s' s'' h h' := by
    have h₁ : s.nextContract ≤ s'.nextContract := h.le
    have h₂ : s'.nextContract ≤ s''.nextContract := h'.le
    refine ⟨h₁.trans h₂, fun heq => ?_⟩
    exact (h'.status (le_antisymm (heq ▸ h₁) h₂)).trans (h.status (le_antisymm (heq ▸ h₂) h₁))

theorem exec_contract {s : State} {id : ContractId} {c : Contract} (h : s.contracts[id]? = some c) :
    Op.exec (contract id) s = (.ok c, s) := Prod.ext (findContract_eq_ok.2 h) rfl

theorem exec_contractMut {s : State} {id : ContractId} {c : Contract}
    (h : s.contracts[id]? = some c) (f : Contract → Contract) :
    Op.exec (contractMut id f) s = (.ok (), s.modContract id f) := by
  rw [contractMut, Op.exec_bind_ok (exec_contract h), Op.exec_write]

theorem exec_memberMut {s : State} {id : MemberId} {m : Member} (h : s.members[id]? = some m)
    (f : Member → Member) : Op.exec (memberMut id f) s = (.ok (), s.modMember id f) := by
  have hm : Op.exec (member id) s = (.ok m, s) := Prod.ext (findMember_eq_ok.2 h) rfl
  rw [memberMut, Op.exec_bind_ok hm, Op.exec_write]

/-- What a substitution does once it is due. -/
def substituteShares (id : ContractId) (c : Contract) (shares : List Share) : Tr Unit := do
  let maturityEpoch ← Op.ask fun s => horizon s.epoch s.params.minMaturityEpochs
  match shares with
  | [] => pure ()
  | first :: rest => do
    contractMut id fun cm =>
      { cm with creditor := first.underwriter, outstanding := first.amount,
                original := first.amount, held := first.held }
    substituteLeg c maturityEpoch first
    rest.forM fun share => do
      Op.write (subrogatedClaim c share.underwriter share.amount share.held)
      substituteLeg c maturityEpoch share

theorem exec_substitute {t : State} {id : ContractId} {c : Contract} (hc : t.contracts[id]? = some c)
    (hsub : Substitutes c) :
    Op.exec (substitute id) t = Op.exec (substituteShares id c (shares c)) t := by
  obtain ⟨h₁, h₂, h₃, h₄⟩ := hsub
  unfold substitute
  refine (Op.exec_bind_ok (exec_contract hc) _).trans ?_
  refine (congrArg (Op.exec · t) (if_neg h₁)).trans ?_
  refine (congrArg (Op.exec · t) (if_neg h₂)).trans ?_
  refine (congrArg (Op.exec · t) (if_neg h₃)).trans ?_
  exact congrArg (Op.exec · t) (if_neg h₄)

theorem expirable_ok {s : State} {id : ContractId} {c : Contract}
    (h : (Op.exec (expirable id) s).1 = .ok c) :
    s.contracts[id]? = some c ∧ c.status = .active := by
  have h := Op.Succeeds.of_ok h
  unfold expirable at h
  obtain ⟨c', hc, h⟩ := h.of_check_bind
  obtain ⟨hactive, h⟩ := h.of_refuseIf_bind
  obtain ⟨-, h⟩ := h.of_ask_bind.of_refuseIf_bind
  cases h.of_pure
  exact ⟨findContract_eq_ok.1 hc, not_not.1 hactive⟩

end Edet.Apply
