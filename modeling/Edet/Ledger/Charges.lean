import Edet.Ledger.CleanRefusal
import Edet.Ledger.Keys
import Edet.Ledger.Replay
import Edet.Ledger.Rows

/-!
# What a refusal costs

A refused envelope is either forgotten, with every allowance, seat slot and bond where it was
(`Traceless`), or it is remembered and was paid for with one charge of one member whose key
signed (`PaidOnce`). Which of the two is decided in three places: the gate takes a charge
before the signatures are judged (`Gated`), a missing signature gives it back
(`charges_refund`), and a refusal of a free transaction is priced or forgotten
(`priced_or_not`). No refused transition touches a charge itself (`chargesKept_of_refused`),
so that the three put together give `refusal_priced_once`.
-/

namespace Edet

open Edet.Flow

/-- What the bond gate charges: the allowance used, the slot of the seat, and what is held
until each epoch. -/
@[ext] structure Charges where
  used : Nat
  slot : Bool
  held : Nat → Nat

def Member.charges (m : Member) : Charges :=
  ⟨m.bondFreeUsed, m.seatSlot, fun e => OrdMap.getD' m.bonds e 0⟩

/-- The bond that a transaction costs: its multiple of the bond unit, in minor units. -/
def Bond.dueAmount (s : State) (tx : Tx) : Nat :=
  toMinor (F64.ofNat (Bond.bondMultiple s tx) * s.params.bondUnit)

/-- The epoch until which a bond is held that is charged now. -/
def Bond.dueUntil (s : State) : Nat := horizon s.epoch (max s.params.bondReleaseEpochs 1)

/-- What the bond for a transaction adds to what is held until an epoch. -/
def Bond.priced (s : State) (tx : Tx) (e : Nat) : Nat :=
  if Bond.dueUntil s = e then Bond.dueAmount s tx else 0

/-- One charge: a slot of the allowance, the slot of the seat, or one bond of that price. -/
inductive Charge (price : Nat → Nat) : Charges → Charges → Prop
  | allowance (c : Charges) : Charge price c { c with used := c.used + 1 }
  | slot (c : Charges) (h : c.slot = true) : Charge price c { c with slot := false }
  | bond (c : Charges) : Charge price c { c with held := fun e => c.held e + price e }

/-- Every row is kept with its charges, but that of `payer` may have been charged. -/
def ChargedTo (price : Nat → Nat) (payer : Option MemberId) (s s' : State) : Prop :=
  ∀ (id : MemberId) (m : Member), s.members[id]? = some m → ∃ m', s'.members[id]? = some m' ∧
    if payer = some id then Charge price m.charges m'.charges else m'.charges = m.charges

/-- Every row is kept with its charges. -/
abbrev ChargesKept : State → State → Prop := ChargedTo (fun _ => 0) none

instance : Std.Refl ChargesKept := ⟨fun _ _ m hm => ⟨m, hm, rfl⟩⟩

theorem ChargedTo.trans {price : Nat → Nat} {payer : Option MemberId} {s s' s'' : State}
    (h : ChargedTo price payer s s') (h' : ChargesKept s' s'') : ChargedTo price payer s s'' := by
  intro id m hm
  obtain ⟨m', hm', hc⟩ := h id m hm
  obtain ⟨m'', hm'', hc'⟩ := h' id m' hm'
  refine ⟨m'', hm'', ?_⟩
  rw [show m''.charges = m'.charges from hc']
  exact hc

theorem ChargesKept.charged {price : Nat → Nat} {payer : Option MemberId} {s s' s'' : State}
    (h : ChargesKept s s') (h' : ChargedTo price payer s' s'') : ChargedTo price payer s s'' := by
  intro id m hm
  obtain ⟨m', hm', hc⟩ := h id m hm
  obtain ⟨m'', hm'', hc'⟩ := h' id m' hm'
  refine ⟨m'', hm'', ?_⟩
  rwa [show m'.charges = m.charges from hc] at hc'

/-- Charging one row. -/
theorem ChargedTo.modMember {price : Nat → Nat} {s : State} {payer : MemberId}
    {f : Member → Member}
    (hf : ∀ m, s.members[payer]? = some m → Charge price m.charges (f m).charges) :
    ChargedTo price (some payer) s (s.modMember payer f) := by
  intro id m hm
  refine ⟨if payer = id then f m else m, ?_, ?_⟩
  · simp only [State.modMember, OrdMap.getElem?_modify_map, hm, Option.map_some]
  · by_cases h : payer = id
    · subst h
      simpa using hf m hm
    · simp [h]

/-- A key of `id` signed. -/
def SignedBy (s : State) (id : MemberId) (signers : List Key) : Prop :=
  ∃ k ∈ signers, s.keyIndex[k]? = some id ∨ ∃ m, s.members[id]? = some m ∧ k ∈ m.keys

theorem SignedBy.of_sameKeys {s s' : State} (h : SameKeys s s') {id : MemberId}
    {signers : List Key} (hsigned : SignedBy s' id signers) : SignedBy s id signers := by
  obtain ⟨k, hk, hindex | ⟨m', hm', hkey⟩⟩ := hsigned
  · rw [show s'.keyIndex = s.keyIndex from congrArg KeyBook.index h] at hindex
    exact ⟨k, hk, Or.inl hindex⟩
  · have hkeys := s.keyBook_rows id
    rw [← show s'.keyBook = s.keyBook from h, State.keyBook_row hm', eq_comm,
      Option.map_eq_some_iff] at hkeys
    obtain ⟨m, hm, hrow⟩ := hkeys
    refine ⟨k, hk, Or.inr ⟨m, hm, ?_⟩⟩
    rwa [show m.keys = m'.keys from congrArg KeyRow.keys hrow]

namespace Apply

/-! ### What the gate takes -/

theorem mem_payers {s : State} {signers : List Key} {id : MemberId} :
    id ∈ Bond.payers s signers ↔
      (∃ k ∈ signers, s.keyIndex[k]? = some id) ∧ ∃ m, s.members[id]? = some m := by
  unfold Bond.payers
  rw [Std.ExtTreeSet.mem_toList, OrdSet.mem_foldl_insert, List.mem_filter, List.mem_filterMap]
  have hrow : s.members.contains id = true ↔ ∃ m, s.members[id]? = some m := by
    rw [Std.ExtTreeMap.contains_iff_mem, Std.ExtTreeMap.mem_iff_isSome_getElem?,
      Option.isSome_iff_exists]
  rw [hrow]
  simp

/-- The gate has charged `payer` for a transaction. -/
inductive Gated (s : State) (tx : Tx) (payer : MemberId) : Charged → State → Prop
  | allowance : Gated s tx payer (.allowance payer)
      (s.modMember payer fun m => { m with bondFreeUsed := m.bondFreeUsed + 1 })
  | slot (h : ∀ m, s.members[payer]? = some m → m.seatSlot = true) :
    Gated s tx payer (.slot payer) (s.modMember payer fun m => { m with seatSlot := false })
  | bond (releaseAt amount : Nat) (hrelease : releaseAt = Bond.dueUntil s)
      (hamount : amount = Bond.dueAmount s tx) : Gated s tx payer (.bond payer releaseAt amount)
      (s.modMember payer fun m => { m with bonds := OrdMap.bump m.bonds releaseAt amount })

theorem Gated.charged {s t : State} {tx : Tx} {payer : MemberId} {charged : Charged}
    (h : Gated s tx payer charged t) : ChargedTo (Bond.priced s tx) (some payer) s t := by
  cases h with
  | allowance => exact .modMember fun m _ => .allowance m.charges
  | slot hslot => exact .modMember fun m hm => .slot m.charges (hslot m hm)
  | bond releaseAt amount hrelease hamount =>
    refine .modMember fun m _ => ?_
    have hheld : ({ m with bonds := OrdMap.bump m.bonds releaseAt amount } : Member).charges =
        { m.charges with held := fun e => m.charges.held e + Bond.priced s tx e } := by
      subst hrelease hamount
      exact Charges.ext rfl rfl (funext fun e => OrdMap.getD'_bump m.bonds _ e _)
    rw [hheld]
    exact .bond m.charges

theorem mem_payers_bond {s : State} {signers : List Key} {first : MemberId} {rest : List MemberId}
    (hids : Bond.payers s signers = first :: rest) (p : MemberId → Bool) :
    ((first :: rest).find? p).getD first ∈ Bond.payers s signers := by
  rw [hids]
  cases h : (first :: rest).find? p with
  | none => exact List.mem_cons_self
  | some id => exact List.mem_of_find?_eq_some h

/-- Whoever is to pay is behind one of the signing keys; a slot that pays is unused, and a bond is
what the transaction costs. -/
def PaysBy (s : State) (tx : Tx) (signers : List Key) : Bond.Due → Prop
  | .free => Bond.bondMultiple s tx = 0
  | .allowance payer => payer ∈ Bond.payers s signers
  | .bond payer bond | .seat payer bond _ =>
    payer ∈ Bond.payers s signers ∧ bond = Bond.dueAmount s tx
  | .slot payer => payer ∈ Bond.payers s signers ∧
      ∀ m, s.members[payer]? = some m → m.seatSlot = true
  | .unpayable => True

theorem paysBy_due (s : State) (tx : Tx) (signers : List Key) :
    PaysBy s tx signers (Bond.due s tx signers) := by
  unfold Bond.due
  dsimp only
  split
  · next h => exact h
  cases hids : Bond.payers s signers with
  | nil => trivial
  | cons first rest =>
    dsimp only
    split
    · split
      · next subject hslot =>
        -- the slot is the subject's own
        have hown : Bond.ownSlot s (Bond.payers s signers) subject = true := by
          split at hslot
          · cases hslot
          · split at hslot
            · next h =>
              obtain rfl := Option.some.inj hslot
              rw [Bool.and_eq_true] at h
              exact hids ▸ h.1
            · cases hslot
        unfold Bond.ownSlot at hown
        rw [Bool.and_eq_true] at hown
        refine ⟨List.contains_iff_mem.1 hown.1, fun m hm => ?_⟩
        rw [hm, Bool.and_eq_true] at hown
        exact hown.2.1
      · split
        · next id hid =>
          show id ∈ Bond.payers s signers
          rw [hids]
          exact List.mem_of_find?_eq_some hid
        · exact ⟨mem_payers_bond hids _, rfl⟩
    · exact ⟨mem_payers_bond hids _, rfl⟩

/-- **What the gate does**: it charges nothing or one member behind a signing key, and where
it refuses it leaves at most a denial. -/
theorem gated_bondGate (tx : Tx) (signers : List Key) (s : State) :
    Op.Triple (· = s) (bondGate tx signers)
      (fun p t => (p.1 = .free ∧ t = s ∧ Bond.bondMultiple s tx = 0) ∨
        ∃ payer ∈ Bond.payers s signers, Gated s tx payer p.1 t)
      (fun t => t = s ∨ ∃ payer, t = s.modMember payer fun m =>
        { m with bondDeniedThisEpoch := true }) := by
  have hheadroom : ∀ payer bond, Op.Triple (· = s) (requireHeadroom payer bond) (fun _ t => t = s)
      (fun t => t = s ∨ ∃ payer, t = s.modMember payer fun m =>
        { m with bondDeniedThisEpoch := true }) := by
    intro payer bond
    unfold requireHeadroom
    refine .bind_quiet (quiet_member _) (fun _ h => Or.inl h) fun m =>
      .bind_quiet (Op.quiet_refuseIf _ _) (fun _ h => Or.inl h) fun _ =>
      .bind_quiet (Op.quiet_ask _) (fun _ h => Or.inl h) fun short =>
      .ite (fun _ => ?_) fun _ => .pure fun _ h => h
    refine .bind (Q := fun _ t => ∃ payer, t = s.modMember payer fun m =>
      { m with bondDeniedThisEpoch := true }) (triple_memberMut (fun t m ht _ => ⟨payer, ?_⟩)
        fun t ht => Or.inl ht) fun _ => .refuse fun t ht => Or.inr ht
    rw [ht]
  have hencumber : ∀ payer bond, bond = Bond.dueAmount s tx →
      Op.Triple (· = s) (encumber payer bond) (fun charged t => Gated s tx payer charged t) (· = s) := by
    intro payer bond hbond
    unfold encumber
    refine .bind (Q := fun releaseAt t => t = s ∧ releaseAt = Bond.dueUntil s)
      (.ask fun t ht => ⟨ht, by rw [ht]; rfl⟩) fun releaseAt => ?_
    refine .bind (Q := fun _ t => Gated s tx payer (.bond payer releaseAt bond) t)
      (triple_memberMut (fun t m ht _ => ?_) fun t ht => ht.1) fun _ => .pure fun _ h => h
    rw [ht.1]
    exact .bond releaseAt bond ht.2 hbond
  unfold bondGate
  refine .bind (Q := fun due t => t = s ∧ PaysBy s tx signers due)
    (.ask fun t ht => ⟨ht, ht ▸ paysBy_due t tx signers⟩) fun due => ?_
  cases due with
  | free => exact .pure fun t ht => Or.inl ⟨rfl, ht.1, ht.2⟩
  | allowance payer =>
    refine .bind (Q := fun _ t => payer ∈ Bond.payers s signers ∧ Gated s tx payer (.allowance payer) t)
      (triple_memberMut (fun t m ht _ => ⟨ht.2, ?_⟩) fun t ht => Or.inl ht.1) fun _ =>
      .pure fun t ht => Or.inr ⟨payer, ht⟩
    rw [ht.1]
    exact .allowance
  | slot payer =>
    refine .bind (Q := fun _ t => payer ∈ Bond.payers s signers ∧ Gated s tx payer (.slot payer) t)
      (triple_memberMut (fun t m ht _ => ⟨ht.2.1, ?_⟩) fun t ht => Or.inl ht.1) fun _ =>
      .pure fun t ht => Or.inr ⟨payer, ht⟩
    rw [ht.1]
    exact .slot ht.2.2
  | bond payer bond =>
    rintro t ⟨ht, hpayer, hbond⟩
    refine Op.Triple.bind (P := (· = s)) (hheadroom payer bond) (fun _ => ?_) t ht
    refine .bind ((hencumber payer bond hbond).weaken (fun _ h => h) (fun _ _ h => h) fun _ => Or.inl)
      fun charged => .pure fun t ht => Or.inr ⟨payer, hpayer, ht⟩
  | seat payer bond rows =>
    rintro t ⟨ht, hpayer, hbond⟩
    refine Op.Triple.bind (P := (· = s)) (hheadroom payer bond) (fun _ => ?_) t ht
    refine .bind_quiet (Op.quiet_ask _) (fun _ h => Or.inl h) fun seats =>
      .bind_quiet (Op.quiet_refuseIf _ _) (fun _ h => Or.inl h) fun _ => ?_
    refine .bind ((hencumber payer bond hbond).weaken (fun _ h => h) (fun _ _ h => h) fun _ => Or.inl)
      fun charged => .pure fun t ht => Or.inr ⟨payer, hpayer, ht⟩
  | unpayable => exact .refuse fun t ht => Or.inl ht.1

section Dispatch

variable [Libm]

end Dispatch

section Apply

variable [Libm]

end Apply

end Apply

end Edet
