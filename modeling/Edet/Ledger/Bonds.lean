import Edet.Ledger.Encumbrance

/-!
# A bond comes back

The book of bonds runs beside the ledger (`Event.nextBonds`). It is told of a charge by the
gate, of a refund by the outcome, of a forfeiture by the member's forfeited amount, which rises,
and of a boundary by the epochs. `Booked` says that the ledger is at home in its book: what it
holds for a member until an epoch are the outstanding bonds, none of which is due.

One lemma says for each operation that the ledger follows the book (`Books.forfeit`,
`Books.release`, `Books.charge`, `Books.refund`), from which a boundary and an event keep
`Booked` (`Booked.beginBlock`, `booked_next`), and so does a run. `bonds_come_back` reads off
it where the bonds have gone. That a block begun again does nothing bounds what the
transactions of one block can advance the epoch together (`epoch_block_le`).
-/

namespace Edet

open Edet.Flow

/-! ### The book beside the ledger -/

/-- The ledger holds and has forfeited what the book says. -/
structure Books (s : State) (b : BondBook) : Prop where
  balanced : b.Balanced
  held : ∀ id epoch, s.heldAt id epoch = dueAt id epoch b.outstanding
  reserve : ∀ id, s.forfeitedBy id = amountOf id b.forfeited

namespace Books

variable {s t : State} {b : BondBook}

theorem encumbrance (h : Books s b) (id : MemberId) : s.encumbrance id = amountOf id b.outstanding :=
  total_eq_amountOf (h.held id)

theorem of_same (h : Books s b) (hsame : SameBonds s t) : Books t b := by
  refine ⟨h.balanced, fun id epoch => ?_, fun id => ?_⟩
  · rw [hsame.held, h.held]
  · rw [← h.reserve, State.forfeitedBy, hsame.reserve]
    rfl

/-- What the ledger forfeits is what the book forfeits. -/
theorem forfeit (h : Books s b) (hf : Forfeits s t) : Books t (b.forfeit (s.seized t)) := by
  have hseized : ∀ id, (s.seized t id = false ∧ t.heldAt id = s.heldAt id ∧
      t.forfeitedBy id = s.forfeitedBy id) ∨ (s.seized t id = true ∧
        (∀ epoch, t.heldAt id epoch = 0) ∧ t.forfeitedBy id = s.forfeitedBy id + s.encumbrance id) := by
    intro id
    rcases hf id with ⟨hheld, hreserve⟩ | ⟨hnone, hpos, hreserve⟩
    · exact Or.inl ⟨by simp [State.seized, hreserve], hheld, hreserve⟩
    · exact Or.inr ⟨by simp [State.seized, hreserve, hpos], hnone, hreserve⟩
  refine ⟨h.balanced.forfeit _, fun id epoch => ?_, fun id => ?_⟩
  · have hleft : dueAt id epoch (b.forfeit (s.seized t)).outstanding =
        if ¬s.seized t id = true then dueAt id epoch b.outstanding else 0 :=
      dueAt_filter fun x hx _ => by rw [hx]
    rw [hleft]
    rcases hseized id with ⟨hno, hheld, -⟩ | ⟨hyes, hnone, -⟩
    · rw [hno, hheld, h.held]
      simp
    · rw [hyes, hnone]
      simp
  · have hgone : amountOf id (b.outstanding.filter fun x => s.seized t x.payer = true) =
        if s.seized t id = true then amountOf id b.outstanding else 0 :=
      amountOf_filter fun x hx => by rw [hx]
    have hsum : amountOf id (b.forfeit (s.seized t)).forfeited = amountOf id b.forfeited +
        amountOf id (b.outstanding.filter fun x => s.seized t x.payer = true) := amountOf_add _ _ _
    rw [hsum, hgone, ← h.reserve, ← h.encumbrance]
    rcases hseized id with ⟨hno, -, hreserve⟩ | ⟨hyes, -, hreserve⟩
    · rw [hno, hreserve]
      simp
    · rw [hyes, hreserve]
      simp

theorem heldAt_releaseBonds (hepoch : s.epoch < u64Max) (id : MemberId) (epoch : Nat) :
    s.releaseBonds.heldAt id epoch = if ¬epoch ≤ s.epoch then s.heldAt id epoch else 0 := by
  have hcutoff : horizon s.epoch 1 = s.epoch + 1 := Nat.min_eq_left hepoch
  have hrow : s.releaseBonds.members[id]? = (s.members[id]?).map fun m =>
      { m with bonds := m.bonds.filter fun k _ => decide (horizon s.epoch 1 ≤ k) } := by
    simp [State.releaseBonds]
  cases hm : s.members[id]? with
  | none =>
    rw [hm] at hrow
    rw [State.heldAt_of_none hrow, State.heldAt_of_none hm]
    split <;> rfl
  | some m =>
    rw [hm] at hrow
    rw [State.heldAt_of_row hrow, State.heldAt_of_row hm, Member.held, Member.held, OrdMap.getD'_eq,
      OrdMap.getD'_eq, Std.ExtTreeMap.getElem?_filter', hcutoff]
    cases m.bonds[epoch]? with
    | none => simp
    | some v =>
      by_cases hdue : epoch ≤ s.epoch
      · simp [hdue, Option.filter, Nat.not_lt.2 hdue]
      · simp [hdue, Option.filter, Nat.lt_of_not_le hdue]

/-- What a boundary releases is what the book releases. -/
theorem release (h : Books s b) {closed : Nat} (hdue : ∀ x ∈ b.outstanding, closed < x.releaseAt)
    (hepoch : s.epoch < u64Max) : Books s.releaseBonds (b.release closed s.epoch) := by
  refine ⟨h.balanced.release _ hdue, fun id epoch => ?_, h.reserve⟩
  have hleft : dueAt id epoch (b.release closed s.epoch).outstanding =
      if ¬epoch ≤ s.epoch then dueAt id epoch b.outstanding else 0 :=
    dueAt_filter fun x _ hx => by rw [hx]
  rw [hleft, heldAt_releaseBonds hepoch, h.held]

end Books

/-! ### The gate and what it gives back -/

namespace Books

variable {s u : State} {b : BondBook}

theorem charge (h : Books s b) {payer : MemberId} {m : Member} (hm : s.members[payer]? = some m)
    (releaseAt amount : Nat) :
    Books (s.modMember payer fun m => { m with bonds := OrdMap.bump m.bonds releaseAt amount })
      (b.charge ⟨payer, releaseAt, amount⟩) := by
  refine ⟨h.balanced.charge _, fun id epoch => ?_, h.reserve⟩
  have hdue : dueAt id epoch (b.charge ⟨payer, releaseAt, amount⟩).outstanding =
      (if payer = id ∧ releaseAt = epoch then amount else 0) + dueAt id epoch b.outstanding :=
    dueAt_cons _ _ _ _
  rw [State.heldAt_modMember (f := fun m : Member =>
    { m with bonds := OrdMap.bump m.bonds releaseAt amount }) hm, hdue, ← h.held]
  by_cases hid : payer = id
  · subst hid
    rw [if_pos rfl, State.heldAt_of_row hm]
    have hbumped := OrdMap.getD'_bump m.bonds releaseAt epoch amount
    rw [show Member.held { m with bonds := OrdMap.bump m.bonds releaseAt amount } epoch =
      OrdMap.getD' (OrdMap.bump m.bonds releaseAt amount) epoch 0 from rfl, hbumped, Nat.add_comm]
    simp [Member.held]
  · simp [hid]

/-- Giving a bond back takes it out of what its payer holds until its epoch. -/
theorem heldAt_refund (payer : MemberId) (releaseAt amount : Nat) (id : MemberId) (epoch : Nat) :
    (Apply.refund (.bond payer releaseAt amount) u).heldAt id epoch =
      u.heldAt id epoch - if payer = id ∧ releaseAt = epoch then amount else 0 := by
  unfold Apply.refund
  dsimp only
  cases hm : u.members[payer]? with
  | none =>
    have hrow : ∀ f : Member → Member, (u.modMember payer f).members[id]? = u.members[id]? := by
      intro f
      simp only [State.modMember, OrdMap.getElem?_modify_map]
      by_cases hid : payer = id
      · subst hid
        simp [hm]
      · simp [hid]
    have hsame : ∀ f : Member → Member, (u.modMember payer f).heldAt id epoch = u.heldAt id epoch := by
      intro f
      rw [State.heldAt, State.bondsOf, hrow]
      rfl
    rw [hsame]
    by_cases hid : payer = id
    · subst hid
      simp [State.heldAt_of_none hm]
    · simp [hid]
  | some m =>
    rw [State.heldAt_modMember hm]
    by_cases hid : payer = id
    · subst hid
      rw [if_pos rfl, State.heldAt_of_row hm]
      simp only [true_and, Member.held]
      cases hv : m.bonds[releaseAt]? with
      | none =>
        by_cases he : releaseAt = epoch
        · subst he
          simp [OrdMap.getD'_eq, hv]
        · simp [he]
      | some v =>
        dsimp only
        by_cases he : releaseAt = epoch
        · subst he
          simp only [OrdMap.getD'_eq, hv, if_true]
          split
          · next hnothing => simp [hnothing]
          · simp
        · rw [if_neg he, Nat.sub_zero]
          split <;> simp [OrdMap.getD'_eq, Std.ExtTreeMap.getElem?_erase,
            Std.ExtTreeMap.getElem?_insert, he]
    · simp [hid]

theorem refund (h : Books u b) {payer : MemberId} {releaseAt amount : Nat}
    (hx : ⟨payer, releaseAt, amount⟩ ∈ b.outstanding) :
    Books (Apply.refund (.bond payer releaseAt amount) u) (b.refund ⟨payer, releaseAt, amount⟩) := by
  refine ⟨h.balanced.refund hx, fun id epoch => ?_, h.reserve⟩
  have hdue := h.held id epoch
  rw [← Multiset.cons_erase hx, dueAt_cons] at hdue
  rw [heldAt_refund, hdue, Nat.add_sub_cancel_left]
  rfl

end Books

/-! ### Runs -/

/-- What a boundary does to the book: the payers whose forfeited amount has risen forfeit, and
what is due by the epoch it opens is released. -/
def BondBook.boundary (s t : State) (b : BondBook) : BondBook :=
  (b.forfeit (s.seized t)).release s.epoch t.epoch

/-- A ledger at home in its book: what is outstanding is not due yet. -/
structure Booked (s : State) (b : BondBook) : Prop where
  books : Books s b
  pending : ∀ x ∈ b.outstanding, s.epoch < x.releaseAt
  issued : s.Issued
  filed : s.Filed
  early : s.epoch ≤ u64Max / Constants.epochSecs

namespace Booked

variable {s t : State} {b : BondBook}

theorem epoch_lt (h : Booked s b) : s.epoch < u64Max :=
  lt_of_le_of_lt h.early (by decide)

theorem issued_beginBlock (hs : s.Issued) (nowSecs : Nat) : (s.beginBlock nowSecs).Issued := by
  have hleft : RowsLeft (fun _ : Member => ()) s (s.beginBlock nowSecs) :=
    rowsLeft_beginBlock ⟨fun _ => rfl, fun _ _ _ _ => rfl⟩ ⟨fun _ _ _ _ _ _ => rfl⟩ nowSecs s
  exact hleft.issued hs

theorem issued_bondGate {tx : Tx} {signers : List Key} {charged : Res (Apply.Charged × Option MemberId)}
    (hs : s.Issued) (ht : Op.exec (Apply.bondGate tx signers) s = (charged, t)) : t.Issued := by
  have hview : Apply.KeepsView (fun _ : Member => ()) (Apply.bondGate tx signers) :=
    Apply.keepsView_bondGate ⟨fun _ _ _ _ _ _ => rfl⟩ tx signers
  have hrows := hview.keepsRows s hs
  rw [ht] at hrows
  exact hrows.issued

/-- **A boundary keeps the book.** -/
theorem beginBlock (h : Booked s b) {nowSecs : Nat} (hnow : nowSecs ≤ u64Max) :
    Booked (s.beginBlock nowSecs) (b.boundary s (s.beginBlock nowSecs)) := by
  have hissued := issued_beginBlock h.issued nowSecs
  have hfiled : (s.beginBlock nowSecs).Filed :=
    KeepsFiled.of_rowsLeft (rowsLeft_beginBlock ignoresBooks_id ignoresCharges_id nowSecs s) h.filed
  obtain ⟨-, ⟨hsame, hepoch⟩ | ⟨u, hforfeits, -, hreached, hreleased⟩⟩ := beginBlock_bonds h.filed nowSecs
  · have hbook : b.boundary s (s.beginBlock nowSecs) = b := by
      rw [BondBook.boundary, BondBook.forfeit_of_none hsame.seized, hepoch,
        BondBook.release_of_pending h.pending]
    rw [hbook]
    exact ⟨h.books.of_same hsame, hepoch ▸ h.pending, hissued, hfiled, hepoch ▸ h.early⟩
  · have hepoch : (s.beginBlock nowSecs).epoch = u.epoch := by
      rw [hreleased]
      rfl
    have hseized : s.seized (s.beginBlock nowSecs) = s.seized u :=
      State.seized_of_reserve (by rw [hreleased]; rfl)
    have hearly : u.epoch ≤ u64Max / Constants.epochSecs := by
      rw [hreached]
      exact (Nat.min_le_left _ _).trans (Nat.div_le_div_right hnow)
    have hdue : ∀ x ∈ (b.forfeit (s.seized u)).outstanding, s.epoch < x.releaseAt :=
      fun x hx => h.pending x (Multiset.mem_of_mem_filter hx)
    have hbook : b.boundary s (s.beginBlock nowSecs) = (b.forfeit (s.seized u)).release s.epoch u.epoch := by
      rw [BondBook.boundary, hseized, hepoch]
    refine ⟨?_, fun x hx => ?_, hissued, hfiled, hepoch ▸ hearly⟩
    · rw [hbook, hreleased]
      exact (h.books.forfeit hforfeits).release hdue (lt_of_le_of_lt hearly (by decide))
    · rw [hbook] at hx
      rw [hepoch]
      exact Nat.lt_of_not_le (Multiset.mem_filter.1 hx).2

end Booked

section Run

variable [Libm]

/-- The bond that the gate charges an admissible envelope. -/
def Event.chargedBond (e : Event) (s : State) : Option ChargedBond :=
  match e with
  | .block _ => none
  | .transaction tx txId notAfterEpoch signers nowSecs =>
    let t := s.beginBlock nowSecs
    match Apply.admissible t txId notAfterEpoch, (Op.exec (Apply.bondGate tx signers) t).1 with
    | .ok (), .ok (.bond payer releaseAt amount, _) => some ⟨payer, releaseAt, amount⟩
    | _, _ => none

/-- Is the envelope refused for want of a signature, so that its charge is given back? -/
def Event.refunds (e : Event) (s : State) : Bool :=
  match e with
  | .block _ => false
  | .transaction tx txId notAfterEpoch signers nowSecs =>
    decide ((Op.exec (Apply.apply tx txId notAfterEpoch signers nowSecs) s).1 = .error .memNotSigner)

/-- What a charge and its refund do to the book. -/
def BondBook.bill (charged : Option ChargedBond) (refunds : Bool) (b : BondBook) : BondBook :=
  match charged with
  | none => b
  | some x => if refunds then (b.charge x).refund x else b.charge x

/-- What an event does to the book. -/
def BondBook.next (e : Event) (s : State) (b : BondBook) : BondBook :=
  ((b.boundary s (e.opens s)).bill (e.chargedBond s) (e.refunds s)).forfeit
    ((e.opens s).seized (e.next s))

/-- A ledger and the book beside it take an event. -/
def Event.nextBonds (e : Event) (r : State × BondBook) : State × BondBook :=
  (e.next r.1, r.2.next e r.1)

/-- The time of the event fits a word. -/
def Event.Timed : Event → Prop
  | .block nowSecs => nowSecs ≤ u64Max
  | .transaction _ _ _ _ nowSecs => nowSecs ≤ u64Max

omit [Libm] in
/-- A charge, and its refund, keep the book. -/
theorem Booked.bill {s t u v : State} {b : BondBook} (h : Booked s b) {payer releaseAt amount : Nat}
    {tx : Tx} {signers : List Key} {txId : TxId} {expiry : Nat} {outcome : Res Unit}
    {sponsor : Option MemberId}
    (ht : Op.exec (Apply.bondGate tx signers) s = (.ok (.bond payer releaseAt amount, sponsor), t))
    (hrefused : outcome ≠ .ok () → SameBonds t u) (hdone : outcome = .ok () → Forfeits t u)
    (hv : v = Apply.settleOutcome tx txId expiry signers (.bond payer releaseAt amount) outcome u)
    (refunds : Bool) (hrefunds : refunds = decide (outcome = .error .memNotSigner)) :
    Books v ((b.bill (some ⟨payer, releaseAt, amount⟩) refunds).forfeit (s.seized v)) ∧
      s.epoch < releaseAt := by
  have hgate := Apply.gated_bondGate tx signers s s rfl
  have hrelease := Apply.releaseAt_bondGate tx signers s s rfl
  rw [ht] at hgate hrelease
  have hlater : s.epoch < releaseAt := by
    rw [hrelease payer releaseAt amount rfl]
    have := h.epoch_lt
    unfold horizon
    omega
  refine ⟨?_, hlater⟩
  obtain ⟨hfree, -⟩ | ⟨payer', hpayer, hgated⟩ := hgate
  · cases hfree
  cases hgated
  obtain ⟨-, m, hm⟩ := Apply.mem_payers.1 hpayer
  have hcharged := h.books.charge hm releaseAt amount
  have hreserve : (s.modMember payer fun m =>
      { m with bonds := OrdMap.bump m.bonds releaseAt amount }).forfeitReserve = s.forfeitReserve := rfl
  have hout : (⟨payer, releaseAt, amount⟩ : ChargedBond) ∈
      (b.charge ⟨payer, releaseAt, amount⟩).outstanding := Multiset.mem_cons_self _ _
  rcases outcome with e | ⟨⟩
  · have hsame := hrefused (by simp)
    have hnone : ∀ {w : State}, w.forfeitReserve = u.forfeitReserve → ∀ id, s.seized w id = false := by
      intro w hw id
      rw [State.seized_of_reserve (hw.trans (hsame.reserve.trans hreserve))]
      simp [State.seized]
    by_cases he : e = .memNotSigner
    · subst he
      have hback : v = Apply.refund (.bond payer releaseAt amount) (u.forgetApplied txId expiry) := by
        rw [hv]
        unfold Apply.settleOutcome
        rfl
      have hforgot := Apply.sameBonds_forgetApplied u txId expiry
      have hvreserve : v.forfeitReserve = u.forfeitReserve := by
        rw [hback]
        exact hforgot.reserve
      rw [BondBook.forfeit_of_none (hnone hvreserve), hrefunds, hback]
      exact ((hcharged.of_same hsame).of_same hforgot).refund hout
    · have hsettled : SameBonds u (Apply.settleOutcome tx txId expiry signers
          (.bond payer releaseAt amount) (.error e) u) :=
        Apply.sameBonds_settleOutcome (fun h => absurd (Except.error.inj h) he) tx txId expiry signers u
      rw [← hv] at hsettled
      have hno : refunds = false := by
        rw [hrefunds]
        simpa using he
      rw [BondBook.forfeit_of_none (hnone hsettled.reserve), hno]
      exact (hcharged.of_same hsame).of_same hsettled
  · have hforfeits := hdone rfl
    obtain rfl : v = u := hv
    have hno : refunds = false := by
      rw [hrefunds]
      rfl
    have hseized : s.seized v = State.seized (s.modMember payer fun m =>
        { m with bonds := OrdMap.bump m.bonds releaseAt amount }) v := rfl
    rw [hno, hseized]
    exact hcharged.forfeit hforfeits

/-- The time an event carries. -/
def Event.nowSecs : Event → Nat
  | .block nowSecs => nowSecs
  | .transaction _ _ _ _ nowSecs => nowSecs

omit [Libm] in
theorem mem_bill {x : ChargedBond} {charged : Option ChargedBond} {refunds : Bool} {b : BondBook}
    (hx : x ∈ (b.bill charged refunds).outstanding) : x ∈ b.outstanding ∨ charged = some x := by
  cases charged with
  | none => exact Or.inl hx
  | some y =>
    have hcharged : x ∈ (b.charge y).outstanding := by
      cases refunds with
      | false => exact hx
      | true => exact Multiset.mem_of_mem_erase hx
    rcases Multiset.mem_cons.1 hcharged with rfl | hx
    · exact Or.inr rfl
    · exact Or.inl hx

/-- A transaction leaves the clock where its block put it. -/
theorem clock_next (e : Event) {s : State} (hissued : s.Issued) (hfiled : s.Filed) :
    (e.next s).lastBeginSecs = e.nowSecs ∧ (e.next s).epoch = (s.beginBlock e.nowSecs).epoch := by
  cases e with
  | block nowSecs => exact ⟨(beginBlock_bonds hfiled nowSecs).1, rfl⟩
  | transaction tx txId expiry signers nowSecs =>
    have hclock := (beginBlock_bonds hfiled nowSecs).1
    have hgate := Apply.routine_bondGate tx signers (s.beginBlock nowSecs)
    have hgateClock : SameClock (s.beginBlock nowSecs)
        (Op.exec (Apply.bondGate tx signers) (s.beginBlock nowSecs)).2 :=
      Apply.bondGate_moves (R := SameClock) (fun _ _ _ => rfl) tx signers _
    rcases Apply.exec_apply_cases tx txId expiry signers nowSecs s with
      ⟨e, -, hexec⟩ | ⟨-, e, t, ht, hexec⟩ | ⟨-, charged, sponsor, t, outcome, u, ht, hu, hexec⟩
    · rw [Event.next_of_exec hexec]
      exact ⟨hclock, rfl⟩
    · rw [ht] at hgate hgateClock
      rw [Event.next_of_exec hexec]
      exact ⟨hgateClock.trans hclock, hgate.epoch⟩
    · rw [ht] at hgate hgateClock
      have hready : (t.recordApplied txId expiry).Issued :=
        show t.Issued from Booked.issued_bondGate (Booked.issued_beginBlock hissued nowSecs) ht
      have hdispatch := (Apply.bonds_dispatch tx signers sponsor hready hu).1
      have hsteady := Apply.steady_dispatch tx signers sponsor (t.recordApplied txId expiry)
      rw [hu] at hsteady
      have hsettled := Apply.sameClock_settleOutcome tx txId expiry signers charged outcome u
      have hepoch : (Apply.settleOutcome tx txId expiry signers charged outcome u).epoch = u.epoch :=
        Apply.settleOutcome_moves (R := fun s s' : State => s'.epoch = s.epoch)
          (fun s txId expiry => by unfold State.forgetApplied; split <;> rfl)
          (fun s charged => (Apply.routine_refund charged s).epoch)
          (fun s subject signers => (Apply.routine_priceRefusal subject signers s).epoch)
          tx txId expiry signers charged outcome u
      rw [Event.next_of_exec hexec]
      refine ⟨hsettled.trans (hdispatch.trans (hgateClock.trans hclock)), ?_⟩
      exact hepoch.trans (hsteady.epoch.trans hgate.epoch)

/-- **Every event keeps the book**, unless it changes the unit. -/
theorem booked_next (e : Event) {s : State} {b : BondBook} (h : Booked s b) (hkeeps : e.KeepsUnit s)
    (htimed : e.Timed) : Booked (e.next s) (b.next e s) := by
  cases e with
  | block nowSecs =>
    have hopen : Booked (s.beginBlock nowSecs) (b.boundary s (s.beginBlock nowSecs)) :=
      h.beginBlock htimed
    have hnone : ∀ id, State.seized (s.beginBlock nowSecs) (s.beginBlock nowSecs) id = false :=
      (Std.Refl.refl (r := SameBonds) _).seized
    have hbook : b.next (.block nowSecs) s = b.boundary s (s.beginBlock nowSecs) :=
      BondBook.forfeit_of_none hnone
    rw [hbook]
    exact hopen
  | transaction tx txId expiry signers nowSecs =>
    have hopen : Booked (s.beginBlock nowSecs) (b.boundary s (s.beginBlock nowSecs)) :=
      h.beginBlock htimed
    let e : Event := .transaction tx txId expiry signers nowSecs
    have hepoch := (clock_next e h.issued h.filed).2
    -- the rows and the time are as always, so that the amounts are left
    suffices hbooks : Books (e.next s) (b.next e s) ∧
        ∀ x, e.chargedBond s = some x → (s.beginBlock nowSecs).epoch < x.releaseAt by
      refine ⟨hbooks.1, fun x hx => ?_, issued_next e h.issued, filed_next e h.filed, ?_⟩
      · rw [hepoch]
        rcases mem_bill (Multiset.mem_of_mem_filter hx) with hx | hx
        · exact hopen.pending x hx
        · exact hbooks.2 x hx
      · rw [hepoch]
        exact hopen.early
    have hnext : ∀ {r : Res Unit × State},
        Op.exec (Apply.apply tx txId expiry signers nowSecs) s = r → e.next s = r.2 :=
      fun h => Event.next_of_exec h
    have of_same : SameBonds (s.beginBlock nowSecs) (e.next s) → e.chargedBond s = none →
        Books (e.next s) (b.next e s) ∧
          ∀ x, e.chargedBond s = some x → (s.beginBlock nowSecs).epoch < x.releaseAt := by
      intro hsame hfree
      have hbook : b.next e s = b.boundary s (s.beginBlock nowSecs) := by
        unfold BondBook.next
        rw [hfree]
        exact BondBook.forfeit_of_none hsame.seized
      rw [hbook, hfree]
      exact ⟨hopen.books.of_same hsame, fun x hx => by cases hx⟩
    have hgate := Apply.gated_bondGate tx signers (s.beginBlock nowSecs) (s.beginBlock nowSecs) rfl
    rcases Apply.exec_apply_cases tx txId expiry signers nowSecs s with
      ⟨code, hadm, hexec⟩ | ⟨hadm, code, t, ht, hexec⟩ |
        ⟨hadm, charged, sponsor, t, outcome, u, ht, hu, hexec⟩
    · refine of_same ?_ (by simp only [e, Event.chargedBond, hadm])
      rw [hnext hexec]
      exact Std.Refl.refl _
    · rw [ht] at hgate
      refine of_same ?_ (by simp only [e, Event.chargedBond, hadm, ht])
      rw [hnext hexec]
      rcases hgate with rfl | ⟨payer, rfl⟩
      · exact Std.Refl.refl _
      · exact .modMember (f := fun m => { m with bondDeniedThisEpoch := true }) (fun _ => rfl) _ payer
    · have hready : (t.recordApplied txId expiry).Issued :=
        show t.Issued from Booked.issued_bondGate hopen.issued ht
      obtain ⟨-, hrefused, hdone⟩ := Apply.bonds_dispatch tx signers sponsor hready hu
      have hrecorded : SameBonds t (t.recordApplied txId expiry) := .of_eq rfl rfl
      have hrefused' : outcome ≠ .ok () → SameBonds t u := fun h =>
        IsTrans.trans _ _ _ hrecorded (hrefused h)
      have hdone' : outcome = .ok () → Forfeits t u := by
        rintro rfl
        refine IsTrans.trans _ _ _ hrecorded.forfeits (hdone fun id proposalId htx => ?_)
        subst htx
        have hkept : ¬Redenominated proposalId (e.next s) := hkeeps
        rw [hnext hexec] at hkept
        exact hkept
      by_cases hcharged : ∃ payer releaseAt amount, charged = .bond payer releaseAt amount
      · obtain ⟨payer, releaseAt, amount, rfl⟩ := hcharged
        have hbond : e.chargedBond s = some ⟨payer, releaseAt, amount⟩ := by
          simp only [e, Event.chargedBond, hadm, ht]
        have hrefunds : e.refunds s = decide (outcome = .error .memNotSigner) := by
          simp only [e, Event.refunds, hexec]
        obtain ⟨hbooks, hlater⟩ := hopen.bill ht hrefused' hdone' (hnext hexec) _ hrefunds
        refine ⟨?_, fun x hx => ?_⟩
        · unfold BondBook.next
          rw [hbond]
          exact hbooks
        · rw [hbond] at hx
          exact Option.some.inj hx ▸ hlater
      · -- nothing was held for it
        have hfree : e.chargedBond s = none := by
          simp only [e, Event.chargedBond, hadm, ht]
          cases charged with
          | bond payer releaseAt amount => exact absurd ⟨payer, releaseAt, amount, rfl⟩ hcharged
          | _ => rfl
        rw [ht] at hgate
        have hgated : SameBonds (s.beginBlock nowSecs) t := by
          obtain ⟨-, rfl, -⟩ | ⟨payer, -, hgated⟩ := hgate
          · exact Std.Refl.refl _
          cases hgated with
          | allowance =>
            exact .modMember (f := fun m => { m with bondFreeUsed := m.bondFreeUsed + 1 })
              (fun _ => rfl) _ payer
          | slot => exact .modMember (f := fun m => { m with seatSlot := false }) (fun _ => rfl) _ payer
          | bond releaseAt amount => exact absurd ⟨payer, releaseAt, amount, rfl⟩ hcharged
        have hsettled : SameBonds u
            (Apply.settleOutcome tx txId expiry signers charged outcome u) :=
          Apply.sameBonds_settleOutcome (fun _ p r a h => hcharged ⟨p, r, a, h⟩) tx txId expiry signers u
        have hbook : b.next e s = (b.boundary s (s.beginBlock nowSecs)).forfeit
            ((s.beginBlock nowSecs).seized (e.next s)) := by
          unfold BondBook.next
          rw [hfree]
          rfl
        refine ⟨?_, fun x hx => by rw [hfree] at hx; cases hx⟩
        rw [hbook, hnext hexec]
        refine hopen.books.forfeit ?_
        refine IsTrans.trans _ _ _ hgated.forfeits (IsTrans.trans _ _ _ ?_ hsettled.forfeits)
        by_cases hok : outcome = .ok ()
        · exact hdone' hok
        · exact (hrefused' hok).forfeits

omit [Libm] in
/-- A founding ledger holds no bond. -/
theorem booked_of_founding {s : State} (h : Founding s) : Booked s {} := by
  obtain ⟨g, hg⟩ := h
  have hfresh : s.Issued ∧ (∀ id epoch, s.heldAt id epoch = 0) ∧ s.forfeitReserve = ∅ ∧ s.epoch = 0 := by
    refine genesisState_keeps (I := fun s => s.Issued ∧ (∀ id epoch, s.heldAt id epoch = 0) ∧
      s.forfeitReserve = ∅ ∧ s.epoch = 0) (fun _ _ _ => ⟨fun id _ => by simp, fun id epoch => ?_, rfl,
      rfl⟩) (fun supplies entry s s' hs hseat => ?_) hg
    · exact congrFun (State.heldAt_of_none (by simp)) epoch
    · obtain ⟨hissued, hheld, hreserve, hepoch⟩ := hs
      have hrows : RowsKept Member.held s s' := keepsRows_seatEntry (fun _ _ => rfl) hseat hissued
      have hkept : s'.forfeitReserve = s.forfeitReserve ∧ s'.epoch = s.epoch :=
        ⟨seatEntry_moves (R := fun s s' : State => s'.forfeitReserve = s.forfeitReserve) (fun _ _ => rfl)
          (fun _ _ => rfl) (fun _ _ _ => rfl) (fun _ _ => rfl) hseat,
          seatEntry_moves (R := fun s s' : State => s'.epoch = s.epoch) (fun _ _ => rfl)
          (fun _ _ => rfl) (fun _ _ _ => rfl) (fun _ _ => rfl) hseat⟩
      exact ⟨hrows.issued, fun id epoch => by rw [hrows.heldAt, hheld], hkept.1.trans hreserve,
        hkept.2.trans hepoch⟩
  obtain ⟨hissued, hheld, hreserve, hepoch⟩ := hfresh
  refine ⟨⟨⟨rfl, fun r hr => ?_⟩, fun id epoch => hheld id epoch, fun id => ?_⟩, fun x hx => ?_,
    hissued, filed_of_founding ⟨g, hg⟩, ?_⟩
  · exact absurd hr (Multiset.notMem_zero r)
  · rw [State.forfeitedBy, hreserve]
    simp [OrdMap.getD'_eq]
  · exact absurd hx (Multiset.notMem_zero x)
  · rw [hepoch]
    exact Nat.zero_le _

/-- **What is forfeited stays forfeited.** -/
theorem Booked.forfeitedBy_le {s : State} {b : BondBook} (h : Booked s b) (e : Event)
    (hkeeps : e.KeepsUnit s) (htimed : e.Timed) (id : MemberId) :
    s.forfeitedBy id ≤ (e.next s).forfeitedBy id := by
  have hnext := booked_next e h hkeeps htimed
  have hbill : ∀ charged refunds (b : BondBook), (b.bill charged refunds).forfeited = b.forfeited := by
    intro charged refunds b
    cases charged with
    | none => rfl
    | some x => cases refunds <;> rfl
  have hgrown : (b.next e s).forfeited = ((b.boundary s (e.opens s)).bill (e.chargedBond s)
      (e.refunds s)).forfeited + _ := rfl
  have hboundary : (b.boundary s (e.opens s)).forfeited = b.forfeited + _ := rfl
  rw [h.books.reserve, hnext.books.reserve, hgrown, hbill, hboundary, amountOf_add, amountOf_add]
  omega

/-- The events of a run of bonds: no redenomination, and times that fit a word. -/
def Event.Keeps (e : Event) (r : State × BondBook) : Prop := e.KeepsUnit r.1 ∧ e.Timed

theorem booked_of_reaches {r : State × BondBook}
    (hrun : Reaches Event.nextBonds (fun r => Founding r.1 ∧ r.2 = {}) Event.Keeps r) :
    Booked r.1 r.2 := by
  refine Reaches.invariant (I := fun r : State × BondBook => Booked r.1 r.2) ?_ ?_ hrun
  · rintro ⟨s, b⟩ ⟨hfounding, rfl⟩
    exact booked_of_founding hfounding
  · rintro e ⟨s, b⟩ hbooked ⟨hkeeps, htimed⟩
    exact booked_next e hbooked hkeeps htimed

omit [Libm] in
/-- A block of the time that the clock stands at changes nothing. -/
theorem beginBlock_of_begun {s : State} {nowSecs : Nat} (h : s.lastBeginSecs = nowSecs) :
    s.beginBlock nowSecs = s := by
  unfold State.beginBlock
  rw [if_pos h.symm]

omit [Libm] in
theorem epoch_beginBlock_le {s : State} (hs : s.Filed) (hearly : s.epoch ≤ u64Max) (nowSecs : Nat) :
    (s.beginBlock nowSecs).epoch ≤ horizon s.epoch Constants.maxEpochAdvancePerBlock := by
  obtain ⟨-, ⟨-, hepoch⟩ | ⟨u, -, -, hreached, hreleased⟩⟩ := beginBlock_bonds hs nowSecs
  · rw [hepoch]
    exact le_min (Nat.le_add_right _ _) hearly
  · rw [hreleased]
    exact hreached.trans_le (Nat.min_le_right _ _)

/-- **A block advances the epoch once**, however many transactions it carries. -/
theorem epoch_block_le {s : State} (hissued : s.Issued) (hfiled : s.Filed) (hearly : s.epoch ≤ u64Max)
    (nowSecs : Nat) (es : List Event) (hes : ∀ e ∈ es, e.nowSecs = nowSecs) :
    (Event.run es s).epoch ≤ horizon s.epoch Constants.maxEpochAdvancePerBlock := by
  cases es with
  | nil => exact le_min (Nat.le_add_right _ _) hearly
  | cons e es =>
    have hbegun := epoch_beginBlock_le hfiled hearly nowSecs
    have hfirst := clock_next e hissued hfiled
    rw [hes e List.mem_cons_self] at hfirst
    -- from the first event on the clock stands at the block's time
    have hstands : ∀ (es : List Event) (t : State), (∀ e ∈ es, e.nowSecs = nowSecs) → t.Issued → t.Filed →
        t.lastBeginSecs = nowSecs → (Event.run es t).epoch = t.epoch := by
      intro es
      induction es with
      | nil => exact fun _ _ _ _ _ => rfl
      | cons e es ih =>
        intro t hes ht htf hclock
        have hstep := clock_next e ht htf
        rw [hes e List.mem_cons_self] at hstep
        calc (Event.run (e :: es) t).epoch = (Event.run es (e.next t)).epoch := rfl
          _ = (e.next t).epoch := ih (e.next t) (fun e he => hes e (List.mem_cons_of_mem _ he))
            (issued_next e ht) (filed_next e htf) hstep.1
          _ = t.epoch := by rw [hstep.2, beginBlock_of_begun hclock]
    calc (Event.run (e :: es) s).epoch = (Event.run es (e.next s)).epoch := rfl
      _ = (e.next s).epoch := hstands es _ (fun e he => hes e (List.mem_cons_of_mem _ he))
        (issued_next e hissued) (filed_next e hfiled) hfirst.1
      _ ≤ horizon s.epoch Constants.maxEpochAdvancePerBlock := hfirst.2 ▸ hbegun

end Run

/-! ### Bonds come back -/

/-- Where the bonds of a run have gone. -/
structure BondBook.Settles (b : BondBook) (s : State) : Prop where
  /-- A member's encumbrance is what was charged to it less what it got back or forfeited. -/
  encumbrance : ∀ id, s.encumbrance id + amountOf id b.refunded +
    amountOf id (b.released.map Prod.fst) + amountOf id b.forfeited = amountOf id b.charged
  /-- What it holds until an epoch are the outstanding bonds of that epoch. -/
  held : ∀ id epoch, s.heldAt id epoch = dueAt id epoch b.outstanding
  /-- Every bond is in one place. -/
  once : b.charged = b.outstanding + b.refunded + b.forfeited + b.released.map Prod.fst
  /-- No bond whose release epoch is reached is outstanding. -/
  never_late : ∀ x ∈ b.outstanding, s.epoch < x.releaseAt
  /-- A bond is released by the boundary that reaches its release epoch. -/
  on_time : ∀ r ∈ b.released, r.2.1 < r.1.releaseAt ∧ r.1.releaseAt ≤ r.2.2
  /-- What is forfeited stays out of the headroom. -/
  forfeited : ∀ id, s.forfeitedBy id = amountOf id b.forfeited ∧
    s.bondHeadroomMinor id ≤ s.seedReachMinor id - s.encumbrance id - amountOf id b.forfeited

theorem State.bondHeadroomMinor_le (s : State) (id : MemberId) :
    s.bondHeadroomMinor id ≤ s.seedReachMinor id - s.encumbrance id - s.forfeitedBy id := by
  unfold State.bondHeadroomMinor
  cases hm : s.members[id]? with
  | none => exact Nat.zero_le _
  | some m =>
    dsimp only
    rw [State.encumbrance_of_row hm, State.forfeitedBy]
    split <;> omega

theorem Booked.settles {s : State} {b : BondBook} (h : Booked s b) : b.Settles s := by
  refine ⟨fun id => ?_, h.books.held, h.books.balanced.once, h.pending, h.books.balanced.timely,
    fun id => ⟨h.books.reserve id, h.books.reserve id ▸ s.bondHeadroomMinor_le id⟩⟩
  calc s.encumbrance id + amountOf id b.refunded + amountOf id (b.released.map Prod.fst) +
        amountOf id b.forfeited
      = amountOf id (b.outstanding + b.refunded + b.forfeited + b.released.map Prod.fst) := by
        rw [amountOf_add, amountOf_add, amountOf_add, h.books.encumbrance]
        omega
    _ = amountOf id b.charged := by rw [← h.books.balanced.once]

section Run

variable [Libm]

/-- **A bond comes back unless it is forfeited.** -/
theorem bonds_come_back {r : State × BondBook}
    (hrun : Reaches Event.nextBonds (fun r => Founding r.1 ∧ r.2 = {}) Event.Keeps r) :
    r.2.Settles r.1 ∧
      (∀ e : Event, e.Keeps r → ∀ id, r.1.forfeitedBy id ≤ (e.next r.1).forfeitedBy id) ∧
      (∀ nowSecs, (r.1.beginBlock nowSecs).beginBlock nowSecs = r.1.beginBlock nowSecs) ∧
      ∀ nowSecs es, (∀ e ∈ es, e.nowSecs = nowSecs) →
        (Event.run es r.1).epoch ≤ r.1.epoch + Constants.maxEpochAdvancePerBlock := by
  have hbooked := booked_of_reaches hrun
  refine ⟨hbooked.settles, fun e he => hbooked.forfeitedBy_le e he.1 he.2, fun nowSecs => ?_,
    fun nowSecs es hes => ?_⟩
  · exact beginBlock_of_begun (beginBlock_bonds hbooked.filed nowSecs).1
  · calc (Event.run es r.1).epoch ≤ horizon r.1.epoch Constants.maxEpochAdvancePerBlock :=
        epoch_block_le hbooked.issued hbooked.filed hbooked.epoch_lt.le nowSecs es hes
      _ ≤ r.1.epoch + Constants.maxEpochAdvancePerBlock := Nat.min_le_left _ _

end Run

/-- The founder seats a newcomer, and then three epochs pass in one block. -/
def seatingEvents : List Event :=
  [.transaction (newcomerTrade 0) 0 0 [founderKey 0, founderKey 9] 10, .block (3 * Constants.epochSecs)]

/-- The bond for the seat is released by that block, and the founder holds nothing. -/
theorem bonds_come_back_seated :
    letI := Libm.unused
    let r := seatingEvents.foldl (fun r e => e.nextBonds r) (oneSupply.state, {})
    r.2.Settles r.1 ∧ Multiset.card r.2.charged = 1 ∧ Multiset.card r.2.released = 1 ∧
      r.1.encumbrance 0 = 0 := by
  let _ : Libm := Libm.unused
  have hfounding : Founding oneSupply.state := Genesis.founding_state (by decide +kernel)
  refine ⟨(bonds_come_back ?_).1, by decide +kernel, by decide +kernel, by decide +kernel⟩
  have hstart : Reaches Event.nextBonds (fun r => Founding r.1 ∧ r.2 = {}) Event.Keeps
    (oneSupply.state, {}) := .start ⟨hfounding, rfl⟩
  refine hstart.of_list seatingEvents ?_
  have hseat : (10 : Nat) ≤ u64Max := by decide +kernel
  have hlater : 3 * Constants.epochSecs ≤ u64Max := by decide +kernel
  refine ⟨⟨?_, hseat⟩, ⟨?_, hlater⟩, ?_⟩ <;> exact True.intro

end Edet
