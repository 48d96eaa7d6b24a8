import Edet.Ledger.Rows
import Edet.Ledger.Seating

/-!
# The seat gate and the seats

`canSeatMinor` asks whether a sponsor can seat so many rows, and `seatPair` seats them. For
two rows the question takes one hold after the other on copies of the seat books, as the
write does. For one row it asks how much would flow up to the price, along the flow that the
write takes. Either way a yes is kept (`accepts_seatPair`).

Between the question and the write a row is charged and an id is recorded, which neither
the stakes nor the seat books notice, so that the yes of the bond gate still holds when the
transaction is dispatched. After a no the transaction is refused in the state its block
opened with, but for the denial the gate remembers on a payer that is also short of the
bond (`seats_of_due`).
-/

namespace Edet

open Edet.Flow

namespace Resolved

/-- The rows a party needs. -/
def rows : Resolved → Nat
  | .existing _ => 0
  | .fresh _ => 1

end Resolved

namespace State

/-! ### The question and the write -/

/-- What flows up to an amount is what a reservation of that amount takes. -/
theorem exists_reserveInner {edges : Edges} {reserved : Reservations} {committed : Committed}
    {uw : Underwriters} {debtor n amount : Nat} {ownSupply : Bool}
    (h : amount ≤ capacityInner edges reserved committed uw [debtor] n amount ownSupply) :
    ∃ held reserved' committed', reserveInner edges reserved committed uw debtor n amount ownSupply =
      (some held, reserved', committed') := by
  unfold reserveInner
  split
  · exact ⟨_, _, _, rfl⟩
  · next hamount =>
    unfold capacityInner at h
    split at h
    -- Nothing flows in a network without nodes, and something is asked for.
    · exact absurd (Nat.le_zero.1 h) hamount
    · dsimp only
      rw [if_neg (Nat.not_lt.2 h)]
      exact ⟨_, _, _, rfl⟩

theorem reserveSeat_of_unpriced {s : State} (h : s.seatPriceMinor = 0) (sponsor : MemberId) :
    s.reserveSeat sponsor = (some {}, s) := by
  unfold reserveSeat
  dsimp only
  rw [if_pos h]

theorem reserveSeat_of_reserve {s : State} {sponsor : MemberId} {held : Held}
    {reserved : Reservations} {committed : Committed} (hprice : s.seatPriceMinor ≠ 0)
    (h : reserveWithOwnSupply s.edges s.seatReserved s.seatCommitted s.uw sponsor s.flowN
      s.seatPriceMinor = (some held, reserved, committed)) :
    s.reserveSeat sponsor =
      (some held, { s with seatReserved := reserved, seatCommitted := committed }) := by
  unfold reserveSeat
  dsimp only
  rw [if_neg hprice, h]

theorem exists_reserveSeat {s : State} {sponsor : MemberId} (h : s.canSeatMinor sponsor 1 = true) :
    ∃ held s', s.reserveSeat sponsor = (some held, s') := by
  by_cases hprice : s.seatPriceMinor = 0
  · exact ⟨_, _, reserveSeat_of_unpriced hprice sponsor⟩
  · unfold canSeatMinor at h
    simp only [hprice, or_false, Nat.one_ne_zero, if_false, if_true, decide_eq_true_eq] at h
    obtain ⟨held, reserved, committed, hreserve⟩ := exists_reserveInner h
    exact ⟨held, _, reserveSeat_of_reserve hprice hreserve⟩

theorem exists_reserveSeats {s : State} {sponsor : MemberId} (h : s.canSeatMinor sponsor 2 = true) :
    ∃ held s₁ held' s₂, s.reserveSeat sponsor = (some held, s₁) ∧
      s₁.reserveSeat sponsor = (some held', s₂) := by
  by_cases hprice : s.seatPriceMinor = 0
  · exact ⟨_, _, _, _, reserveSeat_of_unpriced hprice sponsor, reserveSeat_of_unpriced hprice sponsor⟩
  · unfold canSeatMinor at h
    simp only [hprice, or_false, OfNat.ofNat_ne_zero, OfNat.ofNat_ne_one, if_false] at h
    -- The first hold of the two the question takes, and then the second.
    unfold canSeatRows at h
    split at h
    · cases h
    next held reserved committed hfirst =>
    unfold canSeatRows at h
    split at h
    · cases h
    next held' reserved' committed' hsecond =>
    exact ⟨held, _, held', _, reserveSeat_of_reserve hprice hfirst,
      reserveSeat_of_reserve hprice hsecond⟩

end State

namespace Apply

/-- **What the gate says can be seated is seated**, for any state, sponsor and pair. -/
theorem accepts_seatPair {s : State} {sponsor : MemberId} {first second : Resolved}
    (h : s.canSeatMinor sponsor (first.rows + second.rows) = true) :
    Op.Accepts (seatPair first second (some sponsor)) s := by
  cases first with
  | existing a =>
    cases second with
    | existing b => exact ⟨_, _, exec_seatPair_existing a b _ s, trivial⟩
    | fresh k =>
      obtain ⟨held, s', hreserve⟩ := State.exists_reserveSeat h
      exact ⟨_, _, by rw [exec_seatPair_second, hreserve], trivial⟩
  | fresh k =>
    cases second with
    | existing b =>
      obtain ⟨held, s', hreserve⟩ := State.exists_reserveSeat h
      exact ⟨_, _, by rw [exec_seatPair_first, hreserve], trivial⟩
    | fresh k' =>
      obtain ⟨held, s₁, held', s₂, hfirst, hsecond⟩ := State.exists_reserveSeats h
      refine ⟨(s₂.nextMember, s₂.nextMember + 1),
        (s₂.openRow k sponsor held).openRow k' sponsor held', ?_, trivial⟩
      rw [exec_seatPair_both, hfirst]
      dsimp only
      rw [hsecond]

/-! ### Between the question and the write -/

theorem canSeatRows_members (s : State) (members : OrdMap MemberId Member) (id : MemberId)
    (unit rows : Nat) (reserved : Reservations) (committed : Committed) :
    State.canSeatRows { s with members } id unit rows reserved committed =
      s.canSeatRows id unit rows reserved committed := by
  induction rows generalizing reserved committed with
  | zero => rfl
  | succ rows ih =>
    unfold State.canSeatRows
    dsimp only [State.uw, State.flowN]
    split
    · rfl
    · exact ih _ _

/-- Rows do not matter to the question. -/
theorem canSeatMinor_of_rowsAlone {s s' : State} (h : RowsAlone s s') (id : MemberId)
    (rows : Nat) : s'.canSeatMinor id rows = s.canSeatMinor id rows := by
  calc s'.canSeatMinor id rows = State.canSeatMinor { s' with members := s.members } id rows := by
        unfold State.canSeatMinor
        simp only [canSeatRows_members]
        rfl
    _ = s.canSeatMinor id rows := by rw [h]

theorem canSeatMinor_recordApplied (s : State) (txId : TxId) (notAfterEpoch : Nat) (id : MemberId)
    (rows : Nat) :
    (s.recordApplied txId notAfterEpoch).canSeatMinor id rows = s.canSeatMinor id rows := by
  have hrows : ∀ (unit rows : Nat) (reserved : Reservations) (committed : Committed),
      (s.recordApplied txId notAfterEpoch).canSeatRows id unit rows reserved committed =
        s.canSeatRows id unit rows reserved committed := by
    intro unit rows
    induction rows with
    | zero => exact fun _ _ => rfl
    | succ rows ih =>
      intro reserved committed
      unfold State.canSeatRows
      dsimp only [State.uw, State.flowN, State.recordApplied]
      split
      · rfl
      · exact ih _ _
  unfold State.canSeatMinor
  simp only [hrows]
  rfl

/-- A party needs the rows that the gate counted for it. -/
theorem rows_of_resolve {s : State} {party : Party} {signers : List Key} {r : Resolved}
    (h : resolve s party signers = .ok r) : r.rows = Bond.fresh s party := by
  unfold resolve at h
  cases party with
  | member id =>
    dsimp only at h
    split at h
    · cases h
    · cases h
      rfl
  | key k =>
    dsimp only at h
    unfold Bond.fresh
    split at h
    · next id hid =>
      cases h
      simp [hid, Resolved.rows]
    · next hnone =>
      split at h
      · cases h
      · split at h
        · cases h
        · cases h
          simp [hnone, Resolved.rows]

end Apply

/-- The parties a transaction may open rows for, in the order they are seated. -/
def Tx.parties : Tx → Option (Party × Party)
  | .accept debtor creditor _ _ _ => some (debtor, creditor)
  | .sale seller buyer _ _ => some (seller, buyer)
  | _ => none

namespace Apply

theorem fresh_congr {s s' : State} (h : s'.keyIndex = s.keyIndex) (party : Party) :
    Bond.fresh s' party = Bond.fresh s party := by
  cases party with
  | member id => rfl
  | key k =>
    have hkey : s'.memberOfKey k = s.memberOfKey k := by
      unfold State.memberOfKey
      rw [h]
    show (if (s'.memberOfKey k).isNone then 1 else 0) = _
    rw [hkey]
    rfl

theorem freshKeys_of_parties {s : State} {tx : Tx} {first second : Party}
    (h : tx.parties = some (first, second)) :
    Bond.freshKeys s tx = Bond.fresh s first + Bond.fresh s second := by
  cases tx <;> simp only [Tx.parties, reduceCtorEq, Option.some.injEq, Prod.mk.injEq] at h <;>
    obtain ⟨rfl, rfl⟩ := h <;> rfl

theorem rows_of_due {s : State} {tx : Tx} {signers : List Key} {payer : MemberId}
    {bond rows : Nat} (h : Bond.due s tx signers = .seat payer bond rows) :
    rows = Bond.freshKeys s tx := by
  unfold Bond.due at h
  dsimp only at h
  split at h
  · cases h
  split at h
  · cases h
  split at h
  · split at h
    · cases h
    · split at h <;> cases h
  · cases h
    rfl

/-! ### The gate -/

/-- The payer is active, and short of the bond. -/
def Overdrawn (s : State) (payer : MemberId) (bond : Nat) : Prop :=
  Bond.isActive s payer = true ∧ s.bondHeadroomMinor payer < bond

/-- The state with the denial of a bond remembered on its payer. -/
def denied (s : State) (payer : MemberId) : State :=
  s.modMember payer fun m => { m with bondDeniedThisEpoch := true }

/-- The three ways through the headroom check. -/
theorem exec_requireHeadroom_cases (payer : MemberId) (bond : Nat) (s : State) :
    (∃ e, Op.exec (requireHeadroom payer bond) s = (.error e, s)) ∨
      (Overdrawn s payer bond ∧
        Op.exec (requireHeadroom payer bond) s = (.error .bondExhausted, denied s payer)) ∨
      Op.exec (requireHeadroom payer bond) s = (.ok (), s) := by
  unfold requireHeadroom member
  rw [Op.exec_bind, Op.exec_check]
  cases hm : findMember s payer with
  | error e => exact Or.inl ⟨e, rfl⟩
  | ok m =>
    dsimp only
    rw [Op.exec_bind, Op.exec_refuseIf]
    by_cases hstatus : m.status ≠ .active
    · rw [if_pos hstatus]
      exact Or.inl ⟨_, rfl⟩
    rw [if_neg hstatus]
    dsimp only
    rw [Op.exec_bind, Op.exec_ask]
    dsimp only
    by_cases hshort : s.bondHeadroomMinor payer < bond
    · refine Or.inr (Or.inl ⟨⟨?_, hshort⟩, ?_⟩)
      · unfold Bond.isActive
        rw [findMember_eq_ok.1 hm]
        exact decide_eq_true (not_not.1 hstatus)
      · rw [decide_eq_true hshort, if_pos rfl]
        unfold memberMut member
        rw [Op.exec_bind, Op.exec_bind, Op.exec_check, hm]
        rfl
    · rw [decide_eq_false hshort, if_neg Bool.false_ne_true]
      exact Or.inr (Or.inr rfl)

section Gate

variable {s : State} {tx : Tx} {signers : List Key} {payer : MemberId} {bond rows : Nat}

/-- What the gate runs for a transaction that opens rows. -/
theorem exec_bondGate_of_due (h : Bond.due s tx signers = .seat payer bond rows) :
    Op.exec (bondGate tx signers) s =
      Op.exec (do
        requireHeadroom payer bond
        let seats ← Op.ask (·.canSeatMinor payer rows)
        Op.refuseIf (¬seats) .bondSeatUnbacked
        let charged ← encumber payer bond
        pure (charged, some payer)) s := by
  unfold bondGate
  rw [Op.exec_bind, Op.exec_ask]
  dsimp only
  rw [h]

/-- The payer of a seat is its sponsor. -/
theorem sponsor_of_due (h : Bond.due s tx signers = .seat payer bond rows) {charged : Charged}
    {sponsor : Option MemberId} {t : State}
    (hgate : Op.exec (bondGate tx signers) s = (.ok (charged, sponsor), t)) :
    sponsor = some payer := by
  rw [exec_bondGate_of_due h, Op.exec_bind] at hgate
  split at hgate
  · rw [Op.exec_bind, Op.exec_ask] at hgate
    dsimp only at hgate
    rw [Op.exec_bind] at hgate
    split at hgate
    · rw [Op.exec_bind] at hgate
      split at hgate
      · simp only [Op.exec_pure, Prod.mk.injEq, Except.ok.injEq] at hgate
        exact hgate.1.2.symm
      · cases hgate
    · cases hgate
  · cases hgate

/-- Where the rows cannot be seated the gate refuses, and writes a denial at most. -/
theorem exec_bondGate_of_unseated (h : Bond.due s tx signers = .seat payer bond rows)
    (hseats : s.canSeatMinor payer rows = false) :
    (∃ e, Op.exec (bondGate tx signers) s = (.error e, s)) ∨
      (Overdrawn s payer bond ∧
        Op.exec (bondGate tx signers) s = (.error .bondExhausted, denied s payer)) := by
  rw [exec_bondGate_of_due h, Op.exec_bind]
  rcases exec_requireHeadroom_cases payer bond s with ⟨e, he⟩ | ⟨hover, he⟩ | hok
  · rw [he]
    exact Or.inl ⟨e, rfl⟩
  · rw [he]
    exact Or.inr ⟨hover, rfl⟩
  · rw [hok]
    dsimp only
    rw [Op.exec_bind, Op.exec_ask]
    dsimp only
    rw [Op.exec_bind, Op.exec_refuseIf, hseats, if_pos Bool.false_ne_true]
    exact Or.inl ⟨_, rfl⟩

end Gate

section Run

variable [Libm]

/-- **The seat gate agrees with the seats.** In any state, the rows a sponsor can seat are
seated. For a transaction that opens rows: where the gate finds that its payer can seat
them, both parties are seated in the state the transaction is dispatched in; where it finds
that it cannot, the transaction is refused in the state its block opened with, but for the
denial remembered on a payer that is short of the bond as well. -/
theorem seats_of_due (tx : Tx) (txId : TxId) (notAfterEpoch : Nat) (signers : List Key)
    (nowSecs : Nat) (s : State) :
    (∀ (u : State) (sponsor : MemberId) (first second : Resolved),
      u.canSeatMinor sponsor (first.rows + second.rows) = true →
        Op.Accepts (seatPair first second (some sponsor)) u) ∧
    ∀ (payer : MemberId) (bond rows : Nat),
      Bond.due (s.beginBlock nowSecs) tx signers = .seat payer bond rows →
    ((s.beginBlock nowSecs).canSeatMinor payer rows = true →
      ∀ charged sponsor t,
        Op.exec (bondGate tx signers) (s.beginBlock nowSecs) = (.ok (charged, sponsor), t) →
        ∀ p q first second, tx.parties = some (p, q) →
          resolve (t.recordApplied txId notAfterEpoch) p signers = .ok first →
          resolve (t.recordApplied txId notAfterEpoch) q signers = .ok second →
          Op.Accepts (seatPair first second sponsor) (t.recordApplied txId notAfterEpoch)) ∧
    ((s.beginBlock nowSecs).canSeatMinor payer rows = false →
      (∃ e, Op.exec (apply tx txId notAfterEpoch signers nowSecs) s =
        (.error e, s.beginBlock nowSecs)) ∨
      (Overdrawn (s.beginBlock nowSecs) payer bond ∧
        Op.exec (apply tx txId notAfterEpoch signers nowSecs) s =
          (.error .bondExhausted, denied (s.beginBlock nowSecs) payer))) := by
  refine ⟨fun u sponsor first second h => accepts_seatPair h, fun payer bond rows hdue => ⟨?_, ?_⟩⟩
  · intro hseats charged sponsor t hgate p q first second hparties hfirst hsecond
    obtain rfl := sponsor_of_due hdue hgate
    have halone : RowsAlone (s.beginBlock nowSecs) t := by
      have hrows := rowsAlone_bondGate tx signers (s.beginBlock nowSecs)
      rwa [hgate] at hrows
    refine accepts_seatPair ?_
    -- The rows the parties need are those the gate asked for.
    have hneeded : first.rows + second.rows = rows := by
      have hindex : t.keyIndex = (s.beginBlock nowSecs).keyIndex := halone.keyIndex
      have hfresh : ∀ r : Party, Bond.fresh (t.recordApplied txId notAfterEpoch) r =
          Bond.fresh (s.beginBlock nowSecs) r := fresh_congr hindex
      rw [rows_of_resolve hfirst, rows_of_resolve hsecond, hfresh, hfresh, rows_of_due hdue,
        freshKeys_of_parties hparties]
    rw [hneeded, canSeatMinor_recordApplied, canSeatMinor_of_rowsAlone halone]
    exact hseats
  · intro hseats
    have hunseated := exec_bondGate_of_unseated hdue hseats
    rcases exec_apply_cases tx txId notAfterEpoch signers nowSecs s with
      ⟨e, -, hrun⟩ | ⟨-, e, t, hgate, hrun⟩ | ⟨-, charged, sponsor, t, outcome, u, hgate, -, -⟩
    · exact Or.inl ⟨e, hrun⟩
    · rw [hgate] at hunseated
      rw [hrun]
      rcases hunseated with ⟨e', he⟩ | ⟨hover, he⟩
      · obtain ⟨-, rfl⟩ := Prod.mk.inj he
        exact Or.inl ⟨e, rfl⟩
      · obtain ⟨herr, hstate⟩ := Prod.mk.inj he
        exact Or.inr ⟨hover, by rw [hstate, Except.error.inj herr]⟩
    · rw [hgate] at hunseated
      rcases hunseated with ⟨e', he⟩ | ⟨-, he⟩ <;> cases he

end Run

end Apply

/-- A founder with a supply, and a member with none. -/
def oneSupply : Genesis where
  validators := [
    { address := 0, publicKey := founderKey 0, votingPower := 0 },
    { address := 1, publicKey := founderKey 1, votingPower := 0 }]
  underwriters := [{ address := 0, supply := F64.ofNat 1000 }]

/-- A member trades with a key that has no row. -/
def newcomerTrade (id : MemberId) : Tx :=
  .accept (.member id) (.key (founderKey 9)) (F64.ofNat 10) 30 none

namespace Apply

/-- The founder can seat a newcomer, and does; the other member cannot and is refused. -/
theorem seats_of_newcomer :
    letI := Libm.unused
    (∀ charged sponsor t,
      Op.exec (bondGate (newcomerTrade 0) [founderKey 0, founderKey 9])
        (oneSupply.state.beginBlock 10) = (.ok (charged, sponsor), t) →
      ∀ p q first second, (newcomerTrade 0).parties = some (p, q) →
        resolve (t.recordApplied 0 0) p [founderKey 0, founderKey 9] = .ok first →
        resolve (t.recordApplied 0 0) q [founderKey 0, founderKey 9] = .ok second →
        Op.Accepts (seatPair first second sponsor) (t.recordApplied 0 0)) ∧
      ((∃ e, Op.exec (apply (newcomerTrade 1) 0 0 [founderKey 1, founderKey 9] 10)
          oneSupply.state = (.error e, oneSupply.state.beginBlock 10)) ∨
        (Overdrawn (oneSupply.state.beginBlock 10) 1 2000 ∧
          Op.exec (apply (newcomerTrade 1) 0 0 [founderKey 1, founderKey 9] 10) oneSupply.state =
            (.error .bondExhausted, denied (oneSupply.state.beginBlock 10) 1))) := by
  let _ : Libm := Libm.unused
  have hseats : Bond.due (oneSupply.state.beginBlock 10) (newcomerTrade 0)
      [founderKey 0, founderKey 9] = .seat 0 2000 1 := by decide +kernel
  have hunseated : Bond.due (oneSupply.state.beginBlock 10) (newcomerTrade 1)
      [founderKey 1, founderKey 9] = .seat 1 2000 1 := by decide +kernel
  exact ⟨((seats_of_due _ 0 0 _ 10 _).2 _ _ _ hseats).1 (by decide +kernel),
    ((seats_of_due _ 0 0 _ 10 _).2 _ _ _ hunseated).2 (by decide +kernel)⟩

/-- A member that can neither seat a newcomer nor carry the bond is refused, and the denial
is written on its row. -/
theorem denied_of_newcomer :
    letI := Libm.unused
    ∃ s, Founding s ∧
      Bond.due (s.beginBlock 10) (newcomerTrade 1) [founderKey 1, founderKey 9] = .seat 1 2000 1 ∧
      (s.beginBlock 10).canSeatMinor 1 1 = false ∧
      (Op.exec (apply (newcomerTrade 1) 0 0 [founderKey 1, founderKey 9] 10) s).2 ≠
        s.beginBlock 10 := by
  let _ : Libm := Libm.unused
  refine ⟨oneSupply.state, Genesis.founding_state (by decide +kernel), by decide +kernel,
    by decide +kernel, fun hsame => ?_⟩
  have hdenied : ((Op.exec (apply (newcomerTrade 1) 0 0 [founderKey 1, founderKey 9] 10)
      oneSupply.state).2.members[(1 : MemberId)]?).map (·.bondDeniedThisEpoch) ≠
        ((oneSupply.state.beginBlock 10).members[(1 : MemberId)]?).map (·.bondDeniedThisEpoch) := by
    decide +kernel
  exact hdenied (by rw [hsame])

end Apply

end Edet
