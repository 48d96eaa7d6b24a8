import Edet.Kernel.Holds
import Edet.Ledger.Winding

/-!
# Seating two parties

What `seatPair` does, case by case: nothing where both parties have a row, and
otherwise a reservation for each fresh party and then a row for each
(`State.openRow`). If the second of two reservations cannot be had the first goes
back, which restores the seat books up to empty entries (`State.tidySeats`).
-/

namespace Edet

open Edet.Flow

namespace State

/-- The row a fresh key gets. -/
def seatedRow (s : State) (k : Key) (sponsor : MemberId) (held : Held) : Member :=
  { id := s.nextMember, keys := [k], joinedEpoch := s.epoch, seat := some { sponsor, held }
    seatSlot := true }

/-- The state with a row opened on a fresh key, on a hold of its sponsor's reach. -/
def openRow (s : State) (k : Key) (sponsor : MemberId) (held : Held) : State :=
  (s.newAccount [k]).2.modMember s.nextMember fun row =>
    { row with seat := some { sponsor, held }, seatSlot := true }

theorem openRow_row (s : State) (k : Key) (sponsor : MemberId) (held : Held) :
    (s.openRow k sponsor held).members[s.nextMember]? = some (s.seatedRow k sponsor held) := by
  simp only [openRow, modMember, newAccount, OrdMap.getElem?_modify_map,
    Std.ExtTreeMap.getElem?_insert, Std.compare_self, if_true, Option.map_some]
  rfl

theorem openRow_other (s : State) (k : Key) (sponsor : MemberId) (held : Held) {id : MemberId}
    (h : s.nextMember ≠ id) : (s.openRow k sponsor held).members[id]? = s.members[id]? := by
  simp only [openRow, modMember, newAccount, OrdMap.getElem?_modify_map,
    Std.ExtTreeMap.getElem?_insert, Std.compare_eq_iff_eq, if_neg h]
  cases s.members[id]? <;> rfl

theorem openRow_nextMember (s : State) (k : Key) (sponsor : MemberId) (held : Held) :
    (s.openRow k sponsor held).nextMember = s.nextMember + 1 := rfl

/-- A seat that cannot be had changes nothing. -/
theorem reserveSeat_none {s s' : State} {sponsor : MemberId}
    (h : s.reserveSeat sponsor = (none, s')) : s' = s := by
  unfold reserveSeat at h
  extract_lets want at h
  split at h
  · simp at h
  · split at h
    next held reserved committed hreserve =>
    simp only [Prod.mk.injEq] at h
    obtain ⟨rfl, rfl⟩ := h
    obtain ⟨rfl, rfl⟩ := reserveInner_none hreserve
    rfl

/-- Only the seat books move when a seat is reserved. -/
theorem reserveSeat_some {s s' : State} {sponsor : MemberId} {held : Held}
    (h : s.reserveSeat sponsor = (some held, s')) :
    s' = { s with
      seatReserved := addAll s.seatReserved held.edges
      seatCommitted := addAll s.seatCommitted held.supply } := by
  unfold reserveSeat at h
  extract_lets want at h
  split at h
  · simp only [Prod.mk.injEq, Option.some.injEq] at h
    obtain ⟨rfl, rfl⟩ := h
    rfl
  · split at h
    next held' reserved committed hreserve =>
    simp only [Prod.mk.injEq] at h
    obtain ⟨rfl, rfl⟩ := h
    obtain ⟨rfl, rfl⟩ := reserveInner_some hreserve
    rfl

end State

namespace Apply

/-! ### The cases -/

theorem exec_seatPair_existing (a b : MemberId) (sponsor : Option MemberId) (s : State) :
    Op.exec (seatPair (.existing a) (.existing b) sponsor) s = (.ok (a, b), s) := rfl

theorem exec_seatPair_noSponsor {first second : Resolved} {k : Key}
    (h : first = .fresh k ∨ second = .fresh k) (s : State) :
    Op.exec (seatPair first second none) s = (.error .bondNoPayer, s) := by
  cases first with
  | fresh k' => rfl
  | existing a =>
    cases second with
    | fresh k' => rfl
    | existing b => simp at h

theorem exec_seatPair_second (a : MemberId) (k : Key) (sponsor : MemberId) (s : State) :
    Op.exec (seatPair (.existing a) (.fresh k) (some sponsor)) s =
      match s.reserveSeat sponsor with
      | (none, s₁) => (.error .bondSeatUnbacked, s₁)
      | (some held, s₁) => (.ok (a, s₁.nextMember), s₁.openRow k sponsor held) := by
  unfold seatPair reserveSeats reserveSeats
  simp only [Op.exec_bind, Op.exec_draw]
  rcases s.reserveSeat sponsor with ⟨_ | held, s₁⟩ <;> rfl

theorem exec_seatPair_first (k : Key) (b : MemberId) (sponsor : MemberId) (s : State) :
    Op.exec (seatPair (.fresh k) (.existing b) (some sponsor)) s =
      match s.reserveSeat sponsor with
      | (none, s₁) => (.error .bondSeatUnbacked, s₁)
      | (some held, s₁) => (.ok (s₁.nextMember, b), s₁.openRow k sponsor held) := by
  unfold seatPair reserveSeats
  simp only [Op.exec_bind, Op.exec_draw]
  rcases s.reserveSeat sponsor with ⟨_ | held, s₁⟩ <;> rfl

theorem exec_seatPair_both (k k' : Key) (sponsor : MemberId) (s : State) :
    Op.exec (seatPair (.fresh k) (.fresh k') (some sponsor)) s =
      match s.reserveSeat sponsor with
      | (none, s₁) => (.error .bondSeatUnbacked, s₁)
      | (some held, s₁) =>
        match s₁.reserveSeat sponsor with
        | (none, s₂) => (.error .bondSeatUnbacked, s₂.releaseSeat held)
        | (some held', s₂) =>
          (.ok (s₂.nextMember, s₂.nextMember + 1),
            (s₂.openRow k sponsor held).openRow k' sponsor held') := by
  unfold seatPair reserveSeats
  simp only [Op.exec_bind, Op.exec_draw]
  rcases h : s.reserveSeat sponsor with ⟨_ | held, s₁⟩
  · rfl
  · unfold reserveSeats
    simp only [Op.exec_bind, Op.exec_draw]
    rcases s₁.reserveSeat sponsor with ⟨_ | held', s₂⟩ <;> rfl

end Apply

end Edet
