import Edet.Ledger.Window

/-!
# Frames of a trade

What a trade does to the ledger beside its books: it takes seats and opens rows. A relation that
admits both (`FramesSeats`) is one along which the parties of a trade are seated
(`FramesSeats.seatPair`), and with the books of the trade one along which the trade moves.
-/

namespace Edet

open Edet.Flow

namespace Apply

/-- A relation that admits what the seating of a party writes. -/
structure FramesSeats (R : State → State → Prop) : Prop where
  reserved : ∀ (s : State) sponsor, R s (s.reserveSeat sponsor).2
  released : ∀ (s : State) held, R s (s.releaseSeat held)
  account : ∀ (s : State) k, R s (s.newAccount [k]).2
  row : ∀ (s : State) id f, R s (s.modMember id f)

namespace FramesSeats

variable {R : State → State → Prop} [Std.Refl R] [IsTrans State R]

theorem reserveSeats (h : FramesSeats R) (sponsor : Option MemberId) (parties : List Resolved)
    (held : List (MemberId × Held)) : Op.Moves R (reserveSeats sponsor parties held) := by
  induction parties generalizing held with
  | nil => exact .pure _
  | cons party parties ih =>
    cases party with
    | existing id => exact ih held
    | fresh k =>
      cases sponsor with
      | none => exact .refuse _
      | some sponsor =>
        refine .bind (.draw fun s => h.reserved s sponsor) fun got => ?_
        cases got with
        | some seat => exact ih _
        | none =>
          refine .bind (.write fun s => ?_) fun _ => .refuse _
          exact Op.Moves.foldl (fun s (p : MemberId × Held) => h.released s p.2) held s

theorem seatParty (h : FramesSeats R) (party : Resolved) (taken : List (MemberId × Held)) :
    Op.Moves R (seatParty party taken) := by
  cases party with
  | existing id => exact .pure _
  | fresh k =>
    cases taken with
    | nil => exact .refuse _
    | cons t taken =>
      exact .bind (.draw fun s => h.account s k) fun _ => .bind (.write fun s => h.row s _ _) fun _ =>
        .pure _

/-- Two parties are seated. -/
theorem seatPair (h : FramesSeats R) (first second : Resolved) (sponsor : Option MemberId) :
    Op.Moves R (seatPair first second sponsor) := by
  unfold Apply.seatPair
  exact .bind (h.reserveSeats _ _ _) fun _ => .bind (h.seatParty _ _) fun _ =>
    .bind (h.seatParty _ _) fun _ => .pure _

/-- A debt is accepted. -/
theorem accept (h : FramesSeats R)
    (hbook : ∀ debtor creditor amount maturity arb, Op.Moves R (book debtor creditor amount maturity arb))
    (debtor creditor : Party) (amount : F64) (maturityEpochs : Nat) (arb : Option ArbTermsWire)
    (signers : List Key) (sponsor : Option MemberId) :
    Op.Moves R (accept debtor creditor amount maturityEpochs arb signers sponsor) := by
  unfold Apply.accept
  refine .bind (quiet_acceptTerms _ _ _ _ _ _).moves fun _ => .bind (h.seatPair _ _ _) fun _ => ?_
  exact .bind (hbook _ _ _ _ _) fun _ => .pure _

/-- A sale nets what stands between its parties, and the rest originates. -/
theorem sale (h : FramesSeats R)
    (hnet : ∀ budget ids netted, Op.Moves R (netMutual budget ids netted))
    (horiginate : ∀ seller buyer budget maturity,
      Op.Moves R (Cascade.originate seller buyer budget maturity))
    (seller buyer : Party) (amount : F64) (maturityEpochs : Nat) (signers : List Key)
    (sponsor : Option MemberId) :
    Op.Moves R (Cascade.sale seller buyer amount maturityEpochs signers sponsor) := by
  unfold Cascade.sale
  refine .bind (quiet_saleTerms _ _ _ _ _).moves fun _ => .bind (h.seatPair _ _ _) fun _ =>
    .bind (hnet _ _ _) fun _ => .ite (fun _ => .pure _) fun _ => .bind (.ask _) fun _ => ?_
  exact horiginate _ _ _ _

end FramesSeats

end Apply

end Edet
