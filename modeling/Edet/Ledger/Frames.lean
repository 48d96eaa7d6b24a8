import Edet.Ledger.Block

/-!
# What obligations leave alone

Most transitions only move obligations: they write contracts, stakes and reservations,
and in a member's row only its debt and its reputation. `State.offBooks` is everything
else, and a transition that moves along `OffBooks` has kept all of it.

Every helper that opens, moves, discharges or nets an obligation keeps it, accepted or
refused (`bookkeeping_*` below), so a property of keys, seats, listings, supplies,
proposals or validators survives all of them at once.
-/

namespace Edet

open Edet.Flow

/-- A row without its debt and its reputation. -/
def Member.offBooks (m : Member) : Member := { m with rep := {}, debtOut := 0 }

/-- The state without contracts, stakes, reservations, debts and reputations. -/
def State.offBooks (s : State) : State :=
  { s with
    contracts := ∅, nextContract := 0, edges := ∅, reserved := ∅, committed := ∅
    members := s.members.map fun _ m => m.offBooks }

/-- Nothing changed off the books. -/
def OffBooks (s s' : State) : Prop := s'.offBooks = s.offBooks

instance : Std.Refl OffBooks := ⟨fun _ => rfl⟩

instance : IsTrans State OffBooks := ⟨fun _ _ _ h h' => h'.trans h⟩

namespace OffBooks

/-- A row whose debt and reputation alone are written is the same off the books. -/
theorem modMember {f : Member → Member} (hf : ∀ m, (f m).offBooks = m.offBooks) (s : State)
    (id : MemberId) : OffBooks s (s.modMember id f) := by
  have hmap : (s.members.modify id f).map (fun _ m => m.offBooks)
      = s.members.map fun _ m => m.offBooks := OrdMap.map_modify hf s.members id
  show State.offBooks _ = _
  simp only [State.offBooks, State.modMember, hmap]

theorem foldl {β : Type} {f : State → β → State} (l : List β) (s : State)
    (h : ∀ s x, OffBooks s (f s x)) : OffBooks s (l.foldl f s) := Op.Moves.foldl h l s

theorem members_getElem? {s s' : State} (h : OffBooks s s') (id : MemberId) :
    (s'.members[id]?).map Member.offBooks = (s.members[id]?).map Member.offBooks := by
  have hmem : s'.offBooks.members[id]? = s.offBooks.members[id]? := by rw [h]
  simpa [State.offBooks, Std.ExtTreeMap.getElem?_map] using hmem

end OffBooks

namespace Apply

/-! ### What the lookups establish -/

theorem findMember_eq_ok {s : State} {id : MemberId} {m : Member} :
    findMember s id = .ok m ↔ s.members[id]? = some m := by
  unfold findMember
  split <;> simp_all

theorem findContract_eq_ok {s : State} {id : ContractId} {c : Contract} :
    findContract s id = .ok c ↔ s.contracts[id]? = some c := by
  unfold findContract
  split <;> simp_all

theorem triple_member {P E : State → Prop} {Q : Member → State → Prop} {id : MemberId}
    (h : ∀ s m, P s → s.members[id]? = some m → Q m s) (hE : ∀ s, P s → E s) :
    Op.Triple P (member id) Q E :=
  .check (fun s m hs hm => h s m hs (findMember_eq_ok.1 hm)) hE

theorem triple_memberMut {P E : State → Prop} {Q : Unit → State → Prop} {id : MemberId}
    {f : Member → Member}
    (h : ∀ s m, P s → s.members[id]? = some m → Q () (s.modMember id f)) (hE : ∀ s, P s → E s) :
    Op.Triple P (memberMut id f) Q E := by
  unfold memberMut
  refine .bind (triple_member (Q := fun m s => P s ∧ s.members[id]? = some m)
    (fun s m hs hm => ⟨hs, hm⟩) hE) fun m => ?_
  exact .write fun s hs => h s m hs.1 hs.2

theorem triple_contract {P E : State → Prop} {Q : Contract → State → Prop} {id : ContractId}
    (h : ∀ s c, P s → s.contracts[id]? = some c → Q c s) (hE : ∀ s, P s → E s) :
    Op.Triple P (contract id) Q E :=
  .check (fun s c hs hc => h s c hs (findContract_eq_ok.1 hc)) hE

/-! ### What only reads -/

theorem quiet_member (id : MemberId) : Op.Quiet (member id) := Op.quiet_check _

theorem quiet_contract (id : ContractId) : Op.Quiet (contract id) := Op.quiet_check _

theorem quiet_expirable (id : ContractId) : Op.Quiet (expirable id) :=
  .bind (quiet_contract _) fun _ => .bind (Op.quiet_refuseIf _ _) fun _ =>
    .bind (Op.quiet_ask _) fun _ => .bind (Op.quiet_refuseIf _ _) fun _ => Op.quiet_pure _

theorem quiet_transferable (id : ContractId) (newDebtor : MemberId) (signers : List Key) :
    Op.Quiet (transferable id newDebtor signers) :=
  .bind (quiet_contract _) fun _ => .bind (Op.quiet_refuseIf _ _) fun _ =>
    .bind (Op.quiet_refuseIf _ _) fun _ => .bind (Op.quiet_check _) fun _ =>
    .bind (Op.quiet_check _) fun _ => .bind (Op.quiet_check _) fun _ =>
    .bind (Op.quiet_ask _) fun _ => .ite (Op.quiet_pure _)
      (.bind (Op.quiet_check _) fun _ => Op.quiet_pure _)

theorem quiet_acceptTerms (debtor creditor : Party) (amount : F64) (maturityEpochs : Nat)
    (arb : Option ArbTermsWire) (signers : List Key) :
    Op.Quiet (acceptTerms debtor creditor amount maturityEpochs arb signers) :=
  .bind (Op.quiet_check _) fun _ => .bind (Op.quiet_check _) fun _ =>
    .bind (Op.quiet_refuseIf _ _) fun _ => .bind (Op.quiet_check _) fun _ =>
    .bind (Op.quiet_check _) fun _ => .bind (Op.quiet_check _) fun _ =>
    .bind (Op.quiet_ask _) fun _ => .bind (Op.quiet_refuseIf _ _) fun _ =>
    .bind (Op.quiet_ask _) fun _ => .bind (Op.quiet_refuseIf _ _) fun _ =>
    .bind (Op.quiet_refuseIf _ _) fun _ => .bind (Op.quiet_ask _) fun _ => Op.quiet_pure _

theorem quiet_saleTerms (seller buyer : Party) (amount : F64) (maturityEpochs : Nat)
    (signers : List Key) :
    Op.Quiet (Cascade.saleTerms seller buyer amount maturityEpochs signers) :=
  .bind (Op.quiet_check _) fun _ => .bind (Op.quiet_check _) fun _ =>
    .bind (Op.quiet_refuseIf _ _) fun _ => .bind (Op.quiet_check _) fun _ =>
    .bind (Op.quiet_refuseIf _ _) fun _ => .bind (Op.quiet_check _) fun _ =>
    .bind (Op.quiet_ask _) fun _ => .bind (Op.quiet_refuseIf _ _) fun _ =>
    .bind (Op.quiet_ask _) fun _ => .bind (Op.quiet_refuseIf _ _) fun _ =>
    .bind (Op.quiet_refuseIf _ _) fun _ => .bind (Op.quiet_ask _) fun _ =>
    .bind (Op.quiet_ask _) fun _ => .bind (Op.quiet_refuseIf _ _) fun _ => Op.quiet_pure _

theorem quiet_mayAssent (id : MemberId) (proposalId : ProposalId) (signers : List Key) :
    Op.Quiet (mayAssent id proposalId signers) :=
  .bind (Op.quiet_check _) fun _ => .bind (Op.quiet_check _) fun _ =>
    .bind (Op.quiet_check _) fun _ => .bind (Op.quiet_refuseIf _ _) fun _ =>
    .bind (Op.quiet_refuseIf _ _) fun _ => .bind (Op.quiet_ask _) fun _ =>
    .bind (Op.quiet_refuseIf _ _) fun _ => .bind (Op.quiet_refuseIf _ _) fun _ =>
    .bind (Op.quiet_ask _) fun _ => .bind (Op.quiet_ask _) fun _ =>
    .bind (Op.quiet_refuseIf _ _) fun _ => .bind (Op.quiet_check _) fun _ => Op.quiet_pure _

/-! ### Bookkeeping -/

/-- A transition that only keeps the books of obligations. -/
abbrev Bookkeeping {α : Type} (op : Tr α) : Prop := Op.Moves OffBooks op

theorem bookkeeping_memberMut {id : MemberId} {f : Member → Member}
    (hf : ∀ m, (f m).offBooks = m.offBooks) : Bookkeeping (memberMut id f) := by
  unfold memberMut
  refine .bind (.check _) fun _ => .write fun s => ?_
  exact OffBooks.modMember hf s id

theorem bookkeeping_contractMut (id : ContractId) (f : Contract → Contract) :
    Bookkeeping (contractMut id f) := by
  unfold contractMut
  exact .bind (.check _) fun _ => .write fun _ => rfl

theorem bookkeeping_reserve (debtor : MemberId) (want : Nat) :
    Bookkeeping (Op.draw (·.reserveCapacityMinor debtor want)) := by
  refine .draw fun s => ?_
  unfold State.reserveCapacityMinor
  split <;> rfl

theorem bookkeeping_reserveIf (allowed : Bool) (debtor : MemberId) (amount : Nat) :
    Bookkeeping (reserveIf allowed debtor amount) := by
  unfold reserveIf
  exact .ite (fun _ => bookkeeping_reserve _ _) fun _ => .pure _

theorem bookkeeping_rehold (id : ContractId) : Bookkeeping (rehold id) := by
  unfold rehold
  refine .bind (.check _) fun c => .ite (fun _ => .pure _) fun _ => .ite (fun _ => ?_) fun _ => ?_
  · refine .ite (fun _ => .pure _) fun _ => ?_
    exact .bind (.write fun _ => rfl) fun _ => bookkeeping_contractMut _ _
  · refine .bind (.ask _) fun dust => .ite (fun _ => ?_) fun _ => .pure _
    refine .bind (bookkeeping_reserve _ _) fun held => ?_
    cases held with
    | none => exact bookkeeping_contractMut _ _
    | some h => exact bookkeeping_contractMut _ _

theorem bookkeeping_openObligation (debtor creditor : MemberId) (amount maturityEpoch : Nat)
    (arb : Option ArbTerms) (held : Option Held) (acceptedEpoch : Nat) :
    Bookkeeping (openObligation debtor creditor amount maturityEpoch arb held acceptedEpoch) := by
  unfold openObligation
  refine .bind (.check _) fun _ => .bind (.ask _) fun _ => .bind (.write fun _ => rfl) fun _ => ?_
  exact .bind (bookkeeping_memberMut fun _ => rfl) fun _ => .pure _

theorem bookkeeping_book (debtor creditor : MemberId) (amount maturityEpoch : Nat)
    (arb : Option ArbTerms) : Bookkeeping (book debtor creditor amount maturityEpoch arb) := by
  unfold book
  refine .bind (.check _) fun _ => .bind (.ask _) fun inside => ?_
  refine .bind (bookkeeping_reserveIf _ _ _) fun held => .bind (.ask _) fun _ => ?_
  exact bookkeeping_openObligation _ _ _ _ _ _ _

theorem bookkeeping_moveDebtor (c : Contract) (newDebtor : MemberId) (held : Option Held) :
    Bookkeeping (moveDebtor c newDebtor held) := by
  unfold moveDebtor
  refine .bind (.check _) fun _ => .bind (.write fun _ => rfl) fun _ => ?_
  refine .bind (bookkeeping_memberMut fun _ => rfl) fun _ => ?_
  refine .bind (bookkeeping_contractMut _ _) fun _ => .bind (.ask _) fun inside => .bind ?_ fun _ => ?_
  · cases held with
    | none => exact bookkeeping_reserveIf _ _ _
    | some h => exact .pure _
  · exact .bind (bookkeeping_openObligation _ _ _ _ _ _ _) fun _ => .pure _

theorem bookkeeping_substitutionLeg (underwriter creditor : MemberId)
    (amount maturityEpoch : Nat) :
    Bookkeeping (substitutionLeg underwriter creditor amount maturityEpoch) := by
  unfold substitutionLeg
  refine .ite (fun _ => .pure _) fun _ => .bind (.check _) fun _ => ?_
  exact .bind (.write fun _ => rfl) fun _ => bookkeeping_memberMut fun _ => rfl

theorem bookkeeping_substituteLeg (c : Contract) (maturityEpoch : Nat) (share : Share) :
    Bookkeeping (substituteLeg c maturityEpoch share) := by
  unfold substituteLeg
  exact .ite (fun _ => bookkeeping_substitutionLeg _ _ _ _) fun _ => .pure _

theorem bookkeeping_substitute (id : ContractId) : Bookkeeping (substitute id) := by
  unfold substitute
  refine .bind (.check _) fun c => .ite (fun _ => .pure _) fun _ => .ite (fun _ => .pure _) fun _ =>
    .ite (fun _ => .pure _) fun _ => .ite (fun _ => .pure _) fun _ => .bind (.ask _) fun maturity => ?_
  cases shares c with
  | nil => exact .pure _
  | cons first rest =>
    refine .bind (bookkeeping_contractMut _ _) fun _ => ?_
    refine .bind (bookkeeping_substituteLeg _ _ _) fun _ => .forM fun share _ => ?_
    exact .bind (.write fun _ => rfl) fun _ => bookkeeping_substituteLeg _ _ _

theorem bookkeeping_markExpired (id : ContractId) : Bookkeeping (markExpired id) := by
  unfold markExpired
  refine .bind (quiet_expirable id).moves fun _ => ?_
  refine .bind (bookkeeping_contractMut _ _) fun _ => ?_
  exact .bind (bookkeeping_memberMut fun _ => rfl) fun _ => bookkeeping_substitute _

theorem offBooks_dischargeCredit (debtor creditor : MemberId) (amount : Nat) (s : State) :
    OffBooks s (dischargeCredit debtor creditor amount s) := by
  unfold dischargeCredit
  split <;> rfl

theorem bookkeeping_dischargeHop (id : ContractId) (want : Nat) :
    Bookkeeping (dischargeHop id want) := by
  unfold dischargeHop
  refine .bind (.ask _) fun dust => .bind (.check _) fun c => .ite (fun _ => .pure _) fun _ => ?_
  refine .bind (bookkeeping_contractMut _ _) fun _ => ?_
  refine .bind (bookkeeping_memberMut fun _ => rfl) fun _ => ?_
  refine .bind (bookkeeping_rehold _) fun _ => .bind (.write fun s => ?_) fun _ => .pure _
  exact offBooks_dischargeCredit _ _ _ s

theorem bookkeeping_netMutual (budget : Nat) (ids : List ContractId) (netted : Nat) :
    Bookkeeping (netMutual budget ids netted) := by
  induction ids generalizing netted with
  | nil => exact .pure _
  | cons id ids ih =>
    unfold netMutual
    refine .bind (.ask _) fun dust => .ite (fun _ => .pure _) fun _ => ?_
    exact .bind (bookkeeping_dischargeHop _ _) fun took => ih _

theorem bookkeeping_repay (id : ContractId) (c : Contract) (amount : Nat)
    (closed : ContractStatus) (cured : Bool) : Bookkeeping (repay id c amount closed cured) := by
  unfold repay
  refine .bind (.ask _) fun dust => .bind (bookkeeping_contractMut _ _) fun _ => ?_
  refine .bind (bookkeeping_rehold _) fun _ => .bind (.write fun s => ?_) fun _ => ?_
  · exact offBooks_dischargeCredit _ _ _ s
  · exact bookkeeping_memberMut fun _ => rfl

theorem bookkeeping_repayment (status closed : ContractStatus) (cured : Bool) (id : ContractId)
    (amount : F64) (signers : List Key) :
    Bookkeeping (repayment status closed cured id amount signers) := by
  unfold repayment
  refine .bind (.check _) fun _ => .bind (.refuseIf _ _) fun _ => .bind (.check _) fun _ =>
    .bind (.check _) fun _ => .bind (.refuseIf _ _) fun _ => .bind (.refuseIf _ _) fun _ => ?_
  exact bookkeeping_repay _ _ _ _ _

theorem bookkeeping_transfer (id : ContractId) (newDebtor : MemberId) (signers : List Key) :
    Bookkeeping (transfer id newDebtor signers) := by
  unfold transfer
  exact .bind (quiet_transferable _ _ _).moves fun _ => bookkeeping_moveDebtor _ _ _

theorem bookkeeping_extend (id : ContractId) (newMaturityEpoch : Nat) (signers : List Key) :
    Bookkeeping (extend id newMaturityEpoch signers) := by
  unfold extend
  refine .bind (.check _) fun _ => .bind (.refuseIf _ _) fun _ => .bind (.check _) fun _ =>
    .bind (.check _) fun _ => .bind (.refuseIf _ _) fun _ => .bind (.ask _) fun _ =>
    .bind (.refuseIf _ _) fun _ => .bind (.ask _) fun drops => .ite (fun _ => ?_) fun _ => ?_
  · exact .bind (.write fun _ => rfl) fun _ => bookkeeping_contractMut _ _
  · exact bookkeeping_contractMut _ _

theorem bookkeeping_arbAttest (id : ContractId) (arbiter : MemberId) (amount : F64)
    (signers : List Key) : Bookkeeping (arbAttest id arbiter amount signers) := by
  unfold arbAttest
  refine .bind (.check _) fun _ => .bind (.check _) fun c => ?_
  cases c.arb with
  | none => exact .refuse _
  | some terms =>
    refine .bind (.refuseIf _ _) fun _ => .bind (.ask _) fun _ => .bind (.refuseIf _ _) fun _ =>
      .bind (.refuseIf _ _) fun _ => .bind (.refuseIf _ _) fun _ => .bind (.refuseIf _ _) fun _ => ?_
    exact bookkeeping_contractMut _ _

/-! ### One walk for every relation -/

section Walks

variable {R : State → State → Prop} [Std.Refl R] [IsTrans State R]

/-- Seats are reserved, and given back where one is missing, within any relation that leaves their
book free. -/
theorem moves_reserveSeats
    (hbook : ∀ (s : State) x y, R s { s with seatReserved := x, seatCommitted := y })
    (sponsor : Option MemberId) (parties : List Resolved) (held : List (MemberId × Held)) :
    Op.Moves R (reserveSeats sponsor parties held) := by
  have hreserve : ∀ (sponsor : MemberId) (s : State), R s (s.reserveSeat sponsor).2 := by
    intro sponsor s
    unfold State.reserveSeat
    dsimp only
    split
    · exact Std.Refl.refl s
    · exact hbook s _ _
  induction parties generalizing held with
  | nil => exact .pure _
  | cons party parties ih =>
    cases party with
    | existing id => exact ih held
    | fresh k =>
      cases sponsor with
      | none => exact .refuse _
      | some sponsor =>
        refine .bind (.draw fun s => hreserve sponsor s) fun got => ?_
        cases got with
        | some h => exact ih _
        | none =>
          -- the seats that were taken already are given back
          have hrelease : ∀ (s : State) (p : MemberId × Held), R s (s.releaseSeat p.2) :=
            fun s _ => hbook s _ _
          exact .bind (.write fun s => Op.Moves.foldl hrelease held s) fun _ => .refuse _

/-- Two parties are seated within any relation that leaves free the book of seats, a new row and
the seat of a row. -/
theorem moves_seatPair
    (hbook : ∀ (s : State) x y, R s { s with seatReserved := x, seatCommitted := y })
    (hnew : ∀ (s : State) k, R s (s.newAccount [k]).2)
    (hseat : ∀ (s : State) id x,
      R s (s.modMember id fun row => { row with seat := x, seatSlot := true }))
    (first second : Resolved) (sponsor : Option MemberId) :
    Op.Moves R (seatPair first second sponsor) := by
  have hparty : ∀ party taken, Op.Moves R (seatParty party taken) := by
    intro party taken
    cases party with
    | existing id => exact .pure _
    | fresh k =>
      cases taken with
      | nil => exact .refuse _
      | cons t taken =>
        exact .bind (.draw fun s => hnew s k) fun id => .bind (.write fun s => hseat s id _)
          fun _ => .pure _
  unfold seatPair
  exact .bind (moves_reserveSeats hbook _ _ _) fun _ => .bind (hparty _ _) fun _ =>
    .bind (hparty _ _) fun _ => .pure _

/-- Rings are netted within any relation that a hop keeps. -/
theorem moves_netRings (hhop : ∀ id take, Op.Moves R (dischargeHop id take)) (rounds : Nat) :
    Op.Moves R (netRings rounds) := by
  induction rounds with
  | zero => exact .pure _
  | succ rounds ih =>
    unfold netRings
    refine .bind (.ask _) fun ring => ?_
    cases ring with
    | none => exact .pure _
    | some ring =>
      -- a hop that refuses is skipped
      exact .bind (.ask _) fun take => .bind (.forM fun id _ => .attempt (hhop id take)) fun _ => ih

/-- A panel closes within any relation that its mark keeps, and an obligation that is opened with
no hold. -/
theorem moves_arbAward
    (hmark : ∀ id, Op.Moves R (contractMut id fun cm => { cm with arbAwarded := true }))
    (hopen : ∀ debtor creditor amount maturityEpoch epoch,
      Op.Moves R (openObligation debtor creditor amount maturityEpoch none none epoch))
    (id : ContractId) : Op.Moves R (arbAward id) := by
  unfold arbAward
  refine .bind (.check _) fun c => ?_
  cases c.arb with
  | none => exact .refuse _
  | some terms =>
    refine .bind (.refuseIf _ _) fun _ => .bind (.ask _) fun _ => .bind (.refuseIf _ _) fun _ =>
      .ite (fun _ => hmark id) fun _ => ?_
    refine .bind (hmark id) fun _ => .bind (.ask _) fun _ =>
      .ite (fun _ => .pure _) fun _ => .bind (.ask _) fun _ => .bind (.ask _) fun _ => ?_
    exact .bind (hopen _ _ _ _ _) fun _ => .pure _

end Walks

theorem bookkeeping_arbAward (id : ContractId) : Bookkeeping (arbAward id) :=
  moves_arbAward (fun _ => bookkeeping_contractMut _ _)
    (fun _ _ _ _ _ => bookkeeping_openObligation _ _ _ _ _ _ _) id

theorem bookkeeping_netRings (rounds : Nat) : Bookkeeping (netRings rounds) :=
  moves_netRings bookkeeping_dischargeHop rounds

end Apply

namespace Cascade

open Apply

theorem bookkeeping_clearDebts (buyer : MemberId) (budget saleMaturity : Nat)
    (ids : List ContractId) (spent : Nat) (assumed : Assumed) :
    Bookkeeping (clearDebts buyer budget saleMaturity ids spent assumed) := by
  induction ids generalizing spent assumed with
  | nil => exact .pure _
  | cons id ids ih =>
    unfold clearDebts
    refine .bind (.ask _) fun dust => .ite (fun _ => .pure _) fun _ => .bind (.check _) fun c =>
      .bind (.ask _) fun last => .ite (fun _ => ih _ _) fun _ => .bind (.ask _) fun room =>
      .ite (fun _ => ih _ _) fun _ => .bind (.write fun _ => rfl) fun _ => ?_
    refine .bind (bookkeeping_contractMut _ _) fun _ => ?_
    refine .bind (bookkeeping_reserve _ _) fun got => ?_
    cases got with
    | none => exact .bind (bookkeeping_rehold _) fun _ => ih _ _
    | some held =>
      refine .bind (bookkeeping_contractMut _ _) fun _ => ?_
      refine .bind (bookkeeping_memberMut fun _ => rfl) fun _ => ?_
      exact .bind (bookkeeping_rehold _) fun _ => ih _ _

theorem bookkeeping_clearMemberDebts (debtor buyer : MemberId) (budget saleMaturity : Nat)
    (assumed : Assumed) :
    Bookkeeping (clearMemberDebts debtor buyer budget saleMaturity assumed) := by
  unfold clearMemberDebts
  exact .bind (.ask _) fun _ => bookkeeping_clearDebts _ _ _ _ _ _

/-- The loop over one level's targets keeps off the books if going one level deeper
does. -/
theorem bookkeeping_drainTargetsLoop {buyer : MemberId} {saleMaturity depth : Nat}
    (hdeeper : ∀ lister budget visited assumed,
      Bookkeeping (drainLevel buyer saleMaturity depth lister budget visited assumed))
    (lister : MemberId) (targets : List (MemberId × Nat)) (absorbed : Nat)
    (visited : List MemberId) (assumed : Assumed) :
    Bookkeeping
      (drainTargetsLoop buyer saleMaturity depth lister targets absorbed visited assumed) := by
  induction targets generalizing absorbed visited assumed with
  | nil => unfold drainTargetsLoop; exact .pure _
  | cons target rest ih =>
    unfold drainTargetsLoop
    refine .bind (.ask _) fun dust => .ite (fun _ => ih _ _ _) fun _ => ?_
    refine .bind (bookkeeping_clearMemberDebts _ _ _ _ _) fun cleared => .ite (fun _ => ?_) fun _ => ?_
    · exact .bind (hdeeper _ _ _ _) fun deeper => ih _ _ _
    · exact ih _ _ _

theorem bookkeeping_drainLevel (buyer : MemberId) (saleMaturity depth : Nat) (lister : MemberId)
    (budget : Nat) (visited : List MemberId) (assumed : Assumed) :
    Bookkeeping (drainLevel buyer saleMaturity depth lister budget visited assumed) := by
  induction depth generalizing lister budget visited assumed with
  | zero => unfold drainLevel; exact .pure _
  | succ depth ih =>
    unfold drainLevel
    refine .bind (.ask _) fun dust => .ite (fun _ => .pure _) fun _ => .bind (.check _) fun self =>
      .bind (.ask _) fun targets => .ite (fun _ => .pure _) fun _ => ?_
    exact bookkeeping_drainTargetsLoop ih _ _ _ _ _

theorem bookkeeping_takeOver (seller buyer : MemberId) (budget saleMaturity : Nat) :
    Bookkeeping (takeOver seller buyer budget saleMaturity) := by
  unfold takeOver
  refine .bind (.ask _) fun dust => .ite (fun _ => .pure _) fun _ => .bind (.check _) fun self =>
    .ite (fun _ => bookkeeping_clearMemberDebts _ _ _ _ _) fun _ => ?_
  exact .bind (bookkeeping_drainLevel _ _ _ _ _ _ _) fun _ => .pure _

theorem bookkeeping_originate (seller buyer : MemberId) (budget saleMaturity : Nat) :
    Bookkeeping (originate seller buyer budget saleMaturity) := by
  unfold originate
  refine .bind (.ask _) fun dust => .bind (bookkeeping_takeOver _ _ _ _) fun taken => ?_
  refine .bind (.forM fun slot _ => ?_) fun _ => .ite (fun _ => ?_) fun _ => .pure _
  · unfold openAssumed
    refine .ite (fun _ => ?_) fun _ => .write fun _ => rfl
    exact .bind (bookkeeping_openObligation _ _ _ _ _ _ _) fun _ => .pure _
  · exact .bind (bookkeeping_book _ _ _ _ _) fun _ => .pure _

end Cascade

theorem offBooks_modContract (s : State) (id : ContractId) (f : Contract → Contract) :
    OffBooks s (s.modContract id f) := rfl

/-- Shaving the claims of a debtor's holds writes contracts only. -/
theorem offBooks_shaveDebtor (s : State) (debtor : MemberId) (ids : List ContractId) :
    OffBooks s (s.shaveDebtor debtor ids) := by
  unfold State.shaveDebtor
  extract_lets holds arcs sources claimed deliverable excess claims shaved written
  split
  · rfl
  split
  · rfl
  · have hclaims : OffBooks s written := by
      refine OffBooks.foldl shaved s fun s cl => ?_
      exact offBooks_modContract s _ _
    refine IsTrans.trans _ _ _ hclaims ?_
    refine OffBooks.foldl ids written fun s id => ?_
    exact offBooks_modContract s _ _

theorem offBooks_shave (s : State) : OffBooks s s.shaveHoldsToWhatTheArcsDeliver := by
  unfold State.shaveHoldsToWhatTheArcsDeliver
  exact OffBooks.foldl s.insuredByDebtor.toList s fun s p => offBooks_shaveDebtor s p.1 p.2

end Edet
