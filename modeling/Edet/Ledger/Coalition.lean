import Edet.Kernel.Cut
import Edet.Ledger.Rows

/-!
# What a coalition can do for its own credit

A settlement writes one stake, the creditor's on the debtor. Where the creditors of all that
is settled are in a set `S`, the stakes that are written leave `S`, and a flow into `S` needs
none of them: the flow from the underwriters outside is what it was
(`coalition_of_trades`).

The stake is also no larger than what its creditor may confer. A member of a set that has no
underwriter and that no arc enters may confer nothing, so that such a set writes no stake at
all however it trades, and stays without capacity (`barren_of_barren`).
-/

namespace Edet

open Edet.Flow

namespace State

/-- The stakes and the supplies, with nothing reserved or committed. -/
noncomputable def grossNetwork (s : State) : NetworkFlow.Network MemberId :=
  ⟨listFlow s.edges.toList, listFlow s.underwriters.toList⟩

/-- The set has no underwriter, and no stake enters it. -/
structure Barren (S : Set MemberId) (s : State) : Prop where
  dry : ∀ p ∈ s.uw, p.1 ∉ S
  closed : ∀ a b : MemberId, a ∉ S → b ∈ S → OrdMap.getD' s.edges (a, b) 0 = 0

namespace Barren

variable {S : Set MemberId} {s : State}

theorem capacityRawMinor_eq_zero (h : s.Barren S) {id : MemberId} (hid : id ∈ S) :
    s.capacityRawMinor id = 0 :=
  capacityInner_eq_zero (OrdMap.nodup_keys _) h.dry h.closed hid _ _

theorem conferrableMinor_eq_zero (h : s.Barren S) {id : MemberId} (hid : id ∈ S) :
    s.conferrableMinor id = 0 :=
  conferrable_eq_zero (OrdMap.nodup_keys _) h.dry h.closed hid

end Barren

end State

/-- Members of `S` may have staked on others, unless `S` is barren. -/
structure Traded (S : Set MemberId) (s s' : State) : Prop where
  underwriters : s'.underwriters = s.underwriters
  edges : ∀ a b : MemberId, a ∉ S → OrdMap.getD' s'.edges (a, b) 0 = OrdMap.getD' s.edges (a, b) 0
  barren : s.Barren S → s'.edges = s.edges

namespace Traded

variable {S : Set MemberId} {s s' : State}

theorem of_eq (hunderwriters : s'.underwriters = s.underwriters) (hedges : s'.edges = s.edges) :
    Traded S s s' :=
  ⟨hunderwriters, fun a b _ => by rw [hedges], fun _ => hedges⟩

instance : Std.Refl (Traded S) := ⟨fun _ => .of_eq rfl rfl⟩

theorem of_rowsAlone (h : RowsAlone s s') : Traded S s s' := .of_eq h.underwriters h.edges

theorem barren_of_barren (h : Traded S s s') (hs : s.Barren S) : s'.Barren S where
  dry := by
    rw [State.uw, h.underwriters]
    exact hs.dry
  closed a b ha hb := (h.edges a b ha).trans (hs.closed a b ha hb)

instance : IsTrans State (Traded S) :=
  ⟨fun _ _ _ h h' => ⟨h'.underwriters.trans h.underwriters,
    fun a b ha => (h'.edges a b ha).trans (h.edges a b ha),
    fun hs => (h'.barren (h.barren_of_barren hs)).trans (h.barren hs)⟩⟩

/-- The flow into the set is what it was. -/
theorem maxFlow_eq (h : Traded S s s') : s'.grossNetwork.maxFlow S = s.grossNetwork.maxFlow S := by
  refine NetworkFlow.Network.maxFlow_congr ?_ fun a ha => ?_
  · show listFlow s'.underwriters.toList = listFlow s.underwriters.toList
    rw [h.underwriters]
  · show listFlow s'.edges.toList a = listFlow s.edges.toList a
    rw [listFlow_apply, listFlow_apply, amountAt_toList, amountAt_toList]
    exact h.edges a.1 a.2 ha

end Traded

namespace Apply

variable {S : Set MemberId}

theorem traded_memberMut (id : MemberId) (f : Member → Member) :
    Op.Moves (Traded S) (memberMut id f) := by
  unfold memberMut
  exact .bind (.check _) fun _ => .write fun _ => .of_eq rfl rfl

theorem traded_contractMut (id : ContractId) (f : Contract → Contract) :
    Op.Moves (Traded S) (contractMut id f) := by
  unfold contractMut
  exact .bind (.check _) fun _ => .write fun _ => .of_eq rfl rfl

theorem traded_seatPair (first second : Resolved) (sponsor : Option MemberId) :
    Op.Moves (Traded S) (seatPair first second sponsor) :=
  moves_seatPair (fun _ _ _ => .of_eq rfl rfl) (fun _ _ => .of_eq rfl rfl)
    (fun _ _ _ => .of_eq rfl rfl) _ _ _

theorem traded_reserveCapacityMinor (debtor : MemberId) (want : Nat) (s : State) :
    Traded S s (s.reserveCapacityMinor debtor want).2 := by
  unfold State.reserveCapacityMinor
  dsimp only
  split <;> exact .of_eq rfl rfl

theorem traded_reserveIf (allowed : Bool) (debtor : MemberId) (amount : Nat) :
    Op.Moves (Traded S) (reserveIf allowed debtor amount) := by
  unfold reserveIf
  exact .ite (fun _ => .draw fun s => traded_reserveCapacityMinor debtor amount s) fun _ => .pure _

theorem traded_book (debtor creditor : MemberId) (amount maturityEpoch : Nat)
    (arb : Option ArbTerms) :
    Op.Moves (Traded S) (book debtor creditor amount maturityEpoch arb) := by
  unfold book openObligation
  refine .bind (.check _) fun _ => .bind (.ask _) fun _ => .bind (traded_reserveIf _ _ _) fun _ =>
    .bind (.ask _) fun _ => .bind (.check _) fun _ => .bind (.ask _) fun _ =>
    .bind (.write fun _ => .of_eq rfl rfl) fun _ => .bind (traded_memberMut _ _) fun _ => .pure _

theorem traded_accept (debtor creditor : Party) (amount : F64) (maturityEpochs : Nat)
    (arb : Option ArbTermsWire) (signers : List Key) (sponsor : Option MemberId) :
    Op.Moves (Traded S) (accept debtor creditor amount maturityEpochs arb signers sponsor) := by
  unfold accept
  exact .bind (quiet_acceptTerms _ _ _ _ _ _).moves fun _ => .bind (traded_seatPair _ _ _) fun _ =>
    .bind (traded_book _ _ _ _ _) fun _ => .pure _

/-! ### Settlements -/

theorem traded_rehold (id : ContractId) : Op.Moves (Traded S) (rehold id) := by
  unfold rehold
  refine .bind (.check _) fun c => .ite (fun _ => .pure _) fun _ => .ite (fun _ => ?_) fun _ => ?_
  · refine .ite (fun _ => .pure _) fun _ => ?_
    exact .bind (.write fun _ => .of_eq rfl rfl) fun _ => traded_contractMut _ _
  · refine .bind (.ask _) fun _ => .ite (fun _ => ?_) fun _ => .pure _
    refine .bind (.draw fun s => traded_reserveCapacityMinor _ _ s) fun held => ?_
    cases held with
    | some h => exact traded_contractMut _ _
    | none => exact traded_contractMut _ _

/-- A creditor in the set stakes what it may confer, and what it stakes leaves the set or
stays inside. -/
theorem traded_dischargeCredit {creditor : MemberId} (hcreditor : creditor ∈ S)
    (debtor : MemberId) (amount : Nat) (s : State) :
    Traded S s (dischargeCredit debtor creditor amount s) := by
  unfold dischargeCredit State.recordStake
  split
  · exact Std.Refl.refl s
  refine ⟨rfl, fun a b ha => ?_, fun hs => ?_⟩
  · dsimp only
    unfold stake
    split
    · rfl
    dsimp only
    split
    · rfl
    · have hne : compare (creditor, debtor) (a, b) ≠ .eq := fun h => by
        obtain ⟨rfl, rfl⟩ := Prod.mk.inj (Std.LawfulEqCmp.compare_eq_iff_eq.1 h)
        exact ha hcreditor
      rw [OrdMap.getD'_insert, if_neg hne]
  · dsimp only
    rw [hs.conferrableMinor_eq_zero hcreditor]
    unfold stake
    simp

theorem traded_repay {c : Contract} (hcreditor : c.creditor ∈ S) (id : ContractId)
    (amount : Nat) (closed : ContractStatus) (cured : Bool) :
    Op.Moves (Traded S) (repay id c amount closed cured) := by
  unfold repay
  exact .bind (.ask _) fun _ => .bind (traded_contractMut _ _) fun _ =>
    .bind (traded_rehold _) fun _ =>
    .bind (.write fun s => traded_dischargeCredit hcreditor _ _ s) fun _ => traded_memberMut _ _

/-- A repayment of a contract that is owed to a member of the set. -/
theorem traded_repayment {s : State} {id : ContractId}
    (howed : ∀ c, s.contracts[id]? = some c → c.creditor ∈ S) (status closed : ContractStatus)
    (cured : Bool) (amount : F64) (signers : List Key) :
    Traded S s (Op.exec (repayment status closed cured id amount signers) s).2 := by
  unfold repayment contract
  rw [Op.exec_bind, Op.exec_check]
  cases hc : findContract s id with
  | error e => exact Std.Refl.refl s
  | ok c =>
    have hcreditor : c.creditor ∈ S := howed c (findContract_eq_ok.1 hc)
    dsimp only
    refine Op.Moves.bind (.refuseIf _ _) (fun _ => .bind (.check _) fun _ => .bind (.check _) fun _ =>
      .bind (.refuseIf _ _) fun _ => .bind (.refuseIf _ _) fun _ => ?_) s
    exact traded_repay hcreditor _ _ _ _

/-! ### Trading -/

/-- The transaction opens an obligation, or pays one that is owed to a member of the set. -/
def Trades (S : Set MemberId) (s : State) : Tx → Prop
  | .accept _ _ _ _ _ => True
  | .settle id _ | .cure id _ => ∀ c, s.contracts[id]? = some c → c.creditor ∈ S
  | _ => False

section Apply

variable [Libm]

theorem traded_dispatch {s : State} {tx : Tx} (h : Trades S s tx) (signers : List Key)
    (sponsor : Option MemberId) : Traded S s (Op.exec (dispatch tx signers sponsor) s).2 := by
  cases tx with
  | accept => exact traded_accept _ _ _ _ _ _ _ s
  | settle id amount => exact traded_repayment h _ _ _ _ _
  | cure id amount => exact traded_repayment h _ _ _ _ _
  | _ => exact h.elim

omit [Libm] in
theorem traded_settleOutcome (tx : Tx) (txId : TxId) (notAfterEpoch : Nat) (signers : List Key)
    (charged : Charged) (outcome : Res Unit) (s : State) :
    Traded S s (settleOutcome tx txId notAfterEpoch signers charged outcome s) := by
  refine settleOutcome_moves (fun s _ _ => ?_) (fun s charged => ?_) (fun s _ _ => ?_) tx txId
    notAfterEpoch signers charged outcome s
  · unfold State.forgetApplied
    split <;> exact .of_eq rfl rfl
  · cases charged <;> exact .of_eq rfl rfl
  · unfold priceRefusal
    dsimp only
    split
    · exact .of_eq rfl rfl
    · split <;> exact .of_eq rfl rfl

end Apply

end Apply

/-- A trade, in a block that brings no new epoch. -/
def Event.Trades (S : Set MemberId) : Event → State → Prop
  | .block nowSecs, s => s.targetEpoch nowSecs ≤ s.epoch
  | .transaction tx _ _ _ nowSecs, s => s.targetEpoch nowSecs ≤ s.epoch ∧ Apply.Trades S s tx

section Run

variable [Libm] {S : Set MemberId}

theorem traded_next {e : Event} {s : State} (h : e.Trades S s) : Traded S s (e.next s) := by
  have hbegin : ∀ nowSecs, s.targetEpoch nowSecs ≤ s.epoch →
      Traded S s (s.beginBlock nowSecs) ∧ (s.beginBlock nowSecs).contracts = s.contracts := by
    intro nowSecs hquiet
    unfold State.beginBlock
    split
    · exact ⟨Std.Refl.refl s, rfl⟩
    · have hstays : ¬s.epoch < State.targetEpoch { s with lastBeginSecs := nowSecs } nowSecs :=
        Nat.not_lt.2 hquiet
      dsimp only
      rw [if_neg hstays]
      exact ⟨.of_eq rfl rfl, rfl⟩
  cases e with
  | block nowSecs => exact (hbegin nowSecs h).1
  | transaction tx txId notAfterEpoch signers nowSecs =>
    obtain ⟨hquiet, htrades⟩ := h
    obtain ⟨hopened, hcontracts⟩ := hbegin nowSecs hquiet
    have hgated := Apply.rowsAlone_bondGate tx signers (s.beginBlock nowSecs)
    show Traded S s (Op.exec (Apply.apply tx txId notAfterEpoch signers nowSecs) s).2
    rcases Apply.exec_apply_cases tx txId notAfterEpoch signers nowSecs s with
      ⟨e, -, hrun⟩ | ⟨-, e, t, hgate, hrun⟩ |
      ⟨-, charged, sponsor, t, outcome, u, hgate, hdispatch, hrun⟩
    all_goals rw [hrun]
    · exact hopened
    · rw [hgate] at hgated
      exact IsTrans.trans _ _ _ hopened (.of_rowsAlone hgated)
    · rw [hgate] at hgated
      have hsame : (t.recordApplied txId notAfterEpoch).contracts = s.contracts :=
        hgated.contracts.trans hcontracts
      have htrades' : Apply.Trades S (t.recordApplied txId notAfterEpoch) tx := by
        unfold Apply.Trades at htrades ⊢
        rwa [hsame]
      have hdispatched := Apply.traded_dispatch htrades' signers sponsor
      rw [hdispatch] at hdispatched
      have hrecorded : Traded S t (t.recordApplied txId notAfterEpoch) := .of_eq rfl rfl
      calc Traded S s (s.beginBlock nowSecs) := hopened
        Traded S _ t := .of_rowsAlone hgated
        Traded S _ (t.recordApplied txId notAfterEpoch) := hrecorded
        Traded S _ u := hdispatched
        Traded S _ _ := Apply.traded_settleOutcome _ _ _ _ _ _ _

/-- **A coalition cannot raise its own credit.** However members trade with creditors in
`S`, the flow into `S` stays what it was; and where `S` has no underwriter and no stake
enters it, its members write no stake at all and their capacity stays zero. -/
theorem coalition_of_trades {s s' : State}
    (hrun : Reaches Event.next (· = s) (Event.Trades S) s') :
    s'.grossNetwork.maxFlow S = s.grossNetwork.maxFlow S ∧
      (s.Barren S → s'.edges = s.edges ∧
        ∀ id ∈ S, s'.capacityRawMinor id = 0 ∧ s'.conferrableMinor id = 0) := by
  have htraded : Traded S s s' :=
    hrun.invariant (I := Traded S s) (fun t (ht : t = s) => ht ▸ Std.Refl.refl t)
      fun _ _ h he => IsTrans.trans _ _ _ h (traded_next he)
  refine ⟨htraded.maxFlow_eq, fun hs => ⟨htraded.barren hs, fun id hid => ?_⟩⟩
  have hs' : s'.Barren S := htraded.barren_of_barren hs
  exact ⟨hs'.capacityRawMinor_eq_zero hid, hs'.conferrableMinor_eq_zero hid⟩

end Run

/-- The second founder owes the first ten units, and pays them. -/
def paidEvents : List Event :=
  [.transaction (.accept (.member 1) (.member 0) (F64.ofNat 10) 30 none) 0 0
      [founderKey 0, founderKey 1] 10,
    .transaction (.settle 0 (F64.ofNat 10)) 1 0 [founderKey 0, founderKey 1] 10]

/-- A trade within the first founder's reach: it stakes ten units on the second, and no more
flows to it than before. -/
theorem coalition_of_one :
    letI := Libm.unused
    let s := (devGenesis [1000, 1000]).state
    let s' := paidEvents.foldl (fun s e => e.next s) s
    OrdMap.getD' s'.edges ((0, 1) : MemberId × MemberId) 0 = 1000 ∧
      s'.grossNetwork.maxFlow {0} = s.grossNetwork.maxFlow {0} := by
  let _ : Libm := Libm.unused
  have hpaid : Reaches Event.next (· = (devGenesis [1000, 1000]).state) (Event.Trades {0})
      (paidEvents.foldl (fun s e => e.next s) (devGenesis [1000, 1000]).state) := by
    have hstart : Reaches Event.next (· = (devGenesis [1000, 1000]).state) (Event.Trades {0})
        (devGenesis [1000, 1000]).state := .start rfl
    refine .of_list hstart _ ?_
    refine ⟨⟨by decide +kernel, trivial⟩, ⟨by decide +kernel, fun c hc => ?_⟩, trivial⟩
    have howed : (((Event.transaction (.accept (.member 1) (.member 0) (F64.ofNat 10) 30 none) 0 0
        [founderKey 0, founderKey 1] 10).next
          (devGenesis [1000, 1000]).state).contracts[0]?).map Contract.creditor = some 0 := by
      decide +kernel
    rw [hc] at howed
    exact Option.some.inj howed
  exact ⟨by decide +kernel, (coalition_of_trades hpaid).1⟩

end Edet
