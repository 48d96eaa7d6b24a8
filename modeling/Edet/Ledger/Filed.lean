import Edet.Ledger.Rows

/-!
# Rows are filed under their ids

Every row of a ledger names the id it is filed under (`State.Filed`), in every run
(`filed_run`). No step writes the id of a row that is there, so `RowsLeft Member.id` is all that
is needed of most steps, and a new row is opened under the id it names (`KeepsFiled.newAccount`).
-/

namespace Edet

/-- A row names the id it is filed under. -/
def State.Filed (s : State) : Prop :=
  ∀ (id : MemberId) (m : Member), s.members[id]? = some m → m.id = id

/-- Where each row was filed under its own id, each still is. -/
def KeepsFiled (s s' : State) : Prop := s.Filed → s'.Filed

instance : Std.Refl KeepsFiled := ⟨fun _ => id⟩

instance : IsTrans State KeepsFiled := ⟨fun _ _ _ h h' hs => h' (h hs)⟩

namespace KeepsFiled

/-- A row that is left keeps its id, so the rows that are left are filed as they were. -/
theorem of_rowsLeft {s s' : State} (h : RowsLeft Member.id s s') : KeepsFiled s s' := by
  intro hs id m' hm'
  obtain ⟨m, hm, hid⟩ := h.rows id m' hm'
  exact hid.trans (hs id m hm)

/-- The ids alone decide it. -/
theorem of_view {s s' : State} (h : SameView Member.id s s') : KeepsFiled s s' := .of_rowsLeft h.rowsLeft

/-- A new row is filed under the id it is given. -/
theorem newAccount (s : State) (keys : List Key) : KeepsFiled s (s.newAccount keys).2 := by
  intro hs id m hm
  simp only [State.newAccount, Std.ExtTreeMap.getElem?_insert, Std.LawfulEqCmp.compare_eq_iff_eq] at hm
  split at hm
  · next hid => exact Option.some.inj hm ▸ hid
  · exact hs id m hm

end KeepsFiled

/-- A write to the books of a row leaves its id. -/
theorem ignoresBooks_id : IgnoresBooks Member.id := ⟨fun _ => rfl, fun _ _ _ _ => rfl⟩

/-- So does a charge. -/
theorem ignoresCharges_id : IgnoresCharges Member.id := ⟨fun _ _ _ _ _ _ => rfl⟩

/-- No transaction rewrites an id. -/
theorem untouched_id (tx : Tx) : Untouched Member.id tx := by
  cases tx <;> simp [Untouched, State.rescaleMember]

namespace Apply

/-- A transition after which rows are filed under their ids still. -/
abbrev FilesRows {α : Type} (op : Tr α) : Prop := Op.Moves KeepsFiled op

/-- An operation that leaves every id keeps the rows filed. -/
theorem FilesRows.of_view {α : Type} {op : Tr α} (h : KeepsView Member.id op) : FilesRows op :=
  fun s => .of_view (h s)

theorem FilesRows.of_bookkeeping {α : Type} {op : Tr α} (h : Bookkeeping op) : FilesRows op :=
  .of_view (.of_bookkeeping (fun _ => rfl) h)

/-- The parties of a trade are filed as they are seated. -/
theorem filesRows_seatPair (first second : Resolved) (sponsor : Option MemberId) :
    FilesRows (seatPair first second sponsor) :=
  moves_seatPair (fun _ _ _ => .of_view (.of_eq rfl rfl)) (fun s k => .newAccount s [k])
    (fun s id x => .of_view (.modMember
      (f := fun m => { m with seat := x, seatSlot := true }) (fun _ => rfl) s id)) _ _ _

/-- A pledge seats two parties, and no more rows are new. -/
theorem filesRows_accept (debtor creditor : Party) (amount : F64) (maturityEpochs : Nat)
    (arb : Option ArbTermsWire) (signers : List Key) (sponsor : Option MemberId) :
    FilesRows (accept debtor creditor amount maturityEpochs arb signers sponsor) := by
  unfold accept
  exact .bind (quiet_acceptTerms _ _ _ _ _ _).moves fun _ => .bind (filesRows_seatPair _ _ _) fun _ =>
    .bind (FilesRows.of_bookkeeping (bookkeeping_book _ _ _ _ _)) fun _ => .pure _

/-- A sale seats its parties as a pledge does. -/
theorem filesRows_sale (seller buyer : Party) (amount : F64) (maturityEpochs : Nat)
    (signers : List Key) (sponsor : Option MemberId) :
    FilesRows (Cascade.sale seller buyer amount maturityEpochs signers sponsor) := by
  unfold Cascade.sale
  exact .bind (quiet_saleTerms _ _ _ _ _).moves fun _ => .bind (filesRows_seatPair _ _ _) fun _ =>
    .bind (FilesRows.of_bookkeeping (bookkeeping_netMutual _ _ _)) fun _ => .ite (fun _ => .pure _) fun _ =>
    .bind (.ask _) fun _ => FilesRows.of_bookkeeping (Cascade.bookkeeping_originate _ _ _ _)

/-- Only trades seat anyone; the other transactions leave every id. -/
theorem filesRows_dispatch [Libm] (tx : Tx) (signers : List Key) (sponsor : Option MemberId) :
    FilesRows (dispatch tx signers sponsor) := by
  have htx := untouched_id tx
  have hbooks := ignoresBooks_id
  cases tx with
  | registerGuardians => exact FilesRows.of_view (keepsView_registerGuardians _ _ _ _ _ htx)
  | rotateRequest => exact FilesRows.of_view (keepsView_rotateRequest _ _ _ htx)
  | rotateVeto => exact FilesRows.of_view (keepsView_rotateVeto _ _ htx)
  | rotateFinalize => exact FilesRows.of_view (keepsView_rotateFinalize _ htx)
  | setConsensusKey => exact FilesRows.of_view (keepsView_setConsensusKey _ _ _ htx)
  | declareSupply => exact FilesRows.of_view (keepsView_declareSupply _ _ _)
  | accept => exact filesRows_accept _ _ _ _ _ _ _
  | transfer => exact FilesRows.of_bookkeeping (bookkeeping_transfer _ _ _)
  | settle => exact FilesRows.of_bookkeeping (bookkeeping_repayment _ _ _ _ _ _)
  | extend => exact FilesRows.of_bookkeeping (bookkeeping_extend _ _ _)
  | markExpired => exact FilesRows.of_bookkeeping (bookkeeping_markExpired _)
  | cure => exact FilesRows.of_bookkeeping (bookkeeping_repayment _ _ _ _ _ _)
  | listBeneficiaries => exact FilesRows.of_view (keepsView_listBeneficiaries hbooks _ _ _)
  | approveSupporter => exact FilesRows.of_view (keepsView_approveSupporter hbooks _ _ _ _)
  | sale => exact filesRows_sale _ _ _ _ _ _
  | arbAttest => exact FilesRows.of_bookkeeping (bookkeeping_arbAttest _ _ _ _)
  | exit => exact FilesRows.of_view (keepsView_exit hbooks _ _ htx)
  | propose => exact FilesRows.of_view (keepsView_propose _ _ _)
  | assent => exact FilesRows.of_view (keepsView_assent hbooks.books _ _ _ htx)
  | forfeitBonds => exact FilesRows.of_view (keepsView_forfeitBonds _ htx)

end Apply

/-! ### Runs -/

/-- A genesis files its members in turn. -/
theorem filed_of_founding {s : State} (h : Founding s) : s.Filed := by
  obtain ⟨g, hg⟩ := h
  refine genesisState_keeps ?_ (fun _ _ _ _ hs hseat => seatEntry_moves (R := KeepsFiled)
    (fun s keys => .newAccount s keys) (fun _ _ => .of_view (.of_eq rfl rfl))
    (fun s id k => .of_view
      (.modMember (f := fun m => { m with consensusKey := k }) (fun _ => rfl) s id))
    (fun _ _ => .of_view (.of_eq rfl rfl)) hseat hs) hg
  intro _ _ _ id m hm
  simp at hm

section Events

variable [Libm]

/-- **An event keeps the rows filed.** -/
theorem filed_next (e : Event) {s : State} (hs : s.Filed) : (e.next s).Filed := by
  have hbegin : ∀ nowSecs, KeepsFiled s (s.beginBlock nowSecs) := fun nowSecs =>
    .of_rowsLeft (rowsLeft_beginBlock ignoresBooks_id ignoresCharges_id nowSecs s)
  cases e with
  | block nowSecs => exact hbegin nowSecs hs
  | transaction tx txId expiry signers nowSecs =>
    have hgate := Apply.keepsView_bondGate ignoresCharges_id tx signers (s.beginBlock nowSecs)
    rcases Apply.exec_apply_cases tx txId expiry signers nowSecs s with
      ⟨e, -, hexec⟩ | ⟨-, e, t, ht, hexec⟩ | ⟨-, charged, sponsor, t, outcome, u, ht, hu, hexec⟩
    · rw [Event.next, hexec]
      exact hbegin nowSecs hs
    · rw [ht] at hgate
      rw [Event.next, hexec]
      exact KeepsFiled.of_view hgate (hbegin nowSecs hs)
    · rw [ht] at hgate
      have hrecorded : KeepsFiled t (t.recordApplied txId expiry) := .of_view (.of_eq rfl rfl)
      have hdispatch := Apply.filesRows_dispatch tx signers sponsor (t.recordApplied txId expiry)
      rw [hu] at hdispatch
      have hsettled : KeepsFiled u (Apply.settleOutcome tx txId expiry signers charged outcome u) :=
        .of_view (Apply.sameView_settleOutcome ignoresCharges_id tx txId expiry signers charged
          outcome u)
      rw [Event.next, hexec]
      exact hsettled (hdispatch (hrecorded (KeepsFiled.of_view hgate (hbegin nowSecs hs))))

/-- Rows are filed under their ids in every run. -/
theorem filed_run {s : State} (h : Founding s) (es : List Event) :
    (es.foldl (fun s e => e.next s) s).Filed := by
  have hs := filed_of_founding h
  clear h
  induction es generalizing s with
  | nil => exact hs
  | cons e es ih => exact ih (filed_next e hs)

end Events

end Edet
