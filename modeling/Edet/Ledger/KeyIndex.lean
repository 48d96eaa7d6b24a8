import Edet.Ledger.Keys
import Edet.Ledger.Replay
import Edet.Ledger.Rows

/-!
# The key index

A key in the index is held by the row it leads to (`State.KeysHeld`), in every run
(`keysHeld_run`). Keys enter the index with a fresh row and with a rotation that is carried out,
and leave it with the row that held them; no other step writes the index or a row's keys
(`Holds.of_sameKeys`, `Holds.of_view`).
-/

namespace Edet

/-- Ids are issued, and a key in the index is held by the row it leads to. -/
structure State.KeysHeld (s : State) : Prop where
  issued : s.Issued
  held : ∀ (k : Key) (id : MemberId), s.keyIndex[k]? = some id →
    ∃ m, s.members[id]? = some m ∧ k ∈ m.keys

/-- The index stays one of keys held. -/
def Holds (s s' : State) : Prop := s.KeysHeld → s'.KeysHeld

instance : Std.Refl Holds := ⟨fun _ => id⟩

instance : IsTrans State Holds := ⟨fun _ _ _ h h' hs => h' (h hs)⟩

namespace Holds

theorem refl (s : State) : Holds s s := id

theorem trans {s s' s'' : State} (h : Holds s s') (h' : Holds s' s'') : Holds s s'' :=
  fun hs => h' (h hs)

/-- The index and the keys of every row stay. -/
theorem of_view {s s' : State} (h : SameView Member.keys s s') (hindex : s'.keyIndex = s.keyIndex) :
    Holds s s' := by
  intro hs
  refine ⟨h.rowsLeft.issued hs.issued, fun k id hk => ?_⟩
  obtain ⟨m, hm, hmem⟩ := hs.held k id (hindex ▸ hk)
  have hrow := h.rows id
  rw [hm, Option.map_some, Option.map_eq_some_iff] at hrow
  obtain ⟨m', hm', hkeys⟩ := hrow
  exact ⟨m', hm', hkeys ▸ hmem⟩

theorem of_sameKeys {s s' : State} (h : SameKeys s s') : Holds s s' := by
  refine of_view ⟨congrArg KeyBook.next h, fun id => ?_⟩ (congrArg KeyBook.index h)
  have hrow : (s'.members[id]?).map Member.keyRow = (s.members[id]?).map Member.keyRow := by
    rw [← State.keyBook_rows, ← State.keyBook_rows, show s'.keyBook = s.keyBook from h]
  have hkeys := congrArg (Option.map KeyRow.keys) hrow
  rw [Option.map_map, Option.map_map] at hkeys
  exact hkeys

theorem foldl {β : Type} {f : State → β → State} (h : ∀ s x, Holds s (f s x)) (l : List β)
    (s : State) : Holds s (l.foldl f s) := Op.Moves.foldl h l s

/-- A fresh row is indexed by its own keys. -/
theorem newAccount (s : State) (keys : List Key) : Holds s (s.newAccount keys).2 := by
  intro hs
  have hget : ∀ id : MemberId, (s.newAccount keys).2.members[id]? =
      if s.nextMember = id then some { id := s.nextMember, keys, joinedEpoch := s.epoch }
      else s.members[id]? := by
    intro id
    simp only [State.newAccount, Std.ExtTreeMap.getElem?_insert, Std.LawfulEqCmp.compare_eq_iff_eq]
  refine ⟨fun id hid => ?_, fun k id hk => ?_⟩
  · have hlt : s.nextMember < id := hid
    rw [hget, if_neg (Nat.ne_of_lt hlt)]
    exact hs.issued id (Nat.le_of_lt hlt)
  · have hk : (keys.foldl (fun m k => m.insert k s.nextMember) s.keyIndex)[k]? = some id := hk
    rw [OrdMap.getElem?_foldl_insert] at hk
    split at hk
    · next hmem =>
      obtain rfl : s.nextMember = id := Option.some.inj hk
      exact ⟨_, by rw [hget, if_pos rfl], hmem⟩
    · obtain ⟨m, hm, hmem⟩ := hs.held k id hk
      have hne : s.nextMember ≠ id := by
        rintro rfl
        rw [hs.issued _ le_rfl] at hm
        cases hm
      exact ⟨m, by rw [hget, if_neg hne]; exact hm, hmem⟩

end Holds

namespace Apply

/-- A transition that keeps the index one of keys held. -/
abbrev KeepsIndex {α : Type} (op : Tr α) : Prop := Op.Moves Holds op

theorem KeepsIndex.of_keys {α : Type} {op : Tr α} (h : KeepsKeys op) : KeepsIndex op :=
  fun s => .of_sameKeys (h s)

theorem KeepsIndex.of_bookkeeping {α : Type} {op : Tr α} (h : Bookkeeping op) : KeepsIndex op :=
  .of_keys (.of_bookkeeping h)

/-- A write that leaves the row its keys. -/
theorem holds_memberMut {id : MemberId} {f : Member → Member} (hf : ∀ m, (f m).keys = m.keys) :
    KeepsIndex (memberMut id f) := by
  unfold memberMut
  exact .bind (.check _) fun _ => .write fun s => .of_view (.modMember hf s id) rfl

/-! ### Guardians and rotations -/

theorem holds_registerGuardians (id : MemberId) (guardians : List MemberId)
    (threshold vetoWindowEpochs : Nat) (signers : List Key) :
    KeepsIndex (registerGuardians id guardians threshold vetoWindowEpochs signers) := by
  unfold registerGuardians
  refine .bind (.check _) fun _ => .bind (.refuseIf _ _) fun _ => .bind (.refuseIf _ _) fun _ =>
    .bind (.forM fun g _ => ?_) fun _ => holds_memberMut fun _ => rfl
  exact .bind (.check _) fun _ => .refuseIf _ _

theorem holds_rotateRequest (id : MemberId) (newKeys : List Key) (signers : List Key) :
    KeepsIndex (rotateRequest id newKeys signers) := by
  unfold rotateRequest
  refine .bind (.check _) fun m => ?_
  cases m.guardian with
  | none => exact .refuse _
  | some cfg =>
    exact .bind (.refuseIf _ _) fun _ => .bind (.ask _) fun _ => .bind (.refuseIf _ _) fun _ =>
      .bind (.ask _) fun _ => .bind (.refuseIf _ _) fun _ => .bind (.ask _) fun _ =>
      holds_memberMut fun _ => rfl

theorem holds_rotateVeto (id : MemberId) (signers : List Key) :
    KeepsIndex (rotateVeto id signers) := by
  unfold rotateVeto
  exact .bind (.check _) fun _ => .bind (.check _) fun _ => .bind (.refuseIf _ _) fun _ =>
    holds_memberMut fun _ => rfl

theorem holds_setConsensusKey (id : MemberId) (key : Option Key) (signers : List Key) :
    KeepsIndex (setConsensusKey id key signers) := by
  unfold setConsensusKey
  refine .bind (.check _) fun _ => .bind (.check _) fun _ => ?_
  cases key with
  | some k =>
    exact .bind (.ask _) fun _ => .bind (.refuseIf _ _) fun _ => .bind (.ask _) fun _ =>
      .bind (.refuseIf _ _) fun _ => holds_memberMut fun _ => rfl
  | none =>
    exact .bind (.ask _) fun _ => .bind (.refuseIf _ _) fun _ => holds_memberMut fun _ => rfl

/-- A rotation indexes the new keys of a row in place of its old ones. -/
theorem holds_reindex {s : State} {id : MemberId} {m : Member} (hm : s.members[id]? = some m)
    (newKeys : List Key) :
    Holds s ((reindex id m.keys newKeys s).modMember id fun m =>
      { m with keys := newKeys, pendingRotation := none }) := by
  intro hs
  have hget : ∀ a : MemberId, ((reindex id m.keys newKeys s).modMember id fun m =>
      { m with keys := newKeys, pendingRotation := none }).members[a]? = (s.members[a]?).map
        fun m => if id = a then { m with keys := newKeys, pendingRotation := none } else m :=
    fun a => OrdMap.getElem?_modify_map _ _ _ _
  refine ⟨fun a ha => ?_, fun k a hk => ?_⟩
  · rw [hget, hs.issued a ha, Option.map_none]
  · have hk : (newKeys.foldl (fun m k => m.insert k id)
        (m.keys.foldl (fun m k => m.erase k) s.keyIndex))[k]? = some a := hk
    rw [OrdMap.getElem?_foldl_insert, OrdMap.getElem?_foldl_erase] at hk
    split at hk
    · next hmem =>
      obtain rfl : id = a := Option.some.inj hk
      exact ⟨_, by rw [hget, hm, Option.map_some, if_pos rfl], hmem⟩
    split at hk
    · cases hk
    next hold =>
      obtain ⟨m', hm', hmem⟩ := hs.held k a hk
      have hne : id ≠ a := by
        rintro rfl
        exact hold (Option.some.inj (hm.symm.trans hm') ▸ hmem)
      exact ⟨m', by rw [hget, hm', Option.map_some, if_neg hne], hmem⟩

theorem holds_rotateFinalize (id : MemberId) : KeepsIndex (rotateFinalize id) := by
  intro s
  unfold rotateFinalize
  cases hm : findMember s id with
  | error e =>
    rw [Op.exec_bind_error (by rw [member, Op.exec_check, hm])]
    exact .refl s
  | ok m =>
    rw [Op.exec_bind_ok (by rw [member, Op.exec_check, hm])]
    cases m.guardian with
    | none => exact .refl s
    | some cfg =>
      cases m.pendingRotation with
      | none => exact .refl s
      | some p =>
        dsimp only
        rw [Op.exec_bind_ok (Op.exec_ask _ _), Op.exec_bind, Op.exec_refuseIf]
        split
        · next heq =>
          split at heq
          · cases heq
          · obtain ⟨-, rfl⟩ := Prod.mk.inj heq
            have hfind : findMember (reindex id m.keys p.newKeys s) id = .ok m :=
              findMember_eq_ok.2 (findMember_eq_ok.1 hm)
            rw [Op.exec_bind_ok (Op.exec_write _ _), memberMut, member,
              Op.exec_bind_ok (by rw [Op.exec_check, hfind]), Op.exec_write]
            exact holds_reindex (findMember_eq_ok.1 hm) p.newKeys
        · next heq =>
          split at heq
          · obtain ⟨-, rfl⟩ := Prod.mk.inj heq
            exact .refl s
          · cases heq

/-! ### Parties -/

theorem holds_seatPair (first second : Resolved) (sponsor : Option MemberId) :
    KeepsIndex (seatPair first second sponsor) := by
  have hreserve : ∀ (sponsor : MemberId) (s : State), Holds s (s.reserveSeat sponsor).2 := by
    intro sponsor s
    unfold State.reserveSeat
    dsimp only
    split <;> exact .of_view (.of_eq rfl rfl) rfl
  have hseats : ∀ parties held, KeepsIndex (reserveSeats sponsor parties held) := by
    intro parties
    induction parties with
    | nil => exact fun _ => .pure _
    | cons party parties ih =>
      intro held
      cases party with
      | existing id => exact ih held
      | fresh k =>
        unfold reserveSeats
        cases sponsor with
        | none => exact .refuse _
        | some sponsor =>
          refine .bind (.draw fun s => hreserve sponsor s) fun got => ?_
          cases got with
          | some h => exact ih _
          | none =>
            refine .bind (.write fun s => ?_) fun _ => .refuse _
            exact .foldl (fun s p => (.of_view (.of_eq rfl rfl) rfl : Holds s (s.releaseSeat p.2))) held s
  have hseat : ∀ party taken, KeepsIndex (seatParty party taken) := by
    intro party taken
    cases party with
    | existing id => exact .pure _
    | fresh k =>
      cases taken with
      | nil => exact .refuse _
      | cons t taken =>
        refine .bind (.draw fun s => .newAccount s [k]) fun id => .bind (.write fun s => ?_) fun _ => .pure _
        refine .of_view (.modMember ?_ s id) rfl
        exact fun _ => rfl
  unfold seatPair
  exact .bind (hseats _ _) fun _ => .bind (hseat _ _) fun _ => .bind (hseat _ _) fun _ => .pure _

theorem holds_accept (debtor creditor : Party) (amount : F64) (maturityEpochs : Nat)
    (arb : Option ArbTermsWire) (signers : List Key) (sponsor : Option MemberId) :
    KeepsIndex (accept debtor creditor amount maturityEpochs arb signers sponsor) := by
  unfold accept
  exact .bind (quiet_acceptTerms _ _ _ _ _ _).moves fun _ => .bind (holds_seatPair _ _ _) fun _ =>
    .bind (KeepsIndex.of_bookkeeping (bookkeeping_book _ _ _ _ _)) fun _ => .pure _

theorem holds_sale (seller buyer : Party) (amount : F64) (maturityEpochs : Nat)
    (signers : List Key) (sponsor : Option MemberId) :
    KeepsIndex (Cascade.sale seller buyer amount maturityEpochs signers sponsor) := by
  unfold Cascade.sale
  exact .bind (quiet_saleTerms _ _ _ _ _).moves fun _ => .bind (holds_seatPair _ _ _) fun _ =>
    .bind (KeepsIndex.of_bookkeeping (bookkeeping_netMutual _ _ _)) fun _ => .ite (fun _ => .pure _) fun _ =>
    .bind (.ask _) fun _ => KeepsIndex.of_bookkeeping (Cascade.bookkeeping_originate _ _ _ _)

theorem holds_dispatch [Libm] (tx : Tx) (signers : List Key) (sponsor : Option MemberId) :
    KeepsIndex (dispatch tx signers sponsor) := by
  cases tx with
  | registerGuardians => exact holds_registerGuardians _ _ _ _ _
  | rotateRequest => exact holds_rotateRequest _ _ _
  | rotateVeto => exact holds_rotateVeto _ _
  | rotateFinalize => exact holds_rotateFinalize _
  | setConsensusKey => exact holds_setConsensusKey _ _ _
  | accept => exact holds_accept _ _ _ _ _ _ _
  | sale => exact holds_sale _ _ _ _ _ _
  | declareSupply => exact KeepsIndex.of_keys (keys_declareSupply _ _ _)
  | transfer => exact KeepsIndex.of_bookkeeping (bookkeeping_transfer _ _ _)
  | settle => exact KeepsIndex.of_bookkeeping (bookkeeping_repayment _ _ _ _ _ _)
  | cure => exact KeepsIndex.of_bookkeeping (bookkeeping_repayment _ _ _ _ _ _)
  | extend => exact KeepsIndex.of_bookkeeping (bookkeeping_extend _ _ _)
  | markExpired => exact KeepsIndex.of_bookkeeping (bookkeeping_markExpired _)
  | listBeneficiaries => exact KeepsIndex.of_keys (keys_listBeneficiaries _ _ _)
  | approveSupporter => exact KeepsIndex.of_keys (keys_approveSupporter _ _ _ _)
  | arbAttest => exact KeepsIndex.of_bookkeeping (bookkeeping_arbAttest _ _ _ _)
  | exit => exact KeepsIndex.of_keys (keys_exit _ _)
  | propose => exact KeepsIndex.of_keys (keys_propose _ _ _)
  | assent => exact KeepsIndex.of_keys (keys_assent _ _ _)
  | forfeitBonds => exact KeepsIndex.of_keys (keys_forfeitBonds _)

/-! ### Boundaries and runs -/

theorem holds_retireRow (id : MemberId) (s : State) : Holds s (retireRow id s) := by
  unfold retireRow
  split
  · exact .refl s
  · next m hm =>
    extract_lets s₁ s₂ s₃
    have h₁ : SameKeys s s₁ := .foldl _ s fun s b => .modMember (f := unlist id) s b fun _ => rfl
    have h₂ : SameKeys s₁ s₂ :=
      .foldl _ s₁ fun s l => .modMember (f := undelegate id) s l fun _ => rfl
    have h₃ : SameKeys s₂ s₃ := by
      simp only [s₃]
      split
      · rfl
      · exact .of_eq rfl rfl rfl
    have h : SameKeys s s₃ := IsTrans.trans _ _ _ h₁ (IsTrans.trans _ _ _ h₂ h₃)
    have hrow : ∃ m₃, s₃.members[id]? = some m₃ ∧ m₃.keys = m.keys := by
      have hrow := State.keyBook_row hm
      rw [← show s₃.keyBook = s.keyBook from h, State.keyBook_rows, Option.map_eq_some_iff] at hrow
      obtain ⟨m₃, hm₃, hkeys⟩ := hrow
      exact ⟨m₃, hm₃, congrArg KeyRow.keys hkeys⟩
    refine (Holds.of_sameKeys h).trans fun hs => ?_
    have hget : ∀ a : MemberId, (s₃.members.erase id)[a]? = if id = a then none else s₃.members[a]? := by
      intro a
      simp only [Std.ExtTreeMap.getElem?_erase, Std.LawfulEqCmp.compare_eq_iff_eq]
    refine ⟨fun a ha => ?_, fun k a hk => ?_⟩
    · show (s₃.members.erase id)[a]? = none
      rw [hget, hs.issued a ha, ite_self]
    · have hk : (m.keys.foldl (fun m k => m.erase k) s₃.keyIndex)[k]? = some a := hk
      rw [OrdMap.getElem?_foldl_erase] at hk
      split at hk
      · cases hk
      next hout =>
        obtain ⟨m', hm', hmem⟩ := hs.held k a hk
        obtain ⟨m₃, hm₃, hkeys⟩ := hrow
        -- a key of the row that goes has left the index
        have hne : id ≠ a := by
          rintro rfl
          obtain rfl : m₃ = m' := Option.some.inj (hm₃.symm.trans hm')
          exact hout (hkeys ▸ hmem)
        exact ⟨m', (hget a).trans (if_neg hne ▸ hm'), hmem⟩

theorem holds_sweepCranks : KeepsIndex sweepCranks := by
  unfold sweepCranks
  refine .bind (.ask _) fun due => .bind (.forM fun id _ => ?_) fun _ =>
    .bind (KeepsIndex.of_bookkeeping (bookkeeping_netRings _)) fun _ => .bind (.ask _) fun sat =>
    .bind (.forM fun id _ => ?_) fun _ => .bind (.ask _) fun closed =>
    .bind (.forM fun id _ => ?_) fun _ =>
    .bind (.write fun s => .of_sameKeys (keys_pruneClosedRows s)) fun _ => .write fun s => ?_
  · exact .attempt (KeepsIndex.of_bookkeeping (bookkeeping_markExpired _))
  · exact .attempt (KeepsIndex.of_keys (keys_forfeitBonds _))
  · exact .attempt (KeepsIndex.of_bookkeeping (bookkeeping_arbAward _))
  · exact .foldl (fun s id => holds_retireRow id s) _ s

end Apply

theorem holds_beginBlock (nowSecs : Nat) (s : State) : Holds s (s.beginBlock nowSecs) := by
  have hadvance : ∀ (n : Nat) (s : State), Holds s (Nat.repeat State.advanceEpoch n s) := by
    intro n s
    induction n with
    | zero => exact .refl s
    | succ n ih => exact ih.trans (.of_sameKeys (keys_advanceEpoch _))
  unfold State.beginBlock
  split
  · exact .refl s
  dsimp only
  have hstart : Holds s { s with lastBeginSecs := nowSecs } := .of_view (.of_eq rfl rfl) rfl
  split
  · exact (hstart.trans (hadvance _ _)).trans ((Apply.holds_sweepCranks _).trans
      (.of_sameKeys (keys_releaseBonds _)))
  · exact hstart

section Events

variable [Libm]

theorem keysHeld_next (e : Event) {s : State} (hs : s.KeysHeld) : (e.next s).KeysHeld := by
  cases e with
  | block nowSecs => exact holds_beginBlock nowSecs s hs
  | transaction tx txId expiry signers nowSecs =>
    have hbegin := holds_beginBlock nowSecs s
    have hgate := Apply.KeepsIndex.of_keys (Apply.keys_bondGate tx signers) (s.beginBlock nowSecs)
    rcases Apply.exec_apply_cases tx txId expiry signers nowSecs s with
      ⟨e, -, hexec⟩ | ⟨-, e, t, ht, hexec⟩ | ⟨-, charged, sponsor, t, outcome, u, ht, hu, hexec⟩
    · rw [Event.next, hexec]
      exact hbegin hs
    · rw [ht] at hgate
      rw [Event.next, hexec]
      exact hgate (hbegin hs)
    · rw [ht] at hgate
      have hrecorded : Holds t (t.recordApplied txId expiry) := .of_view (.of_eq rfl rfl) rfl
      have hdispatch := Apply.holds_dispatch tx signers sponsor (t.recordApplied txId expiry)
      rw [hu] at hdispatch
      have hsettled : Holds u (Apply.settleOutcome tx txId expiry signers charged outcome u) :=
        .of_sameKeys (Apply.keys_settleOutcome tx txId expiry signers charged outcome u)
      rw [Event.next, hexec]
      exact hsettled (hdispatch (hrecorded (hgate (hbegin hs))))

/-- **A key in the index is held by the row it leads to**, in every run from a genesis. -/
theorem keysHeld_run {s : State} (h : Founding s) (es : List Event) :
    (Event.run es s).KeysHeld := by
  obtain ⟨g, hg⟩ := h
  have hfounded : s.KeysHeld := by
    refine genesisState_keeps ?_ (fun _ _ _ _ hs hseat => seatEntry_moves (R := Holds)
      (fun s keys => .newAccount s keys) (fun _ _ => .of_view (.of_eq rfl rfl) rfl)
      (fun s id k => .of_view (.modMember ?_ s id) rfl)
      (fun _ _ => .of_view (.of_eq rfl rfl) rfl) hseat hs) hg
    · exact fun _ _ _ => ⟨fun id _ => by simp, fun k id hk => by simp at hk⟩
    · exact fun _ => rfl
  clear hg
  induction es generalizing s with
  | nil => exact hfounded
  | cons e es ih => exact ih (keysHeld_next e hfounded)

end Events

end Edet
