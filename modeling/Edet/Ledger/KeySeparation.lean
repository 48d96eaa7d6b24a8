import Edet.Ledger.Keys

/-!
# Keys stay apart

The transitions that write keys, and what runs of them preserve: a sound key book
(`KeyBook.Sound`), in which no two rows claim one key.

The code checks a member key or a rotation's key against every claim there is
(`keyIsClaimed`), but a consensus key only against the index and the other consensus
keys, and it lets a rotation name one key twice. `KeysCareful` is what is left to the
senders: that a consensus key is in no pending rotation, and a rotation's keys differ.
A transaction that is refused need not be careful: nothing of its keys is written
(`triple_apply_refused`). Runs whose accepted transactions are careful keep keys apart
(`keysSeparate_of_reaches`).
-/

namespace Edet

/-- What the code does not check of a transaction's keys: a consensus key is in nobody's
pending rotation, and a rotation names each key once. -/
def KeysCareful (tx : Tx) (s : State) : Prop :=
  match tx with
  | .setConsensusKey _ (some k) =>
    ∀ (id : MemberId) (m : Member) (p : PendingRotation), s.members[id]? = some m →
      m.pendingRotation = some p → k ∉ p.newKeys
  | .rotateRequest _ newKeys => newKeys.Nodup
  | _ => True

namespace Apply

open Edet.Flow

/-- A key nobody claims, as the code asks for it. -/
theorem free_of_not_claimed {s : State} {k : Key} (hs : s.keyBook.Sound)
    (h : keyIsClaimed s k = false) : s.keyBook.Free k := by
  intro id r hr hk
  unfold keyIsClaimed at h
  rw [Bool.or_eq_false_iff] at h
  obtain ⟨hindex, hrows⟩ := h
  have hget : s.keyIndex[k]? = none :=
    Std.ExtTreeMap.getElem?_eq_none_of_contains_eq_false hindex
  rw [State.keyBook_rows] at hr
  obtain ⟨m, hm, rfl⟩ := Option.map_eq_some_iff.1 hr
  have hrow := List.any_eq_false.1 hrows (id, m) (OrdMap.mem_toList.2 hm)
  rcases KeyRow.mem_claims.1 hk with hk | hk | hk
  · have := (hs.index k id).2 ⟨m.keyRow, State.keyBook_row hm, hk⟩
    rw [show s.keyBook.index[k]? = s.keyIndex[k]? from rfl, hget] at this
    cases this
  · have hck : m.consensusKey = some k := hk
    simp [hck] at hrow
  · cases hp : m.pendingRotation with
    | none => simp [KeyRow.pendingKeys, Member.keyRow, hp] at hk
    | some p =>
      have hkp : k ∈ p.newKeys := by simpa [KeyRow.pendingKeys, Member.keyRow, hp] using hk
      simp [hp, hkp] at hrow

/-- The book is sound. -/
def KeysSound (s : State) : Prop := s.keyBook.Sound

/-- A fresh party's key is free. -/
def PartyFree (party : Resolved) (s : State) : Prop :=
  match party with
  | .existing _ => True
  | .fresh k => s.keyBook.Free k

theorem KeysSound.of_same {s s' : State} (h : SameKeys s s') (hs : KeysSound s) : KeysSound s' := by
  unfold KeysSound
  rwa [show s'.keyBook = s.keyBook from h]

theorem PartyFree.of_same {party : Resolved} {s s' : State} (h : SameKeys s s')
    (hs : PartyFree party s) : PartyFree party s' := by
  cases party with
  | existing id => trivial
  | fresh k => rwa [PartyFree, show s'.keyBook = s.keyBook from h]

/-- A transition that leaves keys alone keeps the book sound. -/
theorem KeepsKeys.sound {α : Type} {op : Tr α} (h : KeepsKeys op) :
    Op.Triple KeysSound op (fun _ => KeysSound) KeysSound :=
  h.triple fun _ _ => KeysSound.of_same

theorem partyFree_of_resolve {s : State} {party : Party} {signers : List Key} {r : Resolved}
    (hs : KeysSound s) (h : resolve s party signers = .ok r) : PartyFree r s := by
  unfold resolve at h
  split at h
  · split at h
    · cases h
    · obtain rfl : r = _ := (Except.ok.inj h).symm
      trivial
  · split at h
    · obtain rfl : r = _ := (Except.ok.inj h).symm
      trivial
    · split at h
      · cases h
      · next hclaimed =>
        split at h
        · cases h
        · obtain rfl : r = _ := (Except.ok.inj h).symm
          exact free_of_not_claimed hs (by simpa using hclaimed)

/-! ### Seating -/

theorem keyBook_newAccount (s : State) (keys : List Key) :
    (s.newAccount keys).2.keyBook = s.keyBook.seat keys := by
  refine KeyBook.ext rfl rfl (Std.ExtTreeMap.ext_getElem? fun a => ?_)
  simp only [State.newAccount, State.keyBook, KeyBook.seat, Std.ExtTreeMap.getElem?_map,
    Std.ExtTreeMap.getElem?_insert]
  split <;> rfl

/-- Seating a key leaves every other free key free. -/
theorem free_seat {b : KeyBook} {k k' : Key} (h : b.Free k') (hne : k ≠ k') :
    (b.seat [k]).Free k' := by
  intro id r hr hk'
  simp only [KeyBook.seat, Std.ExtTreeMap.getElem?_insert] at hr
  split at hr
  · obtain rfl : r = _ := (Option.some.inj hr).symm
    simp [KeyRow.claims, KeyRow.pendingKeys, Ne.symm hne] at hk'
  · exact h id r hr hk'

theorem keys_reserveSeats (sponsor : Option MemberId) (parties : List Resolved)
    (held : List (MemberId × Held)) : KeepsKeys (reserveSeats sponsor parties held) := by
  induction parties generalizing held with
  | nil => exact .pure _
  | cons party parties ih =>
    cases party with
    | existing id => exact ih held
    | fresh k =>
      unfold reserveSeats
      cases sponsor with
      | none => exact .refuse _
      | some sponsor =>
        refine .bind (.draw fun s => ?_) fun got => ?_
        · unfold State.reserveSeat
          simp only
          split
          · rfl
          · exact .of_eq rfl rfl rfl
        · cases got with
          | some h => exact ih _
          | none =>
            refine .bind (.write fun s => ?_) fun _ => .refuse _
            exact SameKeys.foldl _ s fun s p => .of_eq rfl rfl rfl

/-- Seating a party keeps the book sound, and another party's key free. -/
theorem triple_seatParty {party : Resolved} (other : Resolved)
    (hne : ∀ k, party = .fresh k → other ≠ .fresh k) (taken : List (MemberId × Held)) :
    Op.Triple (fun s => KeysSound s ∧ PartyFree party s ∧ PartyFree other s)
      (seatParty party taken) (fun _ s => KeysSound s ∧ PartyFree other s) KeysSound := by
  cases party with
  | existing id => exact .pure fun s hs => ⟨hs.1, hs.2.2⟩
  | fresh k =>
    cases taken with
    | nil => exact .refuse fun s hs => hs.1
    | cons first taken =>
      refine .bind (Q := fun _ s => KeysSound s ∧ PartyFree other s) (.draw fun s hs => ?_)
        fun id => ?_
      · obtain ⟨hs, hk, hother⟩ := hs
        have hbook := keyBook_newAccount s [k]
        constructor
        · rw [KeysSound, hbook]
          refine KeyBook.Sound.seat hs (by simp) fun k' hk' => ?_
          rw [List.mem_singleton.1 hk']
          exact hk
        · cases other with
          | existing id => trivial
          | fresh k' =>
            rw [PartyFree, hbook]
            exact free_seat hother fun h => hne k rfl (by rw [h])
      · refine .bind (Q := fun _ s => KeysSound s ∧ PartyFree other s) (.write fun s hs => ?_)
          fun _ => .pure fun s hs => hs
        have hsame : SameKeys s (s.modMember id fun row =>
            { row with seat := some { sponsor := first.1, held := first.2 }, seatSlot := true }) :=
          .modMember s id fun _ => rfl
        exact ⟨hs.1.of_same hsame, hs.2.of_same hsame⟩

theorem triple_seatPair {first second : Resolved} (hne : first ≠ second)
    (sponsor : Option MemberId) :
    Op.Triple (fun s => KeysSound s ∧ PartyFree first s ∧ PartyFree second s)
      (seatPair first second sponsor) (fun _ => KeysSound) KeysSound := by
  unfold seatPair
  refine .bind (Q := fun _ s => KeysSound s ∧ PartyFree first s ∧ PartyFree second s)
    (((keys_reserveSeats _ _ _).triple fun s s' h hs => ?_).weaken (fun _ h => h)
      (fun _ _ h => h) fun _ h => h.1) fun held => ?_
  · exact ⟨hs.1.of_same h, hs.2.1.of_same h, hs.2.2.of_same h⟩
  refine .bind (triple_seatParty second (fun k hk hk' => hne (hk.trans hk'.symm)) held) fun a => ?_
  refine .bind (Q := fun _ => KeysSound) ?_ fun b => .pure fun _ hs => hs
  -- Nothing is kept free beside the second party.
  exact (triple_seatParty (.existing 0) (fun _ _ => by simp) a.2).weaken
    (fun s hs => ⟨hs.1, hs.2, trivial⟩) (fun _ _ h => h.1) fun _ h => h

/-! ### The transitions -/

/-- Two fresh parties that differ get a row each, and whatever is booked then leaves the
keys alone. -/
theorem triple_parties {α : Type} {debtor creditor : Resolved} {sponsor : Option MemberId}
    (hne : debtor ≠ creditor) {k : MemberId × MemberId → Tr α} (hk : ∀ ids, KeepsKeys (k ids)) :
    Op.Triple (fun s => KeysSound s ∧ PartyFree debtor s ∧ PartyFree creditor s)
      (seatPair debtor creditor sponsor >>= k) (fun _ => KeysSound) KeysSound :=
  .bind (triple_seatPair hne sponsor) fun ids => (hk ids).sound

/-- What the two looked-up parties of a transaction are: distinct, and free if fresh. -/
def PartiesFree (a b : Resolved) (s : State) : Prop :=
  (KeysSound s ∧ PartyFree a s ∧ PartyFree b s) ∧ a ≠ b

/-- Two parties that are looked up first, and must differ. -/
theorem triple_resolveBoth {α : Type} {first second : Party} {signers : List Key}
    {k : Resolved → Resolved → Tr α} {Q : α → State → Prop}
    (hk : ∀ a b, Op.Triple (PartiesFree a b) (k a b) Q KeysSound) :
    Op.Triple KeysSound (do
      let a ← Op.check (resolve · first signers)
      let b ← Op.check (resolve · second signers)
      Op.refuseIf (a = b) .ctrSelfDeal
      k a b) Q KeysSound := by
  refine .bind (Q := fun a s => KeysSound s ∧ PartyFree a s) (.check ?_ fun _ h => h) fun a => ?_
  · exact fun s a hs ha => ⟨hs, partyFree_of_resolve hs ha⟩
  refine .bind (Q := fun b s => KeysSound s ∧ PartyFree a s ∧ PartyFree b s)
    (.check ?_ fun _ h => h.1) fun b => ?_
  · exact fun s b hs hb => ⟨hs.1, hs.2, partyFree_of_resolve hs.1 hb⟩
  exact .bind (Q := fun _ => PartiesFree a b) (.refuseIf (fun s hs hne => ⟨hs, hne⟩)
    fun s hs _ => hs.1) fun _ => hk a b

theorem triple_acceptTerms (debtor creditor : Party) (amount : F64) (maturityEpochs : Nat)
    (arb : Option ArbTermsWire) (signers : List Key) :
    Op.Triple KeysSound (acceptTerms debtor creditor amount maturityEpochs arb signers)
      (fun terms => PartiesFree terms.debtor terms.creditor) KeysSound := by
  refine triple_resolveBoth fun a b => ?_
  have hE : ∀ s, PartiesFree a b s → KeysSound s := fun _ hs => hs.1.1
  refine .bind_quiet (Op.quiet_check _) hE fun _ => .bind_quiet (Op.quiet_check _) hE fun _ =>
    .bind_quiet (Op.quiet_check _) hE fun arb => .bind_quiet (Op.quiet_ask _) hE fun _ =>
    .bind_quiet (Op.quiet_refuseIf _ _) hE fun _ => .bind_quiet (Op.quiet_ask _) hE fun _ =>
    .bind_quiet (Op.quiet_refuseIf _ _) hE fun _ => .bind_quiet (Op.quiet_refuseIf _ _) hE fun _ =>
    .bind_quiet (Op.quiet_ask _) hE fun maturity => ?_
  exact .pure fun _ hs => hs

theorem triple_accept (debtor creditor : Party) (amount : F64) (maturityEpochs : Nat)
    (arb : Option ArbTermsWire) (signers : List Key) (sponsor : Option MemberId) :
    Op.Triple KeysSound (accept debtor creditor amount maturityEpochs arb signers sponsor)
      (fun _ => KeysSound) KeysSound := by
  unfold accept
  refine .bind (triple_acceptTerms _ _ _ _ _ _) fun terms s hs => ?_
  refine triple_parties hs.2 (fun ids => ?_) s hs.1
  exact .of_bookkeeping (.bind (bookkeeping_book _ _ _ _ _) fun _ => .pure _)

theorem triple_saleTerms (seller buyer : Party) (amount : F64) (maturityEpochs : Nat)
    (signers : List Key) :
    Op.Triple KeysSound (Cascade.saleTerms seller buyer amount maturityEpochs signers)
      (fun terms => PartiesFree terms.seller terms.buyer) KeysSound := by
  refine triple_resolveBoth fun a b => ?_
  have hE : ∀ s, PartiesFree a b s → KeysSound s := fun _ hs => hs.1.1
  refine .bind_quiet (Op.quiet_check _) hE fun status =>
    .bind_quiet (Op.quiet_refuseIf _ _) hE fun _ => .bind_quiet (Op.quiet_check _) hE fun _ =>
    .bind_quiet (Op.quiet_ask _) hE fun _ => .bind_quiet (Op.quiet_refuseIf _ _) hE fun _ =>
    .bind_quiet (Op.quiet_ask _) hE fun _ => .bind_quiet (Op.quiet_refuseIf _ _) hE fun _ =>
    .bind_quiet (Op.quiet_refuseIf _ _) hE fun _ => .bind_quiet (Op.quiet_ask _) hE fun cands =>
    .bind_quiet (Op.quiet_ask _) hE fun _ => .bind_quiet (Op.quiet_refuseIf _ _) hE fun _ => ?_
  exact .pure fun _ hs => hs

theorem triple_sale (seller buyer : Party) (amount : F64) (maturityEpochs : Nat)
    (signers : List Key) (sponsor : Option MemberId) :
    Op.Triple KeysSound (Cascade.sale seller buyer amount maturityEpochs signers sponsor)
      (fun _ => KeysSound) KeysSound := by
  unfold Cascade.sale
  refine .bind (triple_saleTerms _ _ _ _ _) fun terms s hs => ?_
  refine triple_parties hs.2 (fun ids => .of_bookkeeping ?_) s hs.1
  refine .bind (bookkeeping_netMutual _ _ _) fun netted => .ite (fun _ => .pure _) fun _ => ?_
  exact .bind (.ask _) fun _ => Cascade.bookkeeping_originate _ _ _ _

theorem keyBook_pend (s : State) (id : MemberId) {f : Member → Member} {p : Option PendingRotation}
    (hf : ∀ m, (f m).keyRow = { m.keyRow with pendingRotation := p }) :
    (s.modMember id f).keyBook = s.keyBook.pend id p := by
  refine KeyBook.ext rfl rfl (Std.ExtTreeMap.ext_getElem? fun a => ?_)
  simp only [State.modMember, State.keyBook, KeyBook.pend, Std.ExtTreeMap.getElem?_map,
    OrdMap.getElem?_modify_map, Option.map_map]
  cases s.members[a]? with
  | none => rfl
  | some m => by_cases ha : id = a <;> simp [ha, hf]

theorem triple_registerGuardians (id : MemberId) (guardians : List MemberId)
    (threshold vetoWindowEpochs : Nat) (signers : List Key) :
    Op.Triple KeysSound (registerGuardians id guardians threshold vetoWindowEpochs signers)
      (fun _ => KeysSound) KeysSound := by
  have hE : ∀ s, KeysSound s → KeysSound s := fun _ hs => hs
  unfold registerGuardians
  refine .bind_quiet (Op.quiet_check _) hE fun _ => .bind_quiet (Op.quiet_refuseIf _ _) hE fun _ =>
    .bind_quiet (Op.quiet_refuseIf _ _) hE fun _ => .bind (.forM fun g _ => ?_) fun _ => ?_
  · exact .bind_quiet (Op.quiet_check _) hE fun _ => (Op.quiet_refuseIf _ _).triple hE
  · refine triple_memberMut (fun s m hs _ => ?_) fun _ hs => hs
    rw [KeysSound, keyBook_pend (p := none) s id fun _ => rfl]
    exact KeyBook.Sound.pend hs id (by simp)

theorem triple_rotateVeto (id : MemberId) (signers : List Key) :
    Op.Triple KeysSound (rotateVeto id signers) (fun _ => KeysSound) KeysSound := by
  have hE : ∀ s, KeysSound s → KeysSound s := fun _ hs => hs
  unfold rotateVeto
  refine .bind_quiet (Op.quiet_check _) hE fun _ => .bind_quiet (Op.quiet_check _) hE fun _ =>
    .bind_quiet (Op.quiet_refuseIf _ _) hE fun _ => ?_
  refine triple_memberMut (fun s m hs _ => ?_) fun _ hs => hs
  rw [KeysSound, keyBook_pend (p := none) s id fun _ => rfl]
  exact KeyBook.Sound.pend hs id (by simp)

/-- A rotation may be requested to keys that nobody claims, each named once. -/
theorem triple_rotateRequest (id : MemberId) {newKeys : List Key} (honce : newKeys.Nodup)
    (signers : List Key) :
    Op.Triple KeysSound (rotateRequest id newKeys signers) (fun _ => KeysSound) KeysSound := by
  have hE : ∀ s, KeysSound s → KeysSound s := fun _ hs => hs
  unfold rotateRequest
  refine .bind_quiet (Op.quiet_check _) hE fun m => ?_
  cases m.guardian with
  | none => exact .refuse fun _ hs => hs
  | some cfg =>
    refine .bind_quiet (Op.quiet_refuseIf _ _) hE fun _ => .bind (Q := fun claimed s =>
      KeysSound s ∧ (claimed = false → ∀ k ∈ newKeys, s.keyBook.Free k)) (.ask ?_) fun claimed => ?_
    · intro s hs
      refine ⟨hs, fun hclaimed k hk => free_of_not_claimed hs ?_⟩
      simpa using List.any_eq_false.1 hclaimed k hk
    refine .bind (Q := fun _ s => KeysSound s ∧ ∀ k ∈ newKeys, s.keyBook.Free k)
      (.refuseIf ?_ fun _ hs _ => hs.1) fun _ => ?_
    · exact fun s hs hclaimed => ⟨hs.1, hs.2 (by simpa using hclaimed)⟩
    have hE' : ∀ s, (KeysSound s ∧ ∀ k ∈ newKeys, s.keyBook.Free k) → KeysSound s :=
      fun _ hs => hs.1
    refine .bind_quiet (Op.quiet_ask _) hE' fun _ => .bind_quiet (Op.quiet_refuseIf _ _) hE' fun _ =>
      .bind_quiet (Op.quiet_ask _) hE' fun epoch => ?_
    refine triple_memberMut (fun s m hs _ => ?_) fun _ hs => hs.1
    rw [KeysSound, keyBook_pend (p := some { newKeys, openedEpoch := epoch }) s id fun _ => rfl]
    refine KeyBook.Sound.pend hs.1 id fun q hq => ?_
    obtain rfl : q = _ := (Option.some.inj hq).symm
    exact ⟨honce, hs.2⟩

theorem keyBook_finalize (s : State) (id : MemberId) (oldKeys newKeys : List Key) :
    ((reindex id oldKeys newKeys s).modMember id fun m =>
      { m with keys := newKeys, pendingRotation := none }).keyBook =
      s.keyBook.rotate id oldKeys newKeys := by
  refine KeyBook.ext rfl rfl (Std.ExtTreeMap.ext_getElem? fun a => ?_)
  simp only [State.modMember, reindex, State.keyBook, KeyBook.rotate, Std.ExtTreeMap.getElem?_map,
    OrdMap.getElem?_modify_map, Option.map_map]
  cases s.members[a]? with
  | none => rfl
  | some m => by_cases ha : id = a <;> simp [ha, Member.keyRow]

/-- A rotation is carried out to the keys it was requested to. -/
theorem triple_rotateFinalize (id : MemberId) :
    Op.Triple KeysSound (rotateFinalize id) (fun _ => KeysSound) KeysSound := by
  unfold rotateFinalize
  refine .bind (Q := fun m s => KeysSound s ∧ s.members[id]? = some m)
    (triple_member (fun s m hs hm => ⟨hs, hm⟩) fun _ hs => hs) fun m => ?_
  cases hg : m.guardian with
  | none => exact .refuse fun _ hs => hs.1
  | some cfg =>
    cases hp : m.pendingRotation with
    | none => exact .refuse fun _ hs => hs.1
    | some p =>
      have hE : ∀ s, (KeysSound s ∧ s.members[id]? = some m) → KeysSound s := fun _ hs => hs.1
      refine .bind_quiet (Op.quiet_ask _) hE fun early =>
        .bind_quiet (Op.quiet_refuseIf _ _) hE fun _ => ?_
      -- The index is written before the row; the row is there, so both happen.
      intro s hs
      have hrun : Op.exec (do
          Op.write (reindex id m.keys p.newKeys)
          memberMut id fun m => { m with keys := p.newKeys, pendingRotation := none }) s =
          (.ok (), (reindex id m.keys p.newKeys s).modMember id fun m =>
            { m with keys := p.newKeys, pendingRotation := none }) := by
        have hm : findMember (reindex id m.keys p.newKeys s) id = .ok m :=
          findMember_eq_ok.2 hs.2
        rw [Op.exec_bind_ok (Op.exec_write _ _), memberMut, member,
          Op.exec_bind_ok (by rw [Op.exec_check, hm]), Op.exec_write]
      rw [hrun]
      show KeysSound _
      rw [KeysSound, keyBook_finalize]
      exact KeyBook.Sound.rotate hs.1 (State.keyBook_row hs.2) hp

theorem keyBook_nameConsensus (s : State) (id : MemberId) (ck : Option Key) :
    (s.modMember id fun m => { m with consensusKey := ck }).keyBook =
      s.keyBook.nameConsensus id ck := by
  refine KeyBook.ext rfl rfl (Std.ExtTreeMap.ext_getElem? fun a => ?_)
  simp only [State.modMember, State.keyBook, KeyBook.nameConsensus, Std.ExtTreeMap.getElem?_map,
    OrdMap.getElem?_modify_map, Option.map_map]
  cases s.members[a]? with
  | none => rfl
  | some m => by_cases ha : id = a <;> simp [ha, Member.keyRow]

/-- A consensus key that is in no pending rotation may be named, once the code has seen
that nobody holds it or signs consensus with it. -/
theorem triple_setConsensusKey (id : MemberId) (key : Option Key) (signers : List Key) :
    Op.Triple (fun s => KeysSound s ∧ KeysCareful (.setConsensusKey id key) s)
      (setConsensusKey id key signers) (fun _ => KeysSound) KeysSound := by
  have hE : ∀ s, KeysSound s ∧ KeysCareful (.setConsensusKey id key) s → KeysSound s :=
    fun _ hs => hs.1
  unfold setConsensusKey
  refine .bind_quiet (Op.quiet_check _) hE fun _ => .bind_quiet (Op.quiet_check _) hE fun _ => ?_
  cases key with
  | none =>
    refine .bind_quiet (Op.quiet_ask _) hE fun _ => .bind_quiet (Op.quiet_refuseIf _ _) hE fun _ => ?_
    refine triple_memberMut (fun s m hs _ => ?_) fun _ hs => hs.1
    rw [KeysSound, keyBook_nameConsensus]
    exact KeyBook.Sound.nameConsensus hs.1 id (by simp)
  | some k =>
    refine .bind (Q := fun indexed s => (KeysSound s ∧ KeysCareful (.setConsensusKey id (some k)) s) ∧
      indexed = s.keyIndex.contains k) (.ask fun s hs => ⟨hs, rfl⟩) fun indexed => ?_
    refine .bind (Q := fun _ s => (KeysSound s ∧ KeysCareful (.setConsensusKey id (some k)) s) ∧
      s.keyIndex[k]? = none) (.refuseIf ?_ fun _ hs _ => hs.1.1) fun _ => ?_
    · rintro s ⟨hs, rfl⟩ hindexed
      exact ⟨hs, Std.ExtTreeMap.getElem?_eq_none_of_contains_eq_false ((Bool.not_eq_true _).mp hindexed)⟩
    refine .bind (Q := fun taken s => ((KeysSound s ∧
      KeysCareful (.setConsensusKey id (some k)) s) ∧ s.keyIndex[k]? = none) ∧
      taken = s.members.toList.any fun p => p.2.id ≠ id ∧ p.2.consensusKey = some k)
      (.ask fun s hs => ⟨hs, rfl⟩) fun taken => ?_
    refine .bind (Q := fun _ s => ((KeysSound s ∧
      KeysCareful (.setConsensusKey id (some k)) s) ∧ s.keyIndex[k]? = none) ∧
      ∀ (id' : MemberId) (m : Member), s.members[id']? = some m → m.id ≠ id →
        m.consensusKey ≠ some k) (.refuseIf ?_ fun _ hs _ => hs.1.1.1) fun _ => ?_
    · rintro s ⟨hs, rfl⟩ htaken
      refine ⟨hs, fun id' m hm hne hck => htaken ?_⟩
      exact List.any_eq_true.2 ⟨(id', m), OrdMap.mem_toList.2 hm, by simp [hne, hck]⟩
    refine triple_memberMut (fun s m hs _ => ?_) fun _ hs => hs.1.1.1
    obtain ⟨⟨⟨hsound, hcareful⟩, hindex⟩, hother⟩ := hs
    rw [KeysSound, keyBook_nameConsensus]
    refine KeyBook.Sound.nameConsensus hsound id ?_
    rintro _ ⟨⟩ id' r hr
    rw [State.keyBook_rows] at hr
    obtain ⟨m', hm', rfl⟩ := Option.map_eq_some_iff.1 hr
    have hrow := State.keyBook_row hm'
    refine ⟨fun hk => ?_, fun hk => ?_, fun hne => hother id' m' hm' ?_⟩
    · have := (KeyBook.Sound.index hsound k id').2 ⟨_, hrow, hk⟩
      rw [show s.keyBook.index[k]? = s.keyIndex[k]? from rfl, hindex] at this
      cases this
    · cases hp : m'.pendingRotation with
      | none => simp [KeyRow.pendingKeys, Member.keyRow, hp] at hk
      | some p => exact hcareful id' m' p hm' hp (by simpa [KeyRow.pendingKeys, Member.keyRow, hp] using hk)
    · exact (show m'.id = id' from (KeyBook.Sound.named hsound id' _ hrow).1) ▸ hne

/-- What is careful stays careful while rows are only dropped. -/
theorem careful_of_shrink {tx : Tx} {s s' : State} (h : KeysShrink s s')
    (hs : KeysCareful tx s) : KeysCareful tx s' := by
  unfold KeysCareful at hs ⊢
  split
  · intro id m p hm hp
    have hrow := h.2 id m.keyRow (State.keyBook_row hm)
    rw [State.keyBook_rows] at hrow
    obtain ⟨m₀, hm₀, heq⟩ := Option.map_eq_some_iff.1 hrow
    exact hs id m₀ p hm₀ ((congrArg KeyRow.pendingRotation heq).trans hp)
  · exact hs
  · trivial

/-! ### Refusals -/

/-- A rotation request that is refused has not written the row. -/
theorem triple_rotateRequest_refused (id : MemberId) (newKeys : List Key) (signers : List Key) :
    Op.Triple KeysSound (rotateRequest id newKeys signers) (fun _ _ => True) KeysSound := by
  have hE : ∀ s, KeysSound s → KeysSound s := fun _ hs => hs
  unfold rotateRequest
  refine .bind_quiet (Op.quiet_check _) hE fun m => ?_
  cases m.guardian with
  | none => exact .refuse fun _ hs => hs
  | some cfg =>
    refine .bind_quiet (Op.quiet_refuseIf _ _) hE fun _ => .bind_quiet (Op.quiet_ask _) hE fun _ =>
      .bind_quiet (Op.quiet_refuseIf _ _) hE fun _ => .bind_quiet (Op.quiet_ask _) hE fun _ =>
      .bind_quiet (Op.quiet_refuseIf _ _) hE fun _ => .bind_quiet (Op.quiet_ask _) hE fun _ => ?_
    exact triple_memberMut (fun _ _ _ _ => trivial) hE

/-- A consensus key that is refused is not written. -/
theorem triple_setConsensusKey_refused (id : MemberId) (key : Option Key) (signers : List Key) :
    Op.Triple KeysSound (setConsensusKey id key signers) (fun _ _ => True) KeysSound := by
  have hE : ∀ s, KeysSound s → KeysSound s := fun _ hs => hs
  unfold setConsensusKey
  refine .bind_quiet (Op.quiet_check _) hE fun _ => .bind_quiet (Op.quiet_check _) hE fun _ => ?_
  cases key with
  | none =>
    refine .bind_quiet (Op.quiet_ask _) hE fun _ => .bind_quiet (Op.quiet_refuseIf _ _) hE fun _ => ?_
    exact triple_memberMut (fun _ _ _ _ => trivial) hE
  | some k =>
    refine .bind_quiet (Op.quiet_ask _) hE fun _ => .bind_quiet (Op.quiet_refuseIf _ _) hE fun _ =>
      .bind_quiet (Op.quiet_ask _) hE fun _ => .bind_quiet (Op.quiet_refuseIf _ _) hE fun _ => ?_
    exact triple_memberMut (fun _ _ _ _ => trivial) hE

section Runs

variable [Libm]

/-- Every transition keeps the key book sound, if its transaction is careful. -/
theorem triple_dispatch (tx : Tx) (signers : List Key) (sponsor : Option MemberId) :
    Op.Triple (fun s => KeysSound s ∧ KeysCareful tx s) (dispatch tx signers sponsor)
      (fun _ => KeysSound) KeysSound := by
  have weaken : ∀ {op : Tr Unit}, Op.Triple KeysSound op (fun _ => KeysSound) KeysSound →
      Op.Triple (fun s => KeysSound s ∧ KeysCareful tx s) op (fun _ => KeysSound) KeysSound :=
    fun h => h.weaken (fun _ hs => hs.1) (fun _ _ hs => hs) fun _ hs => hs
  cases tx with
  | registerGuardians => exact weaken (triple_registerGuardians _ _ _ _ _)
  | rotateRequest id newKeys =>
    intro s hs
    exact triple_rotateRequest id hs.2 signers s hs.1
  | rotateVeto => exact weaken (triple_rotateVeto _ _)
  | rotateFinalize => exact weaken (triple_rotateFinalize _)
  | setConsensusKey => exact triple_setConsensusKey _ _ _
  | accept => exact weaken (triple_accept _ _ _ _ _ _ _)
  | sale => exact weaken (triple_sale _ _ _ _ _ _)
  | declareSupply => exact weaken (keys_declareSupply _ _ _).sound
  | transfer => exact weaken (KeepsKeys.of_bookkeeping (bookkeeping_transfer _ _ _)).sound
  | settle => exact weaken (KeepsKeys.of_bookkeeping (bookkeeping_repayment _ _ _ _ _ _)).sound
  | cure => exact weaken (KeepsKeys.of_bookkeeping (bookkeeping_repayment _ _ _ _ _ _)).sound
  | extend => exact weaken (KeepsKeys.of_bookkeeping (bookkeeping_extend _ _ _)).sound
  | markExpired => exact weaken (KeepsKeys.of_bookkeeping (bookkeeping_markExpired _)).sound
  | listBeneficiaries => exact weaken (keys_listBeneficiaries _ _ _).sound
  | approveSupporter => exact weaken (keys_approveSupporter _ _ _ _).sound
  | arbAttest => exact weaken (KeepsKeys.of_bookkeeping (bookkeeping_arbAttest _ _ _ _)).sound
  | exit => exact weaken (keys_exit _ _).sound
  | propose => exact weaken (keys_propose _ _ _).sound
  | assent => exact weaken (keys_assent _ _ _).sound
  | forfeitBonds => exact weaken (keys_forfeitBonds _).sound

/-- A transition that refuses keeps the key book sound, whatever keys it names: the two
that could break it write nothing before their last check. -/
theorem triple_dispatch_refused (tx : Tx) (signers : List Key) (sponsor : Option MemberId) :
    Op.Triple KeysSound (dispatch tx signers sponsor) (fun _ _ => True) KeysSound := by
  have careful (h : ∀ s, KeysCareful tx s) :
      Op.Triple KeysSound (dispatch tx signers sponsor) (fun _ _ => True) KeysSound :=
    (triple_dispatch tx signers sponsor).weaken (fun s hs => ⟨hs, h s⟩) (fun _ _ _ => trivial)
      fun _ hs => hs
  cases tx with
  | rotateRequest id newKeys => exact triple_rotateRequest_refused id newKeys signers
  | setConsensusKey id key => exact triple_setConsensusKey_refused id key signers
  | _ => exact careful fun _ => trivial

/-- A transaction that is refused, by the gate or by its transition, keeps the key book
sound. -/
theorem triple_apply_refused (tx : Tx) (txId : TxId) (notAfterEpoch : Nat) (signers : List Key)
    (nowSecs : Nat) :
    Op.Triple KeysSound (apply tx txId notAfterEpoch signers nowSecs) (fun _ _ => True)
      KeysSound := by
  have hE : ∀ s, KeysSound s → KeysSound s := fun _ hs => hs
  unfold apply
  refine .bind (Q := fun _ => KeysSound) (.write fun s hs => ?_) fun _ => ?_
  · exact (keysShrink_beginBlock nowSecs s).1 hs
  refine .bind_quiet (Op.quiet_check _) hE fun _ => ?_
  refine .bind ((keys_bondGate tx signers).triple fun s s' h hs => h.shrink.1 hs) fun charged => ?_
  refine .bind (Q := fun _ => KeysSound) (.write fun s hs => hs.of_same (.of_eq rfl rfl rfl))
    fun _ => ?_
  -- an outcome that is no refusal passes the last check
  refine .bind (Q := fun outcome s => outcome = .ok () ∨ KeysSound s) (fun s hs => ?_)
    fun outcome => ?_
  · rw [Op.exec_outcome]
    have hrefused := triple_dispatch_refused tx signers charged.2 s hs
    rcases hexec : Op.exec (dispatch tx signers charged.2) s with ⟨_ | _, s'⟩ <;>
      rw [hexec] at hrefused
    · exact .inr hrefused
    · exact .inl rfl
  refine .bind (Q := fun _ s => outcome = .ok () ∨ KeysSound s) (.write fun s hs => ?_) fun _ => ?_
  · exact hs.imp_right fun hs =>
      hs.of_same (keys_settleOutcome tx txId notAfterEpoch signers charged.1 outcome s)
  · intro s hs
    rw [Op.exec_check]
    cases outcome with
    | ok _ => trivial
    | error e => exact hs.resolve_left nofun

/-- Applying a careful transaction, accepted or refused, keeps the key book sound. -/
theorem triple_apply (tx : Tx) (txId : TxId) (notAfterEpoch : Nat) (signers : List Key)
    (nowSecs : Nat) :
    Op.Triple (fun s => KeysSound s ∧ KeysCareful tx s)
      (apply tx txId notAfterEpoch signers nowSecs) (fun _ => KeysSound) KeysSound := by
  have hE : ∀ s, KeysSound s ∧ KeysCareful tx s → KeysSound s := fun _ hs => hs.1
  have shrink : ∀ s s', KeysShrink s s' → KeysSound s ∧ KeysCareful tx s →
      KeysSound s' ∧ KeysCareful tx s' := fun s s' h hs => ⟨h.1 hs.1, careful_of_shrink h hs.2⟩
  unfold apply
  refine .bind (Q := fun _ s => KeysSound s ∧ KeysCareful tx s) (.write fun s hs => ?_) fun _ => ?_
  · exact shrink _ _ (keysShrink_beginBlock nowSecs s) hs
  refine .bind_quiet (Op.quiet_check _) hE fun _ => ?_
  refine .bind (((keys_bondGate tx signers).triple fun s s' h => shrink s s' h.shrink).weaken
    (fun _ h => h) (fun _ _ h => h) hE) fun charged => ?_
  refine .bind (Q := fun _ s => KeysSound s ∧ KeysCareful tx s) (.write fun s hs => ?_) fun _ => ?_
  · exact shrink s _ (SameKeys.shrink (.of_eq rfl rfl rfl)) hs
  refine .bind (Q := fun _ => KeysSound) (fun s hs => ?_) fun outcome => ?_
  · rw [Op.exec_outcome]
    exact (triple_dispatch tx signers charged.2).exec_snd hs
  refine .bind (Q := fun _ => KeysSound) (.write fun s hs => ?_) fun _ => ?_
  · exact hs.of_same (keys_settleOutcome tx txId notAfterEpoch signers charged.1 outcome s)
  · exact (Op.quiet_check _).triple fun _ hs => hs

end Runs

end Apply

/-! ### Founding states -/

/-- A sound key book in which no rotation is pending: what a founding state has. -/
def KeysFounding (s : State) : Prop :=
  Apply.KeysSound s ∧
    ∀ (id : MemberId) (m : Member), s.members[id]? = some m → m.pendingRotation = none

theorem free_of_founding {s : State} (hs : KeysFounding s) {k : Key}
    (hindex : s.keyIndex.contains k = false) (hck : s.isConsensusKey k = false) :
    s.keyBook.Free k := by
  refine Apply.free_of_not_claimed hs.1 ?_
  unfold Apply.keyIsClaimed
  rw [hindex, Bool.false_or, List.any_eq_false]
  rintro ⟨id, m⟩ hm
  have hrow := List.any_eq_false.1 hck (id, m) hm
  simp [hs.2 id m (OrdMap.mem_toList.1 hm)]
  simpa using hrow

theorem keysFounding_addUnderwriter {s s' : State} {id : MemberId} {key : Key} {supply : F64}
    (hs : KeysFounding s) (h : s.addUnderwriter [key] supply = .ok (id, s')) :
    KeysFounding s' := by
  unfold State.addUnderwriter at h
  split at h
  · cases h
  · next hkeys =>
    split at h
    · cases h
    · have hfree : s.keyBook.Free key := by
        simp only [List.isEmpty_cons, List.any_cons, List.any_nil, Bool.or_false,
          Bool.false_eq_true, false_or, Bool.not_eq_true, Bool.or_eq_false_iff] at hkeys
        exact free_of_founding hs hkeys.1 hkeys.2
      have hseat : KeysFounding (s.newAccount [key]).2 := by
        constructor
        · rw [Apply.KeysSound, Apply.keyBook_newAccount]
          refine KeyBook.Sound.seat hs.1 (by simp) fun k hk => ?_
          rw [List.mem_singleton.1 hk]
          exact hfree
        · intro a m hm
          simp only [State.newAccount, Std.ExtTreeMap.getElem?_insert] at hm
          split at hm
          · rw [← Option.some.inj hm]
          · exact hs.2 a m hm
      simp only [Except.ok.injEq, Prod.mk.injEq] at h
      rw [← h.2]
      split
      · exact ⟨hseat.1.of_same (.of_eq rfl rfl rfl), hseat.2⟩
      · exact hseat

theorem keysFounding_setGenesisConsensusKey {s s' : State} {id : MemberId} {key : Key}
    (hs : KeysFounding s) (h : s.setGenesisConsensusKey id key = .ok s') : KeysFounding s' := by
  unfold State.setGenesisConsensusKey at h
  split at h
  · cases h
  · next hkey =>
    split at h
    · obtain rfl := Except.ok.inj h
      simp only [Bool.or_eq_true, not_or, Bool.not_eq_true] at hkey
      have hfree := free_of_founding hs hkey.1 hkey.2
      constructor
      · rw [Apply.KeysSound, Apply.keyBook_nameConsensus]
        refine KeyBook.Sound.nameConsensus hs.1 id ?_
        rintro _ ⟨⟩ id' r hr
        have := hfree id' r hr
        rw [KeyRow.mem_claims, not_or, not_or] at this
        exact ⟨this.1, this.2.2, fun _ => this.2.1⟩
      · intro a m hm
        simp only [State.modMember, OrdMap.getElem?_modify_map] at hm
        obtain ⟨m₀, hm₀, rfl⟩ := Option.map_eq_some_iff.1 hm
        split <;> exact hs.2 a m₀ hm₀
    · cases h

theorem setGenesisValidator_eq {s s' : State} {id : MemberId} {power : Nat}
    (h : s.setGenesisValidator id power = .ok s') :
    s' = { s with validators := s.validators.insert id power } := by
  unfold State.setGenesisValidator at h
  split at h
  · cases h
  · split at h
    · cases h
    · split at h
      · cases h
      · exact (Except.ok.inj h).symm

theorem keysFounding_seatEntry {supplies : OrdMap MemberId F64} {entry : GenesisEntry}
    {s s' : State} (hs : KeysFounding s) (h : Genesis.seatEntry supplies entry s = .ok s') :
    KeysFounding s' := by
  have hvalidator : ∀ {s s' : State}, KeysFounding s → Genesis.seatValidator entry s = .ok s' →
      KeysFounding s' := by
    intro s s' hs h
    unfold Genesis.seatValidator at h
    split at h
    · split at h
      · cases h
      · exact Except.ok.inj h ▸ hs
    · split at h
      · cases h
      · next ck hck _ =>
        cases hname : s.setGenesisConsensusKey entry.address ck with
        | error e => simp [hname, Genesis.refusal] at h
        | ok t =>
          have ht := keysFounding_setGenesisConsensusKey hs hname
          simp only [hname, Genesis.refusal] at h
          split at h
          · cases hset : t.setGenesisValidator entry.address entry.votingPower with
            | error e => simp [hset] at h
            | ok u =>
              simp only [hset, Except.ok.injEq] at h
              rw [← h, setGenesisValidator_eq hset]
              exact ⟨ht.1.of_same (.of_eq rfl rfl rfl), ht.2⟩
          · exact Except.ok.inj h ▸ ht
  unfold Genesis.seatEntry at h
  cases hadd : s.addUnderwriter [entry.publicKey]
      (OrdMap.getD' supplies entry.address (F64.zero false)) with
  | error e => simp [hadd, Genesis.refusal] at h
  | ok p =>
    simp only [hadd, Genesis.refusal] at h
    split at h
    · cases h
    · exact hvalidator (keysFounding_addUnderwriter hs hadd) h

/-- A founding state has a sound key book. -/
theorem keysSound_of_genesis {g : Genesis} {s : State} (h : genesisState g = .ok s) :
    Apply.KeysSound s := by
  refine (genesisState_keeps (I := KeysFounding) (fun chainId rootSalt params => ?_)
    (fun supplies entry s s' => keysFounding_seatEntry) h).1
  refine ⟨?_, fun id m hm => by simp at hm⟩
  have hbook : State.keyBook { chainId, rootSalt, params } = { index := ∅, next := 0, rows := ∅ } := by
    refine KeyBook.ext rfl rfl (Std.ExtTreeMap.ext_getElem? fun a => ?_)
    simp [State.keyBook]
  rw [Apply.KeysSound, hbook]
  exact .empty 0

/-! ### Runs -/

/-- The claims of all rows, read off the members: every member key is one member's,
listed once and indexed to it, no two members sign consensus with one key, and nobody
signs consensus with a member key. -/
structure KeysSeparate (s : State) : Prop where
  /-- A member key belongs to one member. -/
  owned : ∀ (id id' : MemberId) (m m' : Member) (k : Key), s.members[id]? = some m →
    s.members[id']? = some m' → k ∈ m.keys → k ∈ m'.keys → id = id'
  /-- A member lists a key once. -/
  once : ∀ (id : MemberId) (m : Member), s.members[id]? = some m → m.keys.Nodup
  /-- The index maps every key of every member to that member, and nothing else. -/
  indexed : ∀ (k : Key) (id : MemberId),
    s.keyIndex[k]? = some id ↔ ∃ m, s.members[id]? = some m ∧ k ∈ m.keys
  /-- No two members share a consensus key. -/
  consensus : ∀ (id id' : MemberId) (m m' : Member) (k : Key), s.members[id]? = some m →
    s.members[id']? = some m' → m.consensusKey = some k → m'.consensusKey = some k → id = id'
  /-- No consensus key is a member key. -/
  apart : ∀ (id id' : MemberId) (m m' : Member) (k : Key), s.members[id]? = some m →
    s.members[id']? = some m' → m.consensusKey = some k → k ∉ m'.keys

theorem KeysSeparate.of_sound {s : State} (h : Apply.KeysSound s) : KeysSeparate s := by
  have hclaim : ∀ (m : Member) (k : Key), k ∈ m.keys ∨ m.consensusKey = some k →
      k ∈ m.keyRow.claims := fun m k hk => KeyRow.mem_claims.2 (hk.imp_right .inl)
  refine ⟨fun id id' m m' k hm hm' hk hk' => ?_, fun id m hm => ?_, fun k id => ?_,
    fun id id' m m' k hm hm' hk hk' => ?_, fun id id' m m' k hm hm' hk hk' => ?_⟩
  · exact KeyBook.Sound.apart h id id' _ _ k (State.keyBook_row hm) (State.keyBook_row hm')
      (hclaim m k (.inl hk)) (hclaim m' k (.inl hk'))
  · have := KeyBook.Sound.once h id _ (State.keyBook_row hm)
    exact (List.nodup_append.1 (List.nodup_append.1 this).1).1
  · rw [show s.keyIndex[k]? = s.keyBook.index[k]? from rfl, KeyBook.Sound.index h]
    constructor
    · rintro ⟨r, hr, hk⟩
      rw [State.keyBook_rows] at hr
      obtain ⟨m, hm, rfl⟩ := Option.map_eq_some_iff.1 hr
      exact ⟨m, hm, hk⟩
    · rintro ⟨m, hm, hk⟩
      exact ⟨m.keyRow, State.keyBook_row hm, hk⟩
  · exact KeyBook.Sound.apart h id id' _ _ k (State.keyBook_row hm) (State.keyBook_row hm')
      (hclaim m k (.inr hk)) (hclaim m' k (.inr hk'))
  · -- The same row cannot claim the key twice, and another cannot claim it at all.
    obtain rfl := KeyBook.Sound.apart h id id' _ _ k (State.keyBook_row hm) (State.keyBook_row hm')
      (hclaim m k (.inr hk)) (hclaim m' k (.inl hk'))
    obtain rfl : m = m' := Option.some.inj (hm.symm.trans hm')
    have honce := KeyBook.Sound.once h id _ (State.keyBook_row hm)
    have := (List.nodup_append.1 (List.nodup_append.1 honce).1).2.2 k hk'
    exact this k (by simp [Member.keyRow, hk]) rfl

theorem KeysSeparate.consensusKeysFree {s : State} (h : KeysSeparate s) :
    Audit.consensusKeysFree s = .ok () := by
  rw [Audit.consensusKeysFree_eq_ok]
  intro id m ck hm hck
  cases hi : s.keyIndex[ck]? with
  | none => rfl
  | some owner =>
    obtain ⟨m', hm', hk⟩ := (h.indexed ck owner).1 hi
    exact absurd hk (h.apart id owner m m' ck hm hm' hck)

section Runs

variable [Libm]

/-- An event whose transaction, if it is one and is accepted, is careful with its keys. -/
def CarefulWithKeys (e : Event) (s : State) : Prop :=
  match e with
  | .block _ => True
  | .transaction tx txId notAfterEpoch signers nowSecs =>
    (Op.exec (Apply.apply tx txId notAfterEpoch signers nowSecs) s).1 = .ok () → KeysCareful tx s

theorem keysSound_next {e : Event} {s : State} (hs : Apply.KeysSound s)
    (he : CarefulWithKeys e s) : Apply.KeysSound (e.next s) := by
  cases e with
  | block nowSecs => exact (keysShrink_beginBlock nowSecs s).1 hs
  | transaction tx txId notAfterEpoch signers nowSecs =>
    cases hout : (Op.exec (Apply.apply tx txId notAfterEpoch signers nowSecs) s).1 with
    | ok _ => exact (Apply.triple_apply tx txId notAfterEpoch signers nowSecs).exec_snd ⟨hs, he hout⟩
    | error e =>
      exact (Apply.triple_apply_refused tx txId notAfterEpoch signers nowSecs).error hs
        (Prod.ext hout rfl)

/-- In every run whose accepted transactions are careful, keys stay apart, and the audit finds no
consensus key in the index. -/
theorem keysSeparate_of_reaches {s : State} (h : Reaches Event.next Founding CarefulWithKeys s) :
    KeysSeparate s ∧ Audit.consensusKeysFree s = .ok () := by
  have hsound : Apply.KeysSound s := by
    refine h.invariant (I := Apply.KeysSound) (fun s hs => ?_) fun e s hs he => keysSound_next hs he
    obtain ⟨g, hg⟩ := hs
    exact keysSound_of_genesis hg
  exact ⟨.of_sound hsound, (KeysSeparate.of_sound hsound).consensusKeysFree⟩

end Runs

/-- Three founders; the first names the others its guardians and asks to rotate. -/
def rotationEvents (newKeys : List Key) : List Event :=
  [.transaction (.registerGuardians 0 [1, 2] 2 30) 0 0 [founderKey 0] 10,
    .transaction (.rotateRequest 0 newKeys) 1 0 [founderKey 1, founderKey 2] 10]

/-- The rotation is carried out after its window. -/
def finalizeEvent : Event :=
  .transaction (.rotateFinalize 0) 3 30 [] (30 * Constants.epochSecs)

/-- A run that rotates the first founder to a new key and keeps the keys apart, although a
stranger asks for the key in between, and is refused. -/
theorem keysSeparate_after_rotation :
    letI := Libm.unused
    let s := (rotationEvents [founderKey 9] ++
        [.transaction (.setConsensusKey 1 (some (founderKey 9))) 2 0 [founderKey 9] 10,
          finalizeEvent]).foldl (fun s e => e.next s) (devGenesis [1000, 1000, 1000]).state
    s.keyIndex[founderKey 9]? = some 0 ∧ KeysSeparate s ∧ Audit.consensusKeysFree s = .ok () := by
  let _ : Libm := Libm.unused
  refine ⟨by decide +kernel, keysSeparate_of_reaches ?_⟩
  refine Reaches.of_list (.start (Genesis.founding_state (by decide +kernel))) _ ?_
  exact ⟨fun _ => trivial, fun _ => List.nodup_singleton _,
    fun haccepted => absurd haccepted (by decide +kernel), fun _ => trivial, trivial⟩

/-- Another founder names the key of the pending rotation its consensus key, and the
rotation is carried out: the audit fails in the state reached. -/
theorem not_consensusKeysFree_after_pending_key :
    letI := Libm.unused
    ∃ s, Reaches Event.next Founding (fun _ _ => True) s ∧
      Audit.consensusKeysFree s ≠ .ok () ∧ ¬KeysSeparate s := by
  let _ : Libm := Libm.unused
  let events := rotationEvents [founderKey 9] ++
    [.transaction (.setConsensusKey 1 (some (founderKey 9))) 2 0 [founderKey 1] 10, finalizeEvent]
  let s := events.foldl (fun s e => e.next s) (devGenesis [1000, 1000, 1000]).state
  have hreach : Reaches Event.next Founding (fun _ _ => True) s := by
    refine Reaches.of_list (.start (Genesis.founding_state (by decide +kernel))) events ?_
    exact ⟨trivial, trivial, trivial, trivial, trivial⟩
  have hfails : Audit.consensusKeysFree s ≠ .ok () := by decide +kernel
  exact ⟨s, hreach, hfails, fun h => hfails h.consensusKeysFree⟩

end Edet
