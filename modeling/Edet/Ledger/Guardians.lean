import Edet.Ledger.KeySeparation
import Edet.Ledger.Replay
import Edet.Ledger.Rows

/-!
# Guardian recovery

A member's keys change in one way only: a rotation is finalized that its guardians asked
for, no sooner than their veto window allows, and neither was it vetoed nor were the
guardians replaced in the meantime (`keys_by_recovery`). The ledger keeps no history, so
the proof finds the request in the run: a pending rotation always comes from an earlier
request that still stands (`asked_of_pending`).

What makes recovery possible at all is that a stored configuration names enough members
(`GuardiansSuffice`). The ledger compares the threshold with the length of the list that a
registration supplies and then stores the list as a set, so a list that repeats a member can
leave fewer guardians than the threshold (`guardians_short`). Registrations whose lists name
enough distinct members keep every configuration sufficient (`recovery_of_distinct`).
-/

namespace Edet

open Edet.Flow

/-- What a rotation reads and writes of a row. -/
structure Custody where
  keys : List Key
  guardian : Option GuardianConfig
  pendingRotation : Option PendingRotation

def Member.custody (m : Member) : Custody := ⟨m.keys, m.guardian, m.pendingRotation⟩

theorem custody_ignoresBooks : IgnoresBooks Member.custody := ⟨fun _ => rfl, fun _ _ _ _ => rfl⟩

theorem custody_ignoresCharges : IgnoresCharges Member.custody := ⟨fun _ _ _ _ _ _ => rfl⟩

namespace Apply

/-! ### The four transitions on a row's custody -/

/-- Writing a row that is known to be there. -/
theorem triple_memberMut_of_row {P E : State → Prop} {Q : Unit → State → Prop} {id : MemberId}
    {f : Member → Member}
    (h : ∀ s, P s → (∃ m, s.members[id]? = some m) ∧ Q () (s.modMember id f)) :
    Op.Triple P (memberMut id f) Q E := by
  intro s hs
  obtain ⟨⟨m, hm⟩, hQ⟩ := h s hs
  unfold memberMut member
  rw [Op.exec_bind, Op.exec_check, findMember_eq_ok.2 hm]
  exact hQ

/-- The guardian configuration a registration stores. -/
def storedConfig (guardians : List MemberId) (threshold vetoWindowEpochs : Nat) :
    GuardianConfig :=
  { guardians := guardians.foldl (fun set g => set.insert g) ∅, threshold, vetoWindowEpochs }

theorem exact_registerGuardians (s : State) (id : MemberId) (guardians : List MemberId)
    (threshold window : Nat) (signers : List Key) :
    Op.Triple (· = s) (registerGuardians id guardians threshold window signers)
      (fun _ t => (∀ g ∈ guardians, g ≠ id ∧ ∃ m, s.members[g]? = some m) ∧
        t = s.modMember id fun m =>
          { m with
            guardian := some (storedConfig guardians threshold window), pendingRotation := none })
      (· = s) := by
  unfold registerGuardians
  refine .bind_quiet (Op.quiet_check _) (fun _ h => h) fun _ =>
    .bind_quiet (Op.quiet_refuseIf _ _) (fun _ h => h) fun _ =>
    .bind_quiet (Op.quiet_refuseIf _ _) (fun _ h => h) fun _ => ?_
  refine .bind (Op.Quiet.triple_forM (fun g _ => .bind (quiet_member _) fun _ =>
    Op.quiet_refuseIf _ _) fun _ h => h) fun _ => ?_
  refine triple_memberMut (fun t m ht _ => ?_) fun t ht => ht.1
  obtain ⟨rfl, hall⟩ := ht
  refine ⟨fun g hg => ?_, rfl⟩
  obtain ⟨m, hm, hne⟩ := Op.Succeeds.of_check_bind (hall g hg)
  have hnot : ¬g = id := by
    intro h
    obtain ⟨a, u, hop, -⟩ := hne
    rw [Op.exec_refuseIf, if_pos h] at hop
    cases hop
  exact ⟨hnot, m, findMember_eq_ok.1 hm⟩

theorem exact_rotateVeto (s : State) (id : MemberId) (signers : List Key) :
    Op.Triple (· = s) (rotateVeto id signers)
      (fun _ t => t = s.modMember id fun m => { m with pendingRotation := none }) (· = s) := by
  unfold rotateVeto
  refine .bind_quiet (Op.quiet_check _) (fun _ h => h) fun _ =>
    .bind_quiet (quiet_member _) (fun _ h => h) fun m =>
    .bind_quiet (Op.quiet_refuseIf _ _) (fun _ h => h) fun _ => ?_
  refine triple_memberMut (fun t m ht _ => ?_) fun t ht => ht
  rw [ht]

theorem exact_rotateRequest (s : State) (id : MemberId) (newKeys : List Key)
    (signers : List Key) :
    Op.Triple (· = s) (rotateRequest id newKeys signers)
      (fun _ t => ∃ m cfg, s.members[id]? = some m ∧ m.guardian = some cfg ∧
        cfg.threshold ≤ signingGuardians s cfg signers ∧
        t = s.modMember id fun m =>
          { m with pendingRotation := some { newKeys, openedEpoch := s.epoch } })
      (· = s) := by
  unfold rotateRequest
  refine .bind (Q := fun m t => t = s ∧ s.members[id]? = some m)
    (triple_member (fun t m ht hm => ?_) fun t ht => ht) fun m => ?_
  · subst ht
    exact ⟨rfl, hm⟩
  cases hcfg : m.guardian with
  | none => exact .refuse fun t ht => ht.1
  | some cfg =>
    refine .bind_quiet (Op.quiet_refuseIf _ _) (fun _ h => h.1) fun _ =>
      .bind_quiet (Op.quiet_ask _) (fun _ h => h.1) fun _ =>
      .bind_quiet (Op.quiet_refuseIf _ _) (fun _ h => h.1) fun _ => ?_
    refine .bind (Q := fun n t => (t = s ∧ s.members[id]? = some m) ∧
      n = signingGuardians s cfg signers) (.ask fun t ht => ⟨ht, ht.1 ▸ rfl⟩) fun n => ?_
    refine .bind (Q := fun _ t => (t = s ∧ s.members[id]? = some m) ∧
      cfg.threshold ≤ signingGuardians s cfg signers)
      (.refuseIf (fun t ht hlow => ⟨ht.1, ht.2 ▸ Nat.le_of_not_lt hlow⟩) fun t ht _ => ht.1.1)
      fun _ => ?_
    refine .bind (Q := fun epoch t => ((t = s ∧ s.members[id]? = some m) ∧
      cfg.threshold ≤ signingGuardians s cfg signers) ∧ epoch = s.epoch)
      (.ask fun t ht => ⟨ht, ht.1.1 ▸ rfl⟩) fun epoch => ?_
    refine triple_memberMut (fun t m' ht _ => ?_) fun t ht => ht.1.1.1
    obtain ⟨⟨⟨rfl, hm⟩, hsigned⟩, rfl⟩ := ht
    exact ⟨m, cfg, hm, hcfg, hsigned, rfl⟩

theorem exact_rotateFinalize (s : State) (id : MemberId) :
    Op.Triple (· = s) (rotateFinalize id)
      (fun _ t => ∃ m cfg p, s.members[id]? = some m ∧ m.guardian = some cfg ∧
        m.pendingRotation = some p ∧ horizon p.openedEpoch cfg.vetoWindowEpochs ≤ s.epoch ∧
        t = (reindex id m.keys p.newKeys s).modMember id fun m =>
          { m with keys := p.newKeys, pendingRotation := none })
      (· = s) := by
  unfold rotateFinalize
  refine .bind (Q := fun m t => t = s ∧ s.members[id]? = some m)
    (triple_member (fun t m ht hm => ?_) fun t ht => ht) fun m => ?_
  · subst ht
    exact ⟨rfl, hm⟩
  cases hcfg : m.guardian with
  | none => exact .refuse fun t ht => ht.1
  | some cfg =>
    cases hp : m.pendingRotation with
    | none => exact .refuse fun t ht => ht.1
    | some p =>
      refine .bind (Q := fun early t => (t = s ∧ s.members[id]? = some m) ∧
        early = decide (s.epoch < horizon p.openedEpoch cfg.vetoWindowEpochs))
        (.ask fun t ht => ⟨ht, ht.1 ▸ rfl⟩) fun early => ?_
      refine .bind (Q := fun _ t => (t = s ∧ s.members[id]? = some m) ∧
        horizon p.openedEpoch cfg.vetoWindowEpochs ≤ s.epoch)
        (.refuseIf (fun t ht hlate => ⟨ht.1, ?_⟩) fun t ht _ => ht.1.1) fun _ => ?_
      · rw [ht.2] at hlate
        simpa using hlate
      refine .bind (Q := fun _ t => (t = reindex id m.keys p.newKeys s ∧
        s.members[id]? = some m) ∧ horizon p.openedEpoch cfg.vetoWindowEpochs ≤ s.epoch)
        (.write fun t ht => ⟨⟨ht.1.1 ▸ rfl, ht.1.2⟩, ht.2⟩) fun _ => ?_
      refine triple_memberMut_of_row fun t ht => ?_
      obtain ⟨⟨rfl, hm⟩, hlate⟩ := ht
      exact ⟨⟨m, hm⟩, m, cfg, p, hm, hcfg, hp, hlate, rfl⟩

end Apply

/-! ### What an event does to a row's custody -/

/-- Writing one row shows only there. -/
theorem row_modMember {s : State} {id a : MemberId} {f : Member → Member} {m' : Member}
    (h : (s.modMember id f).members[a]? = some m') :
    ∃ m, s.members[a]? = some m ∧ m' = if id = a then f m else m := by
  simp only [State.modMember, OrdMap.getElem?_modify_map] at h
  obtain ⟨m, hm, rfl⟩ := Option.map_eq_some_iff.1 h
  exact ⟨m, hm, rfl⟩

/-- The signatures of guardians are judged by the keys of their rows. -/
theorem signingGuardians_congr {s s' : State} (h : SameView Member.custody s s')
    (cfg : GuardianConfig) (signers : List Key) :
    Apply.signingGuardians s' cfg signers = Apply.signingGuardians s cfg signers := by
  unfold Apply.signingGuardians
  refine List.countP_congr fun g _ => ?_
  have hrow := h.rows g
  have hsigned : ∀ t : State, (Apply.requireSigned t g signers).isOk =
      ((t.members[g]?.map Member.custody).map fun c => signers.any (c.keys.contains ·)).getD false := by
    intro t
    unfold Apply.requireSigned Apply.findMember
    cases t.members[g]? with
    | none => rfl
    | some m =>
      show Except.isOk (if signers.any (m.keys.contains ·) then Except.ok () else _) =
        signers.any (m.keys.contains ·)
      cases signers.any (m.keys.contains ·) <;> rfl
  rw [hsigned, hsigned, hrow]

section Events

variable [Libm]

/-- The event applies the transaction, and successfully. -/
def Event.Carries (tx : Tx) (e : Event) (s : State) : Prop :=
  ∃ txId notAfterEpoch signers nowSecs,
    e = .transaction tx txId notAfterEpoch signers nowSecs ∧
      (Op.exec (Apply.apply tx txId notAfterEpoch signers nowSecs) s).1 = .ok ()

/-- Where a row of the next state comes from. -/
inductive CustodyStep (e : Event) (s : State) (id : MemberId) (m' : Member) : Prop
  | kept (m : Member) (hm : s.members[id]? = some m) (h : m'.custody = m.custody)
  | opened (hid : s.nextMember ≤ id) (hg : m'.guardian = none) (hp : m'.pendingRotation = none)
  | registered (m : Member) (hm : s.members[id]? = some m)
      (guardians : List MemberId) (threshold window : Nat)
      (he : e.Carries (.registerGuardians id guardians threshold window) s)
      (hknown : ∀ g ∈ guardians, g ≠ id ∧ ∃ mg, (e.next s).members[g]? = some mg)
      (h : m'.custody =
        ⟨m.keys, some (Apply.storedConfig guardians threshold window), none⟩)
  | requested (m : Member) (hm : s.members[id]? = some m) (newKeys : List Key)
      (txId : TxId) (notAfterEpoch : Nat) (signers : List Key) (nowSecs : Nat)
      (he : e = .transaction (.rotateRequest id newKeys) txId notAfterEpoch signers nowSecs)
      (hok : e.Carries (.rotateRequest id newKeys) s) (cfg : GuardianConfig)
      (hcfg : m.guardian = some cfg)
      (hsigned : cfg.threshold ≤
        Apply.signingGuardians (s.beginBlock nowSecs) cfg signers)
      (h : m'.custody = ⟨m.keys, m.guardian, some ⟨newKeys, (e.next s).epoch⟩⟩)
  | vetoed (m : Member) (hm : s.members[id]? = some m) (he : e.Carries (.rotateVeto id) s)
      (h : m'.custody = ⟨m.keys, m.guardian, none⟩)
  | finalized (m : Member) (hm : s.members[id]? = some m) (he : e.Carries (.rotateFinalize id) s)
      (cfg : GuardianConfig) (p : PendingRotation) (hcfg : m.guardian = some cfg)
      (hp : m.pendingRotation = some p)
      (hlate : horizon p.openedEpoch cfg.vetoWindowEpochs ≤ (e.next s).epoch)
      (h : m'.custody = ⟨p.newKeys, m.guardian, none⟩)

/-- **Every row of the next state comes from a row there was**, by one of the transitions of
a rotation or unchanged, or is new and has neither guardians nor a rotation. -/
theorem custodyStep (e : Event) {s : State} (hs : s.Issued) {id : MemberId} {m' : Member}
    (hm' : (e.next s).members[id]? = some m') : CustodyStep e s id m' := by
  have of_left : ∀ t : State, RowsLeft Member.custody s t → ∀ m'', t.members[id]? = some m'' →
      m''.custody = m'.custody → CustodyStep e s id m' := by
    intro t ht m'' hm'' hc
    obtain ⟨m, hm, hview⟩ := ht.rows id m'' hm''
    exact .kept m hm (hc.symm.trans hview)
  cases e with
  | block nowSecs =>
    exact of_left _ (rowsLeft_beginBlock custody_ignoresBooks custody_ignoresCharges nowSecs s)
      m' hm' rfl
  | transaction tx txId expiry signers nowSecs =>
    have hbegin := rowsLeft_beginBlock custody_ignoresBooks custody_ignoresCharges nowSecs s
    have hgate := Apply.keepsView_bondGate custody_ignoresCharges tx signers (s.beginBlock nowSecs)
    rcases Apply.exec_apply_cases tx txId expiry signers nowSecs s with
      ⟨e, -, hexec⟩ | ⟨-, e, t, ht, hexec⟩ | ⟨-, charged, sponsor, t, outcome, u, ht, hu, hexec⟩
    · rw [Event.next, hexec] at hm'
      exact of_left _ hbegin m' hm' rfl
    · rw [Event.next, hexec] at hm'
      rw [ht] at hgate
      exact of_left t (IsTrans.trans _ _ _ hbegin hgate.rowsLeft) m' hm' rfl
    rw [ht] at hgate
    -- the transition runs in `r`, whose rows are those the block opened with
    have hopen : SameView Member.custody (s.beginBlock nowSecs) (t.recordApplied txId expiry) :=
      IsTrans.trans _ _ _ hgate (.of_eq rfl rfl)
    generalize hr : t.recordApplied txId expiry = r at hu hopen
    have hleft : RowsLeft Member.custody s r := IsTrans.trans _ _ _ hbegin hopen.rowsLeft
    have hnext : Event.next (.transaction tx txId expiry signers nowSecs) s =
        Apply.settleOutcome tx txId expiry signers charged outcome u := by
      rw [Event.next, hexec]
    have hsettle : SameView Member.custody u
        (Event.next (.transaction tx txId expiry signers nowSecs) s) := by
      rw [hnext]
      exact Apply.sameView_settleOutcome custody_ignoresCharges _ _ _ _ _ _ u
    obtain ⟨mu, hmu, hview⟩ := hsettle.rowsLeft.rows id m' hm'
    -- what every transition does that leaves the custody of rows alone
    have of_kept : Untouched Member.custody tx →
        CustodyStep (.transaction tx txId expiry signers nowSecs) s id m' := by
      intro htx
      have hkeeps := Apply.keepsRows_dispatch custody_ignoresBooks tx signers sponsor htx r
        (hleft.issued hs)
      rw [hu] at hkeeps
      cases hrow : r.members[id]? with
      | some mr =>
        obtain ⟨mu', hmu', hview'⟩ := hkeeps.kept id mr hrow
        obtain rfl : mu = mu' := Option.some.inj (hmu.symm.trans hmu')
        exact of_left r hleft mr hrow (hview'.symm.trans hview.symm)
      | none =>
        obtain ⟨hid, m₀, ⟨_, _, _, _, _, rfl⟩, hblank⟩ := hkeeps.born id mu hmu hrow
        have hcustody := hview.trans hblank
        exact .opened (hleft.next ▸ hid) (congrArg Custody.guardian hcustody)
          (congrArg Custody.pendingRotation hcustody)
    -- a transition of a rotation that is refused has changed nothing
    have of_refused : ∀ {Q : Unit → State → Prop} {err : Code},
        Op.Triple (· = r) (Apply.dispatch tx signers sponsor) Q (· = r) → outcome = .error err →
        CustodyStep (.transaction tx txId expiry signers nowSecs) s id m' := by
      intro Q err h herr
      obtain rfl : u = r := h.error rfl (herr ▸ hu)
      exact of_left u hleft mu hmu hview.symm
    -- one that succeeds has written one row, and settling it changes nothing more
    have of_written : ∀ {a : MemberId} {f : Member → Member}, outcome = .ok () →
        u = r.modMember a f → (∃ m, s.members[id]? = some m ∧ m'.custody = m.custody) ∨
          a = id ∧ ∃ m mr, s.members[id]? = some m ∧ r.members[id]? = some mr ∧
            mr.custody = m.custody ∧ m'.custody = (f mr).custody := by
      intro a f hok hmod
      rw [hmod] at hmu
      obtain ⟨mr, hmr, hmu⟩ := row_modMember hmu
      obtain ⟨m, hm, hc⟩ := hleft.rows id mr hmr
      split at hmu
      · next ha => exact Or.inr ⟨ha, m, mr, hm, hmr, hc, hmu ▸ hview⟩
      · exact Or.inl ⟨m, hm, hview.trans (hmu ▸ hc)⟩
    have hcarries : outcome = .ok () → Event.Carries tx
        (.transaction tx txId expiry signers nowSecs) s := fun hok =>
      ⟨txId, expiry, signers, nowSecs, rfl, by rw [hexec, hok]⟩
    have hepoch : outcome = .ok () → u.epoch = r.epoch ∧
        (Event.next (.transaction tx txId expiry signers nowSecs) s) = u := by
      intro hok
      have hsteady := Apply.steady_dispatch tx signers sponsor r
      rw [hu] at hsteady
      exact ⟨hsteady.epoch, by rw [hnext, hok]; rfl⟩
    cases tx with
    | registerGuardians a guardians threshold window =>
      have hexact := Apply.exact_registerGuardians r a guardians threshold window signers
      cases outcome with
      | error err => exact of_refused hexact rfl
      | ok _ =>
        obtain ⟨hknown, hmod⟩ := hexact.ok rfl hu
        obtain ⟨m, hm, hc⟩ | ⟨rfl, m, mr, hm, -, hc, hm'c⟩ := of_written rfl hmod
        · exact .kept m hm hc
        · refine .registered m hm guardians threshold window (hcarries rfl) (fun g hg => ?_) ?_
          · obtain ⟨hne, mg, hmg⟩ := hknown g hg
            refine ⟨hne, mg, ?_⟩
            rw [(hepoch rfl).2, hmod]
            simp only [State.modMember, OrdMap.getElem?_modify_map, hmg, Option.map_some,
              if_neg (Ne.symm hne)]
          · rw [hm'c]
            exact congrArg (fun c : Custody => Custody.mk c.keys _ none) hc
    | rotateVeto a =>
      have hexact := Apply.exact_rotateVeto r a signers
      cases outcome with
      | error err => exact of_refused hexact rfl
      | ok _ =>
        obtain ⟨m, hm, hc⟩ | ⟨rfl, m, mr, hm, -, hc, hm'c⟩ := of_written rfl (hexact.ok rfl hu)
        · exact .kept m hm hc
        · refine .vetoed m hm (hcarries rfl) (hm'c.trans ?_)
          exact congrArg (fun c : Custody => Custody.mk c.keys c.guardian none) hc
    | rotateRequest a newKeys =>
      have hexact := Apply.exact_rotateRequest r a newKeys signers
      cases outcome with
      | error err => exact of_refused hexact rfl
      | ok _ =>
        obtain ⟨mr', cfg, hmr', hcfg, hsigned, hmod⟩ := hexact.ok rfl hu
        obtain ⟨m, hm, hc⟩ | ⟨rfl, m, mr, hm, hmr, hc, hm'c⟩ := of_written rfl hmod
        · exact .kept m hm hc
        · obtain rfl : mr = mr' := Option.some.inj (hmr.symm.trans hmr')
          have hguardian : m.guardian = some cfg :=
            (congrArg Custody.guardian hc).symm.trans hcfg
          refine .requested m hm newKeys txId expiry signers nowSecs rfl (hcarries rfl) cfg
            hguardian ?_ (hm'c.trans ?_)
          · rwa [signingGuardians_congr hopen] at hsigned
          · rw [(hepoch rfl).2, (hepoch rfl).1]
            exact congrArg (fun c : Custody => Custody.mk c.keys c.guardian _) hc
    | rotateFinalize a =>
      have hexact := Apply.exact_rotateFinalize r a
      cases outcome with
      | error err => exact of_refused hexact rfl
      | ok _ =>
        obtain ⟨mr', cfg, p, hmr', hcfg, hp, hlate, hmod⟩ := hexact.ok rfl hu
        have hrows : u.members = (r.modMember a fun m =>
            { m with keys := p.newKeys, pendingRotation := none }).members := by
          rw [hmod]
          rfl
        rw [hrows] at hmu
        obtain ⟨mr, hmr, hwritten⟩ := row_modMember hmu
        obtain ⟨m, hm, hc⟩ := hleft.rows id mr hmr
        split at hwritten
        · next ha =>
          subst ha
          obtain rfl : mr = mr' := Option.some.inj (hmr.symm.trans hmr')
          refine .finalized m hm (hcarries rfl) cfg p ((congrArg Custody.guardian hc).symm.trans hcfg)
            ((congrArg Custody.pendingRotation hc).symm.trans hp) ?_ ?_
          · rwa [(hepoch rfl).2, (hepoch rfl).1]
          · rw [hview, hwritten]
            exact congrArg (fun c : Custody => Custody.mk p.newKeys c.guardian none) hc
        · exact .kept m hm (hview.trans (hwritten ▸ hc))
    | setConsensusKey a key => exact of_kept fun _ _ => rfl
    | exit a => exact of_kept fun _ => rfl
    | assent a code => exact of_kept ⟨fun _ _ => rfl, fun _ _ _ => rfl⟩
    | forfeitBonds a => exact of_kept fun _ _ => rfl
    | _ => exact of_kept trivial

/-- A successful event is the dispatch of its transaction, on rows that the boundary left. -/
theorem Event.Carries.dispatched {tx : Tx} {e : Event} {s : State} (h : e.Carries tx s) :
    ∃ signers sponsor r, RowsLeft Member.custody s r ∧
      Op.exec (Apply.dispatch tx signers sponsor) r = (.ok (), e.next s) := by
  obtain ⟨txId, expiry, signers, nowSecs, rfl, hok⟩ := h
  have hbegin := rowsLeft_beginBlock custody_ignoresBooks custody_ignoresCharges nowSecs s
  have hgate := Apply.keepsView_bondGate custody_ignoresCharges tx signers (s.beginBlock nowSecs)
  rcases Apply.exec_apply_cases tx txId expiry signers nowSecs s with
    ⟨e, -, hexec⟩ | ⟨-, e, t, ht, hexec⟩ | ⟨-, charged, sponsor, t, outcome, u, ht, hu, hexec⟩
  · rw [hexec] at hok
    cases hok
  · rw [hexec] at hok
    cases hok
  rw [hexec] at hok
  obtain rfl : outcome = .ok () := hok
  rw [ht] at hgate
  have hopen : SameView Member.custody t (t.recordApplied txId expiry) := .of_eq rfl rfl
  refine ⟨signers, sponsor, _, IsTrans.trans _ _ _ hbegin
    (IsTrans.trans _ _ _ hgate.rowsLeft hopen.rowsLeft), ?_⟩
  rw [Event.next, hexec, hu]
  rfl

/-! ### The request behind a pending rotation -/

/-- The event withdraws what a rotation was asked for under: a veto, or other guardians. -/
def Event.Withdraws (id : MemberId) (e : Event) (s : State) : Prop :=
  e.Carries (.rotateVeto id) s ∨
    ∃ guardians threshold window, e.Carries (.registerGuardians id guardians threshold window) s

/-- The event asks successfully for a rotation under the configuration in force, signed by
as many of its guardians as the threshold says. -/
def Event.Asks (id : MemberId) (newKeys : List Key) (cfg : GuardianConfig) (e : Event)
    (s : State) : Prop :=
  e.Carries (.rotateRequest id newKeys) s ∧
    (∃ m, s.members[id]? = some m ∧ m.guardian = some cfg) ∧
    ∃ txId notAfterEpoch signers nowSecs,
      e = .transaction (.rotateRequest id newKeys) txId notAfterEpoch signers nowSecs ∧
      ∃ signed : List MemberId, signed.Nodup ∧ cfg.threshold ≤ signed.length ∧
        ∀ g ∈ signed, g ∈ cfg.guardians ∧
          ∃ m, (s.beginBlock nowSecs).members[g]? = some m ∧ ∃ k ∈ m.keys, k ∈ signers

theorem Event.Withdraws.pending {id : MemberId} {e : Event} {s : State} (h : e.Withdraws id s)
    {m' : Member} (hm' : (e.next s).members[id]? = some m') : m'.pendingRotation = none := by
  rcases h with h | ⟨guardians, threshold, window, h⟩
  · obtain ⟨signers, sponsor, r, -, hu⟩ := h.dispatched
    have hmod := (Apply.exact_rotateVeto r id signers).ok rfl hu
    rw [hmod] at hm'
    obtain ⟨m, -, rfl⟩ := row_modMember hm'
    rw [if_pos rfl]
  · obtain ⟨signers, sponsor, r, -, hu⟩ := h.dispatched
    obtain ⟨-, hmod⟩ :=
      (Apply.exact_registerGuardians r id guardians threshold window signers).ok rfl hu
    rw [hmod] at hm'
    obtain ⟨m, -, rfl⟩ := row_modMember hm'
    rw [if_pos rfl]

omit [Libm] in
/-- Distinct guardians are behind the count that a request is judged by. -/
theorem exists_signed {s : State} {cfg : GuardianConfig} {signers : List Key} {n : Nat}
    (h : n ≤ Apply.signingGuardians s cfg signers) :
    ∃ signed : List MemberId, signed.Nodup ∧ n ≤ signed.length ∧
      ∀ g ∈ signed, g ∈ cfg.guardians ∧
        ∃ m, s.members[g]? = some m ∧ ∃ k ∈ m.keys, k ∈ signers := by
  refine ⟨cfg.guardians.toList.filter fun g => (Apply.requireSigned s g signers).isOk,
    (OrdSet.nodup_toList _).filter _, ?_, fun g hg => ?_⟩
  · rwa [← List.countP_eq_length_filter]
  · obtain ⟨hmem, hok⟩ := List.mem_filter.1 hg
    refine ⟨Std.ExtTreeSet.mem_toList.1 hmem, ?_⟩
    unfold Apply.requireSigned at hok
    split at hok
    · cases hok
    · next m hm =>
      split at hok
      · next hsigned =>
        obtain ⟨k, hk, hkeys⟩ := List.any_eq_true.1 hsigned
        exact ⟨m, Apply.findMember_eq_ok.1 hm, k, List.contains_iff_mem.1 hkeys, hk⟩
      · cases hok

omit [Libm] in
/-- Nobody founded has guardians. -/
theorem custody_of_genesis {g : Genesis} {s : State} (h : genesisState g = .ok s) {id : MemberId}
    {m : Member} (hm : s.members[id]? = some m) : m.guardian = none ∧ m.pendingRotation = none := by
  have hall : ∀ (id : MemberId) (m : Member), s.members[id]? = some m →
      m.guardian = none ∧ m.pendingRotation = none := by
    refine (genesisState_keeps (I := fun s => s.Issued ∧ ∀ (id : MemberId) (m : Member),
      s.members[id]? = some m → m.guardian = none ∧ m.pendingRotation = none)
      ?_ ?_ h).2
    · exact fun _ _ _ => ⟨fun id _ => by simp, fun id m hm => by simp at hm⟩
    · intro supplies entry s s' hs hseat
      have hkeeps : KeepsRows Member.custody s s' := keepsRows_seatEntry (fun _ _ => rfl) hseat
      have hkept := hkeeps hs.1
      refine ⟨hkept.issued, fun id m' hm' => ?_⟩
      cases hm : s.members[id]? with
      | some m =>
        obtain ⟨n, hn, hc⟩ := hkept.kept id m hm
        obtain rfl : m' = n := Option.some.inj (hm'.symm.trans hn)
        obtain ⟨hguardian, hpending⟩ := hs.2 id m hm
        exact ⟨(congrArg Custody.guardian hc).trans hguardian,
          (congrArg Custody.pendingRotation hc).trans hpending⟩
      | none =>
        obtain ⟨-, m₀, ⟨_, _, _, _, _, rfl⟩, hc⟩ := hkept.born id m' hm' hm
        exact ⟨congrArg Custody.guardian hc, congrArg Custody.pendingRotation hc⟩
  exact hall id m hm

theorem Event.run_append (es es' : List Event) (s : State) :
    Event.run (es ++ es') s = Event.run es' (Event.run es s) := List.foldl_append

/-- What a run contains of the request behind a rotation: the request itself, asked in the
epoch the rotation was opened in, and no withdrawal since. -/
def AskedFor (id : MemberId) (cfg : GuardianConfig) (p : PendingRotation) (es : List Event)
    (s : State) : Prop :=
  ∃ es₁ e es₂, es = es₁ ++ e :: es₂ ∧ e.Asks id p.newKeys cfg (Event.run es₁ s) ∧
    (e.next (Event.run es₁ s)).epoch = p.openedEpoch ∧
    Reaches.Admits Event.next (fun e s => ¬e.Withdraws id s) es₂ (e.next (Event.run es₁ s))

theorem AskedFor.snoc {id : MemberId} {cfg : GuardianConfig} {p : PendingRotation}
    {es : List Event} {e : Event} {s : State} (h : AskedFor id cfg p es s)
    (hkept : ¬e.Withdraws id (Event.run es s)) : AskedFor id cfg p (es ++ [e]) s := by
  obtain ⟨es₁, e₁, es₂, rfl, hasks, hepoch, hsince⟩ := h
  refine ⟨es₁, e₁, es₂ ++ [e], by simp, hasks, hepoch, hsince.append ⟨?_, trivial⟩⟩
  rwa [Event.run_append] at hkept

/-- **A rotation that is pending was asked for** in the run, under the guardians still in
force, and neither vetoed nor were the guardians replaced since. -/
theorem asked_of_pending {s : State} (hs : Founding s) (es : List Event) {id : MemberId}
    {m : Member} {p : PendingRotation} (hm : (Event.run es s).members[id]? = some m)
    (hp : m.pendingRotation = some p) :
    ∃ cfg, m.guardian = some cfg ∧ AskedFor id cfg p es s := by
  obtain ⟨g, hg⟩ := hs
  induction es using List.reverseRecOn generalizing m with
  | nil => rw [(custody_of_genesis hg hm).2] at hp; cases hp
  | append_singleton es e ih =>
    have hissued := issued_run es (issued_of_genesis hg)
    rw [Event.run_append] at hm
    -- an event that withdraws would leave no rotation
    have hkept : ¬e.Withdraws id (Event.run es s) := fun hw => by
      rw [hw.pending hm] at hp
      cases hp
    cases custodyStep e hissued hm with
    | kept m₀ hm₀ h =>
      have hp₀ : m₀.pendingRotation = some p := (congrArg Custody.pendingRotation h).symm.trans hp
      obtain ⟨cfg, hcfg, hasked⟩ := ih hm₀ hp₀
      exact ⟨cfg, (congrArg Custody.guardian h).trans hcfg, hasked.snoc hkept⟩
    | opened _ _ hnone =>
      rw [hnone] at hp
      cases hp
    | registered _ _ _ _ _ _ _ h =>
      rw [show m.pendingRotation = none from congrArg Custody.pendingRotation h] at hp
      cases hp
    | requested m₀ hm₀ newKeys txId expiry signers nowSecs he hok cfg hcfg hsigned h =>
      have hpending : some ⟨newKeys, (e.next (Event.run es s)).epoch⟩ = some p :=
        (congrArg Custody.pendingRotation h).symm.trans hp
      cases hpending
      refine ⟨cfg, (congrArg Custody.guardian h).trans hcfg, es, e, [], rfl, ?_, rfl, trivial⟩
      exact ⟨hok, ⟨m₀, hm₀, hcfg⟩, txId, expiry, signers, nowSecs, he, exists_signed hsigned⟩
    | vetoed _ _ _ h =>
      rw [show m.pendingRotation = none from congrArg Custody.pendingRotation h] at hp
      cases hp
    | finalized _ _ _ _ _ _ _ _ h =>
      rw [show m.pendingRotation = none from congrArg Custody.pendingRotation h] at hp
      cases hp

/-- **A member's keys change only by a recovery its guardians asked for**: the rotation is
finalized no sooner than the veto window after the request, which was neither vetoed nor
were the guardians replaced since. -/
theorem keys_by_recovery {s : State} (hs : Founding s) (es : List Event) (e : Event)
    {id : MemberId} {m m' : Member} (hm : (Event.run es s).members[id]? = some m)
    (hm' : (e.next (Event.run es s)).members[id]? = some m') (hkeys : m'.keys ≠ m.keys) :
    e.Carries (.rotateFinalize id) (Event.run es s) ∧
      ∃ cfg p, p.newKeys = m'.keys ∧ AskedFor id cfg p es s ∧
        horizon p.openedEpoch cfg.vetoWindowEpochs ≤ (e.next (Event.run es s)).epoch := by
  have hissued : (Event.run es s).Issued :=
    issued_run es (by obtain ⟨g, hg⟩ := hs; exact issued_of_genesis hg)
  have same_keys : ∀ {m₀ : Member}, (Event.run es s).members[id]? = some m₀ →
      m'.keys = m₀.keys → False := fun hm₀ h =>
    hkeys (by rw [h, Option.some.inj (hm₀.symm.trans hm)])
  cases custodyStep e hissued hm' with
  | kept m₀ hm₀ h => exact (same_keys hm₀ (congrArg Custody.keys h)).elim
  | opened hid =>
    rw [hissued id hid] at hm
    cases hm
  | registered m₀ hm₀ _ _ _ _ _ h => exact (same_keys hm₀ (congrArg Custody.keys h)).elim
  | requested m₀ hm₀ _ _ _ _ _ _ _ _ _ _ h =>
    exact (same_keys hm₀ (congrArg Custody.keys h)).elim
  | vetoed m₀ hm₀ _ h => exact (same_keys hm₀ (congrArg Custody.keys h)).elim
  | finalized m₀ hm₀ he cfg p hcfg hp hlate h =>
    obtain ⟨cfg', hcfg', hasked⟩ := asked_of_pending hs es hm₀ hp
    obtain rfl : cfg' = cfg := Option.some.inj (hcfg'.symm.trans hcfg)
    exact ⟨he, cfg', p, (congrArg Custody.keys h).symm, hasked, hlate⟩

/-! ### Sufficient configurations -/

/-- Every stored configuration names as many members as its threshold says, the protected
one not among them. -/
def GuardiansSuffice (s : State) : Prop :=
  ∀ (id : MemberId) (m : Member) (cfg : GuardianConfig), s.members[id]? = some m →
    m.guardian = some cfg →
      cfg.threshold ≤ cfg.guardians.size ∧ id ∉ cfg.guardians ∧
        ∀ g ∈ cfg.guardians, ∃ mg, s.members[g]? = some mg

/-- A registration that is long enough for its threshold is so without its repetitions. -/
def Event.NamesEnough : Event → Prop
  | .transaction (.registerGuardians _ guardians threshold _) _ _ _ _ =>
    threshold ≤ guardians.length → threshold ≤ guardians.dedup.length
  | _ => True

omit [Libm] in
/-- A boundary retires no row that is a guardian of another. -/
theorem guardian_beginBlock {s : State} (nowSecs : Nat) {id g : MemberId} {m mg : Member}
    {cfg : GuardianConfig} (hm : s.members[id]? = some m) (hcfg : m.guardian = some cfg)
    (hg : g ∈ cfg.guardians) (hmg : s.members[g]? = some mg) :
    ∃ mg', (s.beginBlock nowSecs).members[g]? = some mg' := by
  have row_of_view : ∀ {s s' : State}, SameView Member.custody s s' → ∀ {a : MemberId} {m : Member},
      s.members[a]? = some m → ∃ m', s'.members[a]? = some m' ∧ m'.custody = m.custody := by
    intro s s' h a m hm
    have hrow := h.rows a
    rw [hm, Option.map_some, Option.map_eq_some_iff] at hrow
    exact hrow
  obtain ⟨u, v, hu, hv, hend⟩ := beginBlock_ends (R := SameView Member.custody)
    (fun _ _ h => .of_offBooks custody_ignoresBooks.books h)
    (fun _ => Apply.keepsView_forfeitBonds _ fun _ _ => rfl) (fun _ _ => .of_eq rfl rfl)
    (fun s => sameView_advanceEpoch custody_ignoresBooks.books custody_ignoresCharges s)
    (fun s => .mapMembers (f := fun _ m =>
      { m with bonds := m.bonds.filter fun k _ => decide (horizon s.epoch 1 ≤ k) })
      (fun _ _ => rfl) rfl rfl) nowSecs s
  obtain ⟨mu, hmu, hcustody⟩ := row_of_view hu hm
  obtain ⟨gu, hgu, -⟩ := row_of_view hu hmg
  have hthere : ∃ gv, v.members[g]? = some gv := by
    rcases hv with rfl | rfl
    · exact ⟨gu, hgu⟩
    · refine Apply.getElem?_foldl_retireRow _ (fun hmem => ?_) hgu
      -- the protected row names its guardian, so that the guardian's is not an empty row
      obtain ⟨q, hq, rfl⟩ := List.mem_map.1 hmem
      have hempty := (List.mem_filter.1 hq).2
      have hnamed : q.2.id ∈ Apply.namedMembers (Apply.pruneClosedRows u) := by
        refine List.mem_append_right _ (List.mem_flatMap.2 ⟨(id, mu), OrdMap.mem_toList.2 hmu, ?_⟩)
        have hguardian : mu.guardian = some cfg :=
          (congrArg Custody.guardian hcustody).trans hcfg
        unfold Apply.memberNames
        rw [hguardian]
        exact List.mem_append_left _ (Std.ExtTreeSet.mem_toList.2 hg)
      unfold Apply.emptyRow at hempty
      simp only [Bool.and_eq_true, decide_eq_true_eq] at hempty
      tauto
  obtain ⟨gv, hgv⟩ := hthere
  obtain ⟨ge, hge, -⟩ := row_of_view hend hgv
  exact ⟨ge, hge⟩

/-- An event leaves the guardians of a row in place. -/
theorem guardian_next (e : Event) {s : State} (hs : s.Issued) {id g : MemberId} {m mg : Member}
    {cfg : GuardianConfig} (hm : s.members[id]? = some m) (hcfg : m.guardian = some cfg)
    (hg : g ∈ cfg.guardians) (hmg : s.members[g]? = some mg) :
    ∃ mg', (e.next s).members[g]? = some mg' := by
  cases e with
  | block nowSecs => exact guardian_beginBlock nowSecs hm hcfg hg hmg
  | transaction tx txId expiry signers nowSecs =>
    obtain ⟨mb, hmb⟩ := guardian_beginBlock nowSecs hm hcfg hg hmg
    have hissued := (rowsLeft_beginBlock custody_ignoresBooks custody_ignoresCharges nowSecs s).issued hs
    have htx : Untouched (fun _ : Member => ()) tx := by
      cases tx <;> simp [Untouched]
    have hkeeps : KeepsRows (fun _ => ()) (s.beginBlock nowSecs)
        (Event.next (.transaction tx txId expiry signers nowSecs) s) :=
      keepsRows_next ⟨fun _ => rfl, fun _ _ _ _ => rfl⟩ ⟨fun _ _ _ _ _ _ => rfl⟩ tx htx txId expiry
        signers nowSecs s
    obtain ⟨m', hm', -⟩ := (hkeeps hissued).kept g mb hmb
    exact ⟨m', hm'⟩

/-- A registration that succeeds has a list as long as its threshold says. -/
theorem registered_long {id : MemberId} {guardians : List MemberId} {threshold window : Nat}
    {e : Event} {s : State} (h : e.Carries (.registerGuardians id guardians threshold window) s) :
    threshold ≤ guardians.length := by
  obtain ⟨signers, sponsor, r, -, hu⟩ := h.dispatched
  have hsucceeds : Op.Accepts (Apply.registerGuardians id guardians threshold window signers) r :=
    ⟨(), _, hu, trivial⟩
  unfold Apply.registerGuardians at hsucceeds
  obtain ⟨_, -, hrest⟩ := hsucceeds.of_check_bind
  obtain ⟨hthreshold, -⟩ := hrest.of_refuseIf_bind
  exact Nat.le_of_not_lt fun h => hthreshold (Or.inr h)

omit [Libm] in
theorem mem_storedConfig {guardians : List MemberId} {threshold window : Nat} {g : MemberId} :
    g ∈ (Apply.storedConfig guardians threshold window).guardians ↔ g ∈ guardians := by
  unfold Apply.storedConfig
  rw [OrdSet.mem_foldl_insert]
  simp

/-- Registrations that name enough distinct members leave every configuration sufficient. -/
theorem guardiansSuffice_next (e : Event) (he : e.NamesEnough) {s : State} (hs : s.Issued)
    (h : GuardiansSuffice s) : GuardiansSuffice (e.next s) := by
  intro id m' cfg hm' hcfg'
  have of_kept : ∀ m, s.members[id]? = some m → m'.guardian = m.guardian →
      cfg.threshold ≤ cfg.guardians.size ∧ id ∉ cfg.guardians ∧
        ∀ g ∈ cfg.guardians, ∃ mg, (e.next s).members[g]? = some mg := by
    intro m hm hguardian
    have hcfg : m.guardian = some cfg := hguardian.symm.trans hcfg'
    obtain ⟨hthreshold, hself, hthere⟩ := h id m cfg hm hcfg
    refine ⟨hthreshold, hself, fun g hg => ?_⟩
    obtain ⟨mg, hmg⟩ := hthere g hg
    exact guardian_next e hs hm hcfg hg hmg
  cases custodyStep e hs hm' with
  | kept m hm hc => exact of_kept m hm (congrArg Custody.guardian hc)
  | opened _ hnone =>
    rw [hnone] at hcfg'
    cases hcfg'
  | registered m hm guardians threshold window hok hknown hc =>
    have hstored : some (Apply.storedConfig guardians threshold window) = some cfg :=
      (congrArg Custody.guardian hc).symm.trans hcfg'
    cases hstored
    have hlong := registered_long hok
    obtain ⟨txId, expiry, signers, nowSecs, rfl, -⟩ := hok
    refine ⟨?_, fun hself => ?_, fun g hg => ?_⟩
    · exact (he hlong).trans (OrdSet.size_foldl_insert guardians).ge
    · exact (hknown id (mem_storedConfig.1 hself)).1 rfl
    · exact (hknown g (mem_storedConfig.1 hg)).2
  | requested m hm _ _ _ _ _ _ _ _ _ _ hc => exact of_kept m hm (congrArg Custody.guardian hc)
  | vetoed m hm _ hc => exact of_kept m hm (congrArg Custody.guardian hc)
  | finalized m hm _ _ _ _ _ _ hc => exact of_kept m hm (congrArg Custody.guardian hc)

theorem guardiansSuffice_of_genesis {g : Genesis} {s : State} (h : genesisState g = .ok s) :
    GuardiansSuffice s := by
  intro id m cfg hm hcfg
  rw [(custody_of_genesis h hm).1] at hcfg
  cases hcfg

theorem guardiansSuffice_run (es : List Event) (hes : ∀ e ∈ es, e.NamesEnough) {s : State}
    (hs : s.Issued) (h : GuardiansSuffice s) : GuardiansSuffice (Event.run es s) := by
  induction es generalizing s with
  | nil => exact h
  | cons e es ih =>
    exact ih (fun e' he' => hes e' (List.mem_cons_of_mem _ he')) (issued_next e hs)
      (guardiansSuffice_next e (hes e List.mem_cons_self) hs h)

/-- **Guardian recovery is neither bypassed nor dead**, if registrations name as many
distinct members as their thresholds say. -/
theorem recovery_of_distinct {s : State} (hs : Founding s) (es : List Event)
    (hes : ∀ e ∈ es, e.NamesEnough) :
    GuardiansSuffice (Event.run es s) ∧
      ∀ (e : Event) (id : MemberId) (m m' : Member), (Event.run es s).members[id]? = some m →
        (e.next (Event.run es s)).members[id]? = some m' → m'.keys ≠ m.keys →
          e.Carries (.rotateFinalize id) (Event.run es s) ∧
            ∃ cfg p, p.newKeys = m'.keys ∧ AskedFor id cfg p es s ∧
              horizon p.openedEpoch cfg.vetoWindowEpochs ≤ (e.next (Event.run es s)).epoch := by
  refine ⟨?_, fun e id m m' hm hm' hkeys => keys_by_recovery hs es e hm hm' hkeys⟩
  obtain ⟨g, hg⟩ := hs
  exact guardiansSuffice_run es hes (issued_of_genesis hg) (guardiansSuffice_of_genesis hg)

end Events

/-- The first founder is recovered by the other two: its keys change to those they asked
for. -/
theorem recovery_after_rotation :
    letI := Libm.unused
    let s := (devGenesis [1000, 1000, 1000]).state
    let es := rotationEvents [founderKey 9]
    GuardiansSuffice (Event.run es s) ∧
      ∃ cfg p, p.newKeys = [founderKey 9] ∧ AskedFor 0 cfg p es s ∧
        horizon p.openedEpoch cfg.vetoWindowEpochs ≤
          (finalizeEvent.next (Event.run es s)).epoch := by
  let _ : Libm := Libm.unused
  obtain ⟨hsuffice, hkeys⟩ := recovery_of_distinct
    (Genesis.founding_state (g := devGenesis [1000, 1000, 1000]) (by decide +kernel))
    (rotationEvents [founderKey 9]) (by simp [rotationEvents, Event.NamesEnough])
  refine ⟨hsuffice, ?_⟩
  have hbefore : ((Event.run (rotationEvents [founderKey 9])
      (devGenesis [1000, 1000, 1000]).state).members[(0 : MemberId)]?).map Member.keys =
        some [founderKey 0] := by decide +kernel
  have hafter : ((finalizeEvent.next (Event.run (rotationEvents [founderKey 9])
      (devGenesis [1000, 1000, 1000]).state)).members[(0 : MemberId)]?).map Member.keys =
        some [founderKey 9] := by decide +kernel
  obtain ⟨m, hm, hold⟩ := Option.map_eq_some_iff.1 hbefore
  obtain ⟨m', hm', hnew⟩ := Option.map_eq_some_iff.1 hafter
  obtain ⟨-, cfg, p, hp, hrest⟩ := hkeys finalizeEvent 0 m m' hm hm' (by rw [hold, hnew]; decide)
  exact ⟨cfg, p, hp.trans hnew, hrest⟩

/-- A founder names another one twice and asks for two signatures: the configuration stored
has one guardian. -/
theorem guardians_short :
    letI := Libm.unused
    ∃ s, Reaches Event.next Founding (fun _ _ => True) s ∧ ¬GuardiansSuffice s := by
  let _ : Libm := Libm.unused
  let s := (devGenesis [1000, 1000, 1000]).state
  let e : Event := .transaction (.registerGuardians 0 [1, 1] 2 30) 0 0 [founderKey 0] 10
  refine ⟨e.next s, .step (.start (Genesis.founding_state (by decide +kernel))) e trivial, ?_⟩
  intro h
  have hstored : ((e.next s).members[(0 : MemberId)]?.bind Member.guardian).map
      (fun cfg => (cfg.threshold, cfg.guardians.size)) = some (2, 1) := by decide +kernel
  obtain ⟨cfg, hcfg, hpair⟩ := Option.map_eq_some_iff.1 hstored
  obtain ⟨m, hm, hguardian⟩ := Option.bind_eq_some_iff.1 hcfg
  have hle := (h 0 m cfg hm hguardian).1
  simp only [Prod.mk.injEq] at hpair
  omega

end Edet
