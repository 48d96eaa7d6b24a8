import Edet.View.Proposal
import Edet.Ledger.Genesis

/-!
# Consent

What the completion of a proposal says about who agreed to it, over any run of messages
below the pool's caps (`Calm`).

Every request brings its own list of the parties that are to sign, and the digest does not
cover that list. As long as all requests that count (`countsFor`) bring the same list `R`
and threshold `m`, a completion has the consent of `m` parties of `R` and nobody outside `R`
has a hand in it (`outsiders_idle`). Otherwise an outsider that names itself completes a
proposal alone (`outsider_completes`).

Who signs first matters, because a key without an account may sign but not open a proposal.
In orders that begin with a request that may open it (`Opened`), a proposal completes
exactly when enough parties have signed (`completes_iff`).
-/

namespace Edet.View

section Scheme

variable (scheme : Scheme) (sha256 : Bytes → Bytes) (digest : Digest)

/-- The member on whose behalf a request that names `R` may open the digest's entry. -/
def Msg.opensFor (R : List Party) : Msg → Option MemberId
  | .sign s req nowSecs =>
    if requestDigest scheme s req = some digest ∧ req.required = R then
      match countsFor scheme s req digest with
      | none => none
      | some party => (mayOpen scheme s req party nowSecs).map Prod.fst
    else none
  | .decline .. => none

/-- Is the message verifiably from a party of `R`, or from a member for which some request
of the run that names `R` may open the digest's entry? -/
def insider (R : List Party) (run : List Msg) (msg : Msg) : Bool :=
  match msg.party scheme sha256 with
  | none => false
  | some p =>
    decide (p ∈ R) || run.any fun m => decide ((m.opensFor scheme digest R).map Party.member = some p)

variable (R : List Party) (m : Nat)

/-- A request for the digest that counts names `R` and `m`. -/
def Names (msg : Msg) : Prop :=
  ∀ s req nowSecs, msg = .sign s req nowSecs → requestDigest scheme s req = some digest →
    countsFor scheme s req digest ≠ none → req.required = R ∧ req.minSigs = m

/-- Some message of the run carries the signature, of a key that was a party of `R`. -/
def Vouched (run : List Msg) (k : Key) : Prop :=
  ∃ s req nowSecs, Msg.sign s req nowSecs ∈ run ∧ req.signer = k ∧ partyOf s k ∈ R

/-- What is handed over has the consent of `m` parties of `R`, and no other signer. -/
structure Consented (run : List Msg) (msg : Msg) (done : Completed) : Prop where
  /-- Enough parties have verifying signatures on the digest. -/
  parties : ∃ s req nowSecs, msg = .sign s req nowSecs ∧ ∃ ps : List Party, ps.Nodup ∧
    m ≤ ps.length ∧ ∀ p ∈ ps, p ∈ R ∧ ∃ k signature, (k, signature) ∈ done.signers.zip done.signatures ∧
      partyOf s k = p ∧ scheme.verify k (digestBytes digest) signature = true
  signers : ∀ k ∈ done.signers, Vouched R run k

/-- What holds of an open entry over a run whose requests name `R` and `m`. -/
structure EntrySound (run : List Msg) (e : PendingEntry) : Prop where
  required : e.required = R
  minSigs : e.minSigs = m
  initiator : ∃ msg ∈ run, msg.opensFor scheme digest R = some e.initiator
  signed : ∀ k signature, e.sigs[k]? = some signature →
    scheme.verify k (digestBytes digest) signature = true ∧ Vouched R run k

/-- The entry, if there is one, is sound. -/
def Phase.Sound (run : List Msg) (phase : Phase) : Prop :=
  ∀ e, phase = .live e → EntrySound scheme digest R m run e

variable {scheme sha256 digest R m} {run : List Msg}

theorem mem_signedParties {s : State} {e : PendingEntry} {p : Party} :
    p ∈ signedParties s e ↔
      p ∈ e.required ∧ ∃ k signature, e.sigs[k]? = some signature ∧ partyOf s k = p := by
  unfold signedParties
  rw [List.mem_dedup, List.mem_filter, List.mem_map, decide_eq_true_iff, and_comm]
  refine and_congr_right fun _ => ⟨?_, ?_⟩
  · rintro ⟨⟨k, signature⟩, hmem, rfl⟩
    exact ⟨k, signature, OrdMap.mem_toList.1 hmem, rfl⟩
  · rintro ⟨k, signature, hsig, rfl⟩
    exact ⟨(k, signature), OrdMap.mem_toList.2 hsig, rfl⟩

/-- A request that counts is verifiably signed by a party that it names. -/
theorem countsFor_some {s : State} {req : PendingSignReq} {party : Party}
    (h : countsFor scheme s req digest = some party) :
    verifiedSigner scheme s req digest = some party ∧ party ∈ req.required := by
  unfold countsFor at h
  split_ifs at h with hbad
  cases hsigner : verifiedSigner scheme s req digest with
  | none => rw [hsigner] at h; cases h
  | some signer =>
    rw [hsigner] at h
    dsimp only at h
    split_ifs at h with hmem
    obtain rfl := Option.some.inj h
    exact ⟨rfl, hmem⟩

theorem verifiedSigner_some {s : State} {req : PendingSignReq} {party : Party}
    (h : verifiedSigner scheme s req digest = some party) :
    scheme.verify req.signer (digestBytes digest) req.signature = true ∧
      partyOf s req.signer = party := by
  unfold verifiedSigner at h
  split_ifs at h with hverify
  exact ⟨hverify, Option.some.inj h⟩

/-- An entry stays sound under one more signature that counts. -/
theorem EntrySound.signed_of_counts {e : PendingEntry} {s : State} {req : PendingSignReq}
    {nowSecs : Nat} {party : Party} (h : EntrySound scheme digest R m run e)
    (hmem : Msg.sign s req nowSecs ∈ run) (hcounts : countsFor scheme s req digest = some party)
    (hR : req.required = R) : EntrySound scheme digest R m run (e.signed req) := by
  obtain ⟨hsigner, hparty⟩ := countsFor_some hcounts
  obtain ⟨hverify, hwho⟩ := verifiedSigner_some hsigner
  refine ⟨h.required, h.minSigs, h.initiator, ?_⟩
  intro k signature hsig
  unfold PendingEntry.signed at hsig
  dsimp only at hsig
  rw [Std.ExtTreeMap.getElem?_insert] at hsig
  split_ifs at hsig with heq
  · obtain rfl : req.signer = k := by simpa using heq
    obtain rfl := Option.some.inj hsig
    refine ⟨hverify, s, req, nowSecs, hmem, rfl, ?_⟩
    rw [hwho, ← hR]
    exact hparty
  · exact h.signed k signature hsig

/-- A sound entry that is handed over has the consent it needs. -/
theorem EntrySound.consented {e : PendingEntry} {s : State} {req : PendingSignReq} {nowSecs : Nat}
    (h : EntrySound scheme digest R m run e) (henough : e.minSigs ≤ (signedParties s e).length) :
    Consented scheme digest R m run (.sign s req nowSecs) e.completed := by
  have hzip : e.completed.signers.zip e.completed.signatures = e.sigs.toList := by
    unfold PendingEntry.completed
    dsimp only
    rw [List.zip_map', List.map_id']
  refine ⟨⟨s, req, nowSecs, rfl, signedParties s e, List.nodup_dedup _, h.minSigs ▸ henough, ?_⟩, ?_⟩
  · intro p hp
    obtain ⟨hrequired, k, signature, hsig, hwho⟩ := mem_signedParties.1 hp
    refine ⟨h.required ▸ hrequired, k, signature, ?_, hwho, (h.signed k signature hsig).1⟩
    rw [hzip]
    exact OrdMap.mem_toList.2 hsig
  · intro k hk
    obtain ⟨⟨k', signature⟩, hmem, rfl⟩ := List.mem_map.1 hk
    exact (h.signed _ signature (OrdMap.mem_toList.1 hmem)).2

/-- Signing a sound entry leaves it sound, and hands it over with the consent it needs. -/
theorem record_sound {e : PendingEntry} {s : State} {req : PendingSignReq} {nowSecs : Nat}
    {party : Party} (h : EntrySound scheme digest R m run e)
    (hmem : Msg.sign s req nowSecs ∈ run) (hcounts : countsFor scheme s req digest = some party)
    (hR : req.required = R) :
    (Phase.record s req e).2.Sound scheme digest R m run ∧
      ∀ done, (Phase.record s req e).1 = some done →
        Consented scheme digest R m run (.sign s req nowSecs) done := by
  have hsigned := h.signed_of_counts hmem hcounts hR
  unfold Phase.record
  split_ifs with henough
  · refine ⟨(fun e' he' => nomatch he'), ?_⟩
    intro done hdone
    obtain rfl := Option.some.inj hdone
    exact hsigned.consented henough
  · refine ⟨?_, fun done hdone => nomatch hdone⟩
    intro e' he'
    obtain rfl := Phase.live.inj he'
    exact hsigned

/-- A request of the run keeps the entry sound. -/
theorem sign_sound {phase : Phase} {s : State} {req : PendingSignReq} {nowSecs : Nat}
    (h : phase.Sound scheme digest R m run) (hmem : Msg.sign s req nowSecs ∈ run)
    (hdigest : requestDigest scheme s req = some digest)
    (hnames : Names scheme digest R m (.sign s req nowSecs)) :
    (phase.sign scheme s req digest nowSecs).2.Sound scheme digest R m run ∧
      ∀ done, (phase.sign scheme s req digest nowSecs).1 = some done →
        Consented scheme digest R m run (.sign s req nowSecs) done := by
  cases hcounts : countsFor scheme s req digest with
  | none =>
    rw [sign_not_counting hcounts]
    exact ⟨h, fun done hdone => nomatch hdone⟩
  | some party =>
    obtain ⟨hR, hm⟩ := hnames s req nowSecs rfl hdigest (by rw [hcounts]; exact fun hn => nomatch hn)
    cases phase with
    | closed => exact ⟨(fun e he => nomatch he), fun done hdone => nomatch hdone⟩
    | live e =>
      unfold Phase.sign
      rw [hcounts]
      exact record_sound (h e rfl) hmem hcounts hR
    | idle =>
      unfold Phase.sign
      rw [hcounts]
      dsimp only
      cases hopens : mayOpen scheme s req party nowSecs with
      | none => exact ⟨h, fun done hdone => nomatch hdone⟩
      | some p =>
        have hopened : EntrySound scheme digest R m run (openEntry req p.1 p.2 nowSecs) := by
          refine ⟨hR, hm, ⟨_, hmem, ?_⟩, fun k signature hsig => ?_⟩
          · unfold Msg.opensFor
            dsimp only
            rw [if_pos ⟨hdigest, hR⟩, hcounts]
            dsimp only
            rw [hopens]
            rfl
          · unfold openEntry at hsig
            dsimp only at hsig
            rw [Std.ExtTreeMap.getElem?_empty] at hsig
            cases hsig
        exact record_sound hopened hmem hcounts hR

/-- A message of the run keeps the entry sound; what is handed over on it has the consent it
needs. -/
theorem deliver_sound (sha256 : Bytes → Bytes) {phase : Phase} {msg : Msg}
    (h : phase.Sound scheme digest R m run)
    (hmem : msg ∈ run) (hnames : Names scheme digest R m msg) :
    (phase.deliver scheme sha256 digest msg).2.Sound scheme digest R m run ∧
      ∀ done, (phase.deliver scheme sha256 digest msg).1 = some done →
        Consented scheme digest R m run msg done := by
  unfold Phase.deliver
  cases msg with
  | sign s req nowSecs =>
    dsimp only
    split_ifs with hdigest
    · exact sign_sound h hmem hdigest hnames
    · exact ⟨h, fun done hdone => nomatch hdone⟩
  | decline s d signer signature =>
    dsimp only
    split_ifs with hd
    · refine ⟨?_, fun done hdone => nomatch hdone⟩
      intro e he
      unfold Phase.decline at he
      split at he
      · split_ifs at he
        exact h e he
      · exact h e he
    · exact ⟨h, fun done hdone => nomatch hdone⟩

/-- A message from outside does nothing. -/
theorem deliver_outsider {phase : Phase} {msg : Msg} (h : phase.Sound scheme digest R m run)
    (hnames : Names scheme digest R m msg)
    (houtside : insider scheme sha256 digest R run msg = false) :
    phase.deliver scheme sha256 digest msg = (none, phase) := by
  unfold insider at houtside
  unfold Phase.deliver
  cases msg with
  | sign s req nowSecs =>
    dsimp only
    split_ifs with hdigest
    · refine sign_not_counting ?_
      -- A request that counts is from a party of `R`.
      by_contra hcounts
      obtain ⟨party, hparty⟩ := Option.ne_none_iff_exists'.1 hcounts
      obtain ⟨hsigner, hmem⟩ := countsFor_some hparty
      have hsent : (Msg.sign s req nowSecs).party scheme sha256 = some party := by
        unfold Msg.party
        dsimp only
        rw [hdigest]
        exact hsigner
      rw [hsent] at houtside
      rw [(hnames s req nowSecs rfl hdigest hcounts).1] at hmem
      simp [hmem] at houtside
    · rfl
  | decline s d signer signature =>
    dsimp only
    split_ifs with hd
    · obtain rfl := hd
      refine congrArg (Prod.mk none) ?_
      unfold Phase.decline
      split
      · next e p hparty =>
        have hsent : (Msg.decline s d signer signature).party scheme sha256 = some p := hparty
        rw [hsent] at houtside
        obtain ⟨hR, hany⟩ := Bool.or_eq_false_iff.1 houtside
        have hsound := h e rfl
        have hinitiator : p ≠ .member e.initiator := by
          rintro rfl
          obtain ⟨msg, hmem, hopens⟩ := hsound.initiator
          have hnot := List.any_eq_false.1 hany msg hmem
          rw [hopens] at hnot
          exact hnot (decide_eq_true rfl)
        rw [if_pos ⟨hsound.required ▸ of_decide_eq_false hR, hinitiator⟩]
      · rfl
    · rfl

theorem Phase.outcomes_cons (phase : Phase) (msg : Msg) (msgs : List Msg) :
    phase.outcomes scheme sha256 digest (msg :: msgs) =
      (msg, (phase.deliver scheme sha256 digest msg).1) ::
        (phase.deliver scheme sha256 digest msg).2.outcomes scheme sha256 digest msgs := rfl

/-- The same over a whole run of the machine. -/
theorem outcomes_sound {phase : Phase} {msgs : List Msg} (h : phase.Sound scheme digest R m run)
    (hmem : ∀ msg ∈ msgs, msg ∈ run) (hnames : ∀ msg ∈ run, Names scheme digest R m msg) :
    (∀ p ∈ phase.outcomes scheme sha256 digest msgs, ∀ done, p.2 = some done →
        Consented scheme digest R m run p.1 done) ∧
      phase.outcomes scheme sha256 digest (msgs.filter (insider scheme sha256 digest R run)) =
        (phase.outcomes scheme sha256 digest msgs).filter
          (fun p => insider scheme sha256 digest R run p.1) ∧
      ∀ p ∈ phase.outcomes scheme sha256 digest msgs,
        insider scheme sha256 digest R run p.1 = false → p.2 = none := by
  induction msgs generalizing phase with
  | nil => exact ⟨(fun p hp => nomatch hp), rfl, fun p hp => nomatch hp⟩
  | cons msg msgs ih =>
    have hhere := hmem msg List.mem_cons_self
    have hname := hnames msg hhere
    obtain ⟨hsound, hdone⟩ := deliver_sound sha256 h hhere hname
    obtain ⟨hrest, hfilter, hquiet⟩ := ih hsound fun msg hm => hmem msg (List.mem_cons_of_mem _ hm)
    rw [Phase.outcomes_cons]
    refine ⟨?_, ?_, ?_⟩
    · intro p hp done hp2
      rcases List.mem_cons.1 hp with rfl | hp
      · exact hdone done hp2
      · exact hrest p hp done hp2
    · cases hinside : insider scheme sha256 digest R run msg with
      | true =>
        simp only [List.filter_cons, hinside, if_true]
        rw [Phase.outcomes_cons, hfilter]
      | false =>
        have hquiet := deliver_outsider h hname hinside
        simp only [List.filter_cons, hinside, Bool.false_eq_true, if_false]
        rw [← hfilter, hquiet]
    · intro p hp houtside
      rcases List.mem_cons.1 hp with rfl | hp
      · rw [deliver_outsider h hname houtside]
      · exact hquiet p hp houtside

/-- **Outsiders have no hand in a proposal** whose requests that count all name `R` and `m`:
below the pool's caps it is handed over only with the consent of `m` parties of `R`, all its
signers are parties of `R`, and without the outsiders' messages the same is handed over on
the same messages. -/
theorem outsiders_idle {pool : PendingPool} (hidle : pool.phase digest = .idle)
    (hcalm : Calm scheme sha256 digest pool run)
    (hfewer : Calm scheme sha256 digest pool (run.filter (insider scheme sha256 digest R run)))
    (hnames : ∀ msg ∈ run, Names scheme digest R m msg) :
    (∀ p ∈ pool.outcomes scheme sha256 digest run, ∀ done, p.2 = some done →
        Consented scheme digest R m run p.1 done) ∧
      pool.outcomes scheme sha256 digest (run.filter (insider scheme sha256 digest R run)) =
        (pool.outcomes scheme sha256 digest run).filter
          (fun p => insider scheme sha256 digest R run p.1) ∧
      ∀ p ∈ pool.outcomes scheme sha256 digest run,
        insider scheme sha256 digest R run p.1 = false → p.2 = none := by
  rw [outcomes_eq hcalm, outcomes_eq hfewer, hidle]
  exact outcomes_sound (fun e he => nomatch he) (fun msg hmem => hmem) hnames

/-! ### The order of the requests -/

variable (scheme) (s : State) (digest)

/-- The party a request counts for at the ledger `s`, if it is about the digest. -/
def vote (req : PendingSignReq) : Option Party :=
  if requestDigest scheme s req = some digest then countsFor scheme s req digest else none

/-- The requests as they reach a node that stands at the ledger `s`. -/
def received (reqs : List (PendingSignReq × Nat)) : List Msg :=
  reqs.map fun p => .sign s p.1 p.2

/-- The first request that counts is one that may open the entry. -/
def Opened : List (PendingSignReq × Nat) → Prop
  | [] => True
  | p :: reqs =>
    match vote scheme digest s p.1 with
    | none => Opened reqs
    | some party => mayOpen scheme s p.1 party p.2 ≠ none

/-- Is the digest handed over in a run? -/
def Completes (sha256 : Bytes → Bytes) (pool : PendingPool) (run : List Msg) : Prop :=
  ∃ p ∈ pool.outcomes scheme sha256 digest run, p.2 ≠ none

/-- Who has signed. -/
def voters (reqs : List (PendingSignReq × Nat)) : Finset Party :=
  (reqs.filterMap fun p => vote scheme digest s p.1).toFinset

/-- The entry has the signatures of `seen`, and they are too few. -/
structure Tallied (R : List Party) (m : Nat) (seen : Finset Party) (e : PendingEntry) : Prop where
  required : e.required = R
  minSigs : e.minSigs = m
  signers : ∀ p, p ∈ seen ↔ ∃ k signature, e.sigs[k]? = some signature ∧ partyOf s k = p
  named : ∀ p ∈ seen, p ∈ R

variable {scheme s digest}

/-- The parties that count are the ones that signed. -/
theorem Tallied.card {seen : Finset Party} {e : PendingEntry} (h : Tallied s R m seen e) :
    (signedParties s e).length = seen.card := by
  have hnodup : (signedParties s e).Nodup := List.nodup_dedup _
  rw [← List.toFinset_card_of_nodup hnodup]
  congr 1
  ext p
  rw [List.mem_toFinset, mem_signedParties, ← h.signers p, h.required]
  exact ⟨fun hp => hp.2, fun hp => ⟨h.named p hp, hp⟩⟩

/-- One more signature. -/
theorem Tallied.signed {seen : Finset Party} {e : PendingEntry} {req : PendingSignReq}
    {party : Party} (h : Tallied s R m seen e) (hwho : partyOf s req.signer = party)
    (hR : party ∈ R) : Tallied s R m (insert party seen) (e.signed req) := by
  refine ⟨h.required, h.minSigs, fun p => ?_, fun p hp => ?_⟩
  · unfold PendingEntry.signed
    dsimp only
    rw [Finset.mem_insert, h.signers p]
    refine ⟨?_, ?_⟩
    · rintro (rfl | ⟨k, signature, hsig, rfl⟩)
      · exact ⟨req.signer, req.signature, Std.ExtTreeMap.getElem?_insert_self, hwho⟩
      · by_cases heq : req.signer = k
        · obtain rfl := heq
          exact ⟨req.signer, req.signature, Std.ExtTreeMap.getElem?_insert_self, rfl⟩
        · refine ⟨k, signature, ?_, rfl⟩
          rw [Std.ExtTreeMap.getElem?_insert, if_neg (by simpa using heq)]
          exact hsig
    · rintro ⟨k, signature, hsig, rfl⟩
      rw [Std.ExtTreeMap.getElem?_insert] at hsig
      split_ifs at hsig with heq
      · obtain rfl : req.signer = k := by simpa using heq
        exact Or.inl hwho
      · exact Or.inr ⟨k, signature, hsig, rfl⟩
  · rcases Finset.mem_insert.1 hp with rfl | hp
    · exact hR
    · exact h.named p hp

/-- A new entry has no signatures. -/
theorem tallied_openEntry {req : PendingSignReq} (hR : req.required = R) (hm : req.minSigs = m)
    (initiator : MemberId) (opener : Party) (nowSecs : Nat) :
    Tallied s R m ∅ (openEntry req initiator opener nowSecs) := by
  refine ⟨hR, hm, fun p => ?_, fun p hp => absurd hp (Finset.notMem_empty p)⟩
  refine ⟨fun hp => absurd hp (Finset.notMem_empty p), ?_⟩
  rintro ⟨k, signature, hsig, -⟩
  unfold openEntry at hsig
  dsimp only at hsig
  rw [Std.ExtTreeMap.getElem?_empty] at hsig
  cases hsig

theorem voters_cons (p : PendingSignReq × Nat) (reqs : List (PendingSignReq × Nat)) :
    voters scheme digest s (p :: reqs) =
      (vote scheme digest s p.1).toFinset ∪ voters scheme digest s reqs := by
  unfold voters
  rw [List.filterMap_cons]
  cases vote scheme digest s p.1 with
  | none => simp
  | some party => simp

/-- A request moves the phase by what it counts for. -/
theorem deliver_received (phase : Phase) (req : PendingSignReq) (nowSecs : Nat) :
    phase.deliver scheme sha256 digest (.sign s req nowSecs) =
      match vote scheme digest s req with
      | none => (none, phase)
      | some _ => phase.sign scheme s req digest nowSecs := by
  unfold Phase.deliver vote
  dsimp only
  split_ifs with hdigest
  · cases hcounts : countsFor scheme s req digest with
    | none => exact sign_not_counting hcounts
    | some party => rfl
  · rfl

theorem vote_some {req : PendingSignReq} {party : Party}
    (h : vote scheme digest s req = some party) :
    countsFor scheme s req digest = some party ∧ partyOf s req.signer = party ∧
      party ∈ req.required := by
  unfold vote at h
  split_ifs at h with hdigest
  obtain ⟨hsigner, hmem⟩ := countsFor_some h
  exact ⟨h, (verifiedSigner_some hsigner).2, hmem⟩

/-- Does the machine hand the digest over in a run? -/
def Phase.Completes (scheme : Scheme) (sha256 : Bytes → Bytes) (digest : Digest) (phase : Phase)
    (run : List Msg) : Prop :=
  ∃ p ∈ phase.outcomes scheme sha256 digest run, p.2 ≠ none

theorem Phase.completes_cons {phase : Phase} {msg : Msg} {run : List Msg} :
    phase.Completes scheme sha256 digest (msg :: run) ↔
      (phase.deliver scheme sha256 digest msg).1 ≠ none ∨
        (phase.deliver scheme sha256 digest msg).2.Completes scheme sha256 digest run := by
  unfold Phase.Completes
  rw [Phase.outcomes_cons]
  exact List.exists_mem_cons_iff _ _ _

/-- Every request that counts names `R` and `m`. -/
def AllName (scheme : Scheme) (s : State) (digest : Digest) (R : List Party) (m : Nat)
    (reqs : List (PendingSignReq × Nat)) : Prop :=
  ∀ p ∈ reqs, vote scheme digest s p.1 ≠ none → p.1.required = R ∧ p.1.minSigs = m

/-- One more signature completes an entry, or leaves it to the requests that follow. -/
theorem record_completes {seen : Finset Party} {e : PendingEntry} {req : PendingSignReq}
    {party : Party} {run : List Msg} {later : Finset Party} (h : Tallied s R m seen e)
    (hwho : partyOf s req.signer = party) (hR : party ∈ R)
    (hrest : ∀ e', Tallied s R m (insert party seen) e' → (insert party seen).card < m →
      ((Phase.live e').Completes scheme sha256 digest run ↔
        m ≤ (insert party seen ∪ later).card)) :
    ((Phase.record s req e).1 ≠ none ∨
        (Phase.record s req e).2.Completes scheme sha256 digest run) ↔
      m ≤ (insert party seen ∪ later).card := by
  have hsigned := h.signed hwho hR
  unfold Phase.record
  rw [hsigned.minSigs, hsigned.card]
  split_ifs with henough
  · refine iff_of_true (Or.inl fun hnone => nomatch hnone) ?_
    exact henough.trans (Finset.card_le_card Finset.subset_union_left)
  · rw [← hrest _ hsigned (Nat.lt_of_not_le henough)]
    exact or_iff_right fun hne => hne rfl

/-- An open entry completes exactly when those who have signed and those whose requests
follow are enough. -/
theorem live_completes {seen : Finset Party} {e : PendingEntry}
    {reqs : List (PendingSignReq × Nat)} (h : Tallied s R m seen e) (hfew : seen.card < m)
    (hnames : AllName scheme s digest R m reqs) :
    (Phase.live e).Completes scheme sha256 digest (received s reqs) ↔
      m ≤ (seen ∪ voters scheme digest s reqs).card := by
  induction reqs generalizing seen e with
  | nil =>
    refine iff_of_false (fun ⟨p, hp, _⟩ => nomatch hp) ?_
    have hnone : voters scheme digest s [] = ∅ := rfl
    rw [hnone, Finset.union_empty]
    exact Nat.not_le_of_lt hfew
  | cons p reqs ih =>
    have hlater : AllName scheme s digest R m reqs := fun q hq => hnames q (List.mem_cons_of_mem _ hq)
    unfold received
    rw [List.map_cons, Phase.completes_cons, deliver_received, voters_cons]
    cases hvote : vote scheme digest s p.1 with
    | none =>
      rw [Option.toFinset_none, Finset.empty_union, ← ih h hfew hlater]
      exact or_iff_right fun hne => hne rfl
    | some party =>
      obtain ⟨hcounts, hwho, hmem⟩ := vote_some hvote
      obtain ⟨hR, -⟩ := hnames p List.mem_cons_self (by rw [hvote]; exact fun hn => nomatch hn)
      have hunion : seen ∪ ((some party).toFinset ∪ voters scheme digest s reqs) =
          insert party seen ∪ voters scheme digest s reqs := by
        rw [Option.toFinset_some, ← Finset.union_assoc, Finset.union_comm seen,
          ← Finset.insert_eq]
      rw [hunion]
      unfold Phase.sign
      dsimp only
      rw [hcounts]
      exact record_completes h hwho (hR ▸ hmem) fun e' he' hless => ih he' hless hlater

/-- **A proposal completes exactly when enough parties have signed**, in every order that
begins with a request that may open it. -/
theorem idle_completes {reqs : List (PendingSignReq × Nat)}
    (hnames : AllName scheme s digest R m reqs) (hopened : Opened scheme digest s reqs) :
    Phase.idle.Completes scheme sha256 digest (received s reqs) ↔
      (voters scheme digest s reqs).Nonempty ∧ m ≤ (voters scheme digest s reqs).card := by
  induction reqs with
  | nil => exact iff_of_false (fun ⟨p, hp, _⟩ => nomatch hp) fun h => Finset.not_nonempty_empty h.1
  | cons p reqs ih =>
    have hlater : AllName scheme s digest R m reqs := fun q hq => hnames q (List.mem_cons_of_mem _ hq)
    unfold received
    unfold Opened at hopened
    rw [List.map_cons, Phase.completes_cons, deliver_received, voters_cons]
    cases hvote : vote scheme digest s p.1 with
    | none =>
      rw [hvote] at hopened
      rw [Option.toFinset_none, Finset.empty_union, ← ih hlater hopened]
      exact or_iff_right fun hne => hne rfl
    | some party =>
      rw [hvote] at hopened
      obtain ⟨hcounts, hwho, hmem⟩ := vote_some hvote
      obtain ⟨hR, hm⟩ := hnames p List.mem_cons_self (by rw [hvote]; exact fun hn => nomatch hn)
      obtain ⟨opener, hopens⟩ := Option.ne_none_iff_exists'.1 hopened
      rw [Option.toFinset_some, ← Finset.insert_eq, and_iff_right (Finset.insert_nonempty _ _)]
      have hfresh := tallied_openEntry (s := s) hR hm opener.1 opener.2 p.2
      have hunion : insert party (voters scheme digest s reqs) =
          insert party ∅ ∪ voters scheme digest s reqs := by
        rw [Finset.insert_eq, insert_empty_eq]
      rw [hunion]
      unfold Phase.sign
      dsimp only
      rw [hcounts]
      dsimp only
      rw [hopens]
      exact record_completes hfresh hwho (hR ▸ hmem) fun e' he' hless => live_completes he' hless hlater

theorem completes_iff {pool : PendingPool} {reqs : List (PendingSignReq × Nat)}
    (hidle : pool.phase digest = .idle)
    (hcalm : Calm scheme sha256 digest pool (received s reqs))
    (hnames : AllName scheme s digest R m reqs) (hopened : Opened scheme digest s reqs) :
    Completes scheme digest sha256 pool (received s reqs) ↔
      (voters scheme digest s reqs).Nonempty ∧ m ≤ (voters scheme digest s reqs).card := by
  unfold Completes
  rw [outcomes_eq hcalm, hidle]
  exact idle_completes hnames hopened

/-- Nothing is handed over once a digest is dead. -/
theorem closed_outcomes (run : List Msg) :
    ∀ p ∈ Phase.closed.outcomes scheme sha256 digest run, p.2 = none := by
  induction run with
  | nil => exact fun p hp => nomatch hp
  | cons msg run ih =>
    have hstays : Phase.closed.deliver scheme sha256 digest msg = (none, .closed) := by
      unfold Phase.deliver
      cases msg with
      | sign s req nowSecs =>
        dsimp only
        split_ifs
        · exact closed_sign s req digest nowSecs
        · rfl
      | decline s d signer signature =>
        dsimp only
        split_ifs <;> rfl
    intro p hp
    rw [Phase.outcomes_cons, hstays] at hp
    rcases List.mem_cons.1 hp with rfl | hp
    · rfl
    · exact ih p hp

/-- A verifying decline of an open proposal, by a party it names or its initiator, kills
it. -/
theorem decline_closes {e : PendingEntry} {signer : Key} {signature : Bytes} {party : Party}
    (hparty : verifiedDecliner scheme sha256 s digest signer signature = some party)
    (hentitled : party ∈ e.required ∨ party = .member e.initiator) :
    (Phase.live e).deliver scheme sha256 digest (.decline s digest signer signature) =
      (none, .closed) := by
  unfold Phase.deliver
  dsimp only
  rw [if_pos rfl]
  unfold Phase.decline
  rw [hparty]
  dsimp only
  rw [if_neg fun h => hentitled.elim h.1 h.2]

/-- **The order of the requests does not decide consent**, nor does anything undo a refusal.
Whichever orders the same requests about a digest arrive in, as long as the first that
counts may open the proposal, one node completes it exactly when the other does; and a
verifying decline by a party of `R`, received while the proposal is open, is the end of
it. -/
theorem order_idle {pool pool' : PendingPool} {reqs reqs' : List (PendingSignReq × Nat)}
    (hidle : pool.phase digest = .idle) (hidle' : pool'.phase digest = .idle)
    (hcalm : Calm scheme sha256 digest pool (received s reqs))
    (hcalm' : Calm scheme sha256 digest pool' (received s reqs'))
    (hnames : AllName scheme s digest R m reqs)
    (hsame : ∀ req, (∃ t, (req, t) ∈ reqs) ↔ ∃ t, (req, t) ∈ reqs')
    (hopened : Opened scheme digest s reqs) (hopened' : Opened scheme digest s reqs') :
    (Completes scheme digest sha256 pool (received s reqs) ↔
        Completes scheme digest sha256 pool' (received s reqs')) ∧
      ∀ (node : PendingPool) (e : PendingEntry) (st : State) (signer : Key) (signature : Bytes)
        (run : List Msg) (party : Party), node.phase digest = .live e → e.required = R →
        verifiedDecliner scheme sha256 st digest signer signature = some party → party ∈ R →
        Calm scheme sha256 digest node (.decline st digest signer signature :: run) →
        ¬Completes scheme digest sha256 node (.decline st digest signer signature :: run) := by
  refine ⟨?_, ?_⟩
  · have hnames' : AllName scheme s digest R m reqs' := by
      intro q hq hvote
      obtain ⟨t, ht⟩ := (hsame q.1).2 ⟨q.2, hq⟩
      exact hnames (q.1, t) ht hvote
    have hvoters : voters scheme digest s reqs = voters scheme digest s reqs' := by
      ext party
      unfold voters
      rw [List.mem_toFinset, List.mem_toFinset, List.mem_filterMap, List.mem_filterMap]
      refine ⟨?_, ?_⟩
      · rintro ⟨⟨req, t⟩, hmem, hvote⟩
        obtain ⟨t', hmem'⟩ := (hsame req).1 ⟨t, hmem⟩
        exact ⟨(req, t'), hmem', hvote⟩
      · rintro ⟨⟨req, t⟩, hmem, hvote⟩
        obtain ⟨t', hmem'⟩ := (hsame req).2 ⟨t, hmem⟩
        exact ⟨(req, t'), hmem', hvote⟩
    rw [completes_iff hidle hcalm hnames hopened, completes_iff hidle' hcalm' hnames' hopened',
      hvoters]
  · intro node e st signer signature run party hlive hrequired hparty hmem hcalm
    unfold Completes
    rw [outcomes_eq hcalm, hlive, Phase.outcomes_cons,
      decline_closes hparty (Or.inl (hrequired ▸ hmem))]
    rintro ⟨p, hp, hsome⟩
    rcases List.mem_cons.1 hp with rfl | hp
    · exact hsome rfl
    · exact hsome (closed_outcomes run p hp)

end Scheme

/-! ### A purchase between two founders -/

/-- A scheme in which a signature is the key before what it signs. -/
def plainScheme : Scheme where
  digest := fun _ _ _ notAfterEpoch => some (BitVec.ofNat 256 notAfterEpoch)
  verify := fun k message signature => decide (signature = Encoding.key k ++ message)

def founders : State :=
  letI := Libm.unused
  (devGenesis [1000, 1000, 1000]).state

/-- A key's request to sign the sale of the first founder to a party. -/
def saleRequest (buyer : Party) (required : List Party) (minSigs : Nat) (signer : Key) :
    PendingSignReq where
  tx := .sale (.member 0) buyer (F64.ofNat 10) 5
  nonce := zeroNonce
  notAfterEpoch := 7
  required := required
  minSigs := minSigs
  signer := signer
  signature := Encoding.key signer ++ digestBytes 7

/-- The messages of a purchase between the first two founders. -/
def purchase : List Msg :=
  let request i := saleRequest (.member 1) [.member 0, .member 1] 2 (founderKey i)
  [.sign founders (request 0) 100, .sign founders (request 1) 101]

/-- The third founder asks for the same sale, and for nobody's signature but its own. -/
def intrusion : Msg :=
  .sign founders (saleRequest (.member 1) [.member 2] 1 (founderKey 2)) 99

/-- Who signed what a run hands over. -/
def handed (pool : PendingPool) (run : List Msg) : List (Option (List Key)) :=
  (pool.outcomes plainScheme id 7 run).map fun p => p.2.map Completed.signers

/-- Does the pool hold a handful of entries at most over a run, the digest's inside its
lifetime? -/
def staysSmall (digest : Digest) : PendingPool → List Msg → Bool
  | _, [] => true
  | pool, msg :: run =>
    decide (pool.entries.size < maxInvitedPerMember) &&
      decide (pool.tombstoneOrder.length ≤ maxTombstones) &&
      (match msg.receivedSecs, pool.entries[digest]? with
      | some nowSecs, some e => decide (nowSecs < horizon e.createdSecs pendingTtlSecs)
      | _, _ => true) &&
      staysSmall digest (msg.deliver plainScheme id pool).2 run

theorem calm_of_small {digest : Digest} {pool : PendingPool} {run : List Msg}
    (h : staysSmall digest pool run = true) : Calm plainScheme id digest pool run := by
  induction run generalizing pool with
  | nil => trivial
  | cons msg run ih =>
    unfold staysSmall at h
    simp only [Bool.and_eq_true, decide_eq_true_eq] at h
    obtain ⟨⟨⟨hsize, htombstones⟩, hlifetime⟩, hrest⟩ := h
    refine ⟨⟨hsize.trans (by decide), htombstones, fun inviter => ?_⟩, ?_, ih hrest⟩
    · refine lt_of_le_of_lt List.countP_le_length ?_
      rw [Std.ExtTreeMap.length_toList]
      exact hsize
    · intro nowSecs hnow e he
      rw [hnow, he] at hlifetime
      exact of_decide_eq_true hlifetime

/-- The purchase, while the third founder asks for it too, in its own name, and declines it. -/
def watchedPurchase : List Msg :=
  let request i := saleRequest (.member 1) [.member 0, .member 1] 2 (founderKey i)
  [.sign founders (request 2) 99, .sign founders (request 0) 100,
    .decline founders 7 (founderKey 2) (Encoding.key (founderKey 2) ++ declineMessage id 7),
    .sign founders (request 1) 101]

/-- Neither message of the outsider is felt: the purchase completes when its second party signs, as
it does without them, and both its signers are its parties. -/
theorem outsiders_idle_purchase :
    let parties : List Party := [.member 0, .member 1]
    let kept := insider plainScheme id 7 parties watchedPurchase
    watchedPurchase.map kept = [false, true, false, true] ∧
      handed {} watchedPurchase = [none, none, none, some [founderKey 0, founderKey 1]] ∧
      (∀ p ∈ PendingPool.outcomes plainScheme id 7 {} watchedPurchase, ∀ done, p.2 = some done →
        Consented plainScheme 7 parties 2 watchedPurchase p.1 done) ∧
      PendingPool.outcomes plainScheme id 7 {} (watchedPurchase.filter kept) =
        (PendingPool.outcomes plainScheme id 7 {} watchedPurchase).filter fun p => kept p.1 := by
  have hidle := @outsiders_idle plainScheme id 7 [.member 0, .member 1] 2 watchedPurchase {} rfl
    (calm_of_small (by decide +kernel)) (calm_of_small (by decide +kernel)) ?_
  · exact ⟨by decide +kernel, by decide +kernel, hidle.1, hidle.2.1⟩
  intro msg hmem s req nowSecs hmsg _ _
  unfold watchedPurchase at hmem
  simp only [List.mem_cons, List.not_mem_nil, or_false] at hmem
  rcases hmem with rfl | rfl | rfl | rfl <;> cases hmsg <;> exact ⟨rfl, rfl⟩

/-- The outsider's request comes first and completes the sale at once: with no signature of
the two parties, and what they sign afterwards goes nowhere. -/
theorem outsider_completes :
    insider plainScheme id 7 [.member 0, .member 1] (intrusion :: purchase) intrusion = false ∧
      Calm plainScheme id 7 {} (intrusion :: purchase) ∧ Calm plainScheme id 7 {} purchase ∧
      handed {} (intrusion :: purchase) = [some [founderKey 2], none, none] ∧
      handed {} purchase = [none, some [founderKey 0, founderKey 1]] :=
  ⟨by decide +kernel, calm_of_small (by decide +kernel), calm_of_small (by decide +kernel),
    by decide +kernel, by decide +kernel⟩

/-- A key without an account. -/
def newcomer : Key := 99

/-- The first founder and the newcomer each sign a sale between them. -/
def founderRequest : PendingSignReq :=
  saleRequest (.key newcomer) [.member 0, .key newcomer] 2 (founderKey 0)

def newcomerRequest : PendingSignReq :=
  saleRequest (.key newcomer) [.member 0, .key newcomer] 2 newcomer

/-- The newcomer's refusal. -/
def refusal : Msg :=
  .decline founders 7 newcomer (Encoding.key newcomer ++ declineMessage id 7)

/-- The founders, and the newcomer as the fourth member. -/
def joined : State := { founders with keyIndex := founders.keyIndex.insert newcomer 3 }

theorem allName_newcomer {reqs : List (PendingSignReq × Nat)}
    (h : ∀ p ∈ reqs, p.1 = founderRequest ∨ p.1 = newcomerRequest) :
    AllName plainScheme founders 7 [.member 0, .key newcomer] 2 reqs := by
  intro p hp _
  rcases h p hp with heq | heq
  · rw [heq]
    exact ⟨rfl, rfl⟩
  · rw [heq]
    exact ⟨rfl, rfl⟩

theorem order_idle_purchase :
    (Completes plainScheme 7 id {} (received founders [(founderRequest, 5), (newcomerRequest, 6)]) ↔
        Completes plainScheme 7 id {}
          (received founders [(founderRequest, 1), (newcomerRequest, 2), (founderRequest, 3)])) ∧
      handed {} (received founders [(founderRequest, 5), (newcomerRequest, 6)]) =
        [none, some [founderKey 0, newcomer]] := by
  refine ⟨(order_idle (R := [.member 0, .key newcomer]) (m := 2) rfl rfl
    (calm_of_small (by decide +kernel)) (calm_of_small (by decide +kernel)) ?_ ?_ ?_ ?_).1,
    by decide +kernel⟩
  · exact allName_newcomer (by simp)
  · intro req
    simp only [List.mem_cons, Prod.mk.injEq, List.not_mem_nil, or_false]
    grind
  · have hcounts : vote plainScheme 7 founders founderRequest = some (.member 0) := by decide +kernel
    unfold Opened
    rw [hcounts]
    exact fun hnone => nomatch hnone
  · have hcounts : vote plainScheme 7 founders founderRequest = some (.member 0) := by decide +kernel
    unfold Opened
    rw [hcounts]
    exact fun hnone => nomatch hnone

/-- A newcomer's request that comes first is lost, and with it the consent; so is a refusal
that comes first, and a request whose signer has joined since. -/
theorem order_decides :
    AllName plainScheme founders 7 [.member 0, .key newcomer] 2
        [(founderRequest, 5), (newcomerRequest, 6)] ∧
      Calm plainScheme id 7 {} (received founders [(founderRequest, 5), (newcomerRequest, 6)]) ∧
      Calm plainScheme id 7 {} (received founders [(newcomerRequest, 5), (founderRequest, 6)]) ∧
      handed {} (received founders [(founderRequest, 5), (newcomerRequest, 6)]) =
        [none, some [founderKey 0, newcomer]] ∧
      handed {} (received founders [(newcomerRequest, 5), (founderRequest, 6)]) = [none, none] ∧
      verifiedDecliner plainScheme id founders 7 newcomer
        (Encoding.key newcomer ++ declineMessage id 7) = some (.key newcomer) ∧
      handed {} (refusal :: received founders [(founderRequest, 5), (newcomerRequest, 6)]) =
        [none, none, some [founderKey 0, newcomer]] ∧
      handed {} [.sign founders founderRequest 5, .sign joined newcomerRequest 6] = [none, none] :=
  ⟨allName_newcomer (by simp), calm_of_small (by decide +kernel), calm_of_small (by decide +kernel),
    by decide +kernel, by decide +kernel, by decide +kernel, by decide +kernel, by decide +kernel⟩

end Edet.View
