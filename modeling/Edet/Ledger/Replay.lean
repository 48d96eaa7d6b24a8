import Edet.Ledger.Window

/-!
# No transaction succeeds twice

An envelope is spent (`State.Spent`) once its window has closed or its id is remembered.
A spent envelope is not admissible, and it stays spent: an epoch that passes forgets a
bucket only when the window of its envelopes closes, and a refusal forgets no id but the one
that was recorded for it in the same call (`spent_apply`). A transaction that succeeds
leaves its envelope spent (`spent_of_applied`), so that over a whole run no envelope is
applied successfully more than once (`applied_once`).
-/

namespace Edet

/-- The envelope can not be applied any more: its window has closed, or its id is
remembered. -/
def State.Spent (s : State) (txId : TxId) (notAfterEpoch : Nat) : Prop :=
  notAfterEpoch < s.epoch ∨ s.isApplied txId notAfterEpoch = true

/-! ### The remembered ids -/

theorem isApplied_iff {s : State} {txId : TxId} {notAfterEpoch : Nat} :
    s.isApplied txId notAfterEpoch = true ↔
      ∃ ids : OrdSet TxId, s.appliedByExpiry[notAfterEpoch]? = some ids ∧ txId ∈ ids := by
  unfold State.isApplied
  cases s.appliedByExpiry[notAfterEpoch]? with
  | none => simp
  | some ids => simp

theorem isApplied_recordApplied_self (s : State) (txId : TxId) (notAfterEpoch : Nat) :
    (s.recordApplied txId notAfterEpoch).isApplied txId notAfterEpoch = true := by
  rw [isApplied_iff]
  refine ⟨(OrdMap.getD' s.appliedByExpiry notAfterEpoch ∅).insert txId, ?_, by simp⟩
  simp [State.recordApplied]

/-- Recording an id forgets none. -/
theorem isApplied_recordApplied {s : State} {txId txId' : TxId} {expiry expiry' : Nat}
    (h : s.isApplied txId expiry = true) :
    (s.recordApplied txId' expiry').isApplied txId expiry = true := by
  rw [isApplied_iff] at h ⊢
  obtain ⟨ids, hids, hmem⟩ := h
  simp only [State.recordApplied, Std.ExtTreeMap.getElem?_insert]
  split
  · next heq =>
    obtain rfl := Std.LawfulEqCmp.compare_eq_iff_eq.1 heq
    refine ⟨_, rfl, ?_⟩
    simp [OrdMap.getD'_eq, hids, hmem]
  · exact ⟨ids, hids, hmem⟩

/-- Forgetting an id forgets no other. -/
theorem isApplied_forgetApplied {s : State} {txId txId' : TxId} {expiry expiry' : Nat}
    (hne : ¬(txId' = txId ∧ expiry' = expiry)) (h : s.isApplied txId expiry = true) :
    (s.forgetApplied txId' expiry').isApplied txId expiry = true := by
  rw [isApplied_iff] at h ⊢
  obtain ⟨ids, hids, hmem⟩ := h
  unfold State.forgetApplied
  split
  · exact ⟨ids, hids, hmem⟩
  next bucket hbucket =>
  by_cases hexpiry : expiry' = expiry
  · subst hexpiry
    have hid : txId' ≠ txId := fun h => hne ⟨h, rfl⟩
    obtain rfl : bucket = ids := Option.some.inj (hbucket.symm.trans hids)
    have hkept : txId ∈ bucket.erase txId' := by
      rw [Std.ExtTreeSet.mem_erase]
      exact ⟨fun h => hid (Std.LawfulEqCmp.compare_eq_iff_eq.1 h), hmem⟩
    have hfull : (bucket.erase txId').isEmpty = false := by
      rw [Bool.eq_false_iff, ne_eq, Std.ExtTreeSet.isEmpty_iff]
      intro hempty
      rw [hempty] at hkept
      exact absurd hkept Std.ExtTreeSet.not_mem_empty
    refine ⟨bucket.erase txId', ?_, hkept⟩
    simp [hfull]
  · have hother : compare expiry' expiry ≠ .eq :=
      fun h => hexpiry (Std.LawfulEqCmp.compare_eq_iff_eq.1 h)
    refine ⟨ids, ?_, hmem⟩
    dsimp only
    split
    · simp [Std.ExtTreeMap.getElem?_erase, hother, hids]
    · simp [Std.ExtTreeMap.getElem?_insert, hother, hids]

/-! ### Spent envelopes -/

/-- A spent envelope is not admissible. -/
theorem not_spent_of_admissible {s : State} {txId : TxId} {notAfterEpoch : Nat}
    (h : Apply.admissible s txId notAfterEpoch = .ok ()) : ¬s.Spent txId notAfterEpoch := by
  unfold Apply.admissible at h
  split_ifs at h with h₁ h₂ h₃
  rintro (hclosed | happlied)
  · exact h₁ hclosed
  · exact h₃ happlied

theorem State.Spent.of_steady {s s' : State} (h : Steady s s') {txId : TxId} {notAfterEpoch : Nat}
    (hs : s.Spent txId notAfterEpoch) : s'.Spent txId notAfterEpoch := by
  unfold State.Spent State.isApplied at hs ⊢
  rwa [h.epoch, h.applied]

theorem spent_advanceEpoch {s : State} {txId : TxId} {notAfterEpoch : Nat}
    (hs : s.Spent txId notAfterEpoch) : s.advanceEpoch.Spent txId notAfterEpoch := by
  by_cases hclosed : notAfterEpoch < s.epoch + 1
  · exact Or.inl hclosed
  · obtain h | h := hs
    · exact Or.inl (Nat.lt_succ_of_lt h)
    -- the bucket is still in the window, so that the epoch keeps it
    refine Or.inr ?_
    rw [isApplied_iff] at h ⊢
    obtain ⟨ids, hids, hmem⟩ := h
    refine ⟨ids, ?_, hmem⟩
    show (s.appliedByExpiry.filter fun k _ => decide (¬k < s.epoch + 1))[notAfterEpoch]? = _
    rw [Std.ExtTreeMap.getElem?_filter]
    simp [hids, hclosed]

theorem spent_beginBlock {s : State} {txId : TxId} {notAfterEpoch : Nat}
    (hs : s.Spent txId notAfterEpoch) (nowSecs : Nat) :
    (s.beginBlock nowSecs).Spent txId notAfterEpoch := by
  unfold State.beginBlock
  split
  · exact hs
  dsimp only
  split
  · have hadvance : ∀ (n : Nat) (s : State), s.Spent txId notAfterEpoch →
        (Nat.repeat State.advanceEpoch n s).Spent txId notAfterEpoch := by
      intro n
      induction n with
      | zero => exact fun _ h => h
      | succ n ih => exact fun s h => spent_advanceEpoch (ih s h)
    have hreleased : ∀ s : State, Steady s s.releaseBonds := fun _ => ⟨rfl, rfl⟩
    refine State.Spent.of_steady (hreleased _) ?_
    refine State.Spent.of_steady (Apply.routine_sweepCranks _).steady ?_
    exact hadvance _ _ hs
  · exact hs

theorem State.Spent.recordApplied {s : State} {txId txId' : TxId} {expiry expiry' : Nat}
    (hs : s.Spent txId expiry) : (s.recordApplied txId' expiry').Spent txId expiry :=
  hs.imp_right isApplied_recordApplied

theorem State.Spent.forgetApplied {s : State} {txId txId' : TxId} {expiry expiry' : Nat}
    (hne : ¬(txId' = txId ∧ expiry' = expiry)) (hs : s.Spent txId expiry) :
    (s.forgetApplied txId' expiry').Spent txId expiry := by
  refine hs.imp (fun h => ?_) (isApplied_forgetApplied hne)
  unfold State.forgetApplied
  split <;> exact h

namespace Apply

/-- Settling the outcome of another envelope leaves a spent one spent. -/
theorem spent_settleOutcome {s : State} {txId txId' : TxId} {expiry expiry' : Nat}
    (hne : ¬(txId' = txId ∧ expiry' = expiry)) (hs : s.Spent txId expiry) (tx : Tx)
    (signers : List Key) (charged : Charged) (outcome : Res Unit) :
    (settleOutcome tx txId' expiry' signers charged outcome s).Spent txId expiry := by
  unfold settleOutcome
  split
  · exact hs
  split
  · exact .of_steady (routine_refund _ _).steady (hs.forgetApplied hne)
  split
  · split
    · exact hs.forgetApplied hne
    · have hpriced := hs.of_steady (routine_priceRefusal (Bond.selfActSubject tx) signers s).steady
      dsimp only
      split
      · exact hpriced
      · exact hpriced.forgetApplied hne
  · exact hs

section Apply

variable [Libm]

/-- **What is spent stays spent**, whatever transaction is applied and however it ends. -/
theorem spent_apply {txId : TxId} {expiry : Nat} (tx : Tx) (txId' : TxId) (expiry' : Nat)
    (signers : List Key) (nowSecs : Nat) :
    Op.Triple (State.Spent · txId expiry) (apply tx txId' expiry' signers nowSecs)
      (fun _ => (State.Spent · txId expiry)) (State.Spent · txId expiry) := by
  -- from the admission on, the envelope is another one
  let other (s : State) : Prop := s.Spent txId expiry ∧ ¬(txId' = txId ∧ expiry' = expiry)
  have hkeep : ∀ s s', Steady s s' → other s → other s' :=
    fun s s' h hs => ⟨hs.1.of_steady h, hs.2⟩
  unfold apply
  refine Op.Triple.bind (Q := fun _ => (State.Spent · txId expiry))
    (.write fun s hs => spent_beginBlock hs _) fun _ => ?_
  refine Op.Triple.bind (Q := fun _ => other) (.check (fun s _ hs hok => ⟨hs, ?_⟩) fun _ hs => hs)
    fun _ => ?_
  · rintro ⟨rfl, rfl⟩
    exact not_spent_of_admissible hok hs
  refine Op.Triple.bind (Q := fun _ => other) ?_ fun charged => ?_
  · exact ((routine_bondGate tx signers).keepsWindow.triple hkeep).weaken (fun _ h => h) (fun _ _ h => h)
      fun _ h => h.1
  refine Op.Triple.bind (Q := fun _ => other) (.write fun s hs => ⟨hs.1.recordApplied, hs.2⟩)
    fun _ => ?_
  refine Op.Triple.bind (Q := fun _ => other) ?_ fun outcome => ?_
  · exact ((steady_dispatch tx signers charged.2).outcome.triple hkeep).weaken (fun _ h => h)
      (fun _ _ h => h) fun _ h => h.1
  refine Op.Triple.bind (Q := fun _ => (State.Spent · txId expiry))
    (.write fun s hs => spent_settleOutcome hs.2 hs.1 _ _ _ _) fun _ => ?_
  exact .check (fun _ _ hs _ => hs) fun _ hs => hs

/-- A transaction that succeeds leaves its envelope spent. -/
theorem spent_of_applied (tx : Tx) (txId : TxId) (expiry : Nat) (signers : List Key)
    (nowSecs : Nat) :
    Op.Triple (fun _ => True) (apply tx txId expiry signers nowSecs)
      (fun _ => (State.Spent · txId expiry)) fun _ => True := by
  unfold apply
  refine Op.Triple.bind (Q := fun _ _ => True) (.write fun _ _ => trivial) fun _ => ?_
  refine Op.Triple.bind (Q := fun _ _ => True)
    (.check (fun _ _ _ _ => trivial) fun _ _ => trivial) fun _ => ?_
  refine Op.Triple.bind (Q := fun _ _ => True) ?_ fun charged => ?_
  · exact ((routine_bondGate tx signers).keepsWindow.triple (I := fun _ => True) fun _ _ _ h => h)
  refine Op.Triple.bind (Q := fun _ => (State.Spent · txId expiry))
    (.write fun s _ => Or.inr (isApplied_recordApplied_self s _ _)) fun _ => ?_
  refine Op.Triple.bind (Q := fun _ => (State.Spent · txId expiry)) ?_ fun outcome => ?_
  · exact ((steady_dispatch tx signers charged.2).outcome.triple
      fun _ _ h hs => State.Spent.of_steady h hs).weaken (fun _ h => h) (fun _ _ h => h)
      fun _ _ => trivial
  cases outcome with
  | ok _ =>
    refine Op.Triple.bind (Q := fun _ => (State.Spent · txId expiry))
      (.write fun s hs => hs) fun _ => ?_
    exact .check (fun _ _ hs _ => hs) fun _ _ => trivial
  | error e =>
    refine Op.Triple.bind (Q := fun _ _ => True) (.write fun _ _ => trivial) fun _ => ?_
    exact .check (fun _ _ _ h => by cases h) fun _ _ => trivial

end Apply

end Apply

/-! ### Runs -/

section Runs

variable [Libm]

/-- The event applies the envelope, and successfully. -/
def Event.Applies (txId : TxId) (notAfterEpoch : Nat) (s : State) : Event → Prop
  | .block _ => False
  | .transaction tx txId' notAfterEpoch' signers nowSecs =>
    txId' = txId ∧ notAfterEpoch' = notAfterEpoch ∧
      (Op.exec (Apply.apply tx txId' notAfterEpoch' signers nowSecs) s).1 = .ok ()

instance (txId : TxId) (notAfterEpoch : Nat) (s : State) (e : Event) :
    Decidable (e.Applies txId notAfterEpoch s) := by
  cases e <;> unfold Event.Applies <;> infer_instance

/-- The state after a list of events. -/
def Event.run (es : List Event) (s : State) : State := es.foldl (fun s e => e.next s) s

/-- How often the envelope is applied successfully in a run. -/
def successes (txId : TxId) (notAfterEpoch : Nat) : List Event → State → Nat
  | [], _ => 0
  | e :: es, s =>
    (if e.Applies txId notAfterEpoch s then 1 else 0) +
      successes txId notAfterEpoch es (e.next s)

/-- No event applies a spent envelope, and none makes it admissible again. -/
theorem spent_next {txId : TxId} {expiry : Nat} (e : Event) {s : State}
    (hs : s.Spent txId expiry) :
    ¬e.Applies txId expiry s ∧ (e.next s).Spent txId expiry := by
  cases e with
  | block nowSecs => exact ⟨id, spent_beginBlock hs nowSecs⟩
  | transaction tx txId' expiry' signers nowSecs =>
    refine ⟨?_, (Apply.spent_apply tx txId' expiry' signers nowSecs).exec_snd hs⟩
    rintro ⟨rfl, rfl, hok⟩
    -- the admission saw the envelope still spent at the opening of the block
    have hspent := spent_beginBlock hs nowSecs
    have hsucceeds := Op.Succeeds.of_ok hok
    unfold Apply.apply at hsucceeds
    obtain ⟨a, hadm, -⟩ := hsucceeds.of_write_bind.of_check_bind
    exact not_spent_of_admissible hadm hspent

theorem successes_of_spent {txId : TxId} {expiry : Nat} (es : List Event) {s : State}
    (hs : s.Spent txId expiry) : successes txId expiry es s = 0 := by
  induction es generalizing s with
  | nil => rfl
  | cons e es ih =>
    obtain ⟨hnot, hnext⟩ := spent_next e hs
    rw [successes, if_neg hnot, ih hnext]

/-- An event that applies the envelope leaves it spent. -/
theorem spent_of_applies {txId : TxId} {expiry : Nat} {e : Event} {s : State}
    (h : e.Applies txId expiry s) : (e.next s).Spent txId expiry := by
  cases e with
  | block nowSecs => exact h.elim
  | transaction tx txId' expiry' signers nowSecs =>
    obtain ⟨rfl, rfl, hok⟩ := h
    have hend := Apply.spent_of_applied tx txId' expiry' signers nowSecs s trivial
    obtain ⟨a, s', hexec, -⟩ := Op.Succeeds.of_ok hok
    rw [Event.next, hexec]
    rw [hexec] at hend
    exact hend

theorem successes_le_one (txId : TxId) (expiry : Nat) (es : List Event) (s : State) :
    successes txId expiry es s ≤ 1 := by
  induction es generalizing s with
  | nil => exact Nat.zero_le 1
  | cons e es ih =>
    by_cases h : e.Applies txId expiry s
    · rw [successes, if_pos h, successes_of_spent es (spent_of_applies h)]
    · rw [successes, if_neg h, Nat.zero_add]
      exact ih _

theorem inWindow_run (es : List Event) {s : State} (hs : s.InWindow) : (Event.run es s).InWindow := by
  induction es generalizing s with
  | nil => exact hs
  | cons e es ih => exact ih (inWindow_next e hs)

/-- **No transaction succeeds twice.** In a run from a genesis an envelope is applied
successfully at most once, the remembered ids lie in the window that can still be admitted,
and an id that is forgotten belongs to an envelope whose window has closed. -/
theorem applied_once {s : State} (h : Founding s) (es : List Event) :
    (∀ (txId : TxId) (notAfterEpoch : Nat), successes txId notAfterEpoch es s ≤ 1) ∧
      (Event.run es s).InWindow ∧
      ∀ (e : Event) (txId : TxId) (notAfterEpoch : Nat),
        (Event.run es s).isApplied txId notAfterEpoch = true →
        (e.next (Event.run es s)).isApplied txId notAfterEpoch = false →
          notAfterEpoch < (e.next (Event.run es s)).epoch := by
  obtain ⟨g, hg⟩ := h
  refine ⟨fun txId expiry => successes_le_one txId expiry es s,
    inWindow_run es (inWindow_of_genesis hg), ?_⟩
  intro e txId expiry hbefore hafter
  obtain hclosed | happlied := (spent_next e (Or.inr hbefore)).2
  · exact hclosed
  · rw [hafter] at happlied
    cases happlied

end Runs

/-- A founder names its guardians, and the same envelope is sent once more. -/
def resentEvents : List Event :=
  let e : Event := .transaction (.registerGuardians 0 [1, 2] 2 30) 5 1 [founderKey 0] 10
  [e, e]

/-- The run succeeds once with the envelope, at its first try. -/
theorem applied_once_resent :
    letI := Libm.unused
    let s := (devGenesis [1000, 1000, 1000]).state
    successes 5 1 resentEvents s = 1 ∧ successes 5 1 resentEvents s ≤ 1 ∧
      (Event.run resentEvents s).InWindow := by
  let _ : Libm := Libm.unused
  have hrun := applied_once (Genesis.founding_state (g := devGenesis [1000, 1000, 1000])
    (by decide +kernel)) resentEvents
  exact ⟨by decide +kernel, hrun.1 5 1, hrun.2.1⟩

end Edet
