import Edet.Ledger.Genesis
import Edet.Library.Runs
import Edet.Node.Core

/-!
# What a node remembers of a transaction

A node remembers the outcome of a committed transaction under its content hash, the last one
where a hash is committed again, and forgets the oldest of too many. The remembered hashes are
those of the order they are forgotten in, each once (`Ordered`, `Ordered.recordOutcome`), over
every run of decided blocks.

What is remembered is true of all that was committed (`Truthful`) as long as nothing is
committed again after it succeeded (`Unrepeated`, `Truthful.recordOutcome`): the replay rule
refuses it then, and the refusal takes the place of the success (`success_forgotten`).
-/

namespace Edet.Node

variable {D : Type}

/-- A node, and every committed transaction with its outcome, the oldest first. -/
structure History (D : Type) where
  core : NodeCore D
  past : List (View.Digest × Res Unit) := []

/-- A decided block as it reaches the node. -/
structure Decision (D : Type) where
  io : Io := {}
  block : Block
  certificate : Certificate D

/-- A node that remembers nothing yet. -/
structure History.Fresh (h : History D) : Prop where
  outcomes : h.core.outcomes = ∅
  order : h.core.outcomeOrder = []
  past : h.past = []

/-- The remembered hashes are those of the order, each once, and not too many. -/
structure Ordered (core : NodeCore D) : Prop where
  mem : ∀ d, d ∈ core.outcomeOrder ↔ core.outcomes.contains d = true
  nodup : core.outcomeOrder.Nodup
  length : core.outcomeOrder.length ≤ outcomeCap

/-- What is remembered of a transaction is a success exactly if it was ever applied
successfully. -/
def Truthful (h : History D) : Prop :=
  ∀ (d : View.Digest) (outcome : Res Unit), h.core.outcomes[d]? = some outcome →
    (outcome = .ok () ↔ (d, .ok ()) ∈ h.past)

/-- No occurrence comes after one of the same hash that was applied successfully. -/
def Unrepeated : List (View.Digest × Res Unit) → List (View.Digest × Res Unit) → Prop
  | _, [] => True
  | past, p :: occurrences => (p.1, .ok ()) ∉ past ∧ Unrepeated (past ++ [p]) occurrences

section Chain

variable [Libm] (chain : Chain)

/-- The committed transactions of a block, each with its outcome on the node's state. -/
def Decision.occurrences (d : Decision D) (core : NodeCore D) : List (View.Digest × Res Unit) :=
  NodeCore.occurrences chain d.block (chain.applyBlockTo core.replica.state d.block).1

/-- Commit a decided block. A block that is refused adds nothing to the past. -/
def Decision.next (d : Decision D) (h : History D) : History D :=
  match h.core.commitDecided chain d.io d.block d.certificate with
  | (.ok _, core) => { core, past := h.past ++ d.occurrences chain h.core }
  | (.error _, core) => { h with core }

/-- The decided block is committed. -/
def Decision.Commits (d : Decision D) (h : History D) : Prop :=
  (h.core.commitDecided chain d.io d.block d.certificate).1.toBool = true

end Chain

/-! ### One outcome -/

section Record

variable {core : NodeCore D} {h : View.Digest} {outcome : Res Unit}

theorem recordOutcome_known (hknown : core.outcomes.contains h = true) :
    core.recordOutcome h outcome = { core with outcomes := core.outcomes.insert h outcome } := by
  unfold NodeCore.recordOutcome
  dsimp only
  rw [if_pos hknown]

variable (outcome) in
/-- The hash of a new outcome is the last to be forgotten; where there are too many, the first
is. -/
theorem recordOutcome_new (hnew : core.outcomes.contains h = false) :
    (core.outcomeOrder.length < outcomeCap ∧ core.recordOutcome h outcome =
        { core with
          outcomes := core.outcomes.insert h outcome
          outcomeOrder := core.outcomeOrder ++ [h] }) ∨
      ∃ old rest, core.outcomeOrder ++ [h] = old :: rest ∧ outcomeCap ≤ core.outcomeOrder.length ∧
        core.recordOutcome h outcome =
          { core with
            outcomes := (core.outcomes.insert h outcome).erase old
            outcomeOrder := rest } := by
  unfold NodeCore.recordOutcome
  dsimp only
  rw [if_neg (Bool.eq_false_iff.1 hnew), List.length_append, List.length_singleton]
  by_cases hfull : outcomeCap < core.outcomeOrder.length + 1
  · right
    rw [if_pos hfull]
    cases horder : core.outcomeOrder ++ [h] with
    | nil => exact absurd horder (List.append_ne_nil_of_right_ne_nil _ (List.cons_ne_nil _ _))
    | cons old rest => exact ⟨old, rest, rfl, Nat.le_of_lt_succ hfull, rfl⟩
  · left
    rw [if_neg hfull]
    exact ⟨by omega, rfl⟩

theorem Ordered.recordOutcome (ho : Ordered core) (h : View.Digest) (outcome : Res Unit) :
    Ordered (core.recordOutcome h outcome) := by
  by_cases hknown : core.outcomes.contains h = true
  · rw [recordOutcome_known hknown]
    refine ⟨fun d => ?_, ho.nodup, ho.length⟩
    show d ∈ core.outcomeOrder ↔ (core.outcomes.insert h outcome).contains d = true
    rw [ho.mem, Std.ExtTreeMap.contains_insert, Bool.or_eq_true, beq_iff_eq]
    constructor
    · exact .inr
    · rintro (heq | hd)
      · exact Std.LawfulEqOrd.eq_of_compare heq ▸ hknown
      · exact hd
  have hnew : core.outcomes.contains h = false := Bool.eq_false_iff.2 hknown
  have hout : h ∉ core.outcomeOrder := fun hmem => hknown ((ho.mem h).1 hmem)
  have hnodup : (core.outcomeOrder ++ [h]).Nodup := by
    rw [List.nodup_append]
    refine ⟨ho.nodup, List.nodup_singleton h, ?_⟩
    intro a ha b hb hab
    rw [List.mem_singleton.1 hb] at hab
    exact hout (hab ▸ ha)
  have hmem : ∀ d, d ∈ core.outcomeOrder ++ [h] ↔
      (core.outcomes.insert h outcome).contains d = true := by
    intro d
    rw [List.mem_append, List.mem_singleton, ho.mem, Std.ExtTreeMap.contains_insert,
      Bool.or_eq_true, beq_iff_eq, Std.LawfulEqCmp.compare_eq_iff_eq]
    exact or_comm.trans (or_congr_left eq_comm)
  rcases recordOutcome_new outcome hnew with
    ⟨hroom, hrecord⟩ | ⟨old, rest, horder, hfull, hrecord⟩
  · rw [hrecord]
    refine ⟨hmem, hnodup, ?_⟩
    show (core.outcomeOrder ++ [h]).length ≤ outcomeCap
    rw [List.length_append, List.length_singleton]
    exact hroom
  · rw [hrecord]
    rw [horder] at hmem hnodup
    obtain ⟨hold, hrest⟩ := List.nodup_cons.1 hnodup
    refine ⟨fun d => ?_, hrest, ?_⟩
    · show d ∈ rest ↔ ((core.outcomes.insert h outcome).erase old).contains d = true
      rw [Std.ExtTreeMap.contains_erase, Bool.and_eq_true, ← hmem, List.mem_cons]
      by_cases hd : old = d
      · subst hd
        simp [hold]
      · simp [hd, Ne.symm hd]
    · have hlen := congrArg List.length horder
      rw [List.length_append, List.length_singleton, List.length_cons] at hlen
      have := ho.length
      show rest.length ≤ outcomeCap
      omega

/-- What is remembered after an outcome was recorded is that outcome, or was remembered
before. -/
theorem of_recordOutcome {d : View.Digest} {outcome' : Res Unit}
    (hd : (core.recordOutcome h outcome).outcomes[d]? = some outcome') :
    (d = h ∧ outcome' = outcome) ∨ (d ≠ h ∧ core.outcomes[d]? = some outcome') := by
  have hinsert : (core.outcomes.insert h outcome)[d]? = some outcome' →
      (d = h ∧ outcome' = outcome) ∨ (d ≠ h ∧ core.outcomes[d]? = some outcome') := by
    intro hget
    rw [Std.ExtTreeMap.getElem?_insert] at hget
    by_cases heq : compare h d = .eq
    · rw [if_pos heq] at hget
      exact .inl ⟨(Std.LawfulEqOrd.eq_of_compare heq).symm, (Option.some.inj hget).symm⟩
    · rw [if_neg heq] at hget
      exact .inr ⟨fun hdh => heq (hdh ▸ Std.compare_self), hget⟩
  by_cases hknown : core.outcomes.contains h = true
  · rw [recordOutcome_known hknown] at hd
    exact hinsert hd
  · rcases recordOutcome_new outcome (Bool.eq_false_iff.2 hknown) with
      ⟨-, hrecord⟩ | ⟨old, rest, -, -, hrecord⟩
    · rw [hrecord] at hd
      exact hinsert hd
    · rw [hrecord] at hd
      have hd : ((core.outcomes.insert h outcome).erase old)[d]? = some outcome' := hd
      rw [Std.ExtTreeMap.getElem?_erase] at hd
      split at hd
      · cases hd
      · exact hinsert hd

variable (outcome) in
/-- An outcome of a hash that has not succeeded yet is recorded truthfully. -/
theorem Truthful.recordOutcome {past : List (View.Digest × Res Unit)} (ht : Truthful ⟨core, past⟩)
    (hnew : (h, .ok ()) ∉ past) :
    Truthful ⟨core.recordOutcome h outcome, past ++ [(h, outcome)]⟩ := by
  intro d outcome' hd
  show outcome' = .ok () ↔ (d, .ok ()) ∈ past ++ [(h, outcome)]
  rw [List.mem_append, List.mem_singleton, Prod.mk.injEq]
  rcases of_recordOutcome hd with ⟨rfl, rfl⟩ | ⟨hne, hbefore⟩
  · constructor
    · intro hok
      exact .inr ⟨rfl, hok.symm⟩
    · rintro (hpast | ⟨-, hok⟩)
      · exact absurd hpast hnew
      · exact hok.symm
  · have hold : outcome' = .ok () ↔ (d, .ok ()) ∈ past := ht d outcome' hbefore
    rw [hold]
    constructor
    · exact .inl
    · rintro (hpast | ⟨hd, -⟩)
      · exact hpast
      · exact absurd hd hne

end Record

/-! ### One block -/

theorem Ordered.foldl {core : NodeCore D} (ho : Ordered core) (ps : List (View.Digest × Res Unit)) :
    Ordered (ps.foldl (fun core p => core.recordOutcome p.1 p.2) core) := by
  induction ps generalizing core with
  | nil => exact ho
  | cons p ps ih => exact ih (ho.recordOutcome p.1 p.2)

theorem Truthful.foldl {core : NodeCore D} {past : List (View.Digest × Res Unit)}
    (ht : Truthful ⟨core, past⟩) {ps : List (View.Digest × Res Unit)} (hps : Unrepeated past ps) :
    Truthful ⟨ps.foldl (fun core p => core.recordOutcome p.1 p.2) core, past ++ ps⟩ := by
  induction ps generalizing core past with
  | nil => exact (List.append_nil past).symm ▸ ht
  | cons p ps ih =>
    have hrest := ih (ht.recordOutcome p.2 hps.1) hps.2
    rw [List.append_assoc, List.singleton_append] at hrest
    exact hrest

section Chain

variable [Libm] {chain : Chain}

variable (chain) in
/-- A decided block is refused, and nothing is recorded; or it is committed, and the outcomes of
its transactions are. -/
theorem next_cases (d : Decision D) (h : History D) :
    (∃ replica, d.next chain h = { h with core := { h.core with replica } }) ∨
      d.Commits chain h ∧ ∃ replica mempool, d.next chain h =
        { core := { NodeCore.recordOutcomes chain { h.core with replica } d.block
              (chain.applyBlockTo h.core.replica.state d.block).1 with mempool }
          past := h.past ++ d.occurrences chain h.core } := by
  unfold Decision.next Decision.Commits NodeCore.commitDecided
  dsimp only
  rcases Op.exec (commitBlockWithCertificate chain.machine d.io d.block d.certificate)
    h.core.replica with ⟨e | u, replica⟩
  · exact .inl ⟨replica, rfl⟩
  · exact .inr ⟨rfl, replica, _, rfl⟩

theorem ordered_next {h : History D} (ho : Ordered h.core) (d : Decision D) :
    Ordered (d.next chain h).core := by
  rcases next_cases chain d h with ⟨replica, hnext⟩ | ⟨-, replica, mempool, hnext⟩
  · rw [hnext]
    exact ⟨ho.mem, ho.nodup, ho.length⟩
  · rw [hnext]
    have hcore : Ordered { h.core with replica } := ⟨ho.mem, ho.nodup, ho.length⟩
    have hfold := hcore.foldl (d.occurrences chain h.core)
    exact ⟨hfold.mem, hfold.nodup, hfold.length⟩

theorem truthful_next {h : History D} (ht : Truthful h) {d : Decision D}
    (hd : d.Commits chain h → Unrepeated h.past (d.occurrences chain h.core)) : Truthful (d.next chain h) := by
  rcases next_cases chain d h with ⟨replica, hnext⟩ | ⟨hcommits, replica, mempool, hnext⟩
  · rw [hnext]
    exact ht
  · rw [hnext]
    have hcore : Truthful ⟨{ h.core with replica }, h.past⟩ := ht
    exact hcore.foldl (hd hcommits)

/-- **What a node remembers.** In every run the remembered hashes are those of the order they
are forgotten in; and in every run in which nothing is committed again after it succeeded, a
transaction is remembered as a success exactly if it ever was one. -/
theorem outcomes_remembered :
    (∀ h : History D, Reaches (Decision.next chain) History.Fresh (fun _ _ => True) h →
        Ordered h.core) ∧
      ∀ h : History D, Reaches (Decision.next chain) History.Fresh
          (fun d h => d.Commits chain h → Unrepeated h.past (d.occurrences chain h.core)) h →
        Truthful h := by
  constructor
  · intro h hrun
    refine hrun.invariant (I := fun h => Ordered h.core) (fun h hfresh => ⟨fun d => ?_, ?_, ?_⟩)
      fun d h ho _ => ordered_next ho d
    · rw [hfresh.order, hfresh.outcomes]
      simp
    · rw [hfresh.order]
      exact List.nodup_nil
    · rw [hfresh.order]
      exact Nat.zero_le _
  · intro h hrun
    refine hrun.invariant (fun h hfresh => ?_) fun d h ht hd => truthful_next ht hd
    intro d outcome hd
    rw [hfresh.outcomes] at hd
    simp at hd

end Chain

/-! ### A transaction that is committed twice -/

def plainChain : Chain where
  sha256 bytes := BitVec.ofNat 256 (leNat bytes)
  verify _ _ _ := true
  root _ := 0

/-- A founder names its guardians. -/
def guardianEnvelope : SignedTx where
  tx := .registerGuardians 0 [1, 2] 2 30
  nonce := View.zeroNonce
  notAfterEpoch := 1
  signers := [founderKey 0]
  signatures := [[0]]

/-- The first block, which carries the transactions. -/
def firstDecision (txs : List SignedTx) : Decision Nat where
  block := { height := 1, timeSecs := 10, appHash := 0, txs }
  certificate := { height := 1, round := .nil, valueId := 0, signatures := [] }

def firstHistory : History Nat where
  core :=
    { replica :=
        { state := letI := Libm.unused; (devGenesis [1000, 1000, 1000]).state, appHash := 0 } }

theorem fresh_firstHistory : firstHistory.Fresh := ⟨rfl, rfl, rfl⟩

/-- A block of one transaction repeats nothing where nothing is past. -/
theorem unrepeated_single [Libm] (chain : Chain) (t : SignedTx) (core : NodeCore Nat) :
    Unrepeated [] ((firstDecision [t]).occurrences chain core) := by
  obtain ⟨outcome, hsingle⟩ : ∃ outcome, (firstDecision [t]).occurrences chain core =
      [(t.hash chain.sha256, outcome)] := ⟨_, rfl⟩
  rw [hsingle]
  exact ⟨List.not_mem_nil, trivial⟩

theorem outcomes_remembered_once :
    letI := Libm.unused
    let h := (firstDecision [guardianEnvelope]).next plainChain firstHistory
    Ordered h.core ∧ Truthful h ∧
      h.core.outcomes[guardianEnvelope.hash plainChain.sha256]? = some (.ok ()) := by
  let _ : Libm := Libm.unused
  exact ⟨outcomes_remembered.1 _ (.step (.start fresh_firstHistory) _ trivial),
    outcomes_remembered.2 _ (.step (.start fresh_firstHistory) _ fun _ =>
      unrepeated_single _ _ _),
    by decide +kernel⟩

/-- A block that carries the envelope twice: it was applied successfully, and is remembered as
refused. -/
theorem success_forgotten :
    letI := Libm.unused
    let h := (firstDecision [guardianEnvelope, guardianEnvelope]).next plainChain firstHistory
    Reaches (Decision.next plainChain) History.Fresh (fun _ _ => True) h ∧
      (guardianEnvelope.hash plainChain.sha256, .ok ()) ∈ h.past ∧
      h.core.outcomes[guardianEnvelope.hash plainChain.sha256]? = some (.error .txReplay) ∧
      ¬Truthful h := by
  refine ⟨?_, by decide +kernel, by decide +kernel, fun htrue => ?_⟩
  · let _ : Libm := Libm.unused
    exact .step (.start fresh_firstHistory) _ trivial
  · have hremembered := htrue (guardianEnvelope.hash plainChain.sha256) (.error .txReplay)
      (by decide +kernel)
    cases hremembered.2 (by decide +kernel)

end Edet.Node
