import Edet.Node.Outcomes

/-!
# What a node proposes

A transaction is screened when it arrives and once more when it is proposed, on a state that
has moved since. The batch is the head of the queue without those that would not pass any more,
and nothing else takes their place: it is the first so many of the transactions that would pass
exactly if nothing at the head fails or nothing behind it would pass (`proposableBatch_iff`).
A transaction leaves the queue only by being committed, so one that will not pass again stays
at its head (`starved`).
-/

namespace Edet.Node

variable {D : Type}

/-- A transaction reaches the node, or a decided block. -/
inductive CoreEvent (D : Type)
  | submit (t : SignedTx) (nowNanos : Nat)
  | commit (d : Decision D)

def CoreEvent.next [Libm] (chain : Chain) (core : NodeCore D) : CoreEvent D → NodeCore D
  | .submit t nowNanos => (core.submit chain t nowNanos).2
  | .commit d => (core.commitDecided chain d.io d.block d.certificate).2

/-- The node after a run. -/
def CoreEvent.run [Libm] (chain : Chain) (core : NodeCore D) (es : List (CoreEvent D)) :
    NodeCore D :=
  es.foldl (CoreEvent.next chain) core

/-- The queued transactions, in the order of the queue. -/
def Mempool.transactions (pool : Mempool) : List SignedTx := pool.queue.map Prod.fst

/-- The first transactions of the queue that would pass. -/
def NodeCore.firstProposable (core : NodeCore D) (max : Nat) : List SignedTx :=
  (core.mempool.transactions.filter (NodeCore.proposable core.replica.state)).take max

/-- Filtering what was taken is taking from what was filtered exactly if nothing is filtered
out of what was taken, or nothing is left in the rest. -/
theorem filter_take_iff {α : Type} (p : α → Bool) (l : List α) (n : Nat) :
    (l.take n).filter p = (l.filter p).take n ↔
      (∀ a ∈ l.take n, p a = true) ∨ ∀ a ∈ l.drop n, p a = false := by
  have hsplit : l.filter p = (l.take n).filter p ++ (l.drop n).filter p := by
    rw [← List.filter_append, List.take_append_drop]
  have hle : ((l.take n).filter p).length ≤ (l.take n).length := List.length_filter_le _ _
  have htake : (l.take n).length ≤ n := List.length_take_le n l
  rw [hsplit, List.take_append, List.take_of_length_le (hle.trans htake), List.self_eq_append_right,
    List.take_eq_nil_iff, List.filter_eq_nil_iff]
  have hnone : (∀ a ∈ l.drop n, ¬p a = true) ↔ ∀ a ∈ l.drop n, p a = false := by
    simp only [Bool.not_eq_true]
  rw [hnone]
  constructor
  · rintro (hfull | hrest)
    · left
      -- as many were kept as can be taken, so none was filtered out
      have hlen : ((l.take n).filter p).length = (l.take n).length := by omega
      exact List.length_filter_eq_length_iff.1 hlen
    · exact .inr hrest
  · rintro (hall | hrest)
    · rw [List.length_filter_eq_length_iff.2 hall]
      by_cases hshort : l.length ≤ n
      · right
        rw [List.drop_eq_nil_of_le hshort]
        exact List.forall_mem_nil _
      · left
        rw [List.length_take]
        omega
    · exact .inr hrest

/-- In every state that a run leads to, the batch is the first of the transactions that would
pass exactly if those at the head of the queue all would, or none behind them. -/
theorem proposableBatch_iff [Libm] (chain : Chain) (start : NodeCore D) (es : List (CoreEvent D))
    (max : Nat) :
    let core := CoreEvent.run chain start es
    core.proposableBatch max = core.firstProposable max ↔
      (∀ t ∈ core.mempool.transactions.take max,
          NodeCore.proposable core.replica.state t = true) ∨
        ∀ t ∈ core.mempool.transactions.drop max,
          NodeCore.proposable core.replica.state t = false := by
  intro core
  have hbatch : core.mempool.batch max = core.mempool.transactions.take max := List.map_take
  unfold NodeCore.proposableBatch NodeCore.firstProposable
  rw [hbatch]
  exact filter_take_iff _ _ max

/-! ### A transaction that will not pass again -/

/-- A founder's envelope. -/
def envelopeOf (founder : Nat) (tx : Tx) : SignedTx where
  tx
  nonce := View.zeroNonce
  notAfterEpoch := 1
  signers := [founderKey founder]
  signatures := [[0]]

/-- Two founders each name their guardians; before either is proposed, a block commits that the
first withdraws its supply and leaves. -/
def departure : List (CoreEvent Nat) :=
  [.submit guardianEnvelope 0, .submit (envelopeOf 1 (.registerGuardians 1 [0, 2] 2 30)) 0,
    .commit (firstDecision
      [envelopeOf 0 (.declareSupply 0 (F64.ofNat 0)), envelopeOf 0 (.exit 0)])]

/-- What the first founder sent heads the queue and would not pass any more, so that a batch of
one is empty while the second founder's would pass. -/
theorem starved :
    letI := Libm.unused
    let core := CoreEvent.run plainChain firstHistory.core departure
    core.mempool.transactions =
        [guardianEnvelope, envelopeOf 1 (.registerGuardians 1 [0, 2] 2 30)] ∧
      core.proposableBatch 1 = [] ∧
      core.firstProposable 1 = [envelopeOf 1 (.registerGuardians 1 [0, 2] 2 30)] := by
  decide +kernel

end Edet.Node
