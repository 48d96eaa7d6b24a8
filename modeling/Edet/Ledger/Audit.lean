import Edet.Ledger.Block

/-!
# The audit

The checks a replica runs on the state every block leaves behind. Each clause is a
query that returns the violation it finds; `audit` runs them in the order of the
source and stops at the first.

The clauses on capacity work with the **live insured** obligations
(`State.liveInsured`): what their holds take from each arc and each supply is exactly
what is reserved and committed (`reservationsExact`), no arc and no supply is
overdrawn, every seat's hold is a flow to its sponsor, and no set of debtors owes more
outside supply than its cut delivers (`cutsHold`, which asks for the set of all debtors
and for the debtors of each underwriter).
-/

namespace Edet

open Edet.Flow

namespace State

/-- The live insured obligations: each debtor with its hold. -/
def liveInsured (s : State) : List (MemberId × Held) :=
  (s.contracts.toList.filter fun p => p.2.insured && p.2.status.live).map fun p =>
    (p.2.debtor, p.2.held)

/-- What the debtors in `inside` draw from underwriters outside it. -/
def drawnInto (s : State) (inside : OrdSet MemberId) : Nat :=
  ((s.liveInsured.filter fun p => inside.contains p.1).map fun p =>
    ((p.2.supply.filter fun q => !inside.contains q.1).map Prod.snd).sum).sum

end State

namespace Audit

/-- The outcome of a check: the violation it found. -/
abbrev Verdict := Except String Unit

/-- Run a check on every element of a list, up to the first violation. -/
def all {α : Type} (l : List α) (check : α → Verdict) : Verdict :=
  match l with
  | [] => .ok ()
  | x :: xs =>
    match check x with
    | .ok _ => all xs check
    | .error e => .error e

/-- A violation where `ok` fails. -/
def require (ok : Prop) [Decidable ok] (violation : String) : Verdict :=
  if ok then .ok () else .error violation

/-! ### Books -/

def contractsSound (s : State) : Verdict :=
  all s.contracts.toList fun (_, c) =>
    if c.debtor = c.creditor then
      .error s!"contract {c.id} has member {c.debtor} on both sides"
    else
      require (c.status.live ∨ c.outstanding = 0)
        s!"closed contract {c.id} carries outstanding {c.outstanding}"

/-- What each debtor owes on its live contracts. -/
def debtBook (s : State) : OrdMap MemberId Nat :=
  addAll ∅ ((s.contracts.toList.filter fun p => p.2.status.live).map fun p =>
    (p.2.debtor, p.2.outstanding))

def debtsExact (s : State) : Verdict :=
  all s.members.toList fun (id, m) =>
    let owed := OrdMap.getD' (debtBook s) id 0
    require (m.debtOut = owed) s!"member {id}: cached debt {m.debtOut} vs book {owed}"

def debtsConserved (s : State) : Verdict :=
  let cached := OrdMap.total (fun _ m => m.debtOut) s.members
  let book := OrdMap.total (fun _ v => v) (debtBook s)
  require (cached = book) s!"conservation: cached {cached} vs book {book}"

/-! ### Rows -/

def reserveKnown (s : State) : Verdict :=
  all s.forfeitReserve.toList fun (id, _) =>
    require (s.members.contains id) s!"forfeit reserve for unknown member {id}"

/-- Does the row of `id`, if there is one, satisfy `p`? -/
def rowSatisfies (s : State) (id : MemberId) (p : Member → Bool) : Bool :=
  match s.members[id]? with
  | none => false
  | some m => p m

def listingsSymmetric (s : State) : Verdict :=
  all s.members.toList fun (id, m) =>
    match all m.beneficiaries.toList fun (b, _) =>
        require (b = id ∨ rowSatisfies s b (·.supportersOf.contains id))
          s!"listing edge {id}->{b} missing reverse" with
    | .error e => .error e
    | .ok _ =>
      all m.supportersOf.toList fun l =>
        require (rowSatisfies s l (·.beneficiaries.contains id))
          s!"reverse edge {l}->{id} missing listing"

def underwritersKnown (s : State) : Verdict :=
  all s.underwriters.toList fun (id, _) =>
    require (s.members.contains id) s!"underwriter {id} is not a member"

def validatorsSound (s : State) : Verdict :=
  all s.validators.toList fun (v, _) =>
    match s.members[v]? with
    | none => .error s!"validator {v} not an active member"
    | some m =>
      if m.status ≠ .active then .error s!"validator {v} not an active member"
      else require m.consensusKey.isSome s!"validator {v} has no consensus key"

def attestationsSound (s : State) : Verdict :=
  all s.contracts.toList fun (_, c) =>
    match c.arb with
    | some t =>
      all c.arbAttestations.toList fun (a, _) =>
        require (t.arbiters.contains a) s!"contract {c.id}: non-panel attestation"
    | none =>
      require c.arbAttestations.isEmpty s!"contract {c.id}: attestations without terms"

/-! ### Capacity -/

/-- What a list of holds takes from each arc. -/
def arcsOf (holds : List (MemberId × Held)) : Reservations :=
  OrdMap.positive (addAll ∅ (holds.flatMap fun p => p.2.edges))

/-- What a list of holds draws from each supply. -/
def drawsOf (holds : List (MemberId × Held)) : Committed :=
  OrdMap.positive (addAll ∅ (holds.flatMap fun p => p.2.supply))

def reservationsExact (s : State) : Verdict :=
  if arcsOf s.liveInsured ≠ s.reserved then
    .error s!"invariant 2: reserved is {s.reserved.size} arcs against {(arcsOf s.liveInsured).size} the obligations hold"
  else if drawsOf s.liveInsured ≠ s.committed then
    .error s!"invariant 2: committed {committedTotal s.committed} against {committedTotal (drawsOf s.liveInsured)} the obligations hold"
  else
    let booked := OrdMap.total
      (fun _ c => if c.insured ∧ c.status.live then c.outstanding else 0) s.contracts
    require (committedTotal s.committed = booked)
      s!"invariant 2: {committedTotal s.committed} committed against {booked} outstanding insured"

def edgesSound (s : State) : Verdict :=
  all s.edges.toList fun ((c, d), w) =>
    if w = 0 then .error s!"invariant 3: empty stake edge {c}->{d}"
    else if c = d then .error s!"invariant 3: self-stake at {c}"
    else
      all [c, d] fun x =>
        require (s.members.contains x)
          s!"invariant 3: stake edge {c}->{d} names unknown account {x}"

def arcsCovered (s : State) : Verdict :=
  all s.reserved.toList fun (key, r) =>
    let edge := OrdMap.getD' s.edges key 0
    require (r ≤ edge)
      s!"invariant 4: {key.1}->{key.2} reserves {r} against a stake of {edge}"

def suppliesCovered (s : State) : Verdict :=
  all s.committed.toList fun (u, drawn) =>
    let supply := OrdMap.getD' s.underwriters u 0
    require (drawn ≤ supply)
      s!"invariant 5: {drawn} committed through underwriter {u} against a supply of {supply}"

/-- What flows into a node of a hold less what flows out, sources and sink counted. -/
def imbalance (target : MemberId) (h : Held) (v : Nat) : Int :=
  let inflow := (h.supply.map fun p => if p.1 = v then (p.2 : Int) else 0).sum +
    (h.edges.map fun p => if p.1.2 = v then (p.2 : Int) else 0).sum
  let outflow := (h.edges.map fun p => if p.1.1 = v then (p.2 : Int) else 0).sum +
    if target = v then (h.amount : Int) else 0
  inflow - outflow

/-- The nodes a hold touches. -/
def touched (target : MemberId) (h : Held) : List Nat :=
  target :: (h.supply.map Prod.fst ++ h.edges.flatMap fun p => [p.1.1, p.1.2])

/-- Does every hold balance at every node it touches? -/
def holdsAreFlows (holds : List (MemberId × Held)) : Bool :=
  holds.all fun p => (touched p.1 p.2).all fun v => imbalance p.1 p.2 v == 0

def seatsSound (s : State) : Verdict :=
  match all s.seats fun (sponsor, _) =>
      require (s.members.contains sponsor)
        s!"invariant 7: a seat names sponsor {sponsor}, who is not a member" with
  | .error e => .error e
  | .ok _ =>
    if ¬holdsAreFlows s.seats then
      .error "invariant 7: a seat's hold is not a flow to its sponsor"
    else if arcsOf s.seats ≠ s.seatReserved then
      .error s!"invariant 7: seat_reserved is {s.seatReserved.size} arcs against {(arcsOf s.seats).size} the seats hold"
    else
      require (drawsOf s.seats = s.seatCommitted)
        s!"invariant 7: seat_committed {committedTotal s.seatCommitted} against {committedTotal (drawsOf s.seats)} the seats hold"

/-- The debtors each underwriter backs. -/
def debtorsByUnderwriter (s : State) : OrdMap Nat (OrdSet MemberId) :=
  s.liveInsured.foldl (fun m p =>
    p.2.supply.foldl (fun m q => m.insert q.1 ((OrdMap.getD' m q.1 ∅).insert p.1)) m) ∅

/-- The sets whose cut is asked for: all debtors, and those of each underwriter. -/
def cutSets (s : State) : List (OrdSet MemberId) :=
  let everyone : OrdSet MemberId := s.liveInsured.foldl (fun set p => set.insert p.1) ∅
  (if everyone.isEmpty then [] else [everyone]) ++ (debtorsByUnderwriter s).vals

def cutsHold (s : State) : Verdict :=
  all (cutSets s) fun inside =>
    let cut := toMinor (fromMinor (s.grossCapacityOfSetMinor inside.toList))
    require (s.drawnInto inside ≤ cut)
      s!"invariant 1: a set of {inside.size} accounts holds {s.drawnInto inside} against a cut of {cut}"

/-- The capacity of the first staker does not depend on the order its stakes came in. -/
def orderFree (s : State) : Verdict :=
  match s.edges.toList with
  | [] => .ok ()
  | ((c, _), _) :: _ =>
    let reversed : Edges := s.edges.toList.reverse.foldl (fun m p => m.insert p.1 p.2) ∅
    let a := capacity s.edges s.reserved s.committed s.uw [c] s.flowN u64Max
    let b := capacity reversed s.reserved s.committed s.uw [c] s.flowN u64Max
    require (a = b) s!"invariant 6: capacity of {c} is {a} one way and {b} the other"

/-! ### Keys -/

def indexFresh (s : State) : Verdict :=
  all s.keyIndex.toList fun (key, id) =>
    require (rowSatisfies s id (·.hasKey key)) s!"key index stale for member {id}"

def keysIndexed (s : State) : Verdict :=
  all s.members.toList fun (id, m) =>
    if m.status = .exited then .ok ()
    else
      all m.keys fun key =>
        match s.keyIndex[key]? with
        | none => .error s!"member {id} holds a key absent from the index"
        | some owner =>
          require (owner = id) s!"key held by member {id} is indexed to member {owner}"

def consensusKeysFree (s : State) : Verdict :=
  all s.members.toList fun (id, m) =>
    match m.consensusKey with
    | none => .ok ()
    | some ck =>
      match s.keyIndex[ck]? with
      | none => .ok ()
      | some owner =>
        .error s!"validator {id}'s consensus key is member {owner}'s member key"

/-- The clauses of the audit, in order. -/
def clauses : List (State → Verdict) :=
  [contractsSound, debtsExact, debtsConserved, reserveKnown, listingsSymmetric,
    underwritersKnown, validatorsSound, attestationsSound, reservationsExact, edgesSound,
    arcsCovered, suppliesCovered, seatsSound, cutsHold, orderFree, indexFresh, keysIndexed,
    consensusKeysFree]

def audit (s : State) : Verdict := all clauses fun clause => clause s

end Audit

/-! ### Reading a verdict -/

namespace Audit

variable {α : Type}

theorem all_eq_ok {l : List α} {check : α → Verdict} :
    all l check = .ok () ↔ ∀ x ∈ l, check x = .ok () := by
  induction l with
  | nil => simp [all]
  | cons x xs ih =>
    unfold all
    cases hx : check x with
    | error e => simp [hx]
    | ok u => simp [hx, ih]

@[simp] theorem require_eq_ok {ok : Prop} [Decidable ok] {violation : String} :
    require ok violation = .ok () ↔ ok := by
  unfold require
  split <;> simp_all

/-- An audit passes when each of its clauses does. -/
theorem audit_eq_ok {s : State} : audit s = .ok () ↔ ∀ clause ∈ clauses, clause s = .ok () :=
  all_eq_ok

/-- The consensus-key clause: no consensus key is in the index. -/
theorem consensusKeysFree_eq_ok {s : State} :
    consensusKeysFree s = .ok () ↔
      ∀ (id : MemberId) (m : Member) (ck : Key), s.members[id]? = some m →
        m.consensusKey = some ck → s.keyIndex[ck]? = none := by
  unfold consensusKeysFree
  rw [all_eq_ok]
  constructor
  · intro h id m ck hm hck
    have := h (id, m) (OrdMap.mem_toList.2 hm)
    simp only [hck] at this
    cases hi : s.keyIndex[ck]? with
    | none => rfl
    | some owner => simp [hi] at this
  · rintro h ⟨id, m⟩ hp
    have hm := OrdMap.mem_toList.1 hp
    cases hck : m.consensusKey with
    | none => simp only [hck]
    | some ck => simp only [hck, h id m ck hm hck]

end Audit

end Edet
