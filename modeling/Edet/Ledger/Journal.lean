import Edet.Kernel.Holds
import Edet.Ledger.State

/-!
# Journals

A ledger records which keys of its maps were written since somebody last asked. A
**journal** stands before each of the seven maps that leaves of the state root are made of:
an operation at a key marks the key, one over the whole map marks all of it. What marks
nothing is the map taken raw, and that is done in five places only, each of which marks the
keys its callee writes: staking, and reserving and releasing capacity or a seat.

`Access` lists these ways to the maps. A transition of the ledger is made of them, in
whatever order, so what all of them keep holds after every transition: `Ledger.Tracks s₀ l`
says that every key whose row is another one than in `s₀` is marked.

Releasing drops the empty entries of the whole map but marks the released arcs alone, so
the marks are right only because a reservation is never empty (`State.Reserved`); every
access keeps that as well.
-/

namespace Edet

open Edet.Flow

/-! ### What a journal knows -/

/-- Where a set of keys collapses to all of them. -/
def journalKeysCap : Nat := 1 <<< 16

/-- What a journal knows about the keys written since it was last drained. -/
inductive Dirty (κ : Type) [Ord κ]
  | clean
  | keys (keys : OrdSet κ)
  | all

namespace Dirty

variable {κ α : Type} [Ord κ] [Std.TransOrd κ] [Std.LawfulEqOrd κ]

/-- Record a key. -/
def mark (key : κ) : Dirty κ → Dirty κ
  | .all => .all
  | .clean => .keys ((∅ : OrdSet κ).insert key)
  | .keys ks =>
    let ks := ks.insert key
    if journalKeysCap < ks.size then .all else .keys ks

/-- Record a list of keys. -/
def markAll (d : Dirty κ) (keys : List κ) : Dirty κ := keys.foldl (fun d key => d.mark key) d

/-- A key is recorded, or everything is. -/
def Covers : Dirty κ → κ → Prop
  | .clean, _ => False
  | .keys ks, key => key ∈ ks
  | .all, _ => True

theorem covers_mark (d : Dirty κ) (key : κ) : (d.mark key).Covers key := by
  cases d with
  | clean =>
    show key ∈ (∅ : OrdSet κ).insert key
    simp
  | keys ks =>
    simp only [mark]
    split
    · trivial
    · show key ∈ ks.insert key
      simp
  | all => trivial

omit [Std.LawfulEqOrd κ] in
theorem Covers.mark {d : Dirty κ} {key : κ} (h : d.Covers key) (other : κ) :
    (d.mark other).Covers key := by
  cases d with
  | clean => exact h.elim
  | keys ks =>
    simp only [Dirty.mark]
    split
    · trivial
    · exact Std.ExtTreeSet.mem_insert.2 (.inr h)
  | all => trivial

omit [Std.LawfulEqOrd κ] in
theorem Covers.markAll {d : Dirty κ} {key : κ} (h : d.Covers key) (l : List κ) :
    (d.markAll l).Covers key := by
  induction l generalizing d with
  | nil => exact h
  | cons a l ih => exact ih (h.mark a)

theorem covers_markAll (d : Dirty κ) {l : List κ} {key : κ} (h : key ∈ l) :
    (d.markAll l).Covers key := by
  induction l generalizing d with
  | nil => cases h
  | cons a l ih =>
    rcases List.mem_cons.1 h with rfl | h
    · exact (covers_mark d key).markAll l
    · exact ih (d.mark a) h

/-- Every key whose row is not the one in `m₀` is recorded. -/
def Tracks (d : Dirty κ) (m₀ m : OrdMap κ α) : Prop := ∀ key : κ, m[key]? = m₀[key]? ∨ d.Covers key

omit [Std.LawfulEqOrd κ] in
/-- Keys of rows that are another one now are marked as they are written. -/
theorem Tracks.step {d d' : Dirty κ} {m₀ m m' : OrdMap κ α} (h : d.Tracks m₀ m)
    (hkeep : ∀ key, d.Covers key → d'.Covers key)
    (hnew : ∀ key : κ, m'[key]? = m[key]? ∨ d'.Covers key) : d'.Tracks m₀ m' := by
  intro key
  rcases hnew key with hsame | hcover
  · exact (h key).imp (hsame.trans ·) (hkeep key)
  · exact .inr hcover

end Dirty

/-- The journals of a ledger. -/
structure Journals where
  members : Dirty MemberId := .clean
  contracts : Dirty ContractId := .clean
  proposals : Dirty ProposalId := .clean
  edges : Dirty (Nat × Nat) := .clean
  reserved : Dirty (Nat × Nat) := .clean
  seatReserved : Dirty (Nat × Nat) := .clean
  appliedByExpiry : Dirty Nat := .clean

/-- A state with its journals. -/
structure Ledger where
  state : State
  journals : Journals

/-- The ledger with its journals drained. -/
def Ledger.drained (l : Ledger) : Ledger := { l with journals := {} }

/-! ### Accesses -/

/-- A mutation through a journal: at a key (`insert`, `remove`, `get_mut`, `entry` and
`touch`: whatever the row is afterwards), or of the whole map (`values_mut`, `iter_mut`,
`retain`, `clear` and any other `&mut`: whatever the map is afterwards). -/
inductive Mutation (κ : Type) [Ord κ] (α : Type)
  | point (key : κ) (row : Option α)
  | whole (map : OrdMap κ α)

namespace Mutation

variable {κ α : Type} [Ord κ] [Std.TransOrd κ] [Std.LawfulEqOrd κ]

def map : Mutation κ α → OrdMap κ α → OrdMap κ α
  | .point key (some v), m => m.insert key v
  | .point key none, m => m.erase key
  | .whole m, _ => m

def mark : Mutation κ α → Dirty κ → Dirty κ
  | .point key _, d => d.mark key
  | .whole _, _ => .all

/-- What a journal is for: a mutation that goes through it is recorded. -/
theorem tracks [DecidableEq κ] (w : Mutation κ α) {d : Dirty κ} {m₀ m : OrdMap κ α}
    (h : d.Tracks m₀ m) : (w.mark d).Tracks m₀ (w.map m) := by
  cases w with
  | whole m' => exact fun _ => .inr trivial
  | point key row =>
    refine h.step (fun _ hk => hk.mark key) fun a => ?_
    by_cases ha : key = a
    · subst ha
      exact .inr (Dirty.covers_mark d key)
    · refine .inl ?_
      cases row with
      | none => simp [map, Std.ExtTreeMap.getElem?_erase, ha]
      | some v => simp [map, Std.ExtTreeMap.getElem?_insert, ha]

end Mutation

/-- One way to the data of a ledger. The books of reservations have no other writers than
these; `rest` writes what no journal stands before, the salt of the leaves apart, which a
chain is given at its genesis. -/
inductive Access
  | members (w : Mutation MemberId Member)
  | contracts (w : Mutation ContractId Contract)
  | proposals (w : Mutation ProposalId Proposal)
  | edges (w : Mutation (Nat × Nat) Nat)
  | appliedByExpiry (w : Mutation Nat (OrdSet TxId))
  | recordStake (creditor debtor : MemberId) (amount creditorConferrable : Nat)
  | reserveCapacityMinor (debtor : MemberId) (want : Nat)
  | releaseCapacity (held : Held)
  | reserveSeat (sponsor : MemberId)
  | releaseSeat (held : Held)
  | rebuildReservations
  | rebuildSeatReservations
  | rest (write : State)

/-- The arcs of a hold, if there is one. -/
def arcsOf (held : Option Held) : List (Nat × Nat) :=
  held.elim [] fun h => h.edges.map Prod.fst

namespace Access

def run : Access → Ledger → Ledger
  | .members w, l =>
    { state := { l.state with members := w.map l.state.members }
      journals := { l.journals with members := w.mark l.journals.members } }
  | .contracts w, l =>
    { state := { l.state with contracts := w.map l.state.contracts }
      journals := { l.journals with contracts := w.mark l.journals.contracts } }
  | .proposals w, l =>
    { state := { l.state with proposals := w.map l.state.proposals }
      journals := { l.journals with proposals := w.mark l.journals.proposals } }
  | .edges w, l =>
    { state := { l.state with edges := w.map l.state.edges }
      journals := { l.journals with edges := w.mark l.journals.edges } }
  | .appliedByExpiry w, l =>
    { state := { l.state with appliedByExpiry := w.map l.state.appliedByExpiry }
      journals := { l.journals with appliedByExpiry := w.mark l.journals.appliedByExpiry } }
  | .recordStake creditor debtor amount creditorConferrable, l =>
    { state := l.state.recordStake creditor debtor amount creditorConferrable
      journals := { l.journals with edges := l.journals.edges.mark (creditor, debtor) } }
  | .reserveCapacityMinor debtor want, l =>
    let (held, s) := l.state.reserveCapacityMinor debtor want
    { state := s
      journals := { l.journals with reserved := l.journals.reserved.markAll (arcsOf held) } }
  | .releaseCapacity held, l =>
    { state := l.state.releaseCapacity held
      journals := { l.journals with reserved := l.journals.reserved.markAll (arcsOf held) } }
  | .reserveSeat sponsor, l =>
    let (held, s) := l.state.reserveSeat sponsor
    { state := s
      journals :=
        { l.journals with seatReserved := l.journals.seatReserved.markAll (arcsOf held) } }
  | .releaseSeat held, l =>
    { state := l.state.releaseSeat held
      journals :=
        { l.journals with seatReserved := l.journals.seatReserved.markAll (arcsOf held) } }
  -- a rebuild clears the book first, which marks all of it
  | .rebuildReservations, l =>
    { state := l.state.rebuildReservations, journals := { l.journals with reserved := .all } }
  | .rebuildSeatReservations, l =>
    { state := l.state.rebuildSeatReservations
      journals := { l.journals with seatReserved := .all } }
  | .rest write, l =>
    { l with
      state :=
        { write with
          members := l.state.members
          contracts := l.state.contracts
          proposals := l.state.proposals
          edges := l.state.edges
          reserved := l.state.reserved
          seatReserved := l.state.seatReserved
          appliedByExpiry := l.state.appliedByExpiry
          rootSalt := l.state.rootSalt } }

/-- One access after another. -/
def runAll (l : Ledger) (as : List Access) : Ledger := as.foldl (fun l a => a.run l) l

end Access

/-! ### What an access keeps -/

/-- No reservation is empty. -/
structure State.Reserved (s : State) : Prop where
  capacity : OrdMap.positive s.reserved = s.reserved
  seats : OrdMap.positive s.seatReserved = s.seatReserved

/-- **Every key whose row is not the one in `s₀` is marked**, in each of the seven maps. -/
structure Ledger.Tracks (s₀ : State) (l : Ledger) : Prop where
  members : l.journals.members.Tracks s₀.members l.state.members
  contracts : l.journals.contracts.Tracks s₀.contracts l.state.contracts
  proposals : l.journals.proposals.Tracks s₀.proposals l.state.proposals
  edges : l.journals.edges.Tracks s₀.edges l.state.edges
  reserved : l.journals.reserved.Tracks s₀.reserved l.state.reserved
  seatReserved : l.journals.seatReserved.Tracks s₀.seatReserved l.state.seatReserved
  appliedByExpiry : l.journals.appliedByExpiry.Tracks s₀.appliedByExpiry l.state.appliedByExpiry
  rootSalt : l.state.rootSalt = s₀.rootSalt

/-- Nothing has changed yet, so whatever the journals name is enough. -/
theorem Ledger.tracks_self (l : Ledger) : l.Tracks l.state :=
  ⟨fun _ => .inl rfl, fun _ => .inl rfl, fun _ => .inl rfl, fun _ => .inl rfl, fun _ => .inl rfl,
    fun _ => .inl rfl, fun _ => .inl rfl, rfl⟩

/-- A drained ledger tracks the changes from here on. -/
theorem Ledger.tracks_drained (l : Ledger) : l.drained.Tracks l.state := l.drained.tracks_self

section Books

variable {κ : Type} [Ord κ] [Std.TransOrd κ] [Std.LawfulEqOrd κ]

theorem getElem?_addAll_of_notMem {m : OrdMap κ Nat} {l : List (κ × Nat)} {a : κ}
    (h : a ∉ l.map Prod.fst) : (addAll m l)[a]? = m[a]? := by
  induction l generalizing m with
  | nil => rfl
  | cons p l ih =>
    rw [List.map_cons, List.mem_cons, not_or] at h
    refine (ih h.2).trans ?_
    simp [OrdMap.bump, Std.ExtTreeMap.getElem?_insert, Ne.symm h.1]

/-- Taking from a book writes the entries taken from; none other is empty to be dropped. -/
theorem getElem?_takeAll_of_notMem [DecidableEq κ] {m : OrdMap κ Nat} (hm : OrdMap.positive m = m)
    {l : List (κ × Nat)} {a : κ} (h : a ∉ l.map Prod.fst) : (takeAll m l)[a]? = m[a]? := by
  have hfold : (l.foldl (fun m p => m.modify p.1 (· - p.2)) m)[a]? = m[a]? := by
    clear hm
    induction l generalizing m with
    | nil => rfl
    | cons p l ih =>
      rw [List.map_cons, List.mem_cons, not_or] at h
      rw [List.foldl_cons, ih h.2, OrdMap.getElem?_modify_map]
      simp [Ne.symm h.1]
  have hma := congrArg (fun m => m[a]?) hm
  simp only [OrdMap.getElem?_positive] at hma
  rw [takeAll, OrdMap.getElem?_positive, hfold, hma]

end Books

theorem mem_used {κ : Type} {before after : List Nat} {arcs : List (κ × Nat)} {p : κ × Nat}
    (h : p ∈ used before after arcs) : 0 < p.2 := by
  simpa using (List.mem_filter.1 h).2

/-- What a reservation does to a book: nothing, or it adds positive amounts on the arcs of
the hold. -/
theorem reserveInner_books {edges : Edges} {reserved : Reservations} {committed : Committed}
    {uw : Underwriters} {debtor n amount : Nat} {ownSupply : Bool}
    {out : Option Held × Reservations × Committed}
    (h : reserveInner edges reserved committed uw debtor n amount ownSupply = out) :
    out.2.1 = reserved ∨
      ∃ held, out.1 = some held ∧ out.2.1 = addAll reserved held.edges ∧
        ∀ p ∈ held.edges, 0 < p.2 := by
  unfold reserveInner at h
  split at h
  · exact .inl (by rw [← h])
  · dsimp only at h
    split at h
    · exact .inl (by rw [← h])
    · refine .inr ⟨_, by rw [← h], by rw [← h], fun p hp => ?_⟩
      exact mem_used hp

namespace Access

/-- A book after a reservation: its marks are right and no entry of it is empty. -/
theorem books_reserve {d : Dirty (Nat × Nat)} {m₀ m : Reservations} {edges : Edges}
    {committed : Committed} {uw : Underwriters} {debtor n amount : Nat} {ownSupply : Bool}
    (htracks : d.Tracks m₀ m) (hm : OrdMap.positive m = m)
    {out : Option Held × Reservations × Committed}
    (h : reserveInner edges m committed uw debtor n amount ownSupply = out) :
    (d.markAll (arcsOf out.1)).Tracks m₀ out.2.1 ∧ OrdMap.positive out.2.1 = out.2.1 := by
  rcases reserveInner_books h with hsame | ⟨held, hheld, hadd, hpos⟩
  · rw [hsame]
    exact ⟨htracks.step (fun _ hk => hk.markAll _) fun _ => .inl rfl, hm⟩
  · rw [hadd, hheld]
    refine ⟨htracks.step (fun _ hk => hk.markAll _) fun a => ?_, positive_addAll hm hpos⟩
    by_cases ha : a ∈ held.edges.map Prod.fst
    · exact .inr (Dirty.covers_markAll d ha)
    · exact .inl (getElem?_addAll_of_notMem ha)

/-- A book after a release. -/
theorem books_release {d : Dirty (Nat × Nat)} {m₀ m : Reservations} (held : Held)
    (htracks : d.Tracks m₀ m) (hm : OrdMap.positive m = m) :
    (d.markAll (arcsOf held)).Tracks m₀ (takeAll m held.edges) := by
  refine htracks.step (fun _ hk => hk.markAll _) fun a => ?_
  by_cases ha : a ∈ held.edges.map Prod.fst
  · exact .inr (Dirty.covers_markAll d ha)
  · exact .inl (getElem?_takeAll_of_notMem hm ha)

/-- **Every access is recorded**, and leaves no reservation empty. -/
theorem keeps (a : Access) {s₀ : State} {l : Ledger} (h : l.Tracks s₀) (hr : l.state.Reserved) :
    (a.run l).Tracks s₀ ∧ (a.run l).state.Reserved := by
  cases a with
  | members w => exact ⟨{ h with members := w.tracks h.members }, ⟨hr.1, hr.2⟩⟩
  | contracts w => exact ⟨{ h with contracts := w.tracks h.contracts }, ⟨hr.1, hr.2⟩⟩
  | proposals w => exact ⟨{ h with proposals := w.tracks h.proposals }, ⟨hr.1, hr.2⟩⟩
  | edges w => exact ⟨{ h with edges := w.tracks h.edges }, ⟨hr.1, hr.2⟩⟩
  | appliedByExpiry w =>
    exact ⟨{ h with appliedByExpiry := w.tracks h.appliedByExpiry }, ⟨hr.1, hr.2⟩⟩
  | recordStake creditor debtor amount creditorConferrable =>
    refine ⟨{ h with edges := ?_ }, ⟨hr.1, hr.2⟩⟩
    refine h.edges.step (fun _ hk => hk.mark (creditor, debtor)) fun a => ?_
    by_cases ha : (creditor, debtor) = a
    · subst ha
      exact .inr (Dirty.covers_mark _ _)
    · refine .inl ?_
      show (stake l.state.edges creditor debtor amount creditorConferrable)[a]? = _
      unfold stake
      split
      · rfl
      · dsimp only
        split
        · rfl
        · simp [Std.ExtTreeMap.getElem?_insert, ha]
  | reserveCapacityMinor debtor want =>
    simp only [run, State.reserveCapacityMinor]
    split
    · exact ⟨h, hr⟩
    · obtain ⟨htracks, hpos⟩ := books_reserve h.reserved hr.capacity rfl
      exact ⟨{ h with reserved := htracks }, ⟨hpos, hr.seats⟩⟩
  | releaseCapacity held =>
    exact ⟨{ h with reserved := books_release held h.reserved hr.capacity },
      ⟨OrdMap.positive_positive _, hr.seats⟩⟩
  | reserveSeat sponsor =>
    simp only [run, State.reserveSeat]
    split
    · exact ⟨h, hr⟩
    · obtain ⟨htracks, hpos⟩ := books_reserve h.seatReserved hr.seats rfl
      exact ⟨{ h with seatReserved := htracks }, ⟨hr.capacity, hpos⟩⟩
  | releaseSeat held =>
    exact ⟨{ h with seatReserved := books_release held h.seatReserved hr.seats },
      ⟨hr.capacity, OrdMap.positive_positive _⟩⟩
  | rebuildReservations =>
    exact ⟨{ h with reserved := fun _ => .inr trivial },
      ⟨OrdMap.positive_positive _, hr.seats⟩⟩
  | rebuildSeatReservations =>
    exact ⟨{ h with seatReserved := fun _ => .inr trivial },
      ⟨hr.capacity, OrdMap.positive_positive _⟩⟩
  | rest write => exact ⟨⟨h.1, h.2, h.3, h.4, h.5, h.6, h.7, h.8⟩, ⟨hr.1, hr.2⟩⟩

/-- A list of accesses is recorded. -/
theorem keeps_runAll (as : List Access) {s₀ : State} {l : Ledger} (h : l.Tracks s₀)
    (hr : l.state.Reserved) : (runAll l as).Tracks s₀ ∧ (runAll l as).state.Reserved := by
  induction as generalizing l with
  | nil => exact ⟨h, hr⟩
  | cons a as ih =>
    obtain ⟨h, hr⟩ := a.keeps h hr
    exact ih h hr

end Access

end Edet
