import Edet.Ledger.Filed
import Edet.Library.Runs
import Edet.View.Disclose

/-!
# The capacities a node serves

A capacity is a maximum flow. A node keeps those it has answered for the inputs of the cut as
they are (`CapacityCache`), serves a page of members with what it holds, and computes a few of the
rest off its lock, on a copy of those inputs (`CapacitySnapshot`); what it computed is kept if the
inputs are still the ones it was computed on.

A member who is not active has no capacity, whatever the cut says, and a row asks for that only
where the cache answers nothing (`rowCapacity`). So a capacity that is served is the ledger's where
the member is active, or nothing is held for it, or the cut carries it nothing anyway (`Plain`).

A run interleaves blocks with reads, each of which begins under the lock and is finished later.
-/

namespace Edet.Node

open View

structure CapacityCache where
  edges : Flow.Edges := ∅
  reserved : Flow.Reservations := ∅
  committed : Flow.Committed := ∅
  supplies : OrdMap MemberId Nat := ∅
  flowN : Nat := 0
  warm : Bool := false
  answers : OrdMap MemberId F64 := ∅

namespace CapacityCache

/-- Are the inputs of the cut those that the answers are for? -/
def Current (cache : CapacityCache) (s : State) : Prop :=
  cache.warm = true ∧ cache.flowN = s.flowN ∧ cache.edges = s.edges ∧ cache.reserved = s.reserved ∧
    cache.committed = s.committed ∧ cache.supplies = s.underwriters

instance (cache : CapacityCache) (s : State) : Decidable (cache.Current s) :=
  inferInstanceAs (Decidable (_ ∧ _))

/-- Drop the answers if the inputs have moved. -/
def refreshed (cache : CapacityCache) (s : State) : CapacityCache :=
  if cache.Current s then cache
  else
    { edges := s.edges, reserved := s.reserved, committed := s.committed, supplies := s.underwriters
      flowN := s.flowN, warm := true, answers := ∅ }

def get (cache : CapacityCache) (s : State) (id : MemberId) : Option F64 × CapacityCache :=
  let cache := cache.refreshed s
  (cache.answers[id]?, cache)

def insert (cache : CapacityCache) (id : MemberId) (capacity : F64) : CapacityCache :=
  { cache with answers := cache.answers.insert id capacity }

end CapacityCache

/-- The inputs of the cut at one moment. -/
structure CapacitySnapshot where
  edges : Flow.Edges
  reserved : Flow.Reservations
  committed : Flow.Committed
  uw : Flow.Underwriters
  supplies : OrdMap MemberId Nat
  n : Nat
  sealAmounts : F64

namespace CapacitySnapshot

def capacityOf (snap : CapacitySnapshot) (id : MemberId) : F64 :=
  fromMinor (Flow.capacity snap.edges snap.reserved snap.committed snap.uw [id] snap.n u64Max)

def visible [LibmPow] (snap : CapacitySnapshot) (x : F64) (viewerIsParty : Bool) : F64 :=
  if viewerIsParty = true ∨ snap.sealAmounts < F64.lit 5 10 then x else pow2Bucket x

def Matches (snap : CapacitySnapshot) (s : State) : Prop :=
  snap.n = s.flowN ∧ snap.edges = s.edges ∧ snap.reserved = s.reserved ∧
    snap.committed = s.committed ∧ snap.supplies = s.underwriters

instance (snap : CapacitySnapshot) (s : State) : Decidable (snap.Matches s) :=
  inferInstanceAs (Decidable (_ ∧ _))

end CapacitySnapshot

def capacitySnapshot (s : State) : CapacitySnapshot where
  edges := s.edges
  reserved := s.reserved
  committed := s.committed
  uw := s.uw
  supplies := s.underwriters
  n := s.flowN
  sealAmounts := s.params.sealAmounts

/-- Keep what was computed on a copy, if the inputs are still those of the copy. -/
def fillCapacityCache (cache : CapacityCache) (s : State) (snapshot : CapacitySnapshot)
    (computed : List (MemberId × F64)) : CapacityCache :=
  if snapshot.Matches s then
    computed.foldl (fun cache p => cache.insert p.1 p.2) (cache.refreshed s)
  else cache

/-- How many capacities one read may compute. -/
def maxColdCapacityPerRead : Nat := 8

/-! ### A read of the list of members -/

/-- A read after its first phase: the rows, what they lack, and a copy of the inputs where they
lack something. -/
structure MembersRead where
  rows : List MemberRow
  pending : List PendingCapacity
  snapshot : Option CapacitySnapshot

section Reads

variable [LibmPow] (sha256 : Bytes → View.Digest)

/-- The rows of a page, which is a list of ids, with what each lacks and the cache after them. -/
def memberRows (s : State) (viewer : Option MemberId) :
    List MemberId → CapacityCache → List (MemberRow × Option PendingCapacity) × CapacityCache
  | [], cache => ([], cache)
  | id :: page, cache =>
    match s.members[id]? with
    | none => memberRows s viewer page cache
    | some m =>
      let row := memberRow sha256 s m viewer fun id => (cache.get s id).1
      -- the row asks the cache once, if the viewer is somebody
      let cache := if viewer.isSome then (cache.get s m.id).2 else cache
      let (rows, cache) := memberRows s viewer page cache
      (row :: rows, cache)

/-- The first phase of a read, under the lock. -/
def membersRead (cache : CapacityCache) (s : State) (viewer : Option MemberId)
    (page : List MemberId) : MembersRead × CapacityCache :=
  let (rows, cache) := memberRows sha256 s viewer page cache
  let pending := rows.filterMap Prod.snd
  ({ rows := rows.map Prod.fst, pending
     snapshot := if pending.isEmpty then none else some (capacitySnapshot s) }, cache)

/-- The capacities that a read computes, off the lock. -/
def MembersRead.computed (read : MembersRead) : List (MemberId × F64) :=
  match read.snapshot with
  | some snap =>
    (read.pending.take maxColdCapacityPerRead).map fun p => (p.id, snap.capacityOf p.id)
  | none => []

/-- Write a capacity into the first row of a member. -/
def patchRow (id : MemberId) (capacity : F64) : List MemberRow → List MemberRow
  | [] => []
  | row :: rows =>
    if row.id = id then { row with capacity := some capacity } :: rows
    else row :: patchRow id capacity rows

/-- The rows with the capacities that were computed for them. -/
def membersFinish (read : MembersRead) (computed : List (MemberId × F64)) : List MemberRow :=
  match read.snapshot with
  | none => read.rows
  | some snap =>
    computed.foldl (fun rows c =>
      match read.pending.find? fun p => decide (p.id = c.1) with
      | none => rows
      | some p => patchRow c.1 (snap.visible c.2 p.fullAccess) rows) read.rows

/-! ### Runs -/

/-- A read between its phases, with the ledgers that were current since it began. -/
structure OpenRead where
  viewer : Option MemberId
  read : MembersRead
  moments : List State

structure CapacityNode where
  ledger : State
  cache : CapacityCache := {}
  reads : OrdMap Nat OpenRead := ∅

inductive CapacityEvent
  | commit (block : List Event)
  | ask (read : Nat) (viewer : Option MemberId) (page : List MemberId)
  | finish (read : Nat)

/-- The ledger after the events of a block. -/
def committed [Libm] (block : List Event) (s : State) : State := block.foldl (fun s e => e.next s) s

/-- What a step does to a node. -/
def CapacityEvent.next [Libm] : CapacityEvent → CapacityNode → CapacityNode
  | .commit block, n =>
    let ledger := committed block n.ledger
    { n with
      ledger
      reads := n.reads.map fun _ o => { o with moments := ledger :: o.moments } }
  | .ask read viewer page, n =>
    let (r, cache) := membersRead sha256 n.cache n.ledger viewer page
    { n with cache, reads := n.reads.insert read { viewer, read := r, moments := [n.ledger] } }
  | .finish read, n =>
    match n.reads[read]? with
    | none => n
    | some o =>
      { n with
        cache := match o.read.snapshot with
          | some snap => fillCapacityCache n.cache n.ledger snap o.read.computed
          | none => n.cache
        reads := n.reads.erase read }

/-- The rows that a read is answered with when it is finished. -/
def OpenRead.served (o : OpenRead) : List MemberRow := membersFinish o.read o.read.computed

/-- A node that serves a founding ledger and has answered nothing. -/
def CapacityNode.Fresh (n : CapacityNode) : Prop :=
  Founding n.ledger ∧ n.cache.answers = ∅ ∧ n.reads = ∅

/-- May the viewer see the exact amounts of a member? -/
def fullAccess (s : State) (viewer : Option MemberId) (id : MemberId) : Bool :=
  viewerIsValidator s viewer || decide (viewer = some id)

/-- The capacity of a member on a ledger, as the views round it for a viewer or as the copy of its
inputs does (`visible_capacitySnapshot`). -/
def ShowsCapacity (s : State) (viewer : Option MemberId) (id : MemberId) (x : F64) : Prop :=
  x = visibleAmount s (fromMinor (s.capacityOfMinor id)) (fullAccess s viewer id) ∨
    x = (capacitySnapshot s).visible (fromMinor (s.capacityOfMinor id)) (fullAccess s viewer id)

/-- Every capacity served is the member's on a ledger that was current during the read. -/
def OpenRead.Right (o : OpenRead) : Prop :=
  ∀ row ∈ o.served, ∀ x, row.capacity = some x →
    ∃ s ∈ o.moments, ShowsCapacity s o.viewer row.id x

/-- The member is active, or the cache holds no answer for it, or its cut carries nothing. -/
def Plain (n : CapacityNode) (id : MemberId) : Prop :=
  (∀ m, n.ledger.members[id]? = some m → m.status = .active) ∨ ¬n.cache.Current n.ledger ∨
    n.cache.answers[id]? = none ∨ n.ledger.capacityRawMinor id = 0

/-- A read that begins for somebody asks only for members of whom the cache can say nothing that
their status forbids. -/
def AsksPlain : CapacityEvent → CapacityNode → Prop
  | .ask _ viewer page, n => viewer.isSome = true → ∀ id ∈ page, Plain n id
  | _, _ => True

end Reads

/-! ### The cache -/

namespace CapacityCache

variable {cache : CapacityCache} {s : State}

/-- Every answer is the cut's on the inputs it is kept for. -/
def Exact (cache : CapacityCache) : Prop :=
  ∀ (id : MemberId) (x : F64), cache.answers[id]? = some x →
    x = fromMinor (Flow.capacity cache.edges cache.reserved cache.committed cache.supplies.toList
      [id] cache.flowN u64Max)

theorem current_refreshed (cache : CapacityCache) (s : State) : (cache.refreshed s).Current s := by
  unfold refreshed
  split
  · next h => exact h
  · exact ⟨rfl, rfl, rfl, rfl, rfl, rfl⟩

theorem refreshed_of_current (h : cache.Current s) : cache.refreshed s = cache := if_pos h

theorem refreshed_refreshed : (cache.refreshed s).refreshed s = cache.refreshed s :=
  refreshed_of_current (current_refreshed cache s)

theorem Exact.of_empty (h : cache.answers = ∅) : cache.Exact := by
  intro id x hx
  rw [h, Std.ExtTreeMap.getElem?_empty] at hx
  cases hx

theorem Exact.refreshed (h : cache.Exact) (s : State) : (cache.refreshed s).Exact := by
  unfold CapacityCache.refreshed
  split
  · exact h
  · exact .of_empty rfl

/-- An answer is the cut of the ledger it is given for. -/
theorem Exact.answer (h : cache.Exact) {id : MemberId} {x : F64}
    (hx : (cache.get s id).1 = some x) : x = fromMinor (s.capacityRawMinor id) := by
  obtain ⟨-, hn, hedges, hreserved, hcommitted, hsupplies⟩ := current_refreshed cache s
  have hexact := h.refreshed s id x hx
  rw [hn, hedges, hreserved, hcommitted, hsupplies] at hexact
  exact hexact

/-- Nothing is held for a member whose answer is missing or is for other inputs. -/
theorem get_eq_none {id : MemberId} (h : ¬cache.Current s ∨ cache.answers[id]? = none) :
    (cache.get s id).1 = none := by
  unfold get refreshed
  dsimp only
  split
  · next hcurrent => exact h.resolve_left (not_not.2 hcurrent)
  · exact Std.ExtTreeMap.getElem?_empty

/-- What was computed on a copy of a ledger's inputs is exact on it. -/
theorem Exact.fill (h : cache.Exact) (s s₀ : State) (ids : List MemberId) :
    (fillCapacityCache cache s (capacitySnapshot s₀)
      (ids.map fun id => (id, (capacitySnapshot s₀).capacityOf id))).Exact := by
  unfold fillCapacityCache
  split
  · next hmatches =>
    obtain ⟨hn, hedges, hreserved, hcommitted, hsupplies⟩ := hmatches
    have hstart : (cache.refreshed s).Exact ∧ (cache.refreshed s).Current s :=
      ⟨h.refreshed s, current_refreshed cache s⟩
    rw [List.foldl_map]
    -- the copy's inputs are the ledger's, and so are the cache's
    have hrun : ∀ (ids : List MemberId) (c : CapacityCache), c.Exact ∧ c.Current s →
        (ids.foldl (fun c id => c.insert id ((capacitySnapshot s₀).capacityOf id)) c).Exact := by
      intro ids
      induction ids with
      | nil => exact fun c hc => hc.1
      | cons id ids ih =>
        refine fun c hc => ih _ ⟨fun a x hx => ?_, hc.2⟩
        obtain ⟨-, hn', hedges', hreserved', hcommitted', hsupplies'⟩ := hc.2
        simp only [insert, Std.ExtTreeMap.getElem?_insert, Std.LawfulEqCmp.compare_eq_iff_eq] at hx
        split at hx
        · next hid =>
          subst hid
          have huw : s₀.uw = s.uw := congrArg Std.ExtTreeMap.toList hsupplies
          have hx := Option.some.inj hx
          rw [← hx]
          show fromMinor (Flow.capacity (capacitySnapshot s₀).edges (capacitySnapshot s₀).reserved
            (capacitySnapshot s₀).committed s₀.uw [id] (capacitySnapshot s₀).n u64Max) = fromMinor
            (Flow.capacity c.edges c.reserved c.committed c.supplies.toList [id] c.flowN u64Max)
          rw [hn, hedges, hreserved, hcommitted, huw, hn', hedges', hreserved', hcommitted', hsupplies']
          rfl
        · exact hc.1 a x hx
    exact hrun ids _ hstart
  · exact h

end CapacityCache

/-! ### Rows -/

section Rows

variable [LibmPow] {sha256 : Bytes → View.Digest} {s : State} {viewer : Option MemberId}

/-- The two roundings agree where the policy is a number. -/
theorem visible_capacitySnapshot (h : s.params.sealAmounts.isNaN = false) (x : F64) (full : Bool) :
    (capacitySnapshot s).visible x full = visibleAmount s x full := by
  have hhalf : (F64.lit 5 10).isNaN = false := by decide +kernel
  have hnot : F64.lit 5 10 ≤ s.params.sealAmounts ↔ ¬s.params.sealAmounts < F64.lit 5 10 := by
    show (_ ∧ _ ∧ _) ↔ ¬(_ ∧ _ ∧ _)
    rw [h, hhalf]
    simp
  unfold CapacitySnapshot.visible visibleAmount sealAmount
  rw [show (capacitySnapshot s).sealAmounts = s.params.sealAmounts from rfl]
  cases full with
  | true => rfl
  | false =>
    by_cases hlt : s.params.sealAmounts < F64.lit 5 10
    · simp [hnot, hlt]
    · simp [hnot, hlt]

/-- The capacity in a row is the member's on a ledger. -/
def RowRight (s : State) (viewer : Option MemberId) (row : MemberRow) : Prop :=
  ∀ x, row.capacity = some x → ShowsCapacity s viewer row.id x

/-- What a read owes is the capacity of an active member. -/
def Owed (s : State) (viewer : Option MemberId) (p : PendingCapacity) : Prop :=
  p.fullAccess = fullAccess s viewer p.id ∧ ∃ m, s.members[p.id]? = some m ∧ m.status = .active

omit [LibmPow] in
theorem capacityOfMinor_of_active {id : MemberId} {m : Member} (hm : s.members[id]? = some m)
    (h : m.status = .active) : s.capacityOfMinor id = s.capacityRawMinor id := by
  unfold State.capacityOfMinor
  rw [hm]
  exact if_pos h

omit [LibmPow] in
theorem capacityOfMinor_of_not_active {id : MemberId} {m : Member} (hm : s.members[id]? = some m)
    (h : m.status ≠ .active) : s.capacityOfMinor id = 0 := by
  unfold State.capacityOfMinor
  rw [hm]
  exact if_neg h

omit [LibmPow] in
theorem fromMinor_zero : fromMinor 0 = F64.zero false := by decide +kernel

/-- A row of a member whose answer, if one is held, its status does not forbid. -/
theorem memberRow_right {cache : CapacityCache} (hexact : cache.Exact) {m : Member}
    (hm : s.members[m.id]? = some m)
    (hplain : viewer.isSome = true →
      m.status = .active ∨ (cache.get s m.id).1 = none ∨ s.capacityRawMinor m.id = 0) :
    RowRight s viewer (memberRow sha256 s m viewer fun id => (cache.get s id).1).1 ∧
      ∀ p, (memberRow sha256 s m viewer fun id => (cache.get s id).1).2 = some p →
        Owed s viewer p := by
  have hrow : (memberRow sha256 s m viewer fun id => (cache.get s id).1).1.capacity
      = (rowCapacity s m viewer fun id => (cache.get s id).1).1 := rfl
  have hid : (memberRow sha256 s m viewer fun id => (cache.get s id).1).1.id = m.id := rfl
  have howed : (memberRow sha256 s m viewer fun id => (cache.get s id).1).2
      = (rowCapacity s m viewer fun id => (cache.get s id).1).2 := rfl
  unfold RowRight
  rw [hrow, hid, howed]
  unfold rowCapacity
  dsimp only
  split
  · next hviewer =>
    split
    · next cap hcap =>
      -- what is held is the cut, and the status does not say otherwise
      have hcut := hexact.answer hcap
      have hsame : s.capacityOfMinor m.id = s.capacityRawMinor m.id := by
        rcases hplain hviewer with hactive | hnone | hzero
        · exact capacityOfMinor_of_active hm hactive
        · rw [hnone] at hcap
          cases hcap
        · by_cases hactive : m.status = .active
          · exact capacityOfMinor_of_active hm hactive
          · rw [capacityOfMinor_of_not_active hm hactive, hzero]
      refine ⟨fun x hx => .inl ?_, fun p hp => (by cases hp)⟩
      rw [← Option.some.inj hx, hcut, hsame]
      rfl
    · split
      · next hactive =>
        refine ⟨fun x hx => .inl ?_, fun p hp => (by cases hp)⟩
        rw [← Option.some.inj hx, capacityOfMinor_of_not_active hm hactive, fromMinor_zero]
        rfl
      · next hactive =>
        refine ⟨fun x hx => (by cases hx), fun p hp => ?_⟩
        rw [← Option.some.inj hp]
        exact ⟨rfl, m, hm, not_not.1 hactive⟩
  · exact ⟨fun x hx => (by cases hx), fun p hp => (by cases hp)⟩

/-- The rows of a page. -/
theorem memberRows_right (hfiled : s.Filed) {page : List MemberId} {cache : CapacityCache}
    (hexact : cache.Exact)
    (hplain : viewer.isSome = true → ∀ id ∈ page,
      (∀ m, s.members[id]? = some m → m.status = .active) ∨ (cache.get s id).1 = none ∨
        s.capacityRawMinor id = 0) :
    (∀ r ∈ (memberRows sha256 s viewer page cache).1,
      RowRight s viewer r.1 ∧ ∀ p, r.2 = some p → Owed s viewer p) ∧
    (memberRows sha256 s viewer page cache).2.Exact := by
  induction page generalizing cache with
  | nil => exact ⟨fun r hr => (by cases hr), hexact⟩
  | cons id page ih =>
    unfold memberRows
    split
    · exact ih hexact fun hviewer a ha => hplain hviewer a (List.mem_cons_of_mem _ ha)
    · next m hm =>
      have hid := hfiled id m hm
      subst hid
      extract_lets row cache' 
      have hget : ∀ a, (cache'.get s a).1 = (cache.get s a).1 := by
        intro a
        simp only [cache']
        split
        · show ((cache.refreshed s).refreshed s).answers[a]? = (cache.refreshed s).answers[a]?
          rw [CapacityCache.refreshed_refreshed]
        · rfl
      have hexact' : cache'.Exact := by
        simp only [cache']
        split
        · exact hexact.refreshed s
        · exact hexact
      have hrow : RowRight s viewer row.1 ∧ ∀ p, row.2 = some p → Owed s viewer p := by
        refine memberRow_right hexact hm fun hviewer => ?_
        rcases hplain hviewer m.id List.mem_cons_self with hactive | h
        · exact .inl (hactive m hm)
        · exact .inr h
      obtain ⟨hrows, hlast⟩ := ih hexact' fun hviewer a ha => by
        rw [hget]
        exact hplain hviewer a (List.mem_cons_of_mem _ ha)
      exact ⟨List.forall_mem_cons.2 ⟨hrow, hrows⟩, hlast⟩

theorem patchRow_right {id : MemberId} {x : F64} (hx : ShowsCapacity s viewer id x)
    {rows : List MemberRow} (h : ∀ row ∈ rows, RowRight s viewer row) :
    ∀ row ∈ patchRow id x rows, RowRight s viewer row := by
  induction rows with
  | nil => exact h
  | cons row rows ih =>
    obtain ⟨hrow, hrows⟩ := List.forall_mem_cons.1 h
    unfold patchRow
    split
    · next hid =>
      refine List.forall_mem_cons.2 ⟨fun y hy => ?_, hrows⟩
      rw [← Option.some.inj hy]
      exact hid ▸ hx
    · exact List.forall_mem_cons.2 ⟨hrow, ih hrows⟩

theorem membersFinish_right {read : MembersRead}
    (hsnap : ∀ snap, read.snapshot = some snap → snap = capacitySnapshot s)
    (hrows : ∀ row ∈ read.rows, RowRight s viewer row)
    (hpending : ∀ p ∈ read.pending, Owed s viewer p) :
    ∀ row ∈ membersFinish read read.computed, RowRight s viewer row := by
  unfold membersFinish MembersRead.computed
  cases hread : read.snapshot with
  | none => exact hrows
  | some snap =>
    obtain rfl := hsnap snap hread
    dsimp only
    rw [List.foldl_map]
    have hall : ∀ (l : List PendingCapacity) (rows : List MemberRow),
        (∀ row ∈ rows, RowRight s viewer row) →
        ∀ row ∈ l.foldl (fun rows p =>
          match read.pending.find? fun q => decide (q.id = p.id) with
          | none => rows
          | some q =>
            patchRow p.id ((capacitySnapshot s).visible ((capacitySnapshot s).capacityOf p.id)
              q.fullAccess) rows) rows, RowRight s viewer row := by
      intro l
      induction l with
      | nil => exact fun _ h => h
      | cons p l ih =>
        intro rows h
        rw [List.foldl_cons]
        refine ih _ ?_
        split
        · exact h
        · next q hq =>
          have hsame : q.id = p.id := by simpa using List.find?_some hq
          obtain ⟨hfull, m, hm, hactive⟩ := hpending q (List.mem_of_find?_eq_some hq)
          rw [hsame] at hfull hm
          refine patchRow_right (.inr ?_) h
          rw [hfull, capacityOfMinor_of_active hm hactive]
          rfl
    exact hall _ _ hrows

/-! ### Runs -/

/-- What holds of a read that has begun: it read one of the ledgers since, and owes what that
ledger says. -/
def OpenRead.Sound (o : OpenRead) : Prop :=
  ∃ s ∈ o.moments, (∀ snap, o.read.snapshot = some snap → snap = capacitySnapshot s) ∧
    (∀ row ∈ o.read.rows, RowRight s o.viewer row) ∧ ∀ p ∈ o.read.pending, Owed s o.viewer p

theorem OpenRead.Sound.right {o : OpenRead} (h : o.Sound) : o.Right := by
  obtain ⟨s, hs, hsnap, hrows, hpending⟩ := h
  exact fun row hrow x hx => ⟨s, hs, membersFinish_right hsnap hrows hpending row hrow x hx⟩

structure CapacityNode.Sound (n : CapacityNode) : Prop where
  filed : n.ledger.Filed
  exact : n.cache.Exact
  reads : ∀ (r : Nat) (o : OpenRead), n.reads[r]? = some o → o.Sound

omit [LibmPow] in
theorem filed_committed [Libm] (block : List Event) {s : State} (hs : s.Filed) :
    (committed block s).Filed := by
  unfold committed
  induction block generalizing s with
  | nil => exact hs
  | cons e block ih => exact ih (filed_next e hs)

theorem sound_next [Libm] {e : CapacityEvent} {n : CapacityNode} (h : n.Sound)
    (hasks : AsksPlain e n) : (e.next sha256 n).Sound := by
  cases e with
  | commit block =>
    refine ⟨filed_committed block h.filed, h.exact, fun r o ho => ?_⟩
    have ho : (n.reads.map fun _ o => { o with moments := committed block n.ledger :: o.moments })[r]?
        = some o := ho
    rw [Std.ExtTreeMap.getElem?_map, Option.map_eq_some_iff] at ho
    obtain ⟨o', ho', rfl⟩ := ho
    obtain ⟨s, hs, hsound⟩ := h.reads r o' ho'
    exact ⟨s, List.mem_cons_of_mem _ hs, hsound⟩
  | ask r viewer page =>
    have hplain : viewer.isSome = true → ∀ id ∈ page,
        (∀ m, n.ledger.members[id]? = some m → m.status = .active) ∨
          (n.cache.get n.ledger id).1 = none ∨ n.ledger.capacityRawMinor id = 0 := by
      intro hviewer id hid
      rcases hasks hviewer id hid with hactive | hmoved | hnone | hzero
      · exact .inl hactive
      · exact .inr (.inl (CapacityCache.get_eq_none (.inl hmoved)))
      · exact .inr (.inl (CapacityCache.get_eq_none (.inr hnone)))
      · exact .inr (.inr hzero)
    obtain ⟨hrows, hexact⟩ := memberRows_right h.filed h.exact hplain
    refine ⟨h.filed, hexact, fun r' o ho => ?_⟩
    have ho : (n.reads.insert r
        { viewer, read := (membersRead sha256 n.cache n.ledger viewer page).1
          moments := [n.ledger] })[r']? = some o := ho
    simp only [Std.ExtTreeMap.getElem?_insert, Std.LawfulEqCmp.compare_eq_iff_eq] at ho
    split at ho
    · obtain rfl := Option.some.inj ho
      refine ⟨n.ledger, List.mem_singleton_self _, fun snap hsnap => ?_, fun row hrow => ?_,
        fun p hp => ?_⟩
      · have hsnap : (if _ then none else some (capacitySnapshot n.ledger)) = some snap := hsnap
        split at hsnap
        · cases hsnap
        · exact (Option.some.inj hsnap).symm
      · obtain ⟨r, hr, rfl⟩ := List.mem_map.1 hrow
        exact (hrows r hr).1
      · obtain ⟨r, hr, hp⟩ := List.mem_filterMap.1 hp
        exact (hrows r hr).2 p hp
    · exact h.reads r' o ho
  | finish r =>
    unfold CapacityEvent.next
    dsimp only
    split
    · exact h
    · next o ho =>
      refine ⟨h.filed, ?_, fun r' o' ho' => ?_⟩
      · obtain ⟨s, -, hsnap, -⟩ := h.reads r o ho
        unfold MembersRead.computed
        split
        · next snap hread =>
          obtain rfl := hsnap snap hread
          have hfill := h.exact.fill n.ledger s ((o.read.pending.take maxColdCapacityPerRead).map
            PendingCapacity.id)
          rw [List.map_map] at hfill
          exact hfill
        · exact h.exact
      · have ho' : (n.reads.erase r)[r']? = some o' := ho'
        simp only [Std.ExtTreeMap.getElem?_erase, Std.LawfulEqCmp.compare_eq_iff_eq] at ho'
        split at ho'
        · cases ho'
        · exact h.reads r' o' ho'

/-- **The capacities served are the ledger's**: in every run of blocks and reads in which no read
asks the cache for a member whose status forbids what is held, what each read is answered with is
right when it is finished. -/
theorem served_right [Libm] {n : CapacityNode}
    (h : Reaches (CapacityEvent.next sha256) CapacityNode.Fresh AsksPlain n) {r : Nat} {o : OpenRead}
    (ho : n.reads[r]? = some o) : o.Right := by
  have hsound : n.Sound := by
    refine h.invariant (fun n hn => ?_) fun e n hn ha => sound_next hn ha
    obtain ⟨hfounding, hcache, hreads⟩ := hn
    refine ⟨filed_of_founding hfounding, .of_empty hcache, fun r o ho => ?_⟩
    rw [hreads, Std.ExtTreeMap.getElem?_empty] at ho
    cases ho
  exact (hsound.reads r o ho).right

end Rows

/-! ### A member who leaves -/

section Leaving

/-- A rounding that is never asked for, where amounts are not sealed. -/
@[reducible] def LibmPow.unused : LibmPow := ⟨id, id, id⟩

/-- A founder borrows, settles, which another founder stakes on it, and withdraws its supply. -/
def trading : List Event :=
  [.transaction (.accept (.member 0) (.member 1) (F64.ofNat 100) 40 none) 1 0
      [founderKey 0, founderKey 1] 10,
    .transaction (.settle 0 (F64.ofNat 100)) 2 0 [founderKey 0, founderKey 1] 10,
    .transaction (.declareSupply 0 (F64.zero false)) 3 0 [founderKey 0] 10]

/-- The founder's capacity is read and kept. -/
def firstRead : List CapacityEvent := [.commit trading, .ask 0 (some 1) [0]]

/-- The founder exits and is read again. -/
def secondRead : List CapacityEvent :=
  [.finish 0, .commit [.transaction (.exit 0) 4 0 [founderKey 0] 10], .ask 1 (some 1) [0]]

def CapacityNode.founded : CapacityNode := { ledger := (devGenesis [1000, 1000, 1000]).state }

/-- A founding node after some events. -/
def afterReads (events : List CapacityEvent) : CapacityNode :=
  letI := Libm.unused
  letI := LibmPow.unused
  events.foldl (fun n e => e.next (fun _ => 0) n) .founded

theorem CapacityNode.fresh_founded : CapacityNode.founded.Fresh := by
  have hfounding : Founding (devGenesis [1000, 1000, 1000]).state :=
    Genesis.founding_state (by decide +kernel)
  exact ⟨hfounding, rfl, rfl⟩

theorem served_right_firstRead :
    letI := LibmPow.unused
    ∃ o, (afterReads firstRead).reads[0]? = some o ∧ o.Right := by
  let _ : Libm := Libm.unused
  let _ : LibmPow := LibmPow.unused
  have hcold : AsksPlain (.ask 0 (some 1) [0]) (afterReads [.commit trading]) :=
    fun _ _ _ => .inr (.inl fun hcurrent => Bool.noConfusion hcurrent.1)
  have hopen : (afterReads firstRead).reads[0]?.isSome := by decide +kernel
  obtain ⟨o, ho⟩ := Option.isSome_iff_exists.1 hopen
  exact ⟨o, ho, served_right (.of_list (.start CapacityNode.fresh_founded) firstRead
    ⟨trivial, hcold, trivial⟩) ho⟩

/-- What the second read serves, and what the ledger of that moment says. -/
theorem served_secondRead :
    letI := LibmPow.unused
    ((afterReads (firstRead ++ secondRead)).reads[1]?).map (fun o =>
      (o.viewer, o.served.map fun row => (row.id, row.capacity),
        o.moments.map fun s => (visibleAmount s (fromMinor (s.capacityOfMinor 0)) (fullAccess s (some 1) 0),
          (capacitySnapshot s).visible (fromMinor (s.capacityOfMinor 0)) (fullAccess s (some 1) 0))))
      = some (some 1, [(0, some (F64.ofNat 100))], [(F64.zero false, F64.zero false)]) := by
  decide +kernel

/-- A member who has left is served the capacity that was kept before, though it has none. -/
theorem not_right_secondRead :
    letI := Libm.unused
    letI := LibmPow.unused
    ¬∀ n, Reaches (CapacityEvent.next fun _ => 0) CapacityNode.Fresh (fun _ _ => True) n →
      ∀ (r : Nat) (o : OpenRead), n.reads[r]? = some o → o.Right := by
  let _ : Libm := Libm.unused
  let _ : LibmPow := LibmPow.unused
  intro hall
  have hreach : Reaches (CapacityEvent.next fun _ => 0) CapacityNode.Fresh (fun _ _ => True)
      (afterReads (firstRead ++ secondRead)) :=
    .of_list (.start CapacityNode.fresh_founded) (firstRead ++ secondRead)
      ⟨trivial, trivial, trivial, trivial, trivial, trivial⟩
  have hserved := served_secondRead
  rw [Option.map_eq_some_iff] at hserved
  obtain ⟨o, ho, hserved⟩ := hserved
  obtain ⟨hviewer, hrows, hmoments⟩ : o.viewer = some 1 ∧
      o.served.map (fun row => (row.id, row.capacity)) = [(0, some (F64.ofNat 100))] ∧
      o.moments.map (fun s =>
        (visibleAmount s (fromMinor (s.capacityOfMinor 0)) (fullAccess s (some 1) 0),
          (capacitySnapshot s).visible (fromMinor (s.capacityOfMinor 0)) (fullAccess s (some 1) 0)))
        = [(F64.zero false, F64.zero false)] := by
    simpa only [Prod.mk.injEq] using hserved
  have hmem : ((0, some (F64.ofNat 100)) : MemberId × Option F64)
      ∈ o.served.map fun row => (row.id, row.capacity) := by
    rw [hrows]
    exact List.mem_cons_self
  obtain ⟨row, hrow, heq⟩ := List.mem_map.1 hmem
  obtain ⟨hid, hcapacity⟩ := Prod.mk.inj heq
  obtain ⟨s, hs, hshows⟩ := hall _ hreach 1 o ho row hrow _ hcapacity
  have hzero := List.mem_map_of_mem (f := fun s =>
    (visibleAmount s (fromMinor (s.capacityOfMinor 0)) (fullAccess s (some 1) 0),
      (capacitySnapshot s).visible (fromMinor (s.capacityOfMinor 0)) (fullAccess s (some 1) 0))) hs
  rw [hmoments, List.mem_singleton, Prod.mk.injEq] at hzero
  unfold ShowsCapacity at hshows
  rw [hviewer, hid, hzero.1, hzero.2, or_self] at hshows
  exact absurd hshows (by decide +kernel)

end Leaving

end Edet.Node
