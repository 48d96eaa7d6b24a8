import Edet.View.Occupancy

/-!
# What a full pool reclaims

A full pool makes room for a member below its share by dropping one entry of every initiator
above its own. What should be dropped is the entry that has waited longest (`OldestOf`); what is
dropped is the one opened last (`NewestOf`, `mem_hogs_iff`). The two are one entry exactly where
all entries of the initiator were opened at one time (`SameAge`).
-/

namespace Edet.View

/-- The entry an initiator opened first, the least digest among several. -/
def OldestOf (pool : PendingPool) (id : MemberId) (d : Digest) : Prop :=
  ∃ e, pool.entries[d]? = some e ∧ e.initiator = id ∧
    ∀ (d' : Digest) (e' : PendingEntry), pool.entries[d']? = some e' → e'.initiator = id →
      e.createdSecs < e'.createdSecs ∨ (e.createdSecs = e'.createdSecs ∧ d ≤ d')

/-- The entry an initiator opened last, the least digest among several. -/
def NewestOf (pool : PendingPool) (id : MemberId) (d : Digest) : Prop :=
  ∃ e, pool.entries[d]? = some e ∧ e.initiator = id ∧
    ∀ (d' : Digest) (e' : PendingEntry), pool.entries[d']? = some e' → e'.initiator = id →
      e'.createdSecs < e.createdSecs ∨ (e.createdSecs = e'.createdSecs ∧ d ≤ d')

/-- The entries of an initiator were opened at one time. -/
def SameAge (pool : PendingPool) (id : MemberId) : Prop :=
  ∀ (d d' : Digest) (e e' : PendingEntry), pool.entries[d]? = some e → pool.entries[d']? = some e' →
    e.initiator = id → e'.initiator = id → e.createdSecs = e'.createdSecs

/-- The pool in which room was made lacks, of every initiator above its share, the entry opened
first, and nothing else. -/
def ReclaimsOldest (pool room : PendingPool) : Prop :=
  ∀ (d : Digest) (e : PendingEntry), pool.entries[d]? = some e →
    (room.entries[d]? = none ↔
      maxEntriesPerInitiatorWhenFull < pool.held e.initiator ∧ OldestOf pool e.initiator d)

/-- The order in which an initiator's entries are looked at. -/
def Before (p q : Digest × PendingEntry) : Prop :=
  q.2.createdSecs < p.2.createdSecs ∨ (p.2.createdSecs = q.2.createdSecs ∧ p.1 ≤ q.1)

instance : DecidableRel Before := fun _ _ => inferInstanceAs (Decidable (_ ∨ _))

instance : Std.Total Before := by
  refine ⟨fun p q => ?_⟩
  unfold Before
  rcases lt_trichotomy p.2.createdSecs q.2.createdSecs with hlt | heq | hlt
  · exact .inr (.inl hlt)
  · rcases BitVec.le_total p.1 q.1 with hle | hle
    · exact .inl (.inr ⟨heq, hle⟩)
    · exact .inr (.inr ⟨heq.symm, hle⟩)
  · exact .inl (.inl hlt)

instance : IsTrans (Digest × PendingEntry) Before := by
  refine ⟨fun p q r h h' => ?_⟩
  rcases h with hlt | ⟨heq, hle⟩ <;> rcases h' with hlt' | ⟨heq', hle'⟩
  · exact .inl (hlt'.trans hlt)
  · exact .inl (heq' ▸ hlt)
  · exact .inl (heq ▸ hlt')
  · exact .inr ⟨heq.trans heq', BitVec.le_trans hle hle'⟩

section Pool

variable {pool room : PendingPool} {id : MemberId} {d : Digest}

/-- The first of a sorted list comes before all of it. -/
theorem before_of_mem_take {held : List (Digest × PendingEntry)} {p q : Digest × PendingEntry}
    (hp : p ∈ (held.insertionSort Before).take 1) (hq : q ∈ held) : Before p q := by
  have hsorted := List.pairwise_insertionSort Before held
  have hmem := (List.mem_insertionSort Before).2 hq
  cases hlist : held.insertionSort Before with
  | nil =>
    rw [hlist] at hmem
    exact absurd hmem List.not_mem_nil
  | cons first rest =>
    rw [hlist] at hp hmem hsorted
    obtain rfl : p = first := by simpa using hp
    rcases List.mem_cons.1 hmem with rfl | hrest
    · exact (Std.Total.total (r := Before) q q).elim (fun h => h) fun h => h
    · exact (List.pairwise_cons.1 hsorted).1 q hrest

/-- **What is dropped** is the entry opened last, of every initiator above its share. -/
theorem mem_hogs_iff : d ∈ pool.hogs ↔
    ∃ id, maxEntriesPerInitiatorWhenFull < pool.held id ∧ NewestOf pool id d := by
  have hheld : ∀ (id : MemberId) (p : Digest × PendingEntry),
      p ∈ (pool.entries.toList.filter fun p => decide (p.2.initiator = id)) ↔
        pool.entries[p.1]? = some p.2 ∧ p.2.initiator = id := by
    intro id p
    rw [List.mem_filter, OrdMap.mem_toList, decide_eq_true_iff]
  constructor
  · intro h
    unfold PendingPool.hogs at h
    dsimp only at h
    obtain ⟨id, -, hid⟩ := List.mem_flatMap.1 h
    split at hid
    · exact absurd hid List.not_mem_nil
    · next hmany =>
      obtain ⟨p, hp, rfl⟩ := List.mem_map.1 hid
      have hmem := (List.mem_insertionSort _).1 (List.mem_of_mem_take hp)
      obtain ⟨hentry, hinitiator⟩ := (hheld id p).1 hmem
      refine ⟨id, ?_, p.2, hentry, hinitiator, fun d' e' he' hid' => ?_⟩
      · rw [← length_filter_held]
        exact Nat.lt_of_not_le hmany
      · have hbefore : Before p (d', e') := before_of_mem_take hp ((hheld id (d', e')).2 ⟨he', hid'⟩)
        exact hbefore
  · rintro ⟨id, hmany, e, he, hid, hnewest⟩
    rw [← length_filter_held] at hmany
    unfold PendingPool.hogs
    dsimp only
    have hmem := (hheld id (d, e)).2 ⟨he, hid⟩
    refine List.mem_flatMap.2 ⟨id, ?_, ?_⟩
    · refine (List.mem_insertionSort _).2 (List.mem_dedup.2 (List.mem_map.2 ⟨(d, e), ?_, hid⟩))
      exact OrdMap.mem_toList.2 he
    rw [if_neg (Nat.not_le_of_lt hmany)]
    refine List.mem_map.2 ⟨(d, e), ?_, rfl⟩
    -- The first of the sorted list and this entry come before one another.
    cases hlist : (pool.entries.toList.filter fun p => decide (p.2.initiator = id)).insertionSort
        Before with
    | nil =>
      have := (List.mem_insertionSort Before).2 hmem
      rw [hlist] at this
      exact absurd this List.not_mem_nil
    | cons first rest =>
      have hfirst : first ∈ (pool.entries.toList.filter fun p =>
          decide (p.2.initiator = id)) := by
        rw [← List.mem_insertionSort Before, hlist]
        exact List.mem_cons_self
      have hbefore : Before first (d, e) := by
        refine before_of_mem_take ?_ hmem
        rw [hlist]
        exact List.mem_cons_self
      obtain ⟨hget, hinit⟩ := (hheld id first).1 hfirst
      have hsame : first.1 = d := by
        rcases hbefore with hlt | ⟨heq, hle⟩ <;>
          rcases hnewest first.1 first.2 hget hinit with hlt' | ⟨heq', hle'⟩
        · exact absurd hlt (Nat.lt_asymm hlt')
        · exact absurd heq' (Nat.ne_of_lt hlt)
        · exact absurd heq (Nat.ne_of_lt hlt')
        · exact BitVec.le_antisymm hle hle'
      obtain ⟨d₁, e₁⟩ := first
      obtain rfl : d₁ = d := hsame
      obtain rfl : e = e₁ := Option.some.inj (he.symm.trans hget)
      have htake : (d₁, e) ∈ ((d₁, e) :: rest).take 1 := List.mem_cons_self
      exact hlist ▸ htake

/-- Making room in a full pool drops what `hogs` lists, and nothing else. -/
theorem getElem?_makeRoom (hfull : maxEntries ≤ pool.entries.size) (hnew : pool.entries[d]? = none)
    (h : pool.makeRoom d id = some room) (d' : Digest) :
    room.entries[d']? = if d' ∈ pool.hogs then none else pool.entries[d']? := by
  unfold PendingPool.makeRoom at h
  have hcontains : ¬pool.entries.contains d = true := by
    rw [Std.ExtTreeMap.contains_eq_isSome_getElem?, hnew]
    exact Bool.false_ne_true
  rw [if_pos ⟨hfull, hcontains⟩] at h
  dsimp only at h
  split at h
  · cases h
  split at h
  · cases h
  · obtain rfl := Option.some.inj h
    exact OrdMap.getElem?_foldl_erase _ _ _

/-- What is missing from the pool room was made in. -/
theorem missing_iff (hfull : maxEntries ≤ pool.entries.size) (hnew : pool.entries[d]? = none)
    (h : pool.makeRoom d id = some room) {d' : Digest} {e : PendingEntry}
    (he : pool.entries[d']? = some e) :
    room.entries[d']? = none ↔
      maxEntriesPerInitiatorWhenFull < pool.held e.initiator ∧ NewestOf pool e.initiator d' := by
  have hhog : d' ∈ pool.hogs ↔
      maxEntriesPerInitiatorWhenFull < pool.held e.initiator ∧ NewestOf pool e.initiator d' := by
    rw [mem_hogs_iff]
    constructor
    · rintro ⟨id', hmany, e', he', rfl, hnewest⟩
      obtain rfl : e = e' := Option.some.inj (he.symm.trans he')
      exact ⟨hmany, e, he', rfl, hnewest⟩
    · rintro ⟨hmany, hnewest⟩
      exact ⟨e.initiator, hmany, hnewest⟩
  rw [getElem?_makeRoom hfull hnew h, ← hhog, he]
  split <;> simp_all

/-- An initiator above its share holds an entry that was opened last. -/
theorem exists_newestOf (hmany : maxEntriesPerInitiatorWhenFull < pool.held id) :
    ∃ d, NewestOf pool id d := by
  have hlen := length_filter_held pool id
  cases hlist : (pool.entries.toList.filter fun p => decide (p.2.initiator = id)).insertionSort
      Before with
  | nil =>
    have hnone := List.length_insertionSort Before
      (pool.entries.toList.filter fun p => decide (p.2.initiator = id))
    rw [hlist, hlen] at hnone
    exact absurd hmany (by rw [← hnone]; exact Nat.not_lt_zero _)
  | cons first rest =>
    have hfirst : first ∈ pool.entries.toList.filter fun p => decide (p.2.initiator = id) := by
      rw [← List.mem_insertionSort Before, hlist]
      exact List.mem_cons_self
    obtain ⟨hmem, hinitiator⟩ := List.mem_filter.1 hfirst
    refine ⟨first.1, first.2, OrdMap.mem_toList.1 hmem, of_decide_eq_true hinitiator, ?_⟩
    intro d' e' he' hid'
    have hbefore : Before first (d', e') := by
      refine before_of_mem_take (by rw [hlist]; exact List.mem_cons_self)
        (List.mem_filter.2 ⟨OrdMap.mem_toList.2 he', decide_eq_true hid'⟩)
    exact hbefore

/-- Where the entry opened last was opened first, all were opened at one time. -/
theorem sameAge_of_newest_oldest (hnewest : NewestOf pool id d) (holdest : OldestOf pool id d) :
    SameAge pool id := by
  obtain ⟨e, he, -, hlast⟩ := hnewest
  obtain ⟨e', he', -, hfirst⟩ := holdest
  obtain rfl : e = e' := Option.some.inj (he.symm.trans he')
  -- every entry was opened at the time this one was
  have hage : ∀ (d₁ : Digest) (e₁ : PendingEntry), pool.entries[d₁]? = some e₁ →
      e₁.initiator = id → e₁.createdSecs = e.createdSecs := by
    intro d₁ e₁ he₁ hid
    rcases hlast d₁ e₁ he₁ hid with hlt | ⟨heq, -⟩
    · rcases hfirst d₁ e₁ he₁ hid with hlt' | ⟨heq, -⟩
      · exact absurd hlt (Nat.lt_asymm hlt')
      · exact heq.symm
    · exact heq.symm
  intro d₁ d₂ e₁ e₂ he₁ he₂ hid₁ hid₂
  rw [hage d₁ e₁ he₁ hid₁, hage d₂ e₂ he₂ hid₂]

/-- Of entries opened at one time, the first is the last. -/
theorem newest_iff_oldest (hage : SameAge pool id) (d : Digest) :
    NewestOf pool id d ↔ OldestOf pool id d := by
  constructor
  · rintro ⟨e, he, hid, hlast⟩
    refine ⟨e, he, hid, fun d' e' he' hid' => ?_⟩
    have heq := hage d d' e e' he he' hid hid'
    exact .inr ⟨heq, ((hlast d' e' he' hid').resolve_left (Nat.ne_of_lt · heq.symm)).2⟩
  · rintro ⟨e, he, hid, hfirst⟩
    refine ⟨e, he, hid, fun d' e' he' hid' => ?_⟩
    have heq := hage d d' e e' he he' hid hid'
    exact .inr ⟨heq, ((hfirst d' e' he' hid').resolve_left (Nat.ne_of_lt · heq)).2⟩

/-- Where an initiator above its share keeps all but its oldest entry, it opened all at one
time. -/
theorem sameAge_of_reclaimsOldest (hfull : maxEntries ≤ pool.entries.size)
    (hnew : pool.entries[d]? = none) (h : pool.makeRoom d id = some room)
    (hreclaims : ReclaimsOldest pool room) {hog : MemberId}
    (hmany : maxEntriesPerInitiatorWhenFull < pool.held hog) : SameAge pool hog := by
  obtain ⟨d', hnewest⟩ := exists_newestOf hmany
  have hentry := hnewest
  obtain ⟨e, he, rfl, -⟩ := hentry
  have hmissing := (missing_iff hfull hnew h he).2 ⟨hmany, hnewest⟩
  exact sameAge_of_newest_oldest hnewest ((hreclaims d' e he).1 hmissing).2

/-- **The oldest are reclaimed** exactly where every initiator above its share opened all its
entries at one time. -/
theorem reclaimsOldest_iff (hfull : maxEntries ≤ pool.entries.size)
    (hnew : pool.entries[d]? = none) (h : pool.makeRoom d id = some room) :
    ReclaimsOldest pool room ↔
      ∀ hog, maxEntriesPerInitiatorWhenFull < pool.held hog → SameAge pool hog := by
  refine ⟨fun hreclaims hog => sameAge_of_reclaimsOldest hfull hnew h hreclaims, fun hage => ?_⟩
  intro d' e he
  rw [missing_iff hfull hnew h he]
  refine and_congr_right fun hmany => newest_iff_oldest (hage _ hmany) d'

end Pool

/-! ### A member that opens proposals without end -/

/-- An entry of the first member, opened at a second of its own. -/
def datedEntry (i : Nat) : PendingEntry where
  tx := .exit 0
  nonce := zeroNonce
  notAfterEpoch := 0
  required := [.member 0, .member 1]
  minSigs := 2
  initiator := 0
  opener := .member 0
  createdSecs := i
  sigs := ∅

/-- A pool the first member has filled, an entry each second. -/
def filledPool : PendingPool where
  entries := (List.range maxEntries).foldl (fun m i => m.insert (BitVec.ofNat 256 i) (datedEntry i)) ∅

/-- The pool is full, a second member holds nothing of it, and of the first member's entries two
were opened at different seconds. -/
theorem filledPool_figures : maxEntries ≤ filledPool.entries.size ∧
    filledPool.entries[BitVec.ofNat 256 2000]?.isNone = true ∧
    maxEntriesPerInitiatorWhenFull < filledPool.held 0 ∧
    filledPool.held 1 < maxEntriesPerInitiatorWhenFull ∧ filledPool.others 1 < 64 ∧
    ∀ i : Fin 2, filledPool.entries[BitVec.ofNat 256 i]?.map
      (fun e => (e.initiator, e.createdSecs)) = some (0, i.val) := by decide +kernel

/-- Room is made for a second member, and the first keeps the proposal it abandoned first. -/
theorem filledPool_reclaims :
    ∃ room, filledPool.makeRoom (BitVec.ofNat 256 2000) 1 = some room ∧
      ¬ReclaimsOldest filledPool room := by
  obtain ⟨hfull, hnew, hmany, hbelow, hothers, hfigures⟩ := filledPool_figures
  generalize filledPool = pool at *
  generalize BitVec.ofNat 256 2000 = d at *
  have hnew : pool.entries[d]? = none := Option.isNone_iff_eq_none.1 hnew
  obtain ⟨room, hroom⟩ := makeRoom_isSome (d := d) hbelow hothers
  refine ⟨room, hroom, fun hreclaims => ?_⟩
  have hage := sameAge_of_reclaimsOldest hfull hnew hroom hreclaims hmany
  obtain ⟨e, he, hfirst⟩ := Option.map_eq_some_iff.1 (hfigures 0)
  obtain ⟨e', he', hsecond⟩ := Option.map_eq_some_iff.1 (hfigures 1)
  have heq := hage _ _ e e' he he' (congrArg Prod.fst hfirst) (congrArg Prod.fst hsecond)
  have hzero : e.createdSecs = 0 := congrArg Prod.snd hfirst
  have hone : e'.createdSecs = 1 := congrArg Prod.snd hsecond
  rw [hzero, hone] at heq
  exact absurd heq Nat.zero_ne_one

/-- In this pool the oldest entry of the first member is not reclaimed, and it is not all of one
age. -/
theorem reclaimsOldest_filledPool :
    ∃ room, filledPool.makeRoom (BitVec.ofNat 256 2000) 1 = some room ∧
      (ReclaimsOldest filledPool room ↔
        ∀ hog, maxEntriesPerInitiatorWhenFull < filledPool.held hog → SameAge filledPool hog) := by
  obtain ⟨hfull, hnew, -, hbelow, hothers, -⟩ := filledPool_figures
  obtain ⟨room, hroom⟩ := makeRoom_isSome (d := BitVec.ofNat 256 2000) hbelow hothers
  exact ⟨room, hroom, reclaimsOldest_iff hfull (Option.isNone_iff_eq_none.1 hnew) hroom⟩

end Edet.View
