import Edet.Library.MapPart
import Edet.View.Consent

/-!
# Who holds the pool

An entry of the pool counts against its initiator, and one that a key opened also against the
few that may be open on a member's invitations. Both are bounded over every run of requests,
declines and prunings, whatever ledger and time each of them comes with (`Fits`,
`pool_fair`).

A full pool makes room by dropping the newest entry of every initiator above its share, so the
entries of the others stay (`makeRoom_spec`); and it can make room for a member below its
share as long as few others hold entries, for then one of those is above its own
(`exists_hog`).
-/

namespace Edet.View

open OrdMap (Part)

/-- How many entries count against a member. -/
def PendingPool.held (pool : PendingPool) (id : MemberId) : Nat :=
  OrdMap.count (fun p => decide (p.2.initiator = id)) pool.entries

/-- How many other members hold entries. -/
def PendingPool.others (pool : PendingPool) (id : MemberId) : Nat :=
  ((pool.entries.toList.map fun p => p.2.initiator).toFinset.erase id).card

/-- The pool within its caps. -/
structure Fits (pool : PendingPool) : Prop where
  size : pool.entries.size ≤ maxEntries
  invited : ∀ inviter, pool.invited inviter ≤ maxInvitedPerMember

/-- Does an entry count against the invitations of a member? -/
def countsInvited (inviter : MemberId) (p : Digest × PendingEntry) : Bool :=
  decide (p.2.initiator = inviter) &&
    match p.2.opener with
    | .key _ => true
    | .member _ => false

section Scheme

variable {scheme : Scheme} {sha256 : Bytes → Bytes} {pool : PendingPool}

theorem invited_eq (pool : PendingPool) (inviter : MemberId) :
    pool.invited inviter = OrdMap.count (countsInvited inviter) pool.entries := rfl

theorem Fits.of_part {pool' : PendingPool} (h : Fits pool) (hpart : Part pool'.entries pool.entries) :
    Fits pool' :=
  ⟨hpart.size_le.trans h.size, fun inviter => (hpart.count_le _).trans (h.invited inviter)⟩

theorem part_prune (pool : PendingPool) (nowSecs : Nat) :
    Part (pool.prune nowSecs).entries pool.entries :=
  OrdMap.part_filter _ _

theorem entries_tombstone (pool : PendingPool) (d : Digest) :
    (pool.tombstone d).entries = pool.entries := by
  unfold PendingPool.tombstone
  split <;> rfl

/-! ### Making room -/

theorem length_filter_held (pool : PendingPool) (id : MemberId) :
    (pool.entries.toList.filter fun p => decide (p.2.initiator = id)).length = pool.held id :=
  List.countP_eq_length_filter.symm

/-- What is dropped to make room is held by a member above its share. -/
theorem of_mem_hogs {d : Digest} (h : d ∈ pool.hogs) :
    ∃ e, pool.entries[d]? = some e ∧ maxEntriesPerInitiatorWhenFull < pool.held e.initiator := by
  unfold PendingPool.hogs at h
  dsimp only at h
  obtain ⟨id, -, hid⟩ := List.mem_flatMap.1 h
  split at hid
  · exact absurd hid List.not_mem_nil
  · next hmany =>
    obtain ⟨p, hp, rfl⟩ := List.mem_map.1 hid
    have hmem := (List.mem_insertionSort _).1 (List.mem_of_mem_take hp)
    obtain ⟨hentry, hinitiator⟩ := List.mem_filter.1 hmem
    have hinitiator := of_decide_eq_true hinitiator
    refine ⟨p.2, OrdMap.mem_toList.1 hentry, ?_⟩
    rw [hinitiator, ← length_filter_held]
    exact Nat.lt_of_not_le hmany

theorem hogs_ne_nil {id : MemberId} (h : maxEntriesPerInitiatorWhenFull < pool.held id) :
    pool.hogs ≠ [] := by
  rw [← length_filter_held] at h
  have hpos : (pool.entries.toList.filter fun p => decide (p.2.initiator = id)) ≠ [] := by
    intro hnil
    rw [hnil] at h
    exact Nat.not_lt_zero _ h
  obtain ⟨p, hp⟩ := List.exists_mem_of_ne_nil _ hpos
  obtain ⟨hmem, hinitiator⟩ := List.mem_filter.1 hp
  unfold PendingPool.hogs
  dsimp only
  intro hnil
  have hid := List.flatMap_eq_nil_iff.1 hnil id
    ((List.mem_insertionSort _).2 (List.mem_dedup.2
      (List.mem_map.2 ⟨p, hmem, of_decide_eq_true hinitiator⟩)))
  rw [if_neg (Nat.not_le_of_lt h), List.map_eq_nil_iff, List.take_eq_nil_iff] at hid
  rcases hid with hid | hid
  · exact absurd hid one_ne_zero
  · have hlen := congrArg List.length hid
    rw [List.length_insertionSort] at hlen
    exact hpos (List.length_eq_zero_iff.1 hlen)

/-- What making room does: nothing while there is room or the digest has its entry, and
otherwise it drops entries of members above their share, at least one. -/
theorem makeRoom_spec {d : Digest} {id : MemberId} {room : PendingPool}
    (h : pool.makeRoom d id = some room) :
    room.tombstones = pool.tombstones ∧ Part room.entries pool.entries ∧
      room.entries[d]? = pool.entries[d]? ∧
      (Fits pool → room.entries[d]? = none → room.entries.size < maxEntries) ∧
      ∀ (d' : Digest) (e : PendingEntry), pool.entries[d']? = some e →
        pool.held e.initiator ≤ maxEntriesPerInitiatorWhenFull → room.entries[d']? = some e := by
  unfold PendingPool.makeRoom at h
  split at h
  · next hfull =>
    dsimp only at h
    split at h
    · cases h
    split at h
    · cases h
    next hhogs =>
    obtain rfl := Option.some.inj h
    have hget : ∀ d' : Digest, (pool.hogs.foldl (fun m d => m.erase d) pool.entries)[d']? =
        if d' ∈ pool.hogs then none else pool.entries[d']? :=
      OrdMap.getElem?_foldl_erase _ _
    have hpart : Part (pool.hogs.foldl (fun m d => m.erase d) pool.entries) pool.entries := by
      intro d' e he
      rw [hget] at he
      split at he
      · cases he
      · exact he
    have hnone : pool.entries[d]? = none := by
      rw [Std.ExtTreeMap.contains_eq_isSome_getElem?] at hfull
      exact Option.not_isSome_iff_eq_none.1 hfull.2
    refine ⟨rfl, hpart, ?_, ?_, ?_⟩
    · show (pool.hogs.foldl (fun m d => m.erase d) pool.entries)[d]? = _
      rw [hget, hnone, ite_self]
    · intro hfits _
      obtain ⟨hog, hmem⟩ := List.exists_mem_of_ne_nil _ hhogs
      obtain ⟨e, he, -⟩ := of_mem_hogs hmem
      have hlt := hpart.size_lt he (by rw [hget, if_pos hmem])
      exact hlt.trans_le hfits.size
    · intro d' e he hshare
      show (pool.hogs.foldl (fun m d => m.erase d) pool.entries)[d']? = _
      rw [hget, if_neg, he]
      intro hmem
      obtain ⟨e', he', hmore⟩ := of_mem_hogs hmem
      obtain rfl := Option.some.inj (he.symm.trans he')
      exact absurd hmore (Nat.not_lt_of_le hshare)
  · next hroom =>
    obtain rfl := Option.some.inj h
    refine ⟨rfl, Part.refl _, rfl, ?_, fun _ _ he _ => he⟩
    intro _ hnone
    by_contra hfull
    refine hroom ⟨Nat.le_of_not_lt hfull, ?_⟩
    rw [Std.ExtTreeMap.contains_eq_isSome_getElem?, hnone]
    exact Bool.false_ne_true

/-! ### Room for a member below its share -/

/-- The entries of a pool, by initiator. -/
theorem sum_held (pool : PendingPool) :
    ∑ id ∈ (pool.entries.toList.map fun p => p.2.initiator).toFinset, pool.held id =
      pool.entries.size := by
  have hcount : ∀ id, pool.held id = (pool.entries.toList.map fun p => p.2.initiator).count id := by
    intro id
    rw [List.count, List.countP_map]
    exact List.countP_congr fun p _ => by simp
  rw [Finset.sum_congr rfl fun id _ => hcount id, List.sum_toFinset_count_eq_length,
    List.length_map, Std.ExtTreeMap.length_toList]

/-- A full pool of few initiators, one of them below its share, has another above its
share. -/
theorem exists_hog {id : MemberId} (hfull : maxEntries ≤ pool.entries.size)
    (hheld : pool.held id < maxEntriesPerInitiatorWhenFull) (hothers : pool.others id < 64) :
    ∃ hog, maxEntriesPerInitiatorWhenFull < pool.held hog := by
  by_contra hnone
  have hshare : ∀ hog, pool.held hog ≤ maxEntriesPerInitiatorWhenFull :=
    fun hog => Nat.le_of_not_lt fun hlt => hnone ⟨hog, hlt⟩
  set members := (pool.entries.toList.map fun p => p.2.initiator).toFinset with hmembers
  have hsplit : pool.entries.size ≤ ∑ m ∈ members.erase id, pool.held m + pool.held id := by
    rw [← sum_held, ← hmembers]
    by_cases hid : id ∈ members
    · exact (Finset.sum_erase_add _ _ hid).ge
    · rw [Finset.erase_eq_of_notMem hid]
      exact Nat.le_add_right _ _
  have hrest : ∑ m ∈ members.erase id, pool.held m ≤ 63 * 16 :=
    calc ∑ m ∈ members.erase id, pool.held m
        ≤ (members.erase id).card * maxEntriesPerInitiatorWhenFull :=
          Finset.sum_le_card_nsmul _ _ _ fun m _ => hshare m
      _ ≤ 63 * 16 := Nat.mul_le_mul_right _ (Nat.le_of_lt_succ hothers)
  have : maxEntries = 64 * 16 := rfl
  have : maxEntriesPerInitiatorWhenFull = 16 := rfl
  omega

theorem makeRoom_isSome {d : Digest} {id : MemberId}
    (hheld : pool.held id < maxEntriesPerInitiatorWhenFull) (hothers : pool.others id < 64) :
    ∃ room, pool.makeRoom d id = some room := by
  unfold PendingPool.makeRoom
  split
  · next hfull =>
    obtain ⟨hog, hhog⟩ := exists_hog hfull.1 hheld hothers
    have hheld' : (pool.entries.toList.countP fun p => decide (p.2.initiator = id)) <
        maxEntriesPerInitiatorWhenFull := hheld
    dsimp only
    rw [if_neg (Nat.not_le_of_lt hheld')]
    split
    · next hnil => exact absurd hnil (hogs_ne_nil hhog)
    · exact ⟨_, rfl⟩
  · exact ⟨pool, rfl⟩

/-! ### One call -/

variable (scheme) in
/-- A request is turned away, or its signature is recorded in a pool with room for it. -/
theorem sign_cases (pool : PendingPool) (s : State) (req : PendingSignReq) (nowSecs : Nat) :
    (∃ why, pool.sign scheme s req nowSecs = (.rejected why, pool.prune nowSecs)) ∨
      ∃ digest party p room, requestDigest scheme s req = some digest ∧
        countsFor scheme s req digest = some party ∧
        (pool.prune nowSecs).opening scheme s req digest party nowSecs = .ok p ∧
        (pool.prune nowSecs).makeRoom digest p.1 = some room ∧
        pool.sign scheme s req nowSecs = room.record s req digest
          ((room.entries[digest]?).getD (openEntry req p.1 p.2 nowSecs)) := by
  unfold PendingPool.sign
  dsimp only
  cases hdigest : requestDigest scheme s req with
  | none => exact .inl ⟨_, rfl⟩
  | some digest =>
    dsimp only
    split_ifs with hclosed hbad
    · exact .inl ⟨_, rfl⟩
    · exact .inl ⟨_, rfl⟩
    cases hsigner : verifiedSigner scheme s req digest with
    | none => exact .inl ⟨_, rfl⟩
    | some party =>
      dsimp only
      by_cases hnamed : party ∉ req.required
      · rw [if_pos hnamed]
        exact .inl ⟨_, rfl⟩
      rw [if_neg hnamed]
      rcases hopening : (pool.prune nowSecs).opening scheme s req digest party nowSecs with
        why | ⟨initiator, opener⟩
      · exact .inl ⟨_, rfl⟩
      · dsimp only
        cases hroom : (pool.prune nowSecs).makeRoom digest initiator with
        | none => exact .inl ⟨_, rfl⟩
        | some room =>
          refine .inr ⟨digest, party, (initiator, opener), room, rfl, ?_, hopening, hroom, rfl⟩
          unfold countsFor
          rw [if_neg hbad, hsigner]
          exact if_pos (not_not.1 hnamed)

/-- A key opens an entry only while the member that invited it has room for one. -/
theorem opening_key {d : Digest} {s : State} {req : PendingSignReq} {party : Party} {nowSecs : Nat}
    {p : MemberId × Party} {k : Key} (hopen : pool.opening scheme s req d party nowSecs = .ok p)
    (hnone : pool.entries[d]? = none) (hkey : p.2 = .key k) :
    pool.invited p.1 < maxInvitedPerMember := by
  unfold PendingPool.opening at hopen
  rw [hnone] at hopen
  cases party with
  | member id =>
    obtain rfl := Except.ok.inj hopen
    cases hkey
  | key k' =>
    dsimp only at hopen
    split at hopen
    · split at hopen
      · cases hopen
      · next hroom =>
        obtain rfl := Except.ok.inj hopen
        exact Nat.lt_of_not_le hroom
    · cases hopen

/-- Recording a signature keeps the caps of a pool with room for it. -/
theorem Fits.record {room : PendingPool} (h : Fits room) {s : State} {req : PendingSignReq}
    {d : Digest} {fresh : PendingEntry}
    (hroom : room.entries[d]? = none → room.entries.size < maxEntries)
    (hfresh : room.entries[d]? = none → ∀ inviter, countsInvited inviter (d, fresh) →
      room.invited inviter < maxInvitedPerMember) :
    Fits (room.record s req d ((room.entries[d]?).getD fresh)).2 := by
  rcases record_cases room s req d ((room.entries[d]?).getD fresh) with
    ⟨done, hrecord, -, -⟩ | ⟨new, hrecord, -⟩
  · rw [hrecord]
    refine h.of_part ?_
    dsimp only
    rw [entries_tombstone]
    exact OrdMap.part_erase _ _
  · rw [hrecord]
    cases hentry : room.entries[d]? with
    | none =>
      refine ⟨?_, fun inviter => ?_⟩
      · exact Std.ExtTreeMap.size_insert_le.trans (hroom hentry)
      · rw [invited_eq, OrdMap.count_insert, OrdMap.erase_of_getElem?_none hentry]
        have hsame : countsInvited inviter (d, PendingEntry.signed fresh req) =
            countsInvited inviter (d, fresh) := rfl
        rw [Option.getD_none, hsame]
        split
        · next hkey => exact hfresh hentry inviter hkey
        · exact h.invited inviter
    | some e =>
      rw [Option.getD_some]
      refine ⟨?_, fun inviter => ?_⟩
      · dsimp only
        rw [Std.ExtTreeMap.size_insert, if_pos]
        · exact h.size
        · rw [Std.ExtTreeMap.contains_eq_isSome_getElem?, hentry]
          rfl
      · have hsame : countsInvited inviter (d, PendingEntry.signed e req) =
            countsInvited inviter (d, e) := rfl
        rw [invited_eq]
        dsimp only
        rw [OrdMap.count_replace hentry hsame]
        exact h.invited inviter

/-- A request keeps the pool within its caps. -/
theorem Fits.sign (h : Fits pool) (s : State) (req : PendingSignReq) (nowSecs : Nat) :
    Fits (pool.sign scheme s req nowSecs).2 := by
  have hpruned : Fits (pool.prune nowSecs) := h.of_part (part_prune pool nowSecs)
  rcases sign_cases scheme pool s req nowSecs with
    ⟨why, hsign⟩ | ⟨digest, party, p, room, -, -, hopening, hmake, hsign⟩
  · rw [hsign]
    exact hpruned
  · rw [hsign]
    obtain ⟨-, hpart, hsame, hroom, -⟩ := makeRoom_spec hmake
    refine (hpruned.of_part hpart).record (hroom hpruned) fun hnone inviter hcounts => ?_
    -- the entry is new, so a key that opens it was counted on the pool before room was made
    obtain ⟨hinitiator, hkey⟩ := Bool.and_eq_true_iff.1 hcounts
    obtain rfl : p.1 = inviter := of_decide_eq_true hinitiator
    have hopener : ∃ k, p.2 = .key k := by
      have hkey : (match p.2 with
        | .key _ => true
        | .member _ => false) = true := hkey
      cases hp : p.2 with
      | key k => exact ⟨k, rfl⟩
      | member id =>
        rw [hp] at hkey
        cases hkey
    obtain ⟨k, hk⟩ := hopener
    exact (hpart.count_le _).trans_lt (opening_key hopening (hsame ▸ hnone) hk)

theorem decline_part (s : State) (d : Digest) (signer : Key) (signature : Bytes) :
    Part (pool.decline scheme sha256 s d signer signature).2.entries pool.entries := by
  unfold PendingPool.decline
  split
  · exact Part.refl _
  split
  · exact Part.refl _
  split
  · exact Part.refl _
  · dsimp only
    rw [entries_tombstone]
    exact OrdMap.part_erase _ _

/-- The digest's proposal was taken: its entry is in the pool, or is handed over. -/
def Admitted (digest : Digest) (out : SignOutcome × PendingPool) : Prop :=
  (∃ done, out.1 = .complete done) ∨
    ∃ new, out.1 = .recorded new ∧ out.2.entries.contains digest = true

theorem record_admitted (room : PendingPool) (s : State) (req : PendingSignReq) (d : Digest)
    (e : PendingEntry) : Admitted d (room.record s req d e) := by
  rcases record_cases room s req d e with ⟨done, hrecord, -, -⟩ | ⟨new, hrecord, -⟩
  · rw [hrecord]
    exact .inl ⟨done, rfl⟩
  · rw [hrecord]
    exact .inr ⟨new, rfl, Std.ExtTreeMap.contains_insert_self⟩

/-- A member's request that counts is admitted if room can be made for it. -/
theorem sign_admitted {s : State} {req : PendingSignReq} {nowSecs : Nat} {d : Digest} {id : MemberId}
    {room : PendingPool} (hdigest : requestDigest scheme s req = some d)
    (hopen : (pool.prune nowSecs).tombstones.contains d = false)
    (hcounts : countsFor scheme s req d = some (.member id))
    (hroom : (pool.prune nowSecs).makeRoom d id = some room) :
    Admitted d (pool.sign scheme s req nowSecs) := by
  obtain ⟨hsigner, hnamed⟩ := countsFor_some hcounts
  have hgood : ¬(req.required = [] ∨ req.minSigs = 0 ∨ req.required.length < req.minSigs) := by
    intro hbad
    unfold countsFor at hcounts
    rw [if_pos hbad] at hcounts
    cases hcounts
  have hopening : (pool.prune nowSecs).opening scheme s req d (.member id) nowSecs =
      .ok (id, .member id) := rfl
  unfold PendingPool.sign
  dsimp only
  rw [hdigest]
  dsimp only
  rw [hopen, if_neg Bool.false_ne_true, if_neg hgood, hsigner]
  dsimp only
  rw [if_neg (not_not.2 hnamed), hopening]
  dsimp only
  rw [hroom]
  exact record_admitted room s req d _

/-- An entry of a member within its share stays in the pool until it is handed over. -/
theorem sign_keeps (pool : PendingPool) (s : State) (req : PendingSignReq) (nowSecs : Nat)
    {d : Digest} {e : PendingEntry} (he : (pool.prune nowSecs).entries[d]? = some e)
    (hshare : (pool.prune nowSecs).held e.initiator ≤ maxEntriesPerInitiatorWhenFull) :
    (requestDigest scheme s req = some d ∧
        ∃ done, (pool.sign scheme s req nowSecs).1 = .complete done) ∨
      ∃ e', (pool.sign scheme s req nowSecs).2.entries[d]? = some e' ∧
        (e' = e ∨ requestDigest scheme s req = some d ∧ e' = e.signed req) := by
  rcases sign_cases scheme pool s req nowSecs with
    ⟨why, hsign⟩ | ⟨digest, party, p, room, hdigest, -, -, hmake, hsign⟩
  · rw [hsign]
    exact .inr ⟨e, he, .inl rfl⟩
  rw [hsign]
  obtain ⟨-, -, -, -, hkeeps⟩ := makeRoom_spec hmake
  have hroom := hkeeps d e he hshare
  rcases record_cases room s req digest
    ((room.entries[digest]?).getD (openEntry req p.1 p.2 nowSecs)) with
    ⟨done, hrecord, -, -⟩ | ⟨new, hrecord, -⟩
  · rw [hrecord]
    by_cases hd : digest = d
    · exact .inl ⟨hd ▸ hdigest, done, rfl⟩
    · refine .inr ⟨e, ?_, .inl rfl⟩
      dsimp only
      rw [entries_tombstone, Std.ExtTreeMap.getElem?_erase, if_neg (by simpa using hd), hroom]
  · rw [hrecord]
    right
    by_cases hd : digest = d
    · subst hd
      refine ⟨e.signed req, ?_, .inr ⟨hdigest, rfl⟩⟩
      dsimp only
      rw [hroom, Option.getD_some, Std.ExtTreeMap.getElem?_insert_self]
    · refine ⟨e, ?_, .inl rfl⟩
      dsimp only
      rw [Std.ExtTreeMap.getElem?_insert, if_neg (by simpa using hd), hroom]

end Scheme

/-! ### Runs -/

/-- A pool, and the digests that were completed or declined in it so far. -/
structure Past where
  pool : PendingPool := {}
  closed : List Digest := []

/-- A call on the pool. -/
inductive Call
  | sign (s : State) (req : PendingSignReq) (nowSecs : Nat)
  | decline (s : State) (digest : Digest) (signer : Key) (signature : Bytes)
  | prune (nowSecs : Nat)

section Scheme

variable (scheme : Scheme) (sha256 : Bytes → Bytes)

/-- The digest a call completes or declines. -/
def Call.closes (pool : PendingPool) : Call → Option Digest
  | .sign s req nowSecs =>
    (pool.sign scheme s req nowSecs).1.handed.bind fun _ => requestDigest scheme s req
  | .decline s digest signer signature =>
    bif (pool.decline scheme sha256 s digest signer signature).1 then some digest else none
  | .prune _ => none

/-- The pool after a call. -/
def Call.pool (pool : PendingPool) : Call → PendingPool
  | .sign s req nowSecs => (pool.sign scheme s req nowSecs).2
  | .decline s digest signer signature => (pool.decline scheme sha256 s digest signer signature).2
  | .prune nowSecs => pool.prune nowSecs

def Call.next (call : Call) (past : Past) : Past where
  pool := call.pool scheme sha256 past.pool
  closed := (call.closes scheme sha256 past.pool).toList ++ past.closed

/-- What every run of calls keeps. -/
structure Past.Sound (past : Past) : Prop where
  fits : Fits past.pool
  closed : ∀ d : Digest, past.pool.tombstones.contains d → d ∈ past.closed

variable {scheme sha256}

theorem tombstones_tombstone {pool : PendingPool} {d d' : Digest}
    (h : (pool.tombstone d).tombstones.contains d' = true) :
    d' = d ∨ pool.tombstones.contains d' = true := by
  unfold PendingPool.tombstone at h
  split at h
  · exact .inr h
  · rw [Std.ExtTreeSet.contains_insert, Bool.or_eq_true, beq_iff_eq] at h
    exact h.imp_left fun heq => (Std.LawfulEqOrd.eq_of_compare heq).symm

theorem tombstones_prune {pool : PendingPool} {nowSecs : Nat} {d : Digest}
    (h : (pool.prune nowSecs).tombstones.contains d = true) : pool.tombstones.contains d = true := by
  have herase : ∀ (l : List Digest) (set : OrdSet Digest),
      (l.foldl (fun set d => set.erase d) set).contains d = true → set.contains d = true := by
    intro l
    induction l with
    | nil => exact fun _ h => h
    | cons d' l ih =>
      intro set h
      have := ih _ h
      rw [Std.ExtTreeSet.contains_erase, Bool.and_eq_true] at this
      exact this.2
  unfold PendingPool.prune at h
  dsimp only at h
  exact herase _ _ h

/-- What a request leaves dead was dead before, or is completed by it. -/
theorem tombstones_sign {pool : PendingPool} {s : State} {req : PendingSignReq}
    {nowSecs : Nat} {d : Digest}
    (h : (pool.sign scheme s req nowSecs).2.tombstones.contains d = true) :
    Call.closes scheme sha256 pool (.sign s req nowSecs) = some d ∨
      pool.tombstones.contains d = true := by
  unfold Call.closes
  dsimp only
  rcases sign_cases scheme pool s req nowSecs with
    ⟨why, hsign⟩ | ⟨digest, party, p, room, hdigest, -, -, hmake, hsign⟩
  · rw [hsign] at h
    have h : (pool.prune nowSecs).tombstones.contains d = true := h
    exact .inr (tombstones_prune h)
  rw [hsign] at h ⊢
  obtain ⟨hsame, -⟩ := makeRoom_spec hmake
  rcases record_cases room s req digest
    ((room.entries[digest]?).getD (openEntry req p.1 p.2 nowSecs)) with
    ⟨done, hrecord, -, -⟩ | ⟨new, hrecord, -⟩
  · rw [hrecord] at h ⊢
    rcases tombstones_tombstone h with rfl | h
    · exact .inl hdigest
    · have h : room.tombstones.contains d = true := h
      exact .inr (tombstones_prune (hsame ▸ h))
  · rw [hrecord] at h
    have h : room.tombstones.contains d = true := h
    exact .inr (tombstones_prune (hsame ▸ h))

theorem tombstones_decline {pool : PendingPool} {s : State} {digest : Digest} {signer : Key}
    {signature : Bytes} {d : Digest}
    (h : (pool.decline scheme sha256 s digest signer signature).2.tombstones.contains d = true) :
    Call.closes scheme sha256 pool (.decline s digest signer signature) = some d ∨
      pool.tombstones.contains d = true := by
  unfold Call.closes
  dsimp only
  unfold PendingPool.decline at h ⊢
  cases hparty : verifiedDecliner scheme sha256 s digest signer signature with
  | none =>
    rw [hparty] at h
    exact .inr h
  | some party =>
    rw [hparty] at h
    dsimp only at h ⊢
    cases he : pool.entries[digest]? with
    | none =>
      rw [he] at h
      exact .inr h
    | some e =>
      rw [he] at h
      dsimp only at h ⊢
      by_cases hstranger : party ∉ e.required ∧ party ≠ .member e.initiator
      · rw [if_pos hstranger] at h
        exact .inr h
      · rw [if_neg hstranger] at h ⊢
        refine (tombstones_tombstone h).imp_left fun heq : d = digest => ?_
        rw [heq]
        rfl

/-- One call keeps the pool within its caps. -/
theorem Past.Sound.next {past : Past} (h : past.Sound) (call : Call) :
    (call.next scheme sha256 past).Sound := by
  have hclosed : ∀ d : Digest, call.closes scheme sha256 past.pool = some d ∨
      past.pool.tombstones.contains d = true → d ∈ (call.next scheme sha256 past).closed := by
    intro d hd
    refine List.mem_append.2 (hd.imp (fun hcloses => ?_) (h.closed d))
    rw [hcloses]
    exact List.mem_singleton.2 rfl
  cases call with
  | sign s req nowSecs =>
    exact ⟨h.fits.sign s req nowSecs, fun d hd => hclosed d (tombstones_sign hd)⟩
  | decline s digest signer signature =>
    exact ⟨h.fits.of_part (decline_part s digest signer signature),
      fun d hd => hclosed d (tombstones_decline hd)⟩
  | prune nowSecs =>
    exact ⟨h.fits.of_part (part_prune _ _), fun d hd => hclosed d (.inr (tombstones_prune hd))⟩

theorem Past.sound {past : Past}
    (h : Reaches (Call.next scheme sha256) (fun past => past = {}) (fun _ _ => True) past) :
    past.Sound := by
  refine h.invariant ?_ fun call past h _ => h.next call
  rintro past rfl
  refine ⟨⟨Nat.zero_le _, fun inviter => ?_⟩, fun d hd => ?_⟩
  · rw [invited_eq]
    exact Nat.zero_le _
  · exact absurd hd (by simp)

/-- In every run of requests, declines and prunings the pool keeps its caps, admits the
members below their share while fewer than 64 others hold entries, and leaves the entries of
those within their share in place. -/
theorem pool_fair {past : Past}
    (h : Reaches (Call.next scheme sha256) (fun past => past = {}) (fun _ _ => True) past) :
    past.pool.entries.size ≤ maxEntries ∧
      (∀ inviter, past.pool.invited inviter ≤ maxInvitedPerMember) ∧
      (∀ (s : State) (req : PendingSignReq) (nowSecs : Nat) (d : Digest) (id : MemberId),
        requestDigest scheme s req = some d → d ∉ past.closed →
        countsFor scheme s req d = some (.member id) →
        (past.pool.prune nowSecs).held id < maxEntriesPerInitiatorWhenFull →
        (past.pool.prune nowSecs).others id < 64 →
        Admitted d (past.pool.sign scheme s req nowSecs)) ∧
      ∀ (s : State) (req : PendingSignReq) (nowSecs : Nat) (d : Digest) (e : PendingEntry),
        (past.pool.prune nowSecs).entries[d]? = some e →
        (past.pool.prune nowSecs).held e.initiator ≤ maxEntriesPerInitiatorWhenFull →
        (requestDigest scheme s req = some d ∧
            ∃ done, (past.pool.sign scheme s req nowSecs).1 = .complete done) ∨
          ∃ e', (past.pool.sign scheme s req nowSecs).2.entries[d]? = some e' ∧
            (e' = e ∨ requestDigest scheme s req = some d ∧ e' = e.signed req) := by
  have hsound := Past.sound h
  refine ⟨hsound.fits.size, hsound.fits.invited, ?_, ?_⟩
  · intro s req nowSecs d id hdigest hnew hcounts hheld hothers
    obtain ⟨room, hroom⟩ := makeRoom_isSome (d := d) hheld hothers
    refine sign_admitted hdigest (Bool.eq_false_iff.2 fun hdead => ?_) hcounts hroom
    exact hnew (hsound.closed d (tombstones_prune hdead))
  · intro s req nowSecs d e he hshare
    exact sign_keeps past.pool s req nowSecs he hshare

end Scheme

/-- The founder's request for another digest. -/
def secondRequest : PendingSignReq :=
  { founderRequest with
    notAfterEpoch := 8
    signature := Encoding.key (founderKey 0) ++ digestBytes 8 }

/-- After a founder's first request its second is admitted, and the first entry stays. -/
theorem pool_fair_second :
    let past := Call.next plainScheme id (.sign founders founderRequest 5) {}
    past.pool.entries.size ≤ maxEntries ∧
      Admitted 8 (past.pool.sign plainScheme founders secondRequest 6) :=
  have hstart : Reaches (Call.next plainScheme id) (fun past => past = {}) (fun _ _ => True) {} :=
    .start rfl
  have h := pool_fair (hstart.step (.sign founders founderRequest 5) trivial)
  ⟨h.1, h.2.2.1 founders secondRequest 6 8 0 (by decide +kernel) (by decide +kernel)
    (by decide +kernel) (by decide +kernel) (by decide +kernel)⟩

end Edet.View
