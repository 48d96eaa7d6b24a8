import Edet.Ledger.State

/-!
# Spent credentials

A read that names its viewer carries a signature over a timestamp, and is good for as long as
that timestamp is near the clock. `SeenSignatures` is what keeps it from being good twice: a set
of the signatures that were presented, and an index of them by the second their window closes.
`prune` forgets what has closed, and `admitSignature` refuses what is in the set, records what is
not, and drops the oldest buckets where the set has outgrown its cap (`evict`).

Two things are proved of every sequence of calls. `Indexed` says that the index and the set hold
the same signatures, and `Register.Sound.next` that no call changes that, whatever its timestamp and
whether or not it evicts. `Register.Current` says which of the admitted signatures are indexed: all
whose window is open, as long as these are no more than the cap. It survives eviction because the
oldest bucket is a closed one wherever the set has outgrown its cap and the open windows have not
(`evict_keeps`).
-/

namespace Edet.Node

/-- The sixty-four bytes of a signature. -/
abbrev Signature := BitVec 512

def maxSeenSignatures : Nat := 40960

/-- How far a timestamp may be from the clock. -/
def timestampSkewSecs : Nat := 60

/-- The verified signatures whose window is open: by the second it closes, and as a set. -/
structure SeenSignatures where
  byExpiry : OrdMap Nat (List Signature) := ∅
  seen : OrdSet Signature := ∅
  /-- How many may be held; `0` stands for the default. -/
  limit : Nat := 0

namespace SeenSignatures

def cap (s : SeenSignatures) : Nat := if s.limit = 0 then maxSeenSignatures else s.limit

/-- Take the signatures of a bucket out of the set. -/
def forget (seen : OrdSet Signature) (bucket : List Signature) : OrdSet Signature :=
  bucket.foldl (fun seen sig => seen.erase sig) seen

/-- Forget every signature whose window has closed. -/
def prune (now : Nat) (s : SeenSignatures) : SeenSignatures :=
  let closed := s.byExpiry.toList.filter fun e => decide (e.1 < now)
  { s with
    byExpiry := s.byExpiry.filter fun expiry _ => decide (now ≤ expiry)
    seen := closed.foldl (fun seen e => forget seen e.2) s.seen }

/-- Drop a whole bucket. -/
def drop (expiry : Nat) (bucket : List Signature) (s : SeenSignatures) : SeenSignatures :=
  { s with
    byExpiry := s.byExpiry.erase expiry
    seen := forget s.seen bucket }

/-- Drop buckets, given from the oldest on, until no more are held than the cap. -/
def evict : List (Nat × List Signature) → SeenSignatures → SeenSignatures
  | [], s => s
  | (oldest, bucket) :: rest, s =>
    if s.cap < s.seen.size then evict rest (s.drop oldest bucket)
    else s

/-- Record a signature under the second its window closes. -/
def record (sig : Signature) (expiry : Nat) (s : SeenSignatures) : SeenSignatures :=
  { s with
    byExpiry := s.byExpiry.insert expiry (s.byExpiry.getD expiry [] ++ [sig])
    seen := s.seen.insert sig }

/-- Record a signature over the timestamp `ts`, or refuse it as a replay. -/
def admitSignature (sig : Signature) (ts now skew : Nat) (s : SeenSignatures) : Bool × SeenSignatures :=
  let s := s.prune now
  if s.seen.contains sig then (false, s)
  else
    let s := s.record sig (horizon ts skew)
    (true, evict s.byExpiry.toList s)

/-! ### The index and the set -/

/-- The signatures of some buckets, each with the second its window closes. -/
def entriesOf (buckets : List (Nat × List Signature)) : List (Nat × Signature) :=
  buckets.flatMap fun e => e.2.map (e.1, ·)

/-- What the index holds. -/
def entries (s : SeenSignatures) : List (Nat × Signature) := entriesOf s.byExpiry.toList

/-- **The index and the set hold the same signatures**, each once. -/
def Indexed (s : SeenSignatures) : Prop := (s.entries.map Prod.snd).Perm s.seen.toList

theorem entriesOf_cons (e : Nat × List Signature) (l : List (Nat × List Signature)) :
    entriesOf (e :: l) = e.2.map (e.1, ·) ++ entriesOf l := rfl

theorem map_snd_bucket (expiry : Nat) (bucket : List Signature) :
    (bucket.map (expiry, ·)).map Prod.snd = bucket := by
  rw [List.map_map]
  exact List.map_id _

theorem mem_forget {seen : OrdSet Signature} {bucket : List Signature} {sig : Signature} :
    sig ∈ forget seen bucket ↔ sig ∈ seen ∧ sig ∉ bucket := by
  induction bucket generalizing seen with
  | nil => simp [forget]
  | cons b bucket ih =>
    rw [forget, List.foldl_cons, ← forget, ih, Std.ExtTreeSet.mem_erase, List.mem_cons]
    have hcompare : compare b sig ≠ .eq ↔ ¬sig = b := by
      rw [Ne, Std.LawfulEqOrd.compare_eq_iff_eq, eq_comm]
    rw [hcompare]
    tauto

/-- The set without a part of it holds the rest. -/
theorem forget_perm {seen : OrdSet Signature} {bucket rest : List Signature}
    (h : (bucket ++ rest).Perm seen.toList) : rest.Perm (forget seen bucket).toList := by
  have hnodup : (bucket ++ rest).Nodup := h.nodup_iff.2 (OrdSet.nodup_toList seen)
  obtain ⟨-, hrest, hdisjoint⟩ := List.nodup_append.1 hnodup
  refine (List.perm_ext_iff_of_nodup hrest (OrdSet.nodup_toList _)).2 fun sig => ?_
  rw [Std.ExtTreeSet.mem_toList, mem_forget, ← Std.ExtTreeSet.mem_toList, ← h.mem_iff,
    List.mem_append]
  constructor
  · exact fun hsig => ⟨Or.inr hsig, fun hmem => hdisjoint sig hmem sig hsig rfl⟩
  · rintro ⟨hsig | hsig, hout⟩
    · exact absurd hsig hout
    · exact hsig

theorem Indexed.size {s : SeenSignatures} (h : s.Indexed) : s.seen.size = s.entries.length := by
  rw [← Std.ExtTreeSet.length_toList, ← h.length_eq, List.length_map]

theorem Indexed.mem {s : SeenSignatures} (h : s.Indexed) {sig : Signature} :
    sig ∈ s.seen ↔ ∃ expiry, (expiry, sig) ∈ s.entries := by
  rw [← Std.ExtTreeSet.mem_toList, ← h.mem_iff]
  simp

theorem toList_prune (s : SeenSignatures) (now : Nat) : (s.prune now).byExpiry.toList =
    s.byExpiry.toList.filter fun e => decide (now ≤ e.1) := Std.ExtTreeMap.toList_filter

/-- The buckets that a cutoff parts, those below it first. -/
theorem entries_parted (s : SeenSignatures) (now : Nat) :
    s.entries.Perm (entriesOf (s.byExpiry.toList.filter fun e => decide (e.1 < now)) ++
      (s.prune now).entries) := by
  have hparts := List.filter_append_perm (fun e : Nat × List Signature => decide (e.1 < now))
    s.byExpiry.toList
  have hlive : (s.prune now).byExpiry.toList =
      s.byExpiry.toList.filter fun e => !decide (e.1 < now) := by
    rw [s.toList_prune]
    refine List.filter_congr fun e _ => ?_
    rw [← decide_not]
    exact decide_eq_decide.2 Nat.not_lt.symm
  have hflat := (hparts.flatMap_right fun e => e.2.map (e.1, ·)).symm
  rw [List.flatMap_append] at hflat
  unfold entries
  rw [hlive]
  exact hflat

theorem foldl_forget (seen : OrdSet Signature) (buckets : List (Nat × List Signature)) :
    buckets.foldl (fun seen e => forget seen e.2) seen =
      forget seen ((entriesOf buckets).map Prod.snd) := by
  induction buckets generalizing seen with
  | nil => rfl
  | cons e buckets ih =>
    rw [List.foldl_cons, ih, entriesOf_cons, List.map_append, map_snd_bucket]
    exact (List.foldl_append ..).symm

theorem Indexed.prune {s : SeenSignatures} (h : s.Indexed) (now : Nat) : (s.prune now).Indexed := by
  have hparted := (s.entries_parted now).map Prod.snd
  rw [List.map_append] at hparted
  unfold Indexed
  show ((s.prune now).entries.map Prod.snd).Perm (List.foldl _ s.seen _).toList
  rw [foldl_forget]
  exact forget_perm (hparted.symm.trans h)

theorem Indexed.size_prune {s : SeenSignatures} (h : s.Indexed) (now : Nat) :
    (s.prune now).seen.size ≤ s.seen.size := by
  rw [(h.prune now).size, h.size, (s.entries_parted now).length_eq, List.length_append]
  exact Nat.le_add_left _ _

theorem entries_record (s : SeenSignatures) (sig : Signature) (expiry : Nat) :
    (s.record sig expiry).entries.Perm ((expiry, sig) :: s.entries) := by
  have hrecorded : (s.record sig expiry).byExpiry[expiry]? =
      some (s.byExpiry.getD expiry [] ++ [sig]) := Std.ExtTreeMap.getElem?_insert_self
  have herase : (s.record sig expiry).byExpiry.erase expiry = s.byExpiry.erase expiry := by
    refine Std.ExtTreeMap.ext_getElem? fun k => ?_
    show ((s.byExpiry.insert _ _).erase expiry)[k]? = _
    rw [Std.ExtTreeMap.getElem?_erase, Std.ExtTreeMap.getElem?_erase, Std.ExtTreeMap.getElem?_insert]
    split <;> rfl
  have hnew := (OrdMap.toList_perm_cons hrecorded).flatMap_right fun e => e.2.map (e.1, ·)
  rw [herase, List.flatMap_cons, List.map_append] at hnew
  have hold : s.entries.Perm ((s.byExpiry.getD expiry []).map (expiry, ·) ++
      entriesOf (s.byExpiry.erase expiry).toList) := by
    cases hbucket : s.byExpiry[expiry]? with
    | none =>
      have hsame : s.byExpiry.erase expiry = s.byExpiry := by
        refine Std.ExtTreeMap.ext_getElem? fun k => ?_
        rw [Std.ExtTreeMap.getElem?_erase]
        split
        · rename_i hk
          rw [← Std.LawfulEqOrd.eq_of_compare hk, hbucket]
        · rfl
      rw [Std.ExtTreeMap.getD_eq_getD_getElem?, hbucket, hsame]
      exact List.Perm.refl _
    | some bucket =>
      rw [Std.ExtTreeMap.getD_eq_getD_getElem?, hbucket]
      exact (OrdMap.toList_perm_cons hbucket).flatMap_right fun e => e.2.map (e.1, ·)
  have hmiddle : (((s.byExpiry.getD expiry []).map (expiry, ·) ++ [(expiry, sig)]) ++
      entriesOf (s.byExpiry.erase expiry).toList).Perm ((expiry, sig) ::
        ((s.byExpiry.getD expiry []).map (expiry, ·) ++
          entriesOf (s.byExpiry.erase expiry).toList)) := by
    rw [List.append_assoc]
    exact List.perm_middle
  exact (hnew.trans hmiddle).trans (hold.symm.cons _)

theorem Indexed.record {s : SeenSignatures} (h : s.Indexed) {sig : Signature} (hfresh : sig ∉ s.seen)
    (expiry : Nat) : (s.record sig expiry).Indexed := by
  have hentries := (s.entries_record sig expiry).map Prod.snd
  have hset : (s.seen.insert sig).toList.Perm (sig :: s.seen.toList) := by
    refine (List.perm_ext_iff_of_nodup (OrdSet.nodup_toList _) ?_).2 fun x => ?_
    · exact List.nodup_cons.2 ⟨by rwa [Std.ExtTreeSet.mem_toList], OrdSet.nodup_toList _⟩
    · rw [Std.ExtTreeSet.mem_toList, Std.ExtTreeSet.mem_insert, List.mem_cons,
        Std.ExtTreeSet.mem_toList, Std.LawfulEqOrd.compare_eq_iff_eq, eq_comm]
  exact (hentries.trans (h.cons sig)).trans hset.symm

/-! ### Eviction -/

/-- What is left of the index once its first bucket is dropped. -/
theorem entries_drop {s : SeenSignatures} {oldest : Nat} {bucket : List Signature}
    {rest : List (Nat × List Signature)} (hl : s.byExpiry.toList = (oldest, bucket) :: rest) :
    (s.drop oldest bucket).byExpiry.toList = rest := by
  have hget : s.byExpiry[oldest]? = some bucket := OrdMap.mem_toList.1 (hl ▸ List.mem_cons_self ..)
  have hperm : ((oldest, bucket) :: rest).Perm ((oldest, bucket) :: (s.byExpiry.erase oldest).toList) :=
    hl ▸ OrdMap.toList_perm_cons hget
  have hsorted : (s.byExpiry.toList).Pairwise fun a b => compare a.1 b.1 = .lt :=
    Std.ExtTreeMap.ordered_keys_toList
  rw [hl] at hsorted
  refine List.Perm.eq_of_pairwise (fun a b _ _ hab hba => ?_) Std.ExtTreeMap.ordered_keys_toList
    (List.pairwise_cons.1 hsorted).2 (List.Perm.cons_inv hperm).symm
  rw [Nat.compare_eq_lt] at hab hba
  omega

theorem Indexed.drop {s : SeenSignatures} (h : s.Indexed) {oldest : Nat} {bucket : List Signature}
    {rest : List (Nat × List Signature)} (hl : s.byExpiry.toList = (oldest, bucket) :: rest) :
    (s.drop oldest bucket).Indexed := by
  have hentries : s.entries.map Prod.snd =
      bucket ++ (s.drop oldest bucket).entries.map Prod.snd := by
    unfold entries
    rw [entries_drop hl, hl, entriesOf_cons, List.map_append, map_snd_bucket]
  unfold Indexed at h
  rw [hentries] at h
  exact forget_perm h

/-- Eviction ends within the cap and leaves the two in step. -/
theorem Indexed.evict {l : List (Nat × List Signature)} {s : SeenSignatures} (h : s.Indexed)
    (hl : s.byExpiry.toList = l) :
    (evict l s).Indexed ∧ (evict l s).seen.size ≤ s.cap ∧ (evict l s).limit = s.limit := by
  induction l generalizing s with
  | nil =>
    refine ⟨h, ?_, rfl⟩
    have hnone : s.entries = [] := by rw [entries, hl]; rfl
    show s.seen.size ≤ s.cap
    rw [h.size, hnone]
    exact Nat.zero_le _
  | cons e rest ih =>
    obtain ⟨oldest, bucket⟩ := e
    unfold SeenSignatures.evict
    split
    · exact ih (h.drop hl) (entries_drop hl)
    · exact ⟨h, by omega, rfl⟩

/-- The signatures whose window is open at `now`. -/
def openAt (now : Nat) (s : SeenSignatures) : List (Nat × Signature) :=
  s.entries.filter fun e => decide (now ≤ e.1)

/-- Where more is held than the cap and no more is open, the oldest bucket has closed. -/
theorem oldest_closed {s : SeenSignatures} {now oldest : Nat} {bucket : List Signature}
    {rest : List (Nat × List Signature)} (h : s.Indexed)
    (hl : s.byExpiry.toList = (oldest, bucket) :: rest) (hover : s.cap < s.seen.size)
    (hopen : (s.openAt now).length ≤ s.cap) : oldest < now := by
  by_contra hlate
  -- the buckets are sorted, so an open first bucket leaves every bucket open
  have hall : ∀ e ∈ s.entries, now ≤ e.1 := by
    intro e he
    have hsorted : (s.byExpiry.toList).Pairwise fun a b => compare a.1 b.1 = .lt :=
      Std.ExtTreeMap.ordered_keys_toList
    rw [hl] at hsorted
    rw [entries, entriesOf, hl, List.mem_flatMap] at he
    obtain ⟨b, hb, he⟩ := he
    obtain ⟨sig, -, rfl⟩ := List.mem_map.1 he
    rcases List.mem_cons.1 hb with rfl | hb
    · exact Nat.not_lt.1 hlate
    · have hlt := Nat.compare_eq_lt.1 ((List.pairwise_cons.1 hsorted).1 b hb)
      show now ≤ b.1
      omega
  rw [openAt, List.filter_eq_self.2 fun e he => decide_eq_true (hall e he), ← h.size] at hopen
  omega

/-- **Eviction keeps every open window**, as long as these are no more than the cap. -/
theorem evict_keeps {l : List (Nat × List Signature)} {s : SeenSignatures} {now : Nat}
    (h : s.Indexed) (hl : s.byExpiry.toList = l) (hopen : (s.openAt now).length ≤ s.cap) :
    (evict l s).openAt now = s.openAt now := by
  induction l generalizing s with
  | nil => rfl
  | cons e rest ih =>
    obtain ⟨oldest, bucket⟩ := e
    unfold evict
    split
    case isTrue hover =>
      have hclosed := oldest_closed h hl hover hopen
      have hsame : (s.drop oldest bucket).openAt now = s.openAt now := by
        unfold openAt entries
        rw [entries_drop hl, hl, entriesOf_cons, List.filter_append]
        have hnone : (bucket.map (oldest, ·)).filter (fun e => decide (now ≤ e.1)) = [] := by
          rw [List.filter_eq_nil_iff]
          rintro e he
          obtain ⟨sig, -, rfl⟩ := List.mem_map.1 he
          simpa using hclosed
        rw [hnone, List.nil_append]
      rw [ih (h.drop hl) (entries_drop hl) (hsame.symm ▸ hopen), hsame]
    case isFalse => rfl

/-- Pruning leaves the open windows and nothing else. -/
theorem entries_prune (s : SeenSignatures) (now : Nat) : (s.prune now).entries = s.openAt now := by
  rw [openAt, entries, entries, s.toList_prune]
  induction s.byExpiry.toList with
  | nil => rfl
  | cons e l ih =>
    rw [entriesOf_cons, List.filter_append, ← ih, List.filter_cons]
    have hbucket : (e.2.map (e.1, ·)).filter (fun e => decide (now ≤ e.1)) =
        if now ≤ e.1 then e.2.map (e.1, ·) else [] := by
      rw [List.filter_map]
      split
      · rename_i hopen
        simp [Function.comp_def, hopen]
      · rename_i hclosed
        simp [Function.comp_def, hclosed]
    rw [hbucket]
    by_cases hopen : now ≤ e.1
    · simp [hopen, entriesOf_cons]
    · simp [hopen]

theorem admit_refused {s : SeenSignatures} {sig : Signature} {now : Nat}
    (h : sig ∈ (s.prune now).seen) (ts skew : Nat) :
    s.admitSignature sig ts now skew = (false, s.prune now) :=
  if_pos (Std.ExtTreeSet.contains_iff_mem.2 h)

theorem admit_accepted {s : SeenSignatures} {sig : Signature} {now : Nat}
    (h : sig ∉ (s.prune now).seen) (ts skew : Nat) :
    s.admitSignature sig ts now skew =
      (true, evict ((s.prune now).record sig (horizon ts skew)).byExpiry.toList
        ((s.prune now).record sig (horizon ts skew))) := by
  unfold admitSignature
  exact if_neg fun hmem => h (Std.ExtTreeSet.contains_iff_mem.1 hmem)

/-- No timestamp takes the two out of step, and no admission leaves more than the cap. -/
theorem Indexed.admitSignature {s : SeenSignatures} (h : s.Indexed) (hcap : s.seen.size ≤ s.cap)
    (sig : Signature) (ts now skew : Nat) :
    (s.admitSignature sig ts now skew).2.Indexed ∧
      (s.admitSignature sig ts now skew).2.seen.size ≤ s.cap ∧
      (s.admitSignature sig ts now skew).2.limit = s.limit := by
  by_cases hseen : sig ∈ (s.prune now).seen
  · rw [admit_refused hseen]
    exact ⟨h.prune now, (h.size_prune now).trans hcap, rfl⟩
  · rw [admit_accepted hseen]
    exact ((h.prune now).record hseen _).evict rfl

end SeenSignatures

/-! ### The calls -/

/-- The skew check, which a read passes before its signature is looked at. -/
def fresh (ts now skew : Nat) : Bool := decide (now ≤ ts + skew ∧ ts ≤ now + skew)

/-- Why a signed read names nobody. -/
inductive ViewerAuthError
  | malformedHeader
  | unknownMember
  | badSignature
  | staleTimestamp
  | unknownOrExpiredToken
  /-- The signature verified, under a key of no member. -/
  | unattributedKey (key : Key)
  | replayed

/-- Who signed a read, and the store afterwards: `attributed` is what looking up the named member or
key and checking the signature come to. A credential is spent once its signature has verified. -/
def verifySignedHeaders (attributed : Except ViewerAuthError (MemberId × Key)) (sig : Signature)
    (ts now : UInt64) (seen : SeenSignatures) :
    Except ViewerAuthError (MemberId × Key) × SeenSignatures :=
  if !fresh ts.toNat now.toNat timestampSkewSecs then (.error .staleTimestamp, seen)
  else
    match attributed with
    | .ok _ | .error (.unattributedKey _) =>
      let (admitted, seen) := seen.admitSignature sig ts.toNat now.toNat timestampSkewSecs
      (if admitted then attributed else .error .replayed, seen)
    | .error _ => (attributed, seen)

/-- A read that names a member passed the skew check, and its signature was admitted. -/
theorem verifySignedHeaders_admitted {attributed : Except ViewerAuthError (MemberId × Key)}
    {sig : Signature} {ts now : UInt64} {seen seen' : SeenSignatures} {viewer : MemberId × Key}
    (h : verifySignedHeaders attributed sig ts now seen = (.ok viewer, seen')) :
    fresh ts.toNat now.toNat timestampSkewSecs = true ∧
      seen.admitSignature sig ts.toNat now.toNat timestampSkewSecs = (true, seen') := by
  unfold verifySignedHeaders at h
  split at h
  · cases h
  · rename_i hfresh
    refine ⟨by simpa using hfresh, ?_⟩
    cases hadmitted : seen.admitSignature sig ts.toNat now.toNat timestampSkewSecs with
    | mk admitted store =>
      rw [hadmitted] at h
      cases admitted with
      | true =>
        cases attributed with
        | ok who => cases h; rfl
        | error e => cases e <;> cases h
      | false =>
        cases attributed with
        | ok who => cases h
        | error e => cases e <;> cases h

/-- A signature that was admitted: the timestamp it covers, and the clock at the time. -/
structure Admission where
  sig : Signature
  ts : Nat
  now : Nat

/-- The store with the clock of its last call, and what was ever admitted to it, the latest first. -/
structure Register where
  store : SeenSignatures
  clock : Nat := 0
  admitted : List Admission := []

namespace Register

/-- A call on the store. -/
inductive Call
  | admitSignature (sig : Signature) (ts now : UInt64)
  | prune (now : UInt64)

def next (skew : Nat) (r : Register) : Call → Register
  | .prune now => { r with store := r.store.prune now.toNat, clock := now.toNat }
  | .admitSignature sig ts now =>
    match r.store.admitSignature sig ts.toNat now.toNat skew with
    | (true, store) => ⟨store, now.toNat, ⟨sig, ts.toNat, now.toNat⟩ :: r.admitted⟩
    | (false, store) => { r with store, clock := now.toNat }

def run (skew : Nat) (r : Register) (calls : List Call) : Register := calls.foldl (next skew) r

/-- The admitted signatures whose window is open. -/
def live (skew : Nat) (r : Register) : List Admission :=
  r.admitted.filter fun a => decide (r.clock ≤ horizon a.ts skew)

/-- Over these calls the clock does not go back, and after each of them no more is live than the cap. -/
def Steady (skew : Nat) : Register → List Call → Prop
  | _, [] => True
  | r, c :: calls =>
    r.clock ≤ (r.next skew c).clock ∧ ((r.next skew c).live skew).length ≤ r.store.cap ∧
      (r.next skew c).Steady skew calls

instance decidableSteady (skew : Nat) :
    (r : Register) → (calls : List Call) → Decidable (r.Steady skew calls)
  | _, [] => isTrue trivial
  | r, c :: calls =>
    have := decidableSteady skew (r.next skew c) calls
    inferInstanceAs (Decidable
      (r.clock ≤ (r.next skew c).clock ∧ _ ∧ (r.next skew c).Steady skew calls))

/-- **What no call breaks**, whatever its clock and its timestamp. -/
structure Sound (limit : Nat) (r : Register) : Prop where
  indexed : r.store.Indexed
  size : r.store.seen.size ≤ r.store.cap
  limit_eq : r.store.limit = limit

/-- **What a steady run keeps**: the open entries are the live admissions, and none that passed the
skew check had been admitted before. -/
structure Current (skew : Nat) (r : Register) : Prop where
  open_perm : (r.store.openAt r.clock).Perm ((r.live skew).map fun a => (horizon a.ts skew, a.sig))
  once : r.admitted.Pairwise fun later earlier =>
    fresh later.ts later.now skew → ¬(later.sig = earlier.sig ∧ later.ts = earlier.ts)

theorem next_refused {r : Register} {sig : Signature} {now : UInt64}
    (h : sig ∈ (r.store.prune now.toNat).seen) (ts : UInt64) (skew : Nat) :
    r.next skew (.admitSignature sig ts now) =
      { r with store := r.store.prune now.toNat, clock := now.toNat } := by
  simp only [next, SeenSignatures.admit_refused h]

theorem next_accepted {r : Register} {sig : Signature} {now : UInt64}
    (h : sig ∉ (r.store.prune now.toNat).seen) (ts : UInt64) (skew : Nat) :
    r.next skew (.admitSignature sig ts now) =
      ⟨(r.store.admitSignature sig ts.toNat now.toNat skew).2, now.toNat,
        ⟨sig, ts.toNat, now.toNat⟩ :: r.admitted⟩ := by
  simp only [next, SeenSignatures.admit_accepted h]

theorem Sound.next {limit : Nat} {r : Register} (h : r.Sound limit) (skew : Nat) (c : Call) :
    (r.next skew c).Sound limit := by
  cases c with
  | prune now => exact ⟨h.indexed.prune _, (h.indexed.size_prune _).trans h.size, h.limit_eq⟩
  | admitSignature sig ts now =>
    obtain ⟨hindexed, hsize, hlimit⟩ := h.indexed.admitSignature h.size sig ts.toNat now.toNat skew
    have hstore : (r.next skew (.admitSignature sig ts now)).store =
        (r.store.admitSignature sig ts.toNat now.toNat skew).2 := by
      by_cases hseen : sig ∈ (r.store.prune now.toNat).seen
      · rw [next_refused hseen, SeenSignatures.admit_refused hseen]
      · rw [next_accepted hseen]
    refine ⟨hstore ▸ hindexed, ?_, by rw [hstore, hlimit, h.limit_eq]⟩
    unfold SeenSignatures.cap at hsize ⊢
    rw [hstore, hlimit]
    exact hsize

theorem Sound.run {limit : Nat} {r : Register} (h : r.Sound limit) (skew : Nat) (calls : List Call) :
    (r.run skew calls).Sound limit := by
  induction calls generalizing r with
  | nil => exact h
  | cons c calls ih => exact ih (h.next skew c)

/-- What is open later is what of the open ones still is. -/
theorem openAt_openAt {clock now : Nat} (hclock : clock ≤ now) (l : List (Nat × Signature)) :
    (l.filter fun e => decide (clock ≤ e.1)).filter (fun e => decide (now ≤ e.1)) =
      l.filter fun e => decide (now ≤ e.1) := by
  rw [List.filter_filter]
  refine List.filter_congr fun e _ => ?_
  rw [Bool.and_eq_left_iff_imp]
  simp only [decide_eq_true_eq]
  omega

/-- The clock moves on: a step of every call. -/
theorem Current.prune {skew : Nat} {r : Register} (h : r.Current skew) {now : Nat}
    (hclock : r.clock ≤ now) :
    ({ r with store := r.store.prune now, clock := now } : Register).Current skew := by
  refine ⟨?_, h.once⟩
  have hopen := h.open_perm.filter fun e => decide (now ≤ e.1)
  rw [SeenSignatures.openAt, openAt_openAt hclock] at hopen
  have hlive : ((r.live skew).map fun a => (horizon a.ts skew, a.sig)).filter
      (fun e => decide (now ≤ e.1)) =
      (r.admitted.filter fun a => decide (now ≤ horizon a.ts skew)).map
        fun a => (horizon a.ts skew, a.sig) := by
    rw [List.filter_map, live, List.filter_filter]
    refine congrArg _ (List.filter_congr fun a _ => ?_)
    simp only [Function.comp_apply]
    rw [Bool.and_eq_left_iff_imp]
    simp only [decide_eq_true_eq]
    omega
  rw [hlive] at hopen
  show ((r.store.prune now).openAt now).Perm _
  unfold SeenSignatures.openAt
  rw [SeenSignatures.entries_prune, SeenSignatures.openAt, openAt_openAt le_rfl]
  exact hopen

/-- A signature is taken in, and the windows that close first make room for it. -/
theorem Current.accept {limit skew : Nat} {r : Register} (hsound : r.Sound limit)
    (h : r.Current skew) {sig : Signature} {ts now : UInt64} (hclock : r.clock ≤ now.toNat)
    (hseen : sig ∉ (r.store.prune now.toNat).seen)
    (hlive : ((r.next skew (.admitSignature sig ts now)).live skew).length ≤ r.store.cap) :
    (r.next skew (.admitSignature sig ts now)).Current skew := by
  have hpruned := h.prune hclock
  have hindexed := (hsound.indexed.prune now.toNat).record hseen (horizon ts.toNat skew)
  -- before eviction the open entries are the live admissions, the new one among them
  have hrecorded : (((r.store.prune now.toNat).record sig (horizon ts.toNat skew)).openAt now.toNat).Perm
      (((r.next skew (.admitSignature sig ts now)).live skew).map
        fun a => (horizon a.ts skew, a.sig)) := by
    have hentries := ((r.store.prune now.toNat).entries_record sig (horizon ts.toNat skew)).filter
      fun e => decide (now.toNat ≤ e.1)
    refine hentries.trans ?_
    rw [next_accepted hseen, live]
    by_cases hopen : now.toNat ≤ horizon ts.toNat skew
    · rw [List.filter_cons_of_pos (by simpa using hopen), List.filter_cons_of_pos (by simpa using hopen)]
      exact hpruned.open_perm.cons _
    · rw [List.filter_cons_of_neg (by simpa using hopen), List.filter_cons_of_neg (by simpa using hopen)]
      exact hpruned.open_perm
  refine ⟨?_, ?_⟩
  · have hroom : (((r.store.prune now.toNat).record sig (horizon ts.toNat skew)).openAt
        now.toNat).length ≤ r.store.cap := by
      rw [hrecorded.length_eq, List.length_map]
      exact hlive
    have hkept := SeenSignatures.evict_keeps hindexed rfl hroom
    refine List.Perm.trans ?_ hrecorded
    rw [next_accepted hseen]
    show (SeenSignatures.openAt now.toNat (r.store.admitSignature _ _ _ _).2).Perm _
    rw [SeenSignatures.admit_accepted hseen, hkept]
  · rw [next_accepted hseen]
    refine List.pairwise_cons.2 ⟨?_, h.once⟩
    -- one that passes the check is still indexed if it was ever admitted
    rintro earlier hearlier hfresh ⟨hsig, hts⟩
    have hopen : now.toNat ≤ horizon earlier.ts skew := by
      have hnow : now.toNat ≤ ts.toNat + skew := (of_decide_eq_true hfresh).1
      have hword : now.toNat ≤ u64Max := Nat.le_sub_one_of_lt now.toNat_lt
      rw [← hts]
      exact le_min hnow hword
    have hentry : (horizon earlier.ts skew, earlier.sig) ∈ (r.store.prune now.toNat).openAt now.toNat :=
      hpruned.open_perm.mem_iff.2 (List.mem_map.2
        ⟨earlier, List.mem_filter.2 ⟨hearlier, decide_eq_true hopen⟩, rfl⟩)
    refine hseen ((hsound.indexed.prune now.toNat).mem.2 ⟨horizon earlier.ts skew, ?_⟩)
    rw [show sig = earlier.sig from hsig]
    exact (List.mem_filter.1 hentry).1

theorem Current.next {limit skew : Nat} {r : Register} (hsound : r.Sound limit)
    (h : r.Current skew) {c : Call} (hclock : r.clock ≤ (r.next skew c).clock)
    (hlive : ((r.next skew c).live skew).length ≤ r.store.cap) : (r.next skew c).Current skew := by
  cases c with
  | prune now => exact h.prune hclock
  | admitSignature sig ts now =>
    by_cases hseen : sig ∈ (r.store.prune now.toNat).seen
    · rw [next_refused hseen] at hclock ⊢
      exact h.prune hclock
    · refine h.accept hsound ?_ hseen hlive
      rwa [next_accepted hseen] at hclock

theorem Current.run {limit skew : Nat} {r : Register} (hsound : r.Sound limit)
    (h : r.Current skew) {calls : List Call} (hsteady : r.Steady skew calls) :
    (r.run skew calls).Current skew := by
  induction calls generalizing r with
  | nil => exact h
  | cons c calls ih =>
    obtain ⟨hclock, hlive, hrest⟩ := hsteady
    exact ih (hsound.next skew c) (h.next hsound hclock hlive) hrest

/-- How often a signature was admitted under a timestamp with which it passed the check. -/
def timesSpent (skew : Nat) (r : Register) (sig : Signature) (ts : Nat) : Nat :=
  r.admitted.countP fun a => decide (a.sig = sig ∧ a.ts = ts ∧ fresh a.ts a.now skew)

theorem Current.timesSpent_le {skew : Nat} {r : Register} (h : r.Current skew) (sig : Signature)
    (ts : Nat) : r.timesSpent skew sig ts ≤ 1 := by
  have honce := h.once
  unfold timesSpent
  generalize r.admitted = admitted at honce ⊢
  induction admitted with
  | nil => exact Nat.zero_le 1
  | cons later l ih =>
    obtain ⟨hlater, hl⟩ := List.pairwise_cons.1 honce
    rw [List.countP_cons]
    split
    case isTrue hspent =>
      obtain ⟨hsig, hts, hfresh⟩ := of_decide_eq_true hspent
      have hnone :
          l.countP (fun a => decide (a.sig = sig ∧ a.ts = ts ∧ fresh a.ts a.now skew)) = 0 := by
        refine List.countP_eq_zero.2 fun a ha hspent' => ?_
        obtain ⟨hsig', hts', -⟩ := of_decide_eq_true hspent'
        exact hlater a ha hfresh ⟨hsig.trans hsig'.symm, hts.trans hts'.symm⟩
      rw [hnone]
    case isFalse => exact ih hl

/-- A store before its first call. -/
def start (limit : Nat) : Register where
  store := { limit }

theorem sound_start (limit : Nat) : (start limit).Sound limit := by
  refine ⟨?_, ?_, rfl⟩
  · show List.Perm [] _
    simp [start]
  · show (∅ : OrdSet Signature).size ≤ _
    rw [Std.ExtTreeSet.size_empty]
    exact Nat.zero_le _

theorem current_start (limit skew : Nat) : (start limit).Current skew :=
  ⟨List.Perm.refl _, List.Pairwise.nil⟩

end Register

/-- **A credential is spent once.** Over any calls the index and the set hold the same signatures, at
most the cap; and where the clock does not go back and no more are live than the cap, no signature is
admitted twice under a timestamp with which it passed the skew check. -/
theorem credential_spent_once (limit skew : Nat) (calls : List Register.Call) :
    ((Register.start limit).run skew calls).store.Indexed ∧
      ((Register.start limit).run skew calls).store.seen.size ≤
        ((Register.start limit).run skew calls).store.cap ∧
      ((Register.start limit).Steady skew calls → ∀ sig ts,
        ((Register.start limit).run skew calls).timesSpent skew sig ts ≤ 1) := by
  have hsound := (Register.sound_start limit).run skew calls
  refine ⟨hsound.indexed, hsound.size, fun hsteady sig ts => ?_⟩
  exact ((Register.current_start limit skew).run (Register.sound_start limit) hsteady).timesSpent_le
    sig ts

/-- Presented ahead of the clock, and again in the last second of its window. -/
theorem credential_spent_once_replayed :
    ((Register.start 1).run 60
      [.admitSignature 7 1000 940, .prune 1000, .admitSignature 7 1000 1060]).timesSpent 60 7 1000 ≤ 1 :=
  (credential_spent_once 1 60
    [.admitSignature 7 1000 940, .prune 1000, .admitSignature 7 1000 1060]).2.2 (by decide +kernel) 7 1000

end Edet.Node
