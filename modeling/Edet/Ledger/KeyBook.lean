import Edet.Ledger.Types

/-!
# The key book

Who holds which key, on its own: an index from member keys to members, and for every
member the keys it **claims**, as a member key, as its consensus key, or in a pending
rotation. The book is sound (`KeyBook.Sound`) when every key is claimed at most once
in all of it and the index lists exactly the member keys.

The operations are those a ledger makes on its keys: seat a row, request or drop a
rotation, name a consensus key, carry a rotation out, drop a row. Each keeps the book
sound if the keys it brings in are free (`KeyBook.Free`).
-/

namespace Edet

/-- What one row says about keys. -/
structure KeyRow where
  id : MemberId
  keys : List Key
  consensusKey : Option Key
  pendingRotation : Option PendingRotation

namespace KeyRow

/-- The keys of the row's pending rotation. -/
def pendingKeys (r : KeyRow) : List Key := (r.pendingRotation.map PendingRotation.newKeys).getD []

/-- Every key the row claims. -/
def claims (r : KeyRow) : List Key := r.keys ++ r.consensusKey.toList ++ r.pendingKeys

theorem mem_claims {r : KeyRow} {k : Key} :
    k ∈ r.claims ↔ k ∈ r.keys ∨ r.consensusKey = some k ∨ k ∈ r.pendingKeys := by
  simp [claims]

end KeyRow

/-- The keys of all members. -/
@[ext]
structure KeyBook where
  index : OrdMap Key MemberId
  next : MemberId
  rows : OrdMap MemberId KeyRow

namespace KeyBook

/-- Nobody claims the key. -/
def Free (b : KeyBook) (k : Key) : Prop :=
  ∀ (id : MemberId) (r : KeyRow), b.rows[id]? = some r → k ∉ r.claims

/-- Every key is claimed at most once, and the index lists the member keys. -/
structure Sound (b : KeyBook) : Prop where
  /-- The index maps a key to the row that holds it, and to nothing else. -/
  index : ∀ (k : Key) (id : MemberId),
    b.index[k]? = some id ↔ ∃ r, b.rows[id]? = some r ∧ k ∈ r.keys
  /-- Rows carry their own id, below the next one. -/
  named : ∀ (id : MemberId) (r : KeyRow), b.rows[id]? = some r → r.id = id ∧ id < b.next
  /-- A row claims a key once. -/
  once : ∀ (id : MemberId) (r : KeyRow), b.rows[id]? = some r → r.claims.Nodup
  /-- Two rows claim different keys. -/
  apart : ∀ (id id' : MemberId) (r r' : KeyRow) (k : Key), b.rows[id]? = some r →
    b.rows[id']? = some r' → k ∈ r.claims → k ∈ r'.claims → id = id'

/-! ### Operations -/

/-- Open the next row. -/
def seat (b : KeyBook) (keys : List Key) : KeyBook :=
  { index := keys.foldl (fun m k => m.insert k b.next) b.index
    next := b.next + 1
    rows := b.rows.insert b.next
      { id := b.next, keys, consensusKey := none, pendingRotation := none } }

/-- Request a rotation, or drop the one pending. -/
def pend (b : KeyBook) (id : MemberId) (p : Option PendingRotation) : KeyBook :=
  { b with rows := b.rows.modify id fun r => { r with pendingRotation := p } }

/-- Name a consensus key, or take it back. -/
def nameConsensus (b : KeyBook) (id : MemberId) (ck : Option Key) : KeyBook :=
  { b with rows := b.rows.modify id fun r => { r with consensusKey := ck } }

/-- Put new keys in the place of the old ones. -/
def rotate (b : KeyBook) (id : MemberId) (oldKeys newKeys : List Key) : KeyBook :=
  { b with
    index := newKeys.foldl (fun m k => m.insert k id) (oldKeys.foldl (fun m k => m.erase k) b.index)
    rows := b.rows.modify id fun r => { r with keys := newKeys, pendingRotation := none } }

/-- Drop a row and its keys. -/
def drop (b : KeyBook) (id : MemberId) (keys : List Key) : KeyBook :=
  { b with index := keys.foldl (fun m k => m.erase k) b.index, rows := b.rows.erase id }

/-! ### Soundness is kept -/

namespace Sound

variable {b : KeyBook}

theorem empty (next : MemberId) : Sound { index := ∅, next, rows := ∅ } where
  index k id := by simp
  named id r h := by simp at h
  once id r h := by simp at h
  apart id id' r r' k h := by simp at h

/-- Rewriting one row without touching its member keys keeps the book sound, if what
it newly claims nobody else does. -/
theorem setRow (h : b.Sound) (id : MemberId) {f : KeyRow → KeyRow}
    (hid : ∀ r, (f r).id = r.id) (hkeys : ∀ r, (f r).keys = r.keys)
    (honce : ∀ r, b.rows[id]? = some r → (f r).claims.Nodup)
    (hnew : ∀ r, b.rows[id]? = some r → ∀ k ∈ (f r).claims,
      k ∈ r.claims ∨ ∀ (id' : MemberId) (r' : KeyRow), b.rows[id']? = some r' → id' ≠ id →
        k ∉ r'.claims) :
    Sound { b with rows := b.rows.modify id f } := by
  -- Every row of the new book is a row of the old one, rewritten or not.
  have hrow : ∀ (a : MemberId) (r' : KeyRow), (b.rows.modify id f)[a]? = some r' →
      ∃ r, b.rows[a]? = some r ∧ r' = if id = a then f r else r := by
    intro a r' hr'
    rw [OrdMap.getElem?_modify_map] at hr'
    obtain ⟨r, hr, rfl⟩ := Option.map_eq_some_iff.1 hr'
    exact ⟨r, hr, rfl⟩
  -- A key of a rewritten row is claimed by no other row.
  have hapart : ∀ (r : KeyRow) (a : MemberId) (r' : KeyRow) (k : Key), b.rows[id]? = some r →
      b.rows[a]? = some r' → k ∈ (f r).claims → k ∈ r'.claims → a = id := by
    intro r a r' k hr hr' hk hk'
    by_contra hne
    rcases hnew r hr k hk with hold | hfree
    · exact hne (h.apart a id r' r k hr' hr hk' hold)
    · exact hfree a r' hr' hne hk'
  refine ⟨fun k a => ?_, fun a r' hr' => ?_, fun a r' hr' => ?_,
    fun a a' r₁ s₁ k hr₁ hs₁ hk hk' => ?_⟩
  · rw [h.index k a]
    constructor
    · rintro ⟨r, hr, hk⟩
      refine ⟨if id = a then f r else r, ?_, ?_⟩
      · rw [OrdMap.getElem?_modify_map, hr]
        rfl
      · split
        · rwa [hkeys]
        · exact hk
    · rintro ⟨r', hr', hk⟩
      obtain ⟨r, hr, rfl⟩ := hrow a r' hr'
      refine ⟨r, hr, ?_⟩
      split at hk
      · rwa [hkeys] at hk
      · exact hk
  · obtain ⟨r, hr, rfl⟩ := hrow a r' hr'
    have := h.named a r hr
    split
    · rwa [hid]
    · exact this
  · obtain ⟨r, hr, rfl⟩ := hrow a r' hr'
    split
    · next hid => exact honce r (hid ▸ hr)
    · exact h.once a r hr
  · obtain ⟨r, hr, rfl⟩ := hrow a r₁ hr₁
    obtain ⟨s, hs, rfl⟩ := hrow a' s₁ hs₁
    by_cases ha : id = a <;> by_cases ha' : id = a'
    · exact ha.symm.trans ha'
    · rw [if_pos ha] at hk
      rw [if_neg ha'] at hk'
      exact (hapart r a' s k (ha ▸ hr) hs hk hk').trans ha |>.symm
    · rw [if_neg ha] at hk
      rw [if_pos ha'] at hk'
      exact (hapart s a r k (ha' ▸ hs) hr hk' hk).trans ha'
    · rw [if_neg ha] at hk
      rw [if_neg ha'] at hk'
      exact h.apart a a' r s k hr hs hk hk'

/-- A rotation to free keys may be requested. -/
theorem pend (h : b.Sound) (id : MemberId) {p : Option PendingRotation}
    (hp : ∀ q, p = some q → q.newKeys.Nodup ∧ ∀ k ∈ q.newKeys, b.Free k) :
    (b.pend id p).Sound := by
  have hmem : ∀ (r : KeyRow) (k : Key),
      k ∈ ({ r with pendingRotation := p } : KeyRow).claims →
        k ∈ r.keys ++ r.consensusKey.toList ∨ ∃ q, p = some q ∧ k ∈ q.newKeys := by
    intro r k hk
    cases p with
    | none => exact .inl (by simpa [KeyRow.claims, KeyRow.pendingKeys] using hk)
    | some q =>
      refine (List.mem_append.1 hk).imp_right fun hq => ⟨q, rfl, ?_⟩
      simpa [KeyRow.pendingKeys] using hq
  refine h.setRow id (fun _ => rfl) (fun _ => rfl) (fun r hr => ?_) fun r hr k hk => ?_
  · have honce := h.once id r hr
    unfold KeyRow.claims at honce ⊢
    have hheld := (List.nodup_append.1 honce).1
    cases p with
    | none => simpa [KeyRow.pendingKeys] using hheld
    | some q =>
      obtain ⟨hq, hfree⟩ := hp q rfl
      refine List.nodup_append.2 ⟨hheld, by simpa [KeyRow.pendingKeys] using hq, ?_⟩
      rintro k hk _ hk' rfl
      refine hfree k (by simpa [KeyRow.pendingKeys] using hk') id r hr ?_
      exact List.mem_append_left _ hk
  · rcases hmem r k hk with hk | ⟨q, rfl, hq⟩
    · exact .inl (List.mem_append_left _ hk)
    · exact .inr fun id' r' hr' _ => (hp q rfl).2 k hq id' r' hr'

/-- A consensus key may be named if nobody holds it or rotates to it, and no other
member signs consensus with it. -/
theorem nameConsensus (h : b.Sound) (id : MemberId) {ck : Option Key}
    (hck : ∀ k, ck = some k → ∀ (id' : MemberId) (r : KeyRow), b.rows[id']? = some r →
      k ∉ r.keys ∧ k ∉ r.pendingKeys ∧ (id' ≠ id → r.consensusKey ≠ some k)) :
    (b.nameConsensus id ck).Sound := by
  refine h.setRow id (fun _ => rfl) (fun _ => rfl) (fun r hr => ?_) fun r hr k hk => ?_
  · have honce := h.once id r hr
    have hrest : (r.keys ++ r.pendingKeys).Nodup := by
      refine honce.sublist ?_
      unfold KeyRow.claims
      rw [List.append_assoc]
      exact (List.sublist_append_right _ _).append_left _
    show (r.keys ++ ck.toList ++ r.pendingKeys).Nodup
    cases ck with
    | none => simpa using hrest
    | some k =>
      obtain ⟨hkeys, hpending, -⟩ := hck k rfl id r hr
      rw [Option.toList_some, List.append_assoc, List.singleton_append,
        List.nodup_middle, List.nodup_cons]
      exact ⟨by simp [hkeys, hpending], hrest⟩
  · rw [KeyRow.mem_claims] at hk
    rcases hk with hk | hk | hk
    · exact .inl (KeyRow.mem_claims.2 (.inl hk))
    · refine .inr fun id' r' hr' hne hmem => ?_
      obtain ⟨hkeys, hpending, hother⟩ := hck k hk id' r' hr'
      rcases KeyRow.mem_claims.1 hmem with hmem | hmem | hmem
      · exact hkeys hmem
      · exact hother hne hmem
      · exact hpending hmem
    · exact .inl (KeyRow.mem_claims.2 (.inr (.inr hk)))

/-- A row may be opened on free keys. -/
theorem seat (h : b.Sound) {keys : List Key} (honce : keys.Nodup)
    (hfree : ∀ k ∈ keys, b.Free k) : (b.seat keys).Sound := by
  have hlt : ∀ (id : MemberId) (r : KeyRow), b.rows[id]? = some r → b.next ≠ id :=
    fun id r hr heq => absurd (h.named id r hr).2 (heq ▸ Nat.lt_irrefl _)
  have hget : ∀ id : MemberId, (b.seat keys).rows[id]? =
      if b.next = id then some ⟨b.next, keys, none, none⟩ else b.rows[id]? := by
    intro id
    simp [KeyBook.seat, Std.ExtTreeMap.getElem?_insert]
  -- A row of the new book is the new one or an old one.
  have hrow : ∀ (id : MemberId) (r : KeyRow), (b.seat keys).rows[id]? = some r →
      (id = b.next ∧ r = ⟨b.next, keys, none, none⟩) ∨ (id ≠ b.next ∧ b.rows[id]? = some r) := by
    intro id r hr
    rw [hget] at hr
    split at hr
    · next heq => exact .inl ⟨heq.symm, (Option.some.inj hr).symm⟩
    · next hne => exact .inr ⟨Ne.symm hne, hr⟩
  have hclaims : ∀ k, k ∈ (KeyRow.mk b.next keys none none).claims ↔ k ∈ keys := by
    simp [KeyRow.claims, KeyRow.pendingKeys]
  refine ⟨fun k id => ?_, fun id r hr => ?_, fun id r hr => ?_,
    fun id id' r r' k hr hr' hk hk' => ?_⟩
  · show (keys.foldl (fun m k => m.insert k b.next) b.index)[k]? = some id ↔ _
    rw [OrdMap.getElem?_foldl_insert]
    by_cases hk : k ∈ keys
    · rw [if_pos hk, Option.some.injEq]
      constructor
      · rintro rfl
        exact ⟨_, by rw [hget, if_pos rfl], hk⟩
      · rintro ⟨r, hr, hmem⟩
        rcases hrow id r hr with ⟨rfl, -⟩ | ⟨-, hold⟩
        · rfl
        · exact absurd (KeyRow.mem_claims.2 (.inl hmem)) (hfree k hk id r hold)
    · rw [if_neg hk, h.index]
      constructor
      · rintro ⟨r, hr, hmem⟩
        exact ⟨r, by rw [hget, if_neg (hlt id r hr), hr], hmem⟩
      · rintro ⟨r, hr, hmem⟩
        rcases hrow id r hr with ⟨-, rfl⟩ | ⟨-, hold⟩
        · exact absurd hmem hk
        · exact ⟨r, hold, hmem⟩
  · rcases hrow id r hr with ⟨rfl, rfl⟩ | ⟨-, hold⟩
    · exact ⟨rfl, Nat.lt_succ_self _⟩
    · exact ⟨(h.named id r hold).1, Nat.lt_succ_of_lt (h.named id r hold).2⟩
  · rcases hrow id r hr with ⟨-, rfl⟩ | ⟨-, hold⟩
    · simpa [KeyRow.claims, KeyRow.pendingKeys] using honce
    · exact h.once id r hold
  · rcases hrow id r hr with ⟨rfl, rfl⟩ | ⟨-, hold⟩ <;>
      rcases hrow id' r' hr' with ⟨rfl, rfl⟩ | ⟨-, hold'⟩
    · rfl
    · exact absurd hk' (hfree k ((hclaims k).1 hk) id' r' hold')
    · exact absurd hk (hfree k ((hclaims k).1 hk') id r hold)
    · exact h.apart id id' r r' k hold hold' hk hk'

/-- A pending rotation may be carried out. -/
theorem rotate (h : b.Sound) {id : MemberId} {r : KeyRow} {p : PendingRotation}
    (hr : b.rows[id]? = some r) (hp : r.pendingRotation = some p) :
    (b.rotate id r.keys p.newKeys).Sound := by
  have hpending : r.pendingKeys = p.newKeys := by simp [KeyRow.pendingKeys, hp]
  have honce := h.once id r hr
  set r₁ : KeyRow := { r with keys := p.newKeys, pendingRotation := none } with hr₁
  have hclaims : ∀ k, k ∈ r₁.claims → k ∈ r.claims := by
    intro k hk
    rw [KeyRow.mem_claims] at hk ⊢
    rcases hk with hk | hk | hk
    · exact .inr (.inr (hpending ▸ hk))
    · exact .inr (.inl hk)
    · simp [hr₁, KeyRow.pendingKeys] at hk
  have hget : ∀ a : MemberId, (b.rotate id r.keys p.newKeys).rows[a]? =
      if id = a then some r₁ else b.rows[a]? := by
    intro a
    show (b.rows.modify id _)[a]? = _
    rw [OrdMap.getElem?_modify_map]
    by_cases ha : id = a
    · subst ha
      simp [hr, hr₁]
    · simp [ha]
  -- A row of the new book is the rotated one or an old one; both claim what it did.
  have hrow : ∀ (a : MemberId) (s : KeyRow), (b.rotate id r.keys p.newKeys).rows[a]? = some s →
      ∃ s₀, b.rows[a]? = some s₀ ∧ s.id = s₀.id ∧ (∀ k ∈ s.claims, k ∈ s₀.claims) ∧
        s.claims.Nodup := by
    intro a s hs
    rw [hget] at hs
    split at hs
    · next ha =>
      subst ha
      obtain rfl : s = r₁ := (Option.some.inj hs).symm
      refine ⟨r, hr, rfl, hclaims, ?_⟩
      have hsub : (r.consensusKey.toList ++ r.pendingKeys).Nodup :=
        honce.sublist (by
          unfold KeyRow.claims
          rw [List.append_assoc]
          exact List.sublist_append_right _ _)
      have := (List.perm_append_comm.nodup_iff).1 hsub
      simpa [hr₁, KeyRow.claims, KeyRow.pendingKeys, hp] using this
    · exact ⟨s, hs, rfl, fun _ hk => hk, h.once a s hs⟩
  refine ⟨fun k a => ?_, fun a s hs => ?_, fun a s hs => ?_, fun a a' s s' k hs hs' hk hk' => ?_⟩
  · show (p.newKeys.foldl (fun m k => m.insert k id)
      (r.keys.foldl (fun m k => m.erase k) b.index))[k]? = some a ↔ _
    rw [OrdMap.getElem?_foldl_insert, OrdMap.getElem?_foldl_erase]
    by_cases hnew : k ∈ p.newKeys
    · rw [if_pos hnew, Option.some.injEq]
      constructor
      · rintro rfl
        exact ⟨r₁, by rw [hget, if_pos rfl], hnew⟩
      · rintro ⟨s, hs, hmem⟩
        obtain ⟨s₀, hs₀, -, hsub, -⟩ := hrow a s hs
        refine h.apart id a r s₀ k hr hs₀ ?_ (hsub k (KeyRow.mem_claims.2 (.inl hmem)))
        exact KeyRow.mem_claims.2 (.inr (.inr (hpending ▸ hnew)))
    · rw [if_neg hnew]
      by_cases hold : k ∈ r.keys
      · rw [if_pos hold]
        refine ⟨fun hnone => absurd hnone (by simp), fun hheld => ?_⟩
        obtain ⟨s, hs, hmem⟩ := hheld
        -- The old key was the rotated row's, and that row holds it no longer.
        obtain ⟨s₀, hs₀, -, hsub, -⟩ := hrow a s hs
        have hid : id = a := h.apart id a r s₀ k hr hs₀ (KeyRow.mem_claims.2 (.inl hold))
          (hsub k (KeyRow.mem_claims.2 (.inl hmem)))
        rw [hget, if_pos hid] at hs
        rw [← Option.some.inj hs] at hmem
        exact absurd hmem hnew
      · rw [if_neg hold, h.index]
        constructor
        · rintro ⟨s, hs, hmem⟩
          have hne : id ≠ a := by
            rintro rfl
            rw [hr] at hs
            exact hold (Option.some.inj hs ▸ hmem)
          exact ⟨s, by rw [hget, if_neg hne, hs], hmem⟩
        · rintro ⟨s, hs, hmem⟩
          rw [hget] at hs
          split at hs
          · rw [← Option.some.inj hs] at hmem
            exact absurd hmem hnew
          · exact ⟨s, hs, hmem⟩
  · obtain ⟨s₀, hs₀, hid, -, -⟩ := hrow a s hs
    rw [hid]
    exact h.named a s₀ hs₀
  · obtain ⟨-, -, -, -, hs⟩ := hrow a s hs
    exact hs
  · obtain ⟨s₀, hs₀, -, hsub, -⟩ := hrow a s hs
    obtain ⟨s₁, hs₁, -, hsub', -⟩ := hrow a' s' hs'
    exact h.apart a a' s₀ s₁ k hs₀ hs₁ (hsub k hk) (hsub' k hk')

/-- A row may be dropped with its keys. -/
theorem drop (h : b.Sound) {id : MemberId} {r : KeyRow} (hr : b.rows[id]? = some r) :
    (b.drop id r.keys).Sound := by
  have hget : ∀ a : MemberId, (b.drop id r.keys).rows[a]? =
      if id = a then none else b.rows[a]? := by
    intro a
    simp [KeyBook.drop, Std.ExtTreeMap.getElem?_erase]
  have hrow : ∀ (a : MemberId) (s : KeyRow), (b.drop id r.keys).rows[a]? = some s →
      id ≠ a ∧ b.rows[a]? = some s := by
    intro a s hs
    rw [hget] at hs
    split at hs
    · cases hs
    · exact ⟨‹_›, hs⟩
  refine ⟨fun k a => ?_, fun a s hs => ?_, fun a s hs => ?_, fun a a' s s' k hs hs' hk hk' => ?_⟩
  · show (r.keys.foldl (fun m k => m.erase k) b.index)[k]? = some a ↔ _
    rw [OrdMap.getElem?_foldl_erase]
    by_cases hk : k ∈ r.keys
    · rw [if_pos hk]
      refine ⟨fun hnone => absurd hnone (by simp), fun hheld => ?_⟩
      obtain ⟨s, hs, hmem⟩ := hheld
      obtain ⟨hne, hs⟩ := hrow a s hs
      exact absurd (h.apart id a r s k hr hs (KeyRow.mem_claims.2 (.inl hk))
        (KeyRow.mem_claims.2 (.inl hmem))) hne
    · rw [if_neg hk, h.index]
      constructor
      · rintro ⟨s, hs, hmem⟩
        have hne : id ≠ a := by
          rintro rfl
          rw [hr] at hs
          exact hk (Option.some.inj hs ▸ hmem)
        exact ⟨s, by rw [hget, if_neg hne, hs], hmem⟩
      · rintro ⟨s, hs, hmem⟩
        exact ⟨s, (hrow a s hs).2, hmem⟩
  · exact h.named a s (hrow a s hs).2
  · exact h.once a s (hrow a s hs).2
  · exact h.apart a a' s s' k (hrow a s hs).2 (hrow a' s' hs').2 hk hk'

end Sound

end KeyBook

end Edet
