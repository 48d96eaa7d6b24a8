import Edet.StateRoot.Definition

/-!
# State proofs are complete and sound

`rows C s sec` is what a section holds, in order, with no hash in it: each key with the
encoding of its record. Against it, a root and its proofs say exactly what they should
(`stateRoot_proofs`): every row in range has a proof that verifies, and whatever verifies
against the root names a section, that section's number of rows, and the row at its index.

The argument goes up the tree. A leaf is a function of the row and its position
(`Hashed`); the tracked fold is the promotion tree's (`foldLevel_track`, `merkle_fst`,
`merkle_snd`); and each preimage is injective for an ideal hash (`leafHash_inj`,
`innerHash_inj`, `sectionHash_inj`). Soundness then comes down: the climb through the
section roots has the fixed shape of seven leaves, so it starts from the named section's
root, which gives up the count and the root of the leaves, and with the count the shape of
the climb below.
-/

namespace Edet.StateRoot

variable {D : Type} [Digest D]

open Digest

/-! ### Fallible steps -/

/-- A step that succeeded went through its first half. -/
theorem bind_ok {α β : Type} {x : Except RootError α} {f : α → Except RootError β} {b : β}
    (h : x >>= f = .ok b) : ∃ a, x = .ok a ∧ f a = .ok b := by
  cases x with
  | error e => cases h
  | ok a => exact ⟨a, rfl, h⟩

/-- What a list of fallible steps returned, position by position. -/
theorem mapM_ok {α β : Type} {f : α → Except RootError β} {l : List α} {out : List β}
    (h : l.mapM f = .ok out) :
    out.length = l.length ∧
      ∀ (i : Nat) (a : α), l[i]? = some a → ∃ b, f a = .ok b ∧ out[i]? = some b := by
  induction l generalizing out with
  | nil =>
    obtain rfl : out = [] := by simpa [pure, Except.pure] using h.symm
    simp
  | cons a l ih =>
    rw [List.mapM_cons] at h
    obtain ⟨b, hf, h⟩ := bind_ok h
    obtain ⟨rest, hl, h⟩ := bind_ok h
    obtain rfl : b :: rest = out := by simpa [pure, Except.pure] using h
    obtain ⟨hlen, hget⟩ := ih hl
    refine ⟨by simp [hlen], fun i => ?_⟩
    cases i with
    | zero => simpa using hf
    | succ i => simpa using hget i

theorem exists_mapM_ok {α β : Type} {f : α → Except RootError β} {l : List α}
    (h : ∀ a ∈ l, ∃ b, f a = .ok b) : ∃ out, l.mapM f = .ok out := by
  induction l with
  | nil => exact ⟨[], rfl⟩
  | cons a l ih =>
    obtain ⟨b, hb⟩ := h a (by simp)
    obtain ⟨out, hout⟩ := ih fun a ha => h a (by simp [ha])
    exact ⟨b :: out, by rw [List.mapM_cons, hb, hout]; rfl⟩

/-! ### The tracked fold is the promotion tree -/

theorem foldLevel_track (l : List D) (i t : Nat) (ht : 2 * i ≤ t) (hlt : t < 2 * i + l.length) :
    (foldLevel (some t) i l).2 = (some (t / 2), PromotionTree.siblingAt l (t - 2 * i)) := by
  induction l using PromotionTree.levelUp.induct generalizing i with
  | case1 => simp at hlt; omega
  | case2 only =>
    obtain rfl : t = 2 * i := by simp only [List.length_singleton] at hlt; omega
    simp [foldLevel, PromotionTree.siblingAt]
  | case3 l r rest ih =>
    simp only [List.length_cons] at hlt
    simp only [foldLevel, Option.some.injEq]
    by_cases h0 : t = 2 * i
    · subst h0
      simp [PromotionTree.siblingAt]
    rw [if_neg h0]
    by_cases h1 : t = 2 * i + 1
    · subst h1
      have hhalf : (2 * i + 1) / 2 = i := by omega
      simp [PromotionTree.siblingAt, hhalf]
    rw [if_neg h1, ih (i + 1) (by omega) (by omega)]
    -- two digests on, the sibling is where it was
    have hsub : t - 2 * i = t - 2 * (i + 1) + 2 := by omega
    simp only [PromotionTree.siblingAt, hsub]
    rcases Nat.mod_two_eq_zero_or_one (t - 2 * (i + 1)) with heven | hodd
    · rw [if_pos heven, if_pos (by omega)]
      rfl
    · rw [if_neg (by omega), if_neg (by omega)]
      obtain ⟨m, hm⟩ : ∃ m, t - 2 * (i + 1) = m + 1 := ⟨t - 2 * (i + 1) - 1, by omega⟩
      rw [hm]
      rfl

theorem merkle_fst {l : List D} (hl : l ≠ []) (track : Option Nat) :
    PromotionTree.rootOf innerHash l = some (merkle l track).1 := by
  induction l, track using merkle.induct with
  | case1 => exact absurd rfl hl
  | case2 only => rw [PromotionTree.rootOf_singleton, merkle]
  | case3 l r rest track level ih =>
    have hup : level.1 = PromotionTree.levelUp innerHash (l :: r :: rest) := foldLevel_fst ..
    rw [merkle, ← PromotionTree.rootOf_levelUp innerHash (by simp), ← hup]
    exact ih (by rw [hup]; simp)

theorem merkle_snd {l : List D} {t : Nat} (ht : t < l.length) :
    (merkle l (some t)).2 = PromotionTree.siblings innerHash l t := by
  induction hn : l.length using Nat.strong_induction_on generalizing l t with
  | _ n ih =>
  subst hn
  match l, ht with
  | [only], ht =>
    rw [PromotionTree.siblings_of_le_one innerHash t (by simp), merkle]
  | l :: r :: rest, ht =>
    have htrack := foldLevel_track (l :: r :: rest) 0 t (by omega) (by simpa using ht)
    have hup := foldLevel_fst (some t) 0 (l :: r :: rest)
    have hlen := PromotionTree.length_levelUp innerHash (l :: r :: rest)
    rw [merkle, PromotionTree.siblings_of_one_lt innerHash t (by simp)]
    simp only [htrack, hup, Nat.mul_zero, Nat.sub_zero]
    rw [ih _ (by simp only [List.length_cons] at hlen ⊢; omega) (by omega) rfl]

/-! ### Preimages are injective -/

section Injective

variable (ideal : Digest.Ideal D)

include ideal

theorem innerHash_inj (a b c d : D) (h : innerHash a b = innerHash c d) : a = c ∧ b = d := by
  have hpre := ideal.injective h
  simp only [List.append_assoc] at hpre
  obtain ⟨hac, hbd⟩ := ideal.delimited trivial trivial (List.append_cancel_left hpre)
  exact ⟨hac, (ideal.delimited.inj trivial trivial hbd)⟩

theorem sectionHash_inj {sec : Section} {count count' : UInt64} {root root' : D}
    (h : sectionHash sec count root = sectionHash sec count' root') :
    count = count' ∧ root = root' := by
  have hpre := ideal.injective h
  simp only [List.append_assoc] at hpre
  replace hpre := List.append_cancel_left (List.append_cancel_left (List.append_cancel_left hpre))
  obtain ⟨hcount, hroot⟩ := SelfDelimiting.beBytes 8 count.toNat_lt count'.toNat_lt hpre
  exact ⟨UInt64.toNat_inj.1 hcount, ideal.delimited.inj trivial trivial hroot⟩

theorem leafHash_inj {sec : Section} {salt salt' : D} {i i' : UInt64}
    {key key' value value' : ByteVec}
    (h : leafHash salt sec i key value = leafHash salt' sec i' key' value') :
    i = i' ∧ key = key' ∧ value = value' := by
  have framed := SelfDelimiting.framed (SelfDelimiting.beBytes 8)
  have hpre := ideal.injective h
  simp only [List.append_assoc] at hpre
  replace hpre := List.append_cancel_left (List.append_cancel_left hpre)
  obtain ⟨-, hpre⟩ := ideal.delimited trivial trivial hpre
  obtain ⟨hi, hpre⟩ := SelfDelimiting.beBytes 8 i.toNat_lt i'.toNat_lt
    (List.append_cancel_left hpre)
  simp only [beLen, ← List.append_assoc] at hpre
  rw [List.append_assoc (_ ++ _), List.append_assoc (_ ++ _)] at hpre
  obtain ⟨hkey, hpre⟩ := framed key.fits key'.fits hpre
  exact ⟨UInt64.toNat_inj.1 hi, ByteVec.ext hkey,
    ByteVec.ext (framed.inj value.fits value'.fits hpre)⟩

end Injective

/-! ### The rows of a section -/

variable (C : Codec) (s : State)

/-- Records under their ids, each with its encoding. -/
def keyedRows {V : Type} (entries : List (Nat × V)) (encoded : V → Except RootError ByteVec) :
    List (ByteVec × Except RootError ByteVec) :=
  entries.map fun e => (idKey e.1, encoded e.2)

/-- **What a section holds**, in order: each key with the encoding of its record. -/
def rows : Section → List (ByteVec × Except RootError ByteVec)
  | .members => keyedRows s.members.toList fun m => encode "member" (C.member m)
  | .contracts => keyedRows s.contracts.toList fun c => encode "contract" (C.contract c)
  | .proposals => keyedRows s.proposals.toList fun p => encode "proposal" (C.proposal p)
  | .validators => keyedRows s.validators.toList fun p => encode "validator" (C.power p)
  | .stakes =>
    keyedRows
      ((stakeKeys s).toList.map fun c => (c, stakeRow s.edges s.reserved s.seatReserved c))
      fun row => encode "stake row" (C.stakeRow row)
  | .replay =>
    keyedRows ((replayWindow s.epoch).map fun e => (e, replayBucket s e))
      fun ids => encode "replay bucket" (C.bucket ids)
  | .ledger => [(emptyKey, encode "ledger" (C.ledger (State.ledgerLeaf s)))]

/-- The ids a keyed section has a row for. -/
def sectionIds : Section → List Nat
  | .members => s.members.keys
  | .contracts => s.contracts.keys
  | .proposals => s.proposals.keys
  | .validators => s.validators.keys
  | .stakes => (stakeKeys s).toList
  | .replay => replayWindow s.epoch
  | .ledger => []

/-- The ids and epochs of a state are machine words, and so are its sections' sizes. -/
structure Fits : Prop where
  ids : ∀ sec, ∀ id ∈ sectionIds s sec, id < 2 ^ 64
  count : ∀ sec, (sectionIds s sec).length < 2 ^ 64

theorem map_fst_keyedRows {V : Type} (entries : List (Nat × V))
    (encoded : V → Except RootError ByteVec) :
    (keyedRows entries encoded).map Prod.fst = (entries.map Prod.fst).map idKey := by
  simp [keyedRows]

theorem map_fst_rows {sec : Section} (h : sec ≠ .ledger) :
    (rows C s sec).map Prod.fst = (sectionIds s sec).map idKey := by
  cases sec with
  | ledger => exact absurd rfl h
  | stakes => rw [rows, map_fst_keyedRows, sectionIds, List.map_map]; simp
  | replay => rw [rows, map_fst_keyedRows, sectionIds, List.map_map]; simp
  | members => rw [rows, map_fst_keyedRows, sectionIds, Std.ExtTreeMap.map_fst_toList_eq_keys]
  | contracts => rw [rows, map_fst_keyedRows, sectionIds, Std.ExtTreeMap.map_fst_toList_eq_keys]
  | proposals => rw [rows, map_fst_keyedRows, sectionIds, Std.ExtTreeMap.map_fst_toList_eq_keys]
  | validators => rw [rows, map_fst_keyedRows, sectionIds, Std.ExtTreeMap.map_fst_toList_eq_keys]

theorem nodup_mapKeys {α : Type} (m : OrdMap Nat α) : m.keys.Nodup := by
  rw [← Std.ExtTreeMap.map_fst_toList_eq_keys]
  exact OrdMap.nodup_keys m

theorem nodup_sectionIds (sec : Section) : (sectionIds s sec).Nodup := by
  cases sec with
  | members => exact nodup_mapKeys s.members
  | contracts => exact nodup_mapKeys s.contracts
  | proposals => exact nodup_mapKeys s.proposals
  | validators => exact nodup_mapKeys s.validators
  | stakes =>
    exact (Std.ExtTreeSet.distinct_toList (t := stakeKeys s)).imp fun h heq =>
      h (by rw [heq, Std.compare_self])
  | replay => exact List.nodup_range.map fun a b h => by simpa using h
  | ledger => exact List.nodup_nil

theorem keyId_idKey {id : Nat} (h : id < 2 ^ 64) : keyId (idKey id) = some id := by
  have hlen : (idKey id).data.length = 8 := length_beBytes 8 id
  have hrev : (idKey id).data.reverse = leBytes 8 id := List.reverse_reverse _
  rw [keyId, if_pos hlen, hrev, leNat_leBytes (by omega)]

variable {C s}

/-- No two rows of a section have one key. -/
theorem nodup_keys_rows (fits : Fits s) (sec : Section) : ((rows C s sec).map Prod.fst).Nodup := by
  by_cases h : sec = .ledger
  · subst h
    exact List.nodup_singleton _
  · rw [map_fst_rows C s h]
    refine (nodup_sectionIds s sec).map_on fun a ha b hb hab => ?_
    have := congrArg keyId hab
    rw [keyId_idKey (fits.ids sec a ha), keyId_idKey (fits.ids sec b hb)] at this
    exact Option.some.inj this

theorem length_rows_lt (fits : Fits s) (sec : Section) : (rows C s sec).length < 2 ^ 64 := by
  by_cases h : sec = .ledger
  · subst h
    norm_num [rows]
  · have := congrArg List.length (map_fst_rows C s h)
    simp only [List.length_map] at this
    rw [this]
    exact fits.count sec

/-! ### Leaves -/

/-- The leaves of a section: each row has encoded, and is hashed at its position. -/
def Hashed (s : State) (sec : Section) (rows : List (ByteVec × Except RootError ByteVec))
    (leaves : Leaves D) : Prop :=
  leaves.length = rows.length ∧ ∀ i key e, rows[i]? = some (key, e) →
    ∃ value, e = .ok value ∧ leaves[i]? = some (key, recordLeaf s sec i key value)

theorem Hashed.keys {sec : Section} {rows : List (ByteVec × Except RootError ByteVec)}
    {leaves : Leaves D} (h : Hashed s sec rows leaves) :
    leaves.map Prod.fst = rows.map Prod.fst := by
  refine List.ext_getElem? fun i => ?_
  rw [List.getElem?_map, List.getElem?_map]
  cases hrow : rows[i]? with
  | none => rw [List.getElem?_eq_none (by rw [h.1]; exact List.getElem?_eq_none_iff.1 hrow)]; rfl
  | some row =>
    obtain ⟨value, -, hleaf⟩ := h.2 i row.1 row.2 hrow
    rw [hleaf]
    rfl

theorem findIdx?_of_nodup {α β : Type} [DecidableEq α] {l : List (α × β)} {i : Nat} {a : α}
    {b : β} (hnodup : (l.map Prod.fst).Nodup) (h : l[i]? = some (a, b)) :
    l.findIdx? (fun e => e.1 = a) = some i := by
  obtain ⟨hi, hib⟩ := List.getElem?_eq_some_iff.1 h
  refine List.findIdx?_eq_some_iff_getElem.2 ⟨hi, by simp [hib], fun j hj heq => ?_⟩
  have hj' : j < (l.map Prod.fst).length := by simp; omega
  have hi' : i < (l.map Prod.fst).length := by simpa using hi
  have hji : (l.map Prod.fst)[j] = (l.map Prod.fst)[i] := by simpa [hib] using heq
  exact absurd (hnodup.getElem_inj_iff.1 hji) (by omega)

theorem recordLeaves_hashed {V : Type} {sec : Section} {entries : List (Nat × V)}
    {encoded : V → Except RootError ByteVec} {leaves : Leaves D}
    (h : recordLeaves s sec entries encoded = .ok leaves) :
    Hashed s sec (keyedRows entries encoded) leaves := by
  obtain ⟨hlen, hget⟩ := mapM_ok h
  refine ⟨by simpa [keyedRows] using hlen, fun i key e he => ?_⟩
  rw [keyedRows, List.getElem?_map] at he
  obtain ⟨⟨id, v⟩, hentry, hrow⟩ := Option.map_eq_some_iff.1 he
  obtain ⟨rfl, rfl⟩ := Prod.mk.inj hrow
  obtain ⟨leaf, hleaf, hout⟩ := hget i ((id, v), i) (by simp [List.getElem?_zipIdx, hentry])
  obtain ⟨value, henc, hleaf⟩ := bind_ok hleaf
  obtain rfl : (idKey id, recordLeaf s sec i (idKey id) value) = leaf := by
    simpa [pure, Except.pure] using hleaf
  exact ⟨value, henc, hout⟩

theorem ledgerLeaf_ok {leaf : ByteVec × D} (h : ledgerLeaf C s = .ok leaf) :
    encode "ledger" (C.ledger (State.ledgerLeaf s)) = .ok leaf.1 ∧
      leaf.2 = recordLeaf s .ledger 0 emptyKey leaf.1 := by
  obtain ⟨value, henc, h⟩ := bind_ok h
  obtain rfl : (value, recordLeaf s .ledger 0 emptyKey value) = leaf := by
    simpa [pure, Except.pure] using h
  exact ⟨henc, rfl⟩

theorem sectionLeaves_hashed {sec : Section} {leaves : Leaves D}
    (h : sectionLeaves C s sec = .ok leaves) : Hashed s sec (rows C s sec) leaves := by
  cases sec with
  | members => exact recordLeaves_hashed (by simpa only [sectionLeaves] using h)
  | contracts => exact recordLeaves_hashed (by simpa only [sectionLeaves] using h)
  | proposals => exact recordLeaves_hashed (by simpa only [sectionLeaves] using h)
  | validators => exact recordLeaves_hashed (by simpa only [sectionLeaves] using h)
  | stakes => exact recordLeaves_hashed (by simpa only [sectionLeaves] using h)
  | replay =>
    simp only [sectionLeaves] at h
    obtain ⟨-, -, h⟩ := bind_ok h
    exact recordLeaves_hashed h
  | ledger =>
    simp only [sectionLeaves] at h
    obtain ⟨leaf, hleaf, h⟩ := bind_ok h
    obtain ⟨henc, hhash⟩ := ledgerLeaf_ok hleaf
    obtain rfl : [(emptyKey, recordLeaf s .ledger 0 emptyKey leaf.1)] = leaves := by
      simpa [pure, Except.pure, hhash] using h
    refine ⟨rfl, fun i key e he => ?_⟩
    rw [rows, henc] at he
    cases i with
    | zero =>
      obtain ⟨rfl, rfl⟩ : emptyKey = key ∧ Except.ok leaf.1 = e := by simpa using he
      exact ⟨leaf.1, rfl, rfl⟩
    | succ i => simp at he

theorem sectionLeaves_of_sections {built : Sections D} (h : sections C s = .ok built)
    (sec : Section) : sectionLeaves C s sec = .ok (built.get sec) := by
  obtain ⟨leaves, hleaves, h⟩ := bind_ok h
  obtain ⟨ledger, -, h⟩ := bind_ok h
  obtain rfl : ({ leaves, ledgerValue := ledger.1 } : Sections D) = built := by
    simpa [pure, Except.pure] using h
  obtain ⟨leaves', hsec, hget⟩ := (mapM_ok hleaves).2 _ _ sec.getElem?_position
  have hbuilt : Sections.get { leaves, ledgerValue := ledger.1 } sec = leaves' := by
    simp [Sections.get, List.getD, hget]
  rw [hbuilt, hsec]

theorem ledgerLeaf_of_sections {built : Sections D} (h : sections C s = .ok built) :
    ∃ leaf : ByteVec × D, ledgerLeaf C s = .ok leaf ∧ leaf.1 = built.ledgerValue := by
  obtain ⟨leaves, -, h⟩ := bind_ok h
  obtain ⟨leaf, hleaf, h⟩ := bind_ok h
  obtain rfl : ({ leaves, ledgerValue := leaf.1 } : Sections D) = built := by
    simpa [pure, Except.pure] using h
  exact ⟨leaf, hleaf, rfl⟩

/-- What the seven sections built are: each the leaves of its rows, and the ledger leaf's
value. -/
theorem sections_ok {built : Sections D} (h : sections C s = .ok built) :
    (∀ sec, Hashed s sec (rows C s sec) (built.get sec)) ∧
      encode "ledger" (C.ledger (State.ledgerLeaf s)) = .ok built.ledgerValue := by
  obtain ⟨leaf, hleaf, hvalue⟩ := ledgerLeaf_of_sections h
  refine ⟨fun sec => sectionLeaves_hashed (sectionLeaves_of_sections h sec), ?_⟩
  rw [← hvalue]
  exact (ledgerLeaf_ok hleaf).1

theorem getElem?_sectionRoots (built : Sections D) (sec : Section) :
    (sectionRoots built)[sec.position]? = some (sectionHash sec
      (UInt64.ofNat (built.get sec).length) (merkle (hashes (built.get sec)) none).1) := by
  rw [sectionRoots, List.getElem?_map, sec.getElem?_position]
  rfl

@[simp] theorem length_sectionRoots (built : Sections D) :
    (sectionRoots built).length = Section.all.length := by
  rw [sectionRoots, List.length_map]

theorem toNat_ofNat_of_lt {n : Nat} (h : n < 2 ^ 64) : (UInt64.ofNat n).toNat = n := by
  rw [UInt64.toNat_ofNat', Nat.mod_eq_of_lt h]

/-- The climb from a section root to the state root, at the shape of the seven sections. -/
theorem foldPath_position (root : D) (sec : Section) (siblings : List D) :
    foldPath root (UInt64.ofNat sec.position) (UInt64.ofNat Section.all.length) siblings =
      PromotionTree.climb innerHash root sec.position Section.all.length siblings := by
  cases sec <;> rfl

theorem verify_iff [DecidableEq D] {root : D} {p : InclusionProof D} :
    verify root p = true ↔
      ∃ leavesRoot, foldPath (leafHash p.leafSalt p.sec p.index p.key p.value) p.index
          p.leafCount p.path = some leavesRoot ∧
        foldPath (sectionHash p.sec p.leafCount leavesRoot) (UInt64.ofNat p.sec.position)
          (UInt64.ofNat Section.all.length) p.sectionPath = some root := by
  simp only [verify]
  cases foldPath (leafHash p.leafSalt p.sec p.index p.key p.value) p.index p.leafCount
      p.path with
  | none => simp
  | some leavesRoot =>
    simp only [Option.some.injEq, exists_eq_left']
    cases foldPath (sectionHash p.sec p.leafCount leavesRoot) (UInt64.ofNat p.sec.position)
        (UInt64.ofNat Section.all.length) p.sectionPath with
    | none => simp
    | some top => simp

/-! ### Soundness -/

theorem verify_sound [DecidableEq D] (ideal : Digest.Ideal D) (fits : Fits s) {root : D}
    (hroot : stateRoot C s = .ok root) {p : InclusionProof D} (hp : verify root p = true) :
    (rows C s p.sec).length = p.leafCount.toNat ∧
      (rows C s p.sec)[p.index.toNat]? = some (p.key, .ok p.value) := by
  obtain ⟨built, hbuilt, hroot⟩ := bind_ok hroot
  obtain rfl : (merkle (sectionRoots built) none).1 = root := by
    simpa [pure, Except.pure] using hroot
  obtain ⟨hlen, hleaf⟩ := (sections_ok hbuilt).1 p.sec
  have hcountlt := length_rows_lt (C := C) fits p.sec
  obtain ⟨leavesRoot, hleaves, htop⟩ := verify_iff.1 hp
  -- the top tree has seven leaves: the climb starts from the root of the named section
  rw [foldPath_position] at htop
  have hne : sectionRoots built ≠ [] := List.ne_nil_of_length_pos (by simp [Section.all])
  have hstart := (PromotionTree.climb_sound innerHash (innerHash_inj ideal)
    (by simpa using p.sec.position_lt) (by rwa [length_sectionRoots]) (merkle_fst hne none)).1
  rw [getElem?_sectionRoots, Option.some.injEq] at hstart
  -- which fixes the count and the root of the leaves
  obtain ⟨hcount, hleavesRoot⟩ := sectionHash_inj ideal hstart
  have hcount : (rows C s p.sec).length = p.leafCount.toNat := by
    rw [← hcount, hlen, toNat_ofNat_of_lt hcountlt]
  refine ⟨hcount, ?_⟩
  -- and with them the shape of the climb below
  unfold foldPath at hleaves
  split_ifs at hleaves with hrange
  have hindex : p.index.toNat < (hashes (built.get p.sec)).length := by
    rw [UInt64.le_iff_toNat_le] at hrange
    rw [hashes, List.length_map, hlen, hcount]
    omega
  have hroot' : PromotionTree.rootOf innerHash (hashes (built.get p.sec)) = some leavesRoot := by
    rw [← hleavesRoot]
    exact merkle_fst (List.ne_nil_of_length_pos (by omega)) none
  have hcount' : p.leafCount.toNat = (hashes (built.get p.sec)).length := by
    rw [← hcount, hashes, List.length_map, hlen]
  rw [hcount'] at hleaves
  have hat := (PromotionTree.climb_sound innerHash (innerHash_inj ideal) hindex hleaves hroot').1
  -- so the leaf it starts from is the leaf of the row at the index
  rw [hashes, List.length_map, hlen] at hindex
  obtain ⟨⟨key, e⟩, hrow⟩ : ∃ row, (rows C s p.sec)[p.index.toNat]? = some row :=
    ⟨_, List.getElem?_eq_getElem hindex⟩
  obtain ⟨value, rfl, hvalue⟩ := hleaf _ _ _ hrow
  rw [hashes, List.getElem?_map, hvalue, Option.map_some, Option.some.injEq] at hat
  obtain ⟨-, rfl, rfl⟩ := leafHash_inj ideal hat
  exact hrow

/-! ### A root exists -/

theorem exists_recordLeaves {V : Type} {sec : Section} {entries : List (Nat × V)}
    {encoded : V → Except RootError ByteVec}
    (h : ∀ row ∈ keyedRows entries encoded, ∃ value, row.2 = .ok value) :
    ∃ leaves : Leaves D, recordLeaves s sec entries encoded = .ok leaves := by
  refine exists_mapM_ok fun e he => ?_
  obtain ⟨value, hvalue⟩ := h (idKey e.1.1, encoded e.1.2)
    (List.mem_map_of_mem (List.fst_mem_of_mem_zipIdx he))
  exact ⟨_, by rw [show encoded e.1.2 = .ok value from hvalue]; rfl⟩

/-- Every record encodes. -/
def Encodes (C : Codec) (s : State) : Prop := ∀ sec, ∀ row ∈ rows C s sec, ∃ value, row.2 = .ok value

theorem exists_ledgerLeaf (h : Encodes C s) :
    ∃ value, ledgerLeaf (D := D) C s = .ok (value, recordLeaf s .ledger 0 emptyKey value) := by
  obtain ⟨value, hvalue⟩ := h .ledger _ (List.mem_singleton_self _)
  refine ⟨value, ?_⟩
  rw [ledgerLeaf, show encode "ledger" _ = .ok value from hvalue]
  rfl

/-- The leaves of a section exist as soon as every record encodes and no bucket of the
replay cache is outside the window. -/
theorem exists_sectionLeaves (hrows : Encodes C s) (hwindow : checkReplayWindow s = .ok ())
    (sec : Section) : ∃ leaves : Leaves D, sectionLeaves C s sec = .ok leaves := by
  have h := hrows sec
  cases sec with
  | ledger =>
    obtain ⟨value, hledger⟩ := exists_ledgerLeaf (D := D) hrows
    simp only [sectionLeaves, hledger]
    exact ⟨_, rfl⟩
  | replay =>
    simp only [sectionLeaves, hwindow]
    rw [rows] at h
    exact exists_recordLeaves h
  | members => rw [rows] at h; exact exists_recordLeaves h
  | contracts => rw [rows] at h; exact exists_recordLeaves h
  | proposals => rw [rows] at h; exact exists_recordLeaves h
  | validators => rw [rows] at h; exact exists_recordLeaves h
  | stakes => rw [rows] at h; exact exists_recordLeaves h

theorem exists_sections (hrows : Encodes C s) (hwindow : checkReplayWindow s = .ok ()) :
    ∃ built : Sections D, sections C s = .ok built := by
  obtain ⟨leaves, hall⟩ := exists_mapM_ok (l := Section.all)
    fun sec _ => exists_sectionLeaves (D := D) hrows hwindow sec
  obtain ⟨value, hledger⟩ := exists_ledgerLeaf (D := D) hrows
  exact ⟨_, by rw [sections, hall, hledger]; rfl⟩

/-- So does the root. -/
theorem exists_stateRoot (hrows : Encodes C s) (hwindow : checkReplayWindow s = .ok ()) :
    ∃ root : D, stateRoot C s = .ok root := by
  obtain ⟨built, hbuilt⟩ := exists_sections (D := D) hrows hwindow
  exact ⟨_, by rw [stateRoot, hbuilt]; rfl⟩

/-! ### Completeness -/

theorem mem_replayWindow {epoch e : Nat} :
    e ∈ replayWindow epoch ↔ epoch ≤ e ∧ e ≤ replayEnd epoch := by
  simp only [replayWindow, List.mem_map, List.mem_range]
  constructor
  · rintro ⟨k, hk, rfl⟩
    omega
  · rintro ⟨hle, hend⟩
    exact ⟨e - epoch, by omega, by omega⟩

theorem mem_stakeKeys {id : Nat} :
    id ∈ (stakeKeys s).toList ↔ holdsAStakeRow s id = true := by
  rw [Std.ExtTreeSet.mem_toList, stakeKeys, OrdSet.mem_foldl_insert]
  simp [holdsAStakeRow, or_assoc]

theorem mem_of_keyedRows {V : Type} {entries : List (Nat × V)}
    {encoded : V → Except RootError ByteVec} {i : Nat} {key : ByteVec}
    {e : Except RootError ByteVec} (h : (keyedRows entries encoded)[i]? = some (key, e)) :
    ∃ id v, (id, v) ∈ entries ∧ key = idKey id ∧ e = encoded v := by
  rw [keyedRows, List.getElem?_map] at h
  obtain ⟨⟨id, v⟩, hentry, hrow⟩ := Option.map_eq_some_iff.1 h
  obtain ⟨rfl, rfl⟩ := Prod.mk.inj hrow
  exact ⟨id, v, List.mem_of_getElem? hentry, rfl, rfl⟩

/-- A row of a map's section is found again under the id that its key spells. -/
theorem lookup_of_row {V : Type} {m : OrdMap Nat V} {f : V → Except RootError ByteVec} {i : Nat}
    {key value : ByteVec} (hids : ∀ id ∈ m.keys, id < 2 ^ 64)
    (h : (keyedRows m.toList f)[i]? = some (key, .ok value)) :
    ∃ id, keyId key = some id ∧ (m[id]?.mapM fun v => f v) = .ok (some value) := by
  obtain ⟨id, v, hmem, rfl, hval⟩ := mem_of_keyedRows h
  have hkey : id ∈ m.keys := by
    rw [← Std.ExtTreeMap.map_fst_toList_eq_keys]
    exact List.mem_map_of_mem hmem
  refine ⟨id, keyId_idKey (hids id hkey), ?_⟩
  rw [OrdMap.mem_toList.1 hmem]
  show some <$> f v = .ok (some value)
  rw [← hval]
  rfl

/-- A row of a keyed section is what its key looks up again. -/
theorem recordValue_of_row (fits : Fits s) {sec : Section} (hsec : sec ≠ .ledger) {i : Nat}
    {key value : ByteVec} (hrow : (rows C s sec)[i]? = some (key, .ok value)) :
    recordValue C s sec key = .ok (some value) := by
  cases sec with
  | ledger => exact absurd rfl hsec
  | members =>
    rw [rows] at hrow
    obtain ⟨id, hid, hval⟩ := lookup_of_row (fits.ids .members) hrow
    simp only [recordValue, hid]
    exact hval
  | contracts =>
    rw [rows] at hrow
    obtain ⟨id, hid, hval⟩ := lookup_of_row (fits.ids .contracts) hrow
    simp only [recordValue, hid]
    exact hval
  | proposals =>
    rw [rows] at hrow
    obtain ⟨id, hid, hval⟩ := lookup_of_row (fits.ids .proposals) hrow
    simp only [recordValue, hid]
    exact hval
  | validators =>
    rw [rows] at hrow
    obtain ⟨id, hid, hval⟩ := lookup_of_row (fits.ids .validators) hrow
    simp only [recordValue, hid]
    exact hval
  | stakes =>
    rw [rows] at hrow
    obtain ⟨id, row, hmem, rfl, hval⟩ := mem_of_keyedRows hrow
    obtain ⟨c, hc, hcrow⟩ := List.mem_map.1 hmem
    obtain ⟨rfl, rfl⟩ := Prod.mk.inj hcrow
    have hid := fits.ids .stakes c hc
    simp only [recordValue, keyId_idKey hid, mem_stakeKeys.1 hc, if_true, ← hval]
    rfl
  | replay =>
    rw [rows] at hrow
    obtain ⟨e, ids, hmem, rfl, hval⟩ := mem_of_keyedRows hrow
    obtain ⟨c, hc, hcrow⟩ := List.mem_map.1 hmem
    obtain ⟨rfl, rfl⟩ := Prod.mk.inj hcrow
    have hid := fits.ids .replay c hc
    simp only [recordValue, keyId_idKey hid, mem_replayWindow.1 hc, and_self, if_true, ← hval]
    rfl

omit [Digest D] in
/-- A row's bytes are what `leafValue` encodes again for its key. -/
theorem leafValue_of_row {built : Sections D} (fits : Fits s)
    (hledger : encode "ledger" (C.ledger (State.ledgerLeaf s)) = .ok built.ledgerValue)
    {sec : Section} {i : Nat} {key value : ByteVec}
    (hrow : (rows C s sec)[i]? = some (key, .ok value)) :
    leafValue C s built sec key = .ok (some value) := by
  by_cases hsec : sec = .ledger
  · subst hsec
    rw [rows, hledger] at hrow
    obtain ⟨rfl, rfl⟩ : emptyKey = key ∧ built.ledgerValue = value := by
      cases i with
      | zero => simpa using hrow
      | succ i => simp at hrow
    rfl
  · rw [leafValue, if_neg hsec]
    exact recordValue_of_row fits hsec hrow

/-- The prover's path folds to the root. -/
theorem foldPath_merkle {l : List D} {i : Nat} {x : D} (hlt : l.length < 2 ^ 64)
    (hx : l[i]? = some x) :
    foldPath x (UInt64.ofNat i) (UInt64.ofNat l.length) (merkle l (some i)).2 =
      some (merkle l none).1 := by
  have hi : i < l.length := (List.getElem?_eq_some_iff.1 hx).1
  have hrange : ¬ UInt64.ofNat l.length ≤ UInt64.ofNat i := by
    rw [UInt64.le_iff_toNat_le, toNat_ofNat_of_lt hlt, toNat_ofNat_of_lt (by omega)]
    omega
  rw [foldPath, if_neg hrange, toNat_ofNat_of_lt hlt, toNat_ofNat_of_lt (by omega), merkle_snd hi,
    PromotionTree.climb_siblings innerHash hx,
    merkle_fst (List.ne_nil_of_length_pos (by omega)) none]

/-- Every row in range has a proof, and it verifies. -/
theorem prove_verifies [DecidableEq D] (fits : Fits s) {root : D}
    (hroot : stateRoot C s = .ok root) {sec : Section} {i : Nat}
    (hi : i < (rows C s sec).length) :
    ∃ (key : ByteVec) (p : InclusionProof D), prove C s sec key = .ok (some p) ∧ p.sec = sec ∧
      p.index.toNat = i ∧ p.key = key ∧ verify root p = true := by
  obtain ⟨built, hbuilt, hroot⟩ := bind_ok hroot
  obtain rfl : (merkle (sectionRoots built) none).1 = root := by
    simpa [pure, Except.pure] using hroot
  obtain ⟨hsections, hledger⟩ := sections_ok hbuilt
  obtain ⟨hlen, hleaf⟩ := hsections sec
  have hcount := length_rows_lt (C := C) fits sec
  obtain ⟨⟨key, e⟩, hrow⟩ : ∃ row, (rows C s sec)[i]? = some row :=
    ⟨_, List.getElem?_eq_getElem hi⟩
  obtain ⟨value, rfl, hget⟩ := hleaf _ _ _ hrow
  -- keys are distinct, so the position found for the key is the row's
  have hfind : (built.get sec).findIdx? (fun e => e.1 = key) = some i :=
    findIdx?_of_nodup (by rw [(hsections sec).keys]; exact nodup_keys_rows fits sec) hget
  have hvalue := leafValue_of_row fits hledger hrow
  refine ⟨key, {
    sec, index := UInt64.ofNat i, leafCount := UInt64.ofNat (built.get sec).length, key, value
    leafSalt := leafSalt s.rootSalt (saltMarker s) sec key (valueDigest value : D)
    path := (merkle (hashes (built.get sec)) (some i)).2
    sectionPath := (merkle (sectionRoots built) (some sec.position)).2 }, ?_, rfl, ?_, rfl,
    verify_iff.2 ⟨(merkle (hashes (built.get sec)) none).1, ?_, ?_⟩⟩
  · rw [prove, hbuilt]
    simp only [hfind, hvalue, bind, Except.bind, pure, Except.pure]
  · exact toNat_ofNat_of_lt (by omega)
  · -- the leaf climbs to the root of its section's leaves
    have hat : (hashes (built.get sec))[i]? = some (recordLeaf s sec i key value) := by
      rw [hashes, List.getElem?_map, hget]
      rfl
    have hlength : (hashes (built.get sec)).length = (built.get sec).length := List.length_map ..
    have := foldPath_merkle (by omega) hat
    rw [hlength] at this
    exact this
  · -- and the section's root to the state root
    have := foldPath_merkle (by simp [Section.all]) (getElem?_sectionRoots built sec)
    rwa [length_sectionRoots] at this

/-- **State proofs are complete and sound.** With an ideal hash, every row of a state in
range has a proof that verifies against the state's root; and whatever verifies against it
names a section, the number of its rows, and the row at its index. -/
theorem stateRoot_proofs [DecidableEq D] (ideal : Digest.Ideal D) (fits : Fits s) {root : D}
    (hroot : stateRoot C s = .ok root) :
    (∀ sec i, i < (rows C s sec).length →
      ∃ (key : ByteVec) (p : InclusionProof D), prove C s sec key = .ok (some p) ∧
        p.sec = sec ∧ p.index.toNat = i ∧ p.key = key ∧ verify root p = true) ∧
    (∀ p : InclusionProof D, verify root p = true →
      (rows C s p.sec).length = p.leafCount.toNat ∧
        (rows C s p.sec)[p.index.toNat]? = some (p.key, .ok p.value)) :=
  ⟨fun _ _ hi => prove_verifies fits hroot hi, fun _ hp => verify_sound ideal fits hroot hp⟩

/-- An ideal hash: a string is its own digest, written with every byte marked and an end. -/
@[reducible] def idealDigest : Digest Bytes where
  sha256 := id
  bytes d := d.flatMap (fun b => [1, b]) ++ [0]

theorem idealDigest_ideal : @Digest.Ideal Bytes idealDigest := by
  refine @Digest.Ideal.mk Bytes idealDigest Function.injective_id ?_
  · intro a b _ _ x y h
    change a.flatMap (fun b => [1, b]) ++ [0] ++ x = b.flatMap (fun b => [1, b]) ++ [0] ++ y at h
    simp only [List.append_assoc, List.singleton_append] at h
    induction a generalizing b with
    | nil =>
      cases b with
      | nil => simpa using h
      | cons c b => simp at h
    | cons c a ih =>
      cases b with
      | nil => simp at h
      | cons d b =>
        simp only [List.flatMap_cons, List.cons_append, List.nil_append, List.cons.injEq,
          true_and] at h
        obtain ⟨rfl, h⟩ := h
        obtain ⟨rfl, rfl⟩ := ih h
        exact ⟨rfl, rfl⟩

end Edet.StateRoot
