import Edet.StateRoot.Cache
import Edet.StateRoot.Inclusion

/-!
# Patching a section

The leaves of a section are a function of a table: which ids hold a record, and its
encoding (`Leafed`). Two lists of leaves over one table are equal (`Leafed.unique`), so a
patch is right as soon as it brings the table up to date.

That is `succeeds_patchKeys`: a patch that comes to its end has rewritten the table at the
keys it was given, and nowhere else, and has named every position that moved. The cases are
those of the code: a leaf found is rewritten where it stands (`Patching.setLeaf`), one that
belongs behind all others is appended (`Patching.pushLeaf`), a key with no record and no
leaf is passed over, and everything else gives the patch up.
-/

namespace Edet.StateRoot

variable {D : Type} [Digest D]

/-! ### Leaves from a table -/

/-- The leaves of a table: those of the ids that hold a value, in order, each hashed from
its value at its position. -/
structure Leafed (s : State) (sec : Section) (table : Nat → Option ByteVec) (ids : List Nat)
    (leaves : Leaves D) : Prop where
  sorted : ids.Pairwise (· < ·)
  words : ∀ id ∈ ids, id < 2 ^ 64
  mem : ∀ id < 2 ^ 64, id ∈ ids ↔ (table id).isSome
  length : leaves.length = ids.length
  leaf : ∀ i id, ids[i]? = some id →
    ∃ value, table id = some value ∧ leaves[i]? = some (idKey id, recordLeaf s sec i (idKey id) value)

theorem idKey_inj {a b : Nat} (ha : a < 2 ^ 64) (hb : b < 2 ^ 64) (h : idKey a = idKey b) :
    a = b := by
  have hkeys := congrArg keyId h
  rw [keyId_idKey ha, keyId_idKey hb] at hkeys
  exact Option.some.inj hkeys

theorem idKey_lt_iff {a b : Nat} (ha : a < 2 ^ 64) (hb : b < 2 ^ 64) :
    (idKey a).data < (idKey b).data ↔ a < b :=
  beBytes_lt_iff (w := 8) (by simpa using ha) (by simpa using hb)

namespace Leafed

variable {s : State} {sec : Section} {table : Nat → Option ByteVec} {ids : List Nat}
  {leaves : Leaves D}

theorem nodup (h : Leafed s sec table ids leaves) : ids.Nodup := h.sorted.imp fun hlt => hlt.ne

theorem keys (h : Leafed s sec table ids leaves) : leaves.map Prod.fst = ids.map idKey := by
  refine List.ext_getElem? fun i => ?_
  rw [List.getElem?_map, List.getElem?_map]
  cases hid : ids[i]? with
  | none =>
    rw [List.getElem?_eq_none_iff, ← h.length, ← List.getElem?_eq_none_iff] at hid
    rw [hid]
    rfl
  | some id =>
    obtain ⟨value, -, hleaf⟩ := h.leaf i id hid
    rw [hleaf]
    rfl

/-- A table has one list of leaves. -/
theorem unique {ids' : List Nat} {leaves' : Leaves D} (h : Leafed s sec table ids leaves)
    (h' : Leafed s sec table ids' leaves') : leaves = leaves' := by
  have hperm : ids.Perm ids' := by
    refine (List.perm_ext_iff_of_nodup h.nodup h'.nodup).2 fun id => ⟨fun hid => ?_, fun hid => ?_⟩
    · exact (h'.mem id (h.words id hid)).2 ((h.mem id (h.words id hid)).1 hid)
    · exact (h.mem id (h'.words id hid)).2 ((h'.mem id (h'.words id hid)).1 hid)
  obtain rfl : ids = ids' :=
    hperm.eq_of_pairwise (fun a b _ _ hab hba => absurd hab (Nat.lt_asymm hba)) h.sorted h'.sorted
  refine List.ext_getElem? fun i => ?_
  cases hid : ids[i]? with
  | none =>
    have hlen := List.getElem?_eq_none_iff.1 hid
    rw [List.getElem?_eq_none (by rw [h.length]; exact hlen),
      List.getElem?_eq_none (by rw [h'.length]; exact hlen)]
  | some id =>
    obtain ⟨value, hvalue, hleaf⟩ := h.leaf i id hid
    obtain ⟨value', hvalue', hleaf'⟩ := h'.leaf i id hid
    obtain rfl := Option.some.inj (hvalue.symm.trans hvalue')
    rw [hleaf, hleaf']

/-- Only the table at machine words matters, and of the state only what salts a leaf. -/
theorem congr {s' : State} {table' : Nat → Option ByteVec} (h : Leafed s sec table ids leaves)
    (hepoch : s'.epoch = s.epoch) (hsalt : s'.rootSalt = s.rootSalt)
    (htable : ∀ id < 2 ^ 64, table' id = table id) : Leafed s' sec table' ids leaves := by
  refine ⟨h.sorted, h.words, fun id hid => by rw [htable id hid]; exact h.mem id hid, h.length,
    fun i id hid => ?_⟩
  obtain ⟨value, hvalue, hleaf⟩ := h.leaf i id hid
  refine ⟨value, by rw [htable id (h.words id (List.mem_of_getElem? hid)), hvalue], ?_⟩
  rw [hleaf, recordLeaf, recordLeaf, saltMarker, saltMarker, hepoch, hsalt]

theorem search_of_mem (h : Leafed s sec table ids leaves) {i id : Nat} (hi : ids[i]? = some id) :
    search leaves (idKey id) = .ok i := by
  obtain ⟨value, -, hleaf⟩ := h.leaf i id hi
  have hnodup : (leaves.map Prod.fst).Nodup := by
    rw [h.keys]
    exact h.nodup.map_on fun a ha b hb hab => idKey_inj (h.words a ha) (h.words b hb) hab
  rw [search, findIdx?_of_nodup hnodup hleaf]

theorem search_of_notMem (h : Leafed s sec table ids leaves) {id : Nat} (hid : id < 2 ^ 64)
    (hmem : id ∉ ids) : ∃ place, search leaves (idKey id) = .error place ∧
      (place = leaves.length → ∀ a ∈ ids, a < id) := by
  have hkey : ∀ e ∈ leaves, ∃ a ∈ ids, e.1 = idKey a := by
    intro e he
    have hfst : e.1 ∈ leaves.map Prod.fst := List.mem_map_of_mem he
    rw [h.keys] at hfst
    obtain ⟨a, ha, heq⟩ := List.mem_map.1 hfst
    exact ⟨a, ha, heq.symm⟩
  have hnone : leaves.findIdx? (fun e => e.1 = idKey id) = none := by
    refine List.findIdx?_eq_none_iff.2 fun e he => decide_eq_false fun heq => hmem ?_
    obtain ⟨a, ha, hea⟩ := hkey e he
    rwa [idKey_inj hid (h.words a ha) (heq.symm.trans hea)]
  refine ⟨_, by rw [search, hnone], fun hcount a ha => ?_⟩
  -- the place is the end: every key is below the one looked for
  have hall := List.countP_eq_length.1 hcount
  have hmemKey : idKey a ∈ leaves.map Prod.fst := by
    rw [h.keys]
    exact List.mem_map_of_mem ha
  obtain ⟨e, he, hea⟩ := List.mem_map.1 hmemKey
  have hlt := of_decide_eq_true (hall e he)
  rw [hea] at hlt
  exact (idKey_lt_iff (h.words a ha) hid).1 hlt

end Leafed

/-! ### The table of a state -/

/-- The value a state holds under an id, where it holds one. -/
def valueOf (C : Codec) (s : State) (sec : Section) (id : Nat) : Option ByteVec :=
  (recordValue C s sec (idKey id)).toOption.join

variable {C : Codec} {s : State}

theorem sorted_mapKeys {α : Type} (m : OrdMap Nat α) : m.keys.Pairwise (· < ·) :=
  (Std.ExtTreeMap.ordered_keys (t := m)).imp fun h => Nat.compare_eq_lt.1 h

theorem sorted_sectionIds (s : State) (sec : Section) : (sectionIds s sec).Pairwise (· < ·) := by
  cases sec with
  | members => exact sorted_mapKeys s.members
  | contracts => exact sorted_mapKeys s.contracts
  | proposals => exact sorted_mapKeys s.proposals
  | validators => exact sorted_mapKeys s.validators
  | stakes =>
    exact (Std.ExtTreeSet.ordered_toList (t := stakeKeys s)).imp fun h => Nat.compare_eq_lt.1 h
  | replay =>
    refine List.pairwise_map.2 ((List.pairwise_lt_range).imp fun h => ?_)
    exact Nat.add_lt_add_left h _
  | ledger => exact List.Pairwise.nil

/-- Only an id of the section has a value. -/
theorem mem_of_valueOf {sec : Section} {id : Nat} (hid : id < 2 ^ 64)
    (h : (valueOf C s sec id).isSome) : id ∈ sectionIds s sec := by
  have hmap : ∀ {V : Type} {m : OrdMap Nat V} {f : V → Except RootError ByteVec},
      ((m[id]?.mapM f).toOption.join).isSome → id ∈ m.keys := by
    intro V m f h
    rw [Std.ExtTreeMap.mem_keys]
    cases hget : m[id]? with
    | none => rw [hget] at h; cases h
    | some v => exact Std.ExtTreeMap.mem_iff_isSome_getElem?.2 (by rw [hget]; rfl)
  unfold valueOf at h
  cases sec with
  | members => simp only [recordValue, keyId_idKey hid] at h; exact hmap h
  | contracts => simp only [recordValue, keyId_idKey hid] at h; exact hmap h
  | proposals => simp only [recordValue, keyId_idKey hid] at h; exact hmap h
  | validators => simp only [recordValue, keyId_idKey hid] at h; exact hmap h
  | stakes =>
    simp only [recordValue, keyId_idKey hid] at h
    split at h
    · next hrow => exact mem_stakeKeys.2 hrow
    · cases h
  | replay =>
    simp only [recordValue, keyId_idKey hid] at h
    split at h
    · next hrange => exact mem_replayWindow.2 hrange
    · cases h
  | ledger => simp only [recordValue] at h; cases h

/-- **A keyed section's leaves are those of the state's table.** -/
theorem leafed_sectionLeaves (fits : Fits s) {sec : Section} (hsec : sec ≠ .ledger)
    {leaves : Leaves D} (h : sectionLeaves C s sec = .ok leaves) :
    Leafed s sec (valueOf C s sec) (sectionIds s sec) leaves := by
  have hhashed := sectionLeaves_hashed h
  have hkeys := map_fst_rows C s hsec
  have hlen : (rows C s sec).length = (sectionIds s sec).length := by
    simpa using congrArg List.length hkeys
  have hleaf : ∀ i id, (sectionIds s sec)[i]? = some id → ∃ value,
      valueOf C s sec id = some value ∧
        leaves[i]? = some (idKey id, recordLeaf s sec i (idKey id) value) := by
    intro i id hid
    have hrow : ((rows C s sec).map Prod.fst)[i]? = some (idKey id) := by
      rw [hkeys, List.getElem?_map, hid]
      rfl
    rw [List.getElem?_map] at hrow
    obtain ⟨⟨key, e⟩, hget, hkey⟩ := Option.map_eq_some_iff.1 hrow
    obtain rfl : key = idKey id := hkey
    obtain ⟨value, rfl, hout⟩ := hhashed.2 i _ _ hget
    refine ⟨value, ?_, hout⟩
    rw [valueOf, recordValue_of_row fits hsec hget]
    rfl
  refine ⟨sorted_sectionIds s sec, fits.ids sec, fun id hid => ⟨fun hmem => ?_, mem_of_valueOf hid⟩,
    by rw [hhashed.1, hlen], hleaf⟩
  obtain ⟨i, hi⟩ := List.getElem?_of_mem hmem
  obtain ⟨value, hvalue, -⟩ := hleaf i id hi
  rw [hvalue]
  rfl

/-- A record encodes, or is not there. -/
theorem recordValue_ok (fits : Fits s) (encodes : Encodes C s) {sec : Section}
    (hsec : sec ≠ .ledger) {id : Nat} (hid : id < 2 ^ 64) :
    recordValue C s sec (idKey id) = .ok (valueOf C s sec id) := by
  by_cases hmem : id ∈ sectionIds s sec
  · obtain ⟨i, hi⟩ := List.getElem?_of_mem hmem
    have hrow : ((rows C s sec).map Prod.fst)[i]? = some (idKey id) := by
      rw [map_fst_rows C s hsec, List.getElem?_map, hi]
      rfl
    rw [List.getElem?_map] at hrow
    obtain ⟨⟨key, e⟩, hget, hkey⟩ := Option.map_eq_some_iff.1 hrow
    obtain rfl : key = idKey id := hkey
    obtain ⟨value, hvalue⟩ := encodes sec _ (List.mem_of_getElem? hget)
    obtain rfl : e = .ok value := hvalue
    rw [valueOf, recordValue_of_row fits hsec hget]
    rfl
  · -- nothing is looked up that is not there
    have hnone : ∀ {V : Type} {m : OrdMap Nat V} {f : V → Except RootError ByteVec}, id ∉ m.keys →
        m[id]?.mapM f = .ok (m[id]?.mapM f).toOption.join := by
      intro V m f hkey
      rw [Std.ExtTreeMap.mem_keys] at hkey
      rw [Std.ExtTreeMap.getElem?_eq_none hkey]
      rfl
    unfold valueOf
    cases sec with
    | members => simp only [recordValue, keyId_idKey hid]; exact hnone hmem
    | contracts => simp only [recordValue, keyId_idKey hid]; exact hnone hmem
    | proposals => simp only [recordValue, keyId_idKey hid]; exact hnone hmem
    | validators => simp only [recordValue, keyId_idKey hid]; exact hnone hmem
    | stakes =>
      simp only [recordValue, keyId_idKey hid]
      rw [if_neg (fun h => hmem (mem_stakeKeys.2 h))]
      rfl
    | replay =>
      simp only [recordValue, keyId_idKey hid]
      rw [if_neg (fun h => hmem (mem_replayWindow.2 h))]
      rfl
    | ledger => exact absurd rfl hsec

/-! ### One key after another -/

/-- A tree under a patch: its leaves are those of a table, its first level is theirs, and
every position where that is not the level `old` any more is dirty. -/
structure Patching (s : State) (sec : Section) (old : List D) (above : List (List D))
    (table : Nat → Option ByteVec) (dirty : List Nat) (tree : SectionTree D) : Prop where
  leafed : ∃ ids, Leafed s sec table ids tree.leaves
  levels : tree.levels = hashes tree.leaves :: above
  named : PromotionTree.Named dirty old (hashes tree.leaves)

namespace Patching

variable {sec : Section} {old : List D} {above : List (List D)} {table : Nat → Option ByteVec}
  {dirty : List Nat} {tree : SectionTree D}

/-- A leaf that is there is rewritten in place. -/
theorem setLeaf {ids : List Nat} (h : Patching s sec old above table dirty tree)
    (hleafed : Leafed s sec table ids tree.leaves) {i id : Nat} (hi : ids[i]? = some id)
    (value : ByteVec) :
    Patching s sec old above (Function.update table id (some value)) (i :: dirty)
      (tree.setLeaf i (recordLeaf s sec i (idKey id) value)) := by
  set hash : D := recordLeaf s sec i (idKey id) value
  have hhashes : hashes (tree.setLeaf i hash).leaves = (hashes tree.leaves).set i hash := by
    refine List.ext_getElem? fun j => ?_
    simp only [hashes, SectionTree.setLeaf, List.getElem?_map, List.getElem?_modify,
      List.getElem?_set, List.length_map]
    by_cases hji : i = j
    · subst hji
      cases hj : tree.leaves[i]? with
      | none => rw [List.getElem?_eq_none_iff] at hj; simp [hj]
      | some e => simp [(List.getElem?_eq_some_iff.1 hj).1]
    · simp [hji]
  refine ⟨⟨ids, hleafed.sorted, hleafed.words, fun a ha => ?_, ?_, fun j a hj => ?_⟩, ?_, ?_⟩
  · by_cases haid : a = id
    · subst haid
      simp [List.mem_of_getElem? hi]
    · rw [Function.update_of_ne haid]
      exact hleafed.mem a ha
  · rw [SectionTree.setLeaf, List.length_modify, hleafed.length]
  · obtain ⟨v, hv, hleaf⟩ := hleafed.leaf j a hj
    by_cases hji : i = j
    · subst hji
      obtain rfl := Option.some.inj (hi.symm.trans hj)
      refine ⟨value, Function.update_self .., ?_⟩
      simp [SectionTree.setLeaf, hleaf, hash]
    · have haid : a ≠ id := by
        rintro rfl
        obtain ⟨hilt, hia⟩ := List.getElem?_eq_some_iff.1 hi
        obtain ⟨hjlt, hja⟩ := List.getElem?_eq_some_iff.1 hj
        exact hji (hleafed.nodup.getElem_inj_iff.1 (hia.trans hja.symm))
      refine ⟨v, by rw [Function.update_of_ne haid, hv], ?_⟩
      simp [SectionTree.setLeaf, hleaf, hji]
  · rw [hhashes, SectionTree.setLeaf, h.levels]
    rfl
  · rw [hhashes]
    refine ⟨by simpa using h.named.length, fun j hj => ?_⟩
    rw [List.length_set] at hj
    by_cases hji : i = j
    · exact .inl (by simp [hji])
    · rw [List.getElem?_set_ne hji]
      exact (h.named.named j hj).imp_left (List.mem_cons_of_mem _)

/-- A leaf behind all others is appended. -/
theorem pushLeaf {ids : List Nat} (h : Patching s sec old above table dirty tree)
    (hleafed : Leafed s sec table ids tree.leaves) {id : Nat} (hid : id < 2 ^ 64)
    (hlast : ∀ a ∈ ids, a < id) (value : ByteVec) :
    Patching s sec old above (Function.update table id (some value))
      (tree.leaves.length :: dirty)
      (tree.pushLeaf (idKey id) (recordLeaf s sec tree.leaves.length (idKey id) value)) := by
  set hash : D := recordLeaf s sec tree.leaves.length (idKey id) value
  have hhashes : hashes (tree.pushLeaf (idKey id) hash).leaves = hashes tree.leaves ++ [hash] := by
    simp [hashes, SectionTree.pushLeaf]
  have hlenHashes : (hashes tree.leaves).length = tree.leaves.length := List.length_map ..
  have hne : ∀ a ∈ ids, a ≠ id := fun a ha => (hlast a ha).ne
  refine ⟨⟨ids ++ [id], ?_, ?_, fun a ha => ?_, ?_, fun j a hj => ?_⟩, ?_, ?_⟩
  · refine List.pairwise_append.2 ⟨hleafed.sorted, List.pairwise_singleton .., fun a ha b hb => ?_⟩
    rw [List.mem_singleton.1 hb]
    exact hlast a ha
  · intro a ha
    rcases List.mem_append.1 ha with ha | ha
    · exact hleafed.words a ha
    · rw [List.mem_singleton.1 ha]
      exact hid
  · by_cases haid : a = id
    · subst haid
      simp
    · rw [Function.update_of_ne haid, List.mem_append, List.mem_singleton]
      simpa [haid] using hleafed.mem a ha
  · simp [SectionTree.pushLeaf, hleafed.length]
  · rcases Nat.lt_or_ge j ids.length with hlt | hge
    · rw [List.getElem?_append_left hlt] at hj
      obtain ⟨v, hv, hleaf⟩ := hleafed.leaf j a hj
      refine ⟨v, by rw [Function.update_of_ne (hne a (List.mem_of_getElem? hj)), hv], ?_⟩
      rw [SectionTree.pushLeaf, List.getElem?_append_left (by rw [hleafed.length]; exact hlt), hleaf]
    · have hjlen : j = ids.length := by
        have := (List.getElem?_eq_some_iff.1 hj).1
        simp only [List.length_append, List.length_singleton] at this
        omega
      subst hjlen
      obtain rfl : id = a := by simpa using hj
      refine ⟨value, Function.update_self .., ?_⟩
      simp [SectionTree.pushLeaf, ← hleafed.length, hash]
  · rw [hhashes, SectionTree.pushLeaf, h.levels]
    rfl
  · have hold := h.named.length
    rw [hhashes]
    refine ⟨by rw [List.length_append]; omega, fun j hj => ?_⟩
    rw [List.length_append, List.length_singleton] at hj
    by_cases hjlen : j = tree.leaves.length
    · exact .inl (by simp [hjlen])
    · have hlt : j < (hashes tree.leaves).length := by omega
      rw [List.getElem?_append_left hlt]
      exact (h.named.named j hlt).imp_left (List.mem_cons_of_mem _)

end Patching

/-- **A patch rewrites the table at its keys**, if it comes to its end. -/
theorem succeeds_patchKeys (fits : Fits s) (encodes : Encodes C s) {sec : Section}
    (hsec : sec ≠ .ledger) {old : List D} {above : List (List D)} (keys : List Nat)
    (hkeys : ∀ id ∈ keys, id < 2 ^ 64) {table : Nat → Option ByteVec} {dirty : List Nat}
    {tree : SectionTree D} (h : Patching s sec old above table dirty tree) :
    Op.Succeeds (patchKeys C s sec (keys.map idKey) dirty) tree fun out tree' =>
      ∀ dirty', out = some dirty' → Patching s sec old above
        (fun id => if id ∈ keys then valueOf C s sec id else table id) dirty' tree' := by
  induction keys generalizing table dirty tree with
  | nil =>
    refine .pure fun dirty' hout => ?_
    obtain rfl := Option.some.inj hout
    simpa using h
  | cons id keys ih =>
    have hid : id < 2 ^ 64 := hkeys id List.mem_cons_self
    have hrest : ∀ a ∈ keys, a < 2 ^ 64 := fun a ha => hkeys a (List.mem_cons_of_mem _ ha)
    obtain ⟨ids, hleafed⟩ := h.leafed
    -- what is patched on from a table that is right at `id`
    have hgo : ∀ {t : SectionTree D} {d : List Nat} {table' : Nat → Option ByteVec},
        table' id = valueOf C s sec id → (∀ a, a ≠ id → table' a = table a) →
        Patching s sec old above table' d t →
        Op.Succeeds (patchKeys C s sec (keys.map idKey) d) t fun out tree' =>
          ∀ dirty', out = some dirty' → Patching s sec old above
            (fun a => if a ∈ id :: keys then valueOf C s sec a else table a) dirty' tree' := by
      intro t d table' hat hoff hp
      refine (ih hrest hp).weaken fun out t' hout dirty' hd => ?_
      have htable : (fun a => if a ∈ id :: keys then valueOf C s sec a else table a) =
          fun a => if a ∈ keys then valueOf C s sec a else table' a := by
        funext a
        by_cases ha : a = id
        · subst ha
          simp [hat]
        · simp [ha, hoff a ha]
      rw [htable]
      exact hout dirty' hd
    rw [List.map_cons, patchKeys]
    refine .bind_check (recordValue_ok fits encodes hsec hid) (.bind_ask (.bind_ask ?_))
    cases hvalue : valueOf C s sec id with
    | some value =>
      by_cases hmem : id ∈ ids
      · obtain ⟨i, hi⟩ := List.getElem?_of_mem hmem
        rw [hleafed.search_of_mem hi]
        refine .bind_write (hgo ?_ (fun a ha => ?_) (h.setLeaf hleafed hi value))
        · rw [Function.update_self, hvalue]
        · rw [Function.update_of_ne ha]
      · obtain ⟨place, hplace, hlast⟩ := hleafed.search_of_notMem hid hmem
        rw [hplace]
        refine .ite (fun hend => ?_) fun _ => .pure fun _ hout => by cases hout
        subst hend
        refine .bind_write (hgo ?_ (fun a ha => ?_) (h.pushLeaf hleafed hid (hlast rfl) value))
        · rw [Function.update_self, hvalue]
        · rw [Function.update_of_ne ha]
    | none =>
      by_cases hmem : id ∈ ids
      · obtain ⟨i, hi⟩ := List.getElem?_of_mem hmem
        rw [hleafed.search_of_mem hi]
        exact .pure fun _ hout => by cases hout
      · obtain ⟨place, hplace, -⟩ := hleafed.search_of_notMem hid hmem
        rw [hplace]
        refine hgo ?_ (fun _ _ => rfl) h
        rw [hvalue]
        exact Option.not_isSome_iff_eq_none.1 fun hsome => hmem ((hleafed.mem id hid).2 hsome)

end Edet.StateRoot
