import Edet.StateRoot.Refreshing

/-!
# A section tree after its tail has moved

Leaves come at the tail of a section and may go from it. `SectionTree.refold` folds up again
from the positions it is told; what it needs to be told is every position whose leaf is another
one now and, if leaves were cut off, the one that is the last now (`PromotionTree.Marked`): its
node may have lost a child, and nothing else about the level above says so. The replica never
relies on the second part, since a leaf that is gone makes it build the section again.

Under that condition the tree is the one that building it from the new leaves yields, and the
path read off it proves its leaf at its index and nothing else anywhere
(`refold_eq_built`): a leaf is hashed with its position, so no two leaves of a section are the
same, and a path of siblings belongs to one position (`PromotionTree.siblings_inj`).
-/

namespace Edet.StateRoot

variable {D : Type} [Digest D]

/-- The leaves of a section, each hashed at its position. -/
def Positioned (sec : Section) (leaves : Leaves D) : Prop :=
  ∀ i e, leaves[i]? = some e → ∃ (salt : D) (value : ByteVec),
    e.2 = leafHash salt sec (UInt64.ofNat i) e.1 value

theorem Positioned.nodup (ideal : Digest.Ideal D) {sec : Section} {leaves : Leaves D}
    (h : Positioned sec leaves) (hlt : leaves.length < 2 ^ 64) : (hashes leaves).Nodup := by
  refine List.nodup_iff_getElem?_ne_getElem?.2 fun i j hij hj heq => ?_
  rw [hashes, List.length_map] at hj
  have hei : leaves[i]? = some leaves[i] := List.getElem?_eq_getElem (by omega)
  have hej : leaves[j]? = some leaves[j] := List.getElem?_eq_getElem hj
  obtain ⟨salt, value, hhash⟩ := h i _ hei
  obtain ⟨salt', value', hhash'⟩ := h j _ hej
  rw [hashes, List.getElem?_map, List.getElem?_map, hei, hej, Option.map_some, Option.map_some,
    Option.some.injEq, hhash, hhash'] at heq
  have hindex := congrArg UInt64.toNat (leafHash_inj ideal heq).1
  rw [toNat_ofNat_of_lt (by omega), toNat_ofNat_of_lt (by omega)] at hindex
  omega

/-- A path of the built tree, at the root of its leaves: it proves its leaf, at its index. -/
theorem foldPath_built (ideal : Digest.Ideal D) {sec : Section} {leaves : Leaves D}
    (h : Positioned sec leaves) (hlt : leaves.length < 2 ^ 64) {index : Nat}
    (hindex : index < leaves.length) (x : D) (i : UInt64) :
    foldPath x i (UInt64.ofNat leaves.length) ((SectionTree.built sec leaves).path index) =
        some (leavesRoot (SectionTree.built sec leaves).levels) ↔
      i.toNat = index ∧ (hashes leaves)[index]? = some x := by
  have hlen : (hashes leaves).length = leaves.length := List.length_map ..
  have hne : hashes leaves ≠ [] := List.ne_nil_of_length_pos (by omega)
  have hroot : PromotionTree.rootOf innerHash (hashes leaves) =
      some (leavesRoot (SectionTree.built sec leaves).levels) := by
    rw [show leavesRoot (SectionTree.built sec leaves).levels = _ from leavesRoot_levels _,
      merkle_fst hne none]
  have hpath : (SectionTree.built sec leaves).path index =
      PromotionTree.siblings innerHash (hashes leaves) index :=
    PromotionTree.siblingsOf_levels innerHash _ _
  rw [hpath]
  constructor
  · intro hfold
    by_cases hrange : UInt64.ofNat leaves.length ≤ i
    · rw [foldPath, if_pos hrange] at hfold
      cases hfold
    rw [foldPath, if_neg hrange, toNat_ofNat_of_lt hlt, ← hlen] at hfold
    rw [UInt64.le_iff_toNat_le, toNat_ofNat_of_lt hlt, Nat.not_le] at hrange
    -- what climbs from `i` is leaf `i`, with its siblings, which are those of no other
    obtain ⟨hx, hsiblings⟩ := PromotionTree.climb_sound innerHash (innerHash_inj ideal)
      (by omega) hfold hroot
    have heq := PromotionTree.siblings_inj innerHash (h.nodup ideal hlt) (by omega) (by omega)
      hsiblings
    exact ⟨heq.symm, heq ▸ hx⟩
  · rintro ⟨rfl, hx⟩
    have hrange : ¬UInt64.ofNat leaves.length ≤ i := by
      rw [UInt64.le_iff_toNat_le, toNat_ofNat_of_lt hlt]
      omega
    rw [foldPath, if_neg hrange, toNat_ofNat_of_lt hlt, ← hlen,
      PromotionTree.climb_siblings innerHash hx, hroot]

namespace SectionTree

/-- A tree with other leaves, before anything above them is folded again. -/
def withLeaves (leaves : Leaves D) (tree : SectionTree D) : SectionTree D :=
  { tree with leaves, levels := hashes leaves :: tree.levels.tail }

/-- Folding up again from the marked positions is building again. -/
theorem refold_withLeaves [Inhabited D] (sec : Section) {old new : Leaves D} {dirty : List Nat}
    (h : PromotionTree.Marked dirty (hashes old) (hashes new)) :
    ((built sec old).withLeaves new).refold sec dirty = built sec new := by
  have hlevels : PromotionTree.refold innerHash default
      (((built sec old).withLeaves new).levels.headD [])
      ((built sec old).withLeaves new).levels.tail dirty =
        PromotionTree.levels innerHash (hashes new) := PromotionTree.refold_marked default h
  rw [refold, hlevels]
  rfl

end SectionTree

/-- Leaves moved at a section's tail, and the positions a refold is told of: some of those there
are, with every one whose leaf is another and, after a cut, the last. -/
structure TailMoved (sec : Section) (dirty : List Nat) (old new : Leaves D) : Prop where
  positioned : Positioned sec new
  fits : new.length < 2 ^ 64
  inside : ∀ i ∈ dirty, i < new.length
  marked : PromotionTree.Marked dirty (hashes old) (hashes new)

/-- **Patching is building, and paths prove.** The refolded tree is the one built from the new
leaves, level by level; and what folds along the path it returns for an index, to the root of its
leaves, is the leaf of that index, at that index. -/
theorem refold_eq_built [Inhabited D] (ideal : Digest.Ideal D) {sec : Section} {dirty : List Nat}
    {old new : Leaves D} (h : TailMoved sec dirty old new) :
    ((SectionTree.built sec old).withLeaves new).refold sec dirty = .built sec new ∧
      ∀ index < new.length, ∀ (x : D) (i : UInt64),
        let tree := ((SectionTree.built sec old).withLeaves new).refold sec dirty
        foldPath x i (UInt64.ofNat new.length) (tree.path index) = some (leavesRoot tree.levels) ↔
          i.toNat = index ∧ (hashes new)[index]? = some x := by
  have hbuilt := SectionTree.refold_withLeaves sec h.marked
  refine ⟨hbuilt, fun index hindex x i => ?_⟩
  rw [hbuilt]
  exact foldPath_built ideal h.positioned h.fits hindex x i

/-- Leaves of the first members, each hashed at its position with its key for a value. -/
def sampleLeaves (count : Nat) : Leaves Bytes :=
  let _ := idealDigest
  (List.range count).map fun i =>
    (idKey i, leafHash [] .members (UInt64.ofNat i) (idKey i) (idKey i))

theorem positioned_sampleLeaves (count : Nat) :
    @Positioned Bytes idealDigest .members (sampleLeaves count) := by
  intro i e he
  rw [sampleLeaves, List.getElem?_map] at he
  obtain ⟨j, hj, rfl⟩ := Option.map_eq_some_iff.1 he
  obtain ⟨hlt, hget⟩ := List.getElem?_eq_some_iff.1 hj
  rw [List.getElem_range] at hget
  subst hget
  exact ⟨[], idKey i, rfl⟩

/-- With two of five leaves cut off, the last that is left is marked. -/
theorem refold_eq_built_cut :
    @SectionTree.refold Bytes idealDigest _ .members [2]
      ((@SectionTree.built Bytes idealDigest .members (sampleLeaves 5)).withLeaves
        (sampleLeaves 3)) =
        @SectionTree.built Bytes idealDigest .members (sampleLeaves 3) := by
  let _ := idealDigest
  refine (@refold_eq_built Bytes idealDigest _ idealDigest_ideal .members [2] (sampleLeaves 5)
    (sampleLeaves 3) ⟨positioned_sampleLeaves 3, ?_, ?_, ?_, ?_⟩).1
  · simp [sampleLeaves]
  · simp [sampleLeaves]
  · rintro i hi
    right
    have : i = 0 ∨ i = 1 ∨ i = 2 := by
      simp [sampleLeaves, hashes] at hi
      omega
    obtain rfl | rfl | rfl := this <;> rfl
  · exact fun _ => .inr (by simp [sampleLeaves, hashes])

/-- **A cut has to be marked**: with the last of four leaves cut off and none of the others changed,
nothing is dirty, and the node that stood above the pair stays. -/
theorem refold_cut_stale :
    sampleLeaves 3 = (sampleLeaves 4).take 3 ∧
      @SectionTree.refold Bytes idealDigest _ .members []
        ((@SectionTree.built Bytes idealDigest .members (sampleLeaves 4)).withLeaves
          (sampleLeaves 3)) ≠
          @SectionTree.built Bytes idealDigest .members (sampleLeaves 3) := by
  refine ⟨rfl, fun h => ?_⟩
  let _ := idealDigest
  obtain ⟨a, b, c, d, hfour, hthree⟩ : ∃ a b c d : Bytes,
      hashes (sampleLeaves 4) = [a, b, c, d] ∧ hashes (sampleLeaves 3) = [a, b, c] :=
    ⟨_, _, _, _, rfl, rfl⟩
  -- the second level: repaired nowhere on the one side, built on the other
  have hkept : (PromotionTree.levels innerHash (hashes (sampleLeaves 4))).tail.headD [] =
      [innerHash a b, innerHash c d] := by
    rw [hfour, PromotionTree.levels_of_one_lt innerHash (by simp), List.tail_cons,
      PromotionTree.headD_levels]
    rfl
  have hnew : (PromotionTree.levels innerHash (hashes (sampleLeaves 3))).tail.headD [] =
      [innerHash a b, c] := by
    rw [hthree, PromotionTree.levels_of_one_lt innerHash (by simp), List.tail_cons,
      PromotionTree.headD_levels]
    rfl
  have hlevel : (PromotionTree.refold innerHash default (hashes (sampleLeaves 3))
      (PromotionTree.levels innerHash (hashes (sampleLeaves 4))).tail []).tail.headD [] =
        (PromotionTree.levels innerHash (hashes (sampleLeaves 3))).tail.headD [] :=
    congrArg (fun tree : SectionTree Bytes => tree.levels.tail.headD []) h
  rw [PromotionTree.refold, if_pos (by rw [hthree]; simp), List.tail_cons,
    PromotionTree.headD_refold, hnew, hkept, hthree] at hlevel
  have hnode : innerHash c d = c := by simpa [PromotionTree.repair, PromotionTree.resize,
    PromotionTree.dirtyAbove] using hlevel
  have hlonger : c.length < (innerHash c d).length := by
    show c.length < ([innerPrefix] ++ (c.flatMap (fun b => [1, b]) ++ [0]) ++
      (d.flatMap (fun b => [1, b]) ++ [0])).length
    simp only [List.length_append, List.length_flatMap, List.length_cons, List.length_nil,
      List.map_const', List.sum_replicate, smul_eq_mul]
    omega
  rw [hnode] at hlonger
  exact absurd hlonger (Nat.lt_irrefl _)

end Edet.StateRoot
