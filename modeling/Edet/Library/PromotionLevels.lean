import Edet.Library.PromotionTree

/-!
# Keeping a promotion tree

`levels inner l` is the whole promotion tree over the leaves `l`, level by level. Kept, it
answers without hashing: `topOf` reads the root off it and `siblingsOf` the siblings of a
leaf.

When some leaves are rewritten and others appended or cut off, `refold` repairs the kept
levels from the **dirty** positions up: only the nodes above a dirty one are hashed again.
The theorem is `refold_marked`: where every position that moved is dirty, and the last one
too if any were cut off (`Marked`), the repaired levels are those of the new leaves. It is
proved level by level: one level up, the halves of the dirty positions name all that moved
there, and the end of the level if it is shorter now.
-/

namespace Edet.PromotionTree

variable {D : Type} (inner : D → D → D)

/-! ### The levels of a tree -/

/-- All levels of the tree over some leaves, the leaves first. -/
def levels (l : List D) : List (List D) :=
  if 1 < l.length then l :: levels (levelUp inner l) else [l]
termination_by l.length
decreasing_by
  rw [length_levelUp]
  omega

theorem levels_of_one_lt {l : List D} (h : 1 < l.length) :
    levels inner l = l :: levels inner (levelUp inner l) := by
  rw [levels, if_pos h]

theorem levels_of_le_one {l : List D} (h : l.length ≤ 1) : levels inner l = [l] := by
  rw [levels, if_neg (by omega)]

theorem headD_levels (l : List D) : (levels inner l).headD [] = l := by
  rw [levels]
  split <;> rfl

theorem levels_eq_cons (l : List D) : levels inner l = l :: (levels inner l).tail := by
  rw [levels]
  split <;> rfl

/-- The root, read off the last level. -/
def topOf (kept : List (List D)) : Option D := kept.getLast?.bind List.head?

theorem topOf_levels (l : List D) : topOf (levels inner l) = rootOf inner l := by
  induction hn : l.length using Nat.strong_induction_on generalizing l with
  | _ n ih =>
  subst hn
  rcases Nat.lt_or_ge 1 l.length with hm | hm
  · have hup := length_levelUp inner l
    have hne : levels inner (levelUp inner l) ≠ [] := by
      rw [levels_eq_cons]
      exact List.cons_ne_nil _ _
    rw [← rootOf_levelUp inner hm, ← ih _ (by omega) (levelUp inner l) rfl, topOf, topOf,
      levels_of_one_lt inner hm, List.getLast?_cons, List.getLast?_eq_some_getLast hne]
    rfl
  · rw [levels_of_le_one inner hm]
    match l, hm with
    | [], _ => rw [rootOf_nil]; rfl
    | [only], _ => rw [rootOf_singleton]; rfl

/-- The siblings of a leaf, read off the levels. -/
def siblingsOf : List (List D) → Nat → List D
  | [], _ => []
  | level :: above, t =>
    if 1 < level.length then (siblingAt level t).toList ++ siblingsOf above (t / 2) else []

theorem siblingsOf_levels (l : List D) (t : Nat) :
    siblingsOf (levels inner l) t = siblings inner l t := by
  induction hn : l.length using Nat.strong_induction_on generalizing l t with
  | _ n ih =>
  subst hn
  have hup := length_levelUp inner l
  rcases Nat.lt_or_ge 1 l.length with hm | hm
  · rw [levels_of_one_lt inner hm, siblingsOf, if_pos hm, siblings_of_one_lt inner t hm,
      ih _ (by omega) _ _ rfl]
  · rw [levels_of_le_one inner hm, siblingsOf, if_neg (by omega), siblings_of_le_one inner t hm]

/-! ### Repairing one level -/

/-- What stands above position `j` of a pair of neighbours, or of a last digest. -/
def nodeAbove (src : List D) (j : Nat) : Option D :=
  match src[2 * j]?, src[2 * j + 1]? with
  | some l, some r => some (inner l r)
  | some l, none => some l
  | none, _ => none

theorem getElem?_levelUp (l : List D) (j : Nat) : (levelUp inner l)[j]? = nodeAbove inner l j := by
  have hup := length_levelUp inner l
  cases hl : l[2 * j]? with
  | none =>
    have hle := List.getElem?_eq_none_iff.1 hl
    rw [List.getElem?_eq_none (by omega), nodeAbove, hl]
  | some a =>
    cases hr : l[2 * j + 1]? with
    | some b => rw [getElem?_levelUp_pair inner hl hr, nodeAbove, hl, hr]
    | none =>
      have hlt := (List.getElem?_eq_some_iff.1 hl).1
      have hle := List.getElem?_eq_none_iff.1 hr
      rw [getElem?_levelUp_last inner hl (by omega), nodeAbove, hl, hr]

/-- Hash one node again from the level below. -/
def repairAt (src dst : List D) (j : Nat) : List D := (nodeAbove inner src j).elim dst (dst.set j)

/-- Hash the nodes at some positions again. -/
def repair (src dst : List D) (dirty : List Nat) : List D := dirty.foldl (repairAt inner src) dst

@[simp] theorem length_repairAt (src dst : List D) (j : Nat) :
    (repairAt inner src dst j).length = dst.length := by
  unfold repairAt
  cases nodeAbove inner src j <;> simp

@[simp] theorem length_repair (src dst : List D) (dirty : List Nat) :
    (repair inner src dst dirty).length = dst.length := by
  induction dirty generalizing dst with
  | nil => rfl
  | cons j dirty ih => rw [repair, List.foldl_cons, ← repair, ih, length_repairAt]

/-- A level whose wrong nodes are all named is repaired. -/
theorem repair_eq {src dst : List D} {dirty : List Nat}
    (hlen : dst.length = (levelUp inner src).length)
    (hnamed : ∀ j < dst.length, j ∈ dirty ∨ dst[j]? = (levelUp inner src)[j]?) :
    repair inner src dst dirty = levelUp inner src := by
  induction dirty generalizing dst with
  | nil =>
    refine List.ext_getElem? fun j => ?_
    show dst[j]? = _
    by_cases hj : j < dst.length
    · simpa using hnamed j hj
    · rw [List.getElem?_eq_none (by omega), List.getElem?_eq_none (by omega)]
  | cons d dirty ih =>
    rw [repair, List.foldl_cons]
    refine ih (by rwa [length_repairAt]) fun j hj => ?_
    rw [length_repairAt] at hj
    by_cases hjd : j = d
    · -- the node just hashed is right
      subst hjd
      have hup : (levelUp inner src)[j]? = nodeAbove inner src j := getElem?_levelUp inner src j
      refine .inr ?_
      rw [hup, repairAt]
      cases hnode : nodeAbove inner src j with
      | none =>
        rw [hnode, List.getElem?_eq_none_iff] at hup
        omega
      | some x => simp [hj]
    · have hsame : (repairAt inner src dst d)[j]? = dst[j]? := by
        unfold repairAt
        cases nodeAbove inner src d with
        | none => rfl
        | some x => simp [Ne.symm hjd]
      rw [hsame]
      simpa [hjd] using hnamed j hj

/-! ### Repairing a tree -/

/-- A list cut or filled up to a length. -/
def resize (l : List D) (n : Nat) (fill : D) : List D :=
  l.take n ++ List.replicate (n - l.length) fill

@[simp] theorem length_resize (l : List D) (n : Nat) (fill : D) : (resize l n fill).length = n := by
  simp only [resize, List.length_append, List.length_take, List.length_replicate]
  omega

theorem getElem?_resize {l : List D} {n j : Nat} (fill : D) (hj : j < l.length) (hn : j < n) :
    (resize l n fill)[j]? = l[j]? := by
  rw [resize, List.getElem?_append_left (by rw [List.length_take]; omega),
    List.getElem?_take_of_lt hn]

/-- The positions a level up that may have moved: those above a dirty one, and the end of a
level that has another length now. -/
def dirtyAbove (dirty : List Nat) (was want : Nat) : List Nat :=
  dirty.map (· / 2) ++ if was = want then [] else List.range' (was - 1) (want - (was - 1))

/-- **Repair the kept levels** over some leaves, from the dirty positions up: `above` are
the levels kept above, as many of them as there are. -/
def refold (fill : D) (level : List D) (above : List (List D)) (dirty : List Nat) :
    List (List D) :=
  if 1 < level.length then
    let want := (level.length + 1) / 2
    let was := above.headD []
    let next := dirtyAbove dirty was.length want
    level :: refold fill (repair inner level (resize was want fill) next) above.tail next
  else [level]
termination_by level.length
decreasing_by
  rw [length_repair, length_resize]
  omega

theorem headD_refold (fill : D) (level : List D) (above : List (List D)) (dirty : List Nat) :
    (refold inner fill level above dirty).headD [] = level := by
  rw [refold]
  split <;> rfl

/-- The new level is the old one with positions rewritten and others appended or cut off at the
end: every position that moved is dirty, and so is the last one where some were cut off. -/
structure Marked (dirty : List Nat) (old new : List D) : Prop where
  named : ∀ i < new.length, i ∈ dirty ∨ new[i]? = old[i]?
  cut : new.length < old.length → new = [] ∨ new.length - 1 ∈ dirty

/-- The new level is the old one with positions rewritten and others appended, and every
position that moved is dirty. -/
structure Named (dirty : List Nat) (old new : List D) : Prop where
  length : old.length ≤ new.length
  named : ∀ i < new.length, i ∈ dirty ∨ new[i]? = old[i]?

theorem Named.marked {dirty : List Nat} {old new : List D} (h : Named dirty old new) :
    Marked dirty old new := ⟨h.named, fun hcut => absurd h.length (Nat.not_le.2 hcut)⟩

variable {inner}

/-- Above a pair that has not moved stands what stood there. -/
theorem Marked.nodeAbove {dirty : List Nat} {old new : List D} (h : Marked dirty old new) {j : Nat}
    (hlt : 2 * j < new.length) (hj : j ∉ dirty.map (· / 2)) :
    nodeAbove inner new j = nodeAbove inner old j := by
  have hkept : ∀ i, i / 2 = j → new[i]? = old[i]? := by
    intro i hi
    by_cases hin : i < new.length
    · refine (h.named i hin).resolve_left fun hmem => hj ?_
      exact List.mem_map.2 ⟨i, hmem, hi⟩
    · -- behind the end: had there been a digest, the last one, its neighbour, would be dirty
      rw [List.getElem?_eq_none (by omega), List.getElem?_eq_none]
      by_contra hold
      rcases h.cut (by omega) with rfl | hlast
      · simp at hlt
      · exact hj (List.mem_map.2 ⟨new.length - 1, hlast, by omega⟩)
  rw [PromotionTree.nodeAbove, PromotionTree.nodeAbove, hkept (2 * j) (by omega),
    hkept (2 * j + 1) (by omega)]

/-- One level up, of a tree that was kept above `old` or of none. -/
theorem Marked.up {dirty : List Nat} {old new was : List D} (h : Marked dirty old new)
    (hwas : was = levelUp inner old ∨ was = []) :
    Marked (dirtyAbove dirty was.length ((new.length + 1) / 2)) was (levelUp inner new) := by
  have hnew := length_levelUp inner new
  have hold := length_levelUp inner old
  constructor
  case named =>
    intro j hj
    by_cases hdirty : j ∈ dirty.map (· / 2)
    · exact .inl (List.mem_append_left _ hdirty)
    by_cases hlt : j < was.length
    · -- the pair below has not moved
      obtain rfl | rfl := hwas
      · refine .inr ?_
        rw [getElem?_levelUp, getElem?_levelUp, h.nodeAbove (by omega) hdirty]
      · simp at hlt
    · -- a position the level did not have
      refine .inl (List.mem_append_right _ ?_)
      rw [if_neg (by omega), List.mem_range'_1]
      omega
  case cut =>
    intro hcut
    obtain rfl | rfl := hwas
    · rcases h.cut (by omega) with rfl | hlast
      · exact .inl rfl
      · refine .inr (List.mem_append_left _ (List.mem_map.2 ⟨new.length - 1, hlast, ?_⟩))
        omega
    · simp at hcut

/-- **Soundness of the repair.** Where every position that moved is dirty, and the last one after
a cut, the repaired levels are those of the new leaves. -/
theorem refold_marked (fill : D) {dirty : List Nat} {old new : List D} (h : Marked dirty old new) :
    refold inner fill new (levels inner old).tail dirty = levels inner new := by
  induction hn : new.length using Nat.strong_induction_on generalizing old new dirty with
  | _ n ih =>
  subst hn
  rcases Nat.lt_or_ge 1 new.length with hm | hm
  case inr => rw [refold, if_neg (by omega), levels_of_le_one inner hm]
  case inl =>
    -- what was kept above the old leaves: their next level, or nothing
    obtain ⟨was, hwas, habove⟩ : ∃ was, (was = levelUp inner old ∨ was = []) ∧
        (levels inner old).tail.headD [] = was ∧
          (levels inner old).tail.tail = (levels inner was).tail := by
      rcases Nat.lt_or_ge 1 old.length with ho | ho
      · refine ⟨levelUp inner old, .inl rfl, ?_⟩
        rw [levels_of_one_lt inner ho, List.tail_cons]
        exact ⟨headD_levels inner _, rfl⟩
      · refine ⟨[], .inr rfl, ?_⟩
        rw [levels_of_le_one inner ho, levels_of_le_one inner (by simp)]
        exact ⟨rfl, rfl⟩
    have hup := h.up hwas
    have hlen := length_levelUp inner new
    have hrepair : repair inner new (resize was ((new.length + 1) / 2) fill)
        (dirtyAbove dirty was.length ((new.length + 1) / 2)) = levelUp inner new := by
      refine repair_eq inner (by rw [length_resize, hlen]) fun j hj => ?_
      rw [length_resize] at hj
      refine (hup.named j (by omega)).imp_right fun hkept => ?_
      have hj' : j < was.length := by
        by_contra hge
        rw [List.getElem?_eq_none (l := was) (by omega), List.getElem?_eq_none_iff] at hkept
        omega
      rw [getElem?_resize fill hj' hj, hkept]
    rw [refold, if_pos hm, levels_of_one_lt inner hm]
    simp only [habove.1, habove.2, hrepair]
    rw [ih _ (by omega) hup rfl]

/-- The repair of a tree that has lost no leaf. -/
theorem refold_levels (fill : D) {dirty : List Nat} {old new : List D} (h : Named dirty old new) :
    refold inner fill new (levels inner old).tail dirty = levels inner new :=
  refold_marked fill h.marked

end Edet.PromotionTree
