import Mathlib.Tactic

/-!
# Promotion trees

A **promotion tree** hashes a list of digests level by level: neighbours are joined by a
function `inner`, and the last digest of an odd level rises to the next one unchanged.
The tree has no padding, so its shape is a function of the number of leaves alone, and
so are the side and the presence of every sibling on the way up from a leaf.

* `levelUp inner l`: one level of the tree over the level `l`;
* `rootOf inner l`: the root over the leaves `l`, absent for no leaves;
* `siblings inner l t`: the siblings met on the way up from leaf `t`;
* `climb inner x t m sibs`: what a verifier computes from a digest `x` it takes to be
  leaf `t` of `m`, out of the siblings it is handed.

The two facts about them are `climb_siblings` (a leaf climbs its own siblings to the
root) and `climb_sound`: where `inner` is injective, whatever climbs to the root of a
tree of `m` leaves from position `t` *is* leaf `t`, and was handed exactly its siblings.
Both go by induction on the number of leaves through `getElem?_levelUp_pair` and
`getElem?_levelUp_last`, which say what one level puts above position `t`.
-/

namespace Edet.PromotionTree

variable {D : Type} (inner : D → D → D)

/-- One level up: neighbours are joined, and a last digest without one is promoted. -/
def levelUp : List D → List D
  | [] => []
  | [only] => [only]
  | l :: r :: rest => inner l r :: levelUp rest

@[simp] theorem levelUp_nil : levelUp inner [] = [] := rfl

@[simp] theorem levelUp_singleton (x : D) : levelUp inner [x] = [x] := rfl

@[simp] theorem levelUp_cons_cons (l r : D) (rest : List D) :
    levelUp inner (l :: r :: rest) = inner l r :: levelUp inner rest := rfl

theorem length_levelUp (l : List D) : (levelUp inner l).length = (l.length + 1) / 2 := by
  induction l using levelUp.induct with
  | case1 => simp
  | case2 only => simp
  | case3 l r rest ih =>
    simp only [levelUp_cons_cons, List.length_cons, ih]
    omega

/-- Above a pair stands its join. -/
theorem getElem?_levelUp_pair {l : List D} {k : Nat} {a b : D}
    (ha : l[2 * k]? = some a) (hb : l[2 * k + 1]? = some b) :
    (levelUp inner l)[k]? = some (inner a b) := by
  induction l using levelUp.induct generalizing k with
  | case1 => simp at ha
  | case2 only => cases k <;> simp at hb
  | case3 l r rest ih =>
    cases k with
    | zero =>
      simp only [Nat.mul_zero, Nat.zero_add, List.getElem?_cons_zero, List.getElem?_cons_succ,
        Option.some.injEq] at ha hb
      subst ha hb
      rfl
    | succ k =>
      rw [show 2 * (k + 1) = 2 * k + 1 + 1 by ring] at ha hb
      simp only [List.getElem?_cons_succ] at ha hb
      simpa using ih ha hb

/-- Above the last digest of an odd level stands that digest. -/
theorem getElem?_levelUp_last {l : List D} {k : Nat} {a : D}
    (ha : l[2 * k]? = some a) (hlast : l.length = 2 * k + 1) :
    (levelUp inner l)[k]? = some a := by
  induction l using levelUp.induct generalizing k with
  | case1 => simp at ha
  | case2 only =>
    obtain rfl : k = 0 := by simp only [List.length_singleton] at hlast; omega
    simpa using ha
  | case3 l r rest ih =>
    cases k with
    | zero => simp at hlast
    | succ k =>
      rw [show 2 * (k + 1) = 2 * k + 1 + 1 by ring] at ha hlast
      simp only [List.getElem?_cons_succ, List.length_cons] at ha hlast
      simpa using ih ha (by omega)

/-- The root over a list of leaves. -/
def rootOf : List D → Option D
  | [] => none
  | [only] => some only
  | l :: r :: rest => rootOf (levelUp inner (l :: r :: rest))
termination_by l => l.length
decreasing_by
  rw [length_levelUp]
  simp only [List.length_cons]
  omega

@[simp] theorem rootOf_nil : rootOf inner [] = none := by rw [rootOf]

@[simp] theorem rootOf_singleton (x : D) : rootOf inner [x] = some x := by rw [rootOf]

theorem rootOf_levelUp {l : List D} (h : 1 < l.length) :
    rootOf inner (levelUp inner l) = rootOf inner l := by
  match l, h with
  | a :: b :: rest, _ => exact (rootOf.eq_3 inner a b rest).symm

/-- The sibling met at position `t` of a level of `m` digests: the neighbour, and none
for a last digest without one. -/
def siblingAt (l : List D) (t : Nat) : Option D :=
  if t % 2 = 0 then l[t + 1]? else l[t - 1]?

/-- The siblings met on the way up from leaf `t`. -/
def siblings (l : List D) (t : Nat) : List D :=
  if 1 < l.length then
    (siblingAt l t).toList ++ siblings (levelUp inner l) (t / 2)
  else []
termination_by l.length
decreasing_by
  rw [length_levelUp]
  omega

theorem siblings_of_one_lt {l : List D} (t : Nat) (h : 1 < l.length) :
    siblings inner l t = (siblingAt l t).toList ++ siblings inner (levelUp inner l) (t / 2) := by
  rw [siblings, if_pos h]

theorem siblings_of_le_one {l : List D} (t : Nat) (h : l.length ≤ 1) :
    siblings inner l t = [] := by
  rw [siblings, if_neg (by omega)]

/-- **The verifier's climb.** From `acc`, taken to be node `t` of a level of `m`, consume
the siblings that the shape of the tree dictates, no fewer and no more. -/
def climb (acc : D) (t m : Nat) (sibs : List D) : Option D :=
  if 1 < m then
    if t % 2 = 0 then
      if t + 1 < m then
        match sibs with
        | [] => none
        | s :: rest => climb (inner acc s) (t / 2) ((m + 1) / 2) rest
      else climb acc (t / 2) ((m + 1) / 2) sibs
    else
      match sibs with
      | [] => none
      | s :: rest => climb (inner s acc) (t / 2) ((m + 1) / 2) rest
  else
    match sibs with
    | [] => some acc
    | _ :: _ => none
termination_by m

section Equations

variable {inner} {acc s : D} {t m : Nat} {sibs : List D}

theorem climb_top_nil (hm : m ≤ 1) : climb inner acc t m [] = some acc := by
  rw [climb, if_neg (by omega)]

theorem climb_top_cons (hm : m ≤ 1) : climb inner acc t m (s :: sibs) = none := by
  rw [climb, if_neg (by omega)]

theorem climb_left (hm : t + 1 < m) (ht : t % 2 = 0) :
    climb inner acc t m (s :: sibs) = climb inner (inner acc s) (t / 2) ((m + 1) / 2) sibs := by
  rw [climb, if_pos (by omega), if_pos ht, if_pos hm]

theorem climb_left_nil (hm : t + 1 < m) (ht : t % 2 = 0) : climb inner acc t m [] = none := by
  rw [climb, if_pos (by omega), if_pos ht, if_pos hm]

theorem climb_promoted (hm : 1 < m) (ht : t % 2 = 0) (hlast : m ≤ t + 1) :
    climb inner acc t m sibs = climb inner acc (t / 2) ((m + 1) / 2) sibs := by
  rw [climb.eq_def, if_pos hm, if_pos ht, if_neg (by omega)]

theorem climb_right (hm : 1 < m) (ht : t % 2 = 1) :
    climb inner acc t m (s :: sibs) = climb inner (inner s acc) (t / 2) ((m + 1) / 2) sibs := by
  rw [climb, if_pos hm, if_neg (by omega)]

theorem climb_right_nil (hm : 1 < m) (ht : t % 2 = 1) : climb inner acc t m [] = none := by
  rw [climb, if_pos hm, if_neg (by omega)]

end Equations

/-- A climb may be read through any map that commutes with the joins. -/
theorem climb_map {E : Type} {join : E → E → E} (f : D → E)
    (hf : ∀ a b, f (inner a b) = join (f a) (f b)) (acc : D) (t m : Nat) (sibs : List D) :
    climb join (f acc) t m (sibs.map f) = (climb inner acc t m sibs).map f := by
  induction acc, t, m, sibs using climb.induct inner with
  | case1 acc t m hm ht hnext => rw [List.map_nil, climb_left_nil hnext ht, climb_left_nil hnext ht]; rfl
  | case2 acc t m hm ht hnext s rest ih =>
    rw [List.map_cons, climb_left hnext ht, climb_left hnext ht, ← hf, ih]
  | case3 acc t m sibs hm ht hlast ih =>
    rw [climb_promoted hm ht (by omega), climb_promoted hm ht (by omega), ih]
  | case4 acc t m hm ht =>
    rw [List.map_nil, climb_right_nil hm (by omega), climb_right_nil hm (by omega)]; rfl
  | case5 acc t m hm ht s rest ih =>
    rw [List.map_cons, climb_right hm (by omega), climb_right hm (by omega), ← hf, ih]
  | case6 acc t m hm => rw [List.map_nil, climb_top_nil (by omega), climb_top_nil (by omega)]; rfl
  | case7 acc t m hm s rest =>
    rw [List.map_cons, climb_top_cons (by omega), climb_top_cons (by omega)]; rfl

/-- **Completeness.** A leaf climbs its own siblings to the root. -/
theorem climb_siblings {l : List D} {t : Nat} {x : D} (hx : l[t]? = some x) :
    climb inner x t l.length (siblings inner l t) = rootOf inner l := by
  induction hn : l.length using Nat.strong_induction_on generalizing l t x with
  | _ n ih =>
  subst hn
  have ht : t < l.length := (List.getElem?_eq_some_iff.1 hx).1
  rcases Nat.lt_or_ge 1 l.length with hm | hm
  case inr =>
    -- one leaf: it is the root
    obtain ⟨y, rfl⟩ := List.length_eq_one_iff.1 (show l.length = 1 by omega)
    obtain rfl : t = 0 := by simpa using ht
    rw [siblings_of_le_one inner 0 hm, climb_top_nil hm]
    simpa using hx.symm
  case inl =>
    have hup := length_levelUp inner l
    -- the node above position `t` climbs the rest of the siblings, by induction
    have climbUp : ∀ y, (levelUp inner l)[t / 2]? = some y →
        climb inner y (t / 2) ((l.length + 1) / 2) (siblings inner (levelUp inner l) (t / 2)) =
          rootOf inner l := by
      intro y hy
      rw [← hup, ih _ (by omega) hy rfl, rootOf_levelUp inner hm]
    rw [siblings_of_one_lt inner t hm]
    rcases Nat.mod_two_eq_zero_or_one t with heven | hodd
    · have h2 : 2 * (t / 2) = t := by omega
      by_cases hnext : t + 1 < l.length
      · have hs : l[t + 1]? = some l[t + 1] := List.getElem?_eq_getElem hnext
        rw [siblingAt, if_pos heven, hs]
        simp only [Option.toList_some, List.singleton_append]
        rw [climb_left hnext heven]
        exact climbUp _ (getElem?_levelUp_pair inner (by rw [h2]; exact hx) (by rw [h2]; exact hs))
      · have hs : l[t + 1]? = none := List.getElem?_eq_none (by omega)
        rw [siblingAt, if_pos heven, hs]
        simp only [Option.toList_none, List.nil_append]
        rw [climb_promoted hm heven (by omega)]
        exact climbUp _ (getElem?_levelUp_last inner (by rw [h2]; exact hx) (by omega))
    · have h2 : 2 * (t / 2) + 1 = t := by omega
      have hprev : t - 1 < l.length := by omega
      have hs : l[t - 1]? = some l[t - 1] := List.getElem?_eq_getElem hprev
      rw [siblingAt, if_neg (by omega), hs]
      simp only [Option.toList_some, List.singleton_append]
      rw [climb_right hm hodd]
      refine climbUp _ (getElem?_levelUp_pair inner ?_ (by rw [h2]; exact hx))
      rw [show 2 * (t / 2) = t - 1 by omega]
      exact hs

/-- **Soundness.** Where `inner` is injective, whatever climbs from position `t` of `m`
to the root of a tree of `m` leaves is leaf `t`, and was handed its siblings. -/
theorem climb_sound (hinj : ∀ a b c d, inner a b = inner c d → a = c ∧ b = d) {l : List D}
    {t : Nat} {x r : D} {sibs : List D} (ht : t < l.length)
    (hclimb : climb inner x t l.length sibs = some r) (hroot : rootOf inner l = some r) :
    l[t]? = some x ∧ sibs = siblings inner l t := by
  induction hn : l.length using Nat.strong_induction_on generalizing l t x sibs with
  | _ n ih =>
  subst hn
  rcases Nat.lt_or_ge 1 l.length with hm | hm
  case inr =>
    obtain ⟨y, rfl⟩ := List.length_eq_one_iff.1 (show l.length = 1 by omega)
    obtain rfl : t = 0 := by simpa using ht
    rw [siblings_of_le_one inner 0 hm]
    cases sibs with
    | nil =>
      rw [climb_top_nil hm, ← hroot] at hclimb
      simpa using hclimb.symm
    | cons s rest =>
      rw [climb_top_cons hm] at hclimb
      simp at hclimb
  case inl =>
    have hup := length_levelUp inner l
    -- whatever climbs on from the level above is the node above position `t`, by induction
    have climbUp : ∀ y rest, climb inner y (t / 2) ((l.length + 1) / 2) rest = some r →
        (levelUp inner l)[t / 2]? = some y ∧
          rest = siblings inner (levelUp inner l) (t / 2) := by
      intro y rest h
      rw [← hup] at h
      exact ih _ (by omega) (by omega) h (by rw [rootOf_levelUp inner hm, hroot]) rfl
    have hx : l[t]? = some l[t] := List.getElem?_eq_getElem ht
    rw [siblings_of_one_lt inner t hm]
    rcases Nat.mod_two_eq_zero_or_one t with heven | hodd
    · have h2 : 2 * (t / 2) = t := by omega
      by_cases hnext : t + 1 < l.length
      · have hs : l[t + 1]? = some l[t + 1] := List.getElem?_eq_getElem hnext
        cases sibs with
        | nil => rw [climb_left_nil hnext heven] at hclimb; simp at hclimb
        | cons s rest =>
          rw [climb_left hnext heven] at hclimb
          obtain ⟨habove, hrest⟩ := climbUp _ _ hclimb
          rw [getElem?_levelUp_pair inner (by rw [h2]; exact hx) (by rw [h2]; exact hs),
            Option.some.injEq] at habove
          obtain ⟨rfl, rfl⟩ := hinj _ _ _ _ habove
          refine ⟨hx, ?_⟩
          rw [siblingAt, if_pos heven, hs, hrest]
          rfl
      · have hs : l[t + 1]? = none := List.getElem?_eq_none (by omega)
        rw [climb_promoted hm heven (by omega)] at hclimb
        obtain ⟨habove, hrest⟩ := climbUp _ _ hclimb
        rw [getElem?_levelUp_last inner (by rw [h2]; exact hx) (by omega)] at habove
        refine ⟨by rw [hx, habove], ?_⟩
        rw [siblingAt, if_pos heven, hs, hrest]
        rfl
    · have h2 : 2 * (t / 2) + 1 = t := by omega
      have hs : l[t - 1]? = some l[t - 1] := List.getElem?_eq_getElem (by omega)
      cases sibs with
      | nil => rw [climb_right_nil hm hodd] at hclimb; simp at hclimb
      | cons s rest =>
        rw [climb_right hm hodd] at hclimb
        obtain ⟨habove, hrest⟩ := climbUp _ _ hclimb
        rw [getElem?_levelUp_pair inner (by rw [show 2 * (t / 2) = t - 1 by omega]; exact hs)
          (by rw [h2]; exact hx), Option.some.injEq] at habove
        obtain ⟨rfl, rfl⟩ := hinj _ _ _ _ habove
        refine ⟨hx, ?_⟩
        rw [siblingAt, if_neg (by omega), hs, hrest]
        rfl

/-! ### A path names its position -/

/-- Only the last digest of an odd level has no sibling. -/
theorem siblingAt_eq_none {l : List D} {t : Nat} (ht : t < l.length) :
    siblingAt l t = none ↔ t % 2 = 0 ∧ l.length = t + 1 := by
  unfold siblingAt
  split
  · rw [List.getElem?_eq_none_iff]
    omega
  · rw [List.getElem?_eq_none_iff]
    omega

/-- No leaf meets fewer siblings than the last one. -/
theorem length_siblings_last {l : List D} {t : Nat} (ht : t < l.length) :
    (siblings inner l (l.length - 1)).length ≤ (siblings inner l t).length := by
  induction hn : l.length using Nat.strong_induction_on generalizing l t with
  | _ n ih =>
  subst hn
  have hup := length_levelUp inner l
  rcases Nat.lt_or_ge 1 l.length with hm | hm
  case inr => rw [siblings_of_le_one inner _ hm, siblings_of_le_one inner _ hm]
  case inl =>
    have habove := ih _ (by omega) (t := t / 2) (l := levelUp inner l) (by omega) rfl
    rw [show (levelUp inner l).length - 1 = (l.length - 1) / 2 by omega] at habove
    have hhere : (siblingAt l (l.length - 1)).toList.length ≤ (siblingAt l t).toList.length := by
      cases hs : siblingAt l t with
      | some s => exact Option.length_toList_le
      | none =>
        obtain ⟨-, hlast⟩ := (siblingAt_eq_none ht).1 hs
        rw [show l.length - 1 = t by omega, hs]
    rw [siblings_of_one_lt inner _ hm, siblings_of_one_lt inner _ hm, List.length_append,
      List.length_append]
    omega

/-- A promoted leaf meets fewer than one with a sibling. -/
theorem siblings_ne_of_promoted {l : List D} {i j : Nat} {s : D} (hm : 1 < l.length)
    (hi : i < l.length) (hj : j < l.length) (hpromoted : siblingAt l i = none)
    (hs : siblingAt l j = some s) : siblings inner l i ≠ siblings inner l j := by
  intro h
  have hup := length_levelUp inner l
  obtain ⟨-, hlast⟩ := (siblingAt_eq_none hi).1 hpromoted
  have hfewest := length_siblings_last inner (l := levelUp inner l) (t := j / 2) (by omega)
  rw [show (levelUp inner l).length - 1 = i / 2 by omega] at hfewest
  rw [siblings_of_one_lt inner _ hm, siblings_of_one_lt inner _ hm, hpromoted, hs] at h
  have hlen := congrArg List.length h
  simp only [Option.toList_none, Option.toList_some, List.nil_append, List.singleton_append,
    List.length_cons] at hlen
  omega

/-- **The siblings of a leaf are those of no other**, where no two leaves are the same. -/
theorem siblings_inj {l : List D} (hnodup : l.Nodup) {i j : Nat} (hi : i < l.length)
    (hj : j < l.length) (h : siblings inner l i = siblings inner l j) : i = j := by
  rcases Nat.lt_or_ge 1 l.length with hm | hm
  case inr => omega
  case inl =>
    cases hsi : siblingAt l i with
    | none =>
      cases hsj : siblingAt l j with
      | none =>
        obtain ⟨-, hlast⟩ := (siblingAt_eq_none hi).1 hsi
        obtain ⟨-, hlast'⟩ := (siblingAt_eq_none hj).1 hsj
        omega
      | some s => exact absurd h (siblings_ne_of_promoted inner hm hi hj hsi hsj)
    | some s =>
      cases hsj : siblingAt l j with
      | none => exact absurd h.symm (siblings_ne_of_promoted inner hm hj hi hsj hsi)
      | some s' =>
        -- both have a neighbour, and it is the same digest
        rw [siblings_of_one_lt inner _ hm, siblings_of_one_lt inner _ hm, hsi, hsj] at h
        obtain rfl : s = s' := (List.cons.inj h).1
        have hneighbour : ∀ {a b : Nat}, l[a]? = some s → l[b]? = some s → a = b := fun ha hb =>
          (List.getElem?_inj (List.getElem?_eq_some_iff.1 ha).1 hnodup).1 (ha.trans hb.symm)
        unfold siblingAt at hsi hsj
        split at hsi <;> split at hsj <;> have := hneighbour hsi hsj <;> omega

end Edet.PromotionTree
