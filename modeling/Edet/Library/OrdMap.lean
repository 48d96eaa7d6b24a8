import Mathlib.Tactic
import Mathlib.Algebra.BigOperators.Group.List.Basic
import Mathlib.Algebra.Order.BigOperators.Group.List

/-!
# Ordered maps and keyed sums

A program that keeps its books in ordered maps is verified here over
`Std.ExtTreeMap`, whose equality is equality of lookups. This file fixes the two
abbreviations the rest of the development uses (`OrdMap`, `OrdSet`), orders pairs
lexicographically, and develops what the standard library does not have: the
**keyed sum** `OrdMap.total f m`, the sum of `f k v` over the entries of `m`.

The rules are the ones a ledger needs:

* `OrdMap.total_insert`, `OrdMap.total_erase`: what writing or removing one entry
  does to a sum, stated additively so that they can be used by `omega`;
* `OrdMap.total_congr`, `OrdMap.total_le_total`: sums compared entry by entry;
* `OrdMap.le_total`: one entry is at most the sum;
* `OrdMap.total_filter_add`: a sum splits along a predicate.

Everything is proved from one fact, `OrdMap.toList_perm_cons`: the entries of a map
that holds `v` at `k` are `(k, v)` and the entries of the map with `k` erased.
-/

namespace Edet

/-- Pairs are ordered by their first component, then by their second. -/
instance instOrdPair {α β : Type} [Ord α] [Ord β] : Ord (α × β) := lexOrd

/-- A map whose entries are kept in the order of their keys. -/
abbrev OrdMap (κ : Type) [Ord κ] (α : Type) := Std.ExtTreeMap κ α compare

/-- A set whose elements are kept in order. -/
abbrev OrdSet (κ : Type) [Ord κ] := Std.ExtTreeSet κ compare

/-- Two maps are equal when their entries are. -/
instance {κ α : Type} [Ord κ] [Std.TransOrd κ] [DecidableEq κ] [DecidableEq α] :
    DecidableEq (OrdMap κ α) :=
  fun a b => decidable_of_iff (a.toList = b.toList) Std.ExtTreeMap.toList_inj

instance {κ : Type} [Ord κ] [Std.TransOrd κ] [DecidableEq κ] : DecidableEq (OrdSet κ) :=
  fun a b => decidable_of_iff (a.toList = b.toList) Std.ExtTreeSet.toList_inj

namespace OrdMap

variable {κ α : Type} [Ord κ] [Std.TransOrd κ] [Std.LawfulEqOrd κ]

/-- The value at `k`, or `d` where the map has no entry. -/
def getD' (m : OrdMap κ α) (k : κ) (d : α) : α := (m[k]?).getD d

/-- Add `x` to the entry at `k`, which counts as `0` where it is missing. -/
def bump (m : OrdMap κ Nat) (k : κ) (x : Nat) : OrdMap κ Nat := m.insert k (getD' m k 0 + x)

/-- Keep the positive entries. -/
def positive (m : OrdMap κ Nat) : OrdMap κ Nat := m.filter fun _ v => decide (0 < v)

/-- The sum of `f k v` over the entries of a map. -/
def total (f : κ → α → Nat) (m : OrdMap κ α) : Nat :=
  (m.toList.map fun p => f p.1 p.2).sum

/-- The values of a map, in the order of their keys. -/
def vals (m : OrdMap κ α) : List α := m.toList.map Prod.snd

theorem nodup_toList (m : OrdMap κ α) : m.toList.Nodup := by
  refine (Std.ExtTreeMap.distinct_keys_toList (t := m)).imp ?_
  intro a b h hab
  exact h (by rw [hab]; simp)

theorem nodup_keys (m : OrdMap κ α) : (m.toList.map Prod.fst).Nodup := by
  rw [Std.ExtTreeMap.map_fst_toList_eq_keys]
  exact (Std.ExtTreeMap.distinct_keys (t := m)).imp fun h heq => h (by rw [heq, Std.compare_self])

theorem mem_toList {m : OrdMap κ α} {p : κ × α} : p ∈ m.toList ↔ m[p.1]? = some p.2 :=
  Std.ExtTreeMap.mem_toList_iff_getElem?_eq_some

theorem mem_vals {m : OrdMap κ α} {v : α} : v ∈ m.vals ↔ ∃ k : κ, m[k]? = some v := by
  simp only [vals, List.mem_map]
  constructor
  · rintro ⟨⟨k, v⟩, h, rfl⟩
    exact ⟨k, mem_toList.1 h⟩
  · rintro ⟨k, h⟩
    exact ⟨(k, v), mem_toList.2 h, rfl⟩

/-- The entries of a map that holds `v` at `k` are `(k, v)` and those of the map with
`k` erased. -/
theorem toList_perm_cons {m : OrdMap κ α} {k : κ} {v : α} (h : m[k]? = some v) :
    m.toList.Perm ((k, v) :: (m.erase k).toList) := by
  refine (List.perm_ext_iff_of_nodup (nodup_toList m) ?_).2 ?_
  · refine List.nodup_cons.2 ⟨?_, nodup_toList _⟩
    intro hmem
    have hget := mem_toList.1 hmem
    simp at hget
  · rintro ⟨a, b⟩
    rw [mem_toList, List.mem_cons, mem_toList, Std.ExtTreeMap.getElem?_erase]
    by_cases hk : k = a
    · subst hk
      simp [h, eq_comm]
    · simp [hk, Ne.symm hk]

theorem total_eq_of_getElem? {f : κ → α → Nat} {m : OrdMap κ α} {k : κ} {v : α}
    (h : m[k]? = some v) : total f m = f k v + total f (m.erase k) := by
  unfold total
  rw [((toList_perm_cons h).map _).sum_eq]
  simp

theorem erase_of_getElem?_none {m : OrdMap κ α} {k : κ} (h : m[k]? = none) :
    m.erase k = m := by
  refine Std.ExtTreeMap.ext_getElem? fun a => ?_
  rw [Std.ExtTreeMap.getElem?_erase]
  by_cases hk : k = a
  · subst hk
    simp [h]
  · simp [hk]

@[simp] theorem erase_insert (m : OrdMap κ α) (k : κ) (v : α) :
    (m.insert k v).erase k = m.erase k := by
  refine Std.ExtTreeMap.ext_getElem? fun a => ?_
  simp only [Std.ExtTreeMap.getElem?_erase, Std.ExtTreeMap.getElem?_insert]
  split <;> rfl

/-- Writing `v` at `k` adds `f k v` and takes away what stood there. -/
theorem total_insert (f : κ → α → Nat) (m : OrdMap κ α) (k : κ) (v : α) :
    total f (m.insert k v) + (m[k]?).elim 0 (f k) = total f m + f k v := by
  have hins : total f (m.insert k v) = f k v + total f (m.erase k) := by
    rw [total_eq_of_getElem? (k := k) (v := v) (by simp), erase_insert]
  cases h : m[k]? with
  | none => rw [hins, erase_of_getElem?_none h]; simp; omega
  | some w => rw [hins, total_eq_of_getElem? h]; simp; omega

theorem total_insert_of_none {f : κ → α → Nat} {m : OrdMap κ α} {k : κ}
    (h : m[k]? = none) (v : α) : total f (m.insert k v) = total f m + f k v := by
  have := total_insert f m k v
  rw [h] at this
  simpa using this

theorem total_insert_of_some {f : κ → α → Nat} {m : OrdMap κ α} {k : κ} {w : α}
    (h : m[k]? = some w) (v : α) :
    total f (m.insert k v) + f k w = total f m + f k v := by
  have := total_insert f m k v
  rw [h] at this
  simpa using this

/-- Removing the entry at `k` takes away what stood there. -/
theorem total_erase (f : κ → α → Nat) (m : OrdMap κ α) (k : κ) :
    total f (m.erase k) + (m[k]?).elim 0 (f k) = total f m := by
  cases h : m[k]? with
  | none => rw [erase_of_getElem?_none h]; simp
  | some w => rw [total_eq_of_getElem? h]; simp; omega

/-- Every entry is at most the sum. -/
theorem le_total {f : κ → α → Nat} {m : OrdMap κ α} {k : κ} {v : α} (h : m[k]? = some v) :
    f k v ≤ total f m := by
  rw [total_eq_of_getElem? h]
  omega

omit [Std.LawfulEqOrd κ] in
@[simp] theorem total_empty (f : κ → α → Nat) : total f (∅ : OrdMap κ α) = 0 := by
  rw [total, Std.ExtTreeMap.toList_eq_nil_iff.2 rfl]
  rfl

theorem total_congr {f g : κ → α → Nat} {m : OrdMap κ α}
    (h : ∀ k v, m[k]? = some v → f k v = g k v) : total f m = total g m := by
  unfold total
  refine congrArg List.sum (List.map_congr_left ?_)
  rintro ⟨k, v⟩ hp
  exact h k v (mem_toList.1 hp)

theorem total_le_total {f g : κ → α → Nat} {m : OrdMap κ α}
    (h : ∀ k v, m[k]? = some v → f k v ≤ g k v) : total f m ≤ total g m := by
  unfold total
  refine List.sum_le_sum ?_
  rintro ⟨k, v⟩ hp
  exact h k v (mem_toList.1 hp)

omit [Std.LawfulEqOrd κ] in
theorem total_map {β : Type} (f : κ → β → Nat) (g : κ → α → β) (m : OrdMap κ α) :
    total f (m.map g) = total (fun k v => f k (g k v)) m := by
  unfold total
  rw [Std.ExtTreeMap.toList_map, List.map_map]
  rfl

omit [Std.LawfulEqOrd κ] in
/-- A sum splits along a predicate on the entries. -/
theorem total_filter_add (f : κ → α → Nat) (p : κ → α → Bool) (m : OrdMap κ α) :
    total f (m.filter p) + total f (m.filter fun k v => !p k v) = total f m := by
  unfold total
  rw [Std.ExtTreeMap.toList_filter, Std.ExtTreeMap.toList_filter]
  induction m.toList with
  | nil => rfl
  | cons q l ih =>
    by_cases hq : p q.1 q.2 <;> simp [hq] at ih ⊢ <;> omega

omit [Std.LawfulEqOrd κ] in
theorem total_filter_le (f : κ → α → Nat) (p : κ → α → Bool) (m : OrdMap κ α) :
    total f (m.filter p) ≤ total f m := by
  have := total_filter_add f p m
  omega

theorem getElem?_filter_of_some {p : κ → α → Bool} {m : OrdMap κ α} {k : κ} {v : α}
    (h : (m.filter p)[k]? = some v) : m[k]? = some v ∧ p k v = true := by
  have hmem : ((k, v) : κ × α) ∈ (m.filter p).toList := mem_toList.2 h
  rw [Std.ExtTreeMap.toList_filter, List.mem_filter] at hmem
  exact ⟨mem_toList.1 hmem.1, hmem.2⟩

/-! ### Writing one entry -/

theorem getElem?_modify_map [DecidableEq κ] (m : OrdMap κ α) (k a : κ) (f : α → α) :
    (m.modify k f)[a]? = (m[a]?).map fun v => if k = a then f v else v := by
  rw [Std.ExtTreeMap.getElem?_modify]
  by_cases h : k = a
  · subst h
    simp
  · cases m[a]? <;> simp [h]

theorem modify_of_some {m : OrdMap κ α} {k : κ} {v : α} (h : m[k]? = some v) (f : α → α) :
    m.modify k f = m.insert k (f v) := by
  refine Std.ExtTreeMap.ext_getElem? fun a => ?_
  rw [Std.ExtTreeMap.getElem?_modify, Std.ExtTreeMap.getElem?_insert]
  by_cases hk : k = a
  · subst hk
    simp [h]
  · simp [hk]

/-- Erasing a list of keys. -/
theorem getElem?_foldl_erase [DecidableEq κ] (l : List κ) (m : OrdMap κ α) (a : κ) :
    (l.foldl (fun m k => m.erase k) m)[a]? = if a ∈ l then none else m[a]? := by
  induction l generalizing m with
  | nil => simp
  | cons k l ih =>
    rw [List.foldl_cons, ih, Std.ExtTreeMap.getElem?_erase]
    by_cases hl : a ∈ l
    · simp [hl]
    · by_cases hk : k = a
      · simp [hk]
      · simp [hl, hk, Ne.symm hk]

/-- Writing one value at a list of keys. -/
theorem getElem?_foldl_insert [DecidableEq κ] (l : List κ) (m : OrdMap κ α) (v : α) (a : κ) :
    (l.foldl (fun m k => m.insert k v) m)[a]? = if a ∈ l then some v else m[a]? := by
  induction l generalizing m with
  | nil => simp
  | cons k l ih =>
    rw [List.foldl_cons, ih, Std.ExtTreeMap.getElem?_insert]
    by_cases hl : a ∈ l
    · simp [hl]
    · by_cases hk : k = a
      · simp [hk]
      · simp [hl, hk, Ne.symm hk]

/-- A reading of the entries that a write keeps does not see the write. -/
theorem map_modify {β : Type} {f : α → α} {g : α → β} (h : ∀ v, g (f v) = g v)
    (m : OrdMap κ α) (k : κ) : (m.modify k f).map (fun _ => g) = m.map fun _ => g := by
  classical
  refine Std.ExtTreeMap.ext_getElem? fun a => ?_
  rw [Std.ExtTreeMap.getElem?_map, getElem?_modify_map, Std.ExtTreeMap.getElem?_map]
  cases m[a]? with
  | none => rfl
  | some v =>
    by_cases hk : k = a
    · simp [hk, h]
    · simp [hk]

/-! ### Lookups with a default -/

omit [Std.LawfulEqOrd κ] in
theorem getD'_eq (m : OrdMap κ α) (k : κ) (d : α) : getD' m k d = (m[k]?).getD d := rfl

omit [Std.LawfulEqOrd κ] in
@[simp] theorem getD'_insert (m : OrdMap κ α) (k a : κ) (v d : α) :
    getD' (m.insert k v) a d = if compare k a = .eq then v else getD' m a d := by
  simp only [getD', Std.ExtTreeMap.getElem?_insert]
  split <;> rfl

theorem getD'_bump [DecidableEq κ] (m : OrdMap κ Nat) (k a : κ) (x : Nat) :
    getD' (bump m k x) a 0 = getD' m a 0 + if k = a then x else 0 := by
  by_cases h : k = a
  · subst h
    simp [bump]
  · simp [bump, h]

theorem getD'_modify_sub [DecidableEq κ] (m : OrdMap κ Nat) (k a : κ) (x : Nat) :
    getD' (m.modify k (· - x)) a 0 = getD' m a 0 - if k = a then x else 0 := by
  by_cases h : k = a
  · subst h
    simp only [getD', Std.ExtTreeMap.getElem?_modify, Std.compare_self, if_true]
    cases m[k]? <;> simp
  · simp [getD', Std.ExtTreeMap.getElem?_modify, h]

omit [Std.LawfulEqOrd κ] in
theorem getElem?_positive (m : OrdMap κ Nat) (a : κ) :
    (positive m)[a]? = (m[a]?).filter fun v => decide (0 < v) := by
  unfold positive
  rw [Std.ExtTreeMap.getElem?_filter]
  cases m[a]? <;> simp [Option.pfilter, Option.filter]

omit [Std.LawfulEqOrd κ] in
/-- Dropping empty entries does not change a lookup with default `0`. -/
@[simp] theorem getD'_positive (m : OrdMap κ Nat) (a : κ) :
    getD' (positive m) a 0 = getD' m a 0 := by
  rw [getD', getElem?_positive, getD']
  cases h : m[a]? with
  | none => rfl
  | some v =>
    by_cases hv : 0 < v
    · simp [Option.filter, hv]
    · have : v = 0 := by omega
      simp [Option.filter, this]

@[simp] theorem positive_positive (m : OrdMap κ Nat) : positive (positive m) = positive m := by
  refine Std.ExtTreeMap.ext_getElem? fun a => ?_
  rw [getElem?_positive, getElem?_positive, Option.filter_filter]
  simp

/-- Two maps without empty entries are equal where their lookups are. -/
theorem positive_ext {m m' : OrdMap κ Nat} (h : ∀ a, getD' m a 0 = getD' m' a 0) :
    positive m = positive m' := by
  have hget : ∀ (m : OrdMap κ Nat) (a : κ), (positive m)[a]? =
      if 0 < getD' m a 0 then some (getD' m a 0) else none := by
    intro m a
    rw [getElem?_positive, getD']
    cases m[a]? with
    | none => rfl
    | some v => simp [Option.filter]
  refine Std.ExtTreeMap.ext_getElem? fun a => ?_
  rw [hget, hget, h]

end OrdMap

namespace OrdSet

variable {κ : Type} [Ord κ] [Std.TransOrd κ] [Std.LawfulEqOrd κ]

/-- What a list is inserted into contains the list and what was there. -/
theorem mem_foldl_insert {k : κ} (l : List κ) (set : OrdSet κ) :
    k ∈ l.foldl (fun set x => set.insert x) set ↔ k ∈ set ∨ k ∈ l := by
  induction l generalizing set with
  | nil => simp
  | cons a l ih =>
    rw [List.foldl_cons, ih, Std.ExtTreeSet.mem_insert, Std.LawfulEqCmp.compare_eq_iff_eq,
      List.mem_cons]
    constructor
    · rintro ((rfl | h) | h) <;> simp [*]
    · rintro (h | rfl | h) <;> simp [*]

theorem nodup_toList (set : OrdSet κ) : set.toList.Nodup := by
  refine set.distinct_toList.imp fun h => ?_
  rintro rfl
  exact h Std.compare_self

/-- A set read from a list has one element for each that the list names. -/
theorem size_foldl_insert [DecidableEq κ] (l : List κ) :
    (l.foldl (fun set x => set.insert x) (∅ : OrdSet κ)).size = l.dedup.length := by
  have hperm : (l.foldl (fun set x => set.insert x) (∅ : OrdSet κ)).toList.Perm l.dedup := by
    refine (List.perm_ext_iff_of_nodup (nodup_toList _) (List.nodup_dedup l)).2 fun k => ?_
    rw [Std.ExtTreeSet.mem_toList, mem_foldl_insert, List.mem_dedup]
    simp
  rw [← Std.ExtTreeSet.length_toList, hperm.length_eq]

end OrdSet

end Edet
