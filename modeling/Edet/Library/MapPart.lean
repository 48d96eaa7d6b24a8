import Edet.Library.OrdMap

/-!
# Parts of an ordered map

A program that drops entries of a map by several rules is left with a part of it (`Part`).
Whatever the rules, the part has no more entries than the map and no more of them satisfy a
predicate (`Part.size_le`, `Part.count_le`); writing one entry adds one to a count at most
(`count_insert`, `count_replace`).
-/

namespace Edet

namespace OrdMap

variable {κ α : Type} [Ord κ] [Std.TransOrd κ] [Std.LawfulEqOrd κ]

/-- Entries that satisfy a predicate. -/
def count (p : κ × α → Bool) (m : OrdMap κ α) : Nat := m.toList.countP p

/-- Every entry of the one map is an entry of the other. -/
def Part (m m' : OrdMap κ α) : Prop := ∀ (k : κ) (v : α), m[k]? = some v → m'[k]? = some v

omit [Std.LawfulEqOrd κ] in
theorem Part.refl (m : OrdMap κ α) : Part m m := fun _ _ h => h

theorem Part.subperm {m m' : OrdMap κ α} (h : Part m m') : m.toList.Subperm m'.toList := by
  refine (nodup_toList m).subperm ?_
  rintro ⟨k, v⟩ hp
  exact mem_toList.2 (h k v (mem_toList.1 hp))

theorem Part.count_le {m m' : OrdMap κ α} (h : Part m m') (p : κ × α → Bool) :
    count p m ≤ count p m' :=
  h.subperm.countP_le p

theorem Part.size_le {m m' : OrdMap κ α} (h : Part m m') : m.size ≤ m'.size := by
  rw [← Std.ExtTreeMap.length_toList, ← Std.ExtTreeMap.length_toList]
  exact h.subperm.length_le

/-- A part that lacks an entry is smaller. -/
theorem Part.size_lt {m m' : OrdMap κ α} (h : Part m m') {k : κ} {v : α} (hv : m'[k]? = some v)
    (hnone : m[k]? = none) : m.size < m'.size := by
  have herase : Part m (m'.erase k) := by
    intro a w hw
    rw [Std.ExtTreeMap.getElem?_erase]
    by_cases hk : compare k a = .eq
    · obtain rfl := Std.LawfulEqOrd.eq_of_compare hk
      rw [hnone] at hw
      cases hw
    · rw [if_neg hk]
      exact h a w hw
  have hperm := (toList_perm_cons hv).length_eq
  rw [Std.ExtTreeMap.length_toList, List.length_cons, Std.ExtTreeMap.length_toList] at hperm
  exact hperm ▸ Nat.lt_succ_of_le herase.size_le

theorem part_filter (p : κ → α → Bool) (m : OrdMap κ α) : Part (m.filter p) m :=
  fun _ _ h => (getElem?_filter_of_some h).1

omit [Std.LawfulEqOrd κ] in
theorem part_erase (m : OrdMap κ α) (k : κ) : Part (m.erase k) m := by
  intro a v h
  rw [Std.ExtTreeMap.getElem?_erase] at h
  split at h
  · cases h
  · exact h

/-- Writing an entry counts it, and no longer what stood there. -/
theorem count_insert (p : κ × α → Bool) (m : OrdMap κ α) (k : κ) (v : α) :
    count p (m.insert k v) = count p (m.erase k) + if p (k, v) then 1 else 0 := by
  have hself : (m.insert k v)[k]? = some v := Std.ExtTreeMap.getElem?_insert_self
  unfold count
  rw [(toList_perm_cons hself).countP_eq, List.countP_cons, erase_insert]

/-- Replacing an entry by one that satisfies the predicate as well as it does changes no
count. -/
theorem count_replace {p : κ × α → Bool} {m : OrdMap κ α} {k : κ} {v w : α}
    (h : m[k]? = some v) (hp : p (k, w) = p (k, v)) : count p (m.insert k w) = count p m := by
  rw [count_insert, hp]
  unfold count
  rw [(toList_perm_cons h).countP_eq, List.countP_cons]

end OrdMap

end Edet
