import Edet.Library.OrdMap
import Mathlib.Data.List.Sort

/-!
# Chunks

A list cut into chunks of one length, the last of which may be shorter, and the map in which such
pieces are collected by their numbers: read in the order of the numbers it is the list of them
(`OrdMap.vals_of_getElem?`), whatever order they were put in.
-/

namespace Edet

variable {α : Type}

/-- The chunks of length `n` of a list, in order; the last may be shorter. -/
def chunks (n : Nat) (l : List α) : List (List α) :=
  (List.range ((l.length + n - 1) / n)).map fun i => (l.drop (i * n)).take n

theorem length_chunks (n : Nat) (l : List α) : (chunks n l).length = (l.length + n - 1) / n := by
  rw [chunks, List.length_map, List.length_range]

theorem length_le_of_mem_chunks {n : Nat} {l c : List α} (h : c ∈ chunks n l) : c.length ≤ n := by
  obtain ⟨i, -, rfl⟩ := List.mem_map.1 h
  exact List.length_take_le _ _

/-- Put together again, the chunks are the list. -/
theorem flatten_chunks {n : Nat} (hn : 0 < n) (l : List α) : (chunks n l).flatten = l := by
  -- the first `k` chunks are the first `k * n` of the list
  have hfirst (k : Nat) :
      ((List.range k).map fun i => (l.drop (i * n)).take n).flatten = l.take (k * n) := by
    induction k with
    | zero => rw [Nat.zero_mul, List.take_zero]; rfl
    | succ k ih =>
      rw [List.range_succ, List.map_append, List.flatten_append, ih, Nat.succ_mul, List.take_add]
      simp
  have hcover : l.length ≤ (l.length + n - 1) / n * n := by
    have := Nat.lt_div_mul_add (a := l.length + n - 1) hn
    omega
  rw [chunks, hfirst, List.take_of_length_le hcover]

/-- There are at most `k` chunks of a list that is no longer than `k` of them. -/
theorem length_chunks_le_iff {n k : Nat} (hn : 0 < n) (l : List α) :
    (chunks n l).length ≤ k ↔ l.length ≤ k * n := by
  rw [length_chunks, ← Nat.lt_succ_iff, Nat.div_lt_iff_lt_mul hn, Nat.succ_mul]
  omega

/-- What is collected by number is read in the order of the numbers. -/
theorem OrdMap.vals_of_getElem? {m : OrdMap Nat α} {l : List α} (h : ∀ i : Nat, m[i]? = l[i]?) :
    OrdMap.vals m = l := by
  have hnodup : (l.zipIdx.map fun p => (p.2, p.1)).Nodup := by
    refine List.Nodup.of_map Prod.fst ?_
    rw [List.map_map]
    exact (List.zipIdx_map_snd 0 l).symm ▸ List.nodup_range'
  have hperm : m.toList.Perm (l.zipIdx.map fun p => (p.2, p.1)) := by
    refine (List.perm_ext_iff_of_nodup (OrdMap.nodup_toList m) hnodup).2 fun p => ?_
    rw [OrdMap.mem_toList, h, List.mem_map]
    constructor
    · intro hp
      exact ⟨(p.2, p.1), List.mem_zipIdx_iff_getElem?.2 hp, rfl⟩
    · rintro ⟨q, hq, rfl⟩
      exact List.mem_zipIdx_iff_getElem?.1 hq
  have hsorted : (l.zipIdx.map fun p => (p.2, p.1)).Pairwise fun a b => compare a.1 b.1 = .lt := by
    rw [List.pairwise_map]
    have hrange := List.zipIdx_map_snd 0 l ▸ List.pairwise_lt_range' (s := 0) (n := l.length)
    exact (List.pairwise_map.1 hrange).imp fun hlt => Nat.compare_eq_lt.2 hlt
  have hordered := Std.ExtTreeMap.ordered_keys_toList (t := m)
  have heq := hperm.eq_of_pairwise (fun a b _ _ hab hba => absurd (Nat.compare_eq_lt.1 hab)
    (Nat.lt_asymm (Nat.compare_eq_lt.1 hba))) hordered hsorted
  rw [OrdMap.vals, heq, List.map_map]
  exact List.zipIdx_map_fst 0 l

end Edet
