import Edet.Kernel.Flow
import Mathlib.Data.Finsupp.Order

/-!
# What a list of amounts takes from a book

A hold is a list of keyed amounts, and the books of reservations and of committed
supply are maps. `amountAt l k` is what a list has at a key in all; adding a list to a
book adds just that at every key (`getD'_addAll`), and taking it out takes just that
(`getD'_takeAll`). So releasing what was reserved restores a book, up to entries that
were empty (`takeAll_addAll`).
-/

namespace Edet.Flow

variable {κ : Type} [Ord κ] [Std.TransOrd κ] [Std.LawfulEqOrd κ] [DecidableEq κ]

/-- What a list of keyed amounts has at a key. -/
def amountAt {κ : Type} [DecidableEq κ] (l : List (κ × Nat)) (k : κ) : Nat :=
  (l.map fun p => if p.1 = k then p.2 else 0).sum

omit [Ord κ] [Std.TransOrd κ] [Std.LawfulEqOrd κ] in
@[simp] theorem amountAt_nil (k : κ) : amountAt [] k = 0 := rfl

omit [Ord κ] [Std.TransOrd κ] [Std.LawfulEqOrd κ] in
@[simp] theorem amountAt_cons (p : κ × Nat) (l : List (κ × Nat)) (k : κ) :
    amountAt (p :: l) k = (if p.1 = k then p.2 else 0) + amountAt l k := rfl

omit [Ord κ] [Std.TransOrd κ] [Std.LawfulEqOrd κ] in
@[simp] theorem amountAt_append (l l' : List (κ × Nat)) (k : κ) :
    amountAt (l ++ l') k = amountAt l k + amountAt l' k := by
  simp [amountAt]

/-- A list of keyed amounts as one amount for each key. -/
noncomputable def listFlow {κ : Type} (l : List (κ × Nat)) : κ →₀ Nat :=
  (l.map fun p => Finsupp.single p.1 p.2).sum

@[simp] theorem listFlow_nil {κ : Type} : listFlow ([] : List (κ × Nat)) = 0 := rfl

@[simp] theorem listFlow_cons {κ : Type} (p : κ × Nat) (l : List (κ × Nat)) :
    listFlow (p :: l) = Finsupp.single p.1 p.2 + listFlow l := rfl

@[simp] theorem listFlow_append {κ : Type} (l l' : List (κ × Nat)) :
    listFlow (l ++ l') = listFlow l + listFlow l' := by
  simp [listFlow]

omit [Ord κ] [Std.TransOrd κ] [Std.LawfulEqOrd κ] in
theorem listFlow_apply (l : List (κ × Nat)) (k : κ) : listFlow l k = amountAt l k := by
  induction l with
  | nil => rfl
  | cons p l ih => rw [listFlow_cons, Finsupp.add_apply, ih, amountAt_cons, Finsupp.single_apply]

/-- Empty entries carry nothing. -/
theorem listFlow_filter_pos {κ : Type} (l : List (κ × Nat)) :
    listFlow (l.filter fun p => decide (0 < p.2)) = listFlow l := by
  induction l with
  | nil => rfl
  | cons p l ih =>
    rw [List.filter_cons]
    split
    · rw [listFlow_cons, listFlow_cons, ih]
    · next h =>
      have hz : p.2 = 0 := by simpa using h
      rw [listFlow_cons, hz, Finsupp.single_zero, zero_add, ih]

omit [Ord κ] [Std.TransOrd κ] [Std.LawfulEqOrd κ] in
theorem amountAt_eq_zero {l : List (κ × Nat)} {k : κ} (h : k ∉ l.map Prod.fst) :
    amountAt l k = 0 := by
  induction l with
  | nil => rfl
  | cons p l ih =>
    rw [List.map_cons, List.mem_cons, not_or] at h
    rw [amountAt_cons, ih h.2, if_neg (Ne.symm h.1)]

omit [Ord κ] [Std.TransOrd κ] [Std.LawfulEqOrd κ] in
/-- Where keys do not repeat, a bound on every entry bounds every key. -/
theorem amountAt_le {l : List (κ × Nat)} (hnodup : (l.map Prod.fst).Nodup) {bound : κ → Nat}
    (h : ∀ p ∈ l, p.2 ≤ bound p.1) (k : κ) : amountAt l k ≤ bound k := by
  induction l with
  | nil => exact Nat.zero_le _
  | cons p l ih =>
    obtain ⟨hnew, hnodup⟩ := List.nodup_cons.1 hnodup
    rw [amountAt_cons]
    split
    · next heq =>
      subst heq
      rw [amountAt_eq_zero hnew, Nat.add_zero]
      exact h p (by simp)
    · rw [Nat.zero_add]
      exact ih hnodup fun q hq => h q (by simp [hq])

omit [Ord κ] [Std.TransOrd κ] [Std.LawfulEqOrd κ] in
theorem amountAt_of_mem {l : List (κ × Nat)} (hnodup : (l.map Prod.fst).Nodup) {p : κ × Nat}
    (h : p ∈ l) : amountAt l p.1 = p.2 := by
  induction l with
  | nil => cases h
  | cons q l ih =>
    obtain ⟨hnew, hnodup⟩ := List.nodup_cons.1 hnodup
    rw [amountAt_cons]
    rcases List.mem_cons.1 h with rfl | h
    · rw [if_pos rfl, amountAt_eq_zero hnew, Nat.add_zero]
    · have hne : q.1 ≠ p.1 := fun heq => hnew (by rw [heq]; exact List.mem_map_of_mem h)
      rw [ih hnodup h, if_neg hne, Nat.zero_add]

/-- The entries of a book are its amounts. -/
theorem amountAt_toList (m : OrdMap κ Nat) (k : κ) :
    amountAt m.toList k = OrdMap.getD' m k 0 := by
  rw [OrdMap.getD'_eq]
  cases hk : m[k]? with
  | some v => exact amountAt_of_mem (OrdMap.nodup_keys m) (p := (k, v)) (OrdMap.mem_toList.2 hk)
  | none =>
    refine amountAt_eq_zero fun hmem => ?_
    obtain ⟨p, hp, rfl⟩ := List.mem_map.1 hmem
    rw [OrdMap.mem_toList.1 hp] at hk
    cases hk

theorem getD'_addAll (m : OrdMap κ Nat) (l : List (κ × Nat)) (k : κ) :
    OrdMap.getD' (addAll m l) k 0 = OrdMap.getD' m k 0 + amountAt l k := by
  induction l generalizing m with
  | nil => rfl
  | cons p l ih =>
    show OrdMap.getD' (addAll (OrdMap.bump m p.1 p.2) l) k 0 = _
    rw [ih, OrdMap.getD'_bump, amountAt_cons, Nat.add_assoc]

theorem getD'_takeAll (m : OrdMap κ Nat) (l : List (κ × Nat)) (k : κ) :
    OrdMap.getD' (takeAll m l) k 0 = OrdMap.getD' m k 0 - amountAt l k := by
  unfold takeAll
  rw [OrdMap.getD'_positive]
  induction l generalizing m with
  | nil => rfl
  | cons p l ih =>
    rw [List.foldl_cons, ih, OrdMap.getD'_modify_sub, amountAt_cons, Nat.sub_sub]

omit [DecidableEq κ] in
/-- Adding to a book of positive entries positive amounts. -/
theorem positive_addAll {m : OrdMap κ Nat} {l : List (κ × Nat)} (hm : OrdMap.positive m = m)
    (hl : ∀ p ∈ l, 0 < p.2) : OrdMap.positive (addAll m l) = addAll m l := by
  induction l generalizing m with
  | nil => exact hm
  | cons p l ih =>
    refine ih ?_ fun q hq => hl q (List.mem_cons_of_mem _ hq)
    have hp := hl p List.mem_cons_self
    refine Std.ExtTreeMap.ext_getElem? fun a => ?_
    have hma := congrArg (fun m => m[a]?) hm
    simp only [OrdMap.getElem?_positive] at hma
    show (OrdMap.positive (OrdMap.bump m p.1 p.2))[a]? = (OrdMap.bump m p.1 p.2)[a]?
    rw [OrdMap.getElem?_positive, OrdMap.bump, Std.ExtTreeMap.getElem?_insert]
    split
    · rw [Option.filter, if_pos (by simp; omega)]
    · exact hma

section Reserve

variable {edges : Edges} {reserved reserved' : Reservations} {committed committed' : Committed}
  {uw : Underwriters} {debtor n amount : Nat} {ownSupply : Bool}

/-- A reservation that cannot be had changes nothing. -/
theorem reserveInner_none
    (h : reserveInner edges reserved committed uw debtor n amount ownSupply =
      (none, reserved', committed')) : reserved' = reserved ∧ committed' = committed := by
  unfold reserveInner at h
  split at h
  · simp at h
  · simp only at h
    split at h
    · simp only [Prod.mk.injEq, true_and] at h
      exact ⟨h.1.symm, h.2.symm⟩
    · simp at h

/-- A reservation adds just its hold to the books. -/
theorem reserveInner_some {held : Held}
    (h : reserveInner edges reserved committed uw debtor n amount ownSupply =
      (some held, reserved', committed')) :
    reserved' = addAll reserved held.edges ∧ committed' = addAll committed held.supply := by
  unfold reserveInner at h
  split at h
  · simp only [Prod.mk.injEq, Option.some.injEq] at h
    obtain ⟨rfl, rfl, rfl⟩ := h
    exact ⟨rfl, rfl⟩
  · simp only at h
    split at h
    · simp at h
    · simp only [Prod.mk.injEq, Option.some.injEq] at h
      obtain ⟨rfl, rfl, rfl⟩ := h
      exact ⟨rfl, rfl⟩

end Reserve

end Edet.Flow
