import Edet.Kernel.Decompose
import Edet.Kernel.Outstanding
import Edet.Ledger.Obligation

/-!
# A split hold is all there

Splitting a hold loses nothing and makes nothing. What is kept and what goes back carry and
draw together what the hold did, and each is again a flow to the debtor that can be read as
routes (`shrink_splits`); so are the claims of the underwriters behind a defaulted
obligation (`shares_split`).

Both rest on lowering routes: each piece is the hold's own routes with some of the value on
them. Underneath is the division by largest remainder. The floors leave fewer units over
than there are remainders, so one unit for each of the first few is enough, and one whose
share was rounded has room for its unit, so that nobody is given more than it has
(`allocate_spec`).
-/

namespace Edet.Loss

open Edet.Flow NetworkFlow

/-! ### Largest remainders -/

theorem sum_div_mod (l : List Nat) (keep total : Nat) :
    total * (l.map fun a => a * keep / total).sum + (l.map fun a => a * keep % total).sum =
      l.sum * keep := by
  induction l with
  | nil => simp
  | cons a l ih =>
    simp only [List.map_cons, List.sum_cons]
    calc total * (a * keep / total + (l.map fun a => a * keep / total).sum) +
          (a * keep % total + (l.map fun a => a * keep % total).sum)
        = (total * (a * keep / total) + a * keep % total) +
          (total * (l.map fun a => a * keep / total).sum +
            (l.map fun a => a * keep % total).sum) := by ring
      _ = a * keep + l.sum * keep := by rw [Nat.div_add_mod, ih]
      _ = (a + l.sum) * keep := by ring

theorem perm_remainders (amounts : List Nat) (keep total : Nat) :
    (remainders amounts keep total).Perm
      (amounts.zipIdx.map fun p => (p.1 * keep % total, p.2)) := List.perm_insertionSort ..

theorem mem_remainders {amounts : List Nat} {keep total : Nat} {r : Nat × Nat}
    (h : r ∈ remainders amounts keep total) :
    r.2 < amounts.length ∧ r.1 = amounts.getD r.2 0 * keep % total := by
  obtain ⟨⟨a, i⟩, hmem, rfl⟩ := List.mem_map.1 ((perm_remainders amounts keep total).mem_iff.1 h)
  obtain ⟨hi, ha⟩ := List.getElem?_eq_some_iff.1 (List.mk_mem_zipIdx_iff_getElem?.1 hmem)
  refine ⟨hi, ?_⟩
  rw [List.getD_eq_getElem?_getD, List.getElem?_eq_getElem hi, ha]
  rfl

theorem length_remainders (amounts : List Nat) (keep total : Nat) :
    (remainders amounts keep total).length = amounts.length := by
  rw [(perm_remainders amounts keep total).length_eq]
  simp

theorem nodup_remainders (amounts : List Nat) (keep total : Nat) :
    ((remainders amounts keep total).map Prod.snd).Nodup := by
  rw [((perm_remainders amounts keep total).map Prod.snd).nodup_iff, List.map_map]
  show (amounts.zipIdx.map Prod.snd).Nodup
  rw [List.zipIdx_map_snd]
  exact List.nodup_range'

theorem sum_remainders (amounts : List Nat) (keep total : Nat) :
    ((remainders amounts keep total).map Prod.fst).sum =
      (amounts.map fun a => a * keep % total).sum := by
  rw [((perm_remainders amounts keep total).map Prod.fst).sum_eq, List.map_map]
  show (amounts.zipIdx.map ((fun a => a * keep % total) ∘ Prod.fst)).sum = _
  rw [← List.map_map, List.zipIdx_map_fst]

/-- What is left over is what the remainders make up. -/
theorem mul_left_eq {l : List Nat} {keep total : Nat} (htotal : 0 < total)
    (hsum : l.sum = total) :
    total * (keep - (l.map fun a => a * keep / total).sum) =
      (l.map fun a => a * keep % total).sum := by
  have h := sum_div_mod l keep total
  rw [hsum] at h
  have hle : (l.map fun a => a * keep / total).sum ≤ keep := by
    refine Nat.le_of_mul_le_mul_left ?_ htotal
    omega
  rw [Nat.mul_sub]
  omega

/-- Remainders below `total`, of which only those that satisfy `p` are not zero. -/
theorem sum_fst_le {rs : List (Nat × Nat)} {total : Nat} {p : Nat × Nat → Bool}
    (hlt : ∀ r ∈ rs, r.1 < total) (hp : ∀ r ∈ rs, 0 < r.1 → p r = true) :
    (rs.map Prod.fst).sum ≤ (total - 1) * rs.countP p := by
  induction rs with
  | nil => simp
  | cons r rs ih =>
    have ih := ih (fun q hq => hlt q (List.mem_cons_of_mem _ hq)) fun q hq =>
      hp q (List.mem_cons_of_mem _ hq)
    have hr := hlt r List.mem_cons_self
    rw [List.map_cons, List.sum_cons, List.countP_cons, Nat.mul_add]
    by_cases hpr : p r = true
    · rw [if_pos hpr]
      omega
    · have hz : r.1 = 0 := Nat.eq_zero_of_not_pos fun hpos => hpr (hp r List.mem_cons_self hpos)
      rw [if_neg hpr]
      omega

theorem left_le_countP {l : List Nat} {keep total : Nat} (htotal : 0 < total)
    (hsum : l.sum = total) {p : Nat × Nat → Bool}
    (hp : ∀ r ∈ remainders l keep total, 0 < r.1 → p r = true) :
    keep - (l.map fun a => a * keep / total).sum ≤ (remainders l keep total).countP p := by
  have hmul : total * (keep - (l.map fun a => a * keep / total).sum) = _ := mul_left_eq htotal hsum
  have hle : ((remainders l keep total).map Prod.fst).sum ≤
      (total - 1) * (remainders l keep total).countP p := sum_fst_le
    (fun r hr => (mem_remainders hr).2 ▸ Nat.mod_lt _ htotal) hp
  rw [sum_remainders, ← hmul] at hle
  -- fewer than one unit for each
  by_contra hlt
  have hstep : total * ((remainders l keep total).countP p + 1) ≤
      total * (keep - (l.map fun a => a * keep / total).sum) :=
    Nat.mul_le_mul_left total (not_le.1 hlt)
  have hexpand : total * ((remainders l keep total).countP p + 1) =
      (total - 1) * (remainders l keep total).countP p +
        (remainders l keep total).countP p + total := by
    obtain ⟨t, rfl⟩ : ∃ t, total = t + 1 := ⟨total - 1, by omega⟩
    rw [Nat.add_sub_cancel]
    ring
  omega

/-! ### Handing the units out -/

theorem sum_set {l : List Nat} {i : Nat} (hi : i < l.length) :
    (l.set i (l.getD i 0 + 1)).sum = l.sum + 1 := by
  induction l generalizing i with
  | nil => simp at hi
  | cons a l ih =>
    cases i with
    | zero => simp [Nat.add_right_comm]
    | succ i =>
      have := ih (i := i) (by simpa using hi)
      simp only [List.set_cons_succ, List.getD_cons_succ, List.sum_cons]
      omega

@[simp] theorem length_topUp (amounts : List Nat) (rs : List (Nat × Nat)) (left : Nat)
    (out : List Nat) : (topUp amounts rs left out).length = out.length := by
  induction rs generalizing left out with
  | nil => rfl
  | cons r rs ih =>
    unfold topUp
    split_ifs
    · rfl
    · rw [ih, List.length_set]
    · rw [ih]

/-- Nobody is given more than it has, and as much is handed out as there is room for. -/
theorem topUp_spec {amounts : List Nat} {rs : List (Nat × Nat)} {left : Nat} {out : List Nat}
    (hnodup : (rs.map Prod.snd).Nodup) (hlt : ∀ r ∈ rs, r.2 < out.length)
    (hle : ∀ i, out.getD i 0 ≤ amounts.getD i 0) :
    (∀ i, (topUp amounts rs left out).getD i 0 ≤ amounts.getD i 0) ∧
      (topUp amounts rs left out).sum = out.sum +
        min left (rs.countP fun r => decide (out.getD r.2 0 < amounts.getD r.2 0)) := by
  induction rs generalizing left out with
  | nil => exact ⟨hle, by simp [topUp]⟩
  | cons r rs ih =>
    have hrest : ∀ q ∈ rs, q.2 < out.length := fun q hq => hlt q (List.mem_cons_of_mem _ hq)
    obtain ⟨rem, i⟩ := r
    obtain ⟨hnew, hnodup⟩ : i ∉ rs.map Prod.snd ∧ (rs.map Prod.snd).Nodup := List.nodup_cons.1 hnodup
    have hi : i < out.length := hlt (rem, i) List.mem_cons_self
    unfold topUp
    split_ifs with hzero hroom
    · exact ⟨hle, by rw [hzero, Nat.zero_min, Nat.add_zero]⟩
    · have hget : ∀ j, (out.set i (out.getD i 0 + 1)).getD j 0 =
          if i = j then out.getD i 0 + 1 else out.getD j 0 := by
        intro j
        rw [List.getD_eq_getElem?_getD, List.getElem?_set]
        split
        · next hij => subst hij; simp [hi]
        · rw [List.getD_eq_getElem?_getD]
      obtain ⟨hle', hsum⟩ := @ih (left - 1) (out.set i (out.getD i 0 + 1)) hnodup
        (by simpa using hrest) fun j => by
          rw [hget]
          split
          · next hij => subst hij; omega
          · exact hle j
      refine ⟨hle', ?_⟩
      have hcount : rs.countP (fun q => decide
          ((out.set i (out.getD i 0 + 1)).getD q.2 0 < amounts.getD q.2 0)) =
          rs.countP fun q => decide (out.getD q.2 0 < amounts.getD q.2 0) := by
        refine List.countP_congr fun q hq => ?_
        have hne : i ≠ q.2 := fun heq => hnew (heq ▸ List.mem_map_of_mem (f := Prod.snd) hq)
        rw [hget, if_neg hne]
      rw [hsum, hcount, sum_set hi, List.countP_cons, if_pos (by simpa using hroom)]
      omega
    · obtain ⟨hle', hsum⟩ := @ih left out hnodup hrest hle
      refine ⟨hle', ?_⟩
      rw [hsum, List.countP_cons, if_neg (by simpa using hroom), Nat.add_zero]

@[simp] theorem length_allocate (amounts : List Nat) (keep total : Nat) :
    (allocate amounts keep total).length = amounts.length := by
  unfold allocate
  split
  · rw [List.length_map]
  · rw [length_topUp, List.length_map]

theorem getD_map_mul_div (amounts : List Nat) (keep total i : Nat) :
    (amounts.map fun a => a * keep / total).getD i 0 = amounts.getD i 0 * keep / total := by
  rw [List.getD_eq_getElem?_getD, List.getElem?_map, List.getD_eq_getElem?_getD]
  cases amounts[i]? with
  | none => simp
  | some a => rfl

/-- **The shares add up to what is divided**, and nobody is given more than it has. -/
theorem allocate_spec {amounts : List Nat} {keep total : Nat} (hsum : amounts.sum = total)
    (hle : keep ≤ total) :
    (allocate amounts keep total).sum = keep ∧
      ∀ i, (allocate amounts keep total).getD i 0 ≤ amounts.getD i 0 := by
  unfold allocate
  split
  · next hzero =>
    refine ⟨?_, fun i => ?_⟩
    · rw [List.sum_eq_zero (by simp)]
      omega
    · rw [List.getD_eq_getElem?_getD, List.getElem?_map]
      cases amounts[i]? <;> exact Nat.zero_le _
  · next hzero =>
    have htotal : 0 < total := Nat.pos_of_ne_zero hzero
    have hfloor : ∀ i, (amounts.map fun a => a * keep / total).getD i 0 ≤ amounts.getD i 0 := by
      intro i
      rw [getD_map_mul_div]
      exact Nat.div_le_of_le_mul (by rw [Nat.mul_comm]; exact Nat.mul_le_mul_right _ hle)
    obtain ⟨hspec, htop⟩ := @topUp_spec amounts (remainders amounts keep total)
      (keep - (amounts.map fun a => a * keep / total).sum) _
      (nodup_remainders amounts keep total)
      (fun r hr => by rw [List.length_map]; exact (mem_remainders hr).1) hfloor
    refine ⟨?_, hspec⟩
    -- one that is rounded down has room
    have hroom := @left_le_countP amounts keep total htotal hsum
      (fun r => decide
        ((amounts.map fun a => a * keep / total).getD r.2 0 < amounts.getD r.2 0))
      fun r hr hpos => by
        rw [getD_map_mul_div, decide_eq_true_eq]
        rw [(mem_remainders hr).2] at hpos
        refine lt_of_le_of_ne (getD_map_mul_div amounts keep total r.2 ▸ hfloor r.2) fun heq => ?_
        have hdiv := Nat.div_add_mod (amounts.getD r.2 0 * keep) total
        rw [heq] at hdiv
        have : amounts.getD r.2 0 * keep ≤ total * amounts.getD r.2 0 := by
          rw [Nat.mul_comm]
          exact Nat.mul_le_mul_right _ hle
        omega
    have hfloors : (amounts.map fun a => a * keep / total).sum ≤ keep := by
      refine Nat.le_of_mul_le_mul_left ?_ htotal
      have := sum_div_mod amounts keep total
      rw [hsum] at this
      omega
    rw [htop, min_eq_left hroom]
    omega

/-! ### Lowering the routes of every source -/

/-- Routes with other values. -/
def lowerBy (mine : List Path) (take : List Nat) : List Path :=
  (mine.zip take).map fun p => { p.1 with value := p.2 }

theorem lowered_lowerBy {mine : List Path} {take : List Nat} (hlen : take.length = mine.length)
    (hle : ∀ i, take.getD i 0 ≤ (mine.map Path.value).getD i 0) :
    List.Forall₂ Lowered mine (lowerBy mine take) := by
  induction mine generalizing take with
  | nil => exact .nil
  | cons p mine ih =>
    cases take with
    | nil => cases hlen
    | cons x take =>
      exact .cons ⟨rfl, rfl, hle 0⟩ (ih (Nat.succ.inj hlen) fun i => hle (i + 1))

/-- Lowering the routes of every source lowers them all. -/
theorem exists_lowered {paths : List Path} {pieces : Nat → List Path}
    (h : ∀ u, List.Forall₂ Lowered (paths.filter fun q => q.source = u) (pieces u)) :
    ∃ lower, List.Forall₂ Lowered paths lower ∧
      ∀ u, lower.filter (fun q => q.source = u) = pieces u := by
  induction paths generalizing pieces with
  | nil => exact ⟨[], .nil, fun u => (List.forall₂_nil_left_iff.1 (h u)).symm⟩
  | cons p paths ih =>
    have hhead := h p.source
    rw [List.filter_cons_of_pos (by simp)] at hhead
    cases hpieces : pieces p.source with
    | nil => rw [hpieces] at hhead; cases hhead
    | cons q rest =>
      rw [hpieces] at hhead
      cases hhead with
      | cons hpq htail =>
        obtain ⟨lower, hlower, hfilter⟩ := @ih (Function.update pieces p.source rest) (by
          intro u
          by_cases hu : u = p.source
          · subst hu
            rw [Function.update_self]
            exact htail
          · rw [Function.update_of_ne hu]
            have hother := h u
            rwa [List.filter_cons_of_neg (by simpa using Ne.symm hu)] at hother)
        refine ⟨q :: lower, .cons hpq hlower, fun u => ?_⟩
        by_cases hu : u = p.source
        · subst hu
          rw [List.filter_cons_of_pos (by simp [hpq.source]), hfilter, Function.update_self, hpieces]
        · rw [List.filter_cons_of_neg (by simpa [hpq.source] using Ne.symm hu), hfilter,
            Function.update_of_ne hu]

/-- Adding up by group adds up. -/
theorem sum_grouped {α M : Type} [AddCommMonoid M] (F : α → M) (key : α → Nat) {us : List Nat}
    (hnodup : us.Nodup) {l : List α} (hmem : ∀ p ∈ l, key p ∈ us) :
    (us.map fun u => ((l.filter fun p => key p = u).map F).sum).sum = (l.map F).sum := by
  induction l with
  | nil =>
    refine List.sum_eq_zero fun x hx => ?_
    obtain ⟨u, -, rfl⟩ := List.mem_map.1 hx
    rfl
  | cons p l ih =>
    have hsplit : ∀ u, (((p :: l).filter fun p => key p = u).map F).sum =
        (if u = key p then F p else 0) + ((l.filter fun p => key p = u).map F).sum := by
      intro u
      rw [List.filter_cons]
      by_cases hu : key p = u
      · rw [if_pos (decide_eq_true hu), if_pos hu.symm, List.map_cons, List.sum_cons]
      · rw [if_neg (by simpa using hu), if_neg (Ne.symm hu), zero_add]
    have hone : (us.map fun u => if u = key p then F p else 0).sum = F p := by
      rw [← List.sum_toFinset _ hnodup, Finset.sum_ite_eq',
        if_pos (List.mem_toFinset.2 (hmem p List.mem_cons_self))]
    rw [List.map_congr_left fun u _ => hsplit u, List.sum_map_add, hone,
      ih fun q hq => hmem q (List.mem_cons_of_mem _ hq), List.map_cons, List.sum_cons]

theorem carried_flatMap (us : List Nat) (g : Nat → List Path) :
    carried (us.flatMap g) = (us.map fun u => carried (g u)).sum := by
  induction us with
  | nil => rfl
  | cons u us ih => rw [List.flatMap_cons, carried_append, ih, List.map_cons, List.sum_cons]

theorem drawn_flatMap (us : List Nat) (g : Nat → List Path) :
    drawn (us.flatMap g) = (us.map fun u => drawn (g u)).sum := by
  induction us with
  | nil => rfl
  | cons u us ih => rw [List.flatMap_cons, drawn_append, ih, List.map_cons, List.sum_cons]

theorem sum_values_flatMap (us : List Nat) (g : Nat → List Flow.Path) :
    ((us.flatMap g).map Flow.Path.value).sum =
      (us.map fun u => ((g u).map Flow.Path.value).sum).sum := by
  induction us with
  | nil => rfl
  | cons u us ih =>
    rw [List.flatMap_cons, List.map_append, List.sum_append, ih, List.map_cons, List.sum_cons]

/-- The routes of a hold's underwriters, taken one underwriter after the other, are its
routes. -/
theorem carried_grouped {us : List Nat} (hnodup : us.Nodup) {paths : List Path}
    (hmem : ∀ p ∈ paths, p.source ∈ us) :
    carried (us.flatMap fun u => paths.filter fun q => q.source = u) = carried paths := by
  rw [carried_flatMap]
  exact sum_grouped (fun p : Path => pathFlow p.arcs p.value) Flow.Path.source hnodup hmem

theorem drawn_grouped {us : List Nat} (hnodup : us.Nodup) {paths : List Path}
    (hmem : ∀ p ∈ paths, p.source ∈ us) :
    drawn (us.flatMap fun u => paths.filter fun q => q.source = u) = drawn paths := by
  rw [drawn_flatMap]
  exact sum_grouped (fun p : Path => Finsupp.single p.source p.value) Flow.Path.source hnodup hmem

/-! ### Amounts -/

theorem amount_eq_sum (h : Held) : h.amount = (listFlow h.supply).sum fun _ v => v := by
  unfold Held.amount listFlow
  induction h.supply with
  | nil => rfl
  | cons p l ih =>
    rw [List.map_cons, List.sum_cons, List.map_cons, List.sum_cons,
      Finsupp.sum_add_index' (fun _ => rfl) (fun _ _ _ => rfl), Finsupp.sum_single_index rfl, ih]

theorem amount_fromPaths (paths : List Flow.Path) :
    (fromPaths paths).amount = (drawn paths).sum fun _ v => v := by
  rw [amount_eq_sum, listFlow_fromPaths_supply]

theorem sum_drawn (paths : List Flow.Path) :
    ((drawn paths).sum fun _ v => v) = (paths.map Flow.Path.value).sum := by
  induction paths with
  | nil => rfl
  | cons p paths ih =>
    rw [drawn_cons, Finsupp.sum_add_index' (fun _ => rfl) (fun _ _ _ => rfl),
      Finsupp.sum_single_index rfl, ih, List.map_cons, List.sum_cons]

/-- What a source draws is what its routes carry. -/
theorem sum_values_source (paths : List Flow.Path) (u : Nat) :
    ((paths.filter fun q => q.source = u).map Flow.Path.value).sum = drawn paths u := by
  induction paths with
  | nil => rfl
  | cons p paths ih =>
    rw [List.filter_cons, drawn_cons, Finsupp.add_apply, Finsupp.single_apply]
    by_cases hu : p.source = u
    · rw [if_pos (decide_eq_true hu), if_pos hu, List.map_cons, List.sum_cons, ih]
    · rw [if_neg (by simpa using hu), if_neg hu, zero_add, ih]

/-- A hold is a flow to the debtor that can be read as routes, from its own underwriters. -/
def Readable (held : Held) (debtor : Nat) : Prop :=
  ∃ paths, decompose held debtor = .ok paths ∧
    ∀ p ∈ paths, IsWalk p.source p.arcs debtor ∧ 0 < amountAt held.supply p.source

theorem readable_of_greedy {held : Held} {debtor : Nat} {paths : List Flow.Path} (whole : held.Whole)
    (h : Greedy debtor paths) (hedges : ∀ a, amountAt held.edges a = carried paths a)
    (hsupply : ∀ u, amountAt held.supply u = drawn paths u) : Readable held debtor := by
  refine ⟨paths, decompose_of_greedy whole h hedges hsupply, fun p hp => ?_⟩
  obtain ⟨hwalk, hdraws⟩ := h.isWalk p hp
  exact ⟨hwalk, (hsupply p.source).symm ▸ hdraws⟩

/-- The routes of lists of pieces make up a readable hold, if the pieces are lowered from the
routes of a readable one. -/
theorem readable_pieces {debtor : Nat} {paths : List Flow.Path} (hgreedy : Greedy debtor paths)
    {us : List Nat} (hnodup : us.Nodup) (hmem : ∀ p ∈ paths, p.source ∈ us)
    {pieces : Nat → List Flow.Path}
    (hpieces : ∀ u, List.Forall₂ Lowered (paths.filter fun q => q.source = u) (pieces u)) :
    Readable (fromPaths (us.flatMap pieces)) debtor := by
  obtain ⟨lower, hlower, hfilter⟩ := exists_lowered hpieces
  have hsource : ∀ q ∈ lower, q.source ∈ us := by
    have hall : ∀ {paths lower : List Flow.Path}, List.Forall₂ Lowered paths lower →
        (∀ p ∈ paths, p.source ∈ us) → ∀ q ∈ lower, q.source ∈ us := by
      intro paths lower h
      induction h with
      | nil => exact fun _ q hq => nomatch hq
      | cons hpq _ ih =>
        intro hmem q hq
        rcases List.mem_cons.1 hq with rfl | hq
        · rw [hpq.source]
          exact hmem _ List.mem_cons_self
        · exact ih (fun p hp => hmem p (List.mem_cons_of_mem _ hp)) q hq
    exact hall hlower hmem
  have hgrouped : us.flatMap pieces = us.flatMap fun u => lower.filter fun q => q.source = u := by
    rw [funext hfilter]
  refine readable_of_greedy (whole_fromPaths _) (hgreedy.lower hlower) (fun a => ?_) fun u => ?_
  · rw [← listFlow_apply, listFlow_fromPaths_edges, carried_filter, hgrouped,
      carried_grouped hnodup hsource]
  · rw [← listFlow_apply, listFlow_fromPaths_supply, drawn_filter, hgrouped,
      drawn_grouped hnodup hsource]

/-! ### Splitting the routes of a source -/

/-- What the routes of a source take of what it keeps. -/
def taken (mine : List Flow.Path) (kept : Nat) : List Nat :=
  allocate (mine.map Flow.Path.value) (min kept (mine.map Flow.Path.value).sum)
    (mine.map Flow.Path.value).sum

/-- What they leave. -/
def leftOver (mine : List Flow.Path) (take : List Nat) : List Nat :=
  List.zipWith (fun p x => p.value - x) mine take

theorem taken_spec (mine : List Flow.Path) (kept : Nat) :
    (taken mine kept).length = mine.length ∧
      (taken mine kept).sum = min kept (mine.map Flow.Path.value).sum ∧
      ∀ i, (taken mine kept).getD i 0 ≤ (mine.map Flow.Path.value).getD i 0 := by
  obtain ⟨hsum, hle⟩ := @allocate_spec (mine.map Flow.Path.value) _ _ rfl
    (min_le_right kept (mine.map Flow.Path.value).sum)
  exact ⟨by rw [taken, length_allocate, List.length_map], hsum, hle⟩

theorem splitRoutes_eq (mine : List Flow.Path) (kept : Nat) :
    splitRoutes mine kept =
      ((lowerBy mine (taken mine kept)).filter fun p => decide (p.value ≠ 0),
        (lowerBy mine (leftOver mine (taken mine kept))).filter fun p => decide (p.value ≠ 0)) := by
  have hfst : ∀ take : List Nat,
      ((mine.zip take).filter fun p => decide (0 < p.2)).map (fun p => { p.1 with value := p.2 }) =
        (lowerBy mine take).filter fun p => decide (p.value ≠ 0) := by
    intro take
    unfold lowerBy
    rw [List.filter_map]
    congr 1
    refine List.filter_congr fun p _ => ?_
    exact decide_eq_decide.2 Nat.pos_iff_ne_zero
  have hsnd : ∀ take : List Nat,
      ((mine.zip take).filter fun p => decide (p.2 < p.1.value)).map
          (fun p => { p.1 with value := p.1.value - p.2 }) =
        (lowerBy mine (leftOver mine take)).filter fun p => decide (p.value ≠ 0) := by
    clear hfst
    unfold lowerBy leftOver
    intro take
    induction mine generalizing take with
    | nil => rfl
    | cons p mine ih =>
      cases take with
      | nil => rfl
      | cons x take =>
        rw [List.zip_cons_cons, List.zipWith_cons_cons, List.zip_cons_cons, List.map_cons,
          List.filter_cons, List.filter_cons, ← ih]
        by_cases hx : x < p.value
        · rw [if_pos (decide_eq_true hx), List.map_cons,
            if_pos (decide_eq_true (Nat.sub_ne_zero_of_lt hx))]
        · have hzero : p.value - x = 0 := Nat.sub_eq_zero_of_le (not_lt.1 hx)
          rw [if_neg (by simpa using hx), if_neg (by simp [hzero])]
  exact Prod.ext (hfst _) (hsnd _)

theorem values_lowerBy {mine : List Flow.Path} {take : List Nat} (hlen : take.length = mine.length) :
    (lowerBy mine take).map Flow.Path.value = take := by
  unfold lowerBy
  rw [List.map_map]
  exact List.map_snd_zip hlen.le

theorem leftOver_spec {mine : List Flow.Path} {take : List Nat} (hlen : take.length = mine.length)
    (hle : ∀ i, take.getD i 0 ≤ (mine.map Flow.Path.value).getD i 0) :
    (leftOver mine take).length = mine.length ∧
      (∀ i, (leftOver mine take).getD i 0 ≤ (mine.map Flow.Path.value).getD i 0) ∧
      carried mine = carried (lowerBy mine take) + carried (lowerBy mine (leftOver mine take)) ∧
      drawn mine = drawn (lowerBy mine take) + drawn (lowerBy mine (leftOver mine take)) := by
  induction mine generalizing take with
  | nil =>
    refine ⟨by simp [leftOver], fun i => by simp [leftOver], ?_, ?_⟩ <;> rfl
  | cons p mine ih =>
    cases take with
    | nil => cases hlen
    | cons x take =>
      obtain ⟨hlen', hle', hcarried, hdrawn⟩ := ih (Nat.succ.inj hlen) fun i => hle (i + 1)
      have hx : x ≤ p.value := hle 0
      have hvalue : x + (p.value - x) = p.value := Nat.add_sub_cancel' hx
      refine ⟨congrArg Nat.succ hlen', fun i => ?_, ?_, ?_⟩
      · cases i with
        | zero => exact Nat.sub_le _ _
        | succ i => exact hle' i
      · show carried (p :: mine) = (pathFlow p.arcs x + carried (lowerBy mine take)) +
          (pathFlow p.arcs (p.value - x) + carried (lowerBy mine (leftOver mine take)))
        rw [carried_cons, hcarried, ← hvalue, pathFlow_add, hvalue]
        exact add_add_add_comm _ _ _ _
      · show drawn (p :: mine) = (Finsupp.single p.source x + drawn (lowerBy mine take)) +
          (Finsupp.single p.source (p.value - x) + drawn (lowerBy mine (leftOver mine take)))
        rw [drawn_cons, hdrawn, ← hvalue, Finsupp.single_add, hvalue]
        exact add_add_add_comm _ _ _ _

theorem fromPaths_filter (paths : List Flow.Path) :
    fromPaths (paths.filter fun p => decide (p.value ≠ 0)) = fromPaths paths := by
  unfold fromPaths
  rw [List.filter_filter]
  simp only [Bool.and_self]

theorem fromPaths_flatMap_filter (us : List Nat) (g : Nat → List Flow.Path) :
    fromPaths (us.flatMap fun u => (g u).filter fun p => decide (p.value ≠ 0)) =
      fromPaths (us.flatMap g) := by
  rw [← fromPaths_filter (us.flatMap g), List.filter_flatMap]

/-! ### Splitting a hold -/

/-- Shares handed out by position are shares by key. -/
theorem map_amountAt_zip {us kept : List Nat} (hnodup : us.Nodup) (hlen : kept.length = us.length) :
    us.map (amountAt (us.zip kept)) = kept := by
  induction us generalizing kept with
  | nil => exact (List.length_eq_zero_iff.1 hlen).symm
  | cons u us ih =>
    cases kept with
    | nil => cases hlen
    | cons k kept =>
      obtain ⟨hnew, hnodup⟩ := List.nodup_cons.1 hnodup
      have hlen := Nat.succ.inj hlen
      have hkeys : (us.zip kept).map Prod.fst = us := List.map_fst_zip hlen.ge
      rw [List.zip_cons_cons, List.map_cons]
      congr 1
      · rw [amountAt_cons, if_pos rfl, amountAt_eq_zero (by rwa [hkeys]), Nat.add_zero]
      · rw [List.map_congr_left (g := amountAt (us.zip kept)) fun v hv => ?_, ih hnodup hlen]
        have hne : u ≠ v := fun heq => hnew (heq ▸ hv)
        rw [amountAt_cons, if_neg hne, Nat.zero_add]

theorem amountAt_zip_le {us kept weights : List Nat} (hlen : kept.length = us.length)
    (hlen' : weights.length = us.length) (hle : ∀ i, kept.getD i 0 ≤ weights.getD i 0) (u : Nat) :
    amountAt (us.zip kept) u ≤ amountAt (us.zip weights) u := by
  induction us generalizing kept weights with
  | nil => exact le_rfl
  | cons v us ih =>
    cases kept with
    | nil => cases hlen
    | cons k kept =>
      cases weights with
      | nil => cases hlen'
      | cons w weights =>
        have hrest := ih (Nat.succ.inj hlen) (Nat.succ.inj hlen') fun i => hle (i + 1)
        have hhead : k ≤ w := hle 0
        rw [List.zip_cons_cons, List.zip_cons_cons, amountAt_cons, amountAt_cons]
        refine Nat.add_le_add ?_ hrest
        split
        · exact hhead
        · exact le_rfl

/-- **Splitting a hold loses nothing.** What is kept and what goes back make up the hold, arc
for arc and draw for draw; they draw just what is to be kept and the rest; and each is again
a flow to the debtor. -/
theorem shrink_splits {held : Held} {debtor keep : Nat} {paths : List Flow.Path}
    (whole : held.Whole) (h : decompose held debtor = .ok paths) (hkeep : keep ≤ held.amount) :
    held.Splits (shrink held debtor keep held.amount).1 (shrink held debtor keep held.amount).2 ∧
      (shrink held debtor keep held.amount).1.amount = keep ∧
      (shrink held debtor keep held.amount).2.amount = held.amount - keep ∧
      Readable (shrink held debtor keep held.amount).1 debtor ∧
      Readable (shrink held debtor keep held.amount).2 debtor := by
  obtain ⟨hgreedy, hedges, hsupply⟩ := greedy_of_decompose whole h
  obtain ⟨hkept, hroom⟩ := @allocate_spec (held.supply.map Prod.snd) _ _ rfl hkeep
  have hnodup := whole.supply
  obtain ⟨us, hus⟩ : ∃ us, us = held.supply.map Prod.fst := ⟨_, rfl⟩
  obtain ⟨kept, hkeptdef⟩ : ∃ kept, kept =
    allocate (held.supply.map Prod.snd) keep (held.supply.map Prod.snd).sum := ⟨_, rfl⟩
  rw [← hkeptdef] at hkept hroom
  rw [← hus] at hnodup
  have hlen : kept.length = us.length := by
    rw [hkeptdef, length_allocate, List.length_map, hus, List.length_map]
  obtain ⟨share, hshare⟩ : ∃ share, share = amountAt (us.zip kept) := ⟨_, rfl⟩
  have hshares : us.map share = kept := hshare ▸ map_amountAt_zip hnodup hlen
  let mine : Nat → List Flow.Path := fun u => paths.filter fun q => q.source = u
  let low : Nat → List Flow.Path := fun u => lowerBy (mine u) (taken (mine u) (share u))
  let high : Nat → List Flow.Path :=
    fun u => lowerBy (mine u) (leftOver (mine u) (taken (mine u) (share u)))
  have hspec := fun u => taken_spec (mine u) (share u)
  have hleft := fun u => leftOver_spec (hspec u).1 (hspec u).2.2
  have hlow : ∀ u, List.Forall₂ Lowered (mine u) (low u) :=
    fun u => lowered_lowerBy (hspec u).1 (hspec u).2.2
  have hhigh : ∀ u, List.Forall₂ Lowered (mine u) (high u) :=
    fun u => lowered_lowerBy (hleft u).1 (hleft u).2.1
  have hmem : ∀ p ∈ paths, p.source ∈ us := by
    intro p hp
    have hdraws := (hgreedy.isWalk p hp).2
    by_contra hnot
    rw [← hsupply, amountAt_eq_zero (hus ▸ hnot)] at hdraws
    cases hdraws
  -- The pieces are made of the lowered routes of every underwriter.
  have hshrink : shrink held debtor keep held.amount =
      (fromPaths (us.flatMap low), fromPaths (us.flatMap high)) := by
    have hpieces : (held.supply.zip kept).map (fun p =>
        splitRoutes (paths.filter fun q => q.source = p.1.1) p.2) =
          us.map fun u => splitRoutes (mine u) (share u) := by
      rw [← hshares, hus, List.map_map, List.map_map]
      have hzip : held.supply.zip (held.supply.map (share ∘ Prod.fst)) =
          held.supply.map fun p => (p, share p.1) := by
        have hpair := List.zip_map' (f := id) (g := share ∘ Prod.fst) (l := held.supply)
        rwa [List.map_id] at hpair
      rw [hzip, List.map_map]
      rfl
    unfold shrink
    rw [h]
    dsimp only
    have hallocate : allocate (held.supply.map Prod.snd) keep held.amount = kept := hkeptdef.symm
    rw [hallocate, hpieces]
    simp only [List.flatMap_map, splitRoutes_eq, fromPaths_flatMap_filter]
    rfl
  have hreadLow := readable_pieces hgreedy hnodup hmem hlow
  have hreadHigh := readable_pieces hgreedy hnodup hmem hhigh
  have hcarried : carried paths = carried (us.flatMap low) + carried (us.flatMap high) := by
    rw [← carried_grouped hnodup hmem, carried_flatMap, carried_flatMap, carried_flatMap,
      ← List.sum_map_add]
    exact congrArg List.sum (List.map_congr_left fun u _ => (hleft u).2.2.1)
  have hdrawn : drawn paths = drawn (us.flatMap low) + drawn (us.flatMap high) := by
    rw [← drawn_grouped hnodup hmem, drawn_flatMap, drawn_flatMap, drawn_flatMap,
      ← List.sum_map_add]
    exact congrArg List.sum (List.map_congr_left fun u _ => (hleft u).2.2.2)
  have hsplits : held.Splits (fromPaths (us.flatMap low)) (fromPaths (us.flatMap high)) := by
    refine ⟨fun a => ?_, fun u => ?_⟩
    · rw [hedges a, ← listFlow_apply, ← listFlow_apply, listFlow_fromPaths_edges,
        listFlow_fromPaths_edges, hcarried, Finsupp.add_apply]
    · rw [hsupply u, ← listFlow_apply, ← listFlow_apply, listFlow_fromPaths_supply,
        listFlow_fromPaths_supply, hdrawn, Finsupp.add_apply]
  have hlowAmount : (fromPaths (us.flatMap low)).amount = keep := by
    have hvalues : ((us.flatMap low).map Flow.Path.value).sum = (us.map share).sum := by
      rw [sum_values_flatMap]
      refine congrArg List.sum (List.map_congr_left fun u _ => ?_)
      have hweights : us.zip (held.supply.map Prod.snd) = held.supply := by
        rw [hus, List.zip_map', List.map_id'']
        exact fun _ => rfl
      have hle : share u ≤ drawn paths u := by
        rw [← hsupply, ← hweights, hshare]
        exact amountAt_zip_le hlen (by rw [hus, List.length_map, List.length_map]) hroom u
      rw [values_lowerBy (hspec u).1, (hspec u).2.1, sum_values_source, min_eq_left hle]
    rw [amount_fromPaths, sum_drawn, hvalues, hshares, hkept]
  have hamounts : held.amount = (fromPaths (us.flatMap low)).amount +
      (fromPaths (us.flatMap high)).amount := by
    have hflow : listFlow held.supply = listFlow (fromPaths (us.flatMap low)).supply +
        listFlow (fromPaths (us.flatMap high)).supply := by
      ext u
      rw [Finsupp.add_apply, listFlow_apply, listFlow_apply, listFlow_apply]
      exact hsplits.supply u
    rw [amount_eq_sum, amount_eq_sum, amount_eq_sum, hflow,
      Finsupp.sum_add_index' (fun _ => rfl) (fun _ _ _ => rfl)]
  rw [hshrink]
  exact ⟨hsplits, hlowAmount, by dsimp only; omega, hreadLow, hreadHigh⟩

/-! ### Substitution -/

/-- The routes from one source, as lowered routes of all. -/
def onlyFrom (u : Nat) (paths : List Flow.Path) : List Flow.Path :=
  paths.map fun q => if q.source = u then q else { q with value := 0 }

theorem lowered_onlyFrom (u : Nat) (paths : List Flow.Path) :
    List.Forall₂ Lowered paths (onlyFrom u paths) := by
  unfold onlyFrom
  rw [List.forall₂_map_right_iff, List.forall₂_same]
  intro q _
  split
  · exact ⟨rfl, rfl, le_rfl⟩
  · exact ⟨rfl, rfl, Nat.zero_le _⟩

theorem carried_onlyFrom (u : Nat) (paths : List Flow.Path) :
    carried (onlyFrom u paths) = carried (paths.filter fun q => q.source = u) := by
  induction paths with
  | nil => rfl
  | cons q paths ih =>
    have hcons : carried (onlyFrom u (q :: paths)) =
        pathFlow (if q.source = u then q else { q with value := 0 }).arcs
          (if q.source = u then q else { q with value := 0 }).value + carried (onlyFrom u paths) := rfl
    rw [hcons, ih, List.filter_cons]
    by_cases hu : q.source = u
    · rw [if_pos hu, if_pos (decide_eq_true hu), carried_cons]
    · rw [if_neg hu, if_neg (by simpa using hu), pathFlow_zero, zero_add]

theorem drawn_onlyFrom (u : Nat) (paths : List Flow.Path) :
    drawn (onlyFrom u paths) = Finsupp.single u (drawn paths u) := by
  induction paths with
  | nil => exact (Finsupp.single_zero u).symm
  | cons q paths ih =>
    have hcons : drawn (onlyFrom u (q :: paths)) =
        Finsupp.single (if q.source = u then q else { q with value := 0 }).source
          (if q.source = u then q else { q with value := 0 }).value + drawn (onlyFrom u paths) := rfl
    rw [hcons, ih, drawn_cons, Finsupp.add_apply, Finsupp.single_apply]
    by_cases hu : q.source = u
    · rw [if_pos hu, if_pos hu, Finsupp.single_add, hu]
    · rw [if_neg hu, if_neg hu, Finsupp.single_zero, zero_add, zero_add]

/-- What one underwriter's claim holds. -/
def pieceOf (paths : List Flow.Path) (p : Nat × Nat) : Held where
  edges := (fromPaths (paths.filter fun q => q.source = p.1)).edges
  supply := [p]

theorem held_shares {c : Contract} {paths : List Flow.Path}
    (h : decompose c.held c.debtor = .ok paths) :
    (Apply.shares c).map Apply.Share.held = c.held.supply.map (pieceOf paths) := by
  have hzip : c.held.supply.zip (edgePieces c.held c.debtor) =
      c.held.supply.map fun p => (p, (fromPaths (paths.filter fun q => q.source = p.1)).edges) := by
    have hpieces : edgePieces c.held c.debtor =
        c.held.supply.map fun p => (fromPaths (paths.filter fun q => q.source = p.1)).edges := by
      unfold edgePieces
      rw [h]
    have hpair := List.zip_map' (f := id) (l := c.held.supply)
      (g := fun p => (fromPaths (paths.filter fun q => q.source = p.1)).edges)
    rw [hpieces]
    rwa [List.map_id] at hpair
  unfold Apply.shares
  dsimp only
  rw [hzip, List.map_map]
  have hindex : ∀ l : List ((Nat × Nat) × List ((Nat × Nat) × Nat)),
      l.zipIdx.map (fun p => ({ edges := p.1.2, supply := [p.1.1] } : Held)) =
        l.map fun p => { edges := p.2, supply := [p.1] } := by
    intro l
    have hfst := List.zipIdx_map_fst 0 l
    conv_rhs => rw [← hfst, List.map_map]
    rfl
  refine (hindex _).trans ?_
  rw [List.map_map]
  rfl

/-- **The claims of the underwriters behind an obligation partition its hold**, and each
holds a flow to the debtor. -/
theorem shares_split {c : Contract} {paths : List Flow.Path} (whole : c.held.Whole)
    (h : decompose c.held c.debtor = .ok paths) :
    (∀ a, ((Apply.shares c).map fun sh => amountAt sh.held.edges a).sum = amountAt c.held.edges a) ∧
      (∀ u, ((Apply.shares c).map fun sh => amountAt sh.held.supply u).sum =
        amountAt c.held.supply u) ∧
      ∀ sh ∈ Apply.shares c, sh.held.supply.length = 1 ∧ Readable sh.held c.debtor := by
  obtain ⟨hgreedy, hedges, hsupply⟩ := greedy_of_decompose whole h
  have hheld := held_shares h
  have hmap : ∀ f : Held → Nat, (Apply.shares c).map (fun sh => f sh.held) =
      c.held.supply.map fun p => f (pieceOf paths p) := by
    intro f
    have hf := congrArg (List.map f) hheld
    rwa [List.map_map, List.map_map] at hf
  have hmem : ∀ p ∈ paths, p.source ∈ c.held.supply.map Prod.fst := by
    intro p hp
    have hdraws := (hgreedy.isWalk p hp).2
    by_contra hnot
    rw [← hsupply, amountAt_eq_zero hnot] at hdraws
    cases hdraws
  refine ⟨fun a => ?_, fun u => ?_, fun sh hsh => ?_⟩
  · have happly : ∀ l : List (Nat × Nat), (l.map fun p => amountAt (pieceOf paths p).edges a).sum =
        (l.map fun p => carried (paths.filter fun q => q.source = p.1)).sum a := by
      intro l
      induction l with
      | nil => rfl
      | cons p l ih =>
        rw [List.map_cons, List.sum_cons, List.map_cons, List.sum_cons, Finsupp.add_apply, ih,
          ← listFlow_apply]
        congr 1
        exact DFunLike.congr_fun (listFlow_fromPaths_edges _) a
    have hgrouped := carried_grouped whole.supply hmem
    rw [carried_flatMap, List.map_map] at hgrouped
    rw [hmap fun held => amountAt held.edges a, happly, hedges a]
    exact DFunLike.congr_fun hgrouped a
  · rw [hmap fun held => amountAt held.supply u]
    rfl
  · obtain ⟨p, hp, hpiece⟩ : ∃ p ∈ c.held.supply, pieceOf paths p = sh.held := by
      have hin : sh.held ∈ (Apply.shares c).map Apply.Share.held := List.mem_map_of_mem hsh
      rw [hheld] at hin
      exact List.mem_map.1 hin
    rw [← hpiece]
    refine ⟨rfl, readable_of_greedy ⟨OrdMap.nodup_keys _, List.nodup_singleton _⟩
      (hgreedy.lower (lowered_onlyFrom p.1 paths)) (fun a => ?_) fun u => ?_⟩
    · rw [carried_filter, carried_onlyFrom, ← listFlow_apply]
      exact DFunLike.congr_fun (listFlow_fromPaths_edges _) a
    · have hdraw : drawn paths p.1 = p.2 := by
        rw [← hsupply, amountAt_of_mem whole.supply hp]
      rw [drawn_filter, drawn_onlyFrom, hdraw, Finsupp.single_apply]
      rfl

/-- **Splitting a hold loses nothing**: neither a partial release (`shrink`), nor the
division of an amount (`allocate`), nor the substitution of several underwriters
(`shares`). -/
theorem splits_whole {held : Held} {debtor : MemberId} (whole : held.Whole)
    (h : ∃ paths, decompose held debtor = .ok paths) :
    (∀ keep ≤ held.amount,
      held.Splits (shrink held debtor keep held.amount).1 (shrink held debtor keep held.amount).2 ∧
      (shrink held debtor keep held.amount).1.amount = keep ∧
      (shrink held debtor keep held.amount).2.amount = held.amount - keep ∧
      Readable (shrink held debtor keep held.amount).1 debtor ∧
      Readable (shrink held debtor keep held.amount).2 debtor) ∧
    (∀ (amounts : List Nat), ∀ keep ≤ amounts.sum, (allocate amounts keep amounts.sum).sum = keep ∧
      ∀ i, (allocate amounts keep amounts.sum).getD i 0 ≤ amounts.getD i 0) ∧
    ∀ c : Contract, c.held = held → c.debtor = debtor →
      (∀ a, ((Apply.shares c).map fun sh => amountAt sh.held.edges a).sum = amountAt held.edges a) ∧
      (∀ u, ((Apply.shares c).map fun sh => amountAt sh.held.supply u).sum = amountAt held.supply u) ∧
      ∀ sh ∈ Apply.shares c, sh.held.supply.length = 1 ∧ Readable sh.held debtor := by
  obtain ⟨paths, hpaths⟩ := h
  refine ⟨fun keep hkeep => shrink_splits whole hpaths hkeep,
    fun amounts keep hkeep => allocate_spec rfl hkeep, ?_⟩
  rintro c rfl rfl
  exact shares_split whole hpaths

/-- A hold of two underwriters that share an arc, and the routes it is read as. -/
def sharedHold : Held where
  edges := [((0, 2), 3), ((1, 2), 4), ((2, 3), 7)]
  supply := [(0, 3), (1, 4)]

theorem splits_sharedHold :
    (shrink sharedHold 3 4 7).1.amount = 4 ∧ Readable (shrink sharedHold 3 4 7).1 3 ∧
      (shrink sharedHold 3 4 7).1.supply = [(0, 2), (1, 2)] := by
  have hwhole : sharedHold.Whole := ⟨by decide, by decide⟩
  have hpaths : decompose sharedHold 3 =
      .ok [{ source := 0, arcs := [(0, 2), (2, 3)], value := 3 },
        { source := 1, arcs := [(1, 2), (2, 3)], value := 4 }] := by
    decide +kernel
  obtain ⟨-, hamount, -, hread, -⟩ := (splits_whole hwhole ⟨_, hpaths⟩).1 4 (by decide)
  exact ⟨hamount, hread, by decide +kernel⟩

end Edet.Loss
