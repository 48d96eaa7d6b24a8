import Edet.Kernel.Holds
import Edet.Library.NetworkFlow
import Mathlib.Data.Nat.Bitwise

/-!
# What an augmentation keeps

The residual network stores an arc and its reverse side by side: arc `2 * i` and
`2 * i + 1`. A push along a path from the source to the sink takes from every arc what
it adds to its reverse, and passes through every inner node. So the two capacities of a
pair keep their sum, and what is left out of an inner node (`Network.residual`) stays as
it was (`Network.Augments`).

That holds of one push along a path without repeated arcs, of a phase, whose path climbs
one level with every arc, and so of the whole flow (`augments_flow`).
-/

namespace Edet.Flow

open NetworkFlow

namespace Network

/-! ### Paired arcs -/

/-- The arcs and their reverses stand side by side, as the list of forward arcs says. -/
structure Paired (net : Network) (arcs : List (Nat × Nat)) : Prop where
  tail_even : ∀ i < arcs.length, net.tail.getD (2 * i) 0 = (arcs.getD i (0, 0)).1
  tail_odd : ∀ i < arcs.length, net.tail.getD (2 * i + 1) 0 = (arcs.getD i (0, 0)).2
  dest_even : ∀ i < arcs.length, net.dest.getD (2 * i) 0 = (arcs.getD i (0, 0)).2
  dest_odd : ∀ i < arcs.length, net.dest.getD (2 * i + 1) 0 = (arcs.getD i (0, 0)).1
  length_tail : net.tail.length = 2 * arcs.length
  length_cap : net.cap.length = 2 * arcs.length

/-- What is left on the arcs out of a node, over capacities `cap`. -/
def residual (arcs : List (Nat × Nat)) (cap : List Nat) (v : Nat) : Nat :=
  ∑ i ∈ Finset.range arcs.length,
    ((if (arcs.getD i (0, 0)).1 = v then cap.getD (2 * i) 0 else 0) +
      if (arcs.getD i (0, 0)).2 = v then cap.getD (2 * i + 1) 0 else 0)

theorem xor_one_even (i : Nat) : 2 * i ^^^ 1 = 2 * i + 1 :=
  Nat.xor_one_of_even ⟨i, by ring⟩

theorem xor_one_odd (i : Nat) : (2 * i + 1) ^^^ 1 = 2 * i :=
  Nat.xor_one_of_odd ⟨i, rfl⟩

/-- The arc behind a number: which pair it is of, and whether it is the reverse. -/
theorem arc_cases {m a : Nat} (h : a < 2 * m) :
    ∃ i < m, (a = 2 * i ∧ a ^^^ 1 = 2 * i + 1) ∨ (a = 2 * i + 1 ∧ a ^^^ 1 = 2 * i) := by
  refine ⟨a / 2, by omega, ?_⟩
  rcases Nat.even_or_odd' a with ⟨i, rfl | rfl⟩
  · refine .inl ⟨by omega, ?_⟩
    rw [xor_one_even]
    omega
  · refine .inr ⟨by omega, ?_⟩
    rw [xor_one_odd]
    omega

namespace Paired

variable {net : Network} {arcs : List (Nat × Nat)}

theorem tail_xor (h : net.Paired arcs) {a : Nat} (ha : a < 2 * arcs.length) :
    net.dest.getD (a ^^^ 1) 0 = net.tail.getD a 0 := by
  obtain ⟨i, hi, ⟨rfl, hx⟩ | ⟨rfl, hx⟩⟩ := arc_cases ha
  · rw [hx, h.dest_odd i hi, h.tail_even i hi]
  · rw [hx, h.dest_even i hi, h.tail_odd i hi]

theorem of_cap (h : net.Paired arcs) {cap : List Nat} (hlen : cap.length = net.cap.length) :
    ({ net with cap } : Network).Paired arcs where
  tail_even := h.tail_even
  tail_odd := h.tail_odd
  dest_even := h.dest_even
  dest_odd := h.dest_odd
  length_tail := h.length_tail
  length_cap := hlen.trans h.length_cap

end Paired

/-! ### One arc -/

/-- Push `x` along one arc. -/
def pushArc (x : Nat) (cap : List Nat) (a : Nat) : List Nat :=
  let cap := cap.set a (cap.getD a 0 - x)
  cap.set (a ^^^ 1) (cap.getD (a ^^^ 1) 0 + x)

theorem length_pushArc (x : Nat) (cap : List Nat) (a : Nat) :
    (pushArc x cap a).length = cap.length := by
  simp [pushArc]

theorem getD_set (l : List Nat) (i j x : Nat) (hi : i < l.length) :
    (l.set i x).getD j 0 = if i = j then x else l.getD j 0 := by
  simp only [List.getD_eq_getElem?_getD, List.getElem?_set]
  split
  · next h => simp [hi]
  · rfl

theorem getD_pushArc {x : Nat} {cap : List Nat} {a m : Nat} (hlen : cap.length = 2 * m)
    (ha : a < 2 * m) (b : Nat) :
    (pushArc x cap a).getD b 0 =
      if b = a then cap.getD a 0 - x
      else if b = a ^^^ 1 then cap.getD (a ^^^ 1) 0 + x
      else cap.getD b 0 := by
  obtain ⟨i, hi, ⟨rfl, hx⟩ | ⟨rfl, hx⟩⟩ := arc_cases ha <;>
  · unfold pushArc
    rw [hx, getD_set _ _ _ _ (by simp; omega), getD_set _ _ _ _ (by omega),
      getD_set _ _ _ _ (by omega)]
    split_ifs <;> first | rfl | omega

/-- What one push does to the capacities of a pair, and what it moves at a node. -/
theorem residual_pushArc {net : Network} {arcs : List (Nat × Nat)} (h : net.Paired arcs)
    {cap : List Nat} (hlen : cap.length = 2 * arcs.length) {a : Nat} (ha : a < 2 * arcs.length)
    {x : Nat} (hx : x ≤ cap.getD a 0) (v : Nat) :
    residual arcs (pushArc x cap a) v + (if net.tail.getD a 0 = v then x else 0) =
      residual arcs cap v + if net.dest.getD a 0 = v then x else 0 := by
  obtain ⟨i, hi, hcase⟩ := arc_cases ha
  have hmem : i ∈ Finset.range arcs.length := Finset.mem_range.2 hi
  -- Only the pair of the arc changes.
  have hrest : ∀ j ∈ (Finset.range arcs.length).erase i,
      ((if (arcs.getD j (0, 0)).1 = v then (pushArc x cap a).getD (2 * j) 0 else 0) +
        if (arcs.getD j (0, 0)).2 = v then (pushArc x cap a).getD (2 * j + 1) 0 else 0) =
      ((if (arcs.getD j (0, 0)).1 = v then cap.getD (2 * j) 0 else 0) +
        if (arcs.getD j (0, 0)).2 = v then cap.getD (2 * j + 1) 0 else 0) := by
    intro j hj
    have hne := Finset.ne_of_mem_erase hj
    have h₁ : 2 * j ≠ 2 * i := by omega
    have h₂ : 2 * j ≠ 2 * i + 1 := by omega
    have h₃ : 2 * j + 1 ≠ 2 * i := by omega
    have h₄ : 2 * j + 1 ≠ 2 * i + 1 := by omega
    rw [getD_pushArc hlen ha, getD_pushArc hlen ha]
    rcases hcase with ⟨rfl, hxor⟩ | ⟨rfl, hxor⟩ <;>
      simp only [hxor, if_neg h₁, if_neg h₂, if_neg h₃, if_neg h₄]
  unfold residual
  rw [← Finset.add_sum_erase _ _ hmem, ← Finset.add_sum_erase _ _ hmem, Finset.sum_congr rfl hrest,
    getD_pushArc hlen ha, getD_pushArc hlen ha]
  have hne : 2 * i ≠ 2 * i + 1 := by omega
  rcases hcase with ⟨rfl, hxor⟩ | ⟨rfl, hxor⟩
  · rw [hxor, h.tail_even i hi, h.dest_even i hi, if_pos rfl, if_neg hne.symm, if_pos rfl]
    split_ifs <;> omega
  · rw [hxor, h.tail_odd i hi, h.dest_odd i hi, if_neg hne, if_pos rfl, if_pos rfl]
    split_ifs <;> omega

/-! ### A path -/

/-- The ends of the arcs of a path. -/
def ends (net : Network) (path : List Nat) : List (Nat × Nat) :=
  path.map fun a => (net.tail.getD a 0, net.dest.getD a 0)

/-- Capacities `cap'` come from `cap` by pushing `x` from `src` to `snk`. -/
structure Pushed (net : Network) (arcs : List (Nat × Nat)) (cap cap' : List Nat) (x : Nat) :
    Prop where
  length : cap'.length = cap.length
  pair : ∀ i < arcs.length, cap'.getD (2 * i) 0 + cap'.getD (2 * i + 1) 0 =
    cap.getD (2 * i) 0 + cap.getD (2 * i + 1) 0
  inner : ∀ v, v ≠ net.src → v ≠ net.snk → residual arcs cap' v = residual arcs cap v
  source : residual arcs cap' net.src + x = residual arcs cap net.src

theorem pair_pushArc {cap : List Nat} {m : Nat} (hlen : cap.length = 2 * m) {a : Nat}
    (ha : a < 2 * m) {x : Nat} (hx : x ≤ cap.getD a 0) (i : Nat) :
    (pushArc x cap a).getD (2 * i) 0 + (pushArc x cap a).getD (2 * i + 1) 0 =
      cap.getD (2 * i) 0 + cap.getD (2 * i + 1) 0 := by
  rw [getD_pushArc hlen ha, getD_pushArc hlen ha]
  obtain ⟨j, hj, ⟨rfl, hxor⟩ | ⟨rfl, hxor⟩⟩ := arc_cases ha <;> rw [hxor] <;>
  · by_cases hij : i = j
    · subst hij
      split_ifs <;> omega
    · split_ifs <;> omega

/-- Pushing along a path without repeated arcs. -/
theorem pushed_walk {net : Network} {arcs : List (Nat × Nat)} (h : net.Paired arcs) {x : Nat}
    {path : List Nat} (hnodup : path.Nodup) (hrange : ∀ a ∈ path, a < 2 * arcs.length)
    {cap : List Nat} (hlen : cap.length = 2 * arcs.length) (hx : ∀ a ∈ path, x ≤ cap.getD a 0)
    {u w : Nat} (hwalk : IsWalk u (net.ends path) w) :
    (push cap path x).length = cap.length ∧
    (∀ i, (push cap path x).getD (2 * i) 0 + (push cap path x).getD (2 * i + 1) 0 =
      cap.getD (2 * i) 0 + cap.getD (2 * i + 1) 0) ∧
    ∀ v, residual arcs (push cap path x) v + (if u = v then x else 0) =
      residual arcs cap v + if w = v then x else 0 := by
  induction path generalizing cap u with
  | nil =>
    have huw : u = w := hwalk
    subst huw
    exact ⟨rfl, fun _ => rfl, fun _ => rfl⟩
  | cons a path ih =>
    have ha := hrange a (by simp)
    have hxa := hx a (by simp)
    obtain ⟨htail, hrestwalk⟩ := hwalk
    have hlen' : (pushArc x cap a).length = 2 * arcs.length := (length_pushArc x cap a).trans hlen
    -- The arcs still to come are no emptier than before: a reverse only gains.
    have hx' : ∀ b ∈ path, x ≤ (pushArc x cap a).getD b 0 := by
      intro b hb
      have hne : b ≠ a := fun heq => (List.nodup_cons.1 hnodup).1 (heq ▸ hb)
      have hxb := hx b (by simp [hb])
      rw [getD_pushArc hlen ha, if_neg hne]
      split
      · next heq =>
        rw [heq] at hxb
        omega
      · exact hxb
    obtain ⟨hl, hp, hr⟩ := ih (List.nodup_cons.1 hnodup).2 (fun b hb => hrange b (by simp [hb]))
      hlen' hx' hrestwalk
    have hcons : push cap (a :: path) x = push (pushArc x cap a) path x := rfl
    rw [hcons]
    refine ⟨hl.trans (length_pushArc x cap a), fun i => ?_, fun v => ?_⟩
    · rw [hp, pair_pushArc hlen ha hxa]
    · have hstep := residual_pushArc h hlen ha hxa v
      have hrest := hr v
      simp only at htail hrest
      rw [htail] at hstep
      omega

/-! ### A phase -/

/-- Where `f` climbs by one along every arc, no arc of a walk repeats. -/
theorem nodup_of_climb {net : Network} {f : Nat → Nat} {path : List Nat} {u w : Nat}
    (hwalk : IsWalk u (net.ends path) w)
    (hclimb : ∀ a ∈ path, f (net.dest.getD a 0) = f (net.tail.getD a 0) + 1) :
    path.Nodup ∧ ∀ a ∈ path, f u < f (net.dest.getD a 0) := by
  induction path generalizing u with
  | nil => exact ⟨List.nodup_nil, by simp⟩
  | cons a path ih =>
    obtain ⟨htail, hrest⟩ := hwalk
    obtain ⟨hnodup, hlater⟩ := ih hrest fun b hb => hclimb b (by simp [hb])
    have ha := hclimb a (by simp)
    simp only at htail hlater
    rw [htail] at ha
    refine ⟨List.nodup_cons.2 ⟨fun hmem => lt_irrefl _ (hlater a hmem), hnodup⟩, fun b hb => ?_⟩
    rcases List.mem_cons.1 hb with rfl | hb
    · omega
    · have := hlater b hb
      omega

/-- `net'` is `net` after `moved` units went from the source to the sink. -/
structure Augments (arcs : List (Nat × Nat)) (net net' : Network) (moved : Nat) : Prop where
  same : net' = { net with cap := net'.cap }
  pushed : Pushed net arcs net.cap net'.cap moved

namespace Augments

variable {arcs : List (Nat × Nat)} {net net' net'' : Network} {x y : Nat}

theorem refl (arcs : List (Nat × Nat)) (net : Network) : Augments arcs net net 0 :=
  ⟨rfl, rfl, fun _ _ => rfl, fun _ _ _ => rfl, rfl⟩

theorem trans (h : Augments arcs net net' x) (h' : Augments arcs net' net'' y) :
    Augments arcs net net'' (x + y) := by
  have hsame := h'.same
  rw [h.same] at hsame
  have hp' := h'.pushed
  rw [h.same] at hp'
  refine ⟨hsame, hp'.length.trans h.pushed.length, fun i hi => ?_, fun v hs ht => ?_, ?_⟩
  · exact (hp'.pair i hi).trans (h.pushed.pair i hi)
  · exact (hp'.inner v hs ht).trans (h.pushed.inner v hs ht)
  · have h₁ := hp'.source
    have h₂ := h.pushed.source
    simp only at h₁
    omega

end Augments

/-- What a list of arcs out of `u` must satisfy. -/
def Indexed (net : Network) (arcs : List (Nat × Nat)) : Prop :=
  ∀ u, ∀ a ∈ net.out u, a < 2 * arcs.length ∧ net.tail.getD a 0 = u

/-- The level of a node, as a number. -/
def height (level : List (Option Nat)) (v : Nat) : Nat := (level.getD v none).getD 0

theorem climb_of_admissible {net : Network} {level : List (Option Nat)} {u a : Nat}
    (h : net.admissible level u a) :
    height level (net.dest.getD a 0) = height level u + 1 := by
  unfold admissible at h
  rw [Bool.and_eq_true] at h
  have hlevels := h.2
  unfold height
  split at hlevels
  · next lu lv hu hv =>
    rw [hu, hv]
    simpa using hlevels
  · cases hlevels

theorem mem_of_scan {net : Network} {level : List (Option Nat)} {u next next' a : Nat}
    (h : net.scan level u next = (next', some a)) :
    a ∈ net.out u ∧ net.admissible level u a := by
  unfold scan at h
  simp only [Prod.mk.injEq] at h
  obtain ⟨-, hget⟩ := h
  set rest := (net.out u).drop next with hrest
  have hmem : a ∈ rest := List.mem_of_getElem? hget
  refine ⟨List.mem_of_mem_drop hmem, ?_⟩
  -- The first arc behind those skipped is not skipped.
  set skipped := rest.takeWhile fun a => !net.admissible level u a with hskipped
  have hdrop : rest.dropWhile (fun a => !net.admissible level u a) = rest.drop skipped.length := by
    calc rest.dropWhile (fun a => !net.admissible level u a)
        = (skipped ++ rest.dropWhile fun a => !net.admissible level u a).drop skipped.length :=
          List.drop_left.symm
      _ = rest.drop skipped.length := by rw [hskipped, List.takeWhile_append_dropWhile]
  have hhead : (rest.dropWhile fun a => !net.admissible level u a).head? = some a := by
    rw [hdrop, List.head?_drop]
    exact hget
  have := List.head?_dropWhile_not (fun a => !net.admissible level u a) rest
  rw [hhead] at this
  simpa using this

theorem isWalk_takeWhile {net : Network} {p : Nat → Bool} {path : List Nat} {u w : Nat}
    (h : IsWalk u (net.ends path) w) :
    IsWalk u (net.ends (path.takeWhile p))
      (match (path.takeWhile p).getLast? with
        | none => u
        | some a => net.dest.getD a 0) := by
  induction path generalizing u with
  | nil => exact rfl
  | cons a path ih =>
    rw [List.takeWhile_cons]
    split
    · have hrest := ih h.2
      refine ⟨h.1, ?_⟩
      cases htake : path.takeWhile p with
      | nil =>
        rw [htake] at hrest
        exact hrest
      | cons b rest =>
        rw [htake] at hrest
        rw [List.getLast?_cons_cons]
        exact hrest
    · exact rfl

theorem isWalk_dropLast {net : Network} {path : List Nat} {a u w : Nat}
    (h : IsWalk u (net.ends path) w) (hlast : path.getLast? = some a) :
    IsWalk u (net.ends path.dropLast) (net.tail.getD a 0) := by
  induction path generalizing u with
  | nil => cases hlast
  | cons b path ih =>
    cases path with
    | nil =>
      simp only [List.getLast?_singleton, Option.some.injEq] at hlast
      subst hlast
      exact h.1.symm
    | cons c path =>
      rw [List.getLast?_cons_cons] at hlast
      exact ⟨h.1, ih h.2 hlast⟩

theorem le_of_bottleneck {cap path : List Nat} {a : Nat} (ha : a ∈ path) :
    bottleneck cap path ≤ cap.getD a 0 := by
  unfold bottleneck
  cases hmin : (path.map fun a => cap.getD a 0).min? with
  | none =>
    rw [List.min?_eq_none_iff] at hmin
    simp_all
  | some m =>
    exact (List.min?_eq_some_iff.1 hmin).2 _ (List.mem_map_of_mem ha)

/-- A phase augments by what it adds to the total. -/
theorem augments_blockingLoop {arcs : List (Nat × Nat)} {level : List (Option Nat)} {limit : Nat}
    (fuel : Nat) {net : Network} (h : net.Paired arcs) (hends : net.src ≠ net.snk)
    (hindex : net.Indexed arcs) (nextArc : List Nat) {path : List Nat} {u : Nat}
    (hwalk : IsWalk net.src (net.ends path) u)
    (hpath : ∀ a ∈ path, a < 2 * arcs.length ∧
      height level (net.dest.getD a 0) = height level (net.tail.getD a 0) + 1) (total : Nat) :
    ∃ moved, Augments arcs net (blockingLoop level limit fuel net nextArc path u total).1 moved ∧
      (blockingLoop level limit fuel net nextArc path u total).2 = total + moved := by
  induction fuel generalizing net nextArc path u total with
  | zero => exact ⟨0, .refl _ _, rfl⟩
  | succ fuel ih =>
    unfold blockingLoop
    split
    · exact ⟨0, .refl _ _, rfl⟩
    split
    · next hsink =>
      -- At the sink the path is pushed, and cut at the first arc it emptied.
      extract_lets amount cap kept u'
      obtain ⟨hnodup, -⟩ := nodup_of_climb hwalk fun a ha => (hpath a ha).2
      have hle : ∀ a ∈ path, amount ≤ net.cap.getD a 0 := fun a ha =>
        (min_le_left _ _).trans (le_of_bottleneck ha)
      obtain ⟨hlen, hpair, hres⟩ := pushed_walk h hnodup (fun a ha => (hpath a ha).1) h.length_cap
        hle hwalk
      have haug : Augments arcs net { net with cap } amount := by
        refine ⟨rfl, hlen, fun i _ => hpair i, fun v hs ht => ?_, ?_⟩
        · have := hres v
          rw [if_neg (Ne.symm hs), hsink, if_neg (Ne.symm ht)] at this
          exact this
        · have := hres net.src
          rw [if_pos rfl, hsink, if_neg (Ne.symm hends)] at this
          exact this
      have hwalk' : IsWalk net.src (({ net with cap } : Network).ends kept) u' :=
        isWalk_takeWhile (p := fun a => cap.getD a 0 != 0) hwalk
      obtain ⟨moved, hmoved, htotal⟩ := ih (h.of_cap hlen) hends hindex nextArc hwalk'
        (fun a ha => hpath a (List.takeWhile_subset _ ha)) (total + amount)
      exact ⟨amount + moved, haug.trans hmoved, by rw [htotal, Nat.add_assoc]⟩
    · split
      · next next a hscan =>
        obtain ⟨hmem, hadm⟩ := mem_of_scan hscan
        obtain ⟨hrange, htail⟩ := hindex u a hmem
        refine ih h hends hindex _ ?_ (fun b hb => ?_) total
        · unfold ends
          rw [List.map_append]
          exact hwalk.append ⟨htail, rfl⟩
        · rcases List.mem_append.1 hb with hb | hb
          · exact hpath b hb
          · rw [List.mem_singleton.1 hb, htail]
            exact ⟨hrange, climb_of_admissible hadm⟩
      · extract_lets nextArc'
        split
        · exact ⟨0, .refl _ _, rfl⟩
        · next a hlast =>
          extract_lets u'
          have ha := List.mem_of_getLast? hlast
          refine ih h hends hindex _ ?_ (fun b hb => hpath b (List.dropLast_subset _ hb)) total
          show IsWalk net.src (net.ends path.dropLast) (net.dest.getD (a ^^^ 1) 0)
          rw [h.tail_xor (hpath a ha).1]
          exact isWalk_dropLast hwalk hlast

/-- A run of phases augments by what it adds to the total. -/
theorem augments_flowLoop {arcs : List (Nat × Nat)} {limit : Nat} (fuel : Nat) {net : Network}
    (h : net.Paired arcs) (hends : net.src ≠ net.snk) (hindex : net.Indexed arcs) (total : Nat) :
    ∃ moved, Augments arcs net (flowLoop limit fuel net total).1 moved ∧
      (flowLoop limit fuel net total).2 = total + moved := by
  induction fuel generalizing net total with
  | zero => exact ⟨0, .refl _ _, rfl⟩
  | succ fuel ih =>
    unfold flowLoop
    split
    · split
      · exact ⟨0, .refl _ _, rfl⟩
      · next level hlevel =>
        have hstart : IsWalk net.src (net.ends []) net.src := rfl
        obtain ⟨moved, haug, htotal⟩ := @augments_blockingLoop arcs level limit net.phaseFuel net h
          hends hindex (List.replicate net.heads.length 0) [] net.src hstart (by simp) total
        have hcap := haug.pushed.length
        have hnet := haug.same
        split
        next net' total' hphase =>
        rw [hphase] at haug htotal hnet hcap
        simp only at haug htotal hnet hcap
        have h' : net'.Paired arcs := by
          rw [hnet]
          exact h.of_cap hcap
        have hends' : net'.src ≠ net'.snk := by
          rw [hnet]
          exact hends
        have hindex' : net'.Indexed arcs := by
          rw [hnet]
          exact hindex
        obtain ⟨moved', haug', htotal'⟩ := ih h' hends' hindex' total'
        refine ⟨moved + moved', haug.trans haug', ?_⟩
        rw [htotal', htotal, Nat.add_assoc]
    · exact ⟨0, .refl _ _, rfl⟩

theorem blockingLoop_le (level : List (Option Nat)) {limit : Nat} (fuel : Nat) (net : Network)
    (nextArc path : List Nat) (u : Nat) {total : Nat} (h : total ≤ limit) :
    (blockingLoop level limit fuel net nextArc path u total).2 ≤ limit := by
  induction fuel generalizing net nextArc path u total with
  | zero => exact h
  | succ fuel ih =>
    unfold blockingLoop
    split
    · exact h
    split
    · refine ih _ _ _ _ ?_
      have := min_le_right (bottleneck net.cap path) (limit - total)
      omega
    · split
      · exact ih _ _ _ _ h
      · extract_lets nextArc'
        split
        · exact h
        · exact ih _ _ _ _ h

theorem flowLoop_le {limit : Nat} (fuel : Nat) (net : Network) {total : Nat} (h : total ≤ limit) :
    (flowLoop limit fuel net total).2 ≤ limit := by
  induction fuel generalizing net total with
  | zero => exact h
  | succ fuel ih =>
    unfold flowLoop
    split
    · split
      · exact h
      · next level hlevel =>
        have hphase := blockingLoop_le level net.phaseFuel net
          (List.replicate net.heads.length 0) [] net.src h
        exact ih _ hphase
    · exact h

/-- No more flows than the limit. -/
theorem flow_le (net : Network) (limit : Nat) : (net.flow limit).2 ≤ limit :=
  flowLoop_le limit net (Nat.zero_le limit)

/-- A flow augments by its total. -/
theorem augments_flow {arcs : List (Nat × Nat)} {net : Network} (h : net.Paired arcs)
    (hends : net.src ≠ net.snk) (hindex : net.Indexed arcs) (limit : Nat) :
    Augments arcs net (net.flow limit).1 (net.flow limit).2 := by
  obtain ⟨moved, haug, htotal⟩ := augments_flowLoop limit h hends hindex 0
  have : (net.flow limit).2 = moved := by
    rw [flow, htotal, Nat.zero_add]
  rw [this]
  exact haug

end Network

end Edet.Flow
