import Edet.Kernel.Reserve

/-!
# Routes carry the hold

`decompose` reads a hold as routes. What the routes of a list carry, and what they draw,
are `carried` and `drawn`; adding routes up again gives a hold that carries and draws just
that (`listFlow_fromPaths_edges`, `listFlow_fromPaths_supply`).

A list of routes is `Greedy` if each is what `decompose` reads off the sum of those from it
on. These are just the lists that a hold is read as (`greedy_of_decompose`,
`decompose_of_greedy`), and they stay so when routes are lowered (`Greedy.lower`): what is
first of more is first of less, as long as it is there, and an arc that a route exhausts is
one that no later route runs over.
-/

namespace Edet.Flow

open NetworkFlow

/-! ### What routes carry -/

/-- What routes carry on every arc. -/
noncomputable def carried (paths : List Path) : Nat × Nat →₀ Nat :=
  (paths.map fun p => pathFlow p.arcs p.value).sum

/-- What routes draw from every source. -/
noncomputable def drawn (paths : List Path) : Nat →₀ Nat :=
  (paths.map fun p => Finsupp.single p.source p.value).sum

@[simp] theorem carried_nil : carried [] = 0 := rfl

@[simp] theorem carried_cons (p : Path) (paths : List Path) :
    carried (p :: paths) = pathFlow p.arcs p.value + carried paths := rfl

@[simp] theorem carried_append (paths paths' : List Path) :
    carried (paths ++ paths') = carried paths + carried paths' := by
  simp [carried]

@[simp] theorem drawn_nil : drawn [] = 0 := rfl

@[simp] theorem drawn_cons (p : Path) (paths : List Path) :
    drawn (p :: paths) = Finsupp.single p.source p.value + drawn paths := rfl

@[simp] theorem drawn_append (paths paths' : List Path) :
    drawn (paths ++ paths') = drawn paths + drawn paths' := by
  simp [drawn]

@[simp] theorem pathFlow_zero (arcs : List (Nat × Nat)) : pathFlow arcs 0 = 0 := by
  simp [pathFlow]

theorem pathFlow_add (arcs : List (Nat × Nat)) (x y : Nat) :
    pathFlow arcs (x + y) = pathFlow arcs x + pathFlow arcs y := by
  induction arcs with
  | nil => rfl
  | cons a arcs ih =>
    show Finsupp.single a (x + y) + pathFlow arcs (x + y) = _
    rw [ih, Finsupp.single_add]
    exact add_add_add_comm _ _ _ _

/-! ### Adding routes up -/

section Books

variable {κ : Type} [Ord κ] [Std.TransOrd κ] [Std.LawfulEqOrd κ]

theorem listFlow_addAll [DecidableEq κ] (l : List (κ × Nat)) :
    listFlow (addAll ∅ l : OrdMap κ Nat).toList = listFlow l := by
  ext k
  rw [listFlow_apply, amountAt_toList, getD'_addAll, listFlow_apply, OrdMap.getD'_eq]
  simp

end Books

theorem listFlow_flatMap_arcs (paths : List Path) :
    listFlow (paths.flatMap fun p => p.arcs.map fun key => (key, p.value)) = carried paths := by
  induction paths with
  | nil => rfl
  | cons p paths ih =>
    rw [List.flatMap_cons, listFlow_append, ih, carried_cons]
    congr 1
    simp [listFlow, pathFlow, Function.comp_def]

theorem listFlow_map_sources (paths : List Path) :
    listFlow (paths.map fun p => (p.source, p.value)) = drawn paths := by
  induction paths with
  | nil => rfl
  | cons p paths ih => rw [List.map_cons, listFlow_cons, ih, drawn_cons]

/-- Empty routes carry nothing. -/
theorem carried_filter (paths : List Path) :
    carried (paths.filter fun p => decide (p.value ≠ 0)) = carried paths := by
  induction paths with
  | nil => rfl
  | cons p paths ih =>
    rw [List.filter_cons]
    split
    · rw [carried_cons, carried_cons, ih]
    · next h =>
      have hz : p.value = 0 := by simpa using h
      rw [ih, carried_cons, hz, pathFlow_zero, zero_add]

theorem drawn_filter (paths : List Path) :
    drawn (paths.filter fun p => decide (p.value ≠ 0)) = drawn paths := by
  induction paths with
  | nil => rfl
  | cons p paths ih =>
    rw [List.filter_cons]
    split
    · rw [drawn_cons, drawn_cons, ih]
    · next h =>
      have hz : p.value = 0 := by simpa using h
      rw [ih, drawn_cons, hz, Finsupp.single_zero, zero_add]

/-- **The hold routes add up to carries what they carry.** -/
theorem listFlow_fromPaths_edges (paths : List Path) :
    listFlow (fromPaths paths).edges = carried paths := by
  show listFlow (addAll ∅ _ : OrdMap (Nat × Nat) Nat).toList = _
  rw [listFlow_addAll, listFlow_flatMap_arcs, carried_filter]

theorem listFlow_fromPaths_supply (paths : List Path) :
    listFlow (fromPaths paths).supply = drawn paths := by
  show listFlow (addAll ∅ _ : OrdMap Nat Nat).toList = _
  rw [listFlow_addAll, listFlow_map_sources, drawn_filter]

/-! ### The first key -/

section First

variable {κ : Type} [Ord κ]

/-- The first key with something on it, of those that satisfy `q`. -/
structure First (f : κ → Nat) (q : κ → Prop) (k : κ) : Prop where
  holds : q k
  pos : 0 < f k
  least : ∀ k', q k' → compare k' k = .lt → f k' = 0

/-- What is first of more is first of less, if it is there. -/
theorem First.mono {f f' : κ → Nat} {q : κ → Prop} {k : κ} (h : First f q k)
    (hle : ∀ k, f' k ≤ f k) (hpos : 0 < f' k) : First f' q k where
  holds := h.holds
  pos := hpos
  least k' hq hlt := Nat.le_zero.1 ((hle k').trans (h.least k' hq hlt).le)

variable [Std.TransOrd κ] [Std.LawfulEqOrd κ] {m : OrdMap κ Nat} {q : κ → Prop}
  {P : κ × Nat → Bool}

theorem find_none (hP : ∀ k v, P (k, v) = true ↔ q k ∧ 0 < v) :
    m.toList.find? P = none ↔ ∀ k, q k → OrdMap.getD' m k 0 = 0 := by
  rw [List.find?_eq_none]
  refine ⟨fun h k hq => ?_, fun h p hp hpos => ?_⟩
  · rw [OrdMap.getD'_eq]
    cases hk : m[k]? with
    | none => rfl
    | some v =>
      by_contra hv
      exact h (k, v) (OrdMap.mem_toList.2 hk) ((hP k v).2 ⟨hq, Nat.pos_of_ne_zero hv⟩)
  · obtain ⟨hq, hv⟩ := (hP p.1 p.2).1 hpos
    have hzero := h p.1 hq
    rw [OrdMap.getD'_eq, OrdMap.mem_toList.1 hp] at hzero
    exact absurd hzero (Nat.pos_iff_ne_zero.1 hv)

/-- What a search through a map finds is the first key. -/
theorem find_some (hP : ∀ k v, P (k, v) = true ↔ q k ∧ 0 < v) {k : κ} {v : Nat} :
    m.toList.find? P = some (k, v) ↔
      First (fun k => OrdMap.getD' m k 0) q k ∧ v = OrdMap.getD' m k 0 := by
  have hsorted := Std.ExtTreeMap.ordered_keys_toList (t := m)
  constructor
  · intro h
    have hget : OrdMap.getD' m k 0 = v := by
      rw [OrdMap.getD'_eq, OrdMap.mem_toList.1 (List.mem_of_find?_eq_some h)]
      rfl
    obtain ⟨hq, hv⟩ := (hP k v).1 (List.find?_some h)
    refine ⟨⟨hq, by omega, fun k' hq' hlt => ?_⟩, hget.symm⟩
    obtain ⟨-, before, after, hlist, hbefore⟩ := List.find?_eq_some_iff_append.1 h
    rw [OrdMap.getD'_eq]
    cases hk' : m[k']? with
    | none => rfl
    | some v' =>
      have hmem : (k', v') ∈ m.toList := OrdMap.mem_toList.2 hk'
      rw [hlist] at hmem hsorted
      rcases List.mem_append.1 hmem with hmem | hmem
      · by_contra hv'
        have hnot := hbefore _ hmem
        rw [(hP k' v').2 ⟨hq', Nat.pos_of_ne_zero hv'⟩] at hnot
        exact absurd hnot (by decide)
      · -- Nothing after the key found comes before it.
        rcases List.mem_cons.1 hmem with heq | hmem
        · have hself : compare k k = .eq := Std.ReflCmp.compare_self
          rw [(Prod.mk.inj heq).1, hself] at hlt
          cases hlt
        · have hgt := List.rel_of_pairwise_cons (List.pairwise_append.1 hsorted).2.1 hmem
          have hswap : compare k' k = (compare k k').swap := Std.OrientedCmp.eq_swap
          rw [hswap, hgt] at hlt
          cases hlt
  · rintro ⟨hfirst, rfl⟩
    cases h : m.toList.find? P with
    | none => exact absurd ((find_none hP).1 h k hfirst.holds) (Nat.pos_iff_ne_zero.1 hfirst.pos)
    | some p =>
      obtain ⟨k', v'⟩ := p
      have hmem := OrdMap.mem_toList.1 (List.mem_of_find?_eq_some h)
      obtain ⟨hq', hv'⟩ := (hP k' v').1 (List.find?_some h)
      have hget : OrdMap.getD' m k' 0 = v' := by rw [OrdMap.getD'_eq, hmem]; rfl
      obtain ⟨-, before, after, hlist, hbefore⟩ := List.find?_eq_some_iff_append.1 h
      have hk : (k, OrdMap.getD' m k 0) ∈ m.toList := by
        refine OrdMap.mem_toList.2 ?_
        have hpos := hfirst.pos
        rw [OrdMap.getD'_eq] at hpos ⊢
        cases hk : m[k]? with
        | none => rw [hk] at hpos; cases hpos
        | some v => rfl
      rw [hlist] at hk hsorted
      rcases List.mem_append.1 hk with hk | hk
      · have hnot := hbefore _ hk
        rw [(hP k _).2 ⟨hfirst.holds, hfirst.pos⟩] at hnot
        exact absurd hnot (by decide)
      · rcases List.mem_cons.1 hk with heq | hk
        · rw [heq]
        · have hlt := List.rel_of_pairwise_cons (List.pairwise_append.1 hsorted).2.1 hk
          have hzero := hfirst.least k' hq' hlt
          omega

end First

/-! ### One route -/

/-- A walk from `node` to the debtor along first arcs, to nodes that are new. -/
inductive Follows (f : Nat × Nat → Nat) (debtor : Nat) : List Nat → Nat → List (Nat × Nat) → Prop
  | arrived (seen : List Nat) : Follows f debtor seen debtor []
  | step {seen : List Nat} {node b : Nat} {arcs : List (Nat × Nat)} (hnode : node ≠ debtor)
    (hfirst : First f (fun k => k.1 = node) (node, b)) (hnew : b ∉ seen)
    (rest : Follows f debtor (seen ++ [b]) b arcs) : Follows f debtor seen node ((node, b) :: arcs)

/-- The least of a value and what the arcs have. -/
def least (f : Nat × Nat → Nat) (value : Nat) (arcs : List (Nat × Nat)) : Nat :=
  arcs.foldl (fun v a => min v (f a)) value

theorem least_le (f : Nat × Nat → Nat) (value : Nat) (arcs : List (Nat × Nat)) :
    least f value arcs ≤ value ∧ ∀ a ∈ arcs, least f value arcs ≤ f a := by
  induction arcs generalizing value with
  | nil => exact ⟨le_rfl, fun a ha => nomatch ha⟩
  | cons b arcs ih =>
    obtain ⟨hvalue, harcs⟩ := ih (min value (f b))
    refine ⟨hvalue.trans (min_le_left _ _), fun a ha => ?_⟩
    rcases List.mem_cons.1 ha with rfl | ha
    · exact hvalue.trans (min_le_right _ _)
    · exact harcs a ha

/-- The least is one of them. -/
theorem least_eq (f : Nat × Nat → Nat) (value : Nat) (arcs : List (Nat × Nat)) :
    least f value arcs = value ∨ ∃ a ∈ arcs, least f value arcs = f a := by
  induction arcs generalizing value with
  | nil => exact Or.inl rfl
  | cons b arcs ih =>
    rcases ih (min value (f b)) with h | ⟨a, ha, h⟩
    · rcases le_total value (f b) with hle | hle
      · exact Or.inl (h.trans (min_eq_left hle))
      · exact Or.inr ⟨b, List.mem_cons_self, h.trans (min_eq_right hle)⟩
    · exact Or.inr ⟨a, List.mem_cons_of_mem _ ha, h⟩

namespace Follows

variable {f f' : Nat × Nat → Nat} {debtor node : Nat} {seen : List Nat} {arcs : List (Nat × Nat)}

theorem isWalk (h : Follows f debtor seen node arcs) : IsWalk node arcs debtor := by
  induction h with
  | arrived => rfl
  | step _ _ _ _ ih => exact ⟨rfl, ih⟩

theorem pos (h : Follows f debtor seen node arcs) : ∀ a ∈ arcs, 0 < f a := by
  induction h with
  | arrived => exact fun a ha => nomatch ha
  | step _ hfirst _ _ ih =>
    intro a ha
    rcases List.mem_cons.1 ha with rfl | ha
    · exact hfirst.pos
    · exact ih a ha

/-- No node is visited twice. -/
theorem nodup_targets (h : Follows f debtor seen node arcs) :
    (arcs.map Prod.snd).Nodup ∧ ∀ a ∈ arcs, a.2 ∉ seen := by
  induction h with
  | arrived => exact ⟨List.nodup_nil, fun a ha => nomatch ha⟩
  | step _ _ hnew _ ih =>
    obtain ⟨hnodup, hseen⟩ := ih
    refine ⟨List.nodup_cons.2 ⟨fun hmem => ?_, hnodup⟩, fun a ha => ?_⟩
    · obtain ⟨a, ha, heq⟩ := List.mem_map.1 hmem
      exact hseen a ha (List.mem_append_right _ (List.mem_singleton.2 heq))
    · rcases List.mem_cons.1 ha with rfl | ha
      · exact hnew
      · exact fun hmem => hseen a ha (List.mem_append_left _ hmem)

theorem nodup (h : Follows f debtor seen node arcs) : arcs.Nodup := h.nodup_targets.1.of_map

/-- What is followed through more is followed through less, if its arcs are there. -/
theorem mono (h : Follows f debtor seen node arcs) (hle : ∀ a, f' a ≤ f a)
    (hpos : ∀ a ∈ arcs, 0 < f' a) : Follows f' debtor seen node arcs := by
  induction h with
  | arrived seen => exact .arrived seen
  | step hnode hfirst hnew _ ih =>
    exact .step hnode (hfirst.mono hle (hpos _ List.mem_cons_self)) hnew
      (ih fun a ha => hpos a (List.mem_cons_of_mem _ ha))

end Follows

/-- Does an arc lead out of the node, with something left on it? -/
def leaves (node : Nat) (p : (Nat × Nat) × Nat) : Bool := decide (p.1.1 = node ∧ 0 < p.2)

theorem leaves_iff (node : Nat) (k : Nat × Nat) (v : Nat) :
    leaves node (k, v) = true ↔ k.1 = node ∧ 0 < v := decide_eq_true_iff

/-- A route that is found follows first arcs and carries the least they have. -/
theorem follows_of_route {edgeLeft : Edges} {src debtor fuel node : Nat} {acc : List (Nat × Nat)}
    {value : Nat} {seen : List Nat} {out : List (Nat × Nat) × Nat}
    (h : route edgeLeft src debtor fuel node acc value seen = .ok out) :
    ∃ arcs, out = (acc ++ arcs, least (fun a => OrdMap.getD' edgeLeft a 0) value arcs) ∧
      Follows (fun a => OrdMap.getD' edgeLeft a 0) debtor seen node arcs := by
  induction fuel generalizing node acc value seen with
  | zero => cases h
  | succ fuel ih =>
    unfold route at h
    split at h
    · next hdebtor =>
      obtain rfl := hdebtor
      obtain rfl := Except.ok.inj h
      exact ⟨[], by rw [List.append_nil]; rfl, .arrived seen⟩
    · next hnode =>
      split at h
      · cases h
      · next a b w hfind =>
        obtain ⟨hfirst, rfl⟩ := (find_some (P := leaves node) (leaves_iff node)).1 hfind
        obtain rfl : a = node := hfirst.holds
        split at h
        · cases h
        · next hnew =>
          obtain ⟨arcs, hout, hfollows⟩ := ih h
          refine ⟨(a, b) :: arcs, ?_, .step hnode hfirst hnew hfollows⟩
          rw [hout, List.append_assoc]
          rfl

/-- What follows first arcs is a route that is found. -/
theorem route_of_follows {edgeLeft : Edges} {src debtor fuel node : Nat} {acc : List (Nat × Nat)}
    {value : Nat} {seen : List Nat} {arcs : List (Nat × Nat)}
    (h : Follows (fun a => OrdMap.getD' edgeLeft a 0) debtor seen node arcs)
    (hfuel : arcs.length < fuel) :
    route edgeLeft src debtor fuel node acc value seen =
      .ok (acc ++ arcs, least (fun a => OrdMap.getD' edgeLeft a 0) value arcs) := by
  induction h generalizing fuel acc value with
  | arrived seen =>
    obtain ⟨fuel, rfl⟩ := Nat.exists_eq_succ_of_ne_zero (Nat.pos_iff_ne_zero.1 (Nat.zero_lt_of_lt hfuel))
    unfold route
    rw [if_pos rfl, List.append_nil]
    rfl
  | @step seen node b arcs hnode hfirst hnew _ ih =>
    obtain ⟨fuel, rfl⟩ := Nat.exists_eq_succ_of_ne_zero (Nat.pos_iff_ne_zero.1 (Nat.zero_lt_of_lt hfuel))
    have hfind : edgeLeft.toList.find? (leaves node) = _ :=
      (find_some (leaves_iff node)).2 ⟨hfirst, rfl⟩
    unfold leaves at hfind
    unfold route
    rw [if_neg hnode, hfind]
    dsimp only
    rw [if_neg hnew, ih (Nat.lt_of_succ_lt_succ hfuel), List.append_assoc]
    rfl

theorem pathFlow_apply {arcs : List (Nat × Nat)} (hnodup : arcs.Nodup) (x : Nat) (a : Nat × Nat) :
    pathFlow arcs x a = if a ∈ arcs then x else 0 := by
  induction arcs with
  | nil => rfl
  | cons b arcs ih =>
    obtain ⟨hnew, hnodup⟩ := List.nodup_cons.1 hnodup
    show (Finsupp.single b x + pathFlow arcs x) a = _
    rw [Finsupp.add_apply, ih hnodup, Finsupp.single_apply]
    by_cases hba : b = a
    · subst hba
      simp [hnew]
    · simp [hba, Ne.symm hba]

theorem getD'_foldl_modify {arcs : List (Nat × Nat)} (hnodup : arcs.Nodup) (m : Edges) (x : Nat)
    (a : Nat × Nat) :
    OrdMap.getD' (arcs.foldl (fun m key => m.modify key (· - x)) m) a 0 =
      OrdMap.getD' m a 0 - if a ∈ arcs then x else 0 := by
  induction arcs generalizing m with
  | nil => rfl
  | cons b arcs ih =>
    obtain ⟨hnew, hnodup⟩ := List.nodup_cons.1 hnodup
    rw [List.foldl_cons, ih hnodup, OrdMap.getD'_modify_sub]
    by_cases hba : b = a
    · subst hba
      simp [hnew]
    · simp [hba, Ne.symm hba]

/-! ### All routes -/

/-- Lists of routes of which each is what is read off the sum of those from it on. -/
inductive Greedy (debtor : Nat) : List Path → Prop
  | nil : Greedy debtor []
  | cons {p : Path} {paths : List Path} (hpos : 0 < p.value)
    (hsource : First (drawn (p :: paths)) (fun _ => True) p.source)
    (hfollows : Follows (carried (p :: paths)) debtor [p.source] p.source p.arcs)
    (hexhaust : drawn paths p.source = 0 ∨ ∃ a ∈ p.arcs, carried paths a = 0)
    (rest : Greedy debtor paths) : Greedy debtor (p :: paths)

/-- A route that carries no more than another along the same arcs. -/
structure Lowered (p q : Path) : Prop where
  source : q.source = p.source
  arcs : q.arcs = p.arcs
  value : q.value ≤ p.value

theorem pathFlow_mono (arcs : List (Nat × Nat)) {x y : Nat} (h : x ≤ y) (a : Nat × Nat) :
    pathFlow arcs x a ≤ pathFlow arcs y a := by
  obtain ⟨d, rfl⟩ := Nat.exists_eq_add_of_le h
  rw [pathFlow_add, Finsupp.add_apply]
  exact Nat.le_add_right _ _

theorem le_pathFlow {arcs : List (Nat × Nat)} {a : Nat × Nat} (ha : a ∈ arcs) (x : Nat) :
    x ≤ pathFlow arcs x a := by
  induction arcs with
  | nil => cases ha
  | cons b arcs ih =>
    have hsum : pathFlow (b :: arcs) x a = Finsupp.single b x a + pathFlow arcs x a := rfl
    rw [hsum]
    rcases List.mem_cons.1 ha with rfl | ha
    · rw [Finsupp.single_eq_same]
      exact Nat.le_add_right _ _
    · exact (ih ha).trans (Nat.le_add_left _ _)

theorem carried_lowered {paths lower : List Path} (h : List.Forall₂ Lowered paths lower)
    (a : Nat × Nat) : carried lower a ≤ carried paths a := by
  induction h with
  | nil => exact le_rfl
  | cons hpq _ ih =>
    rw [carried_cons, carried_cons, Finsupp.add_apply, Finsupp.add_apply, hpq.arcs]
    exact Nat.add_le_add (pathFlow_mono _ hpq.value a) ih

theorem drawn_lowered {paths lower : List Path} (h : List.Forall₂ Lowered paths lower) (u : Nat) :
    drawn lower u ≤ drawn paths u := by
  induction h with
  | nil => exact le_rfl
  | @cons p q _ _ hpq _ ih =>
    rw [drawn_cons, drawn_cons, Finsupp.add_apply, Finsupp.add_apply, hpq.source]
    refine Nat.add_le_add ?_ ih
    rw [Finsupp.single_apply, Finsupp.single_apply]
    split
    · exact hpq.value
    · exact le_rfl

/-- **Lowered routes are still greedy**, without those that carry nothing. -/
theorem Greedy.lower {debtor : Nat} {paths lower : List Path} (h : Greedy debtor paths)
    (hlower : List.Forall₂ Lowered paths lower) :
    Greedy debtor (lower.filter fun p => decide (p.value ≠ 0)) := by
  induction hlower with
  | nil => exact .nil
  | @cons p q paths lower hpq hrest ih =>
    cases h with
    | cons hpos hsource hfollows hexhaust rest =>
      have hgreedy := ih rest
      by_cases hzero : q.value = 0
      · rw [List.filter_cons_of_neg (by simp [hzero])]
        exact hgreedy
      have hq : 0 < q.value := Nat.pos_of_ne_zero hzero
      have hall : List.Forall₂ Lowered (p :: paths) (q :: lower) := .cons hpq hrest
      have hcarried : carried (q :: lower.filter fun p => decide (p.value ≠ 0)) = carried (q :: lower) := by
        rw [carried_cons, carried_filter, carried_cons]
      have hdrawn : drawn (q :: lower.filter fun p => decide (p.value ≠ 0)) = drawn (q :: lower) := by
        rw [drawn_cons, drawn_filter, drawn_cons]
      rw [List.filter_cons_of_pos (by simpa using hzero)]
      refine .cons hq ?_ ?_ ?_ hgreedy
      · rw [hdrawn, hpq.source]
        refine hsource.mono (drawn_lowered hall) ?_
        rw [drawn_cons, Finsupp.add_apply, hpq.source, Finsupp.single_eq_same]
        omega
      · rw [hcarried, hpq.source, hpq.arcs]
        refine hfollows.mono (carried_lowered hall) fun a ha => ?_
        have hle := le_pathFlow (hpq.arcs ▸ ha) q.value
        rw [carried_cons, Finsupp.add_apply]
        omega
      · rw [drawn_filter, carried_filter, hpq.source, hpq.arcs]
        rcases hexhaust with hdry | ⟨a, ha, hdry⟩
        · exact Or.inl (Nat.le_zero.1 ((drawn_lowered hrest _).trans hdry.le))
        · exact Or.inr ⟨a, ha, Nat.le_zero.1 ((carried_lowered hrest a).trans hdry.le)⟩

theorem stocked_iff (u v : Nat) :
    (fun p : Nat × Nat => decide (0 < p.2)) (u, v) = true ↔ True ∧ 0 < v := by
  rw [true_and]
  exact decide_eq_true_iff

/-- What is read off until nothing is left is greedy, and makes up all there was. -/
theorem greedy_of_routes {debtor budget : Nat} {edgeLeft edgeLeft' : Edges}
    {supplyLeft supplyLeft' : Committed} {out out' : List Path}
    (h : routes debtor budget edgeLeft supplyLeft out = .ok (edgeLeft', supplyLeft', out'))
    (hedges : ∀ a, OrdMap.getD' edgeLeft' a 0 = 0) (hsupply : ∀ u, OrdMap.getD' supplyLeft' u 0 = 0) :
    ∃ paths, out' = out ++ paths ∧ Greedy debtor paths ∧
      (∀ a, OrdMap.getD' edgeLeft a 0 = carried paths a) ∧
      ∀ u, OrdMap.getD' supplyLeft u 0 = drawn paths u := by
  -- on the budget of routes: what a route leaves is carried by the routes after it
  induction budget generalizing edgeLeft supplyLeft out with
  | zero =>
    obtain ⟨rfl, rfl, rfl⟩ : edgeLeft = edgeLeft' ∧ supplyLeft = supplyLeft' ∧ out = out' := by
      simpa [routes] using h
    exact ⟨[], (List.append_nil out).symm, .nil, hedges, hsupply⟩
  | succ budget ih =>
    unfold routes at h
    split at h
    · obtain ⟨rfl, rfl, rfl⟩ : edgeLeft = edgeLeft' ∧ supplyLeft = supplyLeft' ∧ out = out' := by
        simpa using h
      exact ⟨[], (List.append_nil out).symm, .nil, hedges, hsupply⟩
    · next src v hfind =>
      split at h
      · cases h
      · next arcs value hroute =>
        obtain ⟨hfirst, rfl⟩ :=
          (find_some (P := fun p => decide (0 < p.2)) (q := fun _ => True) stocked_iff).1 hfind
        obtain ⟨arcs', hout, hfollows⟩ := follows_of_route hroute
        rw [List.nil_append] at hout
        obtain ⟨rfl, rfl⟩ := Prod.mk.inj hout
        obtain ⟨paths, hpaths, hgreedy, hcarried, hdrawn⟩ := ih h
        have hnodup := hfollows.nodup
        obtain ⟨hvalue, hroom⟩ := least_le (fun a => OrdMap.getD' edgeLeft a 0)
          (OrdMap.getD' supplyLeft src 0) arcs
        have hleast := least_eq (fun a => OrdMap.getD' edgeLeft a 0)
          (OrdMap.getD' supplyLeft src 0) arcs
        -- the route carries something: its source is stocked and its arcs have room
        have hpos : 0 < least (fun a => OrdMap.getD' edgeLeft a 0)
            (OrdMap.getD' supplyLeft src 0) arcs := by
          rcases hleast with heq | ⟨a, ha, heq⟩
          · rw [heq]
            exact hfirst.pos
          · rw [heq]
            exact hfollows.pos a ha
        generalize least (fun a => OrdMap.getD' edgeLeft a 0)
          (OrdMap.getD' supplyLeft src 0) arcs = value at h hpaths hcarried hdrawn hvalue hroom hleast hpos
        -- what the arcs held at first is what this route and the later ones carry
        have harcs : ∀ a, OrdMap.getD' edgeLeft a 0 =
            carried ({ source := src, arcs := arcs, value } :: paths) a := by
          intro a
          have hrest := hcarried a
          rw [getD'_foldl_modify hnodup] at hrest
          rw [carried_cons, Finsupp.add_apply, pathFlow_apply hnodup]
          dsimp only
          split at hrest
          · next hmem =>
            have := hroom a hmem
            rw [if_pos hmem]
            omega
          · next hmem =>
            rw [if_neg hmem]
            omega
        -- and the same of the sources
        have hdraws : ∀ u, OrdMap.getD' supplyLeft u 0 =
            drawn ({ source := src, arcs := arcs, value } :: paths) u := by
          intro u
          have hrest := hdrawn u
          rw [OrdMap.getD'_modify_sub] at hrest
          rw [drawn_cons, Finsupp.add_apply, Finsupp.single_apply]
          dsimp only
          split at hrest
          · next heq =>
            obtain rfl := heq
            rw [if_pos rfl]
            omega
          · next hne =>
            rw [if_neg hne]
            omega
        refine ⟨{ source := src, arcs := arcs, value } :: paths, ?_, ?_, harcs, hdraws⟩
        · rw [hpaths, List.append_assoc]
          rfl
        · refine .cons hpos ?_ ?_ ?_ hgreedy
          · exact ⟨trivial, by rw [← hdraws]; exact hfirst.pos,
              fun u _ hlt => by rw [← hdraws]; exact hfirst.least u trivial hlt⟩
          · exact hfollows.mono (fun a => (harcs a).ge) fun a ha => by
              rw [← harcs]
              exact hfollows.pos a ha
          -- the route is saturated: its source or one of its arcs is exhausted
          · rcases hleast with heq | ⟨a, ha, heq⟩
            · have hsource := hdraws src
              rw [drawn_cons, Finsupp.add_apply, Finsupp.single_eq_same] at hsource
              exact Or.inl (by dsimp only at hsource ⊢; omega)
            · have harc := harcs a
              rw [carried_cons, Finsupp.add_apply, pathFlow_apply hnodup, if_pos ha] at harc
              exact Or.inr ⟨a, ha, by dsimp only at harc; omega⟩

/-- What follows first arcs of a map is no longer than the map is large. -/
theorem Follows.length_le {edgeLeft : Edges} {debtor node : Nat} {seen : List Nat}
    {arcs : List (Nat × Nat)}
    (h : Follows (fun a => OrdMap.getD' edgeLeft a 0) debtor seen node arcs) :
    arcs.length ≤ edgeLeft.size := by
  have hsub : arcs ⊆ edgeLeft.toList.map Prod.fst := by
    intro a ha
    have hpos := h.pos a ha
    rw [OrdMap.getD'_eq] at hpos
    cases hget : edgeLeft[a]? with
    | none => rw [hget] at hpos; cases hpos
    | some v =>
      have hmem : (a, v) ∈ edgeLeft.toList := OrdMap.mem_toList.2 hget
      exact List.mem_map_of_mem (f := Prod.fst) hmem
  have hle := (h.nodup.subperm hsub).length_le
  rwa [List.length_map, Std.ExtTreeMap.length_toList] at hle

/-- Greedy routes are read off what they make up. -/
theorem routes_of_greedy {debtor budget : Nat} {edgeLeft : Edges} {supplyLeft : Committed}
    {out paths : List Path} (h : Greedy debtor paths) (hbudget : paths.length ≤ budget)
    (hedges : ∀ a, OrdMap.getD' edgeLeft a 0 = carried paths a)
    (hsupply : ∀ u, OrdMap.getD' supplyLeft u 0 = drawn paths u) :
    ∃ edgeLeft' supplyLeft',
      routes debtor budget edgeLeft supplyLeft out = .ok (edgeLeft', supplyLeft', out ++ paths) ∧
      (∀ a, OrdMap.getD' edgeLeft' a 0 = 0) ∧ ∀ u, OrdMap.getD' supplyLeft' u 0 = 0 := by
  induction h generalizing budget edgeLeft supplyLeft out with
  | nil =>
    refine ⟨edgeLeft, supplyLeft, ?_, hedges, hsupply⟩
    cases budget with
    | zero => rw [routes, List.append_nil]
    | succ budget =>
      have hnone : supplyLeft.toList.find? (fun p => decide (0 < p.2)) = none :=
        (find_none (q := fun _ => True) stocked_iff).2 fun u _ => hsupply u
      unfold routes
      rw [hnone, List.append_nil]
  | @cons p paths hpos hsource hfollows hexhaust _ ih =>
    obtain ⟨budget, rfl⟩ := Nat.exists_eq_succ_of_ne_zero
      (Nat.pos_iff_ne_zero.1 (Nat.zero_lt_of_lt (List.length_cons ▸ hbudget)))
    have hfirst : First (fun u => OrdMap.getD' supplyLeft u 0) (fun _ => True) p.source :=
      ⟨trivial, by rw [hsupply]; exact hsource.pos,
        fun u _ hlt => by rw [hsupply]; exact hsource.least u trivial hlt⟩
    have hfind : supplyLeft.toList.find? (fun p => decide (0 < p.2)) =
        some (p.source, OrdMap.getD' supplyLeft p.source 0) :=
      (find_some (q := fun _ => True) stocked_iff).2 ⟨hfirst, rfl⟩
    have hgoes : Follows (fun a => OrdMap.getD' edgeLeft a 0) debtor [p.source] p.source p.arcs :=
      hfollows.mono (fun a => (hedges a).le) fun a ha => by
        rw [hedges]
        exact hfollows.pos a ha
    have hnodup := hfollows.nodup
    have hroute : route edgeLeft p.source debtor (edgeLeft.size + 1) p.source []
        (OrdMap.getD' supplyLeft p.source 0) [p.source] = .ok ([] ++ p.arcs,
          least (fun a => OrdMap.getD' edgeLeft a 0) (OrdMap.getD' supplyLeft p.source 0) p.arcs) :=
      route_of_follows hgoes (Nat.lt_succ_of_le hgoes.length_le)
    -- The route carries just what it did: it has room for that, and exhausts something.
    have hvalue : least (fun a => OrdMap.getD' edgeLeft a 0) (OrdMap.getD' supplyLeft p.source 0)
        p.arcs = p.value := by
      obtain ⟨hle, hroom⟩ := least_le (fun a => OrdMap.getD' edgeLeft a 0)
        (OrdMap.getD' supplyLeft p.source 0) p.arcs
      refine le_antisymm ?_ ?_
      · rcases hexhaust with hdry | ⟨a, ha, hdry⟩
        · have hsource := hsupply p.source
          rw [drawn_cons, Finsupp.add_apply, Finsupp.single_eq_same, hdry, add_zero] at hsource
          exact hle.trans hsource.le
        · have hroom := hroom a ha
          rw [hedges, carried_cons, Finsupp.add_apply, pathFlow_apply hnodup, if_pos ha, hdry] at hroom
          exact hroom
      · rcases least_eq (fun a => OrdMap.getD' edgeLeft a 0)
          (OrdMap.getD' supplyLeft p.source 0) p.arcs with heq | ⟨a, ha, heq⟩
        · rw [heq, hsupply, drawn_cons, Finsupp.add_apply, Finsupp.single_eq_same]
          exact Nat.le_add_right _ _
        · rw [heq, hedges, carried_cons, Finsupp.add_apply, pathFlow_apply hnodup, if_pos ha]
          exact Nat.le_add_right _ _
    rw [hvalue, List.nil_append] at hroute
    have hedges' : ∀ a, OrdMap.getD' (p.arcs.foldl (fun m key => m.modify key (· - p.value)) edgeLeft) a 0 =
        carried paths a := by
      intro a
      rw [getD'_foldl_modify hnodup, hedges, carried_cons, Finsupp.add_apply, pathFlow_apply hnodup,
        Nat.add_sub_cancel_left]
    have hsupply' : ∀ u, OrdMap.getD' (supplyLeft.modify p.source (· - p.value)) u 0 = drawn paths u := by
      intro u
      rw [OrdMap.getD'_modify_sub, hsupply, drawn_cons, Finsupp.add_apply, Finsupp.single_apply,
        Nat.add_sub_cancel_left]
    obtain ⟨edgeLeft', supplyLeft', hrest, hdone⟩ :=
      @ih budget _ _ (out ++ [p]) (Nat.le_of_succ_le_succ hbudget) hedges' hsupply'
    refine ⟨edgeLeft', supplyLeft', ?_, hdone⟩
    unfold routes
    rw [hfind]
    dsimp only
    rw [hroute]
    dsimp only
    rw [hrest, List.append_assoc]
    rfl

/-! ### Whole holds -/

/-- A hold that lists no arc and no underwriter twice. -/
structure Held.Whole (h : Held) : Prop where
  edges : (h.edges.map Prod.fst).Nodup
  supply : (h.supply.map Prod.fst).Nodup

theorem whole_fromPaths (paths : List Path) : (fromPaths paths).Whole :=
  ⟨OrdMap.nodup_keys _, OrdMap.nodup_keys _⟩

theorem getD'_ofList {κ : Type} [Ord κ] [Std.TransOrd κ] [Std.LawfulEqOrd κ] [DecidableEq κ]
    {l : List (κ × Nat)} (hnodup : (l.map Prod.fst).Nodup) (k : κ) :
    OrdMap.getD' (Std.ExtTreeMap.ofList l : OrdMap κ Nat) k 0 = amountAt l k := by
  have hdistinct : l.Pairwise fun a b => ¬compare a.1 b.1 = .eq :=
    (List.pairwise_map.1 hnodup).imp fun hne heq => hne (Std.LawfulEqCmp.eq_of_compare heq)
  by_cases hk : k ∈ l.map Prod.fst
  · obtain ⟨⟨a, v⟩, hp, rfl⟩ := List.mem_map.1 hk
    have hget := amountAt_of_mem hnodup hp
    dsimp only at hget
    rw [hget, OrdMap.getD'_eq,
      Std.ExtTreeMap.getElem?_ofList_of_mem Std.ReflCmp.compare_self hdistinct hp]
    rfl
  · rw [amountAt_eq_zero hk, OrdMap.getD'_eq,
      Std.ExtTreeMap.getElem?_ofList_of_contains_eq_false (by simpa using hk)]
    rfl

/-- A hold is read as greedy routes, which make it up. -/
theorem greedy_of_decompose {held : Held} {debtor : Nat} {paths : List Path} (whole : held.Whole)
    (h : decompose held debtor = .ok paths) :
    Greedy debtor paths ∧ (∀ a, amountAt held.edges a = carried paths a) ∧
      ∀ u, amountAt held.supply u = drawn paths u := by
  unfold decompose at h
  split at h
  · cases h
  · next edgeLeft supplyLeft out hroutes =>
    split_ifs at h with hsupply hedges
    obtain rfl := Except.ok.inj h
    have hnone : ∀ {κ : Type} [Ord κ] [Std.TransOrd κ] [Std.LawfulEqOrd κ] (m : OrdMap κ Nat),
        ¬m.toList.any (fun p => decide (0 < p.2)) = true → ∀ k : κ, OrdMap.getD' m k 0 = 0 := by
      intro κ _ _ _ m hany k
      rw [OrdMap.getD'_eq]
      cases hk : m[k]? with
      | none => rfl
      | some v =>
        by_contra hv
        refine hany (List.any_eq_true.2 ⟨(k, v), OrdMap.mem_toList.2 hk, ?_⟩)
        simpa [Nat.pos_iff_ne_zero] using hv
    obtain ⟨paths, rfl, hgreedy, hcarried, hdrawn⟩ :=
      greedy_of_routes hroutes (hnone _ hedges) (hnone _ hsupply)
    refine ⟨hgreedy, fun a => ?_, fun u => ?_⟩
    · rw [← getD'_ofList whole.edges]
      exact hcarried a
    · rw [← getD'_ofList whole.supply]
      exact hdrawn u

/-- The keys with something on them are listed. -/
theorem card_support_le {κ : Type} [DecidableEq κ] {f : κ →₀ Nat} {l : List (κ × Nat)}
    (h : ∀ k, amountAt l k = f k) : f.support.card ≤ l.length := by
  have hsub : f.support ⊆ (l.map Prod.fst).toFinset := by
    intro k hk
    rw [List.mem_toFinset]
    by_contra hnot
    rw [Finsupp.mem_support_iff, ← h k, amountAt_eq_zero hnot] at hk
    exact hk rfl
  refine (Finset.card_le_card hsub).trans ((List.toFinset_card_le _).trans ?_)
  rw [List.length_map]

theorem support_subset {κ : Type} {f f' : κ →₀ Nat} (h : ∀ k, f k ≤ f' k) : f.support ⊆ f'.support := by
  intro k hk
  rw [Finsupp.mem_support_iff] at hk ⊢
  have := h k
  omega

/-- Every greedy route exhausts an arc or a supply, so there are no more of them than of
these. -/
theorem Greedy.length_le {debtor : Nat} {paths : List Path} (h : Greedy debtor paths) :
    paths.length ≤ (carried paths).support.card + (drawn paths).support.card := by
  induction h with
  | nil => exact Nat.zero_le _
  | @cons p paths hpos hsource hfollows hexhaust _ ih =>
    have hcarried : (carried paths).support ⊆ (carried (p :: paths)).support :=
      support_subset fun a => by
        rw [carried_cons, Finsupp.add_apply]
        exact Nat.le_add_left _ _
    have hdrawn : (drawn paths).support ⊆ (drawn (p :: paths)).support :=
      support_subset fun u => by
        rw [drawn_cons, Finsupp.add_apply]
        exact Nat.le_add_left _ _
    have hcard := Finset.card_le_card hcarried
    have hcard' := Finset.card_le_card hdrawn
    rw [List.length_cons]
    rcases hexhaust with hdry | ⟨a, ha, hdry⟩
    · have hmore : (drawn paths).support ⊂ (drawn (p :: paths)).support := by
        refine Finset.ssubset_iff_of_subset hdrawn |>.2 ⟨p.source, ?_, ?_⟩
        · exact Finsupp.mem_support_iff.2 (Nat.pos_iff_ne_zero.1 hsource.pos)
        · exact fun hmem => Finsupp.mem_support_iff.1 hmem hdry
      have := Finset.card_lt_card hmore
      omega
    · have hmore : (carried paths).support ⊂ (carried (p :: paths)).support := by
        refine Finset.ssubset_iff_of_subset hcarried |>.2 ⟨a, ?_, ?_⟩
        · exact Finsupp.mem_support_iff.2 (Nat.pos_iff_ne_zero.1 (hfollows.pos a ha))
        · exact fun hmem => Finsupp.mem_support_iff.1 hmem hdry
      have := Finset.card_lt_card hmore
      omega

/-- **A hold that greedy routes make up is read as these.** -/
theorem decompose_of_greedy {held : Held} {debtor : Nat} {paths : List Path} (whole : held.Whole)
    (h : Greedy debtor paths) (hedges : ∀ a, amountAt held.edges a = carried paths a)
    (hsupply : ∀ u, amountAt held.supply u = drawn paths u) : decompose held debtor = .ok paths := by
  have hbudget : paths.length ≤ held.edges.length + held.supply.length + 1 :=
    h.length_le.trans (Nat.le_succ_of_le
      (Nat.add_le_add (card_support_le hedges) (card_support_le hsupply)))
  have hedges' : ∀ a, OrdMap.getD' (Std.ExtTreeMap.ofList held.edges : Edges) a 0 = carried paths a :=
    fun a => (getD'_ofList whole.edges a).trans (hedges a)
  have hsupply' : ∀ u, OrdMap.getD' (Std.ExtTreeMap.ofList held.supply : Committed) u 0 = drawn paths u :=
    fun u => (getD'_ofList whole.supply u).trans (hsupply u)
  obtain ⟨edgeLeft, supplyLeft, hroutes, hdry, hdry'⟩ :=
    @routes_of_greedy debtor _ _ _ [] paths h hbudget hedges' hsupply'
  have hnone : ∀ {κ : Type} [Ord κ] [Std.TransOrd κ] [Std.LawfulEqOrd κ] (m : OrdMap κ Nat),
      (∀ k : κ, OrdMap.getD' m k 0 = 0) → m.toList.any (fun p => decide (0 < p.2)) = false := by
    intro κ _ _ _ m hzero
    refine List.any_eq_false.2 fun p hp hpos => ?_
    have hget := hzero p.1
    rw [OrdMap.getD'_eq, OrdMap.mem_toList.1 hp] at hget
    exact absurd hget (Nat.pos_iff_ne_zero.1 (of_decide_eq_true hpos))
  unfold decompose
  rw [hroutes]
  dsimp only
  rw [hnone _ hdry', hnone _ hdry]
  rfl

/-- The routes of a hold lead from underwriters of it to the debtor. -/
theorem Greedy.isWalk {debtor : Nat} {paths : List Path} (h : Greedy debtor paths) :
    ∀ p ∈ paths, IsWalk p.source p.arcs debtor ∧ 0 < drawn paths p.source := by
  induction h with
  | nil => exact fun p hp => nomatch hp
  | @cons p paths hpos hsource hfollows _ _ ih =>
    intro q hq
    rcases List.mem_cons.1 hq with rfl | hq
    · exact ⟨hfollows.isWalk, hsource.pos⟩
    · obtain ⟨hwalk, hdraws⟩ := ih q hq
      refine ⟨hwalk, hdraws.trans_le ?_⟩
      rw [drawn_cons, Finsupp.add_apply]
      exact Nat.le_add_left _ _

/-! ### Flows without cycles -/

variable {f : Nat × Nat →₀ Nat} {g : Nat →₀ Nat} {d : Nat}

end Edet.Flow
