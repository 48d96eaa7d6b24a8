import Mathlib.Tactic
import Mathlib.Data.Finsupp.Order

/-!
# Flows in a network

A network over nodes `V` has capacities on ordered pairs of nodes and supplies at
nodes. Amounts are finitely supported functions, so that a sum of flows is a flow and
every node's outflow and inflow is additive.

* `Balanced f g d`: every node but `d` passes on what comes in and what it draws.
* `FlowInto N S`: a feasible flow that is balanced outside `S`; its value is what the
  nodes outside `S` draw, all of which ends in `S`. `Network.maxFlow N S` is the largest
  value, and no value is larger than a cut (`Network.maxFlow_le_cut`), by what crosses the
  cut (`FlowInto.drawn_add_leaving`).
* `Acyclic f`: the arcs that carry something close no cycle. In a balanced acyclic flow
  every node with something to pass on has somewhere to pass it (`exists_next`), and
  where nothing is drawn nothing flows (`eq_zero_of_acyclic`).
* `exists_trimmed`: a flow into a set needs no arc that leaves the set, so that networks that
  differ only there let the same flow in (`Network.maxFlow_congr`).
* `pathFlow`: an amount sent along a walk, which is balanced (`balanced_pathFlow`).
-/

namespace Edet.NetworkFlow

variable {V : Type*} [DecidableEq V]

/-! ### Outflow and inflow -/

/-- What flows out of a node. -/
noncomputable def outflow (v : V) : (V × V →₀ ℕ) →+ ℕ :=
  Finsupp.liftAddHom fun a => if a.1 = v then .id ℕ else 0

/-- What flows into a node. -/
noncomputable def inflow (v : V) : (V × V →₀ ℕ) →+ ℕ :=
  Finsupp.liftAddHom fun a => if a.2 = v then .id ℕ else 0

theorem outflow_eq_sum (v : V) (f : V × V →₀ ℕ) :
    outflow v f = ∑ a ∈ f.support, if a.1 = v then f a else 0 := by
  unfold outflow
  rw [Finsupp.liftAddHom_apply, Finsupp.sum]
  refine Finset.sum_congr rfl fun a _ => ?_
  split <;> rfl

theorem inflow_eq_sum (v : V) (f : V × V →₀ ℕ) :
    inflow v f = ∑ a ∈ f.support, if a.2 = v then f a else 0 := by
  unfold inflow
  rw [Finsupp.liftAddHom_apply, Finsupp.sum]
  refine Finset.sum_congr rfl fun a _ => ?_
  split <;> rfl

@[simp] theorem outflow_single (v : V) (a : V × V) (x : ℕ) :
    outflow v (Finsupp.single a x) = if a.1 = v then x else 0 := by
  unfold outflow
  rw [Finsupp.liftAddHom_apply_single]
  split <;> rfl

@[simp] theorem inflow_single (v : V) (a : V × V) (x : ℕ) :
    inflow v (Finsupp.single a x) = if a.2 = v then x else 0 := by
  unfold inflow
  rw [Finsupp.liftAddHom_apply_single]
  split <;> rfl

/-- Every node but `d` passes on what comes in and what it draws. -/
def Balanced (f : V × V →₀ ℕ) (g : V →₀ ℕ) (d : V) : Prop :=
  ∀ v, v ≠ d → outflow v f = inflow v f + g v

namespace Balanced

variable {f f' : V × V →₀ ℕ} {g g' : V →₀ ℕ} {d : V}

theorem zero (d : V) : Balanced (0 : V × V →₀ ℕ) 0 d := fun v _ => by simp

end Balanced

/-! ### Flows into a set -/

/-- Capacities on the arcs and supplies at the nodes. -/
structure Network (V : Type*) where
  cap : V × V →₀ ℕ
  supply : V →₀ ℕ

/-- A feasible flow, balanced outside `S`. -/
structure FlowInto (N : Network V) (S : Set V) where
  amount : V × V →₀ ℕ
  draw : V →₀ ℕ
  amount_le : amount ≤ N.cap
  draw_le : draw ≤ N.supply
  balanced : ∀ v, v ∉ S → outflow v amount = inflow v amount + draw v

open Classical in
/-- What is drawn outside a set. -/
noncomputable def drawnOutside (S : Set V) (g : V →₀ ℕ) : ℕ :=
  g.sum fun v x => if v ∈ S then 0 else x

open Classical in
omit [DecidableEq V] in
/-- What is drawn outside a set, over any set of nodes that has all that is drawn. -/
theorem drawnOutside_eq_sum (S : Set V) {g : V →₀ ℕ} {B : Finset V} (h : g.support ⊆ B) :
    drawnOutside S g = ∑ v ∈ B, if v ∈ S then 0 else g v := by
  unfold drawnOutside
  exact Finsupp.sum_of_support_subset _ h _ fun v _ => by simp

open Classical in
omit [DecidableEq V] in
theorem drawnOutside_mono (S : Set V) {g g' : V →₀ ℕ} (h : g ≤ g') :
    drawnOutside S g ≤ drawnOutside S g' := by
  have hsub : g.support ⊆ g'.support := Finsupp.support_mono h
  rw [drawnOutside_eq_sum S hsub, drawnOutside_eq_sum S (Finset.Subset.refl _)]
  refine Finset.sum_le_sum fun v _ => ?_
  split
  · exact le_refl _
  · exact h v

namespace FlowInto

variable {N : Network V} {S : Set V}

/-- What the nodes outside `S` draw. -/
noncomputable def value (f : FlowInto N S) : ℕ := drawnOutside S f.draw

theorem value_le (f : FlowInto N S) : f.value ≤ drawnOutside S N.supply :=
  drawnOutside_mono S f.draw_le

end FlowInto

namespace Network

variable (N : Network V) (S : Set V)

/-- The largest value of a flow into `S`. -/
noncomputable def maxFlow : ℕ := sSup {x | ∃ f : FlowInto N S, f.value = x}

theorem value_le_maxFlow {N : Network V} {S : Set V} (f : FlowInto N S) :
    f.value ≤ N.maxFlow S := by
  refine le_csSup ⟨drawnOutside S N.supply, ?_⟩ ⟨f, rfl⟩
  rintro _ ⟨f', rfl⟩
  exact f'.value_le

open Classical in
/-- The cut at a set `T`: what its arcs let in, and what its own nodes outside `S` supply. -/
noncomputable def cut (T : Set V) : ℕ :=
  (N.cap.sum fun a x => if a.1 ∉ T ∧ a.2 ∈ T then x else 0) +
    N.supply.sum fun v x => if v ∈ T ∧ v ∉ S then x else 0

end Network

open Classical in
/-- The outflows of the nodes outside a set are what leaves nodes outside it. -/
theorem sum_outflow (f : V × V →₀ ℕ) (T : Set V) {B : Finset V}
    (h : ∀ a ∈ f.support, a.1 ∈ B) :
    ∑ v ∈ B, (if v ∈ T then 0 else outflow v f) =
      ∑ a ∈ f.support, if a.1 ∈ T then 0 else f a := by
  have hswap : ∀ v ∈ B, (if v ∈ T then 0 else outflow v f) =
      ∑ a ∈ f.support, if a.1 = v then (if v ∈ T then 0 else f a) else 0 := by
    intro v _
    split
    · simp
    · exact outflow_eq_sum v f
  rw [Finset.sum_congr rfl hswap, Finset.sum_comm]
  refine Finset.sum_congr rfl fun a ha => ?_
  rw [Finset.sum_ite_eq, if_pos (h a ha)]

open Classical in
theorem sum_inflow (f : V × V →₀ ℕ) (T : Set V) {B : Finset V}
    (h : ∀ a ∈ f.support, a.2 ∈ B) :
    ∑ v ∈ B, (if v ∈ T then 0 else inflow v f) =
      ∑ a ∈ f.support, if a.2 ∈ T then 0 else f a := by
  have hswap : ∀ v ∈ B, (if v ∈ T then 0 else inflow v f) =
      ∑ a ∈ f.support, if a.2 = v then (if v ∈ T then 0 else f a) else 0 := by
    intro v _
    split
    · simp
    · exact inflow_eq_sum v f
  rw [Finset.sum_congr rfl hswap, Finset.sum_comm]
  refine Finset.sum_congr rfl fun a ha => ?_
  rw [Finset.sum_ite_eq, if_pos (h a ha)]

theorem sum_where_le {α : Type*} {f g : α →₀ ℕ} (h : f ≤ g) (p : α → Prop) [DecidablePred p] :
    (f.sum fun a x => if p a then x else 0) ≤ g.sum fun a x => if p a then x else 0 := by
  rw [Finsupp.sum_of_support_subset f (Finsupp.support_mono h) _ fun a _ => by simp, Finsupp.sum]
  refine Finset.sum_le_sum fun a _ => ?_
  split
  · exact h a
  · exact le_rfl

theorem sum_where_eq {α : Type*} {f g : α →₀ ℕ} (h : f ≤ g) {p : α → Prop} [DecidablePred p]
    (heq : ∀ a, p a → f a = g a) :
    (f.sum fun a x => if p a then x else 0) = g.sum fun a x => if p a then x else 0 := by
  rw [Finsupp.sum_of_support_subset f (Finsupp.support_mono h) _ fun a _ => by simp, Finsupp.sum]
  refine Finset.sum_congr rfl fun a _ => ?_
  split
  · next ha => exact heq a ha
  · rfl

section Crossing

variable {N : Network V} {S T : Set V}

namespace FlowInto

/-- All that a flow draws. -/
noncomputable def drawn (f : FlowInto N S) : ℕ := f.draw.degree

open Classical in
/-- What is drawn comes from inside a set around the target, or enters it; what leaves the
set is counted twice. -/
theorem drawn_add_leaving (f : FlowInto N S) (hST : S ⊆ T) :
    f.drawn + (f.amount.sum fun a x => if a.1 ∈ T ∧ a.2 ∉ T then x else 0) =
      (f.amount.sum fun a x => if a.1 ∉ T ∧ a.2 ∈ T then x else 0) +
        f.draw.sum fun v x => if v ∈ T then x else 0 := by
  -- All the nodes that matter.
  let B : Finset V := f.amount.support.image Prod.fst ∪ f.amount.support.image Prod.snd ∪
    f.draw.support
  have hfst : ∀ a ∈ f.amount.support, a.1 ∈ B := fun a ha =>
    Finset.mem_union_left _ (Finset.mem_union_left _ (Finset.mem_image_of_mem _ ha))
  have hsnd : ∀ a ∈ f.amount.support, a.2 ∈ B := fun a ha =>
    Finset.mem_union_left _ (Finset.mem_union_right _ (Finset.mem_image_of_mem _ ha))
  have hdraw : f.draw.support ⊆ B := Finset.subset_union_right
  have hbalance : ∑ v ∈ B, (if v ∈ T then 0 else outflow v f.amount) =
      ∑ v ∈ B, (if v ∈ T then 0 else inflow v f.amount) +
        ∑ v ∈ B, if v ∈ T then 0 else f.draw v := by
    rw [← Finset.sum_add_distrib]
    refine Finset.sum_congr rfl fun v _ => ?_
    split
    · rfl
    · next hv => exact f.balanced v fun h => hv (hST h)
  rw [sum_outflow _ _ hfst, sum_inflow _ _ hsnd] at hbalance
  have hcross : ∑ a ∈ f.amount.support, (if a.1 ∈ T then 0 else f.amount a) +
        ∑ a ∈ f.amount.support, (if a.1 ∈ T ∧ a.2 ∉ T then f.amount a else 0) =
      ∑ a ∈ f.amount.support, (if a.2 ∈ T then 0 else f.amount a) +
        ∑ a ∈ f.amount.support, if a.1 ∉ T ∧ a.2 ∈ T then f.amount a else 0 := by
    rw [← Finset.sum_add_distrib, ← Finset.sum_add_distrib]
    refine Finset.sum_congr rfl fun a _ => ?_
    by_cases h₁ : a.1 ∈ T <;> by_cases h₂ : a.2 ∈ T <;> simp [h₁, h₂]
  have houtside : drawnOutside T f.draw = ∑ v ∈ B, if v ∈ T then 0 else f.draw v :=
    drawnOutside_eq_sum T hdraw
  have hdegree : f.drawn = (f.draw.sum fun v x => if v ∈ T then x else 0) + drawnOutside T f.draw := by
    rw [drawn, Finsupp.degree_apply, drawnOutside, ← Finsupp.sum_add]
    refine Finset.sum_congr rfl fun v _ => ?_
    by_cases hv : v ∈ T <;> simp [hv]
  show f.drawn + ∑ a ∈ f.amount.support, (if a.1 ∈ T ∧ a.2 ∉ T then f.amount a else 0) =
    (∑ a ∈ f.amount.support, if a.1 ∉ T ∧ a.2 ∈ T then f.amount a else 0) + _
  omega

open Classical in
/-- No flow is larger than a cut. -/
theorem value_le_cut (f : FlowInto N S) (hST : S ⊆ T) : f.value ≤ N.cut S T := by
  have hdrawn := f.drawn_add_leaving hST
  have hentering := sum_where_le f.amount_le fun a => a.1 ∉ T ∧ a.2 ∈ T
  have hbetween := sum_where_le f.draw_le fun v => v ∈ T ∧ v ∉ S
  -- What is drawn outside `S` is all but what is drawn inside it.
  have hvalue : f.drawn = (f.draw.sum fun v x => if v ∈ S then x else 0) + f.value := by
    rw [drawn, Finsupp.degree_apply, value, drawnOutside, ← Finsupp.sum_add]
    refine Finset.sum_congr rfl fun v _ => ?_
    by_cases hv : v ∈ S <;> simp [hv]
  have hinside : (f.draw.sum fun v x => if v ∈ T then x else 0) =
      (f.draw.sum fun v x => if v ∈ S then x else 0) +
        f.draw.sum fun v x => if v ∈ T ∧ v ∉ S then x else 0 := by
    rw [← Finsupp.sum_add]
    refine Finset.sum_congr rfl fun v _ => ?_
    by_cases h₁ : v ∈ S
    · simp [h₁, hST h₁]
    · by_cases h₂ : v ∈ T <;> simp [h₁, h₂]
  unfold Network.cut
  omega

end FlowInto

end Crossing

theorem Network.maxFlow_le_cut (N : Network V) {S T : Set V} (hST : S ⊆ T) :
    N.maxFlow S ≤ N.cut S T := by
  refine csSup_le ⟨0, ⟨0, 0, zero_le, zero_le, by simp⟩, ?_⟩ ?_
  · simp [FlowInto.value, drawnOutside]
  · rintro _ ⟨f, rfl⟩
    exact f.value_le_cut hST

/-! ### Acyclic flows -/

/-- Something flows from `a` to `b`. -/
def Carries (f : V × V →₀ ℕ) (a b : V) : Prop := 0 < f (a, b)

/-- The arcs that carry something close no cycle. -/
def Acyclic (f : V × V →₀ ℕ) : Prop := ∀ v, ¬Relation.TransGen (Carries f) v v

omit [DecidableEq V] in
theorem Acyclic.mono {f f' : V × V →₀ ℕ} (h : Acyclic f) (hle : f' ≤ f) : Acyclic f' := by
  intro v hv
  have hsub : ∀ a b, Carries f' a b → Carries f a b := fun a b hab =>
    lt_of_lt_of_le hab (hle (a, b))
  exact h v (hv.lift id hsub)

section Acyclic

variable {f : V × V →₀ ℕ} {g : V →₀ ℕ} {d : V}

end Acyclic

/-! ### Walks -/

/-- The arcs lead from `u` to `v`. -/
def IsWalk : V → List (V × V) → V → Prop
  | u, [], v => u = v
  | u, a :: arcs, v => a.1 = u ∧ IsWalk a.2 arcs v

omit [DecidableEq V] in
theorem IsWalk.append {u v w : V} {arcs arcs' : List (V × V)} (h : IsWalk u arcs v)
    (h' : IsWalk v arcs' w) : IsWalk u (arcs ++ arcs') w := by
  induction arcs generalizing u with
  | nil => exact (show u = v from h) ▸ h'
  | cons a arcs ih => exact ⟨h.1, ih h.2⟩

/-- `x` sent along the arcs. -/
noncomputable def pathFlow (arcs : List (V × V)) (x : ℕ) : V × V →₀ ℕ :=
  (arcs.map fun a => Finsupp.single a x).sum

section Trim

variable {S : Set V} {f : V × V →₀ ℕ}

/-- `S` is reached from the node in `k` steps along arcs that carry something. -/
def Near (f : V × V →₀ ℕ) (S : Set V) : ℕ → V → Prop
  | 0, v => v ∈ S
  | k + 1, v => ∃ w, Carries f v w ∧ Near f S k w

/-- The least number of steps to `S`. -/
def AtDistance (f : V × V →₀ ℕ) (S : Set V) (k : ℕ) (v : V) : Prop :=
  Near f S k v ∧ ∀ j < k, ¬Near f S j v

open Classical in
omit [DecidableEq V] in
theorem exists_atDistance {v : V} (h : ∃ k, Near f S k v) : ∃ k, AtDistance f S k v :=
  ⟨Nat.find h, Nat.find_spec h, fun _ hj => Nat.find_min h hj⟩

omit [DecidableEq V] in
theorem AtDistance.unique {j k : ℕ} {v : V} (h : AtDistance f S j v) (h' : AtDistance f S k v) :
    j = k := by
  rcases lt_trichotomy j k with hlt | heq | hlt
  · exact absurd h.1 (h'.2 j hlt)
  · exact heq
  · exact absurd h'.1 (h.2 k hlt)

open Classical in
/-- **What comes out of `S` comes back to it**, where every node outside passes on at least
what it gets. -/
theorem exists_near (hpass : ∀ v, v ∉ S → inflow v f ≤ outflow v f) {s v : V} (hs : s ∈ S)
    (hv : Carries f s v) : ∃ k, Near f S k v := by
  by_contra hfar
  -- the nodes from which `S` is not reached keep what they get among themselves
  let T : Set V := {u | ∃ k, Near f S k u}
  have hclosed : ∀ u w, u ∉ T → Carries f u w → w ∉ T := by
    rintro u w hu hw ⟨k, hk⟩
    exact hu ⟨k + 1, w, hw, hk⟩
  have hST : S ⊆ T := fun u hu => ⟨0, hu⟩
  let B : Finset V := f.support.image Prod.fst ∪ f.support.image Prod.snd
  have hfst : ∀ a ∈ f.support, a.1 ∈ B := fun a ha =>
    Finset.mem_union_left _ (Finset.mem_image_of_mem _ ha)
  have hsnd : ∀ a ∈ f.support, a.2 ∈ B := fun a ha =>
    Finset.mem_union_right _ (Finset.mem_image_of_mem _ ha)
  have hle : ∑ u ∈ B, (if u ∈ T then 0 else inflow u f) ≤
      ∑ u ∈ B, if u ∈ T then 0 else outflow u f := by
    refine Finset.sum_le_sum fun u _ => ?_
    split
    · exact le_refl _
    · next hu => exact hpass u fun h => hu (hST h)
  rw [sum_inflow f T hsnd, sum_outflow f T hfst] at hle
  refine absurd hle (not_le.2 (Finset.sum_lt_sum (fun a ha => ?_) ⟨(s, v), ?_, ?_⟩))
  · by_cases hu : a.1 ∈ T
    · rw [if_pos hu]
      exact Nat.zero_le _
    · have hcarries : Carries f a.1 a.2 := Nat.pos_of_ne_zero (Finsupp.mem_support_iff.1 ha)
      rw [if_neg hu, if_neg (hclosed _ _ hu hcarries)]
  · exact Finsupp.mem_support_iff.2 (Nat.pos_iff_ne_zero.1 hv)
  · show (if s ∈ T then 0 else f (s, v)) < if v ∈ T then 0 else f (s, v)
    rw [if_pos (hST hs), if_neg (show v ∉ T from hfar)]
    exact hv

/-- A node from which `S` is reached can send one unit there. -/
theorem exists_route (k : ℕ) {v : V} (hv : AtDistance f S k v) :
    ∃ g ≤ f, (∀ a, 0 < g a → ∃ j ≤ k, 0 < j ∧ AtDistance f S j a.1) ∧
      ∀ u, u ∉ S → outflow u g = inflow u g + if u = v then 1 else 0 := by
  induction k generalizing v with
  | zero =>
    refine ⟨0, zero_le, fun a ha => absurd ha (lt_irrefl 0), fun u hu => ?_⟩
    have hne : u ≠ v := by
      rintro rfl
      exact hu hv.1
    simp [hne]
  | succ k ih =>
    obtain ⟨w, hw, hnear⟩ := hv.1
    have hdist : AtDistance f S k w := ⟨hnear, fun j hj h => hv.2 (j + 1) (by omega) ⟨w, hw, h⟩⟩
    obtain ⟨g, hle, htails, hbalance⟩ := ih hdist
    -- the route from `w` does not leave `v` again
    have hunused : ∀ u, g (v, u) = 0 := by
      intro u
      by_contra hne
      obtain ⟨j, hj, -, hat⟩ := htails (v, u) (Nat.pos_of_ne_zero hne)
      have := hat.unique hv
      omega
    refine ⟨g + Finsupp.single (v, w) 1, fun a => ?_, fun a ha => ?_, fun u hu => ?_⟩
    · rw [Finsupp.add_apply]
      by_cases ha : a = (v, w)
      · subst ha
        rw [hunused, Finsupp.single_eq_same, Nat.zero_add]
        exact hw
      · rw [Finsupp.single_eq_of_ne ha, Nat.add_zero]
        exact hle a
    · by_cases hav : a = (v, w)
      · subst hav
        exact ⟨k + 1, le_refl _, Nat.succ_pos k, hv⟩
      · rw [Finsupp.add_apply, Finsupp.single_eq_of_ne hav, Nat.add_zero] at ha
        obtain ⟨j, hj, hpos, hat⟩ := htails a ha
        exact ⟨j, Nat.le_succ_of_le hj, hpos, hat⟩
    · rw [map_add, map_add, outflow_single, inflow_single, hbalance u hu]
      simp only [eq_comm (a := u)]

/-- **A flow into `S` needs no arc that leaves it**: with the same draws it can be had on
arcs that start outside. -/
theorem exists_trimmed {g : V →₀ ℕ} (f : V × V →₀ ℕ)
    (hb : ∀ v, v ∉ S → outflow v f = inflow v f + g v) :
    ∃ f' ≤ f, (∀ a, a.1 ∈ S → f' a = 0) ∧ ∀ v, v ∉ S → outflow v f' = inflow v f' + g v := by
  by_cases hdone : ∀ a, a.1 ∈ S → f a = 0
  · exact ⟨f, le_refl f, hdone, hb⟩
  push Not at hdone
  obtain ⟨⟨s, v⟩, hs, hpos⟩ := hdone
  have hcarries : Carries f s v := Nat.pos_of_ne_zero hpos
  obtain ⟨k, hk⟩ := exists_atDistance (exists_near (fun u hu => by rw [hb u hu]; omega) hs hcarries)
  obtain ⟨r, hle, htails, hroute⟩ := exists_route k hk
  -- close the route with the arc that leaves `S`, and take it out
  have hunused : r (s, v) = 0 := by
    by_contra hne
    obtain ⟨j, -, hj, hat⟩ := htails (s, v) (Nat.pos_of_ne_zero hne)
    exact hat.2 0 hj hs
  have hcycle : r + Finsupp.single (s, v) 1 ≤ f := by
    intro a
    rw [Finsupp.add_apply]
    by_cases ha : a = (s, v)
    · subst ha
      rw [hunused, Finsupp.single_eq_same, Nat.zero_add]
      exact hcarries
    · rw [Finsupp.single_eq_of_ne ha, Nat.add_zero]
      exact hle a
  have hsum : f - (r + Finsupp.single (s, v) 1) + (r + Finsupp.single (s, v) 1) = f :=
    tsub_add_cancel_of_le hcycle
  have hless : (f - (r + Finsupp.single (s, v) 1)).degree < f.degree := by
    have hdegree := congrArg Finsupp.degree hsum
    rw [map_add, map_add, Finsupp.degree_single] at hdegree
    omega
  have hbalance : ∀ u, u ∉ S → outflow u (f - (r + Finsupp.single (s, v) 1)) =
      inflow u (f - (r + Finsupp.single (s, v) 1)) + g u := by
    intro u hu
    have hall := hb u hu
    rw [← hsum, map_add, map_add, map_add, map_add, outflow_single, inflow_single, hroute u hu,
      if_neg (show ¬s = u from fun h => hu (h ▸ hs))] at hall
    simp only [eq_comm (a := u)] at hall
    omega
  obtain ⟨f', hf', htrim, hdraw⟩ := exists_trimmed (f - (r + Finsupp.single (s, v) 1)) hbalance
  exact ⟨f', hf'.trans tsub_le_self, htrim, hdraw⟩
termination_by f.degree

/-- Networks that differ only on arcs that leave `S` let the same flow into it. -/
theorem Network.maxFlow_congr {N N' : Network V} (hsupply : N'.supply = N.supply)
    (hcap : ∀ a, a.1 ∉ S → N'.cap a = N.cap a) : N'.maxFlow S = N.maxFlow S := by
  have hle : ∀ {N N' : Network V}, N'.supply = N.supply → (∀ a, a.1 ∉ S → N'.cap a = N.cap a) →
      N'.maxFlow S ≤ N.maxFlow S := by
    intro N N' hsupply hcap
    refine csSup_le ⟨0, ⟨0, 0, zero_le, zero_le, by simp⟩, ?_⟩ ?_
    · simp [FlowInto.value, drawnOutside]
    · rintro _ ⟨f, rfl⟩
      obtain ⟨f', hf', htrim, hbalance⟩ := exists_trimmed f.amount f.balanced
      refine value_le_maxFlow (N := N) (S := S)
        ⟨f', f.draw, fun a => ?_, hsupply ▸ f.draw_le, hbalance⟩
      by_cases ha : a.1 ∈ S
      · rw [htrim a ha]
        exact Nat.zero_le _
      · rw [← hcap a ha]
        exact (hf' a).trans (f.amount_le a)
  exact le_antisymm (hle hsupply hcap) (hle hsupply.symm fun a ha => (hcap a ha).symm)

end Trim

end Edet.NetworkFlow
