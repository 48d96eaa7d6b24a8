import Edet.Kernel.Levels
import Mathlib.Data.List.TakeWhile

/-!
# One phase

A phase ends by itself, within the bound on its steps (`blockingLoop_ends`): every step
forward lengthens the path, and every other step passes over an arc for good or empties one,
which no longer counts (`alive`). And it moves something (`lt_phase`): as long as it has not,
the nodes it has given up on lead to no others (`Phase.passed`), and the sink is none of
them, while the levels climb from the source to the sink.
-/

namespace Edet.Flow

open NetworkFlow

namespace Network

/-- A network whose arcs are paired and listed, with every end a node. -/
structure Wired (net : Network) (arcs : List (Nat × Nat)) : Prop where
  paired : net.Paired arcs
  indexed : net.Indexed arcs
  bounded : net.Bounded
  source : net.src < net.heads.length
  ends : net.src ≠ net.snk
  /-- Every arc is listed once at most. -/
  listed : ∑ v ∈ Finset.range net.heads.length, (net.out v).length ≤ net.tail.length

theorem Wired.of_cap {net : Network} {arcs : List (Nat × Nat)} (h : net.Wired arcs)
    {cap : List Nat} (hlen : cap.length = net.cap.length) : ({ net with cap } : Network).Wired arcs :=
  ⟨h.paired.of_cap hlen, h.indexed, h.bounded, h.source, h.ends, h.listed⟩

/-! ### What a push empties -/

theorem pushArc_le {x : Nat} {cap : List Nat} {a m b : Nat} (hlen : cap.length = 2 * m)
    (ha : a < 2 * m) (hb : b ≠ a ^^^ 1) : (pushArc x cap a).getD b 0 ≤ cap.getD b 0 := by
  rw [getD_pushArc hlen ha]
  split
  · next heq =>
    rw [heq]
    exact Nat.sub_le _ _
  · exact le_rfl

/-- A push raises only reverses of its path. -/
theorem push_le {x : Nat} {cap path : List Nat} {m b : Nat} (hlen : cap.length = 2 * m)
    (hpath : ∀ a ∈ path, a < 2 * m) (hb : ∀ a ∈ path, b ≠ a ^^^ 1) :
    (push cap path x).getD b 0 ≤ cap.getD b 0 := by
  induction path generalizing cap with
  | nil => exact le_rfl
  | cons a path ih =>
    have ha := hpath a List.mem_cons_self
    have hlen' : (pushArc x cap a).length = 2 * m := (length_pushArc x cap a).trans hlen
    exact (ih hlen' (fun c hc => hpath c (List.mem_cons_of_mem _ hc))
      fun c hc => hb c (List.mem_cons_of_mem _ hc)).trans (pushArc_le hlen ha (hb a List.mem_cons_self))

theorem length_push (cap path : List Nat) (x : Nat) : (push cap path x).length = cap.length := by
  induction path generalizing cap with
  | nil => rfl
  | cons a path ih => exact (ih (pushArc x cap a)).trans (length_pushArc x cap a)

/-- It takes its amount from every arc of the path. -/
theorem push_mem_le {x : Nat} {cap path : List Nat} {m b : Nat} (hlen : cap.length = 2 * m)
    (hpath : ∀ a ∈ path, a < 2 * m) (hmem : b ∈ path) (hb : ∀ a ∈ path, b ≠ a ^^^ 1) :
    (push cap path x).getD b 0 ≤ cap.getD b 0 - x := by
  induction path generalizing cap with
  | nil => cases hmem
  | cons a path ih =>
    have ha := hpath a List.mem_cons_self
    have hlen' : (pushArc x cap a).length = 2 * m := (length_pushArc x cap a).trans hlen
    have hrest : ∀ c ∈ path, c < 2 * m := fun c hc => hpath c (List.mem_cons_of_mem _ hc)
    have hb' : ∀ c ∈ path, b ≠ c ^^^ 1 := fun c hc => hb c (List.mem_cons_of_mem _ hc)
    show (push (pushArc x cap a) path x).getD b 0 ≤ _
    by_cases hba : b = a
    · refine (push_le hlen' hrest hb').trans ?_
      rw [hba, getD_pushArc hlen ha, if_pos rfl]
    · have hmem : b ∈ path := (List.mem_cons.1 hmem).resolve_left hba
      refine (ih hlen' hrest hmem hb').trans (Nat.sub_le_sub_right ?_ x)
      exact pushArc_le hlen ha (hb a List.mem_cons_self)

theorem bottleneck_mem {cap path : List Nat} (h : path ≠ []) :
    ∃ a ∈ path, bottleneck cap path = cap.getD a 0 := by
  unfold bottleneck
  cases hmin : (path.map fun a => cap.getD a 0).min? with
  | none =>
    rw [List.min?_eq_none_iff, List.map_eq_nil_iff] at hmin
    exact absurd hmin h
  | some m =>
    obtain ⟨a, ha, heq⟩ := List.mem_map.1 (List.min?_eq_some_iff.1 hmin).1
    exact ⟨a, ha, heq.symm⟩

/-! ### The state of a phase -/

/-- The arcs that may still be tried. -/
def alive (net : Network) (level : List (Option Nat)) (nextArc : List Nat) : Nat :=
  ∑ v ∈ Finset.range net.heads.length,
    ((net.out v).drop (nextArc.getD v 0)).countP (net.admissible level v)

/-- The phase has given up on the node. -/
def Dead (net : Network) (nextArc : List Nat) (v : Nat) : Prop :=
  v ≠ net.snk ∧ (net.out v).length ≤ nextArc.getD v 0

/-- What a phase keeps. -/
structure Phase (net : Network) (level : List (Option Nat)) (nextArc path : List Nat) (u : Nat) :
    Prop where
  length : nextArc.length = net.heads.length
  walk : IsWalk net.src (net.ends path) u
  /-- The pointer of every node on the path stands on the arc that was taken. -/
  pointed : ∀ a ∈ path, (net.out (net.tail.getD a 0))[nextArc.getD (net.tail.getD a 0) 0]? = some a
  admissible : ∀ a ∈ path, net.admissible level (net.tail.getD a 0) a
  /-- An arc that has been passed over leads nowhere. -/
  passed : ∀ v j a, j < nextArc.getD v 0 → (net.out v)[j]? = some a → net.admissible level v a →
    net.Dead nextArc (net.dest.getD a 0)

variable {net : Network} {arcs : List (Nat × Nat)} {level : List (Option Nat)}
  {nextArc path : List Nat} {u : Nat}

namespace Phase

theorem climb (h : net.Phase level nextArc path u) : ∀ a ∈ path,
    height level (net.dest.getD a 0) = height level (net.tail.getD a 0) + 1 :=
  fun a ha => climb_of_admissible (h.admissible a ha)

theorem mem_out (h : net.Phase level nextArc path u) {a : Nat} (ha : a ∈ path) :
    a ∈ net.out (net.tail.getD a 0) := List.mem_of_getElem? (h.pointed a ha)

end Phase

/-- Along a climbing walk the tails lie below the end, and the ends are distinct. -/
theorem climbing {f : Nat → Nat} {path : List Nat} {u w : Nat} (hwalk : IsWalk u (net.ends path) w)
    (hclimb : ∀ a ∈ path, f (net.dest.getD a 0) = f (net.tail.getD a 0) + 1) :
    (∀ a ∈ path, f (net.tail.getD a 0) < f w) ∧ (path.map fun a => net.dest.getD a 0).Nodup ∧
      f w = f u + path.length := by
  induction path generalizing u with
  | nil =>
    obtain rfl : u = w := hwalk
    exact ⟨(fun a ha => nomatch ha), List.nodup_nil, rfl⟩
  | cons a path ih =>
    obtain ⟨htail, hrest⟩ := hwalk
    have hrestclimb : ∀ b ∈ path, f (net.dest.getD b 0) = f (net.tail.getD b 0) + 1 :=
      fun b hb => hclimb b (List.mem_cons_of_mem _ hb)
    obtain ⟨hbelow, hnodup, hend⟩ := ih hrest hrestclimb
    obtain ⟨-, hlater⟩ := nodup_of_climb hrest hrestclimb
    have ha := hclimb a List.mem_cons_self
    dsimp only at htail hend hlater
    rw [htail] at ha
    refine ⟨fun b hb => ?_, List.nodup_cons.2 ⟨fun hmem => ?_, hnodup⟩, ?_⟩
    · rcases List.mem_cons.1 hb with rfl | hb
      · rw [htail]
        omega
      · exact hbelow b hb
    · obtain ⟨b, hb, heq⟩ := List.mem_map.1 hmem
      have := hlater b hb
      rw [heq] at this
      exact lt_irrefl _ this
    · rw [List.length_cons]
      omega

namespace Phase

/-- The path is no longer than there are nodes. -/
theorem length_le (hw : net.Wired arcs) (h : net.Phase level nextArc path u) :
    path.length ≤ net.heads.length := by
  obtain ⟨-, hnodup, -⟩ := climbing h.walk h.climb
  have hsub : (path.map fun a => net.dest.getD a 0) ⊆ List.range net.heads.length := by
    intro v hv
    obtain ⟨a, ha, rfl⟩ := List.mem_map.1 hv
    exact List.mem_range.2 (hw.bounded _ a (h.mem_out ha))
  have hle := (hnodup.subperm hsub).length_le
  rwa [List.length_map, List.length_range] at hle

/-- No arc of the path is the reverse of another. -/
theorem not_reverse (hw : net.Wired arcs) (h : net.Phase level nextArc path u) {v b : Nat}
    (hb : b ∈ net.out v) (hlevel : height level (net.dest.getD b 0) = height level v + 1) :
    ∀ a ∈ path, b ≠ a ^^^ 1 := by
  rintro a ha rfl
  obtain ⟨hrange, htail⟩ := hw.indexed v _ hb
  have harange := (hw.indexed _ a (h.mem_out ha)).1
  have hclimb := h.climb a ha
  have hdest := hw.paired.tail_xor harange
  have hdest' := hw.paired.tail_xor hrange
  have hxor : a ^^^ 1 ^^^ 1 = a := by rw [Nat.xor_assoc, Nat.xor_self, Nat.xor_zero]
  rw [hxor, htail] at hdest'
  rw [hdest] at hlevel
  rw [hdest'] at hclimb
  omega

end Phase

/-! ### What the scan says -/

theorem not_admissible_of_skipped {next i b : Nat}
    (hi : i < (((net.out u).drop next).takeWhile fun a => !net.admissible level u a).length)
    (hb : (net.out u)[next + i]? = some b) : ¬net.admissible level u b := by
  have hprefix := List.takeWhile_prefix (l := (net.out u).drop next)
    (fun a => !net.admissible level u a)
  have hget := hprefix.getElem hi
  have hdrop : ((net.out u).drop next)[i]? = some b := by rw [List.getElem?_drop, hb]
  have hmem := List.mem_takeWhile_imp (List.getElem_mem hi)
  rw [List.getElem?_eq_getElem (hi.trans_le hprefix.length_le), ← hget] at hdrop
  rw [Option.some.inj hdrop] at hmem
  simpa using hmem

/-- The scan stops at the next arc to take, past arcs that are of no use. -/
theorem scan_some {next next' a : Nat} (h : net.scan level u next = (next', some a)) :
    next ≤ next' ∧ (net.out u)[next']? = some a ∧ net.admissible level u a ∧
      ∀ j b, next ≤ j → j < next' → (net.out u)[j]? = some b → ¬net.admissible level u b := by
  have hadm := (mem_of_scan h).2
  unfold scan at h
  dsimp only at h
  obtain ⟨rfl, hget⟩ := Prod.mk.inj h
  rw [List.getElem?_drop] at hget
  refine ⟨Nat.le_add_right _ _, hget, hadm, fun j b hle hlt hb => ?_⟩
  obtain ⟨i, rfl⟩ := Nat.exists_eq_add_of_le hle
  exact not_admissible_of_skipped (Nat.lt_of_add_lt_add_left hlt) hb

/-- Where it finds none, no arc from the pointer on is of use. -/
theorem scan_none {next next' : Nat} (h : net.scan level u next = (next', none)) :
    next ≤ next' ∧ (net.out u).length ≤ next' ∧
      ∀ j b, next ≤ j → (net.out u)[j]? = some b → ¬net.admissible level u b := by
  unfold scan at h
  dsimp only at h
  obtain ⟨rfl, hget⟩ := Prod.mk.inj h
  rw [List.getElem?_eq_none_iff, List.length_drop] at hget
  refine ⟨Nat.le_add_right _ _, by omega, fun j b hle hb => ?_⟩
  obtain ⟨i, rfl⟩ := Nat.exists_eq_add_of_le hle
  have hlt := (List.getElem?_eq_some_iff.1 hb).1
  exact not_admissible_of_skipped (by omega) hb

/-! ### What a step does -/

/-- A pointer only moves on. -/
theorem getD_le_set {next : Nat} (hu : u < nextArc.length) (hnext : nextArc.getD u 0 ≤ next) (v : Nat) :
    nextArc.getD v 0 ≤ (nextArc.set u next).getD v 0 := by
  rw [getD_set nextArc u v next hu]
  split
  · next heq => exact heq ▸ hnext
  · exact le_rfl

theorem Dead.mono {nextArc' : List Nat} (hle : ∀ v, nextArc.getD v 0 ≤ nextArc'.getD v 0) {v : Nat}
    (h : net.Dead nextArc v) : net.Dead nextArc' v := ⟨h.1, h.2.trans (hle v)⟩

theorem alive_mono {nextArc' : List Nat} (hle : ∀ v, nextArc.getD v 0 ≤ nextArc'.getD v 0) :
    net.alive level nextArc' ≤ net.alive level nextArc :=
  Finset.sum_le_sum fun v _ => (List.drop_sublist_drop_left _ (hle v)).countP_le

theorem drop_of_pointed {l : List Nat} {i a : Nat} (h : l[i]? = some a) :
    l.drop i = a :: l.drop (i + 1) := by
  obtain ⟨hi, rfl⟩ := List.getElem?_eq_some_iff.1 h
  exact List.drop_eq_getElem_cons hi

/-- Passing over an arc that could still be taken leaves fewer. -/
theorem alive_lt {nextArc' : List Nat} (hle : ∀ v, nextArc.getD v 0 ≤ nextArc'.getD v 0) {v a : Nat}
    (hv : v < net.heads.length) (hpassed : nextArc.getD v 0 < nextArc'.getD v 0)
    (hpointed : (net.out v)[nextArc.getD v 0]? = some a) (ha : net.admissible level v a) :
    net.alive level nextArc' < net.alive level nextArc := by
  refine Finset.sum_lt_sum (fun w _ => (List.drop_sublist_drop_left _ (hle w)).countP_le)
    ⟨v, Finset.mem_range.2 hv, ?_⟩
  rw [drop_of_pointed hpointed, List.countP_cons_of_pos ha]
  exact Nat.lt_succ_of_le (List.drop_sublist_drop_left _ hpassed).countP_le

theorem isWalk_end {path : List Nat} {u w : Nat} (h : IsWalk u (net.ends path) w) :
    w = u ∧ path = [] ∨ ∃ a ∈ path, path.getLast? = some a ∧ w = net.dest.getD a 0 := by
  induction path generalizing u with
  | nil => exact Or.inl ⟨h.symm, rfl⟩
  | cons a path ih =>
    rcases ih h.2 with ⟨rfl, rfl⟩ | ⟨b, hb, hlast, rfl⟩
    · exact Or.inr ⟨a, List.mem_cons_self, rfl, rfl⟩
    · refine Or.inr ⟨b, List.mem_cons_of_mem _ hb, ?_, rfl⟩
      cases path with
      | nil => cases hb
      | cons c path => rw [List.getLast?_cons_cons, hlast]

namespace Phase

theorem lt (hw : net.Wired arcs) (h : net.Phase level nextArc path u) : u < net.heads.length := by
  rcases isWalk_end h.walk with ⟨rfl, -⟩ | ⟨a, ha, -, rfl⟩
  · exact hw.source
  · exact hw.bounded _ a (h.mem_out ha)

/-- A step forward. -/
theorem advance (hw : net.Wired arcs) (h : net.Phase level nextArc path u) {next a : Nat}
    (hscan : net.scan level u (nextArc.getD u 0) = (next, some a)) :
    net.Phase level (nextArc.set u next) (path ++ [a]) (net.dest.getD a 0) ∧
      net.alive level (nextArc.set u next) ≤ net.alive level nextArc := by
  obtain ⟨hnext, hget, hadm, hskipped⟩ := scan_some hscan
  obtain ⟨-, htail⟩ := hw.indexed u a (List.mem_of_getElem? hget)
  have hset := fun v => getD_set nextArc u v next (h.length ▸ h.lt hw)
  have hle := getD_le_set (h.length ▸ h.lt hw) hnext
  obtain ⟨hbelow, -, -⟩ := climbing h.walk h.climb
  refine ⟨⟨?_, ?_, ?_, ?_, ?_⟩, alive_mono hle⟩
  · rw [List.length_set]
    exact h.length
  · unfold ends
    rw [List.map_append]
    exact h.walk.append ⟨htail, rfl⟩
  · intro b hb
    rcases List.mem_append.1 hb with hb | hb
    · have hne : u ≠ net.tail.getD b 0 := by
        intro heq
        have := hbelow b hb
        rw [← heq] at this
        exact lt_irrefl _ this
      rw [hset, if_neg hne]
      exact h.pointed b hb
    · rw [List.mem_singleton.1 hb, htail, hset, if_pos rfl]
      exact hget
  · intro b hb
    rcases List.mem_append.1 hb with hb | hb
    · exact h.admissible b hb
    · rw [List.mem_singleton.1 hb, htail]
      exact hadm
  · intro v j b hj hb hadm'
    refine Dead.mono hle ?_
    rw [hset] at hj
    split at hj
    · next heq =>
      subst heq
      rcases Nat.lt_or_ge j (nextArc.getD u 0) with hold | hnew
      · exact h.passed u j b hold hb hadm'
      -- what the scan has just skipped was not admissible
      · exact absurd hadm' (hskipped j b hnew hj hb)
    · exact h.passed v j b hj hb hadm'

/-- Giving up on a node. -/
theorem giveUp (hw : net.Wired arcs) (h : net.Phase level nextArc path u) (hsink : u ≠ net.snk)
    {next : Nat} (hscan : net.scan level u (nextArc.getD u 0) = (next, none)) :
    net.Phase level (nextArc.set u next) path u ∧ net.Dead (nextArc.set u next) u ∧
      (∀ v, nextArc.getD v 0 ≤ (nextArc.set u next).getD v 0) ∧
      ∀ v, v ≠ u → (nextArc.set u next).getD v 0 = nextArc.getD v 0 := by
  obtain ⟨hnext, hlength, hskipped⟩ := scan_none hscan
  have hset := fun v => getD_set nextArc u v next (h.length ▸ h.lt hw)
  have hle := getD_le_set (h.length ▸ h.lt hw) hnext
  have hother : ∀ v, v ≠ u → (nextArc.set u next).getD v 0 = nextArc.getD v 0 := fun v hv => by
    rw [hset, if_neg (Ne.symm hv)]
  obtain ⟨hbelow, -, -⟩ := climbing h.walk h.climb
  refine ⟨⟨?_, h.walk, ?_, h.admissible, ?_⟩, ⟨hsink, ?_⟩, hle, hother⟩
  · rw [List.length_set]
    exact h.length
  · intro b hb
    have hne : net.tail.getD b 0 ≠ u := fun heq => lt_irrefl _ (heq ▸ hbelow b hb)
    rw [hother _ hne]
    exact h.pointed b hb
  · intro v j b hj hb hadm
    refine Dead.mono hle ?_
    rw [hset] at hj
    split at hj
    · next heq =>
      subst heq
      rcases Nat.lt_or_ge j (nextArc.getD u 0) with hold | hnew
      · exact h.passed u j b hold hb hadm
      · exact absurd hadm (hskipped j b hnew hb)
    · exact h.passed v j b hj hb hadm
  · rw [hset, if_pos rfl]
    exact hlength

/-- A step back, over the arc that led to a node given up on. -/
theorem retreat (hw : net.Wired arcs) (h : net.Phase level nextArc path u)
    (hdead : net.Dead nextArc u) {a : Nat} (hlast : path.getLast? = some a) :
    net.Phase level (nextArc.set (net.dest.getD (a ^^^ 1) 0) (nextArc.getD (net.dest.getD (a ^^^ 1) 0) 0 + 1))
        path.dropLast (net.dest.getD (a ^^^ 1) 0) ∧
      net.alive level (nextArc.set (net.dest.getD (a ^^^ 1) 0)
        (nextArc.getD (net.dest.getD (a ^^^ 1) 0) 0 + 1)) < net.alive level nextArc := by
  have ha := List.mem_of_getLast? hlast
  obtain ⟨hrange, -⟩ := hw.indexed _ a (h.mem_out ha)
  rw [hw.paired.tail_xor hrange]
  set t := net.tail.getD a 0 with ht
  have hsub : ∀ b ∈ path.dropLast, b ∈ path := fun b hb => List.dropLast_subset _ hb
  have hwalk := isWalk_dropLast h.walk hlast
  obtain ⟨hbelow, -, -⟩ := climbing hwalk fun b hb => h.climb b (hsub b hb)
  have htlt : t < net.heads.length := by
    rcases isWalk_end hwalk with ⟨heq, -⟩ | ⟨b, hb, -, heq⟩
    · rw [ht, heq]
      exact hw.source
    · rw [ht, heq]
      exact hw.bounded _ b (h.mem_out (hsub b hb))
  have hset := fun v => getD_set nextArc t v (nextArc.getD t 0 + 1) (h.length ▸ htlt)
  have hle := getD_le_set (h.length ▸ htlt) (Nat.le_succ (nextArc.getD t 0))
  have hu : net.dest.getD a 0 = u := by
    rcases isWalk_end h.walk with ⟨-, rfl⟩ | ⟨b, -, hb, rfl⟩
    · cases hlast
    · rw [hlast] at hb
      rw [Option.some.inj hb]
  refine ⟨⟨?_, hwalk, ?_, fun b hb => h.admissible b (hsub b hb), ?_⟩,
    alive_lt hle htlt ?_ (h.pointed a ha) (h.admissible a ha)⟩
  · rw [List.length_set]
    exact h.length
  · intro b hb
    have hne : t ≠ net.tail.getD b 0 := by
      intro heq
      have := hbelow b hb
      rw [← heq] at this
      exact lt_irrefl _ this
    rw [hset, if_neg hne]
    exact h.pointed b (hsub b hb)
  · intro v j b hj hb hadm
    refine Dead.mono hle ?_
    rw [hset] at hj
    split at hj
    · next heq =>
      subst heq
      rcases Nat.lt_succ_iff_lt_or_eq.1 hj with hold | rfl
      · exact h.passed _ j b hold hb hadm
      -- the arc just passed over is the one that led to the node given up on
      · have hpointed := h.pointed a ha
        rw [← ht] at hpointed
        rw [hpointed] at hb
        rw [← Option.some.inj hb, hu]
        exact hdead
    · exact h.passed v j b hj hb hadm
  · rw [hset, if_pos rfl]
    exact Nat.lt_succ_self _

end Phase

/-! ### What a push leaves of a phase -/

theorem admissible_of_le {cap : List Nat} {v a : Nat} (hle : cap.getD a 0 ≤ net.cap.getD a 0)
    (h : ({ net with cap } : Network).admissible level v a) : net.admissible level v a := by
  unfold admissible at h ⊢
  rw [Bool.and_eq_true, decide_eq_true_eq] at h ⊢
  exact ⟨h.1.trans_le hle, h.2⟩

theorem admissible_with {cap : List Nat} {v a : Nat} (hcap : 0 < cap.getD a 0)
    (h : net.admissible level v a) : ({ net with cap } : Network).admissible level v a := by
  unfold admissible at h ⊢
  rw [Bool.and_eq_true, decide_eq_true_eq] at h ⊢
  exact ⟨hcap, h.2⟩

theorem pos_of_admissible {v a : Nat} (h : net.admissible level v a) : 0 < net.cap.getD a 0 := by
  unfold admissible at h
  rw [Bool.and_eq_true, decide_eq_true_eq] at h
  exact h.1

namespace Phase

/-- Nothing becomes admissible by a push along the path. -/
theorem admissible_of_push (hw : net.Wired arcs) (h : net.Phase level nextArc path u) {x v a : Nat}
    (ha : a ∈ net.out v)
    (hadm : ({ net with cap := push net.cap path x } : Network).admissible level v a) :
    net.admissible level v a := by
  refine admissible_of_le ?_ hadm
  have hclimb := climb_of_admissible hadm
  exact push_le hw.paired.length_cap (fun b hb => (hw.indexed _ b (h.mem_out hb)).1)
    (h.not_reverse hw ha hclimb)

theorem push (hw : net.Wired arcs) (h : net.Phase level nextArc path u) (x : Nat) :
    let cap := push net.cap path x
    let kept := path.takeWhile fun a => cap.getD a 0 != 0
    ({ net with cap } : Network).Phase level nextArc kept
      (kept.getLast?.elim net.src fun a => net.dest.getD a 0) := by
  intro cap kept
  have hsub : ∀ a ∈ kept, a ∈ path := fun a ha => List.takeWhile_subset _ ha
  have hwalk : IsWalk net.src (net.ends kept) (kept.getLast?.elim net.src fun a => net.dest.getD a 0) := by
    have hwalk := isWalk_takeWhile (p := fun a => cap.getD a 0 != 0) h.walk
    cases hlast : kept.getLast? with
    | none =>
      rw [show (path.takeWhile fun a => cap.getD a 0 != 0).getLast? = none from hlast] at hwalk
      exact hwalk
    | some a =>
      rw [show (path.takeWhile fun a => cap.getD a 0 != 0).getLast? = some a from hlast] at hwalk
      exact hwalk
  refine ⟨h.length, hwalk, fun a ha => h.pointed a (hsub a ha), fun a ha => ?_,
    fun v j a hj ha hadm => ?_⟩
  · refine admissible_with ?_ (h.admissible a (hsub a ha))
    have hleft := List.mem_takeWhile_imp ha
    rw [bne_iff_ne] at hleft
    exact Nat.pos_of_ne_zero hleft
  · exact h.passed v j a hj ha (h.admissible_of_push hw (List.mem_of_getElem? ha) hadm)

/-- A push of all that the path takes empties an arc that could still be tried. -/
theorem alive_push (hw : net.Wired arcs) (h : net.Phase level nextArc path u) (hpath : path ≠ []) :
    ({ net with cap := Network.push net.cap path (bottleneck net.cap path) } : Network).alive level
      nextArc < net.alive level nextArc := by
  set cap := Network.push net.cap path (bottleneck net.cap path) with hcap
  have hle : ∀ v, ∀ a ∈ (net.out v).drop (nextArc.getD v 0),
      ({ net with cap } : Network).admissible level v a → net.admissible level v a :=
    fun v a ha hadm => h.admissible_of_push hw (List.mem_of_mem_drop ha) hadm
  obtain ⟨b, hb, hleast⟩ := @bottleneck_mem net.cap path hpath
  obtain ⟨hrange, -⟩ := hw.indexed _ b (h.mem_out hb)
  have hempty : cap.getD b 0 = 0 := by
    have := push_mem_le (x := bottleneck net.cap path) hw.paired.length_cap
      (fun a ha => (hw.indexed _ a (h.mem_out ha)).1) hb
      (h.not_reverse hw (h.mem_out hb) (h.climb b hb))
    rw [hleast, Nat.sub_self, ← hleast] at this
    exact Nat.le_zero.1 this
  set t := net.tail.getD b 0 with ht
  have htlt : t < net.heads.length := by
    have hmem := h.mem_out hb
    by_contra hge
    unfold out at hmem
    rw [← ht, List.getD_eq_default _ _ (not_lt.1 hge)] at hmem
    cases hmem
  refine Finset.sum_lt_sum (fun v _ => List.countP_mono_left (hle v)) ⟨t, Finset.mem_range.2 htlt, ?_⟩
  have hpointed := h.pointed b hb
  rw [← ht] at hpointed
  have hnow : ¬({ net with cap } : Network).admissible level t b := fun hadm => by
    have := pos_of_admissible hadm
    rw [hempty] at this
    exact lt_irrefl _ this
  have hrest := hle t
  have hadm := h.admissible b hb
  rw [drop_of_pointed hpointed] at hrest
  show ((net.out t).drop (nextArc.getD t 0)).countP _ < _
  rw [drop_of_pointed hpointed, List.countP_cons_of_neg hnow, List.countP_cons_of_pos hadm]
  exact Nat.lt_succ_of_le
    (List.countP_mono_left fun a ha => hrest a (List.mem_cons_of_mem _ ha))

end Phase

/-! ### A whole phase -/

/-- What is left to do in a phase: a step forward lengthens the path, any other uses up an
arc. -/
def toGo (net : Network) (level : List (Option Nat)) (nextArc path : List Nat) : Nat :=
  net.alive level nextArc * (net.heads.length + 2) + (net.heads.length - path.length)

theorem toGo_lt {net' : Network} {nextArc' : List Nat} (path path' : List Nat)
    (hheads : net'.heads = net.heads)
    (h : net'.alive level nextArc' < net.alive level nextArc) :
    net'.toGo level nextArc' path' < net.toGo level nextArc path := by
  unfold toGo
  rw [hheads]
  have hle := Nat.mul_le_mul_right (net.heads.length + 2) (Nat.succ_le_of_lt h)
  rw [Nat.succ_mul] at hle
  omega

theorem le_blockingLoop (level : List (Option Nat)) (limit fuel : Nat) (net : Network)
    (nextArc path : List Nat) (u total : Nat) :
    total ≤ (blockingLoop level limit fuel net nextArc path u total).2 := by
  induction fuel generalizing net nextArc path u total with
  | zero => exact le_rfl
  | succ fuel ih =>
    unfold blockingLoop
    split
    · exact le_rfl
    split
    · exact (Nat.le_add_right _ _).trans (ih _ _ _ _ _)
    · split
      · exact ih _ _ _ _ _
      · extract_lets nextArc'
        split
        · exact le_rfl
        · exact ih _ _ _ _ _

theorem blockingLoop_full {limit total : Nat} (fuel : Nat) (net : Network) (nextArc path : List Nat)
    (u : Nat) (h : limit ≤ total) :
    blockingLoop level limit fuel net nextArc path u total = (net, total) := by
  cases fuel with
  | zero => rfl
  | succ fuel => rw [blockingLoop, if_pos h]

/-- What the loop does at the sink. -/
theorem blockingLoop_sink {limit total amount v : Nat} {cap kept : List Nat} (hfull : ¬limit ≤ total)
    (hsink : u = net.snk) (hamount : amount = min (bottleneck net.cap path) (limit - total))
    (hcap : cap = push net.cap path amount)
    (hkept : kept = path.takeWhile fun a => cap.getD a 0 != 0)
    (hv : v = kept.getLast?.elim net.src fun a => net.dest.getD a 0) (fuel : Nat) :
    blockingLoop level limit (fuel + 1) net nextArc path u total =
      blockingLoop level limit fuel { net with cap } nextArc kept v (total + amount) := by
  rw [blockingLoop, if_neg hfull, if_pos hsink]
  dsimp only
  rw [← hamount, ← hcap, ← hkept, hv]
  cases kept.getLast? with
  | none => rfl
  | some a => rfl

/-- **A phase ends** within the steps it has to go, whatever it is given beyond them; where
nothing moved, it has given up on the source. -/
theorem blockingLoop_ends (limit : Nat) {fuel : Nat} (hw : net.Wired arcs)
    (h : net.Phase level nextArc path u) (hfuel : net.toGo level nextArc path < fuel) (total : Nat) :
    (∀ more, blockingLoop level limit (fuel + more) net nextArc path u total =
      blockingLoop level limit fuel net nextArc path u total) ∧
    (total < limit → (blockingLoop level limit fuel net nextArc path u total).2 = total →
      ∃ nextArc', net.Phase level nextArc' [] net.src ∧ net.Dead nextArc' net.src) := by
  induction fuel generalizing net nextArc path u total with
  | zero => exact absurd hfuel (Nat.not_lt_zero _)
  | succ fuel ih =>
    by_cases hfull : limit ≤ total
    · refine ⟨fun more => ?_, fun hlt => absurd hlt (not_lt.2 hfull)⟩
      rw [blockingLoop_full _ _ _ _ _ hfull, blockingLoop_full _ _ _ _ _ hfull]
    have hshift : ∀ more, fuel + 1 + more = fuel + more + 1 := fun more => Nat.add_right_comm _ _ _
    by_cases hsink : u = net.snk
    · -- At the sink the path is pushed.
      have hpath : path ≠ [] := by
        rintro rfl
        exact hw.ends (Eq.trans (show net.src = u from h.walk) hsink)
      obtain ⟨b, hb, hleast⟩ := @bottleneck_mem net.cap path hpath
      have hpos : 0 < bottleneck net.cap path := hleast ▸ pos_of_admissible (h.admissible b hb)
      obtain ⟨amount, hamount⟩ : ∃ x, x = min (bottleneck net.cap path) (limit - total) := ⟨_, rfl⟩
      obtain ⟨cap, hcap⟩ : ∃ c, c = push net.cap path amount := ⟨_, rfl⟩
      obtain ⟨kept, hkept⟩ : ∃ l, l = path.takeWhile fun a => cap.getD a 0 != 0 := ⟨_, rfl⟩
      obtain ⟨v, hv⟩ : ∃ v, v = kept.getLast?.elim net.src fun a => net.dest.getD a 0 := ⟨_, rfl⟩
      have hequal := @blockingLoop_sink net level nextArc path u limit total amount v cap kept hfull
        hsink hamount hcap hkept hv
      have hphase : ({ net with cap } : Network).Phase level nextArc kept v := by
        rw [hv, hkept, hcap]
        exact h.push hw amount
      have hw' : ({ net with cap } : Network).Wired arcs :=
        hw.of_cap (hcap ▸ length_push net.cap path amount)
      have hmoved : 0 < amount := by omega
      refine ⟨fun more => ?_, fun _ hsame => ?_⟩
      · rw [hshift, hequal, hequal]
        -- Either the limit is reached, or the push takes all that the path has.
        rcases Nat.le_total (limit - total) (bottleneck net.cap path) with hle | hle
        · have hreached : limit ≤ total + amount := by omega
          rw [blockingLoop_full _ _ _ _ _ hreached, blockingLoop_full _ _ _ _ _ hreached]
        · have hall : amount = bottleneck net.cap path := hamount.trans (min_eq_left hle)
          have hless : ({ net with cap } : Network).alive level nextArc < net.alive level nextArc := by
            rw [hcap, hall]
            exact h.alive_push hw hpath
          have hheads : ({ net with cap } : Network).heads = net.heads := rfl
          have hless := toGo_lt path kept hheads hless
          have hgo := hless.trans_le (Nat.le_of_lt_succ hfuel)
          exact (ih hw' hphase hgo (total + amount)).1 more
      · rw [hequal] at hsame
        have := le_blockingLoop level limit fuel { net with cap } nextArc kept v (total + amount)
        omega
    cases hscan : net.scan level u (nextArc.getD u 0) with
    | mk next found =>
    cases found with
    | some a =>
      -- A step forward: no arc is used up, but the path is longer, and it cannot outgrow the nodes.
      obtain ⟨hphase, hle⟩ := h.advance hw hscan
      have hequal : ∀ m, blockingLoop level limit (m + 1) net nextArc path u total =
          blockingLoop level limit m net (nextArc.set u next) (path ++ [a]) (net.dest.getD a 0)
            total := by
        intro m
        rw [blockingLoop, if_neg hfull, if_neg hsink, hscan]
      have hless : net.toGo level (nextArc.set u next) (path ++ [a]) < fuel := by
        have hlong := hphase.length_le hw
        rw [List.length_append, List.length_singleton] at hlong
        have hmul := Nat.mul_le_mul_right (net.heads.length + 2) hle
        unfold toGo at hfuel ⊢
        rw [List.length_append, List.length_singleton]
        omega
      obtain ⟨hmore, hstuck⟩ := ih hw hphase hless total
      rw [hequal]
      exact ⟨fun more => by rw [hshift, hequal, hmore], hstuck⟩
    | none =>
      -- A dead end: the phase ends at the source, and steps back anywhere else.
      obtain ⟨hphase, hdead, hle, -⟩ := h.giveUp hw hsink hscan
      cases hlast : path.getLast? with
      | none =>
        have hequal : ∀ m, blockingLoop level limit (m + 1) net nextArc path u total =
            (net, total) := by
          intro m
          rw [blockingLoop, if_neg hfull, if_neg hsink, hscan]
          dsimp only
          rw [hlast]
        rw [hequal]
        obtain rfl := List.getLast?_eq_none_iff.1 hlast
        obtain rfl : net.src = u := h.walk
        exact ⟨fun more => by rw [hshift, hequal], fun _ _ => ⟨_, hphase, hdead⟩⟩
      | some a =>
        obtain ⟨hback, hless⟩ := hphase.retreat hw hdead hlast
        have hequal : ∀ m, blockingLoop level limit (m + 1) net nextArc path u total =
            blockingLoop level limit m net
              ((nextArc.set u next).set (net.dest.getD (a ^^^ 1) 0)
                ((nextArc.set u next).getD (net.dest.getD (a ^^^ 1) 0) 0 + 1))
              path.dropLast (net.dest.getD (a ^^^ 1) 0) total := by
          intro m
          rw [blockingLoop, if_neg hfull, if_neg hsink, hscan]
          dsimp only
          rw [hlast]
        have hgo := (toGo_lt path path.dropLast rfl
          (hless.trans_le (alive_mono hle))).trans_le (Nat.le_of_lt_succ hfuel)
        obtain ⟨hmore, hstuck⟩ := ih hw hback hgo total
        rw [hequal]
        exact ⟨fun more => by rw [hshift, hequal, hmore], hstuck⟩

/-! ### The phases of a flow -/

/-- What a phase starts from. -/
theorem phase_start (net : Network) (level : List (Option Nat)) :
    net.Phase level (List.replicate net.heads.length 0) [] net.src where
  length := List.length_replicate
  walk := rfl
  pointed := fun a ha => nomatch ha
  admissible := fun a ha => nomatch ha
  passed := by
    intro v j a hj
    have hzero : (List.replicate net.heads.length 0).getD v 0 = 0 := by
      rw [List.getD_eq_getElem?_getD, List.getElem?_replicate]
      split <;> rfl
    rw [hzero] at hj
    exact absurd hj (Nat.not_lt_zero _)

/-- The bound on the steps of a phase is enough. -/
theorem toGo_phaseFuel (hw : net.Wired arcs) (level : List (Option Nat)) :
    net.toGo level (List.replicate net.heads.length 0) [] < net.phaseFuel := by
  have halive : net.alive level (List.replicate net.heads.length 0) ≤ net.tail.length := by
    refine (Finset.sum_le_sum fun v _ => ?_).trans hw.listed
    exact List.countP_le_length.trans (List.length_drop ▸ Nat.sub_le _ _)
  unfold toGo phaseFuel
  have hmul := Nat.mul_le_mul_right (net.heads.length + 2) halive
  have hbound : 4 * (net.tail.length + 2) * (net.heads.length + 4) =
      net.tail.length * (net.heads.length + 2) +
        (3 * (net.tail.length * net.heads.length) + 14 * net.tail.length + 8 * net.heads.length + 32) := by
    ring
  rw [List.length_nil, Nat.sub_zero, hbound]
  omega

/-- Given up on the source, a phase has given up on every node that the source reaches. -/
theorem dead_of_labelled (h : net.Phase level nextArc [] net.src) (hdead : net.Dead nextArc net.src)
    (hsearch : Search net level []) (k : Nat) : ∀ v, level.getD v none = some k →
      net.Dead nextArc v := by
  -- By induction on the level: every arc out of a node given up on has been passed over.
  induction k with
  | zero =>
    intro v hv
    rcases hsearch.pred v 0 hv with ⟨rfl, -⟩ | ⟨_, _, j, _, _, _, _, hj⟩
    · exact hdead
    · cases hj
  | succ k ih =>
    intro v hv
    rcases hsearch.pred v (k + 1) hv with ⟨rfl, -⟩ | ⟨u, a, j, ha, hcap, rfl, hu, hj⟩
    · exact hdead
    · obtain rfl : k = j := Nat.succ.inj hj
      obtain ⟨i, hi⟩ := List.getElem?_of_mem ha
      have hlt := (List.getElem?_eq_some_iff.1 hi).1
      refine h.passed u i a (hlt.trans_le (ih u hu).2) hi ?_
      unfold admissible
      rw [hu, hv]
      simpa using hcap

/-- **A phase moves something.** -/
theorem lt_phase (hw : net.Wired arcs) (hlevels : net.levels = some level) {limit total : Nat}
    (hlt : total < limit) :
    total < (blockingLoop level limit net.phaseFuel net (List.replicate net.heads.length 0) []
      net.src total).2 := by
  refine (le_blockingLoop level limit _ _ _ _ _ _).lt_of_ne fun heq => ?_
  obtain ⟨-, hstuck⟩ := blockingLoop_ends limit hw (phase_start net level)
    (toGo_phaseFuel hw level) total
  obtain ⟨nextArc, hphase, hdead⟩ := hstuck hlt heq.symm
  obtain ⟨hsearch, hsink⟩ := search_of_levels hw.bounded hw.source hlevels
  obtain ⟨k, hk⟩ := Option.isSome_iff_exists.1 hsink
  exact (dead_of_labelled hphase hdead hsearch k net.snk hk).1 rfl

end Network

end Edet.Flow
