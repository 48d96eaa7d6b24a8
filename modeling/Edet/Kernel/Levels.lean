import Edet.Kernel.Dinic

/-!
# The level graph

Breadth-first search gives a level to the nodes that the source reaches over arcs with
something left, and to no others. A labelled node other than the source has a predecessor
one level below, along such an arc (`Search.pred`); and a node is labelled as soon as an arc
with something left leads to it from a labelled one, once the queue is empty
(`closed_levelsLoop`). The queue empties within as many steps as there are nodes, since
every node enters it once.
-/

namespace Edet.Flow

namespace Network

/-- The node has a level. -/
def Labelled (level : List (Option Nat)) (v : Nat) : Prop := (level.getD v none).isSome

/-- Every arc out of a node leads to a node of the network. -/
def Bounded (net : Network) : Prop := ∀ u, ∀ a ∈ net.out u, net.dest.getD a 0 < net.heads.length

/-- What the search has found: the levels climb by one along arcs with something left. -/
structure Search (net : Network) (level : List (Option Nat)) (q : List Nat) : Prop where
  length : level.length = net.heads.length
  queued : ∀ v ∈ q, Labelled level v
  source : level.getD net.src none = some 0
  pred : ∀ v k, level.getD v none = some k → v = net.src ∧ k = 0 ∨
    ∃ u a j, a ∈ net.out u ∧ 0 < net.cap.getD a 0 ∧ net.dest.getD a 0 = v ∧
      level.getD u none = some j ∧ k = j + 1

/-- Labelled nodes that are not exempt have led on already. -/
def ClosedBut (net : Network) (level : List (Option Nat)) (exempt : Nat → Prop) : Prop :=
  ∀ v, Labelled level v → exempt v ∨
    ∀ a ∈ net.out v, 0 < net.cap.getD a 0 → Labelled level (net.dest.getD a 0)

/-- One arc of the search. -/
def visit (net : Network) (u : Nat) (st : List (Option Nat) × List Nat) (a : Nat) :
    List (Option Nat) × List Nat :=
  let v := net.dest.getD a 0
  if 0 < net.cap.getD a 0 ∧ (st.1.getD v none).isNone then
    (st.1.set v ((st.1.getD u none).map (· + 1)), st.2 ++ [v])
  else st

variable {net : Network} {level : List (Option Nat)} {q : List Nat} {u : Nat}

theorem levelsLoop_succ (fuel : Nat) (level : List (Option Nat)) (u : Nat) (q : List Nat) :
    net.levelsLoop (fuel + 1) level (u :: q) =
      net.levelsLoop fuel ((net.out u).foldl (net.visit u) (level, q)).1
        ((net.out u).foldl (net.visit u) (level, q)).2 := rfl

theorem getD_set_label {l : List (Option Nat)} {v : Nat} (hv : v < l.length) (x : Option Nat)
    (w : Nat) : (l.set v x).getD w none = if v = w then x else l.getD w none := by
  rw [List.getD_eq_getElem?_getD, List.getElem?_set, List.getD_eq_getElem?_getD]
  split
  · simp
  · rfl

/-- What one arc does: nothing where its end is labelled or it is used up; else its end is
labelled, one above `u`, and queued. -/
theorem visit_cases (net : Network) (u : Nat) (st : List (Option Nat) × List Nat) (a : Nat) :
    (net.visit u st a = st ∧ (0 < net.cap.getD a 0 → Labelled st.1 (net.dest.getD a 0))) ∨
    (0 < net.cap.getD a 0 ∧ st.1.getD (net.dest.getD a 0) none = none ∧
      net.visit u st a = (st.1.set (net.dest.getD a 0) ((st.1.getD u none).map (· + 1)),
        st.2 ++ [net.dest.getD a 0])) := by
  unfold visit
  dsimp only
  split_ifs with h
  · exact Or.inr ⟨h.1, Option.isNone_iff_eq_none.1 h.2, rfl⟩
  · refine Or.inl ⟨rfl, fun hcap => ?_⟩
    have hsome := fun hnone => h ⟨hcap, hnone⟩
    unfold Labelled
    cases hlevel : st.1.getD (net.dest.getD a 0) none with
    | none => rw [hlevel] at hsome; exact absurd rfl hsome
    | some k => rfl

/-- What the search keeps while it goes over the arcs out of `u`. -/
structure Going (net : Network) (u : Nat) (st : List (Option Nat) × List Nat) (seen : List Nat) :
    Prop extends Search net st.1 st.2 where
  here : Labelled st.1 u
  closed : net.ClosedBut st.1 fun v => v = u ∨ v ∈ st.2
  seen : ∀ a ∈ seen, 0 < net.cap.getD a 0 → Labelled st.1 (net.dest.getD a 0)

theorem going_visit (hbound : net.Bounded) {st : List (Option Nat) × List Nat} {seen : List Nat}
    (h : Going net u st seen) {a : Nat} (ha : a ∈ net.out u) :
    Going net u (net.visit u st a) (seen ++ [a]) ∧
      (net.visit u st a).1.countP Option.isSome + st.2.length =
        st.1.countP Option.isSome + (net.visit u st a).2.length := by
  rcases net.visit_cases u st a with ⟨hsame, hdone⟩ | ⟨hcap, hnew, hvisit⟩
  · rw [hsame]
    refine ⟨⟨h.toSearch, h.here, h.closed, fun b hb => ?_⟩, Nat.add_comm _ _ ▸ rfl⟩
    rcases List.mem_append.1 hb with hb | hb
    · exact h.seen b hb
    · rw [List.mem_singleton.1 hb]
      exact hdone
  · set v := net.dest.getD a 0 with hv
    obtain ⟨k, hk⟩ := Option.isSome_iff_exists.1 h.here
    have hlt : v < st.1.length := h.length ▸ hbound u a ha
    have hget := getD_set_label hlt ((st.1.getD u none).map (· + 1))
    rw [hvisit]
    have hkeeps : ∀ w j, st.1.getD w none = some j →
        (st.1.set v ((st.1.getD u none).map (· + 1))).getD w none = some j := by
      intro w j hw
      rw [hget, if_neg fun heq => ?_]
      · exact hw
      · rw [← heq, hnew] at hw
        cases hw
    have hlabel : Labelled (st.1.set v ((st.1.getD u none).map (· + 1))) v := by
      unfold Labelled
      rw [hget, if_pos rfl, hk]
      rfl
    have hgrows : ∀ w, Labelled st.1 w →
        Labelled (st.1.set v ((st.1.getD u none).map (· + 1))) w := by
      intro w hw
      obtain ⟨j, hj⟩ := Option.isSome_iff_exists.1 hw
      exact Option.isSome_iff_exists.2 ⟨j, hkeeps w j hj⟩
    refine ⟨⟨⟨?_, ?_, hkeeps _ _ h.source, ?_⟩, hgrows u h.here, ?_, ?_⟩, ?_⟩
    · rw [List.length_set]
      exact h.length
    · intro w hw
      rcases List.mem_append.1 hw with hw | hw
      · exact hgrows w (h.queued w hw)
      · rw [List.mem_singleton.1 hw]
        exact hlabel
    · intro w j hw
      dsimp only at hw
      rw [hget] at hw
      split at hw
      · next heq =>
        rw [hk] at hw
        exact Or.inr ⟨u, a, k, ha, hcap, heq, hkeeps u k hk, (Option.some.inj hw).symm⟩
      · rcases h.pred w j hw with hsrc | ⟨x, b, i, hb, hcap', hdest, hx, hj⟩
        · exact Or.inl hsrc
        · exact Or.inr ⟨x, b, i, hb, hcap', hdest, hkeeps x i hx, hj⟩
    · intro w hw
      by_cases hwv : w = v
      · exact Or.inl (Or.inr (by rw [hwv]; exact List.mem_append_right _ (List.mem_singleton_self v)))
      · have hbefore : Labelled st.1 w := by
          unfold Labelled at hw ⊢
          dsimp only at hw
          rwa [hget, if_neg (Ne.symm hwv)] at hw
        rcases h.closed w hbefore with (heq | hmem) | hled
        · exact Or.inl (Or.inl heq)
        · exact Or.inl (Or.inr (List.mem_append_left _ hmem))
        · exact Or.inr fun b hb hcap' => hgrows _ (hled b hb hcap')
    · intro b hb hcap'
      rcases List.mem_append.1 hb with hb | hb
      · exact hgrows _ (h.seen b hb hcap')
      · rw [List.mem_singleton.1 hb]
        exact hlabel
    · have hcount : (st.1.set v ((st.1.getD u none).map (· + 1))).countP Option.isSome =
          st.1.countP Option.isSome + 1 := by
        have hold : st.1[v] = none := by
          rw [List.getD_eq_getElem _ _ hlt] at hnew
          exact hnew
        rw [List.countP_set hlt, hold, hk]
        simp
      dsimp only
      rw [hcount, List.length_append, List.length_singleton]
      omega

/-- The arcs out of a node that is taken from the queue. -/
theorem going_foldl (hbound : net.Bounded) {st : List (Option Nat) × List Nat} {seen rest : List Nat}
    (h : Going net u st seen) (hrest : ∀ a ∈ rest, a ∈ net.out u) :
    Going net u (rest.foldl (net.visit u) st) (seen ++ rest) ∧
      (rest.foldl (net.visit u) st).1.countP Option.isSome + st.2.length =
        st.1.countP Option.isSome + (rest.foldl (net.visit u) st).2.length := by
  induction rest generalizing st seen with
  | nil => exact ⟨by rw [List.append_nil]; exact h, Nat.add_comm _ _ ▸ rfl⟩
  | cons a rest ih =>
    obtain ⟨hgoing, hcount⟩ := going_visit hbound h (hrest a List.mem_cons_self)
    obtain ⟨hend, hcount'⟩ := ih hgoing fun b hb => hrest b (List.mem_cons_of_mem _ hb)
    rw [List.append_assoc] at hend
    refine ⟨hend, ?_⟩
    rw [List.foldl_cons]
    omega

/-- **The search ends closed**: with as many steps left as nodes that have not been taken
from the queue, it labels every node that an arc with something left leads to from a
labelled one. -/
theorem closed_levelsLoop (hbound : net.Bounded) {fuel taken : Nat} (h : Search net level q)
    (hclosed : net.ClosedBut level fun v => v ∈ q)
    (hcount : level.countP Option.isSome = taken + q.length)
    (hfuel : net.heads.length ≤ fuel + taken) :
    Search net (net.levelsLoop fuel level q) [] ∧
      net.ClosedBut (net.levelsLoop fuel level q) fun _ => False := by
  -- By induction on the steps: what has a level has been taken or is queued, so that no queue
  -- is left when the steps are.
  induction fuel generalizing level q taken with
  | zero =>
    have hle := List.countP_le_length (p := Option.isSome) (l := level)
    rw [h.length] at hle
    obtain rfl : q = [] := List.eq_nil_of_length_eq_zero (by omega)
    exact ⟨h, fun v hv => Or.inr ((hclosed v hv).resolve_left List.not_mem_nil)⟩
  | succ fuel ih =>
    cases q with
    | nil => exact ⟨h, fun v hv => Or.inr ((hclosed v hv).resolve_left List.not_mem_nil)⟩
    | cons u q =>
      have hgoing : Going net u (level, q) [] := by
        refine ⟨⟨h.length, fun v hv => h.queued v (List.mem_cons_of_mem _ hv), h.source, h.pred⟩,
          h.queued u List.mem_cons_self, fun v hv => ?_, fun a ha => nomatch ha⟩
        rcases hclosed v hv with hmem | hled
        · exact Or.inl (List.mem_cons.1 hmem)
        · exact Or.inr hled
      obtain ⟨hend, hcount'⟩ := going_foldl hbound hgoing fun a ha => ha
      rw [levelsLoop_succ]
      refine @ih _ _ (taken + 1) hend.toSearch (fun v hv => ?_) ?_ ?_
      · rcases hend.closed v hv with (rfl | hmem) | hled
        · exact Or.inr fun a ha => hend.seen a (by simpa using ha)
        · exact Or.inl hmem
        · exact Or.inr hled
      · rw [List.length_cons] at hcount
        dsimp only at hcount'
        omega
      · omega

/-- What the search starts from. -/
theorem search_start (hsrc : net.src < net.heads.length) :
    Search net ((List.replicate net.heads.length none).set net.src (some 0)) [net.src] ∧
      (net.ClosedBut ((List.replicate net.heads.length none).set net.src (some 0))
        fun v => v ∈ [net.src]) ∧
      ((List.replicate net.heads.length none).set net.src (some 0)).countP Option.isSome = 1 := by
  have hlen : net.src < (List.replicate net.heads.length (none : Option Nat)).length := by
    rwa [List.length_replicate]
  have hget := getD_set_label hlen (some 0)
  have hblank : ∀ w, (List.replicate net.heads.length (none : Option Nat)).getD w none = none := by
    intro w
    rw [List.getD_eq_getElem?_getD, List.getElem?_replicate]
    split <;> rfl
  have honly : ∀ v k, ((List.replicate net.heads.length none).set net.src (some 0)).getD v none =
      some k → v = net.src ∧ k = 0 := by
    intro v k hv
    rw [hget] at hv
    split at hv
    · next heq => exact ⟨heq.symm, (Option.some.inj hv).symm⟩
    · rw [hblank] at hv
      cases hv
  have hsource : ((List.replicate net.heads.length none).set net.src (some 0)).getD net.src none =
      some 0 := by
    rw [hget, if_pos rfl]
  refine ⟨⟨?_, ?_, hsource, fun v k hv => Or.inl (honly v k hv)⟩, ?_, ?_⟩
  · rw [List.length_set, List.length_replicate]
  · intro v hv
    rw [List.mem_singleton.1 hv]
    exact Option.isSome_iff_exists.2 ⟨0, hsource⟩
  · intro v hv
    obtain ⟨k, hk⟩ := Option.isSome_iff_exists.1 hv
    exact Or.inl (List.mem_singleton.2 (honly v k hk).1)
  · rw [List.countP_set hlen]
    simp

theorem search_levelsLoop (hbound : net.Bounded) (hsrc : net.src < net.heads.length) :
    Search net (net.levelsLoop net.heads.length
        ((List.replicate net.heads.length none).set net.src (some 0)) [net.src]) [] ∧
      net.ClosedBut (net.levelsLoop net.heads.length
        ((List.replicate net.heads.length none).set net.src (some 0)) [net.src]) fun _ => False := by
  obtain ⟨hsearch, hclosed, hcount⟩ := search_start hsrc
  exact @closed_levelsLoop net _ _ hbound net.heads.length 0 hsearch hclosed hcount le_rfl

/-- **Where the search labels the sink**, the levels climb from the source to it. -/
theorem search_of_levels (hbound : net.Bounded) (hsrc : net.src < net.heads.length)
    (h : net.levels = some level) : Search net level [] ∧ Labelled level net.snk := by
  have hsearch := (search_levelsLoop hbound hsrc).1
  unfold levels at h
  dsimp only at h
  split at h
  · next hsome =>
    obtain rfl := Option.some.inj h
    exact ⟨hsearch, hsome⟩
  · cases h

/-- **Where it does not**, the source is cut off from it. -/
theorem cut_of_levels (hbound : net.Bounded) (hsrc : net.src < net.heads.length)
    (h : net.levels = none) :
    ∃ R : Set Nat, net.src ∈ R ∧ net.snk ∉ R ∧
      ∀ u ∈ R, ∀ a ∈ net.out u, 0 < net.cap.getD a 0 → net.dest.getD a 0 ∈ R := by
  obtain ⟨hsearch, hclosed⟩ := search_levelsLoop hbound hsrc
  unfold levels at h
  dsimp only at h
  split at h
  · cases h
  · next hnone =>
    exact ⟨{v | Labelled _ v}, Option.isSome_iff_exists.2 ⟨0, hsearch.source⟩, hnone,
      fun u hu a ha hcap => (hclosed u hu).resolve_left id a ha hcap⟩

end Network

end Edet.Flow
