import Mathlib.Data.List.Rotate
import Mathlib.Data.List.Nodup

/-!
# Simple cycles of a multigraph

Edges lead from their `tail` to their `head`. A list of edges is a ring (`IsRing`) if each
ends where the next begins, the last where the first begins, and no node is left twice.

A search builds a ring edge by edge: the rest of one is a way back to where it began that
enters no node twice (`WayBack`). `isRing_cons_iff` says that these ways and the rings are
the same.
-/

namespace Rings

variable {V E : Type} (tail head : E → V)

/-- The edges close a cycle that leaves no node twice. -/
structure IsRing (ring : List E) : Prop where
  linked : ring.map head = (ring.map tail).rotate 1
  simple : (ring.map tail).Nodup

/-- A way from `here` to `start` along `edges`, that enters nothing in `seen`, and no node
twice, before `start`. -/
inductive WayBack (edges : List E) (start : V) : V → List V → List E → Prop
  | closes {here : V} {seen : List V} {e : E} (mem : e ∈ edges) (leaves : tail e = here)
      (enters : head e = start) : WayBack edges start here seen [e]
  | goes {here : V} {seen : List V} {e : E} {way : List E} (mem : e ∈ edges)
      (leaves : tail e = here) (fresh : head e ∉ seen)
      (rest : WayBack edges start (head e) (head e :: seen) way) :
      WayBack edges start here seen (e :: way)

variable {tail head} {edges : List E} {start here : V} {seen : List V} {way : List E}

namespace WayBack

/-- A way runs along the edges given. -/
theorem subset (h : WayBack tail head edges start here seen way) : ∀ e ∈ way, e ∈ edges := by
  induction h with
  | closes mem _ _ => simpa using mem
  | goes mem _ _ _ ih => simpa using ⟨mem, ih⟩

/-- The nodes that a way enters before `start` are those it leaves after `here`. -/
theorem nodes (h : WayBack tail head edges start here seen way) :
    ∃ between, way.map tail = here :: between ∧ way.map head = between ++ [start] ∧
      between.Nodup ∧ ∀ v ∈ between, v ∉ seen := by
  induction h with
  | closes _ leaves enters => exact ⟨[], by simp [leaves], by simp [enters], .nil, by simp⟩
  | @goes here seen e way _ leaves fresh _ ih =>
    obtain ⟨between, htail, hhead, hnodup, hfresh⟩ := ih
    refine ⟨head e :: between, by simp [leaves, htail], by simp [hhead], ?_, ?_⟩
    · exact List.nodup_cons.2 ⟨fun hmem => hfresh _ hmem (by simp), hnodup⟩
    · intro v hv
      rcases List.mem_cons.1 hv with rfl | hv
      · exact fresh
      · exact fun hseen => hfresh v hv (by simp [hseen])

/-- What leaves and enters nodes as a way does is one. -/
theorem of_nodes {between : List V} (hmem : ∀ e ∈ way, e ∈ edges)
    (htail : way.map tail = here :: between) (hhead : way.map head = between ++ [start])
    (hnodup : between.Nodup) (hfresh : ∀ v ∈ between, v ∉ seen) :
    WayBack tail head edges start here seen way := by
  induction way generalizing here seen between with
  | nil => cases htail
  | cons e way ih =>
    obtain ⟨hleaves, htail⟩ := List.cons.inj htail
    cases between with
    | nil =>
      obtain rfl : way = [] := List.map_eq_nil_iff.1 htail
      exact .closes (hmem e (by simp)) hleaves (by simpa using hhead)
    | cons v between =>
      obtain ⟨rfl, hrest⟩ := List.cons.inj hhead
      obtain ⟨hnotin, hnodup⟩ := List.nodup_cons.1 hnodup
      refine .goes (hmem e (by simp)) hleaves (hfresh _ (by simp)) ?_
      refine ih (fun e' he' => hmem e' (by simp [he'])) htail hrest hnodup fun v hv hseen => ?_
      rcases List.mem_cons.1 hseen with rfl | hseen
      · exact hnotin hv
      · exact hfresh v (by simp [hv]) hseen

theorem ne_nil (h : WayBack tail head edges start here seen way) : way ≠ [] := by
  obtain ⟨between, htail, -⟩ := h.nodes
  rintro rfl
  cases htail

end WayBack

/-- **A ring of two edges or more is an edge between two nodes and a way back.** -/
theorem isRing_cons_iff {e : E} (hmem : ∀ e' ∈ e :: way, e' ∈ edges) :
    IsRing tail head (e :: way) ∧ 2 ≤ (e :: way).length ↔
      head e ≠ tail e ∧ WayBack tail head edges (tail e) (head e) [tail e, head e] way := by
  constructor
  · rintro ⟨⟨hlinked, hsimple⟩, htwo⟩
    cases way with
    | nil => simp at htwo
    | cons e' way =>
      have hheads : head e = tail e' ∧
          head e' :: way.map head = way.map tail ++ [tail e] := by
        simpa using hlinked
      obtain ⟨hnext, hheads⟩ := hheads
      obtain ⟨hnotin, hsimple⟩ := List.nodup_cons.1 hsimple
      obtain ⟨hnotin', hsimple⟩ := List.nodup_cons.1 hsimple
      refine ⟨fun heq => hnotin (by simp [← heq, hnext]), ?_⟩
      refine WayBack.of_nodes (fun x hx => hmem x (by simp [hx]))
        (by simp [hnext]) hheads hsimple fun v hv hseen => ?_
      rcases List.mem_pair.1 hseen with rfl | rfl
      · exact hnotin (List.mem_cons_of_mem _ hv)
      · exact hnotin' (hnext ▸ hv)
  · rintro ⟨hne, hway⟩
    have hlength := List.length_pos_iff.2 hway.ne_nil
    obtain ⟨between, htail, hhead, hnodup, hfresh⟩ := hway.nodes
    refine ⟨⟨by simp [htail, hhead], ?_⟩, Nat.succ_le_succ hlength⟩
    rw [List.map_cons, htail, List.nodup_cons, List.nodup_cons]
    refine ⟨fun hin => ?_, fun hin => hfresh _ hin (by simp), hnodup⟩
    rcases List.mem_cons.1 hin with heq | hin
    · exact hne heq.symm
    · exact hfresh _ hin (by simp)

namespace IsRing

variable {ring : List E} [DecidableEq V]

/-- Every node is entered as often as it is left. -/
theorem countP_head (h : IsRing tail head ring) (v : V) :
    ring.countP (fun e => head e = v) = ring.countP fun e => tail e = v := by
  have hcount : ∀ f : E → V, (ring.map f).count v = ring.countP fun e => f e = v := by
    intro f
    rw [List.count, List.countP_map]
    rfl
  calc ring.countP (fun e => head e = v)
      = ((ring.map tail).rotate 1).count v := by rw [← hcount head, h.linked]
    _ = (ring.map tail).count v := (List.rotate_perm _ 1).count_eq v
    _ = ring.countP fun e => tail e = v := hcount tail

/-- No node is left twice. -/
theorem countP_tail_le (h : IsRing tail head ring) (v : V) :
    (ring.countP fun e => tail e = v) ≤ 1 := by
  have hcount := List.nodup_iff_count_le_one.1 h.simple v
  rw [List.count, List.countP_map] at hcount
  exact hcount

end IsRing

end Rings
