import Edet.Library.NetworkFlow

/-!
# Flows and cuts that count every supply

What a flow into `S` draws anywhere, inside `S` too, is bounded by the cuts around `S` that
count every supply inside (`FlowInto.drawn_le_wholeCut`). Around a set that no flow leaves, and
where everything that may enter or be drawn inside does, the two are equal
(`FlowInto.drawn_eq_wholeCut`): such a flow is largest, and such a cut least
(`FlowInto.optimal`).
-/

namespace Edet.NetworkFlow

variable {V : Type*} [DecidableEq V] {N : Network V} {S T : Set V}

open Classical in
/-- What the arcs into a set carry at most, with all the supplies inside it. -/
noncomputable def Network.wholeCut (N : Network V) (T : Set V) : ℕ :=
  (N.cap.sum fun a x => if a.1 ∉ T ∧ a.2 ∈ T then x else 0) + N.supply.sum fun v x => if v ∈ T then x else 0

namespace FlowInto

open Classical in
/-- No flow draws more than a cut. -/
theorem drawn_le_wholeCut (f : FlowInto N S) (hST : S ⊆ T) : f.drawn ≤ N.wholeCut T := by
  have hdrawn := f.drawn_add_leaving hST
  have hentering := sum_where_le f.amount_le fun a => a.1 ∉ T ∧ a.2 ∈ T
  have hinside := sum_where_le f.draw_le fun v => v ∈ T
  unfold Network.wholeCut
  omega

open Classical in
/-- Around a set that a flow fills and does not leave, it draws the whole cut. -/
theorem drawn_eq_wholeCut (f : FlowInto N S) (hST : S ⊆ T)
    (hentering : ∀ a, a.1 ∉ T → a.2 ∈ T → f.amount a = N.cap a)
    (hleaving : ∀ a, a.1 ∈ T → a.2 ∉ T → f.amount a = 0)
    (hinside : ∀ v ∈ T, f.draw v = N.supply v) : f.drawn = N.wholeCut T := by
  have hdrawn := f.drawn_add_leaving hST
  have hnone : (f.amount.sum fun a x => if a.1 ∈ T ∧ a.2 ∉ T then x else 0) = 0 := by
    refine Finset.sum_eq_zero fun a _ => ?_
    dsimp only
    split
    · next ha => exact hleaving a ha.1 ha.2
    · rfl
  have hfull := sum_where_eq f.amount_le (p := fun a => a.1 ∉ T ∧ a.2 ∈ T)
    fun a ha => hentering a ha.1 ha.2
  have hall := sum_where_eq f.draw_le hinside
  unfold Network.wholeCut
  omega

/-- A flow that draws a whole cut is a largest one, and the cut a least one. -/
theorem optimal (f : FlowInto N S) (hST : S ⊆ T) (h : f.drawn = N.wholeCut T) :
    IsGreatest {x | ∃ g : FlowInto N S, g.drawn = x} f.drawn ∧
      IsLeast {x | ∃ U, S ⊆ U ∧ N.wholeCut U = x} f.drawn := by
  refine ⟨⟨⟨f, rfl⟩, ?_⟩, ⟨⟨T, hST, h.symm⟩, ?_⟩⟩
  · rintro _ ⟨g, rfl⟩
    exact (g.drawn_le_wholeCut hST).trans h.ge
  · rintro _ ⟨U, hU, rfl⟩
    exact f.drawn_le_wholeCut hU

end FlowInto

end Edet.NetworkFlow
