import Mathlib.Tactic

/-!
# Answers that keep an invariant

A computation that reads and writes a state, in which an invariant holds before and after it, and
whose result satisfies a condition (`Answers`). A search with a test that answers as a predicate does
finds what the predicate finds (`Answers.findM`).
-/

namespace Edet

variable {σ α β : Type}

/-- From a state where `I` holds, the result satisfies `Q` and `I` holds again. -/
def Answers (I : σ → Prop) (m : StateM σ α) (Q : α → Prop) : Prop :=
  ∀ s, I s → Q (m s).1 ∧ I (m s).2

/-- What comes after runs on the state that was left. -/
theorem StateM.bind_apply (m : StateM σ α) (f : α → StateM σ β) (s : σ) :
    (m >>= f) s = f (m s).1 (m s).2 := rfl

namespace Answers

variable {I : σ → Prop} {m : StateM σ α} {f : α → StateM σ β} {Q : α → Prop} {R : β → Prop}

theorem pure {a : α} (h : Q a) : Answers I (Pure.pure a) Q := fun _ hs => ⟨h, hs⟩

theorem bind (h : Answers I m Q) (hf : ∀ a, Q a → Answers I (f a) R) : Answers I (m >>= f) R :=
  fun s hs => hf _ (h s hs).1 _ (h s hs).2

/-- The first of a list that a test passes. -/
def findM (test : α → StateM σ Bool) : List α → StateM σ (Option α)
  | [] => Pure.pure none
  | a :: as => do
    if ← test a then Pure.pure (some a) else findM test as

/-- A test that answers as a predicate does finds what the predicate finds. -/
theorem find {test : α → StateM σ Bool} {p : α → Bool}
    (h : ∀ a, Answers I (test a) (· = p a)) (as : List α) :
    Answers I (findM test as) (· = as.find? p) := by
  induction as with
  | nil => exact .pure rfl
  | cons a as ih =>
    refine (h a).bind fun found hfound => ?_
    rw [List.find?_cons]
    cases hp : p a with
    | true =>
      rw [hfound, hp, if_pos rfl]
      exact .pure rfl
    | false =>
      rw [hfound, hp, if_neg Bool.false_ne_true]
      exact ih

end Answers

end Edet
