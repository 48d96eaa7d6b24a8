import Mathlib.Tactic

/-!
# Runs

A system that takes one event after another: `next` says what an event does to a
state, `init` where a run may start, and `allowed` which events may happen in which
state. `Reaches` is the set of states that runs lead to.

The induction over a run is done once, in `Reaches.invariant`: what holds at the start
and survives every allowed event holds in every state reached. `Reaches.of_list` reads a
list of events as a run.
-/

namespace Edet

variable {σ ε : Type}

/-- The states reached from `init` by events that `allowed` admits in the state they
happen in. -/
inductive Reaches (next : ε → σ → σ) (init : σ → Prop) (allowed : ε → σ → Prop) : σ → Prop
  | start {s : σ} (h : init s) : Reaches next init allowed s
  | step {s : σ} (h : Reaches next init allowed s) (e : ε) (ha : allowed e s) :
    Reaches next init allowed (next e s)

namespace Reaches

variable {next : ε → σ → σ} {init : σ → Prop} {allowed : ε → σ → Prop}

/-- What holds at the start and survives every allowed event holds in every state
reached. -/
theorem invariant {I : σ → Prop} (hinit : ∀ s, init s → I s)
    (hstep : ∀ e s, I s → allowed e s → I (next e s)) {s : σ} (h : Reaches next init allowed s) :
    I s := by
  induction h with
  | start h => exact hinit _ h
  | step _ e ha ih => exact hstep e _ ih ha

/-- Are the events of a list allowed, one after the other? -/
def Admits (next : ε → σ → σ) (allowed : ε → σ → Prop) : List ε → σ → Prop
  | [], _ => True
  | e :: es, s => allowed e s ∧ Admits next allowed es (next e s)

theorem Admits.append {s : σ} {es es' : List ε} (h : Admits next allowed es s)
    (h' : Admits next allowed es' (es.foldl (fun s e => next e s) s)) :
    Admits next allowed (es ++ es') s := by
  induction es generalizing s with
  | nil => exact h'
  | cons e es ih => exact ⟨h.1, ih h.2 h'⟩

/-- Where a list of events is allowed, so are its first ones, and the others after them. -/
theorem Admits.of_append {s : σ} {es es' : List ε} (h : Admits next allowed (es ++ es') s) :
    Admits next allowed es s ∧
      Admits next allowed es' (es.foldl (fun s e => next e s) s) := by
  induction es generalizing s with
  | nil => exact ⟨trivial, h⟩
  | cons e es ih => exact ⟨⟨h.1, (ih h.2).1⟩, (ih h.2).2⟩

/-- A list of events leads to a state reached. -/
theorem of_list {s : σ} (h : Reaches next init allowed s) (es : List ε)
    (ha : Admits next allowed es s) :
    Reaches next init allowed (es.foldl (fun s e => next e s) s) := by
  induction es generalizing s with
  | nil => exact h
  | cons e es ih => exact ih (.step h e ha.1) ha.2

end Reaches

end Edet
