import Mathlib.Tactic

/-!
# Refusable transitions

A transition that may **refuse**: it reads and writes a state, and when it refuses
it does so in the state it had reached, not in the state it started from. This is
the semantics of a procedure that mutates through a reference and returns a
`Result`: nothing is rolled back by the refusal itself.

* `Op σ ε α` is the monad of such transitions, `Op.exec` runs one, and the
  `exec_*` lemmas evaluate each of its operations.
* `Op.Triple P op Q E` is the Hoare triple with two postconditions: `Q` where `op`
  accepts, `E` where it refuses. The rules are `Triple.bind`, `Triple.weaken` and
  one rule for each basic operation.
* `Op.Moves R op` says that `op`, accepted or refused, moves the state along `R`.
  For a preorder `R` this is closed under sequencing, so that a frame condition or
  an invariant is derived from what each step does (`Moves.bind`, `Moves.forM`).
* `Op.Quiet op` says that `op` only reads, `Op.Atomic op s` that a refusal of `op`
  at `s` leaves `s` as it was. A procedure that checks before it writes is atomic
  by `Atomic.bind_quiet`; a procedure whose last steps cannot refuse is atomic by
  `Atomic.of_accepts`.
-/

namespace Edet

/-- A transition over `σ` that accepts with an `α` or refuses with an `ε`, and leaves
a state behind in both cases. -/
def Op (σ ε α : Type) : Type := σ → Except ε α × σ

namespace Op

variable {σ ε α β : Type}

/-- Run a transition. -/
def exec (op : Op σ ε α) (s : σ) : Except ε α × σ := op s

instance : Monad (Op σ ε) where
  pure a := fun s => (.ok a, s)
  bind op k := fun s =>
    match op s with
    | (.ok a, s') => k a s'
    | (.error e, s') => (.error e, s')

/-- Refuse. -/
def refuse (e : ε) : Op σ ε α := fun s => (.error e, s)

/-- Refuse where `c` holds. -/
def refuseIf (c : Prop) [Decidable c] (e : ε) : Op σ ε Unit :=
  if c then refuse e else pure ()

/-- Read from the state. -/
def ask (f : σ → α) : Op σ ε α := fun s => (.ok (f s), s)

/-- Read from the state, and refuse where the reading does. -/
def check (f : σ → Except ε α) : Op σ ε α := fun s => (f s, s)

/-- Write the state. -/
def write (f : σ → σ) : Op σ ε Unit := fun s => (.ok (), f s)

/-- Write the state and hand back a value. -/
def draw (f : σ → α × σ) : Op σ ε α := fun s => (.ok (f s).1, (f s).2)

/-- Run a transition for its effect and ignore a refusal. -/
def attempt (op : Op σ ε α) : Op σ ε Unit := fun s => (.ok (), (op s).2)

/-- Run a transition and hand back how it ended. -/
def outcome (op : Op σ ε α) : Op σ ε (Except ε α) := fun s => (.ok (op s).1, (op s).2)

/-! ### Evaluation -/

@[simp] theorem exec_pure (a : α) (s : σ) : exec (pure a : Op σ ε α) s = (.ok a, s) := rfl

@[simp] theorem exec_refuse (e : ε) (s : σ) :
    exec (refuse e : Op σ ε α) s = (.error e, s) := rfl

@[simp] theorem exec_ask (f : σ → α) (s : σ) :
    exec (ask f : Op σ ε α) s = (.ok (f s), s) := rfl

@[simp] theorem exec_check (f : σ → Except ε α) (s : σ) : exec (check f) s = (f s, s) := rfl

@[simp] theorem exec_write (f : σ → σ) (s : σ) :
    exec (write f : Op σ ε Unit) s = (.ok (), f s) := rfl

@[simp] theorem exec_draw (f : σ → α × σ) (s : σ) :
    exec (draw f : Op σ ε α) s = (.ok (f s).1, (f s).2) := rfl

@[simp] theorem exec_attempt (op : Op σ ε α) (s : σ) :
    exec (attempt op) s = (.ok (), (exec op s).2) := rfl

@[simp] theorem exec_outcome (op : Op σ ε α) (s : σ) :
    exec (outcome op) s = (.ok (exec op s).1, (exec op s).2) := rfl

theorem exec_bind (op : Op σ ε α) (k : α → Op σ ε β) (s : σ) :
    exec (op >>= k) s =
      match exec op s with
      | (.ok a, s') => exec (k a) s'
      | (.error e, s') => (.error e, s') := rfl

theorem exec_bind_ok {op : Op σ ε α} {s s' : σ} {a : α} (h : exec op s = (.ok a, s'))
    (k : α → Op σ ε β) : exec (op >>= k) s = exec (k a) s' := by
  rw [exec_bind, h]

theorem exec_bind_error {op : Op σ ε α} {s s' : σ} {e : ε} (h : exec op s = (.error e, s'))
    (k : α → Op σ ε β) : exec (op >>= k) s = (.error e, s') := by
  rw [exec_bind, h]

theorem exec_refuseIf (c : Prop) [Decidable c] (e : ε) (s : σ) :
    exec (refuseIf c e : Op σ ε Unit) s = if c then (.error e, s) else (.ok (), s) := by
  unfold refuseIf
  split <;> rfl

/-! ### Triples -/

/-- Where `P` holds before `op`, `Q` holds of the result and the state where `op`
accepts, and `E` of the state where it refuses. -/
def Triple (P : σ → Prop) (op : Op σ ε α) (Q : α → σ → Prop) (E : σ → Prop) : Prop :=
  ∀ s, P s → match exec op s with
    | (.ok a, s') => Q a s'
    | (.error _, s') => E s'

namespace Triple

variable {P P' : σ → Prop} {Q Q' : α → σ → Prop} {E E' : σ → Prop} {R : β → σ → Prop}

theorem ok {op : Op σ ε α} (h : Triple P op Q E) {s s' : σ} {a : α} (hs : P s)
    (hr : exec op s = (.ok a, s')) : Q a s' := by
  have := h s hs
  rwa [hr] at this

theorem error {op : Op σ ε α} (h : Triple P op Q E) {s s' : σ} {e : ε} (hs : P s)
    (hr : exec op s = (.error e, s')) : E s' := by
  have := h s hs
  rwa [hr] at this

theorem bind {op : Op σ ε α} {k : α → Op σ ε β} (h : Triple P op Q E)
    (hk : ∀ a, Triple (Q a) (k a) R E) : Triple P (op >>= k) R E := by
  intro s hs
  rw [exec_bind]
  have := h s hs
  rcases hop : exec op s with ⟨_ | a, s'⟩
  · rw [hop] at this
    exact this
  · rw [hop] at this
    exact hk a s' this

theorem weaken {op : Op σ ε α} (h : Triple P op Q E) (hP : ∀ s, P' s → P s)
    (hQ : ∀ a s, Q a s → Q' a s) (hE : ∀ s, E s → E' s) : Triple P' op Q' E' := by
  intro s hs
  have := h s (hP s hs)
  rcases hop : exec op s with ⟨_ | a, s'⟩
  · rw [hop] at this
    exact hE _ this
  · rw [hop] at this
    exact hQ _ _ this

theorem pure {a : α} (h : ∀ s, P s → Q a s) : Triple P (Pure.pure a : Op σ ε α) Q E :=
  fun s hs => h s hs

theorem refuse {e : ε} (h : ∀ s, P s → E s) : Triple P (Op.refuse e : Op σ ε α) Q E :=
  fun s hs => h s hs

theorem ask {f : σ → α} (h : ∀ s, P s → Q (f s) s) : Triple P (Op.ask f : Op σ ε α) Q E :=
  fun s hs => h s hs

theorem check {f : σ → Except ε α} (hok : ∀ s a, P s → f s = .ok a → Q a s)
    (herr : ∀ s, P s → E s) : Triple P (Op.check f) Q E := by
  intro s hs
  rw [exec_check]
  cases hf : f s with
  | error e => exact herr s hs
  | ok a => exact hok s a hs hf

theorem write {f : σ → σ} {Q : Unit → σ → Prop} (h : ∀ s, P s → Q () (f s)) :
    Triple P (Op.write f : Op σ ε Unit) Q E :=
  fun s hs => h s hs

theorem draw {f : σ → α × σ} (h : ∀ s, P s → Q (f s).1 (f s).2) :
    Triple P (Op.draw f : Op σ ε α) Q E :=
  fun s hs => h s hs

theorem refuseIf {c : Prop} [Decidable c] {e : ε} {Q : Unit → σ → Prop}
    (hok : ∀ s, P s → ¬c → Q () s) (herr : ∀ s, P s → c → E s) :
    Triple P (Op.refuseIf c e : Op σ ε Unit) Q E := by
  intro s hs
  rw [exec_refuseIf]
  by_cases hc : c
  · rw [if_pos hc]
    exact herr s hs hc
  · rw [if_neg hc]
    exact hok s hs hc

theorem ite {c : Prop} [Decidable c] {op op' : Op σ ε α}
    (ht : c → Triple P op Q E) (hf : ¬c → Triple P op' Q E) :
    Triple P (if c then op else op') Q E := by
  split
  · exact ht ‹_›
  · exact hf ‹_›

/-- What the precondition says of no state is a hypothesis. -/
theorem of_fact {p : Prop} {op : Op σ ε α} (h : p → Triple P op Q E) :
    Triple (fun s => P s ∧ p) op Q E := fun s hs => h hs.2 s hs.1

/-- A triple may be shown at one state at a time. -/
theorem pointwise {op : Op σ ε α} (h : ∀ s, P s → Triple (fun t => t = s) op Q E) :
    Triple P op Q E := fun s hs => h s hs s rfl

theorem check_bind {s : σ} {f : σ → Except ε α} {k : α → Op σ ε β} (hE : E s)
    (h : ∀ a, f s = .ok a → Triple (fun t => t = s) (k a) R E) :
    Triple (fun t => t = s) (Op.check f >>= k) R E := by
  rintro _ rfl
  rw [exec_bind, exec_check]
  cases hf : f _ with
  | error e => exact hE
  | ok a => exact h a hf _ rfl

theorem ask_bind {s : σ} {f : σ → α} {k : α → Op σ ε β}
    (h : Triple (fun t => t = s) (k (f s)) R E) :
    Triple (fun t => t = s) (Op.ask f >>= k) R E := by
  rintro _ rfl
  exact h _ rfl

/-- What follows a transition that accepts, where nothing is asked of a refusal. -/
theorem ok_bind {s : σ} {op : Op σ ε α} {k : α → Op σ ε β}
    (h : ∀ a t, exec op s = (.ok a, t) → Triple (fun u => u = t) (k a) R fun _ => True) :
    Triple (fun t => t = s) (op >>= k) R fun _ => True := by
  rintro _ rfl
  rw [exec_bind]
  rcases hop : exec op _ with ⟨_ | a, t⟩
  · trivial
  · exact h a t hop t rfl

/-- A triple whose postconditions are all the precondition holds along a loop. -/
theorem forM {body : β → Op σ ε PUnit} {xs : List β}
    (h : ∀ x ∈ xs, Triple P (body x) (fun _ => P) E) :
    Triple P (xs.forM body) (fun _ => P) E := by
  induction xs with
  | nil => exact Triple.pure fun _ hs => hs
  | cons x xs ih =>
    refine Triple.bind (h x (by simp)) fun _ => ih fun y hy => h y ?_
    exact List.mem_cons_of_mem _ hy

end Triple

/-! ### Moves -/

/-- Accepted or refused, `op` moves the state along `R`. -/
def Moves (R : σ → σ → Prop) (op : Op σ ε α) : Prop := ∀ s, R s (exec op s).2

namespace Moves

variable {R : σ → σ → Prop}

theorem bind [IsTrans σ R] {op : Op σ ε α} {k : α → Op σ ε β} (h : Moves R op)
    (hk : ∀ a, Moves R (k a)) : Moves R (op >>= k) := by
  intro s
  rw [exec_bind]
  have hs := h s
  rcases hop : exec op s with ⟨_ | a, s'⟩
  · rwa [hop] at hs
  · rw [hop] at hs
    exact IsTrans.trans _ _ _ hs (hk a s')

theorem pure [Std.Refl R] (a : α) : Moves R (Pure.pure a : Op σ ε α) :=
  fun s => Std.Refl.refl s

theorem refuse [Std.Refl R] (e : ε) : Moves R (Op.refuse e : Op σ ε α) :=
  fun s => Std.Refl.refl s

theorem ask [Std.Refl R] (f : σ → α) : Moves R (Op.ask f : Op σ ε α) :=
  fun s => Std.Refl.refl s

theorem check [Std.Refl R] (f : σ → Except ε α) : Moves R (Op.check f) :=
  fun s => Std.Refl.refl s

theorem refuseIf [Std.Refl R] (c : Prop) [Decidable c] (e : ε) :
    Moves R (Op.refuseIf c e : Op σ ε Unit) := by
  intro s
  rw [exec_refuseIf]
  split <;> exact Std.Refl.refl s

theorem write {f : σ → σ} (h : ∀ s, R s (f s)) : Moves R (Op.write f : Op σ ε Unit) := h

theorem draw {f : σ → α × σ} (h : ∀ s, R s (f s).2) : Moves R (Op.draw f : Op σ ε α) := h

theorem attempt {op : Op σ ε α} (h : Moves R op) : Moves R (Op.attempt op) := h

theorem outcome {op : Op σ ε α} (h : Moves R op) : Moves R (Op.outcome op) := h

theorem ite {c : Prop} [Decidable c] {op op' : Op σ ε α}
    (ht : c → Moves R op) (hf : ¬c → Moves R op') : Moves R (if c then op else op') := by
  split
  · exact ht ‹_›
  · exact hf ‹_›

theorem forM [Std.Refl R] [IsTrans σ R] {body : β → Op σ ε PUnit} {xs : List β}
    (h : ∀ x ∈ xs, Moves R (body x)) : Moves R (xs.forM body) := by
  induction xs with
  | nil => exact Moves.pure _
  | cons x xs ih =>
    refine Moves.bind (h x (by simp)) fun _ => ih fun y hy => h y ?_
    exact List.mem_cons_of_mem _ hy

end Moves

theorem Moves.mono {R R' : σ → σ → Prop} {op : Op σ ε α} (h : Moves R op)
    (hR : ∀ s s', R s s' → R' s s') : Moves R' op := fun s => hR _ _ (h s)

/-- A fold whose every step moves along `R` moves along `R`. -/
theorem Moves.foldl {R : σ → σ → Prop} [Std.Refl R] [IsTrans σ R] {f : σ → β → σ}
    (h : ∀ s x, R s (f s x)) (l : List β) (s : σ) : R s (l.foldl f s) := by
  induction l generalizing s with
  | nil => exact Std.Refl.refl s
  | cons x l ih => exact IsTrans.trans _ _ _ (h s x) (ih _)

/-- An invariant kept along `R` gives a triple. -/
theorem Moves.triple {R : σ → σ → Prop} {op : Op σ ε α} {I : σ → Prop} (h : Moves R op)
    (hI : ∀ s s', R s s' → I s → I s') : Triple I op (fun _ => I) I := by
  intro s hs
  have hs' := hI _ _ (h s) hs
  rcases hop : exec op s with ⟨_ | a, s'⟩ <;> rw [hop] at hs' <;> exact hs'

/-- A triple whose postconditions are all `J` bounds what `op` leaves behind. -/
theorem Triple.exec_snd {P J : σ → Prop} {op : Op σ ε α} (h : Triple P op (fun _ => J) J) {s : σ}
    (hs : P s) : J (exec op s).2 := by
  have := h s hs
  rcases hop : exec op s with ⟨_ | a, s'⟩ <;> rw [hop] at this <;> exact this

/-! ### Certain success -/

/-- `op` accepts at `s`, with `Q` of its result and the state it leaves behind. -/
def Succeeds (op : Op σ ε α) (s : σ) (Q : α → σ → Prop) : Prop :=
  ∃ a s', exec op s = (.ok a, s') ∧ Q a s'

/-- What accepts wherever the precondition holds refuses nowhere. -/
theorem Triple.of_succeeds {op : Op σ ε α} {P E : σ → Prop} {Q : α → σ → Prop}
    (h : ∀ s, P s → Succeeds op s Q) : Triple P op Q E := by
  intro s hs
  obtain ⟨a, s', hop, hQ⟩ := h s hs
  rw [hop]
  exact hQ

/-- `op` accepts at `s`. -/
abbrev Accepts (op : Op σ ε α) (s : σ) : Prop := Succeeds op s fun _ _ => True

namespace Succeeds

variable {Q : α → σ → Prop} {R : β → σ → Prop} {s : σ}

theorem weaken {op : Op σ ε α} {Q' : α → σ → Prop} (h : Succeeds op s Q)
    (hQ : ∀ a s', Q a s' → Q' a s') : Succeeds op s Q' := by
  obtain ⟨a, s', hop, ha⟩ := h
  exact ⟨a, s', hop, hQ a s' ha⟩

theorem accepts {op : Op σ ε α} (h : Succeeds op s Q) : Accepts op s :=
  h.weaken fun _ _ _ => trivial

theorem ok {op : Op σ ε α} {t : σ} {a : α} (h : Succeeds op s Q) (hop : exec op s = (.ok a, t)) :
    Q a t := by
  obtain ⟨b, u, hb, hQ⟩ := h
  rw [hop] at hb
  obtain ⟨hab, rfl⟩ := Prod.mk.inj hb
  exact Except.ok.inj hab ▸ hQ

/-- What is known of every move holds of this one. -/
theorem moves {op : Op σ ε α} {M : σ → σ → Prop} (h : Succeeds op s Q) (hmoves : Moves M op) :
    Succeeds op s fun a s' => Q a s' ∧ M s s' := by
  obtain ⟨a, s', hop, ha⟩ := h
  have hs := hmoves s
  rw [hop] at hs
  exact ⟨a, s', hop, ha, hs⟩

theorem bind {op : Op σ ε α} {k : α → Op σ ε β} (h : Succeeds op s Q)
    (hk : ∀ a s', Q a s' → Succeeds (k a) s' R) : Succeeds (op >>= k) s R := by
  obtain ⟨a, s', hop, ha⟩ := h
  obtain ⟨b, s'', hka, hb⟩ := hk a s' ha
  exact ⟨b, s'', by rw [exec_bind_ok hop, hka], hb⟩

theorem pure {a : α} (h : Q a s) : Succeeds (Pure.pure a : Op σ ε α) s Q := ⟨a, s, rfl, h⟩

theorem ask {f : σ → α} (h : Q (f s) s) : Succeeds (Op.ask f : Op σ ε α) s Q := ⟨_, s, rfl, h⟩

theorem check {f : σ → Except ε α} {a : α} (hf : f s = .ok a) (h : Q a s) :
    Succeeds (Op.check f) s Q := ⟨a, s, by rw [exec_check, hf], h⟩

theorem write {f : σ → σ} {Q : Unit → σ → Prop} (h : Q () (f s)) :
    Succeeds (Op.write f : Op σ ε Unit) s Q := ⟨(), _, rfl, h⟩

theorem draw {f : σ → α × σ} (h : Q (f s).1 (f s).2) : Succeeds (Op.draw f : Op σ ε α) s Q :=
  ⟨_, _, rfl, h⟩

theorem refuseIf {c : Prop} [Decidable c] {e : ε} {Q : Unit → σ → Prop} (hc : ¬c) (h : Q () s) :
    Succeeds (Op.refuseIf c e : Op σ ε Unit) s Q :=
  ⟨(), s, by rw [exec_refuseIf, if_neg hc], h⟩

theorem ite {c : Prop} [Decidable c] {op op' : Op σ ε α} (ht : c → Succeeds op s Q)
    (hf : ¬c → Succeeds op' s Q) : Succeeds (if c then op else op') s Q := by
  split
  · exact ht ‹_›
  · exact hf ‹_›

/-- A loop whose every round keeps `I`. -/
theorem forM {I : σ → Prop} {body : β → Op σ ε PUnit} {xs : List β}
    (h : ∀ x ∈ xs, ∀ s, I s → Succeeds (body x) s fun _ => I) (hs : I s) :
    Succeeds (xs.forM body) s fun _ => I := by
  induction xs generalizing s with
  | nil => exact pure hs
  | cons x xs ih =>
    refine bind (h x (by simp) s hs) fun _ s' hs' => ih (fun y hy => h y ?_) hs'
    exact List.mem_cons_of_mem _ hy

theorem of_ok {op : Op σ ε α} {a : α} (h : (exec op s).1 = .ok a) :
    Succeeds op s fun b _ => b = a :=
  ⟨a, (exec op s).2, Prod.ext h rfl, rfl⟩

theorem of_pure {a : α} (h : Succeeds (Pure.pure a : Op σ ε α) s Q) : Q a s := by
  obtain ⟨b, s', hb, hQ⟩ := h
  obtain ⟨hab, rfl⟩ := Prod.mk.inj hb
  exact Except.ok.inj hab ▸ hQ

theorem of_refuseIf_bind {c : Prop} [Decidable c] {e : ε} {k : Unit → Op σ ε β}
    (h : Succeeds (Op.refuseIf c e >>= k) s R) : ¬c ∧ Succeeds (k ()) s R := by
  obtain ⟨b, s', hb, hR⟩ := h
  rw [exec_bind, exec_refuseIf] at hb
  by_cases hc : c
  · simp [hc] at hb
  · exact ⟨hc, b, s', by simpa [hc] using hb, hR⟩

theorem of_ask_bind {f : σ → α} {k : α → Op σ ε β} (h : Succeeds (Op.ask f >>= k) s R) :
    Succeeds (k (f s)) s R := h

theorem of_write_bind {f : σ → σ} {k : Unit → Op σ ε β} (h : Succeeds (Op.write f >>= k) s R) :
    Succeeds (k ()) (f s) R := h

theorem of_check_bind {f : σ → Except ε α} {k : α → Op σ ε β}
    (h : Succeeds (Op.check f >>= k) s R) : ∃ a, f s = .ok a ∧ Succeeds (k a) s R := by
  obtain ⟨b, s', hb, hR⟩ := h
  rw [exec_bind, exec_check] at hb
  cases hf : f s with
  | error e => simp [hf] at hb
  | ok a => exact ⟨a, rfl, b, s', by simpa [hf] using hb, hR⟩

/-- A question, and what follows with its answer. -/
theorem bind_ask {f : σ → α} {k : α → Op σ ε β} (h : Succeeds (k (f s)) s R) :
    Succeeds (Op.ask f >>= k) s R := h

theorem bind_check {f : σ → Except ε α} {k : α → Op σ ε β} {a : α} (hf : f s = .ok a)
    (h : Succeeds (k a) s R) : Succeeds (Op.check f >>= k) s R :=
  bind (Q := fun b s' => b = a ∧ s' = s) (check hf ⟨rfl, rfl⟩) fun _ _ hs => hs.1 ▸ hs.2 ▸ h

theorem bind_write {f : σ → σ} {k : Unit → Op σ ε β} (h : Succeeds (k ()) (f s) R) :
    Succeeds (Op.write f >>= k) s R := h

theorem bind_draw {f : σ → α × σ} {k : α → Op σ ε β} (h : Succeeds (k (f s).1) (f s).2 R) :
    Succeeds (Op.draw f >>= k) s R := h

/-- A check that passes, and what follows. -/
theorem refuseIf_bind {c : Prop} [Decidable c] {e : ε} {k : Unit → Op σ ε β} (hc : ¬c)
    (h : Succeeds (k ()) s R) : Succeeds (Op.refuseIf c e >>= k) s R :=
  bind (Q := fun _ s' => s' = s) (refuseIf hc rfl) fun _ _ hs => hs ▸ h

end Succeeds

/-! ### Certain refusal -/

/-- `op` refuses at `s`, and leaves `s'` behind. -/
def Refuses (op : Op σ ε α) (s s' : σ) : Prop := ∃ e, exec op s = (.error e, s')

namespace Refuses

variable {s s' t : σ}

theorem left {op : Op σ ε α} (h : Refuses op s s') (k : α → Op σ ε β) :
    Refuses (op >>= k) s s' := by
  obtain ⟨e, he⟩ := h
  exact ⟨e, exec_bind_error he k⟩

theorem after {op : Op σ ε α} {k : α → Op σ ε β} {a : α} (hop : exec op s = (.ok a, t))
    (h : Refuses (k a) t s') : Refuses (op >>= k) s s' := by
  obtain ⟨e, he⟩ := h
  exact ⟨e, by rw [exec_bind_ok hop, he]⟩

theorem check {f : σ → Except ε α} {e : ε} (h : f s = .error e) : Refuses (Op.check f) s s :=
  ⟨e, by rw [exec_check, h]⟩

theorem refuseIf {c : Prop} [Decidable c] {e : ε} (h : c) :
    Refuses (Op.refuseIf c e : Op σ ε Unit) s s := ⟨e, by rw [exec_refuseIf, if_pos h]⟩

theorem bind_ask {f : σ → α} {k : α → Op σ ε β} (h : Refuses (k (f s)) s s') :
    Refuses (Op.ask f >>= k) s s' := h

end Refuses

/-- `op` refuses at `s`, with `P` of the refusal and the state it leaves behind. -/
def Fails (op : Op σ ε α) (s : σ) (P : ε → σ → Prop) : Prop :=
  ∃ e s', exec op s = (.error e, s') ∧ P e s'

namespace Fails

variable {P : ε → σ → Prop} {s : σ}

theorem refuse {e : ε} (h : P e s) : Fails (Op.refuse e : Op σ ε α) s P := ⟨e, s, rfl, h⟩

theorem bind {op : Op σ ε α} {k : α → Op σ ε β}
    (herr : ∀ e s', exec op s = (.error e, s') → P e s')
    (hok : ∀ a s', exec op s = (.ok a, s') → Fails (k a) s' P) : Fails (op >>= k) s P := by
  cases hop : exec op s with
  | mk res s' =>
    cases res with
    | error e => exact ⟨e, s', exec_bind_error hop k, herr e s' hop⟩
    | ok a =>
      obtain ⟨e, s'', hk, hP⟩ := hok a s' hop
      exact ⟨e, s'', by rw [exec_bind_ok hop, hk], hP⟩

theorem bind_ask {f : σ → α} {k : α → Op σ ε β} (h : Fails (k (f s)) s P) :
    Fails (Op.ask f >>= k) s P := h

/-- A check that refuses, or what follows it. -/
theorem refuseIf_bind {c : Prop} [Decidable c] {e : ε} {k : Unit → Op σ ε β} (hc : c → P e s)
    (hk : ¬c → Fails (k ()) s P) : Fails (Op.refuseIf c e >>= k) s P := by
  by_cases h : c
  · exact ⟨e, s, by rw [exec_bind, exec_refuseIf, if_pos h], hc h⟩
  · obtain ⟨e', s', hrest, hP⟩ := hk h
    exact ⟨e', s', by rw [exec_bind, exec_refuseIf, if_neg h]; exact hrest, hP⟩

end Fails

/-- `op` only reads. -/
def Quiet (op : Op σ ε α) : Prop := ∀ s, (exec op s).2 = s

/-- A refusal of `op` at `s` leaves `s` as it was. -/
def Atomic (op : Op σ ε α) (s : σ) : Prop := ∀ e, (exec op s).1 = .error e → (exec op s).2 = s

theorem Quiet.bind {op : Op σ ε α} {k : α → Op σ ε β} (h : Quiet op)
    (hk : ∀ a, Quiet (k a)) : Quiet (op >>= k) := by
  intro s
  rw [exec_bind]
  have hs := h s
  rcases hop : exec op s with ⟨_ | a, s'⟩
  · rwa [hop] at hs
  · rw [hop] at hs
    exact (hk a s').trans hs

theorem quiet_pure (a : α) : Quiet (pure a : Op σ ε α) := fun _ => rfl

theorem quiet_ask (f : σ → α) : Quiet (ask f : Op σ ε α) := fun _ => rfl

theorem quiet_check (f : σ → Except ε α) : Quiet (check f) := fun _ => rfl

theorem quiet_refuseIf (c : Prop) [Decidable c] (e : ε) :
    Quiet (refuseIf c e : Op σ ε Unit) := by
  intro s
  rw [exec_refuseIf]
  split <;> rfl

theorem Quiet.ite {c : Prop} [Decidable c] {op op' : Op σ ε α} (ht : Quiet op)
    (hf : Quiet op') : Quiet (if c then op else op') := by
  split
  · exact ht
  · exact hf

theorem Quiet.forM {body : β → Op σ ε PUnit} {xs : List β} (h : ∀ x ∈ xs, Quiet (body x)) :
    Quiet (xs.forM body) := by
  induction xs with
  | nil => exact quiet_pure _
  | cons x xs ih =>
    exact Quiet.bind (h x (by simp)) fun _ => ih fun y hy => h y (List.mem_cons_of_mem _ hy)

/-- A loop that only reads accepts where each of its rounds does. -/
theorem Quiet.accepts_of_forM {body : β → Op σ ε PUnit} {xs : List β} {s : σ}
    (h : ∀ x ∈ xs, Quiet (body x)) (hacc : Accepts (xs.forM body) s) :
    ∀ x ∈ xs, Accepts (body x) s := by
  induction xs with
  | nil => simp
  | cons y ys ih =>
    obtain ⟨a, t, ha, -⟩ := hacc
    have hy := h y (by simp)
    rw [show (y :: ys).forM body = (body y >>= fun _ => ys.forM body) from rfl, exec_bind] at ha
    rcases hop : exec (body y) s with ⟨e | b, s'⟩
    · rw [hop] at ha
      cases ha
    · have hs : s' = s := by
        have := hy s
        rwa [hop] at this
      subst hs
      rw [hop] at ha
      intro x hx
      rcases List.mem_cons.1 hx with rfl | hx
      · exact ⟨b, s', hop, trivial⟩
      · exact ih (fun z hz => h z (List.mem_cons_of_mem _ hz)) ⟨a, t, ha, trivial⟩ x hx

theorem Quiet.moves {op : Op σ ε α} (h : Quiet op) {R : σ → σ → Prop} [Std.Refl R] :
    Moves R op := by
  intro s
  rw [h s]
  exact Std.Refl.refl s

/-- Reading keeps what held before. -/
theorem Quiet.triple {op : Op σ ε α} (h : Quiet op) {P E : σ → Prop} (hE : ∀ s, P s → E s) :
    Triple P op (fun _ => P) E := by
  intro s hs
  have hquiet := h s
  rcases hop : exec op s with ⟨_ | a, s'⟩ <;> rw [hop] at hquiet <;> subst hquiet
  · exact hE _ hs
  · exact hs

/-- A loop that only reads, once it is through, has found every round accept. -/
theorem Quiet.triple_forM {body : β → Op σ ε PUnit} {xs : List β}
    (h : ∀ x ∈ xs, Quiet (body x)) {P E : σ → Prop} (hE : ∀ s, P s → E s) :
    Triple P (xs.forM body) (fun _ s => P s ∧ ∀ x ∈ xs, Accepts (body x) s) E := by
  intro s hs
  have hquiet := Quiet.forM h s
  rcases hop : exec (xs.forM body) s with ⟨_ | a, s'⟩ <;> rw [hop] at hquiet <;> subst hquiet
  · exact hE _ hs
  · exact ⟨hs, Quiet.accepts_of_forM h ⟨a, _, hop, trivial⟩⟩

/-- A step that only reads may stand before anything. -/
theorem Triple.bind_quiet {op : Op σ ε α} {k : α → Op σ ε β} {P E : σ → Prop}
    {Q : β → σ → Prop} (h : Quiet op) (hE : ∀ s, P s → E s) (hk : ∀ a, Triple P (k a) Q E) :
    Triple P (op >>= k) Q E :=
  (h.triple hE).bind hk

theorem Quiet.exec_ok {op : Op σ ε α} (h : Quiet op) {s s' : σ} {a : α}
    (hr : exec op s = (.ok a, s')) : s' = s := by
  have := h s
  rwa [hr] at this

namespace Atomic

/-- A step that only reads may stand before anything atomic. -/
theorem bind_quiet {op : Op σ ε α} {k : α → Op σ ε β} {s : σ} (h : Quiet op)
    (hk : ∀ a, exec op s = (.ok a, s) → Atomic (k a) s) : Atomic (op >>= k) s := by
  intro e he
  rw [exec_bind] at he ⊢
  rcases hop : exec op s with ⟨_ | a, s'⟩
  · have := h s
    rwa [hop] at this
  · have hs : s' = s := h.exec_ok hop
    subst hs
    rw [hop] at he
    exact hk a hop e he

theorem bind_ok {op : Op σ ε α} {k : α → Op σ ε β} {s : σ} {a : α}
    (hop : exec op s = (.ok a, s)) (hk : Atomic (k a) s) : Atomic (op >>= k) s := by
  intro e he
  rw [exec_bind_ok hop] at he ⊢
  exact hk e he

/-- What cannot refuse is atomic. -/
theorem of_accepts {op : Op σ ε α} {s : σ} (h : Accepts op s) : Atomic op s := by
  intro e he
  obtain ⟨a, s', hop, -⟩ := h
  rw [hop] at he
  cases he

end Atomic

theorem Atomic.bind_check {f : σ → Except ε α} {k : α → Op σ ε β} {s : σ}
    (h : ∀ a, f s = .ok a → Atomic (k a) s) : Atomic (Op.check f >>= k) s :=
  Atomic.bind_quiet (quiet_check f) fun a ha => h a (congrArg Prod.fst ha)

theorem Atomic.bind_refuseIf {c : Prop} [Decidable c] {e : ε} {k : Unit → Op σ ε β} {s : σ}
    (h : ¬c → Atomic (k ()) s) : Atomic (Op.refuseIf c e >>= k) s := by
  refine Atomic.bind_quiet (quiet_refuseIf c e) fun _ hr => h fun hc => ?_
  rw [exec_refuseIf, if_pos hc] at hr
  cases hr

/-- A step that only reads may stand before anything atomic; what it read is known. -/
theorem Atomic.bind_ask {f : σ → α} {k : α → Op σ ε β} {s : σ} (h : Atomic (k (f s)) s) :
    Atomic (Op.ask f >>= k) s := h

end Op

end Edet
