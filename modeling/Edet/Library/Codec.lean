import Edet.Library.Bytes

/-!
# Readers

A reader takes a value off the front of a byte string and leaves the rest (`Reader`).
`Reads r code a` says that it reads `a` off any string that begins with `code`, whatever
follows. The rules compose as the readers do: `Reads.bind` reads one field after another,
`Reads.seq` reads a counted sequence, and `Reads.none` and `Reads.some` a tagged option.

An encoding that some reader reads is self-delimiting (`SelfDelimiting.of_reads`), which is
how a format with nested variants is shown to be injective: one line per variant, instead
of one per pair of variants.
-/

namespace Edet

/-- Take a value off the front of a string. -/
abbrev Reader := StateT Bytes Option

namespace Reader

/-- Take `w` bytes. -/
def bytes (w : Nat) : Reader Bytes := fun input =>
  if w ≤ input.length then some (input.take w, input.drop w) else none

/-- A word of `w` bytes, lowest first. -/
def uint (w : Nat) : Reader Nat := leNat <$> bytes w

def bool : Reader Bool := do
  match ← uint 1 with
  | 0 => pure false
  | 1 => pure true
  | _ => failure

/-- `n` values, one after another. -/
def many {α : Type} (r : Reader α) : Nat → Reader (List α)
  | 0 => pure []
  | n + 1 => do
    let a ← r
    let rest ← many r n
    pure (a :: rest)

/-- A sequence preceded by its length. -/
def seq {α : Type} (r : Reader α) : Reader (List α) := do
  let n ← uint 8
  many r n

/-- An option preceded by its tag. -/
def option {α : Type} (r : Reader α) : Reader (Option α) := do
  match ← uint 1 with
  | 0 => pure none
  | 1 => some <$> r
  | _ => failure

end Reader

/-- `r` reads `a` off any string that begins with `code`. -/
def Reads {α : Type} (r : Reader α) (code : Bytes) (a : α) : Prop :=
  ∀ rest, r.run (code ++ rest) = some (a, rest)

namespace Reads

variable {α β : Type} {r : Reader α} {code code' : Bytes} {a : α} {b : β}

theorem pure (a : α) : Reads (Pure.pure a) [] a := fun _ => rfl

theorem bind {f : α → Reader β} (h : Reads r code a) (h' : Reads (f a) code' b) :
    Reads (r >>= f) (code ++ code') b := by
  intro rest
  rw [StateT.run_bind, List.append_assoc, h]
  exact h' rest

theorem map (f : α → β) (h : Reads r code a) : Reads (f <$> r) code (f a) := by
  intro rest
  rw [StateT.run_map, h]
  rfl

theorem bytes (code : Bytes) : Reads (Reader.bytes code.length) code code := by
  intro rest
  have hlen : code.length ≤ (code ++ rest).length := by simp
  show (if _ then _ else _) = _
  rw [if_pos hlen, List.take_left, List.drop_left]

theorem uint {w n : Nat} (h : n < 256 ^ w) : Reads (Reader.uint w) (leBytes w n) n := by
  have hbytes := bytes (leBytes w n)
  rw [length_leBytes] at hbytes
  have := hbytes.map leNat
  rwa [leNat_leBytes h] at this

theorem bool (b : Bool) : Reads Reader.bool [if b then 1 else 0] b := by
  intro rest
  cases b <;> rfl

theorem many {enc : α → Bytes} {l : List α} (h : ∀ a ∈ l, Reads r (enc a) a) :
    Reads (Reader.many r l.length) (l.flatMap enc) l := by
  induction l with
  | nil => exact pure []
  | cons a l ih =>
    have hl := ih fun b hb => h b (List.mem_cons_of_mem a hb)
    have := (h a List.mem_cons_self).bind
      (f := fun a => Reader.many r l.length >>= fun rest => Pure.pure (a :: rest))
      (hl.bind (f := fun rest => Pure.pure (a :: rest)) (pure (a :: l)))
    rwa [List.append_nil] at this

theorem seq {enc : α → Bytes} {l : List α} (hlen : l.length < 2 ^ 64)
    (h : ∀ a ∈ l, Reads r (enc a) a) :
    Reads (Reader.seq r) (leBytes 8 l.length ++ l.flatMap enc) l :=
  (uint (by omega)).bind (many h)

theorem none : Reads (Reader.option r) [0] Option.none := fun _ => rfl

theorem some (h : Reads r code a) : Reads (Reader.option r) (1 :: code) (Option.some a) := by
  intro rest
  exact (h.map Option.some) rest

end Reads

/-- An encoding that is read back is self-delimiting. -/
theorem SelfDelimiting.of_reads {α : Type} {dom : α → Prop} {enc : α → Bytes} {r : Reader α}
    (h : ∀ a, dom a → Reads r (enc a) a) : SelfDelimiting dom enc := by
  intro a b ha hb x y heq
  have hx := h a ha x
  rw [heq, h b hb y] at hx
  obtain ⟨hab, hxy⟩ := Prod.mk.inj (Option.some.inj hx)
  exact ⟨hab.symm, hxy.symm⟩

/-! ### What a reader yields -/

/-- Whatever `r` reads satisfies `P`. -/
def Yields {α : Type} (r : Reader α) (P : α → Prop) : Prop :=
  ∀ input a rest, r.run input = some (a, rest) → P a

namespace Yields

variable {α β : Type} {r : Reader α} {P P' : α → Prop} {Q : β → Prop}

theorem pure {a : α} (h : P a) : Yields (Pure.pure a) P := by
  intro input b rest hb
  obtain ⟨rfl, -⟩ := Prod.mk.inj (Option.some.inj hb)
  exact h

theorem bind {f : α → Reader β} (h : Yields r P) (h' : ∀ a, P a → Yields (f a) Q) :
    Yields (r >>= f) Q := by
  intro input b rest hb
  rw [StateT.run_bind] at hb
  obtain ⟨⟨a, rest'⟩, ha, hb⟩ := Option.bind_eq_some_iff.1 hb
  exact h' a (h _ _ _ ha) _ _ _ hb

theorem map {f : α → β} (h : Yields r P) (h' : ∀ a, P a → Q (f a)) : Yields (f <$> r) Q := by
  intro input b rest hb
  rw [StateT.run_map] at hb
  obtain ⟨⟨a, rest'⟩, ha, hb⟩ := Option.map_eq_some_iff.1 hb
  obtain ⟨rfl, -⟩ := Prod.mk.inj hb
  exact h' a (h _ _ _ ha)

theorem any : Yields r fun _ => True := fun _ _ _ _ => trivial

theorem failure : Yields (failure : Reader α) P := by
  intro input a rest h
  cases h

theorem bytes (w : Nat) : Yields (Reader.bytes w) fun b => b.length = w := by
  intro input b rest h
  change (if _ then _ else _) = _ at h
  split_ifs at h with hlen
  obtain ⟨rfl, -⟩ := Prod.mk.inj (Option.some.inj h)
  rw [List.length_take, Nat.min_eq_left hlen]

theorem uint (w : Nat) : Yields (Reader.uint w) (· < 256 ^ w) :=
  (bytes w).map fun b hb => hb ▸ leNat_lt b

theorem many (h : Yields r P) (n : Nat) :
    Yields (Reader.many r n) fun l => l.length = n ∧ ∀ a ∈ l, P a := by
  induction n with
  | zero => exact pure ⟨rfl, by simp⟩
  | succ n ih =>
    refine h.bind fun a ha => ih.bind fun l hl => pure ⟨by rw [List.length_cons, hl.1], ?_⟩
    intro b hb
    rcases List.mem_cons.1 hb with rfl | hb
    · exact ha
    · exact hl.2 b hb

theorem seq (h : Yields r P) :
    Yields (Reader.seq r) fun l => l.length < 2 ^ 64 ∧ ∀ a ∈ l, P a := by
  refine (uint 8).bind fun n hn => ?_
  intro input l rest hl
  obtain ⟨hlen, hall⟩ := many h n _ _ _ hl
  exact ⟨by rw [hlen]; omega, hall⟩

theorem option (h : Yields r P) : Yields (Reader.option r) fun o => ∀ a, o = some a → P a := by
  refine (uint 1).bind fun tag _ => ?_
  match tag with
  | 0 => exact pure fun a ha => by cases ha
  | 1 => exact h.map fun a ha b hb => Option.some.inj hb ▸ ha
  | _ + 2 => exact failure

end Yields

/-! ### What a reader takes -/

/-- What `r` reads stands in `P` to the number of bytes it took. -/
def Takes {α : Type} (r : Reader α) (P : α → Nat → Prop) : Prop :=
  ∀ input a rest, r.run input = some (a, rest) →
    ∃ n, input.length = n + rest.length ∧ P a n

namespace Takes

variable {α β : Type} {r : Reader α} {P P' : α → Nat → Prop} {Q : β → Nat → Prop}

theorem mono (h : Takes r P) (h' : ∀ a n, P a n → P' a n) : Takes r P' := by
  intro input a rest ha
  obtain ⟨n, hn, hP⟩ := h _ _ _ ha
  exact ⟨n, hn, h' a n hP⟩

theorem pure {a : α} (h : P a 0) : Takes (Pure.pure a) P := by
  intro input b rest hb
  obtain ⟨rfl, rfl⟩ := Prod.mk.inj (Option.some.inj hb)
  exact ⟨0, by rw [Nat.zero_add], h⟩

theorem bind {f : α → Reader β} (h : Takes r P)
    (h' : ∀ a m, P a m → Takes (f a) fun b n => Q b (m + n)) : Takes (r >>= f) Q := by
  intro input b rest hb
  rw [StateT.run_bind] at hb
  obtain ⟨⟨a, rest'⟩, ha, hb⟩ := Option.bind_eq_some_iff.1 hb
  obtain ⟨m, hm, hP⟩ := h _ _ _ ha
  obtain ⟨n, hn, hQ⟩ := h' a m hP _ _ _ hb
  refine ⟨m + n, ?_, hQ⟩
  rw [hm, hn, Nat.add_assoc]

theorem map {f : α → β} (h : Takes r P) (h' : ∀ a n, P a n → Q (f a) n) : Takes (f <$> r) Q := by
  intro input b rest hb
  rw [StateT.run_map] at hb
  obtain ⟨⟨a, rest'⟩, ha, hb⟩ := Option.map_eq_some_iff.1 hb
  obtain ⟨rfl, rfl⟩ := Prod.mk.inj hb
  obtain ⟨n, hn, hP⟩ := h _ _ _ ha
  exact ⟨n, hn, h' a n hP⟩

theorem failure : Takes (failure : Reader α) P := by
  intro input a rest h
  cases h

theorem bytes (w : Nat) : Takes (Reader.bytes w) fun _ n => n = w := by
  intro input b rest h
  change (if _ then _ else _) = _ at h
  split_ifs at h with hlen
  obtain ⟨-, rfl⟩ := Prod.mk.inj (Option.some.inj h)
  refine ⟨w, ?_, rfl⟩
  rw [List.length_drop]
  omega

theorem uint (w : Nat) : Takes (Reader.uint w) fun _ n => n = w := (bytes w).map fun _ _ h => h

theorem bool : Takes Reader.bool fun _ n => n = 1 := by
  refine (uint 1).bind fun tag m hm => ?_
  match tag with
  | 0 => exact pure hm
  | 1 => exact pure hm
  | _ + 2 => exact failure

/-- A list of values takes at least what its encoding would. -/
theorem many {enc : α → Bytes} (h : Takes r fun a n => (enc a).length ≤ n) (count : Nat) :
    Takes (Reader.many r count) fun l n => (l.flatMap enc).length ≤ n := by
  induction count with
  | zero => exact pure (Nat.le_refl 0)
  | succ count ih =>
    refine h.bind fun a m hm => ih.bind fun l n hn => pure ?_
    rw [List.flatMap_cons, List.length_append]
    omega

theorem seq {enc : α → Bytes} (h : Takes r fun a n => (enc a).length ≤ n) :
    Takes (Reader.seq r) fun l n => 8 + (l.flatMap enc).length ≤ n := by
  refine (uint 8).bind fun count m hm => ?_
  refine (many h count).mono fun l n hn => ?_
  omega

theorem option {enc : Option α → Bytes} (hnone : (enc none).length ≤ 1)
    (h : Takes r fun a n => (enc (some a)).length ≤ 1 + n) :
    Takes (Reader.option r) fun o n => (enc o).length ≤ n := by
  refine (uint 1).bind fun tag m hm => ?_
  match tag with
  | 0 => exact pure (by subst hm; exact hnone)
  | 1 => exact h.map fun a n hn => by subst hm; exact hn
  | _ + 2 => exact failure

end Takes

end Edet
