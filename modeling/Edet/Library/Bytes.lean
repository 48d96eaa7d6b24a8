import Mathlib.Tactic

/-!
# Byte strings and self-delimiting codes

Machine words as bytes, little-endian (`leBytes`) and big-endian (`beBytes`), and the one
property that lets a concatenation of encodings be read back: a code is **self-delimiting**
on a domain (`SelfDelimiting`) when no encoding of one value, whatever follows it, is the
encoding of another value followed by something. Self-delimiting codes compose by
concatenation, so that a preimage laid out field by field is injective as soon as every
field but the last is:

* `SelfDelimiting.of_length`: a code of fixed width that is injective;
* `SelfDelimiting.framed`: a byte string preceded by its length;
* `SelfDelimiting.inj`: what it gives for two codes that agree.
-/

namespace Edet

abbrev Bytes := List UInt8

/-! ### Words -/

/-- The `w` low bytes of `n`, the lowest first. -/
def leBytes : Nat → Nat → Bytes
  | 0, _ => []
  | w + 1, n => UInt8.ofNat n :: leBytes w (n / 256)

/-- The `w` low bytes of `n`, the lowest last. -/
def beBytes (w n : Nat) : Bytes := (leBytes w n).reverse

@[simp] theorem length_leBytes (w n : Nat) : (leBytes w n).length = w := by
  induction w generalizing n with
  | zero => rfl
  | succ w ih => simp [leBytes, ih]

/-- Only the low bytes are written. -/
theorem leBytes_mod (w n : Nat) : leBytes w (n % 256 ^ w) = leBytes w n := by
  induction w generalizing n with
  | zero => rfl
  | succ w ih =>
    have hhead : UInt8.ofNat (n % 256 ^ (w + 1)) = UInt8.ofNat n := by
      refine UInt8.toNat_inj.1 ?_
      rw [UInt8.toNat_ofNat', UInt8.toNat_ofNat']
      exact Nat.mod_mod_of_dvd n (Dvd.intro_left (256 ^ w) (pow_succ 256 w).symm)
    have htail : n % 256 ^ (w + 1) / 256 = n / 256 % 256 ^ w := by
      rw [pow_succ', Nat.mod_mul_right_div_self]
    rw [leBytes, leBytes, hhead, htail, ih]

@[simp] theorem length_beBytes (w n : Nat) : (beBytes w n).length = w := by
  simp [beBytes]

/-- The number that bytes spell, the lowest first. -/
def leNat : Bytes → Nat
  | [] => 0
  | b :: bs => b.toNat + 256 * leNat bs

theorem leNat_leBytes {w n : Nat} (h : n < 256 ^ w) : leNat (leBytes w n) = n := by
  induction w generalizing n with
  | zero => simp only [pow_zero, Nat.lt_one_iff] at h; simp [leBytes, leNat, h]
  | succ w ih =>
    have hdiv : n / 256 < 256 ^ w := by
      rw [Nat.div_lt_iff_lt_mul (by norm_num), ← pow_succ]
      exact h
    have hb : (UInt8.ofNat n).toNat = n % 256 := by simp
    rw [leBytes, leNat, ih hdiv, hb]
    omega

theorem lt_snoc_iff {l l' : Bytes} (hlen : l.length = l'.length) (a b : UInt8) :
    l ++ [a] < l' ++ [b] ↔ l < l' ∨ l = l' ∧ a < b := by
  induction l generalizing l' with
  | nil =>
    obtain rfl : l' = [] := List.eq_nil_of_length_eq_zero (by simpa using hlen.symm)
    simp [List.cons_lt_cons_iff]
  | cons x l ih =>
    cases l' with
    | nil => simp at hlen
    | cons y l' =>
      simp only [List.length_cons, Nat.add_right_cancel_iff] at hlen
      simp only [List.cons_append, List.cons_lt_cons_iff, ih hlen, List.cons.injEq]
      tauto

/-- Words sort as their bytes do, highest first. -/
theorem beBytes_lt_iff {w a b : Nat} (ha : a < 256 ^ w) (hb : b < 256 ^ w) :
    beBytes w a < beBytes w b ↔ a < b := by
  induction w generalizing a b with
  | zero =>
    simp only [pow_zero, Nat.lt_one_iff] at ha hb
    subst ha hb
    simp
  | succ w ih =>
    have hdiv : ∀ n, n < 256 ^ (w + 1) → n / 256 < 256 ^ w := by
      intro n hn
      rw [Nat.div_lt_iff_lt_mul (by norm_num), ← pow_succ]
      exact hn
    have hsnoc : ∀ n, beBytes (w + 1) n = beBytes w (n / 256) ++ [UInt8.ofNat n] := by
      intro n
      rw [beBytes, leBytes, List.reverse_cons, ← beBytes]
    have heq : beBytes w (a / 256) = beBytes w (b / 256) ↔ a / 256 = b / 256 := by
      refine ⟨fun h => ?_, fun h => by rw [h]⟩
      have hle := congrArg leNat (List.reverse_injective h)
      rwa [leNat_leBytes (hdiv a ha), leNat_leBytes (hdiv b hb)] at hle
    have hlow : UInt8.ofNat a < UInt8.ofNat b ↔ a % 256 < b % 256 := by
      rw [UInt8.lt_iff_toNat_lt]
      simp
    rw [hsnoc, hsnoc, lt_snoc_iff (by simp), ih (hdiv a ha) (hdiv b hb), heq, hlow]
    omega

theorem leNat_lt (b : Bytes) : leNat b < 256 ^ b.length := by
  induction b with
  | nil => exact Nat.one_pos
  | cons x b ih =>
    have hx : x.toNat < 256 := x.toNat_lt
    rw [leNat, List.length_cons, pow_succ]
    omega

/-- The number whose digits are the bytes, lowest first, closed by a one: no two strings
have one. -/
def leNumeral (b : Bytes) : Nat := leNat (b ++ [1])

theorem leNumeral_pos (b : Bytes) : 0 < leNumeral b := by
  induction b with
  | nil => exact Nat.one_pos
  | cons x b ih =>
    show 0 < x.toNat + 256 * leNumeral b
    omega

theorem leNumeral_injective : Function.Injective leNumeral := by
  intro a
  induction a with
  | nil =>
    intro b h
    cases b with
    | nil => rfl
    | cons y b =>
      have hpos := leNumeral_pos b
      change 1 = y.toNat + 256 * leNumeral b at h
      omega
  | cons x a ih =>
    intro b h
    cases b with
    | nil =>
      have hpos := leNumeral_pos a
      change x.toNat + 256 * leNumeral a = 1 at h
      omega
    | cons y b =>
      change x.toNat + 256 * leNumeral a = y.toNat + 256 * leNumeral b at h
      have hx := x.toNat_lt
      have hy := y.toNat_lt
      rw [ih (show leNumeral a = leNumeral b by omega),
        UInt8.toNat_inj.1 (show x.toNat = y.toNat by omega)]

theorem leBytes_inj {w a b : Nat} (ha : a < 256 ^ w) (hb : b < 256 ^ w)
    (h : leBytes w a = leBytes w b) : a = b := by
  rw [← leNat_leBytes ha, h, leNat_leBytes hb]

theorem beBytes_inj {w a b : Nat} (ha : a < 256 ^ w) (hb : b < 256 ^ w)
    (h : beBytes w a = beBytes w b) : a = b :=
  leBytes_inj ha hb (List.reverse_injective h)

/-! ### Self-delimiting codes -/

/-- On `dom`, an encoding followed by anything is the encoding of one value only, followed
by one string only. -/
def SelfDelimiting {α : Type} (dom : α → Prop) (enc : α → Bytes) : Prop :=
  ∀ ⦃a b : α⦄, dom a → dom b → ∀ ⦃x y : Bytes⦄, enc a ++ x = enc b ++ y → a = b ∧ x = y

namespace SelfDelimiting

variable {α : Type} {dom : α → Prop} {enc : α → Bytes}

theorem inj (h : SelfDelimiting dom enc) {a b : α} (ha : dom a) (hb : dom b)
    (heq : enc a = enc b) : a = b :=
  (h ha hb (x := []) (y := []) (by rw [heq])).1

/-- A code of fixed width is self-delimiting as soon as it is injective. -/
theorem of_length {w : Nat} (hlen : ∀ a, dom a → (enc a).length = w)
    (hinj : ∀ a b, dom a → dom b → enc a = enc b → a = b) : SelfDelimiting dom enc := by
  intro a b ha hb x y heq
  obtain ⟨henc, hrest⟩ := List.append_inj heq (by rw [hlen a ha, hlen b hb])
  exact ⟨hinj a b ha hb henc, hrest⟩

theorem leBytes (w : Nat) : SelfDelimiting (· < 256 ^ w) (Edet.leBytes w) :=
  of_length (fun _ _ => length_leBytes w _) fun _ _ => leBytes_inj

theorem beBytes (w : Nat) : SelfDelimiting (· < 256 ^ w) (Edet.beBytes w) :=
  of_length (fun _ _ => length_beBytes w _) fun _ _ => beBytes_inj

/-- **Framing.** A string preceded by its length delimits itself, whatever the code for
lengths, as long as that code delimits itself. -/
theorem framed {len : Nat → Bytes} {ok : Nat → Prop} (h : SelfDelimiting ok len) :
    SelfDelimiting (fun b : Bytes => ok b.length) fun b => len b.length ++ b := by
  intro a b ha hb x y heq
  simp only [List.append_assoc] at heq
  obtain ⟨hlen, hrest⟩ := h ha hb heq
  exact List.append_inj hrest hlen

end SelfDelimiting

end Edet
