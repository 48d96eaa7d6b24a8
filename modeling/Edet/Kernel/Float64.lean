import Mathlib.Tactic

/-!
# Binary64 numbers

The ledger takes its amounts, its weights and a few of its parameters as `f64`.
A value is kept as its 64-bit pattern (`F64.bits`), so that two values are equal
exactly when they are encoded alike, and every operation the ledger uses is the
IEEE 754 one: the exact result, rounded once to nearest with ties to even
(`F64.roundQuot`).

Comparisons go through `F64.key`, which reads a pattern that is not a NaN as an
integer in the order of the value it stands for; both zeros have key `0`, and a NaN
compares with nothing. The casts are Rust's: `F64.toU64` saturates and sends a NaN
to `0`, `F64.ofNat` rounds.
-/

namespace Edet

/-- A binary64 number, as its bit pattern. -/
structure F64 where
  bits : BitVec 64
deriving DecidableEq

namespace F64

/-- The sign bit. -/
def sign (x : F64) : Bool := x.bits.msb

/-- The eleven exponent bits. -/
def expField (x : F64) : Nat := x.bits.toNat / 2 ^ 52 % 2 ^ 11

/-- The fifty-two fraction bits. -/
def fracField (x : F64) : Nat := x.bits.toNat % 2 ^ 52

def isNaN (x : F64) : Bool := x.expField == 2047 && x.fracField != 0

def isInf (x : F64) : Bool := x.expField == 2047 && x.fracField == 0

def isFinite (x : F64) : Bool := x.expField != 2047

/-- The significand of a finite value, as an integer. -/
def mant (x : F64) : Nat := if x.expField = 0 then x.fracField else 2 ^ 52 + x.fracField

/-- The exponent of a finite value: it stands for `±mant * 2 ^ expo`. -/
def expo (x : F64) : Int := if x.expField = 0 then -1074 else (x.expField : Int) - 1075

/-- Assemble a pattern from its three fields. -/
def ofFields (neg : Bool) (expField frac : Nat) : F64 :=
  ⟨BitVec.ofNat 64 ((if neg then 2 ^ 63 else 0) + expField * 2 ^ 52 + frac)⟩

/-- The one quiet NaN the operations below produce. -/
def nan : F64 := ofFields false 2047 (2 ^ 51)

def inf (neg : Bool) : F64 := ofFields neg 2047 0

def zero (neg : Bool) : F64 := ofFields neg 0 0

/-- The binary64 number nearest to `±num / den * 2 ^ e`, ties to even (`den` is
positive). -/
def roundQuot (neg : Bool) (num den : Nat) (e : Int) : F64 :=
  if num = 0 then zero neg else
    let b : Int := (num.log2 : Int) - den.log2
    -- `b` or `b - 1` is the floor of the logarithm of `num / den`.
    let fl : Int := if num * 2 ^ (-b).toNat < den * 2 ^ b.toNat then b - 1 else b
    let ulp : Int := max (fl + e - 52) (-1074)
    let n := num * 2 ^ (e - ulp).toNat
    let d := den * 2 ^ (ulp - e).toNat
    let q := n / d
    let r := n % d
    let q := if 2 * r > d ∨ (2 * r = d ∧ q % 2 = 1) then q + 1 else q
    -- Rounding up may carry into the next binade.
    let (q, ulp) := if q = 2 ^ 53 then (2 ^ 52, ulp + 1) else (q, ulp)
    if q < 2 ^ 52 then ofFields neg 0 q
    else if ulp + 1075 ≥ 2047 then inf neg
    else ofFields neg (ulp + 1075).toNat (q - 2 ^ 52)

/-- `n as f64`. -/
def ofNat (n : Nat) : F64 := roundQuot false n 1 0

/-- A decimal literal `num / den` of the source. -/
def lit (num den : Nat) : F64 := roundQuot false num den 0

/-- The integer a finite value is, in units of `2 ^ e` (`e` at most its exponent). -/
def scaled (x : F64) (e : Int) : Int :=
  let m : Int := (x.mant * 2 ^ (x.expo - e).toNat : Nat)
  if x.sign then -m else m

protected def neg (x : F64) : F64 := ⟨x.bits ^^^ BitVec.ofNat 64 (2 ^ 63)⟩

/-- `x.abs()`. -/
def abs (x : F64) : F64 := ⟨x.bits &&& BitVec.ofNat 64 (2 ^ 63 - 1)⟩

protected def add (x y : F64) : F64 :=
  if x.isNaN || y.isNaN then nan
  else if x.isInf then (if y.isInf && x.sign != y.sign then nan else x)
  else if y.isInf then y
  else
    let e := min x.expo y.expo
    let v := x.scaled e + y.scaled e
    if v = 0 then zero (x.sign && y.sign)
    else roundQuot (decide (v < 0)) v.natAbs 1 e

protected def sub (x y : F64) : F64 := F64.add x (F64.neg y)

protected def mul (x y : F64) : F64 :=
  if x.isNaN || y.isNaN then nan
  else if x.isInf || y.isInf then
    (if (x.isFinite && x.mant == 0) || (y.isFinite && y.mant == 0) then nan
     else inf (x.sign != y.sign))
  else roundQuot (x.sign != y.sign) (x.mant * y.mant) 1 (x.expo + y.expo)

protected def div (x y : F64) : F64 :=
  if x.isNaN || y.isNaN then nan
  else if x.isInf then (if y.isInf then nan else inf (x.sign != y.sign))
  else if y.isInf then zero (x.sign != y.sign)
  else if y.mant = 0 then (if x.mant = 0 then nan else inf (x.sign != y.sign))
  else roundQuot (x.sign != y.sign) x.mant y.mant (x.expo - y.expo)

instance : Neg F64 := ⟨F64.neg⟩
instance : Add F64 := ⟨F64.add⟩
instance : Sub F64 := ⟨F64.sub⟩
instance : Mul F64 := ⟨F64.mul⟩
instance : Div F64 := ⟨F64.div⟩

/-! ### Comparisons -/

/-- A pattern that is not a NaN, as an integer in the order of its value. -/
def key (x : F64) : Int :=
  let m : Int := (x.bits.toNat % 2 ^ 63 : Nat)
  if x.sign then -m else m

/-- `x < y`. -/
protected def lt (x y : F64) : Prop := x.isNaN = false ∧ y.isNaN = false ∧ x.key < y.key

/-- `x <= y`. -/
protected def le (x y : F64) : Prop := x.isNaN = false ∧ y.isNaN = false ∧ x.key ≤ y.key

instance : LT F64 := ⟨F64.lt⟩
instance : LE F64 := ⟨F64.le⟩

instance (x y : F64) : Decidable (x < y) := inferInstanceAs (Decidable (_ ∧ _ ∧ _))
instance (x y : F64) : Decidable (x ≤ y) := inferInstanceAs (Decidable (_ ∧ _ ∧ _))

/-- `x.max(y)`: a NaN gives way to the other argument. -/
def max (x y : F64) : F64 := if x.isNaN then y else if x < y then y else x

/-- `x.clamp(lo, hi)`. -/
def clamp (x lo hi : F64) : F64 := if x < lo then lo else if hi < x then hi else x

/-! ### Rounding to integers and casts -/

/-- `x.floor()`. -/
def floor (x : F64) : F64 :=
  if !x.isFinite || 0 ≤ x.expo then x
  else
    let d : Int := (2 ^ (-x.expo).toNat : Nat)
    let v : Int := (x.scaled x.expo) / d
    roundQuot x.sign v.natAbs 1 0

/-- `x.round()`: to the nearest integer, ties away from zero. -/
def round (x : F64) : F64 :=
  if !x.isFinite || 0 ≤ x.expo then x
  else
    let d : Nat := 2 ^ (-x.expo).toNat
    roundQuot x.sign ((2 * x.mant + d) / (2 * d)) 1 0

/-- `x as u64`: towards zero, saturating, and `0` for a NaN. -/
def toU64 (x : F64) : Nat :=
  if x.isNaN || x.sign then 0
  else if x.isInf then 2 ^ 64 - 1
  else min (x.mant * 2 ^ x.expo.toNat / 2 ^ (-x.expo).toNat) (2 ^ 64 - 1)

theorem toU64_lt (x : F64) : x.toU64 < 2 ^ 64 := by
  unfold toU64
  split
  · decide
  · split
    · decide
    · omega

example : (lit 1 10 + lit 2 10).bits = 0x3fd3333333333334#64 := by decide +kernel
example : (ofNat 1 / ofNat 3).bits = 0x3fd5555555555555#64 := by decide +kernel
example : floor (-(lit 5 2)) = -(ofNat 3) := by decide +kernel

end F64

end Edet
