import Edet.Library.Bytes

/-!
# Numbers of the wallet's language

The wallet has one kind of number. Here it is either an integer or something else (a
fraction, an infinity, not a number), of which only the integer it truncates to is kept:
that is all that writing it at a fixed width looks at. Amounts are not of this type: they
are written as the sixty-four bits they are.
-/

namespace Edet.Wallet

/-- A number: an integer, or another that truncates to one. -/
inductive Number
  | int (value : Int)
  | other (truncated : Int)
deriving DecidableEq

/-- The largest integer below which every integer is represented exactly. -/
def MAX_SAFE_INTEGER : Nat := 2 ^ 53 - 1

namespace Number

def truncate : Number → Int
  | int v => v
  | other t => t

/-- A non-negative integer that is represented exactly. -/
def safe? : Number → Option Nat
  | .int (.ofNat n) => if n ≤ MAX_SAFE_INTEGER then some n else none
  | _ => none

theorem safe?_int {n : Nat} (h : n < 2 ^ 53) : safe? (.int n) = some n :=
  if_pos (by rw [MAX_SAFE_INTEGER]; omega)

theorem eq_of_safe? {x : Number} {n : Nat} (h : safe? x = some n) : x = .int n ∧ n < 2 ^ 53 := by
  match x, h with
  | .int (.ofNat m), h =>
    simp only [safe?] at h
    split_ifs at h with hm
    obtain rfl : m = n := by simpa using h
    exact ⟨rfl, by rw [MAX_SAFE_INTEGER] at hm; omega⟩

end Number

end Edet.Wallet
