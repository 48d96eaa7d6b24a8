import Edet.Ledger.State
import Mathlib.Data.List.Sort

/-!
# Splitting a hold

When an obligation shrinks, or is handed to the underwriters behind it, its hold is
split. `shrink` splits it into what is kept and what goes back, `edgePieces` into one
piece for each underwriter. Both go along the routes of the hold where it decomposes,
so that every piece is again a flow to the debtor; where it does not, they fall back
to `splitEdges`, which divides every arc on its own by largest remainder.

`allocate` divides `keep` over a list of amounts by largest remainder, never giving
one more than it has.
-/

namespace Edet.Loss

open Edet.Flow

/-- Largest remainder first, then the first in the list. -/
def remainderOrder (a b : Nat × Nat) : Prop := b.1 < a.1 ∨ (a.1 = b.1 ∧ a.2 ≤ b.2)

instance : DecidableRel remainderOrder := fun _ _ => inferInstanceAs (Decidable (_ ∨ _))

/-- The remainders of `amounts[i] * keep / total`, each with its index, in the order in
which they are served. -/
def remainders (amounts : List Nat) (keep total : Nat) : List (Nat × Nat) :=
  (amounts.zipIdx.map fun p => (p.1 * keep % total, p.2)).insertionSort remainderOrder

/-- Hand out `left` more units, one for each remainder, where there is room. -/
def topUp (amounts : List Nat) : List (Nat × Nat) → Nat → List Nat → List Nat
  | [], _, out => out
  | (_, i) :: rs, left, out =>
    if left = 0 then out
    else if out.getD i 0 < amounts.getD i 0 then
      topUp amounts rs (left - 1) (out.set i (out.getD i 0 + 1))
    else topUp amounts rs left out

/-- Divide `keep` over `amounts`, which sum to `total`. -/
def allocate (amounts : List Nat) (keep total : Nat) : List Nat :=
  if total = 0 then amounts.map fun _ => 0
  else
    let out := amounts.map fun a => a * keep / total
    topUp amounts (remainders amounts keep total) (keep - out.sum) out

/-- Hand out `left` more units, one for each remainder. -/
def topUpFree : List (Nat × Nat) → Nat → List Nat → List Nat
  | [], _, out => out
  | (_, i) :: rs, left, out =>
    if left = 0 then out else topUpFree rs (left - 1) (out.set i (out.getD i 0 + 1))

/-- Divide one arc's amount by weight. -/
def splitAmount (amount : Nat) (weights : List Nat) (total : Nat) : List Nat :=
  let out := weights.map fun w => amount * w / total
  topUpFree (remainders weights amount total) (amount - out.sum) out

/-- Divide every arc by weight: piece `i` of each arc goes to the `i`-th list. -/
def splitEdges (edges : List ((Nat × Nat) × Nat)) (weights : List Nat) (total : Nat) :
    List (List ((Nat × Nat) × Nat)) :=
  (List.range weights.length).map fun i =>
    (edges.map fun p => (p.1, (splitAmount p.2 weights total).getD i 0)).filter
      fun p => decide (0 < p.2)

/-- What one underwriter's routes keep, and what they give back, when it keeps `kept`. -/
def splitRoutes (mine : List Path) (kept : Nat) : List Path × List Path :=
  let vals := mine.map Path.value
  let take := allocate vals (min kept vals.sum) vals.sum
  let pairs := mine.zip take
  ((pairs.filter fun p => decide (0 < p.2)).map fun p => { p.1 with value := p.2 },
    (pairs.filter fun p => decide (p.2 < p.1.value)).map fun p =>
      { p.1 with value := p.1.value - p.2 })

/-- Split a hold of `total` into what keeps `keep` and what goes back. -/
def shrink (held : Held) (debtor keep total : Nat) : Held × Held :=
  let weights := held.supply.map Prod.snd
  let kept := allocate weights keep total
  match decompose held debtor with
  | .ok paths =>
    let pieces := (held.supply.zip kept).map fun p =>
      splitRoutes (paths.filter fun q => q.source = p.1.1) p.2
    (fromPaths (pieces.flatMap Prod.fst), fromPaths (pieces.flatMap Prod.snd))
  | .error _ =>
    let pieces := splitEdges held.edges [keep, total - keep] total
    let pairs := held.supply.zip kept
    ({ edges := pieces.getD 0 []
       supply := (pairs.filter fun p => decide (0 < p.2)).map fun p => (p.1.1, p.2) },
     { edges := pieces.getD 1 []
       supply := (pairs.filter fun p => decide (p.2 < p.1.2)).map fun p =>
         (p.1.1, p.1.2 - p.2) })

/-- The arcs behind each underwriter of a hold. -/
def edgePieces (held : Held) (debtor : Nat) : List (List ((Nat × Nat) × Nat)) :=
  match decompose held debtor with
  | .ok paths =>
    held.supply.map fun p => (fromPaths (paths.filter fun q => q.source = p.1)).edges
  | .error _ => splitEdges held.edges (held.supply.map Prod.snd) held.amount

example : allocate [10, 10, 10] 10 30 = [4, 3, 3] := by decide

end Edet.Loss
