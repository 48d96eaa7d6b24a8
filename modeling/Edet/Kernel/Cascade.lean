import Edet.Kernel.Float64

/-!
# Water-filling

`waterfillMinor` divides a total over targets in proportion to their weights, none
getting more than it needs, in whole minor units. Each round shares what is left over
the targets still open and closes those that are full; a round that closes none ends
the division, and what flooring left over stays undistributed.
-/

namespace Edet

/-- One round over the open targets: each takes its floored share, at most its room and
at most what the round has left. Returns the allocation, what was spent and the targets
still open. -/
def waterfillRound (targets : List (Nat × F64)) (remaining : Nat) (weightSum : F64) :
    List Nat → List Nat → Nat → List Nat → List Nat × Nat × List Nat
  | [], alloc, spent, nextOpen => (alloc, spent, nextOpen)
  | i :: rest, alloc, spent, nextOpen =>
    let target := targets.getD i (0, F64.zero false)
    let share := (F64.ofNat remaining * target.2 / weightSum).floor
    let share := if share.isFinite ∧ F64.zero false < share then share.toU64 else 0
    let room := target.1 - alloc.getD i 0
    let take := min (min share room) (remaining - spent)
    let alloc := alloc.set i (alloc.getD i 0 + take)
    let nextOpen := if alloc.getD i 0 < target.1 then nextOpen ++ [i] else nextOpen
    waterfillRound targets remaining weightSum rest alloc (spent + take) nextOpen

/-- Rounds, at most one for each target. -/
def waterfillLoop (targets : List (Nat × F64)) :
    Nat → List Nat → Nat → List Nat → List Nat
  | 0, alloc, _, _ => alloc
  | rounds + 1, alloc, remaining, opened =>
    if opened.isEmpty ∨ remaining = 0 then alloc
    else
      let weightSum := opened.foldl (fun w i => w + (targets.getD i (0, F64.zero false)).2)
        (F64.zero false)
      if ¬weightSum.isFinite ∨ weightSum ≤ F64.zero false then alloc
      else
        let (alloc, spent, nextOpen) :=
          waterfillRound targets remaining weightSum opened alloc 0 []
        if nextOpen.length = opened.length then alloc
        else waterfillLoop targets rounds alloc (remaining - spent) nextOpen

def waterfillMinor (targets : List (Nat × F64)) (total : Nat) : List Nat :=
  let n := targets.length
  let alloc := List.replicate n 0
  if n = 0 ∨ total = 0 then alloc
  else
    let opened := (List.range n).filter fun i =>
      let target := targets.getD i (0, F64.zero false)
      decide (0 < target.1) && decide (F64.zero false < target.2) && target.2.isFinite
    waterfillLoop targets n alloc total opened

example : waterfillMinor [(5, F64.ofNat 1), (100, F64.ofNat 1)] 20 = [5, 15] := by decide +kernel

end Edet
