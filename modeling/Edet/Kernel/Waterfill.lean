import Edet.Kernel.Cascade
import Edet.Kernel.Dinic

/-!
# A fair division

The division of `waterfillMinor` over any arithmetic for its weights (`Shares`): how they are
added, and what share of an amount a weight is. Over binary64 it is the one the ledger
computes (`waterfillMinor_eq`); over the rationals a share is the floor of what it should be
(`exactShares`).

Whatever the arithmetic, nobody gets more than it needs, nobody without a weight gets
anything, and no more is given out than there is (`Stage`). A round in which nobody is filled
either gives out all that is left or gives everybody the floor of its share, so that in exact
arithmetic less is left over than there are targets still open (`round_spec`).
-/

namespace Edet

/-- The arithmetic of weights. -/
structure Shares (W : Type) where
  zero : W
  add : W → W → W
  /-- Does a target of this weight take part? -/
  takes : W → Bool
  /-- May this total weight be divided by? -/
  splits : W → Bool
  /-- The share of an amount that a weight is, of a total weight. -/
  share : Nat → W → W → Nat

namespace Shares

variable {W : Type} (S : Shares W) (targets : List (Nat × W))

def need (i : Nat) : Nat := (targets.getD i (0, S.zero)).1

def weight (i : Nat) : W := (targets.getD i (0, S.zero)).2

/-- One round over the open targets. -/
def round (remaining : Nat) (weightSum : W) :
    List Nat → List Nat → Nat → List Nat → List Nat × Nat × List Nat
  | [], alloc, spent, nextOpen => (alloc, spent, nextOpen)
  | i :: rest, alloc, spent, nextOpen =>
    let share := S.share remaining (S.weight targets i) weightSum
    let room := S.need targets i - alloc.getD i 0
    let take := min (min share room) (remaining - spent)
    let alloc := alloc.set i (alloc.getD i 0 + take)
    let nextOpen := if alloc.getD i 0 < S.need targets i then nextOpen ++ [i] else nextOpen
    round remaining weightSum rest alloc (spent + take) nextOpen

/-- The total weight of the open targets. -/
def weightSum (opened : List Nat) : W :=
  opened.foldl (fun w i => S.add w (S.weight targets i)) S.zero

/-- Rounds, at most one for each target. -/
def loop : Nat → List Nat → Nat → List Nat → List Nat
  | 0, alloc, _, _ => alloc
  | rounds + 1, alloc, remaining, opened =>
    if opened.isEmpty ∨ remaining = 0 then alloc
    else if ¬S.splits (S.weightSum targets opened) then alloc
    else
      let (alloc, spent, nextOpen) :=
        S.round targets remaining (S.weightSum targets opened) opened alloc 0 []
      if nextOpen.length = opened.length then alloc
      else loop rounds alloc (remaining - spent) nextOpen

/-- The targets that take part. -/
def opening : List Nat :=
  (List.range targets.length).filter fun i =>
    decide (0 < S.need targets i) && S.takes (S.weight targets i)

def divide (total : Nat) : List Nat :=
  let alloc := List.replicate targets.length 0
  if targets.length = 0 ∨ total = 0 then alloc
  else S.loop targets targets.length alloc total (S.opening targets)

end Shares

/-- Weights as binary64 numbers. -/
def floatShares : Shares F64 where
  zero := F64.zero false
  add := (· + ·)
  takes w := decide (F64.zero false < w) && w.isFinite
  splits w := !(decide (¬w.isFinite ∨ w ≤ F64.zero false))
  share remaining w weightSum :=
    let share := (F64.ofNat remaining * w / weightSum).floor
    if share.isFinite ∧ F64.zero false < share then share.toU64 else 0

/-- Weights as rationals, and a share as the floor of the exact quotient. -/
def exactShares : Shares ℚ where
  zero := 0
  add := (· + ·)
  takes w := decide (0 < w)
  splits w := decide (0 < w)
  share remaining w weightSum := ⌊(remaining : ℚ) * w / weightSum⌋.toNat

theorem waterfillRound_eq (targets : List (Nat × F64)) (remaining : Nat) (weightSum : F64)
    (opened alloc : List Nat) (spent : Nat) (nextOpen : List Nat) :
    waterfillRound targets remaining weightSum opened alloc spent nextOpen =
      floatShares.round targets remaining weightSum opened alloc spent nextOpen := by
  induction opened generalizing alloc spent nextOpen with
  | nil => rfl
  | cons i rest ih => exact ih _ _ _

theorem waterfillLoop_eq (targets : List (Nat × F64)) (rounds : Nat) (alloc : List Nat)
    (remaining : Nat) (opened : List Nat) :
    waterfillLoop targets rounds alloc remaining opened =
      floatShares.loop targets rounds alloc remaining opened := by
  induction rounds generalizing alloc remaining opened with
  | zero => rfl
  | succ rounds ih =>
    have hsum : opened.foldl (fun w i => w + (targets.getD i (0, F64.zero false)).2)
        (F64.zero false) = floatShares.weightSum targets opened := rfl
    unfold waterfillLoop Shares.loop
    by_cases hdone : opened.isEmpty ∨ remaining = 0
    · rw [if_pos hdone, if_pos hdone]
    rw [if_neg hdone, if_neg hdone]
    dsimp only
    rw [hsum]
    generalize hw : floatShares.weightSum targets opened = w
    have hsplits : ¬floatShares.splits w ↔ ¬w.isFinite ∨ w ≤ F64.zero false := by
      simp only [floatShares, Bool.not_eq_true', decide_eq_false_iff_not, not_not]
    by_cases hstop : ¬w.isFinite ∨ w ≤ F64.zero false
    · rw [if_pos hstop, if_pos (hsplits.2 hstop)]
    rw [if_neg hstop, if_neg (fun h => hstop (hsplits.1 h)), waterfillRound_eq]
    generalize floatShares.round targets remaining w opened alloc 0 [] = r
    obtain ⟨alloc', spent, nextOpen⟩ := r
    dsimp only
    split
    · rfl
    · exact ih _ _ _

/-- The ledger's division is the one over binary64 weights. -/
theorem waterfillMinor_eq (targets : List (Nat × F64)) (total : Nat) :
    waterfillMinor targets total = floatShares.divide targets total := by
  have hopened : ((List.range targets.length).filter fun i =>
      decide (0 < (targets.getD i (0, F64.zero false)).1) &&
        decide (F64.zero false < (targets.getD i (0, F64.zero false)).2) &&
          (targets.getD i (0, F64.zero false)).2.isFinite) = floatShares.opening targets :=
    List.filter_congr fun i _ => Bool.and_assoc _ _ _
  unfold waterfillMinor Shares.divide
  dsimp only
  rw [hopened, waterfillLoop_eq]

/-! ### One round -/

namespace Shares

variable {W : Type} {S : Shares W} {targets : List (Nat × W)}

/-- Putting something on one entry of a list adds it to the sum. -/
theorem sum_set_add {l : List Nat} {i : Nat} (hi : i < l.length) (x : Nat) :
    (l.set i (l.getD i 0 + x)).sum = l.sum + x := by
  induction l generalizing i with
  | nil => exact absurd hi (Nat.not_lt_zero _)
  | cons a l ih =>
    cases i with
    | zero => simp only [List.set_cons_zero, List.sum_cons, List.getD_cons_zero]; omega
    | succ i =>
      have hrest := ih (Nat.lt_of_succ_lt_succ hi)
      simp only [List.set_cons_succ, List.sum_cons, List.getD_cons_succ]
      omega

/-- What a round over the open targets does to an allocation. -/
structure Rounded (S : Shares W) (targets : List (Nat × W)) (remaining : Nat) (weightSum : W)
    (opened alloc : List Nat) (spent : Nat) (nextOpen : List Nat)
    (r : List Nat × Nat × List Nat) : Prop where
  length : r.1.length = alloc.length
  sum : r.1.sum + spent = alloc.sum + r.2.1
  grows : spent ≤ r.2.1
  within : r.2.1 ≤ remaining
  frame : ∀ i, i ∉ opened → r.1.getD i 0 = alloc.getD i 0
  needed : ∀ i ∈ opened, r.1.getD i 0 ≤ S.need targets i
  stillOpen : r.2.2 = nextOpen ++ opened.filter fun i => r.1.getD i 0 < S.need targets i
  /-- If nobody was filled, everybody took its share or all is spent. -/
  unfilled : (∀ i ∈ opened, r.1.getD i 0 < S.need targets i) →
    r.2.1 = remaining ∨
      r.2.1 = spent + (opened.map fun i => S.share remaining (S.weight targets i) weightSum).sum

theorem round_spec {remaining : Nat} {weightSum : W} {opened alloc : List Nat} {spent : Nat}
    {nextOpen : List Nat} (hnodup : opened.Nodup) (hlt : ∀ i ∈ opened, i < alloc.length)
    (hneed : ∀ i ∈ opened, alloc.getD i 0 ≤ S.need targets i) (hspent : spent ≤ remaining) :
    Rounded S targets remaining weightSum opened alloc spent nextOpen
      (S.round targets remaining weightSum opened alloc spent nextOpen) := by
  induction opened generalizing alloc spent nextOpen with
  | nil =>
    exact ⟨rfl, rfl, le_refl _, hspent, fun _ _ => rfl, List.forall_mem_nil _,
      (List.append_nil _).symm, fun _ => .inr rfl⟩
  | cons i rest ih =>
    obtain ⟨hi, hrest⟩ := List.nodup_cons.1 hnodup
    have hilt : i < alloc.length := hlt i List.mem_cons_self
    have hineed := hneed i List.mem_cons_self
    unfold round
    extract_lets share room take alloc' nextOpen'
    have htake : take ≤ room ∧ spent + take ≤ remaining := by
      constructor
      · exact (min_le_left _ _).trans (min_le_right _ _)
      · have : take ≤ remaining - spent := min_le_right _ _
        omega
    have hget : ∀ j, alloc'.getD j 0 = if i = j then alloc.getD i 0 + take else alloc.getD j 0 :=
      fun j => Flow.Network.getD_set alloc i j _ hilt
    have hlen : alloc'.length = alloc.length := List.length_set
    -- the targets after this one are as they were
    have hother : ∀ j ∈ rest, alloc'.getD j 0 = alloc.getD j 0 := by
      intro j hj
      rw [hget, if_neg fun h : i = j => hi (h ▸ hj)]
    have hself : alloc'.getD i 0 = alloc.getD i 0 + take := by rw [hget, if_pos rfl]
    have R : Rounded S targets remaining weightSum rest alloc' (spent + take) nextOpen'
        (S.round targets remaining weightSum rest alloc' (spent + take) nextOpen') := ih hrest
      (fun j hj => hlen ▸ hlt j (List.mem_cons_of_mem _ hj))
      (fun j hj => hother j hj ▸ hneed j (List.mem_cons_of_mem _ hj)) htake.2
    have hfinal := R.frame i hi
    generalize S.round targets remaining weightSum rest alloc' (spent + take) nextOpen' = r
      at R hfinal
    refine ⟨R.length.trans hlen, ?_, ?_, R.within, ?_, ?_, ?_, ?_⟩
    · have hset : alloc'.sum = alloc.sum + take := sum_set_add hilt take
      have hsum := R.sum
      omega
    · exact (Nat.le_add_right _ _).trans R.grows
    · intro j hj
      rw [R.frame j fun h => hj (List.mem_cons_of_mem _ h), hget,
        if_neg fun h : i = j => hj (h ▸ List.mem_cons_self)]
    · intro j hj
      rcases List.mem_cons.1 hj with rfl | hj
      · rw [hfinal, hself]
        have hroom : take ≤ S.need targets j - alloc.getD j 0 := htake.1
        omega
      · exact R.needed j hj
    · rw [R.stillOpen, List.filter_cons, hfinal]
      by_cases h : alloc'.getD i 0 < S.need targets i
      · have hnext : nextOpen' = nextOpen ++ [i] := if_pos h
        rw [hnext, if_pos (decide_eq_true h), List.append_assoc, List.singleton_append]
      · have hnext : nextOpen' = nextOpen := if_neg h
        rw [hnext, if_neg (by simpa using h)]
    · intro hopen
      have hifree : alloc.getD i 0 + take < S.need targets i := by
        rw [← hself, ← hfinal]
        exact hopen i List.mem_cons_self
      have hgrows := R.grows
      have hwithin := R.within
      rcases R.unfilled fun j hj => hopen j (List.mem_cons_of_mem _ hj) with hall | hshares
      · exact .inl hall
      -- the target was not filled, so it took its share or all that was left
      have hcases : take = share ∨ spent + take = remaining := by
        have hroom : room = S.need targets i - alloc.getD i 0 := rfl
        have : take = min (min share room) (remaining - spent) := rfl
        omega
      rcases hcases with hshare | hleft
      · right
        rw [hshares, List.map_cons, List.sum_cons, hshare]
        exact Nat.add_assoc _ _ _
      · left
        omega

/-! ### All rounds -/

/-- How a division stands between two rounds. -/
structure Stage (S : Shares W) (targets : List (Nat × W)) (total : Nat) (alloc : List Nat)
    (remaining : Nat) (opened : List Nat) : Prop where
  length : alloc.length = targets.length
  sum : alloc.sum + remaining = total
  needed : ∀ i, alloc.getD i 0 ≤ S.need targets i
  idle : ∀ i, ¬S.takes (S.weight targets i) → alloc.getD i 0 = 0
  nodup : opened.Nodup
  mem : ∀ i, i ∈ opened ↔
    i < targets.length ∧ S.takes (S.weight targets i) ∧ alloc.getD i 0 < S.need targets i

/-- Why a division ends. -/
def Ended (S : Shares W) (targets : List (Nat × W)) (remaining : Nat) (opened : List Nat) :
    Prop :=
  opened = [] ∨ remaining = 0 ∨ ¬S.splits (S.weightSum targets opened) ∨
    ∃ before, before = remaining +
      (opened.map fun i =>
        S.share before (S.weight targets i) (S.weightSum targets opened)).sum

variable {total : Nat} {alloc opened : List Nat} {remaining : Nat}

theorem stage_opening : Stage S targets total (List.replicate targets.length 0) total
    (S.opening targets) := by
  have hzero : ∀ i, (List.replicate targets.length 0).getD i 0 = 0 := by
    intro i
    rw [List.getD_eq_getElem?_getD, List.getElem?_replicate]
    split <;> rfl
  refine ⟨List.length_replicate, by simp, ?_, fun i _ => hzero i, ?_, ?_⟩
  · intro i
    rw [hzero]
    exact Nat.zero_le _
  · exact List.nodup_range.filter _
  · intro i
    rw [hzero]
    simp only [opening, List.mem_filter, List.mem_range, Bool.and_eq_true, decide_eq_true_eq]
    exact and_congr_right fun _ => and_comm

namespace Stage

theorem lt (h : Stage S targets total alloc remaining opened) {i : Nat} (hi : i ∈ opened) :
    i < alloc.length :=
  h.length ▸ ((h.mem i).1 hi).1

/-- A round leads from one stage to the next. -/
theorem round (h : Stage S targets total alloc remaining opened) {weightSum : W}
    {r : List Nat × Nat × List Nat}
    (R : Rounded S targets remaining weightSum opened alloc 0 [] r) :
    Stage S targets total r.1 (remaining - r.2.1) r.2.2 := by
  have hopen : r.2.2 = opened.filter fun i => r.1.getD i 0 < S.need targets i := by
    rw [R.stillOpen, List.nil_append]
  refine ⟨R.length.trans h.length, ?_, ?_, ?_, ?_, ?_⟩
  · have hsum := R.sum
    have hwithin := R.within
    have htotal := h.sum
    omega
  · intro i
    by_cases hi : i ∈ opened
    · exact R.needed i hi
    · exact (R.frame i hi).symm ▸ h.needed i
  · intro i hidle
    rw [R.frame i fun hi => hidle ((h.mem i).1 hi).2.1]
    exact h.idle i hidle
  · exact hopen ▸ h.nodup.filter _
  · intro i
    rw [hopen, List.mem_filter, decide_eq_true_eq, h.mem]
    constructor
    · rintro ⟨⟨hlt, htakes, -⟩, hfree⟩
      exact ⟨hlt, htakes, hfree⟩
    · rintro ⟨hlt, htakes, hfree⟩
      refine ⟨⟨hlt, htakes, ?_⟩, hfree⟩
      -- a target that was full before the round is not touched by it
      by_contra hfull
      have hnot : i ∉ opened := fun hi => hfull ((h.mem i).1 hi).2.2
      exact hfull (R.frame i hnot ▸ hfree)

/-- The rounds end at a stage, and with a reason: each that fills somebody leaves fewer open
targets, so the limit on the rounds is never what ends them. -/
theorem loop (rounds : Nat) {alloc : List Nat} {remaining : Nat} {opened : List Nat}
    (h : Stage S targets total alloc remaining opened) (hrounds : opened.length ≤ rounds) :
    ∃ remaining' opened', Stage S targets total (S.loop targets rounds alloc remaining opened)
      remaining' opened' ∧ Ended S targets remaining' opened' := by
  induction rounds generalizing alloc remaining opened with
  | zero => exact ⟨remaining, opened, h, .inl (List.length_eq_zero_iff.1 (Nat.le_zero.1 hrounds))⟩
  | succ rounds ih =>
    unfold Shares.loop
    by_cases hdone : opened.isEmpty ∨ remaining = 0
    · rw [if_pos hdone]
      exact ⟨remaining, opened, h, hdone.imp List.isEmpty_iff.1 .inl⟩
    rw [if_neg hdone]
    by_cases hstop : ¬S.splits (S.weightSum targets opened)
    · rw [if_pos hstop]
      exact ⟨remaining, opened, h, .inr (.inr (.inl hstop))⟩
    rw [if_neg hstop]
    have R : Rounded S targets remaining (S.weightSum targets opened) opened alloc 0 []
        (S.round targets remaining (S.weightSum targets opened) opened alloc 0 []) := round_spec h.nodup
      (fun i => h.lt) (fun i _ => h.needed i) (Nat.zero_le _)
    generalize S.round targets remaining (S.weightSum targets opened) opened alloc 0 [] = r at R
    have hnext := h.round R
    obtain ⟨alloc', spent, nextOpen⟩ := r
    have hopen : nextOpen = opened.filter fun i => alloc'.getD i 0 < S.need targets i :=
      R.stillOpen
    dsimp only at hnext ⊢
    by_cases hlen : nextOpen.length = opened.length
    · rw [if_pos hlen]
      refine ⟨remaining - spent, nextOpen, hnext, ?_⟩
      have hall : ∀ i ∈ opened, alloc'.getD i 0 < S.need targets i := by
        intro i hi
        exact of_decide_eq_true (List.length_filter_eq_length_iff.1 (hopen ▸ hlen) i hi)
      have hsame : nextOpen = opened :=
        hopen.trans (List.filter_eq_self.2 fun i hi => decide_eq_true (hall i hi))
      have hwithin : spent ≤ remaining := R.within
      rw [hsame]
      rcases R.unfilled hall with hspent | hspent
      · have hspent : spent = remaining := hspent
        exact .inr (.inl (by omega))
      · refine .inr (.inr (.inr ⟨remaining, ?_⟩))
        rw [Nat.zero_add] at hspent
        rw [← hspent]
        exact (Nat.sub_add_cancel hwithin).symm
    · rw [if_neg hlen]
      have hle : nextOpen.length ≤ opened.length := hopen ▸ List.length_filter_le _ _
      exact ih hnext (by omega)

end Stage

/-- A division ends at a stage, and with a reason. -/
theorem divide_stage (S : Shares W) (targets : List (Nat × W)) (total : Nat) :
    ∃ remaining opened, Stage S targets total (S.divide targets total) remaining opened ∧
      Ended S targets remaining opened := by
  unfold divide
  have hopening : Stage S targets total _ total (S.opening targets) := stage_opening
  split
  · next h =>
    refine ⟨total, S.opening targets, hopening, ?_⟩
    rcases h with h | h
    · exact .inl (by simp [opening, h])
    · exact .inr (.inl h)
  · refine hopening.loop _ ?_
    calc (S.opening targets).length ≤ (List.range targets.length).length :=
          List.length_filter_le _ _
      _ = targets.length := List.length_range

end Shares

/-! ### Exact shares -/

section Exact

variable {targets : List (Nat × ℚ)} {total : Nat}

theorem weightSum_exact (opened : List Nat) :
    exactShares.weightSum targets opened = (opened.map (exactShares.weight targets)).sum := by
  have hfold : ∀ w : ℚ, opened.foldl (fun w i => exactShares.add w (exactShares.weight targets i)) w
      = w + (opened.map (exactShares.weight targets)).sum := by
    induction opened with
    | nil => intro w; simp
    | cons i rest ih =>
      intro w
      rw [List.foldl_cons, ih, List.map_cons, List.sum_cons, ← add_assoc]
      rfl
  exact (hfold 0).trans (zero_add _)

/-- A share falls short of the exact quotient by less than one. -/
theorem lt_share (before : Nat) (w weightSum : ℚ) :
    (before : ℚ) * w / weightSum < exactShares.share before w weightSum + 1 := by
  calc (before : ℚ) * w / weightSum < ⌊(before : ℚ) * w / weightSum⌋ + 1 := Int.lt_floor_add_one _
    _ ≤ exactShares.share before w weightSum + 1 := by
        have : ⌊(before : ℚ) * w / weightSum⌋ ≤ (exactShares.share before w weightSum : ℤ) :=
          Int.self_le_toNat _
        exact_mod_cast add_le_add_left this 1

/-- The shares of an amount fall short of it by less than their number. -/
theorem lt_shares (before : Nat) (weights : List ℚ) {weightSum : ℚ} (hne : weights ≠ [])
    (hsum : weights.sum = weightSum) (hpos : 0 < weightSum) :
    before < (weights.map fun w => exactShares.share before w weightSum).sum + weights.length := by
  have hstep : ∀ ws : List ℚ, ws ≠ [] → (before : ℚ) * ws.sum / weightSum <
      ((ws.map fun w => exactShares.share before w weightSum).sum : Nat) + ws.length := by
    intro ws hws
    induction ws with
    | nil => exact absurd rfl hws
    | cons w rest ih =>
      have hw := lt_share before w weightSum
      have hsplit : (before : ℚ) * (w :: rest).sum / weightSum =
          before * w / weightSum + before * rest.sum / weightSum := by
        rw [List.sum_cons]
        ring
      rw [hsplit, List.map_cons, List.sum_cons, List.length_cons]
      push_cast
      rcases rest with - | ⟨w', rest⟩
      · simpa using hw
      · have := ih (List.cons_ne_nil _ _)
        push_cast at this
        linarith
  have h := hstep weights hne
  rw [hsum, mul_div_assoc, div_self hpos.ne', mul_one] at h
  exact_mod_cast h

/-- The weighted targets whose need is not met. -/
def unsatisfied (targets : List (Nat × ℚ)) (alloc : List Nat) : Nat :=
  (List.range targets.length).countP fun i =>
    decide (0 < exactShares.weight targets i) &&
      decide (alloc.getD i 0 < exactShares.need targets i)

theorem unsatisfied_eq {alloc : List Nat} {remaining : Nat} {opened : List Nat}
    (h : Shares.Stage exactShares targets total alloc remaining opened) :
    unsatisfied targets alloc = opened.length := by
  have hperm : opened.Perm ((List.range targets.length).filter fun i =>
      decide (0 < exactShares.weight targets i) &&
        decide (alloc.getD i 0 < exactShares.need targets i)) := by
    refine (List.perm_ext_iff_of_nodup h.nodup (List.nodup_range.filter _)).2 ?_
    intro i
    rw [h.mem, List.mem_filter, List.mem_range, Bool.and_eq_true, decide_eq_true_eq,
      decide_eq_true_eq]
    exact and_congr_right fun _ => and_congr_left fun _ => decide_eq_true_iff
  rw [unsatisfied, List.countP_eq_length_filter, hperm.length_eq]

/-- In exact arithmetic less is left over than there are targets still open. -/
theorem leftover_lt {alloc : List Nat} {remaining : Nat} {opened : List Nat}
    (h : Shares.Stage exactShares targets total alloc remaining opened)
    (hend : exactShares.Ended targets remaining opened) (hne : opened ≠ []) :
    remaining < opened.length := by
  have hpos : 0 < exactShares.weightSum targets opened := by
    rw [weightSum_exact]
    refine List.sum_pos _ ?_ (by simpa using hne)
    intro w hw
    obtain ⟨i, hi, rfl⟩ := List.mem_map.1 hw
    exact of_decide_eq_true ((h.mem i).1 hi).2.1
  rcases hend with hnil | hzero | hstop | ⟨before, hbefore⟩
  · exact absurd hnil hne
  · rw [hzero]
    exact List.length_pos_iff.2 hne
  · exact absurd (decide_eq_true hpos) hstop
  · have hlt := lt_shares before (opened.map (exactShares.weight targets))
      (by simpa using hne) (weightSum_exact opened).symm hpos
    rw [List.map_map, List.length_map] at hlt
    have hshares : ((fun w => exactShares.share before w (exactShares.weightSum targets opened)) ∘
        exactShares.weight targets) = fun i => exactShares.share before
          (exactShares.weight targets i) (exactShares.weightSum targets opened) := rfl
    rw [hshares] at hlt
    omega

end Exact

/-! ### What a division gives -/

/-- Every target has an entry of at most its need, the entries come to at most the total, and
a target that takes no part gets nothing. -/
structure Bounded {W : Type} (S : Shares W) (targets : List (Nat × W)) (total : Nat)
    (alloc : List Nat) : Prop where
  length : alloc.length = targets.length
  total : alloc.sum ≤ total
  needed : ∀ i, alloc.getD i 0 ≤ S.need targets i
  idle : ∀ i, ¬S.takes (S.weight targets i) → alloc.getD i 0 = 0

theorem Shares.Stage.bounded {W : Type} {S : Shares W} {targets : List (Nat × W)} {total : Nat}
    {alloc : List Nat} {remaining : Nat} {opened : List Nat}
    (h : Shares.Stage S targets total alloc remaining opened) : Bounded S targets total alloc :=
  ⟨h.length, h.sum ▸ Nat.le_add_right _ _, h.needed, h.idle⟩

/-- A division gives out at most the total. -/
theorem waterfillMinor_sum (targets : List (Nat × F64)) (total : Nat) :
    (waterfillMinor targets total).sum ≤ total := by
  obtain ⟨remaining, opened, h, -⟩ := Shares.divide_stage floatShares targets total
  exact waterfillMinor_eq targets total ▸ h.bounded.total

/-- Every target of positive weight gets all it needs. -/
def Satisfied (targets : List (Nat × ℚ)) (alloc : List Nat) : Prop :=
  ∀ i, 0 < exactShares.weight targets i → alloc.getD i 0 = exactShares.need targets i

theorem Shares.Stage.satisfied {targets : List (Nat × ℚ)} {total : Nat} {alloc : List Nat}
    {remaining : Nat} (h : Shares.Stage exactShares targets total alloc remaining []) :
    Satisfied targets alloc := by
  intro i hi
  refine (h.needed i).antisymm (Nat.le_of_not_lt fun hfree => ?_)
  have hlt : i < targets.length := by
    by_contra hout
    have hzero : exactShares.need targets i = 0 := by
      unfold Shares.need
      rw [List.getD_eq_default _ _ (Nat.le_of_not_lt hout)]
    omega
  exact List.not_mem_nil ((h.mem i).2 ⟨hlt, decide_eq_true hi, hfree⟩)

/-- The division, which is the one that any shares are divided by with those of the code, is
bounded whatever the weights; with weights and shares taken exactly, it meets every need or leaves
less than one minor unit for every target it does not satisfy. -/
theorem waterfill_fair :
    (∀ (targets : List (Nat × F64)) (total : Nat),
      waterfillMinor targets total = floatShares.divide targets total ∧
        Bounded floatShares targets total (waterfillMinor targets total)) ∧
    ∀ (targets : List (Nat × ℚ)) (total : Nat),
      Bounded exactShares targets total (exactShares.divide targets total) ∧
        (Satisfied targets (exactShares.divide targets total) ∨
          total - (exactShares.divide targets total).sum <
            unsatisfied targets (exactShares.divide targets total)) := by
  constructor
  · intro targets total
    obtain ⟨remaining, opened, h, -⟩ := Shares.divide_stage floatShares targets total
    have heq := waterfillMinor_eq targets total
    exact ⟨heq, heq ▸ h.bounded⟩
  · intro targets total
    obtain ⟨remaining, opened, h, hend⟩ := Shares.divide_stage exactShares targets total
    refine ⟨h.bounded, ?_⟩
    by_cases hne : opened = []
    · subst hne
      exact .inl h.satisfied
    · right
      have hsum := h.sum
      have hlt := leftover_lt h hend hne
      rw [unsatisfied_eq h]
      omega

example : exactShares.divide [(5, 1), (100, 2), (100, 1)] 22 = [5, 11, 5] := by decide +kernel

end Edet
