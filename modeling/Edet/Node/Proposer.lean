import Edet.Ledger.Types
import Mathlib.Data.Nat.Count

/-!
# Who proposes

A validator set is listed by power and then by address. Height and round together are a position
in a schedule as long as the set's total power, in which each validator owns as many consecutive
slots as it has power; `selectProposer` walks the list to the slot that holds the position.

A set is only ever made by `EdetValidatorSet.build`, so the type keeps what that function checks:
there is a validator, no address twice, and the powers sum below `2 ^ 64` (`buildAll_spec`).

Over one turn of the schedule each validator is selected as often as it has power
(`count_walk`), and a window of that length that starts elsewhere sees the same positions modulo
the total.
-/

namespace Edet.Node

structure EdetValidator where
  address : MemberId
  publicKey : Key
  power : Nat
deriving DecidableEq

/-- Subtraction as the release build does it, which stops on an underflow. -/
def checkedSub (a b : Nat) : Option Nat := if b ≤ a then some (a - b) else none

/-- Addition of 64-bit numbers, `none` where the sum does not fit. -/
def checkedAdd (a b : Nat) : Option Nat := if a + b < 2 ^ 64 then some (a + b) else none

def saturatingAdd (a b : Nat) : Nat := min (a + b) (2 ^ 64 - 1)

/-- The sum of the powers of a list of validators. -/
def powers (vs : List EdetValidator) : Nat := (vs.map EdetValidator.power).sum

@[simp] theorem powers_nil : powers [] = 0 := rfl

@[simp] theorem powers_cons (v : EdetValidator) (vs : List EdetValidator) :
    powers (v :: vs) = v.power + powers vs := rfl

theorem powers_perm {vs ws : List EdetValidator} (h : vs.Perm ws) : powers vs = powers ws :=
  (h.map _).sum_eq

structure EdetValidatorSet where
  validators : List EdetValidator
  nonempty : validators ≠ []
  distinct : (validators.map EdetValidator.address).Nodup
  fits : powers validators < 2 ^ 64

inductive ValidatorSetError
  | empty
  | missingMember (id : MemberId)
  | missingConsensusKey (id : MemberId)
  | unparseableKey (id : MemberId)
  | powerTooLarge (id : MemberId)
  | totalPowerOverflow
deriving DecidableEq

namespace EdetValidatorSet

/-- Power descending, then address ascending. -/
def Before (a b : EdetValidator) : Prop :=
  b.power < a.power ∨ (b.power = a.power ∧ a.address ≤ b.address)

instance : DecidableRel Before := fun _ _ => inferInstanceAs (Decidable (_ ∨ _))

/-- The set of some validators, in the order of their schedule. -/
def new (validators : List EdetValidator) (nonempty : validators ≠ [])
    (distinct : (validators.map EdetValidator.address).Nodup)
    (fits : powers validators < 2 ^ 64) : EdetValidatorSet where
  validators := validators.insertionSort Before
  nonempty := by
    intro h
    have hperm := List.perm_insertionSort Before validators
    rw [h] at hperm
    exact nonempty (List.perm_nil.1 hperm.symm)
  distinct := ((List.perm_insertionSort Before validators).map _).nodup_iff.2 distinct
  fits := by rwa [powers_perm (List.perm_insertionSort Before validators)]

/-- The key of a validator: the one recorded for the height in question, or else the consensus
key its row holds. -/
def keyFor (state : State) (keys : OrdMap MemberId Key) (id : MemberId) :
    Except ValidatorSetError Key :=
  match keys[id]? with
  | some k => .ok k
  | none =>
    match state.members[id]? with
    | none => .error (.missingMember id)
    | some m =>
      match m.consensusKey with
      | none => .error (.missingConsensusKey id)
      | some k => .ok k

/-- The loop of `build` over the entries of a power map, with the total of those before. -/
def buildAll (isVerifyingKey : Key → Bool) (state : State) (keys : OrdMap MemberId Key) :
    List (MemberId × Nat) → Nat → Except ValidatorSetError (List EdetValidator)
  | [], _ => .ok []
  | (id, power) :: rest, total =>
    if Constants.maxValidatorPower < power then .error (.powerTooLarge id)
    else
      match checkedAdd total power with
      | none => .error .totalPowerOverflow
      | some total =>
        match keyFor state keys id with
        | .error e => .error e
        | .ok key =>
          if isVerifyingKey key then
            (buildAll isVerifyingKey state keys rest total).map
              ({ address := id, publicKey := key, power } :: ·)
          else .error (.unparseableKey id)

/-- What the loop built lists the entries it read, in their order, and their powers fit. -/
theorem buildAll_spec {isVerifyingKey : Key → Bool} {state : State} {keys : OrdMap MemberId Key}
    {entries : List (MemberId × Nat)} {total : Nat} {built : List EdetValidator}
    (h : buildAll isVerifyingKey state keys entries total = .ok built) (htotal : total < 2 ^ 64) :
    built.map (fun v => (v.address, v.power)) = entries ∧ total + powers built < 2 ^ 64 := by
  induction entries generalizing total built with
  | nil =>
    cases h
    exact ⟨rfl, htotal⟩
  | cons entry rest ih =>
    obtain ⟨id, power⟩ := entry
    unfold buildAll at h
    split at h
    · cases h
    split at h
    · cases h
    rename_i total' hadd
    split at h
    · cases h
    split at h
    · cases hrest : buildAll isVerifyingKey state keys rest total' with
      | error e => rw [hrest] at h; cases h
      | ok built' =>
        rw [hrest] at h
        cases h
        obtain ⟨hsum, rfl⟩ : total + power < 2 ^ 64 ∧ total + power = total' := by
          unfold checkedAdd at hadd
          split at hadd
          · exact ⟨by assumption, Option.some.inj hadd⟩
          · cases hadd
        obtain ⟨hmap, hfits⟩ := ih hrest hsum
        refine ⟨by rw [List.map_cons, hmap], ?_⟩
        rwa [powers_cons, ← Nat.add_assoc]
    · cases h

/-- The set of validators of a power map, with the keys of a past height where `keys` has one. -/
def build (isVerifyingKey : Key → Bool) (state : State) (validators : OrdMap MemberId Nat)
    (keys : OrdMap MemberId Key) : Except ValidatorSetError EdetValidatorSet :=
  if hempty : validators.toList = [] then .error .empty
  else
    match hbuilt : buildAll isVerifyingKey state keys validators.toList 0 with
    | .error e => .error e
    | .ok built =>
      have hspec := buildAll_spec hbuilt (by decide)
      have hdistinct : (built.map EdetValidator.address).Nodup := by
        have hkeys := OrdMap.nodup_keys validators
        rwa [← hspec.1, List.map_map] at hkeys
      .ok (new built (by rintro rfl; exact hempty hspec.1.symm) hdistinct
        (by simpa using hspec.2))

/-- The sum of the powers, capped at the largest 64-bit number. -/
def totalVotingPower (set : EdetValidatorSet) : Nat :=
  set.validators.foldl (fun acc v => saturatingAdd acc v.power) 0

theorem foldl_saturatingAdd {vs : List EdetValidator} {acc : Nat} (h : acc + powers vs < 2 ^ 64) :
    vs.foldl (fun acc v => saturatingAdd acc v.power) acc = acc + powers vs := by
  induction vs generalizing acc with
  | nil => rfl
  | cons v vs ih =>
    rw [powers_cons, ← Nat.add_assoc] at h
    have hadd : saturatingAdd acc v.power = acc + v.power := by
      unfold saturatingAdd
      omega
    rw [List.foldl_cons, hadd, ih h, powers_cons, Nat.add_assoc]

/-- The cap is never reached. -/
theorem totalVotingPower_eq (set : EdetValidatorSet) :
    set.totalVotingPower = powers set.validators := by
  have hfits : 0 + powers set.validators < 2 ^ 64 := by simpa using set.fits
  exact (foldl_saturatingAdd hfits).trans (Nat.zero_add _)

def first (set : EdetValidatorSet) : EdetValidator := set.validators.head set.nonempty

/-- The walk to the slot that holds a position, with what is proposed where it falls through;
`none` where a subtraction underflows. -/
def walk (fallback : EdetValidator) : List EdetValidator → Nat → Option EdetValidator
  | [], _ => some fallback
  | v :: rest, pos =>
    if pos < v.power then some v
    else
      match checkedSub pos v.power with
      | none => none
      | some pos => walk fallback rest pos

/-- The validator that proposes at a height and in a round; `none` where the node stops. -/
def selectProposer (set : EdetValidatorSet) (height round : Nat) : Option EdetValidator :=
  let total := set.totalVotingPower
  if total = 0 then some set.first
  else walk set.first set.validators ((height + round) % 2 ^ 64 % total)

end EdetValidatorSet

/-! ### The walk -/

section Walk

variable {fallback v : EdetValidator} {vs : List EdetValidator} {pos : Nat}

theorem walk_cons_of_lt {rest : List EdetValidator} (h : pos < v.power) :
    EdetValidatorSet.walk fallback (v :: rest) pos = some v := if_pos h

theorem walk_cons_add {rest : List EdetValidator} (pos : Nat) :
    EdetValidatorSet.walk fallback (v :: rest) (v.power + pos)
      = EdetValidatorSet.walk fallback rest pos := by
  rw [EdetValidatorSet.walk, if_neg (Nat.not_lt.2 (Nat.le_add_right _ _)), checkedSub,
    if_pos (Nat.le_add_right _ _)]
  dsimp only
  rw [Nat.add_sub_cancel_left]

/-- A position inside the schedule is in the slots of one validator of the list, and the walk
finds that one. -/
theorem walk_of_lt (fallback : EdetValidator) (h : pos < powers vs) :
    ∃ before v after, vs = before ++ v :: after ∧ powers before ≤ pos ∧
      pos < powers before + v.power ∧ EdetValidatorSet.walk fallback vs pos = some v := by
  induction vs generalizing pos with
  | nil => exact absurd h (Nat.not_lt_zero _)
  | cons u rest ih =>
    by_cases hlt : pos < u.power
    · exact ⟨[], u, rest, rfl, Nat.zero_le _, by simpa using hlt, walk_cons_of_lt hlt⟩
    · obtain ⟨rem, rfl⟩ := Nat.exists_eq_add_of_le (Nat.not_lt.1 hlt)
      rw [powers_cons] at h
      obtain ⟨before, v, after, rfl, hle, hlt', hwalk⟩ := ih (Nat.lt_of_add_lt_add_left h)
      refine ⟨u :: before, v, after, rfl, ?_, ?_, ?_⟩
      · exact Nat.add_le_add_left hle _
      · rw [powers_cons, Nat.add_assoc]
        exact Nat.add_lt_add_left hlt' _
      · rw [walk_cons_add, hwalk]

/-- Over one turn of the schedule a validator is found as often as it has power. -/
theorem count_walk (hdistinct : vs.Nodup) (hmem : v ∈ vs) :
    Nat.count (fun pos => EdetValidatorSet.walk fallback vs pos = some v) (powers vs)
      = v.power := by
  induction vs with
  | nil => cases hmem
  | cons u rest ih =>
    obtain ⟨hfresh, hdistinct⟩ := List.nodup_cons.1 hdistinct
    rw [powers_cons, Nat.count_add]
    simp only [walk_cons_add]
    by_cases heq : u = v
    · subst heq
      have hown : Nat.count (fun pos => EdetValidatorSet.walk fallback (u :: rest) pos = some u)
          u.power = u.power := Nat.count_iff_forall.2 fun pos hpos => walk_cons_of_lt hpos
      have hrest : Nat.count (fun pos => EdetValidatorSet.walk fallback rest pos = some u)
          (powers rest) = 0 := by
        refine Nat.count_iff_forall_not.2 fun pos hpos hwalk => ?_
        obtain ⟨before, w, after, rfl, -, -, hw⟩ := walk_of_lt fallback hpos
        rw [hw] at hwalk
        cases hwalk
        exact hfresh (by simp)
      rw [hown, hrest, Nat.add_zero]
    · have hown : Nat.count (fun pos => EdetValidatorSet.walk fallback (u :: rest) pos = some v)
          u.power = 0 := by
        refine Nat.count_iff_forall_not.2 fun pos hpos hwalk => ?_
        rw [walk_cons_of_lt hpos] at hwalk
        exact heq (Option.some.inj hwalk)
      rw [hown, Nat.zero_add, ih hdistinct ((List.mem_cons.1 hmem).resolve_left (Ne.symm heq))]

end Walk

/-! ### The schedule -/

/-- A property of residues is met as often in any window of one period as in the first one. -/
theorem count_window (p : Nat → Prop) [DecidablePred p] (start period : Nat) :
    Nat.count (fun i => p ((start + i) % period)) period
      = Nat.count (fun i => p (i % period)) period := by
  have hfirst := Nat.count_add (fun x => p (x % period)) start period
  have hlast := Nat.count_add (fun x => p (x % period)) period start
  -- the positions past the first period are those before the window again
  have hwrap : Nat.count (fun i => p ((period + i) % period)) start
      = Nat.count (fun x => p (x % period)) start := by
    simp only [Nat.add_mod_left]
  rw [Nat.add_comm period start, hfirst, hwrap, Nat.add_comm (Nat.count _ period)] at hlast
  exact Nat.add_left_cancel hlast

namespace EdetValidatorSet

variable {set : EdetValidatorSet}

theorem powers_pos (hpos : ∀ v ∈ set.validators, 0 < v.power) : 0 < powers set.validators := by
  have hfirst := List.cons_head_tail set.nonempty
  rw [← hfirst, powers_cons]
  exact Nat.add_pos_left (hpos _ (List.head_mem _)) _

/-- Where height and round do not wrap, the position is their sum modulo the total power. -/
theorem selectProposer_eq (hpos : 0 < powers set.validators) {height round : Nat}
    (h : height + round < 2 ^ 64) :
    set.selectProposer height round
      = walk set.first set.validators ((height + round) % powers set.validators) := by
  unfold selectProposer
  dsimp only
  rw [totalVotingPower_eq, if_neg (Nat.pos_iff_ne_zero.1 hpos), Nat.mod_eq_of_lt h]

/-- The validators take turns in proportion to their power. -/
theorem selectProposer_proportional (set : EdetValidatorSet)
    (hpos : ∀ v ∈ set.validators, 0 < v.power) :
    set.totalVotingPower = powers set.validators ∧
    (∀ height round, (∀ i < powers set.validators, height + i + round < 2 ^ 64) →
      ∀ v ∈ set.validators,
        Nat.count (fun i => set.selectProposer (height + i) round = some v)
          (powers set.validators) = v.power) ∧
    (∀ height round i, height + round + i < 2 ^ 64 →
      set.selectProposer height (round + i) = set.selectProposer (height + i) round) ∧
    (∀ height round, height + round < 2 ^ 64 →
      ∃ before v after, set.validators = before ++ v :: after ∧
        powers before ≤ (height + round) % powers set.validators ∧
        (height + round) % powers set.validators < powers before + v.power ∧
        set.selectProposer height round = some v) := by
  have htotal := powers_pos hpos
  refine ⟨totalVotingPower_eq set, ?_, ?_, ?_⟩
  · intro height round hfits v hv
    have hselect : ∀ i < powers set.validators, set.selectProposer (height + i) round = some v ↔
        walk set.first set.validators ((height + round + i) % powers set.validators) = some v := by
      intro i hi
      rw [selectProposer_eq htotal (hfits i hi), Nat.add_right_comm]
    calc Nat.count (fun i => set.selectProposer (height + i) round = some v)
          (powers set.validators)
        = Nat.count (fun i => walk set.first set.validators
            ((height + round + i) % powers set.validators) = some v) (powers set.validators) :=
          le_antisymm (Nat.count_mono_left fun i hi => (hselect i hi).1)
            (Nat.count_mono_left fun i hi => (hselect i hi).2)
      _ = Nat.count (fun i => walk set.first set.validators
            (i % powers set.validators) = some v) (powers set.validators) :=
          count_window (fun x => walk set.first set.validators x = some v) _ _
      _ = Nat.count (fun i => walk set.first set.validators i = some v)
            (powers set.validators) :=
          le_antisymm
            (Nat.count_mono_left fun i hi h => by rwa [Nat.mod_eq_of_lt hi] at h)
            (Nat.count_mono_left fun i hi h => by rwa [Nat.mod_eq_of_lt hi])
      _ = v.power := count_walk set.distinct.of_map hv
  · intro height round i hfits
    have hsum : height + i + round = height + (round + i) := by omega
    rw [selectProposer_eq htotal (by omega), selectProposer_eq htotal (by omega), hsum]
  · intro height round hfits
    obtain ⟨before, v, after, hlist, hle, hlt, hwalk⟩ :=
      walk_of_lt set.first (Nat.mod_lt (height + round) htotal)
    exact ⟨before, v, after, hlist, hle, hlt, by rw [selectProposer_eq htotal hfits, hwalk]⟩

/-- Three validators of different powers. -/
def uneven : EdetValidatorSet :=
  new [{ address := 3, publicKey := 0, power := 2 }, { address := 5, publicKey := 1, power := 1 },
    { address := 4, publicKey := 2, power := 3 }] (by decide) (by decide) (by decide)

theorem selectProposer_proportional_uneven :
    Nat.count (fun i => uneven.selectProposer (7 + i) 1
      = some { address := 3, publicKey := 0, power := 2 }) 6 = 2 :=
  (selectProposer_proportional uneven (by decide)).2.1 7 1
    (fun i hi => by have hi : i < 6 := hi; omega) _ (by decide)

end EdetValidatorSet

end Edet.Node
