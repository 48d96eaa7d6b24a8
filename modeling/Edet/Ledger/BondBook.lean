import Edet.Kernel.Cut
import Edet.Ledger.Types

/-!
# A book of bonds

What a reservation that is no fee amounts to. A bond names its payer, the epoch that gives it
back and the amount it holds. The book has every bond that was charged, and where each one
is: outstanding, refunded, forfeited, or released, and then by which boundary.

A bond is charged once and leaves the outstanding ones once (`BondBook.Balanced.once`), and a
boundary releases exactly what falls due between the epoch it closes and the epoch it opens
(`BondBook.Balanced.timely`). Every operation of the book keeps it so. The ledger keeps of all
this one amount for each member and release epoch. `dueAt` is that amount, and
`total_eq_amountOf` says that the sum of what a member holds is the sum of its bonds.
-/

namespace Edet

open Edet.Flow

/-- A bond that was charged. -/
structure ChargedBond where
  payer : MemberId
  releaseAt : Nat
  amount : Nat
deriving DecidableEq

/-- What the bonds of a payer amount to. -/
def amountOf (id : MemberId) (bonds : Multiset ChargedBond) : Nat :=
  ((bonds.filter fun x => x.payer = id).map ChargedBond.amount).sum

/-- What the bonds of a payer that an epoch gives back amount to. -/
def dueAt (id : MemberId) (epoch : Nat) (bonds : Multiset ChargedBond) : Nat :=
  ((bonds.filter fun x => x.payer = id ∧ x.releaseAt = epoch).map ChargedBond.amount).sum

section Amounts

variable (id : MemberId) (epoch : Nat) (x : ChargedBond) (bonds bonds' : Multiset ChargedBond)

@[simp] theorem amountOf_zero : amountOf id 0 = 0 := rfl

@[simp] theorem dueAt_zero : dueAt id epoch 0 = 0 := rfl

@[simp] theorem amountOf_cons :
    amountOf id (x ::ₘ bonds) = (if x.payer = id then x.amount else 0) + amountOf id bonds := by
  unfold amountOf
  rw [Multiset.filter_cons]
  split <;> simp

@[simp] theorem dueAt_cons : dueAt id epoch (x ::ₘ bonds) =
    (if x.payer = id ∧ x.releaseAt = epoch then x.amount else 0) + dueAt id epoch bonds := by
  unfold dueAt
  rw [Multiset.filter_cons]
  split <;> simp

@[simp] theorem amountOf_add : amountOf id (bonds + bonds') = amountOf id bonds + amountOf id bonds' := by
  simp [amountOf]

variable {id epoch bonds}

/-- A part of the bonds that is all of a payer's or none. -/
theorem amountOf_filter {p : ChargedBond → Prop} [DecidablePred p] {P : Prop} [Decidable P]
    (h : ∀ x : ChargedBond, x.payer = id → (p x ↔ P)) :
    amountOf id (bonds.filter p) = if P then amountOf id bonds else 0 := by
  unfold amountOf
  rw [Multiset.filter_filter]
  split
  · next hP =>
    rw [Multiset.filter_congr fun x _ => and_iff_left_of_imp fun hx => (h x hx).2 hP]
  · next hP =>
    rw [Multiset.filter_eq_nil.2 fun x _ hx => hP ((h x hx.1).1 hx.2)]
    rfl

theorem dueAt_filter {p : ChargedBond → Prop} [DecidablePred p] {P : Prop} [Decidable P]
    (h : ∀ x : ChargedBond, x.payer = id → x.releaseAt = epoch → (p x ↔ P)) :
    dueAt id epoch (bonds.filter p) = if P then dueAt id epoch bonds else 0 := by
  unfold dueAt
  rw [Multiset.filter_filter]
  split
  · next hP =>
    rw [Multiset.filter_congr fun x _ => and_iff_left_of_imp fun hx => (h x hx.1 hx.2).2 hP]
  · next hP =>
    rw [Multiset.filter_eq_nil.2 fun x _ hx => hP ((h x hx.1.1 hx.1.2).1 hx.2)]
    rfl

theorem total_eq_degree (held : OrdMap Nat Nat) :
    OrdMap.total (fun _ v => v) held = (listFlow held.toList).degree := (degree_listFlow _).symm

/-- The sum is read off what is held until each epoch. -/
theorem total_eq_of_getD' {held held' : OrdMap Nat Nat}
    (h : ∀ epoch, OrdMap.getD' held epoch 0 = OrdMap.getD' held' epoch 0) :
    OrdMap.total (fun _ v => v) held = OrdMap.total (fun _ v => v) held' := by
  have hflow : listFlow held.toList = listFlow held'.toList := by
    ext epoch
    rw [listFlow_apply, listFlow_apply, amountAt_toList, amountAt_toList, h]
  rw [total_eq_degree, total_eq_degree, hflow]

/-- **A member holds the sum of its bonds.** -/
theorem total_eq_amountOf {held : OrdMap Nat Nat}
    (h : ∀ epoch, OrdMap.getD' held epoch 0 = dueAt id epoch bonds) :
    OrdMap.total (fun _ v => v) held = amountOf id bonds := by
  let f : Nat →₀ Nat :=
    ((bonds.filter fun x => x.payer = id).map fun x => Finsupp.single x.releaseAt x.amount).sum
  have hdegree : f.degree = amountOf id bonds := by
    simp only [f, amountOf]
    induction bonds.filter fun x => x.payer = id using Multiset.induction_on with
    | empty => simp
    | cons x l ih => simp [map_add, ih]
  have happly : ∀ epoch, f epoch = dueAt id epoch bonds := by
    intro epoch
    have hsplit : dueAt id epoch bonds =
        (((bonds.filter fun x => x.payer = id).filter fun x => x.releaseAt = epoch).map
          ChargedBond.amount).sum := by
      rw [Multiset.filter_filter, dueAt]
      exact congrArg _ (congrArg _ (Multiset.filter_congr fun _ _ => and_comm))
    rw [hsplit]
    simp only [f]
    induction bonds.filter fun x => x.payer = id using Multiset.induction_on with
    | empty => simp
    | cons x l ih =>
      rw [Multiset.map_cons, Multiset.sum_cons, Finsupp.add_apply, ih, Multiset.filter_cons,
        Finsupp.single_apply]
      split <;> simp
  have hflow : listFlow held.toList = f := by
    ext epoch
    rw [listFlow_apply, amountAt_toList, h, happly]
  rw [total_eq_degree, hflow, hdegree]

end Amounts

/-- The bonds charged so far, and where they are. A released one is kept with the epoch its
boundary closed and the one it opened. -/
structure BondBook where
  charged : Multiset ChargedBond := 0
  outstanding : Multiset ChargedBond := 0
  refunded : Multiset ChargedBond := 0
  forfeited : Multiset ChargedBond := 0
  released : Multiset (ChargedBond × Nat × Nat) := 0

namespace BondBook

def charge (x : ChargedBond) (b : BondBook) : BondBook :=
  { b with charged := x ::ₘ b.charged, outstanding := x ::ₘ b.outstanding }

def refund (x : ChargedBond) (b : BondBook) : BondBook :=
  { b with outstanding := b.outstanding.erase x, refunded := x ::ₘ b.refunded }

/-- The payers that are hit forfeit all they hold. -/
def forfeit (hit : MemberId → Bool) (b : BondBook) : BondBook :=
  { b with
    outstanding := b.outstanding.filter fun x => ¬hit x.payer
    forfeited := b.forfeited + b.outstanding.filter fun x => hit x.payer }

/-- The boundary gives back what is due by the epoch it opens. -/
def release (closed opened : Nat) (b : BondBook) : BondBook :=
  { b with
    outstanding := b.outstanding.filter fun x => ¬x.releaseAt ≤ opened
    released := b.released +
      (b.outstanding.filter fun x => x.releaseAt ≤ opened).map fun x => (x, closed, opened) }

/-- Every bond charged is in one place, and the released ones were released on time. -/
structure Balanced (b : BondBook) : Prop where
  once : b.charged = b.outstanding + b.refunded + b.forfeited + b.released.map Prod.fst
  timely : ∀ r ∈ b.released, r.2.1 < r.1.releaseAt ∧ r.1.releaseAt ≤ r.2.2

variable {b : BondBook}

theorem Balanced.charge (h : b.Balanced) (x : ChargedBond) : (b.charge x).Balanced := by
  refine ⟨?_, h.timely⟩
  simp only [BondBook.charge, h.once, Multiset.cons_add]

theorem Balanced.refund (h : b.Balanced) {x : ChargedBond} (hx : x ∈ b.outstanding) :
    (b.refund x).Balanced := by
  refine ⟨?_, h.timely⟩
  calc b.charged = b.outstanding + b.refunded + b.forfeited + b.released.map Prod.fst := h.once
    _ = (x ::ₘ b.outstanding.erase x) + b.refunded + b.forfeited + b.released.map Prod.fst := by
      rw [Multiset.cons_erase hx]
    _ = b.outstanding.erase x + (x ::ₘ b.refunded) + b.forfeited + b.released.map Prod.fst := by
      rw [Multiset.cons_add, Multiset.add_cons]

theorem Balanced.forfeit (h : b.Balanced) (hit : MemberId → Bool) : (b.forfeit hit).Balanced := by
  refine ⟨?_, h.timely⟩
  have honce := h.once
  rw [← Multiset.filter_add_not (fun x : ChargedBond => hit x.payer = true) b.outstanding] at honce
  show b.charged = _
  rw [honce]
  simp only [BondBook.forfeit]
  abel

theorem Balanced.release (h : b.Balanced) {closed : Nat} (opened : Nat)
    (hdue : ∀ x ∈ b.outstanding, closed < x.releaseAt) : (b.release closed opened).Balanced := by
  refine ⟨?_, fun r hr => ?_⟩
  · have honce := h.once
    rw [← Multiset.filter_add_not (fun x : ChargedBond => x.releaseAt ≤ opened) b.outstanding] at honce
    show b.charged = _
    rw [honce]
    simp only [BondBook.release, Multiset.map_add, Multiset.map_map, Function.comp_def,
      Multiset.map_id']
    abel
  · rcases Multiset.mem_add.1 hr with hr | hr
    · exact h.timely r hr
    · obtain ⟨x, hx, rfl⟩ := Multiset.mem_map.1 hr
      obtain ⟨hout, hopened⟩ := Multiset.mem_filter.1 hx
      exact ⟨hdue x hout, hopened⟩

/-- Where nobody is hit, nothing is forfeited. -/
theorem forfeit_of_none {hit : MemberId → Bool} (h : ∀ id, hit id = false) : b.forfeit hit = b := by
  simp [forfeit, h]

/-- Where nothing is due, nothing is released. -/
theorem release_of_pending {closed opened : Nat} (h : ∀ x ∈ b.outstanding, opened < x.releaseAt) :
    b.release closed opened = b := by
  have hnone : (b.outstanding.filter fun x => x.releaseAt ≤ opened) = 0 :=
    Multiset.filter_eq_nil.2 fun x hx => Nat.not_le.2 (h x hx)
  have hall : (b.outstanding.filter fun x => ¬x.releaseAt ≤ opened) = b.outstanding :=
    Multiset.filter_eq_self.2 fun x hx => Nat.not_le.2 (h x hx)
  simp only [release, hnone, hall]
  simp

end BondBook

end Edet
