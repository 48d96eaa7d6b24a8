import Edet.Kernel.Reserve
import Edet.Library.Runs

/-!
# Outstanding holds

Reserving, staking and giving back in any order. The books say what is reserved on every
arc and committed of every underwriter, and `outstanding` is what has been handed out and
not come back: the holds, or what is left of one after a piece of it was released.

The books are always the sums over what is outstanding, on top of what they began with, and
stay within the stakes and the supplies (`exact_of_reaches`). The step that needs an
argument is a release: a piece takes out of an outstanding hold what it takes out of the
books, so the subtractions never hit zero early.
-/

namespace Edet.Flow

/-- The stakes, the books, and the holds that have been handed out. -/
structure Books where
  edges : Edges
  reserved : Reservations
  committed : Committed
  outstanding : List Held

/-- `piece` and `rest` make up `held`, arc for arc and draw for draw. -/
structure Held.Splits (held piece rest : Held) : Prop where
  edges : ∀ k, amountAt held.edges k = amountAt piece.edges k + amountAt rest.edges k
  supply : ∀ u, amountAt held.supply u = amountAt piece.supply u + amountAt rest.supply u

/-- Nothing of a hold is left. -/
def Held.Spent (held : Held) : Prop :=
  (∀ k, amountAt held.edges k = 0) ∧ ∀ u, amountAt held.supply u = 0

inductive Call
  | reserve (debtor n amount : Nat) (ownSupply : Bool)
  /-- Give back a piece of an outstanding hold and keep the rest. -/
  | release (held piece rest : Held)
  | stake (creditor debtor amount conferrable : Nat)

/-- What a call does. -/
def Call.next (uw : Underwriters) : Call → Books → Books
  | .reserve debtor n amount ownSupply, b =>
    match reserveInner b.edges b.reserved b.committed uw debtor n amount ownSupply with
    | (some held, reserved, committed) =>
      { b with reserved, committed, outstanding := held :: b.outstanding }
    | (none, reserved, committed) => { b with reserved, committed }
  | .release held piece rest, b =>
    { b with
      reserved := (Flow.release b.reserved b.committed piece).1
      committed := (Flow.release b.reserved b.committed piece).2
      outstanding := rest :: b.outstanding.erase held }
  | .stake creditor debtor amount conferrable, b =>
    { b with edges := Flow.stake b.edges creditor debtor amount conferrable }

/-- What is given back is, or is part of, something outstanding. -/
def Call.Allowed : Call → Books → Prop
  | .release held piece rest, b => held ∈ b.outstanding ∧ held.Splits piece rest
  | _, _ => True

/-- What the outstanding holds have on an arc, and of an underwriter. -/
def Books.onArc (b : Books) (k : Nat × Nat) : Nat := (b.outstanding.map fun h => amountAt h.edges k).sum

def Books.drawn (b : Books) (u : Nat) : Nat := (b.outstanding.map fun h => amountAt h.supply u).sum

/-- No more is reserved than is staked, nor committed than supplied. -/
structure Books.Within (uw : Underwriters) (b : Books) : Prop where
  reserved : ∀ k, OrdMap.getD' b.reserved k 0 ≤ OrdMap.getD' b.edges k 0
  committed : ∀ u, OrdMap.getD' b.committed u 0 ≤ amountAt uw u

/-- The books are what they began with and what is outstanding. -/
structure Books.Exact (uw : Underwriters) (b start : Books) : Prop extends Books.Within uw b where
  onArc : ∀ k, OrdMap.getD' b.reserved k 0 = OrdMap.getD' start.reserved k 0 + b.onArc k
  drawn : ∀ u, OrdMap.getD' b.committed u 0 = OrdMap.getD' start.committed u 0 + b.drawn u

/-- A book without empty entries. -/
structure Books.Tidy (b : Books) : Prop where
  reserved : OrdMap.positive b.reserved = b.reserved
  committed : OrdMap.positive b.committed = b.committed

variable {uw : Underwriters} {start b : Books}

/-- Replacing one of a list of holds moves their sum by the difference. -/
theorem sum_replace (f : Held → Nat) {held piece rest : Held} {l : List Held} (h : held ∈ l)
    (hsplit : f held = f piece + f rest) :
    (l.map f).sum = f piece + ((rest :: l.erase held).map f).sum := by
  have hperm : (l.map f).sum = ((held :: l.erase held).map f).sum :=
    ((List.perm_cons_erase h).map f).sum_eq
  rw [hperm, List.map_cons, List.sum_cons, List.map_cons, List.sum_cons, hsplit, Nat.add_assoc]

/-- A stake lowers no stake. -/
theorem le_stake (edges : Edges) (creditor debtor amount conferrable : Nat) (k : Nat × Nat) :
    OrdMap.getD' edges k 0 ≤
      OrdMap.getD' (Flow.stake edges creditor debtor amount conferrable) k 0 := by
  unfold Flow.stake
  dsimp only
  split_ifs
  · exact le_rfl
  · exact le_rfl
  · rw [OrdMap.getD'_insert]
    split
    · next heq =>
      obtain rfl := Std.LawfulEqOrd.eq_of_compare heq
      exact le_max_left _ _
    · exact le_rfl

/-- A reservation that is granted is recorded in full, and only that. -/
theorem exact_reserve (hnodup : (uw.map Prod.fst).Nodup) (h : b.Exact uw start)
    (debtor n amount : Nat) (ownSupply : Bool) :
    ((Call.reserve debtor n amount ownSupply).next uw b).Exact uw start := by
  unfold Call.next
  dsimp only
  split
  · next held reserved committed hreserve =>
    have huw : ∀ p ∈ uw, p.2 ≤ amountAt uw p.1 := fun p hp => (amountAt_of_mem hnodup hp).ge
    obtain ⟨-, hedges, hsupply, -⟩ := reserveInner_spec hnodup huw hreserve
    obtain ⟨rfl, rfl⟩ := reserveInner_some hreserve
    refine ⟨⟨fun k => ?_, fun u => ?_⟩, fun k => ?_, fun u => ?_⟩
    · have hfits := h.reserved k
      have hleft := hedges k
      dsimp only at hfits ⊢
      rw [getD'_addAll]
      omega
    · have hfits := h.committed u
      have hleft := hsupply u
      dsimp only at hfits ⊢
      rw [getD'_addAll]
      omega
    · have hbefore := h.onArc k
      unfold Books.onArc at hbefore ⊢
      rw [getD'_addAll, List.map_cons, List.sum_cons, hbefore]
      omega
    · have hbefore := h.drawn u
      unfold Books.drawn at hbefore ⊢
      rw [getD'_addAll, List.map_cons, List.sum_cons, hbefore]
      omega
  · next reserved committed hreserve =>
    obtain ⟨rfl, rfl⟩ := reserveInner_none hreserve
    exact ⟨⟨h.reserved, h.committed⟩, h.onArc, h.drawn⟩

/-- A piece of an outstanding hold leaves the books as it leaves the hold. -/
theorem exact_release (h : b.Exact uw start) {held piece rest : Held} (hmem : held ∈ b.outstanding)
    (hsplits : held.Splits piece rest) :
    ((Call.release held piece rest).next uw b).Exact uw start := by
  refine ⟨⟨fun k => ?_, fun u => ?_⟩, fun k => ?_, fun u => ?_⟩
  · exact le_trans (by unfold Call.next release; rw [getD'_takeAll]; exact Nat.sub_le _ _) (h.reserved k)
  · exact le_trans (by unfold Call.next release; rw [getD'_takeAll]; exact Nat.sub_le _ _) (h.committed u)
  · have hbefore := h.onArc k
    have hsum := sum_replace (fun h => amountAt h.edges k) hmem (hsplits.edges k)
    unfold Books.onArc at hbefore ⊢
    unfold Call.next release
    dsimp only at hsum ⊢
    rw [getD'_takeAll]
    omega
  · have hbefore := h.drawn u
    have hsum := sum_replace (fun h => amountAt h.supply u) hmem (hsplits.supply u)
    unfold Books.drawn at hbefore ⊢
    unfold Call.next release
    dsimp only at hsum ⊢
    rw [getD'_takeAll]
    omega

theorem exact_stake (h : b.Exact uw start) (creditor debtor amount conferrable : Nat) :
    ((Call.stake creditor debtor amount conferrable).next uw b).Exact uw start :=
  ⟨⟨fun k => (h.reserved k).trans (le_stake _ _ _ _ _ k), h.committed⟩, h.onArc, h.drawn⟩

/-- A hold lists no empty draw. -/
theorem reserveInner_positive {edges : Edges} {reserved reserved' : Reservations}
    {committed committed' : Committed} {debtor n amount : Nat} {ownSupply : Bool} {held : Held}
    (h : reserveInner edges reserved committed uw debtor n amount ownSupply =
      (some held, reserved', committed')) :
    (∀ p ∈ held.edges, 0 < p.2) ∧ ∀ p ∈ held.supply, 0 < p.2 := by
  unfold reserveInner at h
  split at h
  · obtain rfl := Option.some.inj (congrArg Prod.fst h)
    exact ⟨List.forall_mem_nil _, List.forall_mem_nil _⟩
  · dsimp only at h
    split at h
    · cases congrArg Prod.fst h
    · obtain rfl := Option.some.inj (congrArg Prod.fst h)
      exact ⟨fun p hp => of_decide_eq_true (List.mem_filter.1 hp).2,
        fun p hp => of_decide_eq_true (List.mem_filter.1 hp).2⟩

/-- No call leaves an empty entry in a book that has none. -/
theorem tidy_next (h : b.Tidy) (c : Call) : (c.next uw b).Tidy := by
  cases c with
  | reserve debtor n amount ownSupply =>
    unfold Call.next
    dsimp only
    split
    · next held reserved committed hreserve =>
      obtain ⟨hedges, hsupply⟩ := reserveInner_positive hreserve
      obtain ⟨rfl, rfl⟩ := reserveInner_some hreserve
      exact ⟨positive_addAll h.reserved hedges, positive_addAll h.committed hsupply⟩
    · next reserved committed hreserve =>
      obtain ⟨rfl, rfl⟩ := reserveInner_none hreserve
      exact ⟨h.reserved, h.committed⟩
  | release held piece rest => exact ⟨OrdMap.positive_positive _, OrdMap.positive_positive _⟩
  | stake creditor debtor amount conferrable => exact ⟨h.reserved, h.committed⟩

/-- A call keeps the books exact. -/
theorem exact_next (hnodup : (uw.map Prod.fst).Nodup) (c : Call) (h : b.Exact uw start)
    (hallowed : c.Allowed b) : (c.next uw b).Exact uw start := by
  cases c with
  | reserve debtor n amount ownSupply => exact exact_reserve hnodup h debtor n amount ownSupply
  | release held piece rest => exact exact_release h hallowed.1 hallowed.2
  | stake creditor debtor amount conferrable => exact exact_stake h creditor debtor amount conferrable

/-- Where everything outstanding is spent, the books are what they began with. -/
theorem restored (h : b.Exact uw start) (hspent : ∀ held ∈ b.outstanding, held.Spent) :
    OrdMap.positive b.reserved = OrdMap.positive start.reserved ∧
      OrdMap.positive b.committed = OrdMap.positive start.committed := by
  refine ⟨OrdMap.positive_ext fun k => ?_, OrdMap.positive_ext fun u => ?_⟩
  · have hnone : b.onArc k = 0 := by
      refine List.sum_eq_zero fun x hx => ?_
      obtain ⟨held, hheld, rfl⟩ := List.mem_map.1 hx
      exact (hspent held hheld).1 k
    rw [h.onArc k, hnone, Nat.add_zero]
  · have hnone : b.drawn u = 0 := by
      refine List.sum_eq_zero fun x hx => ?_
      obtain ⟨held, hheld, rfl⟩ := List.mem_map.1 hx
      exact (hspent held hheld).2 u
    rw [h.drawn u, hnone, Nat.add_zero]

/-- **Reserving and giving back in any order keep exact books.** They are the sums over what
is outstanding and stay within the stakes and the supplies; when all has come back they are
what they began with; and a reservation that is refused leaves them alone. -/
theorem exact_of_reaches (hnodup : (uw.map Prod.fst).Nodup) (hnew : start.outstanding = [])
    (hwithin : start.Within uw) (h : Reaches (Call.next uw) (· = start) Call.Allowed b) :
    b.Exact uw start ∧
      ((∀ held ∈ b.outstanding, held.Spent) →
        OrdMap.positive b.reserved = OrdMap.positive start.reserved ∧
          OrdMap.positive b.committed = OrdMap.positive start.committed ∧
          (start.Tidy → b.reserved = start.reserved ∧ b.committed = start.committed)) ∧
      ∀ debtor n amount ownSupply reserved committed,
        reserveInner b.edges b.reserved b.committed uw debtor n amount ownSupply =
          (none, reserved, committed) → reserved = b.reserved ∧ committed = b.committed := by
  have hexact : b.Exact uw start := by
    refine h.invariant ?_ fun c b hb hallowed => exact_next hnodup c hb hallowed
    intro s hs
    obtain rfl := hs
    refine ⟨hwithin, fun k => ?_, fun u => ?_⟩
    · rw [Books.onArc, hnew, List.map_nil, List.sum_nil, Nat.add_zero]
    · rw [Books.drawn, hnew, List.map_nil, List.sum_nil, Nat.add_zero]
  refine ⟨hexact, fun hspent => ?_, fun _ _ _ _ _ _ hnone => reserveInner_none hnone⟩
  obtain ⟨hreserved, hcommitted⟩ := restored hexact hspent
  refine ⟨hreserved, hcommitted, fun htidy => ?_⟩
  have htidied : b.Tidy := by
    refine h.invariant (I := Books.Tidy) ?_ fun c b hb _ => tidy_next hb c
    intro s hs
    obtain rfl := hs
    exact htidy
  rw [htidied.reserved, htidy.reserved] at hreserved
  rw [htidied.committed, htidy.committed] at hcommitted
  exact ⟨hreserved, hcommitted⟩

/-- One underwriter and one stake, with nothing reserved. -/
def oneStake : Books where
  edges := (∅ : Edges).insert (0, 1) 10
  reserved := ∅
  committed := ∅
  outstanding := []

/-- A hold of some units on the stake. -/
def onStake (amount : Nat) : Held where
  edges := [((0, 1), amount)]
  supply := [(0, amount)]

/-- Six units are reserved, and two of them given back. -/
def twoOfSix : List Call :=
  [.reserve 1 2 6 false, .release (onStake 6) (onStake 2) (onStake 4)]

theorem exact_twoOfSix :
    let b := twoOfSix.foldl (fun b c => c.next [(0, 20)] b) oneStake
    b.reserved.toList = [((0, 1), 4)] ∧ b.Exact [(0, 20)] oneStake := by
  have hwithin : oneStake.Within [(0, 20)] := by
    refine ⟨fun k => ?_, fun u => ?_⟩
    · unfold oneStake
      rw [OrdMap.getD', Std.ExtTreeMap.getElem?_empty]
      exact Nat.zero_le _
    · unfold oneStake
      rw [OrdMap.getD', Std.ExtTreeMap.getElem?_empty]
      exact Nat.zero_le _
  have hsplits : (onStake 6).Splits (onStake 2) (onStake 4) := by
    refine ⟨fun k => ?_, fun u => ?_⟩
    · rcases eq_or_ne (0, 1) k with rfl | hk
      · rfl
      · simp [onStake, hk]
    · rcases eq_or_ne 0 u with rfl | hu
      · rfl
      · simp [onStake, hu]
  have hallowed : Reaches.Admits (Call.next [(0, 20)]) Call.Allowed twoOfSix oneStake :=
    ⟨trivial, ⟨by decide +kernel, hsplits⟩, trivial⟩
  have hstart : Reaches (Call.next [(0, 20)]) (· = oneStake) Call.Allowed oneStake := .start rfl
  exact ⟨by decide +kernel,
    (exact_of_reaches (by decide) rfl hwithin (hstart.of_list twoOfSix hallowed)).1⟩

end Edet.Flow
