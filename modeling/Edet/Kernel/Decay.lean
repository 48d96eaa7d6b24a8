import Edet.Kernel.MaxFlow
import Edet.Kernel.Outstanding

/-!
# Fading stakes

What a query answers rises with the stakes and the supplies and falls with what is reserved and
committed (`capacityInner_mono`): a flow within what is left on one set of books is one within
what is left on another that leaves more. This holds whatever the supplies sum to, so a query is
compared here with the largest flow through the arcs to the sink as they are, capped at
`unbounded` (`flow_eq_min_throughSink`).

A stake that fades stays at what is reserved on it, so that what is left on it does not rise and
no hold loses what it stands on. Sequences of moves follow by their first step: decays and
reservations leave less (`Books.Leaves`), stakes and releases leave more.
-/

namespace Edet.NetworkFlow

variable {V : Type*} [DecidableEq V] {N N' : Network V} {S : Set V}

/-- A flow is one within larger capacities and supplies. -/
def FlowInto.mono (hcap : N.cap ≤ N'.cap) (hsupply : N.supply ≤ N'.supply) (f : FlowInto N S) :
    FlowInto N' S where
  amount := f.amount
  draw := f.draw
  amount_le := f.amount_le.trans hcap
  draw_le := f.draw_le.trans hsupply
  balanced := f.balanced

end Edet.NetworkFlow

namespace Edet.Flow

open NetworkFlow

/-! ### A query as a flow through the sink -/

namespace Network

section ThroughSink

variable (edges : Edges) (reserved : Reservations) (committed : Committed) (uw : Underwriters)
  (targets : List Nat) (n : Nat) (ownSupply : Bool) (limit : Nat)

/-- What is left on the stakes and of the supplies, with the arcs to the sink. -/
noncomputable def throughSink : NetworkFlow.Network Nat where
  cap := listFlow (ledgerArcs edges reserved n) + listFlow (sinkArcs targets n)
  supply := listFlow (supplyArcs uw committed targets n ownSupply)

/-- What flows, as a flow into the sink. -/
noncomputable def flowToSink :
    FlowInto (throughSink edges reserved committed uw targets n ownSupply) {n + 1} :=
  let net := build edges reserved committed uw targets n ownSupply
  let after := (net.flow limit).1.cap
  let stakes := ledgerArcs edges reserved n
  let supplies := supplyArcs uw committed targets n ownSupply
  { amount := listFlow (amounts net.cap after (stakes.map Prod.fst) 0) +
      listFlow (amounts net.cap after ((sinkArcs targets n).map Prod.fst)
        (stakes.length + supplies.length))
    draw := listFlow (amounts net.cap after (supplies.map Prod.fst) stakes.length)
    amount_le := by
      refine add_le_add (fun k => ?_) fun k => ?_
      · rw [listFlow_apply, listFlow_apply]
        exact amountAt_amounts_le (fun i e he =>
          (entry_stake edges reserved committed uw targets n ownSupply limit he).le) k
      · rw [listFlow_apply, listFlow_apply]
        exact amountAt_amounts_le (fun i e he =>
          (entry_sink edges reserved committed uw targets n ownSupply limit he).le) k
    draw_le := by
      intro k
      show listFlow _ k ≤ listFlow _ k
      rw [listFlow_apply, listFlow_apply]
      exact amountAt_amounts_le (fun i e he =>
        (entry_supply edges reserved committed uw targets n ownSupply limit he).le) k
    balanced := fun v hv =>
      (circulation_flow edges reserved committed uw targets n limit ownSupply).1 v hv }

theorem drawn_flowToSink :
    (flowToSink edges reserved committed uw targets n ownSupply limit).drawn =
      ((build edges reserved committed uw targets n ownSupply).flow limit).2 := by
  rw [(circulation_flow edges reserved committed uw targets n limit ownSupply).2, ← degree_listFlow]
  rfl

/-- Where less than the limit flows, the sink is cut off by arcs that are full. -/
theorem cut_flowToSink
    (hlt : ((build edges reserved committed uw targets n ownSupply).flow limit).2 < limit) :
    ∃ T, {n + 1} ⊆ T ∧
      (flowToSink edges reserved committed uw targets n ownSupply limit).drawn =
        (throughSink edges reserved committed uw targets n ownSupply).wholeCut T := by
  have hw := wired_build edges reserved committed uw targets n ownSupply
  have haug := augments_flow hw.paired hw.ends hw.indexed limit
  have hw' := hw.augments haug
  have hlevels := (flowLoop_ends hw (Nat.zero_le limit) (Nat.zero_add limit).ge).2 hlt
  obtain ⟨R, hsrc, hsnk, hclosed⟩ := cut_of_levels hw'.bounded hw'.source hlevels
  have hsrc' : n ∈ R := by
    rw [haug.same] at hsrc
    rwa [← src_build edges reserved committed uw targets n ownSupply]
  have hsnk' : n + 1 ∉ R := by
    rw [haug.same] at hsnk
    rwa [← snk_build edges reserved committed uw targets n ownSupply]
  have hST : ({n + 1} : Set Nat) ⊆ Rᶜ := by
    intro v hv
    rw [Set.mem_singleton_iff] at hv
    exact hv ▸ hsnk'
  refine ⟨Rᶜ, hST, FlowInto.drawn_eq_wholeCut _ hST (fun a ha hb => ?_) (fun a ha hb => ?_)
    fun v hv => ?_⟩
  · show listFlow _ a + listFlow _ a = listFlow _ a + listFlow _ a
    rw [listFlow_apply, listFlow_apply, listFlow_apply, listFlow_apply]
    refine congrArg₂ _ (amountAt_amounts_full fun i e he heq => ?_)
      (amountAt_amounts_full fun i e he heq => ?_)
    · subst heq
      exact (entry_stake edges reserved committed uw targets n ownSupply limit he).full hclosed
        (not_not.1 ha) hb
    · subst heq
      exact (entry_sink edges reserved committed uw targets n ownSupply limit he).full hclosed
        (not_not.1 ha) hb
  · show listFlow _ a + listFlow _ a = 0
    rw [listFlow_apply, listFlow_apply, Nat.add_eq_zero_iff]
    refine ⟨amountAt_amounts_none fun i e he heq => ?_, amountAt_amounts_none fun i e he heq => ?_⟩
    · subst heq
      exact (entry_stake edges reserved committed uw targets n ownSupply limit he).none hclosed
        ha (not_not.1 hb)
    · subst heq
      exact (entry_sink edges reserved committed uw targets n ownSupply limit he).none hclosed
        ha (not_not.1 hb)
  · show listFlow _ v = listFlow _ v
    rw [listFlow_apply, listFlow_apply]
    refine amountAt_amounts_full fun i e he heq => ?_
    subst heq
    exact (entry_supply edges reserved committed uw targets n ownSupply limit he).full hclosed
      hsrc' hv

/-- A flow is the largest there is through the arcs to the sink, up to its limit. -/
theorem flow_eq_min_throughSink : ∃ M,
    IsGreatest {x | ∃ f : FlowInto (throughSink edges reserved committed uw targets n ownSupply)
      {n + 1}, f.drawn = x} M ∧
    ∀ limit, ((build edges reserved committed uw targets n ownSupply).flow limit).2 = min limit M := by
  have hfree := flow_le_supplies edges reserved committed uw targets n ownSupply
    ((uw.map Prod.snd).sum + 1)
  obtain ⟨T, hST, hcut⟩ := cut_flowToSink edges reserved committed uw targets n ownSupply
    ((uw.map Prod.snd).sum + 1) (Nat.lt_succ_of_le hfree)
  obtain ⟨hgreatest, hleast⟩ := FlowInto.optimal _ hST hcut
  refine ⟨_, hgreatest, fun limit => ?_⟩
  have hle := flow_le (build edges reserved committed uw targets n ownSupply) limit
  have hmax := hgreatest.2 ⟨flowToSink edges reserved committed uw targets n ownSupply limit, rfl⟩
  rw [drawn_flowToSink] at hmax
  rcases hle.lt_or_eq with hlt | heq
  · obtain ⟨U, hU, hcut'⟩ := cut_flowToSink edges reserved committed uw targets n ownSupply limit hlt
    have hmin := hleast.2 ⟨U, hU, hcut'.symm⟩
    rw [drawn_flowToSink edges reserved committed uw targets n ownSupply limit] at hmin
    rw [le_antisymm hmax hmin] at hlt ⊢
    exact (min_eq_right hlt.le).symm
  · rw [heq] at hmax ⊢
    exact (min_eq_left hmax).symm

end ThroughSink

end Network

/-! ### Monotonicity -/

section Mono

open Network

variable {edges edges' : Edges} {reserved reserved' : Reservations} {committed committed' : Committed}
  {supplies supplies' : OrdMap Nat Nat}

theorem nodup_supplies (supplies : OrdMap Nat Nat) : (supplies.toList.map Prod.fst).Nodup :=
  OrdMap.nodup_keys supplies

/-- A query answers no less on books that leave no less. -/
theorem capacityInner_mono
    (hedges : ∀ k, OrdMap.getD' edges k 0 - OrdMap.getD' reserved k 0 ≤
      OrdMap.getD' edges' k 0 - OrdMap.getD' reserved' k 0)
    (hsupplies : ∀ u, OrdMap.getD' supplies u 0 - OrdMap.getD' committed u 0 ≤
      OrdMap.getD' supplies' u 0 - OrdMap.getD' committed' u 0)
    (targets : List Nat) (n limit : Nat) (ownSupply : Bool) :
    capacityInner edges reserved committed supplies.toList targets n limit ownSupply ≤
      capacityInner edges' reserved' committed' supplies'.toList targets n limit ownSupply := by
  have hcap : (throughSink edges reserved committed supplies.toList targets n ownSupply).cap ≤
      (throughSink edges' reserved' committed' supplies'.toList targets n ownSupply).cap := by
    refine add_le_add (fun k => ?_) le_rfl
    show (leftOver edges reserved committed supplies.toList targets n ownSupply).cap k ≤
      (leftOver edges' reserved' committed' supplies'.toList targets n ownSupply).cap k
    rw [leftOver_cap, leftOver_cap]
    split
    · exact hedges k
    · exact le_rfl
  have hsupply : (throughSink edges reserved committed supplies.toList targets n ownSupply).supply ≤
      (throughSink edges' reserved' committed' supplies'.toList targets n ownSupply).supply := by
    intro u
    show (leftOver edges reserved committed supplies.toList targets n ownSupply).supply u ≤
      (leftOver edges' reserved' committed' supplies'.toList targets n ownSupply).supply u
    rw [leftOver_supply (nodup_supplies supplies), leftOver_supply (nodup_supplies supplies')]
    split
    · rw [amountAt_toList, amountAt_toList]
      exact hsupplies u
    · exact le_rfl
  unfold capacityInner
  split
  · exact le_rfl
  · obtain ⟨M, hM, hflow⟩ :=
      flow_eq_min_throughSink edges reserved committed supplies.toList targets n ownSupply
    obtain ⟨M', hM', hflow'⟩ :=
      flow_eq_min_throughSink edges' reserved' committed' supplies'.toList targets n ownSupply
    rw [hflow, hflow']
    obtain ⟨f, hf⟩ := hM.1
    have hle : M ≤ M' := hf ▸ hM'.2 ⟨f.mono hcap hsupply, rfl⟩
    exact min_le_min le_rfl hle

end Mono

/-! ### One decay -/

section Decay

variable (edges : Edges) (reserved : Reservations) (num den : Nat) (k : Nat × Nat)

/-- A stake after a decay: as it was, or faded and no less than what is reserved on it. -/
theorem getD'_decay : OrdMap.getD' (decay edges reserved num den) k 0 = OrdMap.getD' edges k 0 ∨
    num < den ∧ OrdMap.getD' (decay edges reserved num den) k 0 =
      max (OrdMap.getD' edges k 0 * num / den) (OrdMap.getD' reserved k 0) := by
  unfold decay
  split
  · exact .inl rfl
  · next h =>
    rw [OrdMap.getD'_positive, OrdMap.getD', Std.ExtTreeMap.getElem?_map, OrdMap.getD'_eq edges]
    cases edges[k]? with
    | none => exact .inl rfl
    | some w => exact .inr ⟨by omega, rfl⟩

/-- A decay leaves a stake at what is reserved on it or more. -/
theorem reserved_le_decay (h : OrdMap.getD' reserved k 0 ≤ OrdMap.getD' edges k 0) :
    OrdMap.getD' reserved k 0 ≤ OrdMap.getD' (decay edges reserved num den) k 0 := by
  rcases getD'_decay edges reserved num den k with heq | ⟨-, heq⟩
  · rwa [heq]
  · rw [heq]
    exact le_max_right _ _

theorem faded_le (w : Nat) (h : num < den) : w * num / den ≤ w := by
  calc w * num / den ≤ w * den / den := Nat.div_le_div_right (Nat.mul_le_mul_left w h.le)
    _ = w := Nat.mul_div_cancel w (Nat.zero_lt_of_lt h)

/-- What is left on a stake does not rise. -/
theorem left_decay_le : OrdMap.getD' (decay edges reserved num den) k 0 - OrdMap.getD' reserved k 0 ≤
    OrdMap.getD' edges k 0 - OrdMap.getD' reserved k 0 := by
  rcases getD'_decay edges reserved num den k with heq | ⟨hlt, heq⟩
  · rw [heq]
  · have hfaded := faded_le num den (OrdMap.getD' edges k 0) hlt
    rw [heq]
    omega

/-- Nor does the stake, where no more is reserved on it than is staked. -/
theorem decay_le (h : OrdMap.getD' reserved k 0 ≤ OrdMap.getD' edges k 0) :
    OrdMap.getD' (decay edges reserved num den) k 0 ≤ OrdMap.getD' edges k 0 := by
  have hleft := left_decay_le edges reserved num den k
  have hkept := reserved_le_decay edges reserved num den k h
  omega

end Decay

/-! ### Moves on the books -/

inductive Move
  | decay (num den : Nat)
  | call (c : Call)

def Move.next (uw : Underwriters) : Move → Books → Books
  | .decay num den, b => { b with edges := Flow.decay b.edges b.reserved num den }
  | .call c, b => c.next uw b

def Move.run (uw : Underwriters) (moves : List Move) (b : Books) : Books :=
  moves.foldl (fun b m => m.next uw b) b

/-- Decays and reservations. -/
def Move.Lowers : Move → Prop
  | .decay _ _ | .call (.reserve _ _ _ _) => True
  | _ => False

/-- Stakes and releases. -/
def Move.Raises : Move → Prop
  | .call (.stake _ _ _ _) | .call (.release _ _ _) => True
  | _ => False

/-- What a query answers on the books. -/
def Books.capacity (supplies : OrdMap Nat Nat) (b : Books) (targets : List Nat) (n limit : Nat)
    (ownSupply : Bool) : Nat :=
  capacityInner b.edges b.reserved b.committed supplies.toList targets n limit ownSupply

/-- The second books leave no more than the first. -/
structure Books.Leaves (b b' : Books) : Prop where
  edges : ∀ k, OrdMap.getD' b'.edges k 0 - OrdMap.getD' b'.reserved k 0 ≤
    OrdMap.getD' b.edges k 0 - OrdMap.getD' b.reserved k 0
  committed : ∀ u, OrdMap.getD' b.committed u 0 ≤ OrdMap.getD' b'.committed u 0

namespace Books.Leaves

variable {b b' b'' : Books} {uw : Underwriters}

theorem refl (b : Books) : b.Leaves b := ⟨fun _ => le_rfl, fun _ => le_rfl⟩

theorem trans (h : b.Leaves b') (h' : b'.Leaves b'') : b.Leaves b'' :=
  ⟨fun k => (h'.edges k).trans (h.edges k), fun u => (h.committed u).trans (h'.committed u)⟩

theorem capacity_le (h : b.Leaves b') (supplies : OrdMap Nat Nat) (targets : List Nat) (n limit : Nat)
    (ownSupply : Bool) :
    b'.capacity supplies targets n limit ownSupply ≤ b.capacity supplies targets n limit ownSupply :=
  capacityInner_mono h.edges (fun u => Nat.sub_le_sub_left (h.committed u) _) targets n limit ownSupply

/-- A move that lowers leaves no more. -/
theorem of_lowers {m : Move} (h : m.Lowers) (b : Books) : b.Leaves (m.next uw b) := by
  cases m with
  | decay num den => exact ⟨left_decay_le b.edges b.reserved num den, fun _ => le_rfl⟩
  | call c =>
    cases c with
    | stake => cases h
    | release => cases h
    | reserve debtor n amount ownSupply =>
      show b.Leaves ((Call.reserve debtor n amount ownSupply).next uw b)
      unfold Call.next
      dsimp only
      split
      · next held reserved committed hreserve =>
        obtain ⟨rfl, rfl⟩ := reserveInner_some hreserve
        refine ⟨fun k => ?_, fun u => ?_⟩
        · dsimp only
          rw [getD'_addAll]
          omega
        · dsimp only
          rw [getD'_addAll]
          omega
      · next reserved committed hreserve =>
        obtain ⟨rfl, rfl⟩ := reserveInner_none hreserve
        exact ⟨fun _ => le_rfl, fun _ => le_rfl⟩

/-- A move that raises leaves no less. -/
theorem of_raises {m : Move} (h : m.Raises) (b : Books) : (m.next uw b).Leaves b := by
  cases m with
  | decay => cases h
  | call c =>
    cases c with
    | reserve => cases h
    | stake creditor debtor amount conferrable =>
      exact ⟨fun k => Nat.sub_le_sub_right (le_stake _ _ _ _ _ k) _, fun _ => le_rfl⟩
    | release held piece rest =>
      refine ⟨fun k => ?_, fun u => ?_⟩
      · show _ ≤ _ - OrdMap.getD' (takeAll b.reserved piece.edges) k 0
        rw [getD'_takeAll]
        exact Nat.sub_le_sub_left (Nat.sub_le _ _) _
      · show OrdMap.getD' (takeAll b.committed piece.supply) u 0 ≤ _
        rw [getD'_takeAll]
        exact Nat.sub_le _ _

theorem run_lowers {moves : List Move} (h : ∀ m ∈ moves, m.Lowers) (b : Books) :
    b.Leaves (Move.run uw moves b) := by
  induction moves generalizing b with
  | nil => exact refl b
  | cons m moves ih =>
    obtain ⟨hm, hmoves⟩ := List.forall_mem_cons.1 h
    exact (of_lowers hm b).trans (ih hmoves _)

theorem run_raises {moves : List Move} (h : ∀ m ∈ moves, m.Raises) (b : Books) :
    (Move.run uw moves b).Leaves b := by
  induction moves generalizing b with
  | nil => exact refl b
  | cons m moves ih =>
    obtain ⟨hm, hmoves⟩ := List.forall_mem_cons.1 h
    exact (ih hmoves _).trans (of_raises hm b)

end Books.Leaves

/-! ### Decays one after another -/

/-- Decays by a list of ratios. -/
def Books.fade (ratios : List (Nat × Nat)) (b : Books) : Books :=
  ratios.foldl (fun b r => (Move.decay r.1 r.2).next [] b) b

/-- What is given back is, or is part of, something outstanding. -/
def Move.Allowed : Move → Books → Prop
  | .decay _ _, _ => True
  | .call c, b => c.Allowed b

/-- A decay moves nothing but the stakes, and every hold stays within them. -/
theorem exact_decay {uw : Underwriters} {b start : Books} (h : b.Exact uw start) (num den : Nat) :
    ((Move.decay num den).next uw b).Exact uw start :=
  ⟨⟨fun k => reserved_le_decay _ _ num den k (h.reserved k), h.committed⟩, h.onArc, h.drawn⟩

/-- Books are exact after any moves, and so they are when their stakes have faded. -/
theorem exact_of_moves {uw : Underwriters} {b start : Books} (hnodup : (uw.map Prod.fst).Nodup)
    (hnew : start.outstanding = []) (hwithin : start.Within uw)
    (h : Reaches (Move.next uw) (· = start) Move.Allowed b) : b.Exact uw start := by
  refine h.invariant (I := fun b => b.Exact uw start) ?_ fun m b hb hallowed => ?_
  · rintro s rfl
    refine ⟨hwithin, fun k => ?_, fun u => ?_⟩
    · rw [Books.onArc, hnew, List.map_nil, List.sum_nil, Nat.add_zero]
    · rw [Books.drawn, hnew, List.map_nil, List.sum_nil, Nat.add_zero]
  · cases m with
    | decay num den => exact exact_decay hb num den
    | call c => exact exact_next hnodup c hb hallowed

theorem exact_fade {uw : Underwriters} {b start : Books} (h : b.Exact uw start)
    (ratios : List (Nat × Nat)) : (b.fade ratios).Exact uw start := by
  induction ratios generalizing b with
  | nil => exact h
  | cons r ratios ih => exact ih (exact_decay h r.1 r.2)

/-- What decays do to the books: the reservations stay, and so do the stakes they need. -/
theorem fade_spec (ratios : List (Nat × Nat)) (b : Books) :
    ((b.fade ratios).reserved = b.reserved ∧ (b.fade ratios).committed = b.committed ∧
      (b.fade ratios).outstanding = b.outstanding) ∧
    ∀ k, OrdMap.getD' b.reserved k 0 ≤ OrdMap.getD' b.edges k 0 →
      OrdMap.getD' b.reserved k 0 ≤ OrdMap.getD' (b.fade ratios).edges k 0 ∧
        OrdMap.getD' (b.fade ratios).edges k 0 ≤ OrdMap.getD' b.edges k 0 := by
  induction ratios generalizing b with
  | nil => exact ⟨⟨rfl, rfl, rfl⟩, fun k h => ⟨h, le_rfl⟩⟩
  | cons r ratios ih =>
    obtain ⟨hbooks, hstakes⟩ := ih ((Move.decay r.1 r.2).next [] b)
    refine ⟨hbooks, fun k h => ?_⟩
    have hkept := reserved_le_decay b.edges b.reserved r.1 r.2 k h
    obtain ⟨hkept', hle⟩ := hstakes k hkept
    exact ⟨hkept', hle.trans (decay_le b.edges b.reserved r.1 r.2 k h)⟩

/-- **Decay breaks no promise.** However often the stakes fade, nothing is reserved or given back,
every stake stays at what is reserved on it, the holds stay within the books, and no set of
members reaches more, gross or of what is left. Books that began empty of holds and moved in any
way are such books, and what is reserved on them is what is outstanding, before and after they
fade. A query rises with the stakes and the supplies and falls with the reservations, so that
decays and reservations in any order never raise it, and stakes and releases never lower it. -/
theorem fade_keeps_promises :
    (∀ (supplies : OrdMap Nat Nat) (b : Books) (ratios : List (Nat × Nat)),
      ((b.fade ratios).reserved = b.reserved ∧ (b.fade ratios).committed = b.committed ∧
        (b.fade ratios).outstanding = b.outstanding) ∧
      (∀ k, OrdMap.getD' b.reserved k 0 ≤ OrdMap.getD' b.edges k 0 →
        OrdMap.getD' b.reserved k 0 ≤ OrdMap.getD' (b.fade ratios).edges k 0) ∧
      (∀ targets n limit ownSupply, (b.fade ratios).capacity supplies targets n limit ownSupply ≤
        b.capacity supplies targets n limit ownSupply) ∧
      (b.Within supplies.toList → (b.fade ratios).Within supplies.toList ∧
        ∀ targets n limit ownSupply,
          capacityInner (b.fade ratios).edges ∅ ∅ supplies.toList targets n limit ownSupply ≤
            capacityInner b.edges ∅ ∅ supplies.toList targets n limit ownSupply)) ∧
    (∀ (uw : Underwriters) (start b : Books) (ratios : List (Nat × Nat)),
      (uw.map Prod.fst).Nodup → start.outstanding = [] → start.Within uw →
      Reaches (Move.next uw) (· = start) Move.Allowed b →
      b.Exact uw start ∧ (b.fade ratios).Exact uw start) ∧
    (∀ (edges edges' : Edges) (reserved reserved' : Reservations) (committed committed' : Committed)
      (supplies supplies' : OrdMap Nat Nat) targets n limit ownSupply,
      (∀ k, OrdMap.getD' edges k 0 ≤ OrdMap.getD' edges' k 0) →
      (∀ k, OrdMap.getD' reserved' k 0 ≤ OrdMap.getD' reserved k 0) →
      (∀ u, OrdMap.getD' committed' u 0 ≤ OrdMap.getD' committed u 0) →
      (∀ u, OrdMap.getD' supplies u 0 ≤ OrdMap.getD' supplies' u 0) →
      capacityInner edges reserved committed supplies.toList targets n limit ownSupply ≤
        capacityInner edges' reserved' committed' supplies'.toList targets n limit ownSupply) ∧
    ∀ (supplies : OrdMap Nat Nat) (b : Books) (moves : List Move),
      let b' := Move.run supplies.toList moves b
      ((∀ m ∈ moves, m.Lowers) → ∀ targets n limit ownSupply,
        b'.capacity supplies targets n limit ownSupply ≤ b.capacity supplies targets n limit ownSupply) ∧
      ((∀ m ∈ moves, m.Raises) → ∀ targets n limit ownSupply,
        b.capacity supplies targets n limit ownSupply ≤
          b'.capacity supplies targets n limit ownSupply) := by
  refine ⟨fun supplies b ratios => ?_, fun uw start b ratios hnodup hnew hwithin hreach => ?_, ?_,
    fun supplies b moves => ⟨fun h => ?_, fun h => ?_⟩⟩
  · obtain ⟨hbooks, hstakes⟩ := fade_spec ratios b
    have hreserved := hbooks.1
    have hcommitted := hbooks.2.1
    have hlowers : ∀ m ∈ ratios.map fun r => Move.decay r.1 r.2, m.Lowers := by
      intro m hm
      obtain ⟨r, -, rfl⟩ := List.mem_map.1 hm
      trivial
    have hleaves : b.Leaves (b.fade ratios) := by
      have hrun : b.Leaves (Move.run [] (ratios.map fun r => Move.decay r.1 r.2) b) :=
        Books.Leaves.run_lowers hlowers b
      unfold Move.run at hrun
      rwa [List.foldl_map] at hrun
    refine ⟨hbooks, fun k h => (hstakes k h).1, hleaves.capacity_le supplies, fun hwithin => ⟨?_, ?_⟩⟩
    · refine ⟨fun k => ?_, fun u => ?_⟩
      · rw [hreserved]
        exact (hstakes k (hwithin.reserved k)).1
      · rw [hcommitted]
        exact hwithin.committed u
    · refine capacityInner_mono (fun k => Nat.sub_le_sub_right ?_ _) fun u => le_rfl
      exact (hstakes k (hwithin.reserved k)).2
  · have hexact : b.Exact uw start := exact_of_moves hnodup hnew hwithin hreach
    exact ⟨hexact, exact_fade hexact ratios⟩
  · intro edges edges' reserved reserved' committed committed' supplies supplies' targets n limit
      ownSupply hedges hreserved hcommitted hsupplies
    exact capacityInner_mono (fun k => tsub_le_tsub (hedges k) (hreserved k))
      (fun u => tsub_le_tsub (hsupplies u) (hcommitted u)) targets n limit ownSupply
  · exact (Books.Leaves.run_lowers h b).capacity_le supplies
  · exact (Books.Leaves.run_raises h b).capacity_le supplies

/-- Six of a stake of ten are reserved and the stake fades to its half: it stays at six, and a
query that answered four answers nothing. -/
theorem fade_keeps_promises_held :
    let supplies : OrdMap Nat Nat := (∅ : OrdMap Nat Nat).insert 0 20
    let held : Books := { oneStake with reserved := (∅ : Reservations).insert (0, 1) 6 }
    held.capacity supplies [1] 2 100 false = 4 ∧
      (held.fade [(1, 2)]).edges.toList = [((0, 1), 6)] ∧
      (held.fade [(1, 2)]).capacity supplies [1] 2 100 false = 0 ∧
      (held.fade [(1, 2)]).capacity supplies [1] 2 100 false ≤
        held.capacity supplies [1] 2 100 false ∧
      (oneStake.fade [(1, 2)]).Exact [(0, 20)] oneStake := by
  intro supplies held
  have hwithin : oneStake.Within [(0, 20)] := by
    refine ⟨fun k => ?_, fun u => ?_⟩
    · unfold oneStake
      rw [OrdMap.getD', Std.ExtTreeMap.getElem?_empty]
      exact Nat.zero_le _
    · unfold oneStake
      rw [OrdMap.getD', Std.ExtTreeMap.getElem?_empty]
      exact Nat.zero_le _
  obtain ⟨hfade, hmoves, -⟩ := fade_keeps_promises
  obtain ⟨-, -, hcapacity, -⟩ := hfade supplies held [(1, 2)]
  exact ⟨by decide +kernel, by decide +kernel, by decide +kernel, hcapacity [1] 2 100 false,
    (hmoves [(0, 20)] oneStake oneStake [(1, 2)] (by decide) rfl hwithin (.start rfl)).2⟩

end Edet.Flow
