import Edet.Kernel.Blocking
import Edet.Kernel.Cut
import Edet.Library.MinCut

/-!
# A query is a largest flow

Every phase moves something, so that the phases end at the limit or where the sink is cut off
(`flowLoop_ends`). What has moved then is a flow into the targets, within what is left on the
stakes and of the supplies (`flowInto`); and where the sink is cut off, it fills every arc and
every supply across the cut (`cut_flowInto`). So a query is the largest flow, which is the
least cut, up to its limit (`capacityInner_eq_min`), whatever the order of its arguments, and
a reservation is granted just where the query says that it can be (`reserveInner_isSome`).
-/

namespace Edet.Flow

open NetworkFlow

namespace Network

variable {net net' : Network} {arcs : List (Nat × Nat)}

theorem Wired.augments (hw : net.Wired arcs) {x : Nat} (h : Augments arcs net net' x) :
    net'.Wired arcs := by
  rw [h.same]
  exact hw.of_cap h.pushed.length

/-- **The phases end**, whatever number of them is allowed beyond the limit, at the limit or
where the sink is cut off. -/
theorem flowLoop_ends (hw : net.Wired arcs) {limit fuel total : Nat} (hle : total ≤ limit)
    (hfuel : limit ≤ total + fuel) :
    (∀ more, flowLoop limit (fuel + more) net total = flowLoop limit fuel net total) ∧
      ((flowLoop limit fuel net total).2 < limit →
        (flowLoop limit fuel net total).1.levels = none) := by
  have hdone : ∀ m, limit ≤ total → flowLoop limit m net total = (net, total) := by
    intro m hlimit
    cases m with
    | zero => rfl
    | succ m => rw [flowLoop, if_neg (not_lt.2 hlimit)]
  induction fuel generalizing net total with
  | zero =>
    have hlimit : limit ≤ total := hfuel
    refine ⟨fun more => ?_, fun hlt => absurd hlt (not_lt.2 ?_)⟩
    · rw [hdone _ hlimit, hdone _ hlimit]
    · rw [hdone _ hlimit]
      exact hlimit
  | succ fuel ih =>
    have hshift : ∀ more, fuel + 1 + more = fuel + more + 1 := fun more => Nat.add_right_comm _ _ _
    rcases Nat.lt_or_ge total limit with hlt | hlimit
    · cases hlevels : net.levels with
      | none =>
        have hequal : ∀ m, flowLoop limit (m + 1) net total = (net, total) := fun m => by
          rw [flowLoop, if_pos hlt, hlevels]
        rw [hequal]
        exact ⟨fun more => by rw [hshift, hequal], fun _ => hlevels⟩
      | some level =>
        -- The phase moves something, so that as many phases as the limit are enough.
        have hmoves := lt_phase hw hlevels hlt
        have hphase := blockingLoop_le level net.phaseFuel net
          (List.replicate net.heads.length 0) [] net.src hle
        obtain ⟨moved, haug, -⟩ := @augments_blockingLoop arcs level limit net.phaseFuel net
          hw.paired hw.ends hw.indexed (List.replicate net.heads.length 0) [] net.src rfl
          (List.forall_mem_nil _) total
        have hequal : ∀ m, flowLoop limit (m + 1) net total =
            flowLoop limit m
              (blockingLoop level limit net.phaseFuel net (List.replicate net.heads.length 0) []
                net.src total).1
              (blockingLoop level limit net.phaseFuel net (List.replicate net.heads.length 0) []
                net.src total).2 := fun m => by
          rw [flowLoop, if_pos hlt, hlevels]
        generalize blockingLoop level limit net.phaseFuel net (List.replicate net.heads.length 0) []
          net.src total = out at hmoves hphase haug hequal
        obtain ⟨hmore, hcut⟩ := @ih out.1 (hw.augments haug) out.2 hphase (by omega) (by
          intro m hlimit
          cases m with
          | zero => rfl
          | succ m => rw [flowLoop, if_neg (not_lt.2 hlimit)])
        rw [hequal]
        exact ⟨fun more => by rw [hshift, hequal, hmore], hcut⟩
    · refine ⟨fun more => ?_, fun hlt => absurd hlt (not_lt.2 ?_)⟩
      · rw [hdone _ hlimit, hdone _ hlimit]
      · rw [hdone _ hlimit]
        exact hlimit

/-! ### The network of a query -/

section Build

variable (edges : Edges) (reserved : Reservations) (committed : Committed) (uw : Underwriters)
  (targets : List Nat) (n : Nat) (ownSupply : Bool)

theorem src_build : (build edges reserved committed uw targets n ownSupply).src = n := by
  rw [build_eq]
  rfl

theorem snk_build : (build edges reserved committed uw targets n ownSupply).snk = n + 1 := by
  rw [build_eq]
  rfl

theorem length_heads_build :
    (build edges reserved committed uw targets n ownSupply).heads.length = n + 2 := by
  rw [build_eq]
  show (List.map _ (List.range (n + 2))).length = n + 2
  rw [List.length_map, List.length_range]

theorem out_build {u : Nat} (hu : u < n + 2) :
    (build edges reserved committed uw targets n ownSupply).out u =
      (List.range (build edges reserved committed uw targets n ownSupply).tail.length).filter
        fun a => (build edges reserved committed uw targets n ownSupply).tail.getD a 0 = u := by
  have hheads : (build edges reserved committed uw targets n ownSupply).heads =
      (List.range (n + 2)).map fun u =>
        (List.range (build edges reserved committed uw targets n ownSupply).tail.length).filter
          fun a => (build edges reserved committed uw targets n ownSupply).tail.getD a 0 = u := rfl
  unfold out
  rw [hheads, List.getD_eq_getElem?_getD, List.getElem?_map, List.getElem?_range hu]
  rfl

theorem forward_ends {e : (Nat × Nat) × Nat}
    (he : e ∈ forward edges reserved committed uw targets n ownSupply) :
    e.1.1 < n + 2 ∧ e.1.2 < n + 2 := by
  rcases List.mem_append.1 he with he | he
  · rcases List.mem_append.1 he with he | he
    · obtain ⟨d, hd, rfl⟩ := List.mem_map.1 he
      have := of_decide_eq_true (List.mem_filter.1 hd).2
      dsimp only
      omega
    · obtain ⟨w, hw, rfl⟩ := List.mem_map.1 he
      obtain ⟨d, hd, rfl⟩ := List.mem_map.1 hw
      have := (of_decide_eq_true (List.mem_filter.1 hd).2).1
      dsimp only
      omega
  · obtain ⟨t, ht, rfl⟩ := List.mem_map.1 he
    have := of_decide_eq_true (List.mem_filter.1 ht).2
    dsimp only
    omega

theorem end_lt {i : Nat} (hi : i < (forward edges reserved committed uw targets n ownSupply).length) :
    (((forward edges reserved committed uw targets n ownSupply).map Prod.fst).getD i (0, 0)).1 < n + 2 ∧
      (((forward edges reserved committed uw targets n ownSupply).map Prod.fst).getD i (0, 0)).2 <
        n + 2 := by
  rw [List.getD_eq_getElem _ _ (by rwa [List.length_map]), List.getElem_map]
  exact forward_ends edges reserved committed uw targets n ownSupply (List.getElem_mem hi)

theorem wired_build : (build edges reserved committed uw targets n ownSupply).Wired
    ((forward edges reserved committed uw targets n ownSupply).map Prod.fst) := by
  obtain ⟨hpaired, hindexed, -⟩ := @paired_build edges reserved committed uw n ownSupply
    targets
  refine ⟨hpaired, hindexed, fun u a ha => ?_, ?_, ?_, ?_⟩
  · obtain ⟨i, hi, ⟨rfl, -⟩ | ⟨rfl, -⟩⟩ := arc_cases (hindexed u a ha).1
    · rw [hpaired.dest_even i hi, length_heads_build]
      exact (end_lt edges reserved committed uw targets n ownSupply (by simpa using hi)).2
    · rw [hpaired.dest_odd i hi, length_heads_build]
      exact (end_lt edges reserved committed uw targets n ownSupply (by simpa using hi)).1
  · rw [src_build, length_heads_build]
    omega
  · rw [src_build, snk_build]
    omega
  · rw [length_heads_build]
    set net := build edges reserved committed uw targets n ownSupply with hnet
    have hout : ∀ v ∈ Finset.range (n + 2), (net.out v).length =
        ((Finset.range net.tail.length).filter fun a => net.tail.getD a 0 = v).card := by
      intro v hv
      rw [out_build edges reserved committed uw targets n ownSupply (Finset.mem_range.1 hv)]
      rfl
    rw [Finset.sum_congr rfl hout, Finset.sum_card_fiberwise_eq_card_filter]
    exact (Finset.card_filter_le _ _).trans (Finset.card_range _).le

theorem mem_out_build {a : Nat}
    (ha : a < 2 * (forward edges reserved committed uw targets n ownSupply).length) :
    a ∈ (build edges reserved committed uw targets n ownSupply).out
      ((build edges reserved committed uw targets n ownSupply).tail.getD a 0) := by
  have hpaired := (wired_build edges reserved committed uw targets n ownSupply).paired
  have hlt : (build edges reserved committed uw targets n ownSupply).tail.getD a 0 < n + 2 := by
    obtain ⟨i, hi, ⟨rfl, -⟩ | ⟨rfl, -⟩⟩ := arc_cases ha
    · rw [hpaired.tail_even i (by simpa using hi)]
      exact (end_lt edges reserved committed uw targets n ownSupply hi).1
    · rw [hpaired.tail_odd i (by simpa using hi)]
      exact (end_lt edges reserved committed uw targets n ownSupply hi).2
  rw [out_build _ _ _ _ _ _ _ hlt, List.mem_filter, List.mem_range, decide_eq_true_eq,
    hpaired.length_tail, List.length_map]
  exact ⟨ha, rfl⟩

end Build

/-! ### What moved on a list of arcs -/

section Amounts

variable {κ : Type} [DecidableEq κ] {before after : List Nat}

omit [DecidableEq κ] in
theorem amounts_cons (k : κ) (keys : List κ) (start : Nat) :
    amounts before after (k :: keys) start =
      (k, moved before after start) :: amounts before after keys (start + 1) := by
  rw [amounts, List.zipIdx_cons]
  rfl

omit [DecidableEq κ] in
theorem next_entry {e : κ × Nat} {l : List (κ × Nat)} {start : Nat} {P : Nat → κ × Nat → Prop}
    (h : ∀ i d, (e :: l)[i]? = some d → P (start + i) d) :
    P start e ∧ ∀ i d, l[i]? = some d → P (start + 1 + i) d := by
  refine ⟨h 0 e rfl, fun i d hd => ?_⟩
  have := h (i + 1) d hd
  rwa [Nat.add_comm i 1, ← Nat.add_assoc] at this

theorem amountAt_amounts_le {l : List (κ × Nat)} {start : Nat}
    (h : ∀ i e, l[i]? = some e → moved before after (start + i) ≤ e.2) (k : κ) :
    amountAt (amounts before after (l.map Prod.fst) start) k ≤ amountAt l k := by
  induction l generalizing start with
  | nil => exact le_rfl
  | cons e l ih =>
    obtain ⟨hhead, hrest⟩ := next_entry (P := fun i d => moved before after i ≤ d.2) h
    rw [List.map_cons, amounts_cons, amountAt_cons, amountAt_cons]
    refine Nat.add_le_add ?_ (ih hrest)
    dsimp only
    split
    · exact hhead
    · exact le_rfl

theorem amountAt_amounts_full {l : List (κ × Nat)} {start : Nat} {k : κ}
    (h : ∀ i e, l[i]? = some e → e.1 = k → moved before after (start + i) = e.2) :
    amountAt (amounts before after (l.map Prod.fst) start) k = amountAt l k := by
  induction l generalizing start with
  | nil => rfl
  | cons e l ih =>
    obtain ⟨hhead, hrest⟩ := next_entry (P := fun i d => d.1 = k → moved before after i = d.2) h
    rw [List.map_cons, amounts_cons, amountAt_cons, amountAt_cons, ih hrest]
    refine congrArg (· + _) ?_
    dsimp only
    split
    · next heq => exact hhead heq
    · rfl

theorem amountAt_amounts_none {l : List (κ × Nat)} {start : Nat} {k : κ}
    (h : ∀ i e, l[i]? = some e → e.1 = k → moved before after (start + i) = 0) :
    amountAt (amounts before after (l.map Prod.fst) start) k = 0 := by
  induction l generalizing start with
  | nil => rfl
  | cons e l ih =>
    obtain ⟨hhead, hrest⟩ := next_entry (P := fun i d => d.1 = k → moved before after i = 0) h
    rw [List.map_cons, amounts_cons, amountAt_cons, ih hrest, Nat.add_zero]
    dsimp only
    split
    · next heq => exact hhead heq
    · rfl

/-- One arc of the list carries no more than all of its key. -/
theorem moved_le_amountAt {l : List (κ × Nat)} {start i : Nat} {e : κ × Nat}
    (he : l[i]? = some e) : moved before after (start + i) ≤
      amountAt (amounts before after (l.map Prod.fst) start) e.1 := by
  induction l generalizing start i with
  | nil => cases he
  | cons d l ih =>
    rw [List.map_cons, amounts_cons, amountAt_cons]
    cases i with
    | zero =>
      obtain rfl : d = e := Option.some.inj he
      rw [if_pos rfl]
      exact Nat.le_add_right _ _
    | succ i =>
      have hle := @ih (start + 1) i he
      rw [Nat.add_right_comm] at hle
      exact hle.trans (Nat.le_add_left _ _)

end Amounts

/-! ### Where the flow is stuck -/

/-- The entry of a forward arc: its ends, its capacity, and what moves on it. -/
structure Entry (net net' : Network) (j : Nat) (e : (Nat × Nat) × Nat) : Prop where
  forth : 2 * j ∈ net'.out e.1.1
  back : 2 * j + 1 ∈ net'.out e.1.2
  dest_forth : net'.dest.getD (2 * j) 0 = e.1.2
  dest_back : net'.dest.getD (2 * j + 1) 0 = e.1.1
  moved : moved net.cap net'.cap j = net'.cap.getD (2 * j + 1) 0
  pair : net'.cap.getD (2 * j) 0 + net'.cap.getD (2 * j + 1) 0 = e.2

namespace Entry

variable {net net' : Network} {j : Nat} {e : (Nat × Nat) × Nat} {R : Set Nat}

theorem le (h : Entry net net' j e) : Network.moved net.cap net'.cap j ≤ e.2 := by
  rw [h.moved, ← h.pair]
  exact Nat.le_add_left _ _

theorem full (h : Entry net net' j e)
    (hclosed : ∀ u ∈ R, ∀ a ∈ net'.out u, 0 < net'.cap.getD a 0 → net'.dest.getD a 0 ∈ R)
    (hu : e.1.1 ∈ R) (hv : e.1.2 ∉ R) : Network.moved net.cap net'.cap j = e.2 := by
  have hzero : net'.cap.getD (2 * j) 0 = 0 := by
    by_contra hne
    exact hv (h.dest_forth ▸ hclosed _ hu _ h.forth (Nat.pos_of_ne_zero hne))
  rw [h.moved, ← h.pair, hzero, Nat.zero_add]

theorem none (h : Entry net net' j e)
    (hclosed : ∀ u ∈ R, ∀ a ∈ net'.out u, 0 < net'.cap.getD a 0 → net'.dest.getD a 0 ∈ R)
    (hu : e.1.1 ∉ R) (hv : e.1.2 ∈ R) : Network.moved net.cap net'.cap j = 0 := by
  by_contra hne
  rw [h.moved] at hne
  exact hu (h.dest_back ▸ hclosed _ hv _ h.back (Nat.pos_of_ne_zero hne))

end Entry

section Stuck

variable (edges : Edges) (reserved : Reservations) (committed : Committed) (uw : Underwriters)
  (targets : List Nat) (n : Nat) (ownSupply : Bool) (limit : Nat)

theorem entry_forward {j : Nat} {e : (Nat × Nat) × Nat}
    (he : (forward edges reserved committed uw targets n ownSupply)[j]? = some e) :
    Entry (build edges reserved committed uw targets n ownSupply)
      ((build edges reserved committed uw targets n ownSupply).flow limit).1 j e := by
  have hw := wired_build edges reserved committed uw targets n ownSupply
  have hmem := fun a => @mem_out_build edges reserved committed uw targets n ownSupply a
  obtain ⟨-, -, hcap⟩ := @paired_build edges reserved committed uw n ownSupply
    targets
  have haug := augments_flow hw.paired hw.ends hw.indexed limit
  set arcs := forward edges reserved committed uw targets n ownSupply with harcs
  set net := build edges reserved committed uw targets n ownSupply with hnet
  have hj : j < arcs.length := (List.getElem?_eq_some_iff.1 he).1
  have hj' : j < (arcs.map Prod.fst).length := by rwa [List.length_map]
  have hkey : (arcs.map Prod.fst).getD j (0, 0) = e.1 := by
    rw [List.getD_eq_getElem?_getD, List.getElem?_map, he]
    rfl
  have hout : ∀ v, (net.flow limit).1.out v = net.out v := fun v => by
    rw [haug.same]
    rfl
  have hdest : (net.flow limit).1.dest = net.dest := by rw [haug.same]
  have hforth : net.cap.getD (2 * j) 0 = e.2 := by
    rw [hcap, (getD_pairs _ _ _ _).1, List.getD_eq_getElem?_getD, List.getElem?_map, he]
    rfl
  have hback : net.cap.getD (2 * j + 1) 0 = 0 := by
    rw [hcap, (getD_pairs _ _ _ _).2, List.getD_eq_getElem?_getD, List.getElem?_map, he]
    rfl
  have hpair := haug.pushed.pair j hj'
  have htail := hw.paired.tail_even j hj'
  have htail' := hw.paired.tail_odd j hj'
  rw [hkey] at htail htail'
  refine ⟨?_, ?_, ?_, ?_, ?_, ?_⟩
  · rw [hout, ← htail]
    exact hmem _ (by omega)
  · rw [hout, ← htail']
    exact hmem _ (by omega)
  · rw [hdest, hw.paired.dest_even j hj', hkey]
  · rw [hdest, hw.paired.dest_odd j hj', hkey]
  · unfold Network.moved
    omega
  · omega

theorem entry_stake {i : Nat} {e : (Nat × Nat) × Nat} (he : (ledgerArcs edges reserved n)[i]? = some e) :
    Entry (build edges reserved committed uw targets n ownSupply)
      ((build edges reserved committed uw targets n ownSupply).flow limit).1 (0 + i) e := by
  refine entry_forward edges reserved committed uw targets n ownSupply limit ?_
  have hi := (List.getElem?_eq_some_iff.1 he).1
  rw [Nat.zero_add, forward, List.append_assoc, List.getElem?_append_left hi, he]

theorem entry_supply {i : Nat} {e : Nat × Nat}
    (he : (supplyArcs uw committed targets n ownSupply)[i]? = some e) :
    Entry (build edges reserved committed uw targets n ownSupply)
      ((build edges reserved committed uw targets n ownSupply).flow limit).1
      ((ledgerArcs edges reserved n).length + i) ((n, e.1), e.2) := by
  refine entry_forward edges reserved committed uw targets n ownSupply limit ?_
  have hi := (List.getElem?_eq_some_iff.1 he).1
  rw [forward, List.append_assoc, List.getElem?_append_right (Nat.le_add_right _ _),
    Nat.add_sub_cancel_left, List.getElem?_append_left (by rwa [List.length_map]), List.getElem?_map, he]
  rfl

theorem entry_sink {i : Nat} {e : (Nat × Nat) × Nat} (he : (sinkArcs targets n)[i]? = some e) :
    Entry (build edges reserved committed uw targets n ownSupply)
      ((build edges reserved committed uw targets n ownSupply).flow limit).1
      ((ledgerArcs edges reserved n).length +
        (supplyArcs uw committed targets n ownSupply).length + i) e := by
  refine entry_forward edges reserved committed uw targets n ownSupply limit ?_
  have hlength : (ledgerArcs edges reserved n ++
      (supplyArcs uw committed targets n ownSupply).map fun u => ((n, u.1), u.2)).length =
      (ledgerArcs edges reserved n).length + (supplyArcs uw committed targets n ownSupply).length := by
    rw [List.length_append, List.length_map]
  rw [forward, ← hlength, List.getElem?_append_right (Nat.le_add_right _ _), Nat.add_sub_cancel_left]
  exact he

/-- What is left on the stakes, and of the supplies that count. -/
noncomputable def leftOver : NetworkFlow.Network Nat where
  cap := listFlow (ledgerArcs edges reserved n)
  supply := listFlow (supplyArcs uw committed targets n ownSupply)

/-- The targets that are members. -/
def among (targets : List Nat) (n : Nat) : Set Nat := {t | t ∈ targets ∧ t < n}

/-- What flows, as a flow into the targets within what is left. -/
noncomputable def flowInto : FlowInto (leftOver edges reserved committed uw targets n ownSupply)
    (among targets n) :=
  let net := build edges reserved committed uw targets n ownSupply
  let after := (net.flow limit).1.cap
  { amount := listFlow (amounts net.cap after ((ledgerArcs edges reserved n).map Prod.fst) 0)
    draw := listFlow (amounts net.cap after
      ((supplyArcs uw committed targets n ownSupply).map Prod.fst) (ledgerArcs edges reserved n).length)
    amount_le := by
      intro k
      rw [leftOver, listFlow_apply, listFlow_apply]
      refine amountAt_amounts_le (fun i e he => ?_) k
      exact (entry_stake edges reserved committed uw targets n ownSupply limit he).le
    draw_le := by
      intro k
      rw [leftOver, listFlow_apply, listFlow_apply]
      refine amountAt_amounts_le (fun i e he => ?_) k
      exact (entry_supply edges reserved committed uw targets n ownSupply limit he).le
    balanced := fun _ hv =>
      balanced_stakes edges reserved committed uw targets n limit ownSupply hv }

theorem drawn_flowInto :
    (flowInto edges reserved committed uw targets n ownSupply limit).drawn =
      ((build edges reserved committed uw targets n ownSupply).flow limit).2 := by
  rw [(circulation_flow edges reserved committed uw targets n limit ownSupply).2, ← degree_listFlow]
  rfl

/-- No more is drawn than there are supplies. -/
theorem flow_le_supplies : ((build edges reserved committed uw targets n ownSupply).flow limit).2 ≤
    (uw.map Prod.snd).sum := by
  have hdegree : (leftOver edges reserved committed uw targets n ownSupply).supply.degree ≤
      (uw.map Prod.snd).sum := by
    rw [leftOver, degree_listFlow, supplyArcs, List.map_map]
    refine (List.sum_le_sum (g := Prod.snd) fun u _ => Nat.sub_le _ _).trans ?_
    exact (List.filter_sublist.map Prod.snd).sum_le_sum fun _ _ => Nat.zero_le _
  rw [← drawn_flowInto]
  refine le_trans ?_ hdegree
  exact Finsupp.degree_mono
    (flowInto edges reserved committed uw targets n ownSupply limit).draw_le

/-- No more goes over one arc to the sink than flows. -/
theorem moved_sink_le {i : Nat} {e : (Nat × Nat) × Nat} (he : (sinkArcs targets n)[i]? = some e) :
    moved (build edges reserved committed uw targets n ownSupply).cap
        ((build edges reserved committed uw targets n ownSupply).flow limit).1.cap
        ((ledgerArcs edges reserved n).length +
          (supplyArcs uw committed targets n ownSupply).length + i) ≤
      ((build edges reserved committed uw targets n ownSupply).flow limit).2 := by
  classical
  obtain ⟨hcirc, htotal⟩ :=
    circulation_flow edges reserved committed uw targets n limit ownSupply
  set net := build edges reserved committed uw targets n ownSupply with hnet
  set after := (net.flow limit).1.cap with hafter
  set byStake := amounts net.cap after ((ledgerArcs edges reserved n).map Prod.fst) 0 with hstake
  set bySupply := amounts net.cap after ((supplyArcs uw committed targets n ownSupply).map Prod.fst)
    (ledgerArcs edges reserved n).length with hsupply
  set toSink := amounts net.cap after ((sinkArcs targets n).map Prod.fst)
    ((ledgerArcs edges reserved n).length + (supplyArcs uw committed targets n ownSupply).length)
    with hsink
  obtain ⟨S, hS⟩ : ∃ S : Set Nat, ∀ v, v ∈ S ↔ v = n + 1 := ⟨{n + 1}, fun _ => Iff.rfl⟩
  -- all that moves, as a flow into the sink
  let f : FlowInto ⟨listFlow byStake + listFlow toSink, listFlow bySupply⟩ S :=
    ⟨listFlow byStake + listFlow toSink, listFlow bySupply, le_rfl, le_rfl, fun v hv =>
      hcirc v fun heq => hv ((hS v).2 heq)⟩
  have hbalance := f.drawn_add_leaving (Set.Subset.refl S)
  have hdrawn : f.drawn = (net.flow limit).2 := by
    rw [htotal, ← degree_listFlow]
    rfl
  have hsource : ∀ p ∈ byStake ++ toSink, p.1.1 < n := by
    intro p hp
    rcases List.mem_append.1 hp with hp | hp
    · exact (lt_of_mem_stakes hp).1
    · exact (ends_of_mem_sinks hp).2.1
  have hleaving : (f.amount.sum fun a x => if a.1 ∈ S ∧ a.2 ∉ S
      then x else 0) = 0 := by
    refine Finset.sum_eq_zero fun a _ => ?_
    dsimp only
    split
    · next ha =>
      show (listFlow byStake + listFlow toSink) a = 0
      rw [← listFlow_append, listFlow_apply]
      refine amountAt_eq_zero fun hmem => ?_
      obtain ⟨p, hp, rfl⟩ := List.mem_map.1 hmem
      have hlt := hsource p hp
      have heq := (hS _).1 ha.1
      omega
    · rfl
  have hinside : (f.draw.sum fun v x => if v ∈ S then x else 0) = 0 := by
    refine Finset.sum_eq_zero fun v _ => ?_
    dsimp only
    split
    · next hv =>
      show listFlow bySupply v = 0
      rw [listFlow_apply]
      refine amountAt_eq_zero fun hmem => ?_
      obtain ⟨p, hp, rfl⟩ := List.mem_map.1 hmem
      have hlt := lt_of_mem_supplies hp
      have heq := (hS _).1 hv
      omega
    · rfl
  obtain ⟨-, hlt, hend⟩ : e.1.1 ∈ targets ∧ e.1.1 < n ∧ e.1.2 = n + 1 := by
    obtain ⟨t, ht, rfl⟩ := List.mem_map.1 (List.mem_of_getElem? he)
    exact ⟨(List.mem_filter.1 ht).1, of_decide_eq_true (List.mem_filter.1 ht).2, rfl⟩
  have hentering : f.amount e.1 ≤ f.amount.sum fun a x =>
      if a.1 ∉ S ∧ a.2 ∈ S then x else 0 := by
    by_cases hzero : f.amount e.1 = 0
    · rw [hzero]
      exact Nat.zero_le _
    · have hcross : e.1.1 ∉ S ∧ e.1.2 ∈ S := by
        refine ⟨fun heq => ?_, (hS _).2 hend⟩
        have heq := (hS _).1 heq
        omega
      refine le_trans (le_of_eq ?_) (Finset.single_le_sum (fun _ _ => Nat.zero_le _)
        (Finsupp.mem_support_iff.2 hzero))
      exact (if_pos hcross).symm
  have hmoved := @moved_le_amountAt _ _ net.cap after (sinkArcs targets n)
    ((ledgerArcs edges reserved n).length + (supplyArcs uw committed targets n ownSupply).length) i e he
  rw [← hsink] at hmoved
  have hpart : amountAt toSink e.1 ≤ f.amount e.1 := by
    show _ ≤ (listFlow byStake + listFlow toSink) e.1
    rw [Finsupp.add_apply, listFlow_apply toSink]
    exact Nat.le_add_left _ _
  omega

/-- **Where less than the limit flows, a whole cut does.** -/
theorem cut_flowInto (hsum : (uw.map Prod.snd).sum < unbounded)
    (hlt : ((build edges reserved committed uw targets n ownSupply).flow limit).2 < limit) :
    ∃ T, among targets n ⊆ T ∧
      (flowInto edges reserved committed uw targets n ownSupply limit).drawn =
        (leftOver edges reserved committed uw targets n ownSupply).wholeCut T := by
  have hw := wired_build edges reserved committed uw targets n ownSupply
  have haug := augments_flow hw.paired hw.ends hw.indexed limit
  have hw' := hw.augments haug
  have hlevels := (flowLoop_ends hw (Nat.zero_le limit) (Nat.zero_add limit).ge).2 hlt
  obtain ⟨R, hsrc, hsnk, hclosed⟩ := cut_of_levels hw'.bounded hw'.source hlevels
  have hsrc' : n ∈ R := by
    rw [haug.same] at hsrc
    rwa [← src_build edges reserved committed uw targets n ownSupply]
  have hsnk' : n + 1 ∉ R := by
    rw [haug.same] at hsnk
    rwa [← snk_build edges reserved committed uw targets n ownSupply]
  -- The source's side holds no target: its arc to the sink would have to be full.
  have hST : among targets n ⊆ Rᶜ := by
    intro t ht hR
    have hmem : ((t, n + 1), unbounded) ∈ sinkArcs targets n :=
      List.mem_map.2 ⟨t, List.mem_filter.2 ⟨ht.1, decide_eq_true ht.2⟩, rfl⟩
    obtain ⟨i, hi⟩ := List.getElem?_of_mem hmem
    have hfull := (entry_sink edges reserved committed uw targets n ownSupply limit hi).full hclosed
      hR hsnk'
    have hle := moved_sink_le edges reserved committed uw targets n ownSupply limit hi
    rw [hfull] at hle
    have hle := hle.trans (flow_le_supplies edges reserved committed uw targets n ownSupply limit)
    exact absurd hsum (not_lt.2 hle)
  refine ⟨Rᶜ, hST, FlowInto.drawn_eq_wholeCut _ hST (fun a ha hb => ?_) (fun a ha hb => ?_)
    fun v hv => ?_⟩
  -- An arc into the sink's side has nothing left, one out of it nothing to give back.
  · show listFlow _ a = listFlow _ a
    rw [listFlow_apply, listFlow_apply]
    refine amountAt_amounts_full fun i e he heq => ?_
    subst heq
    exact (entry_stake edges reserved committed uw targets n ownSupply limit he).full hclosed
      (not_not.1 ha) hb
  · show listFlow _ a = 0
    rw [listFlow_apply]
    refine amountAt_amounts_none fun i e he heq => ?_
    subst heq
    exact (entry_stake edges reserved committed uw targets n ownSupply limit he).none hclosed
      ha (not_not.1 hb)
  · show listFlow _ v = listFlow _ v
    rw [listFlow_apply, listFlow_apply]
    refine amountAt_amounts_full fun i e he heq => ?_
    subst heq
    exact (entry_supply edges reserved committed uw targets n ownSupply limit he).full hclosed
      hsrc' hv

/-- **A flow is the largest there is, up to its limit**, and the largest is the least cut. -/
theorem flow_eq_min (hsum : (uw.map Prod.snd).sum < unbounded) : ∃ M,
    IsGreatest {x | ∃ f : FlowInto (leftOver edges reserved committed uw targets n ownSupply)
      (among targets n), f.drawn = x} M ∧
    IsLeast {x | ∃ T, among targets n ⊆ T ∧
      (leftOver edges reserved committed uw targets n ownSupply).wholeCut T = x} M ∧
    ∀ limit, ((build edges reserved committed uw targets n ownSupply).flow limit).2 = min limit M := by
  -- The supplies bound every flow, so that a limit above them is never reached.
  have hfree := flow_le_supplies edges reserved committed uw targets n ownSupply
    ((uw.map Prod.snd).sum + 1)
  obtain ⟨T, hST, hcut⟩ := cut_flowInto edges reserved committed uw targets n ownSupply
    ((uw.map Prod.snd).sum + 1) hsum (Nat.lt_succ_of_le hfree)
  obtain ⟨hgreatest, hleast⟩ := FlowInto.optimal _ hST hcut
  refine ⟨_, hgreatest, hleast, fun limit => ?_⟩
  have hle := flow_le (build edges reserved committed uw targets n ownSupply) limit
  have hmax := hgreatest.2 ⟨flowInto edges reserved committed uw targets n ownSupply limit, rfl⟩
  rw [drawn_flowInto] at hmax
  rcases hle.lt_or_eq with hlt | heq
  -- Below its limit the flow fills a cut of its own, which is no less than the least.
  · obtain ⟨U, hU, hcut'⟩ := cut_flowInto edges reserved committed uw targets n ownSupply limit hsum hlt
    have hmin := hleast.2 ⟨U, hU, hcut'.symm⟩
    rw [drawn_flowInto edges reserved committed uw targets n ownSupply limit] at hmin
    rw [le_antisymm hmax hmin] at hlt ⊢
    exact (min_eq_right hlt.le).symm
  · rw [heq] at hmax ⊢
    exact (min_eq_left hmax).symm

end Stuck

end Network

/-! ### Queries -/

section Queries

open Network

variable {edges : Edges} {reserved : Reservations} {committed : Committed} {uw : Underwriters}
  {targets : List Nat} {n : Nat} {ownSupply : Bool}

/-- A query is the flow of its network, also where it does not build one. -/
theorem capacityInner_eq_flow (hsum : (uw.map Prod.snd).sum < unbounded) (limit : Nat) :
    capacityInner edges reserved committed uw targets n limit ownSupply =
      ((build edges reserved committed uw targets n ownSupply).flow limit).2 := by
  unfold capacityInner
  split
  · next hnone =>
    obtain ⟨M, -, hleast, hflow⟩ :=
      flow_eq_min edges reserved committed uw targets n ownSupply hsum
    have hempty : among targets n ⊆ ∅ := by
      rintro t ⟨hmem, hlt⟩
      rcases hnone with hnil | rfl
      · rw [List.isEmpty_iff.1 hnil] at hmem
        cases hmem
      · exact absurd hlt (Nat.not_lt_zero t)
    have hcut : (leftOver edges reserved committed uw targets n ownSupply).wholeCut ∅ = 0 := by
      simp [NetworkFlow.Network.wholeCut]
    have hzero : M ≤ 0 := hleast.2 ⟨∅, hempty, hcut⟩
    rw [hflow, Nat.le_zero.1 hzero, Nat.min_zero]
  · rfl

theorem capacityInner_eq_min (hsum : (uw.map Prod.snd).sum < unbounded) : ∃ M,
    IsGreatest {x | ∃ f : FlowInto (leftOver edges reserved committed uw targets n ownSupply)
      (among targets n), f.drawn = x} M ∧
    IsLeast {x | ∃ T, among targets n ⊆ T ∧
      (leftOver edges reserved committed uw targets n ownSupply).wholeCut T = x} M ∧
    ∀ limit, capacityInner edges reserved committed uw targets n limit ownSupply = min limit M := by
  obtain ⟨M, hgreatest, hleast, hflow⟩ :=
    flow_eq_min edges reserved committed uw targets n ownSupply hsum
  exact ⟨M, hgreatest, hleast, fun limit => (capacityInner_eq_flow hsum limit).trans (hflow limit)⟩

theorem leftOver_cap (k : Nat × Nat) :
    (leftOver edges reserved committed uw targets n ownSupply).cap k =
      if k.1 < n ∧ k.2 < n then OrdMap.getD' edges k 0 - OrdMap.getD' reserved k 0 else 0 := by
  have hkeys : ((ledgerArcs edges reserved n).map Prod.fst).Nodup := by
    rw [keys_ledgerArcs]
    exact (List.filter_sublist.map Prod.fst).nodup (OrdMap.nodup_keys edges)
  rw [leftOver, listFlow_apply]
  by_cases hmem : k ∈ (ledgerArcs edges reserved n).map Prod.fst
  · obtain ⟨p, hp, rfl⟩ := List.mem_map.1 hmem
    rw [amountAt_of_mem hkeys hp]
    obtain ⟨e, he, rfl⟩ := List.mem_map.1 hp
    obtain ⟨he, hlt⟩ := List.mem_filter.1 he
    have hget : OrdMap.getD' edges e.1 0 = e.2 := by
      rw [OrdMap.getD'_eq, OrdMap.mem_toList.1 he]
      rfl
    rw [if_pos (of_decide_eq_true hlt)]
    show e.2 - _ = OrdMap.getD' edges e.1 0 - _
    rw [hget]
  · rw [amountAt_eq_zero hmem]
    split
    · next hlt =>
      have hnone : edges[k]? = none := by
        by_contra hne
        obtain ⟨w, hw⟩ := Option.ne_none_iff_exists'.1 hne
        refine hmem (List.mem_map.2 ⟨(k, w - OrdMap.getD' reserved k 0), ?_, rfl⟩)
        exact List.mem_map.2 ⟨(k, w), List.mem_filter.2
          ⟨OrdMap.mem_toList.2 hw, decide_eq_true hlt⟩, rfl⟩
      rw [OrdMap.getD'_eq, hnone]
      exact (Nat.zero_sub _).symm
    · rfl

theorem leftOver_supply (hnodup : (uw.map Prod.fst).Nodup) (u : Nat) :
    (leftOver edges reserved committed uw targets n ownSupply).supply u =
      if u < n ∧ ¬(!ownSupply ∧ u ∈ targets) then
        amountAt uw u - OrdMap.getD' committed u 0 else 0 := by
  have hkeys : ((supplyArcs uw committed targets n ownSupply).map Prod.fst).Nodup := by
    rw [keys_supplyArcs]
    exact (List.filter_sublist.map Prod.fst).nodup hnodup
  rw [leftOver, listFlow_apply]
  by_cases hmem : u ∈ (supplyArcs uw committed targets n ownSupply).map Prod.fst
  · obtain ⟨p, hp, rfl⟩ := List.mem_map.1 hmem
    rw [amountAt_of_mem hkeys hp]
    obtain ⟨d, hd, rfl⟩ := List.mem_map.1 hp
    obtain ⟨hd, hlt⟩ := List.mem_filter.1 hd
    rw [if_pos (of_decide_eq_true hlt), amountAt_of_mem hnodup hd]
  · rw [amountAt_eq_zero hmem]
    split
    · next hlt =>
      have hnone : u ∉ uw.map Prod.fst := by
        intro hin
        obtain ⟨d, hd, rfl⟩ := List.mem_map.1 hin
        refine hmem (List.mem_map.2 ⟨(d.1, d.2 - OrdMap.getD' committed d.1 0), ?_, rfl⟩)
        exact List.mem_map.2 ⟨d, List.mem_filter.2 ⟨hd, decide_eq_true hlt⟩, rfl⟩
      rw [amountAt_eq_zero hnone]
      exact (Nat.zero_sub _).symm
    · rfl

end Queries

end Edet.Flow
