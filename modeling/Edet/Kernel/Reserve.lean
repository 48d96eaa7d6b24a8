import Edet.Kernel.Dinic

/-!
# What a reservation is

A reservation that is granted hands back a flow to its debtor (`Held.FlowsTo`), within
what the stakes and the supplies have left, of at least the amount asked for
(`reserveInner_spec`).

The network is built from forward arcs alone: those of the stake edges, those of the
supplies and those of the targets (`forward`). Augmenting makes their amounts a
circulation but for the source and the sink (`circulates`), and the hold is the part of
it on the first two kinds of arc.
-/

namespace Edet.Flow

open NetworkFlow

/-- A hold is a flow to `debtor`: no arc and no underwriter is listed twice, every draw
is something, and every node but the debtor passes on what it gets and draws. -/
structure Held.FlowsTo (h : Held) (debtor : Nat) : Prop where
  nodup_edges : (h.edges.map Prod.fst).Nodup
  nodup_supply : (h.supply.map Prod.fst).Nodup
  draws : ∀ p ∈ h.supply, 0 < p.2
  balanced : Balanced (listFlow h.edges) (listFlow h.supply) debtor

theorem Held.flowsTo_empty (debtor : Nat) : ({} : Held).FlowsTo debtor :=
  ⟨List.nodup_nil, List.nodup_nil, by simp, Balanced.zero debtor⟩

namespace Network

/-! ### Lists of pairs -/

theorem length_pairs {α : Type} (g h : α → Nat) (l : List α) :
    (l.flatMap fun e => [g e, h e]).length = 2 * l.length := by
  induction l with
  | nil => rfl
  | cons e l ih =>
    rw [List.flatMap_cons, List.length_append, ih, List.length_cons]
    simp only [List.length_cons, List.length_nil]
    omega

theorem getD_pairs {α : Type} (g h : α → Nat) (l : List α) (i : Nat) :
    (l.flatMap fun e => [g e, h e]).getD (2 * i) 0 = (l.map g).getD i 0 ∧
      (l.flatMap fun e => [g e, h e]).getD (2 * i + 1) 0 = (l.map h).getD i 0 := by
  induction l generalizing i with
  | nil => simp
  | cons e l ih =>
    cases i with
    | zero => simp
    | succ i => exact ih i

theorem sum_range_getD {α : Type} (l : List α) (d : α) (start : Nat) (h : α → Nat → Nat) :
    ∑ i ∈ Finset.range l.length, h (l.getD i d) (start + i) =
      ((l.zipIdx start).map fun p => h p.1 p.2).sum := by
  induction l generalizing start with
  | nil => rfl
  | cons a l ih =>
    rw [List.length_cons, Finset.sum_range_succ', List.zipIdx_cons, List.map_cons, List.sum_cons,
      ← ih (start + 1), add_comm]
    refine congrArg₂ (· + ·) rfl (Finset.sum_congr rfl fun i _ => ?_)
    rw [List.getD_cons_succ, show start + (i + 1) = start + 1 + i by ring]

/-! ### The arcs of a network -/

/-- The network with more forward arcs, each with its reverse. -/
def extend (net : Network) (arcs : List ((Nat × Nat) × Nat)) : Network :=
  { net with
    dest := net.dest ++ arcs.flatMap fun e => [e.1.2, e.1.1]
    cap := net.cap ++ arcs.flatMap fun e => [e.2, 0]
    tail := net.tail ++ arcs.flatMap fun e => [e.1.1, e.1.2] }

/-- Keys with the numbers of their arcs, from pair `start` on. -/
def numbered {κ : Type} (keys : List κ) (start : Nat) : List (κ × Nat) :=
  (keys.zipIdx start).map fun p => (p.1, 2 * p.2)

/-- The stake edges inside the network, with what is left on them. -/
def ledgerArcs (edges : Edges) (reserved : Reservations) (n : Nat) : List ((Nat × Nat) × Nat) :=
  (edges.toList.filter fun e => decide (e.1.1 < n ∧ e.1.2 < n)).map fun e =>
    (e.1, e.2 - OrdMap.getD' reserved e.1 0)

/-- The supplies inside the network, with what is left of them. -/
def supplyArcs (uw : Underwriters) (committed : Committed) (targets : List Nat) (n : Nat)
    (ownSupply : Bool) : List (Nat × Nat) :=
  (uw.filter fun u => decide (u.1 < n ∧ ¬(!ownSupply ∧ u.1 ∈ targets))).map fun u =>
    (u.1, u.2 - OrdMap.getD' committed u.1 0)

theorem foldl_addLedger (reserved : Reservations) (n : Nat) (es : List ((Nat × Nat) × Nat))
    (net : Network) (start : Nat) (hstart : net.dest.length = 2 * start) :
    let arcs := (es.filter fun e => decide (e.1.1 < n ∧ e.1.2 < n)).map fun e =>
      (e.1, e.2 - OrdMap.getD' reserved e.1 0)
    es.foldl (addLedger reserved n) net =
      { net.extend arcs with
        ledgerArc := net.ledgerArc ++ numbered (arcs.map Prod.fst) start } := by
  induction es generalizing net start with
  | nil => simp [extend, numbered]
  | cons e es ih =>
    rw [List.foldl_cons, addLedger]
    by_cases he : e.1.1 < n ∧ e.1.2 < n
    · rw [if_pos he, ih _ (start + 1) (by simp [arc]; omega), List.filter_cons,
        if_pos (decide_eq_true he)]
      simp [extend, arc, numbered, hstart]
    · rw [if_neg he, ih net start hstart, List.filter_cons, if_neg (by rw [decide_eq_true_eq]; exact he)]

theorem foldl_addSupply (committed : Committed) (targets : List Nat) (n : Nat) (ownSupply : Bool)
    (us : List (Nat × Nat)) (net : Network) (start : Nat)
    (hstart : net.dest.length = 2 * start) :
    let arcs := (us.filter fun u => decide (u.1 < n ∧ ¬(!ownSupply ∧ u.1 ∈ targets))).map fun u =>
      (u.1, u.2 - OrdMap.getD' committed u.1 0)
    us.foldl (addSupply committed targets n ownSupply) net =
      { net.extend (arcs.map fun u => ((net.src, u.1), u.2)) with
        supplyArc := net.supplyArc ++ numbered (arcs.map Prod.fst) start } := by
  induction us generalizing net start with
  | nil => simp [extend, numbered]
  | cons u us ih =>
    rw [List.foldl_cons, addSupply]
    by_cases hu : u.1 < n ∧ ¬(!ownSupply ∧ u.1 ∈ targets)
    · rw [if_pos hu, ih _ (start + 1) (by simp [arc]; omega), List.filter_cons,
        if_pos (decide_eq_true hu)]
      simp [extend, arc, numbered, hstart]
    · rw [if_neg hu, ih net start hstart, List.filter_cons, if_neg (by rw [decide_eq_true_eq]; exact hu)]

theorem foldl_addTarget (n : Nat) (ts : List Nat) (net : Network) :
    ts.foldl (addTarget n) net =
      net.extend ((ts.filter fun t => decide (t < n)).map fun t => ((t, net.snk), unbounded)) := by
  induction ts generalizing net with
  | nil => simp [extend]
  | cons t ts ih =>
    rw [List.foldl_cons, addTarget]
    by_cases ht : t < n
    · rw [if_pos ht, ih, List.filter_cons, if_pos (decide_eq_true ht)]
      simp [extend, arc]
    · rw [if_neg ht, ih, List.filter_cons, if_neg (by rw [decide_eq_true_eq]; exact ht)]

/-- The forward arcs of a network, with their capacities. -/
def forward (edges : Edges) (reserved : Reservations) (committed : Committed) (uw : Underwriters)
    (targets : List Nat) (n : Nat) (ownSupply : Bool) : List ((Nat × Nat) × Nat) :=
  ledgerArcs edges reserved n ++
    ((supplyArcs uw committed targets n ownSupply).map fun u => ((n, u.1), u.2)) ++
    (targets.filter fun t => decide (t < n)).map fun t => ((t, n + 1), unbounded)

variable (edges : Edges) (reserved : Reservations) (committed : Committed) (uw : Underwriters)
  (targets : List Nat) (n : Nat) (ownSupply : Bool)

/-- A network holds its forward arcs, and knows those of the stakes and the supplies by
their numbers. -/
theorem build_eq :
    let arcs := forward edges reserved committed uw targets n ownSupply
    let net : Network :=
      { dest := arcs.flatMap fun e => [e.1.2, e.1.1]
        cap := arcs.flatMap fun e => [e.2, 0]
        tail := arcs.flatMap fun e => [e.1.1, e.1.2]
        ledgerArc := numbered ((ledgerArcs edges reserved n).map Prod.fst) 0
        supplyArc := numbered ((supplyArcs uw committed targets n ownSupply).map Prod.fst)
          (ledgerArcs edges reserved n).length
        src := n, snk := n + 1 }
    build edges reserved committed uw targets n ownSupply = net.index (n + 2) := by
  extract_lets arcs net
  have hledger := foldl_addLedger reserved n edges.toList { src := n, snk := n + 1 } 0 rfl
  simp only at hledger
  show (targets.foldl (addTarget n) (uw.foldl (addSupply committed targets n ownSupply)
    (edges.toList.foldl (addLedger reserved n) { src := n, snk := n + 1 }))).index (n + 2) = _
  rw [hledger, foldl_addSupply committed targets n ownSupply uw _
    (ledgerArcs edges reserved n).length ?_, foldl_addTarget]
  · simp [net, arcs, forward, extend, ledgerArcs, supplyArcs]
  · show (_ ++ _ : List Nat).length = _
    rw [List.length_append, length_pairs]
    simp [ledgerArcs]

/-! ### The amounts on the arcs -/

/-- What moved on the forward arc of pair `i`. -/
def moved (before after : List Nat) (i : Nat) : Nat :=
  before.getD (2 * i) 0 - after.getD (2 * i) 0

/-- The amounts that moved on a list of keyed arcs, numbered from `start` on. -/
def amounts {κ : Type} (before after : List Nat) (keys : List κ) (start : Nat) : List (κ × Nat) :=
  (keys.zipIdx start).map fun p => (p.1, moved before after p.2)

theorem used_numbered {κ : Type} (before after : List Nat) (keys : List κ) (start : Nat) :
    used before after (numbered keys start) =
      (amounts before after keys start).filter fun p => decide (0 < p.2) := by
  unfold used numbered amounts
  rw [List.map_map]
  rfl

theorem listFlow_used {κ : Type} (before after : List Nat) (keys : List κ) (start : Nat) :
    listFlow (used before after (numbered keys start)) =
      listFlow (amounts before after keys start) := by
  rw [used_numbered, listFlow_filter_pos]

theorem amounts_append {κ : Type} (before after : List Nat) (keys keys' : List κ) (start : Nat) :
    amounts before after (keys ++ keys') start =
      amounts before after keys start ++ amounts before after keys' (start + keys.length) := by
  unfold amounts
  rw [List.zipIdx_append, List.map_append]

theorem amounts_map {κ κ' : Type} (before after : List Nat) (f : κ → κ') (keys : List κ)
    (start : Nat) : amounts before after (keys.map f) start =
      (amounts before after keys start).map fun p => (f p.1, p.2) := by
  unfold amounts
  rw [List.zipIdx_map, List.map_map, List.map_map]
  rfl

theorem outflow_amounts (before after : List Nat) (arcs : List (Nat × Nat)) (v : Nat) :
    outflow v (listFlow (amounts before after arcs 0)) =
      ∑ i ∈ Finset.range arcs.length,
        if (arcs.getD i (0, 0)).1 = v then moved before after i else 0 := by
  have hsum := sum_range_getD arcs (0, 0) 0 fun a i => if a.1 = v then moved before after i else 0
  simp only [Nat.zero_add] at hsum
  rw [hsum, listFlow, map_list_sum, amounts, List.map_map, List.map_map]
  refine congrArg List.sum (List.map_congr_left fun p _ => ?_)
  exact outflow_single v p.1 _

theorem inflow_amounts (before after : List Nat) (arcs : List (Nat × Nat)) (v : Nat) :
    inflow v (listFlow (amounts before after arcs 0)) =
      ∑ i ∈ Finset.range arcs.length,
        if (arcs.getD i (0, 0)).2 = v then moved before after i else 0 := by
  have hsum := sum_range_getD arcs (0, 0) 0 fun a i => if a.2 = v then moved before after i else 0
  simp only [Nat.zero_add] at hsum
  rw [hsum, listFlow, map_list_sum, amounts, List.map_map, List.map_map]
  refine congrArg List.sum (List.map_congr_left fun p _ => ?_)
  exact inflow_single v p.1 _

/-- Augmenting from empty reverses moves a circulation, but for the source and the sink. -/
theorem circulates {net net' : Network} {arcs : List (Nat × Nat)} {x : Nat}
    (haug : Augments arcs net net' x)
    (hempty : ∀ i < arcs.length, net.cap.getD (2 * i + 1) 0 = 0) :
    (∀ v, v ≠ net.src → v ≠ net.snk →
      outflow v (listFlow (amounts net.cap net'.cap arcs 0)) =
        inflow v (listFlow (amounts net.cap net'.cap arcs 0))) ∧
    outflow net.src (listFlow (amounts net.cap net'.cap arcs 0)) =
      inflow net.src (listFlow (amounts net.cap net'.cap arcs 0)) + x := by
  have hpush := haug.pushed
  -- What is left out of a node before and after differ by what moved out of and into it.
  have hleft : ∀ v, residual arcs net'.cap v +
      outflow v (listFlow (amounts net.cap net'.cap arcs 0)) =
        residual arcs net.cap v + inflow v (listFlow (amounts net.cap net'.cap arcs 0)) := by
    intro v
    rw [outflow_amounts, inflow_amounts, residual, residual, ← Finset.sum_add_distrib,
      ← Finset.sum_add_distrib]
    refine Finset.sum_congr rfl fun i hi => ?_
    have hi := Finset.mem_range.1 hi
    have hpair := hpush.pair i hi
    rw [hempty i hi] at hpair ⊢
    unfold moved
    split_ifs <;> omega
  refine ⟨fun v hs ht => ?_, ?_⟩
  · have := hleft v
    rw [hpush.inner v hs ht] at this
    omega
  · have := hleft net.src
    have := hpush.source
    omega

end Network

/-! ### The reservation -/

section Reserve

open Network

variable {edges : Edges} {reserved reserved' : Reservations} {committed committed' : Committed}
  {uw : Underwriters} {debtor n amount : Nat} {ownSupply : Bool} {held : Held}

theorem outflow_listFlow_eq_zero {l : List ((Nat × Nat) × Nat)} {v : Nat}
    (h : ∀ p ∈ l, p.1.1 ≠ v) : outflow v (listFlow l) = 0 := by
  induction l with
  | nil => rfl
  | cons p l ih =>
    rw [listFlow_cons, map_add, outflow_single, if_neg (h p (by simp)),
      ih fun q hq => h q (by simp [hq])]

theorem inflow_listFlow_eq_zero {l : List ((Nat × Nat) × Nat)} {v : Nat}
    (h : ∀ p ∈ l, p.1.2 ≠ v) : inflow v (listFlow l) = 0 := by
  induction l with
  | nil => rfl
  | cons p l ih =>
    rw [listFlow_cons, map_add, inflow_single, if_neg (h p (by simp)),
      ih fun q hq => h q (by simp [hq])]

theorem mem_amounts {κ : Type} {before after : List Nat} {keys : List κ} {start : Nat}
    {p : κ × Nat} (h : p ∈ amounts before after keys start) :
    ∃ i, keys[i]? = some p.1 ∧ p.2 = moved before after (start + i) := by
  obtain ⟨⟨k, j⟩, hq, rfl⟩ := List.mem_map.1 h
  obtain ⟨hle, hget⟩ := List.mk_mem_zipIdx_iff_le_and_getElem?_sub.1 hq
  exact ⟨j - start, hget, by rw [Nat.add_sub_cancel' hle]⟩

/-- What moved on the arcs of a list of keys is within their capacities. -/
theorem le_of_mem_amounts {κ : Type} {arcs : List ((Nat × Nat) × Nat)} {l : List (κ × Nat)}
    {after : List Nat} {start : Nat} {p : κ × Nat}
    (hcap : ∀ i < l.length, (arcs.map Prod.snd).getD (start + i) 0 = (l.map Prod.snd).getD i 0)
    (h : p ∈ amounts (arcs.flatMap fun e => [e.2, 0]) after (l.map Prod.fst) start) :
    ∃ q ∈ l, q.1 = p.1 ∧ p.2 ≤ q.2 := by
  obtain ⟨i, hget, hp⟩ := mem_amounts h
  rw [List.getElem?_map, Option.map_eq_some_iff] at hget
  obtain ⟨q, hq, hkey⟩ := hget
  have hi : i < l.length := (List.getElem?_eq_some_iff.1 hq).1
  refine ⟨q, List.mem_of_getElem? hq, hkey, ?_⟩
  rw [hp, moved, (getD_pairs _ _ _ _).1]
  have hle := hcap i hi
  rw [List.getD_eq_getElem?_getD (l := l.map Prod.snd), List.getElem?_map, hq] at hle
  refine (Nat.sub_le _ _).trans (le_of_eq ?_)
  exact hle

theorem nodup_used {κ : Type} {before after : List Nat} {keys : List κ} {start : Nat}
    (h : keys.Nodup) : ((used before after (numbered keys start)).map Prod.fst).Nodup := by
  rw [used_numbered]
  refine (List.filter_sublist.map Prod.fst).nodup ?_
  have hkeys : (amounts before after keys start).map Prod.fst = keys := by
    rw [amounts, List.map_map]
    exact List.zipIdx_map_fst start keys
  rwa [hkeys]

/-- The network of a reservation before anything flows. -/
theorem paired_build (targets : List Nat) :
    let arcs := forward edges reserved committed uw targets n ownSupply
    let net := build edges reserved committed uw targets n ownSupply
    net.Paired (arcs.map Prod.fst) ∧ net.Indexed (arcs.map Prod.fst) ∧
      net.cap = arcs.flatMap fun e => [e.2, 0] := by
  extract_lets arcs net
  have hnet := build_eq edges reserved committed uw targets n ownSupply
  simp only at hnet
  have hfst : arcs.map (fun e => e.1.1) = (arcs.map Prod.fst).map Prod.fst := by
    rw [List.map_map]
    rfl
  have hsnd : arcs.map (fun e => e.1.2) = (arcs.map Prod.fst).map Prod.snd := by
    rw [List.map_map]
    rfl
  have hget₁ : ∀ i, ((arcs.map Prod.fst).map Prod.fst).getD i 0 =
      ((arcs.map Prod.fst).getD i (0, 0)).1 := fun i =>
    List.getD_map _ ((0, 0) : Nat × Nat) Prod.fst
  have hget₂ : ∀ i, ((arcs.map Prod.fst).map Prod.snd).getD i 0 =
      ((arcs.map Prod.fst).getD i (0, 0)).2 := fun i =>
    List.getD_map _ ((0, 0) : Nat × Nat) Prod.snd
  have htail : net.tail = arcs.flatMap fun e => [e.1.1, e.1.2] := by
    show (build edges reserved committed uw targets n ownSupply).tail = _
    rw [hnet]
    rfl
  have hdest : net.dest = arcs.flatMap fun e => [e.1.2, e.1.1] := by
    show (build edges reserved committed uw targets n ownSupply).dest = _
    rw [hnet]
    rfl
  have hcap : net.cap = arcs.flatMap fun e => [e.2, 0] := by
    show (build edges reserved committed uw targets n ownSupply).cap = _
    rw [hnet]
    rfl
  have hlength : net.tail.length = 2 * (arcs.map Prod.fst).length := by
    rw [htail, length_pairs, List.length_map]
  refine ⟨⟨fun i _ => ?_, fun i _ => ?_, fun i _ => ?_, fun i _ => ?_, hlength, ?_⟩, ?_, hcap⟩
  · rw [htail, (getD_pairs _ _ _ _).1, hfst, hget₁]
  · rw [htail, (getD_pairs _ _ _ _).2, hsnd, hget₂]
  · rw [hdest, (getD_pairs _ _ _ _).1, hsnd, hget₂]
  · rw [hdest, (getD_pairs _ _ _ _).2, hfst, hget₁]
  · rw [hcap, length_pairs, List.length_map]
  · intro u a ha
    have hheads : net.heads = (List.range (n + 2)).map fun u =>
        (List.range net.tail.length).filter fun a => net.tail.getD a 0 = u := by
      show (build edges reserved committed uw targets n ownSupply).heads = _
      rw [htail, hnet]
      rfl
    unfold Network.out at ha
    rw [hheads, List.getD_eq_getElem?_getD, List.getElem?_map] at ha
    cases hu : (List.range (n + 2))[u]? with
    | none =>
      rw [hu] at ha
      simp at ha
    | some u' =>
      have hu' : u' = u := by
        obtain ⟨hlt, hget⟩ := List.getElem?_eq_some_iff.1 hu
        rw [← hget, List.getElem_range]
      rw [hu, hu'] at ha
      simp only [Option.map_some, Option.getD_some, List.mem_filter, List.mem_range,
        decide_eq_true_eq] at ha
      exact ⟨hlength ▸ ha.1, ha.2⟩

theorem keys_ledgerArcs (edges : Edges) (reserved : Reservations) (n : Nat) :
    (ledgerArcs edges reserved n).map Prod.fst =
      (edges.toList.filter fun e => decide (e.1.1 < n ∧ e.1.2 < n)).map Prod.fst := by
  rw [ledgerArcs, List.map_map]
  rfl

theorem keys_supplyArcs (uw : Underwriters) (committed : Committed) (targets : List Nat) (n : Nat)
    (ownSupply : Bool) : (supplyArcs uw committed targets n ownSupply).map Prod.fst =
      (uw.filter fun u => decide (u.1 < n ∧ ¬(!ownSupply ∧ u.1 ∈ targets))).map Prod.fst := by
  rw [supplyArcs, List.map_map]
  rfl

theorem key_of_mem_amounts {κ : Type} {before after : List Nat} {keys : List κ} {start : Nat}
    {p : κ × Nat} (h : p ∈ amounts before after keys start) : p.1 ∈ keys := by
  obtain ⟨i, hget, -⟩ := mem_amounts h
  exact List.mem_of_getElem? hget

/-- The arcs from the targets inside the network to its sink. -/
def sinkArcs (targets : List Nat) (n : Nat) : List ((Nat × Nat) × Nat) :=
  (targets.filter fun t => decide (t < n)).map fun t => ((t, n + 1), unbounded)

section Ends

variable {edges : Edges} {reserved : Reservations} {committed : Committed} {uw : Underwriters}
  {targets : List Nat} {n : Nat} {ownSupply : Bool} {before after : List Nat} {start : Nat}

theorem lt_of_mem_stakes {p : (Nat × Nat) × Nat}
    (h : p ∈ amounts before after ((ledgerArcs edges reserved n).map Prod.fst) start) :
    p.1.1 < n ∧ p.1.2 < n := by
  have hkey := key_of_mem_amounts h
  rw [keys_ledgerArcs] at hkey
  obtain ⟨e, he, hpe⟩ := List.mem_map.1 hkey
  rw [← hpe]
  exact of_decide_eq_true (List.mem_filter.1 he).2

theorem lt_of_mem_supplies {p : Nat × Nat}
    (h : p ∈ amounts before after
      ((supplyArcs uw committed targets n ownSupply).map Prod.fst) start) : p.1 < n := by
  have hkey := key_of_mem_amounts h
  rw [keys_supplyArcs] at hkey
  obtain ⟨e, he, hpe⟩ := List.mem_map.1 hkey
  rw [← hpe]
  exact (of_decide_eq_true (List.mem_filter.1 he).2).1

theorem ends_of_mem_sinks {p : (Nat × Nat) × Nat}
    (h : p ∈ amounts before after ((sinkArcs targets n).map Prod.fst) start) :
    p.1.1 ∈ targets ∧ p.1.1 < n ∧ p.1.2 = n + 1 := by
  obtain ⟨q, hq, hpq⟩ := List.mem_map.1 (key_of_mem_amounts h)
  obtain ⟨t, ht, rfl⟩ := List.mem_map.1 hq
  obtain ⟨ht, hlt⟩ := List.mem_filter.1 ht
  rw [← hpq]
  exact ⟨ht, of_decide_eq_true hlt, rfl⟩

end Ends

/-- What a flow moves on the stakes and to the sink, and draws from the supplies, is balanced
at every node but the sink, and draws all that flows. -/
theorem circulation_flow (edges : Edges) (reserved : Reservations) (committed : Committed)
    (uw : Underwriters) (targets : List Nat) (n amount : Nat) (ownSupply : Bool) :
    let net := build edges reserved committed uw targets n ownSupply
    let after := (net.flow amount).1.cap
    let stakes := ledgerArcs edges reserved n
    let supplies := supplyArcs uw committed targets n ownSupply
    let byStake := amounts net.cap after (stakes.map Prod.fst) 0
    let bySupply := amounts net.cap after (supplies.map Prod.fst) stakes.length
    let toSink := amounts net.cap after ((sinkArcs targets n).map Prod.fst)
      (stakes.length + supplies.length)
    (∀ v, v ≠ n + 1 → outflow v (listFlow byStake + listFlow toSink) =
      inflow v (listFlow byStake + listFlow toSink) + listFlow bySupply v) ∧
    (net.flow amount).2 = (bySupply.map Prod.snd).sum := by
  extract_lets net after stakes supplies byStake bySupply toSink
  let arcs := stakes ++ (supplies.map fun u => ((n, u.1), u.2)) ++ sinkArcs targets n
  obtain ⟨hpaired, hindexed, hcap⟩ : net.Paired (arcs.map Prod.fst) ∧
      net.Indexed (arcs.map Prod.fst) ∧ net.cap = arcs.flatMap fun e => [e.2, 0] :=
    paired_build targets
  have hbuild := build_eq edges reserved committed uw targets n ownSupply
  have hsrc : net.src = n := by
    show (build edges reserved committed uw targets n ownSupply).src = n
    rw [hbuild]
    rfl
  have hsnk : net.snk = n + 1 := by
    show (build edges reserved committed uw targets n ownSupply).snk = n + 1
    rw [hbuild]
    rfl
  have haug : Augments (arcs.map Prod.fst) net (net.flow amount).1 (net.flow amount).2 :=
    augments_flow hpaired (by rw [hsrc, hsnk]; omega) hindexed amount
  obtain ⟨hinner, hsource⟩ := circulates haug fun i _ => by
    rw [hcap, (getD_pairs _ _ _ _).2, List.getD_eq_getElem?_getD, List.getElem?_map]
    cases arcs[i]? <;> rfl
  -- The amounts on the three kinds of arcs make the circulation.
  let fromSource := bySupply.map fun p => ((n, p.1), p.2)
  have hsplit : amounts net.cap after (arcs.map Prod.fst) 0 = byStake ++ fromSource ++ toSink := by
    show amounts net.cap after ((stakes ++ _ ++ sinkArcs targets n).map Prod.fst) 0 = _
    rw [List.map_append, List.map_append, amounts_append, amounts_append]
    refine congrArg₂ (· ++ ·) (congrArg₂ (· ++ ·) rfl ?_) ?_
    · show _ = bySupply.map _
      rw [← amounts_map, List.map_map, List.map_map, Nat.zero_add, List.length_map]
      rfl
    · simp [toSink]
  rw [hsrc, hsnk] at hinner
  rw [hsrc] at hsource
  simp only [after, hsplit, listFlow_append, map_add] at hinner hsource
  have hin : ∀ v, inflow v (listFlow fromSource) = listFlow bySupply v := by
    intro v
    rw [listFlow_apply, amountAt, listFlow, map_list_sum, List.map_map, List.map_map]
    exact congrArg List.sum (List.map_congr_left fun p _ => inflow_single v _ _)
  constructor
  · intro v hv
    rw [map_add, map_add]
    by_cases hvn : v < n
    · have hcirc := hinner v (by omega) (by omega)
      have h₁ : outflow v (listFlow fromSource) = 0 := outflow_listFlow_eq_zero fun p hp => by
        obtain ⟨q, -, rfl⟩ := List.mem_map.1 hp
        exact fun heq => absurd hvn (heq ▸ lt_irrefl n)
      have := hin v
      omega
    · have h₁ : outflow v (listFlow byStake) = 0 := outflow_listFlow_eq_zero fun p hp => by
        have := (lt_of_mem_stakes hp).1
        omega
      have h₂ : inflow v (listFlow byStake) = 0 := inflow_listFlow_eq_zero fun p hp => by
        have := (lt_of_mem_stakes hp).2
        omega
      have h₃ : amountAt bySupply v = 0 := amountAt_eq_zero fun hmem => by
        obtain ⟨p, hp, rfl⟩ := List.mem_map.1 hmem
        exact hvn (lt_of_mem_supplies hp)
      have h₄ : outflow v (listFlow toSink) = 0 := outflow_listFlow_eq_zero fun p hp => by
        have := (ends_of_mem_sinks hp).2.1
        omega
      have h₅ : inflow v (listFlow toSink) = 0 := inflow_listFlow_eq_zero fun p hp => by
        have := (ends_of_mem_sinks hp).2.2
        omega
      rw [h₁, h₂, h₄, h₅, listFlow_apply, h₃]
  · have h₁ : outflow n (listFlow byStake) = 0 := outflow_listFlow_eq_zero fun p hp => by
      have := (lt_of_mem_stakes hp).1
      omega
    have h₂ : outflow n (listFlow toSink) = 0 := outflow_listFlow_eq_zero fun p hp => by
      have := (ends_of_mem_sinks hp).2.1
      omega
    have h₃ : outflow n (listFlow fromSource) = (bySupply.map Prod.snd).sum := by
      rw [listFlow, map_list_sum, List.map_map, List.map_map]
      refine congrArg List.sum (List.map_congr_left fun p _ => ?_)
      exact (outflow_single n _ _).trans (if_pos rfl)
    -- Nothing flows back to the source.
    have h₄ : inflow n (listFlow byStake) = 0 := inflow_listFlow_eq_zero fun p hp => by
      have := (lt_of_mem_stakes hp).2
      omega
    have h₅ : inflow n (listFlow fromSource) = 0 := inflow_listFlow_eq_zero fun p hp => by
      obtain ⟨q, hq, rfl⟩ := List.mem_map.1 hp
      have := lt_of_mem_supplies hq
      dsimp only
      omega
    have h₆ : inflow n (listFlow toSink) = 0 := inflow_listFlow_eq_zero fun p hp => by
      have := (ends_of_mem_sinks hp).2.2
      omega
    omega

/-- What a flow moves on the stakes and draws from the supplies is balanced outside the
targets inside the network. -/
theorem balanced_stakes (edges : Edges) (reserved : Reservations) (committed : Committed)
    (uw : Underwriters) (targets : List Nat) (n amount : Nat) (ownSupply : Bool) {v : Nat}
    (hv : ¬(v ∈ targets ∧ v < n)) :
    let net := build edges reserved committed uw targets n ownSupply
    let after := (net.flow amount).1.cap
    let stakes := ledgerArcs edges reserved n
    let supplies := supplyArcs uw committed targets n ownSupply
    let byStake := amounts net.cap after (stakes.map Prod.fst) 0
    let bySupply := amounts net.cap after (supplies.map Prod.fst) stakes.length
    outflow v (listFlow byStake) = inflow v (listFlow byStake) + listFlow bySupply v := by
  extract_lets net after stakes supplies byStake bySupply
  by_cases hsink : v = n + 1
  · have h₁ : outflow v (listFlow byStake) = 0 := outflow_listFlow_eq_zero fun p hp => by
      have := (lt_of_mem_stakes hp).1
      omega
    have h₂ : inflow v (listFlow byStake) = 0 := inflow_listFlow_eq_zero fun p hp => by
      have := (lt_of_mem_stakes hp).2
      omega
    have h₃ : amountAt bySupply v = 0 := amountAt_eq_zero fun hmem => by
      obtain ⟨p, hp, hpv⟩ := List.mem_map.1 hmem
      have := lt_of_mem_supplies hp
      omega
    rw [h₁, h₂, listFlow_apply, h₃]
  · have hcirc :=
      (circulation_flow edges reserved committed uw targets n amount ownSupply).1 v hsink
    rw [map_add, map_add] at hcirc
    have h₁ : outflow v (listFlow (amounts net.cap after ((sinkArcs targets n).map Prod.fst)
        (stakes.length + supplies.length))) = 0 := outflow_listFlow_eq_zero fun p hp heq => by
      obtain ⟨hmem, hlt, -⟩ := ends_of_mem_sinks hp
      rw [heq] at hmem hlt
      exact hv ⟨hmem, hlt⟩
    have h₂ : inflow v (listFlow (amounts net.cap after ((sinkArcs targets n).map Prod.fst)
        (stakes.length + supplies.length))) = 0 := inflow_listFlow_eq_zero fun p hp heq =>
      hsink (heq.symm.trans (ends_of_mem_sinks hp).2.2)
    rw [h₁, h₂, Nat.add_zero, Nat.add_zero] at hcirc
    exact hcirc

/-- Towards one debtor it is balanced but for the debtor, and draws all that flows. -/
theorem balanced_flow (edges : Edges) (reserved : Reservations) (committed : Committed)
    (uw : Underwriters) (debtor n amount : Nat) (ownSupply : Bool) :
    let net := build edges reserved committed uw [debtor] n ownSupply
    let after := (net.flow amount).1.cap
    let stakes := ledgerArcs edges reserved n
    let supplies := supplyArcs uw committed [debtor] n ownSupply
    let byStake := amounts net.cap after (stakes.map Prod.fst) 0
    let bySupply := amounts net.cap after (supplies.map Prod.fst) stakes.length
    Balanced (listFlow byStake) (listFlow bySupply) debtor ∧
      (net.flow amount).2 = (bySupply.map Prod.snd).sum :=
  ⟨fun _ hv => balanced_stakes edges reserved committed uw [debtor] n amount ownSupply
      fun hmem => hv (List.mem_singleton.1 hmem.1),
    (circulation_flow edges reserved committed uw [debtor] n amount ownSupply).2⟩

theorem sum_filter_pos {κ : Type} (l : List (κ × Nat)) :
    ((l.filter fun p => decide (0 < p.2)).map Prod.snd).sum = (l.map Prod.snd).sum := by
  induction l with
  | nil => rfl
  | cons p l ih =>
    rw [List.filter_cons]
    split
    · rw [List.map_cons, List.map_cons, List.sum_cons, List.sum_cons, ih]
    · next h =>
      have hz : p.2 = 0 := by simpa using h
      rw [ih, List.map_cons, List.sum_cons, hz, Nat.zero_add]

/-- What the flow to a debtor uses is a flow to the debtor, within what is left, of all that
flows. -/
theorem flow_spec (edges : Edges) (reserved : Reservations) (committed : Committed) (n : Nat)
    {supplies : Nat → Nat} (hnodup : (uw.map Prod.fst).Nodup)
    (huw : ∀ p ∈ uw, p.2 ≤ supplies p.1) (debtor amount : Nat) (ownSupply : Bool) :
    let net := build edges reserved committed uw [debtor] n ownSupply
    let held : Held :=
      { edges := used net.cap (net.flow amount).1.cap net.ledgerArc
        supply := used net.cap (net.flow amount).1.cap net.supplyArc }
    held.FlowsTo debtor ∧
      (∀ k, amountAt held.edges k ≤ OrdMap.getD' edges k 0 - OrdMap.getD' reserved k 0) ∧
      (∀ u, amountAt held.supply u ≤ supplies u - OrdMap.getD' committed u 0) ∧
      (net.flow amount).2 = held.amount := by
  intro net held
  set after := (net.flow amount).1.cap with hafter
  obtain ⟨hbalanced, hdrawn⟩ :=
    balanced_flow edges reserved committed uw debtor n amount ownSupply
  have hbuild := build_eq edges reserved committed uw [debtor] n ownSupply
  have hcap : net.cap =
      (forward edges reserved committed uw [debtor] n ownSupply).flatMap fun e => [e.2, 0] :=
    (paired_build [debtor]).2.2
  have hledger : net.ledgerArc = numbered ((ledgerArcs edges reserved n).map Prod.fst) 0 := by
    show (build edges reserved committed uw [debtor] n ownSupply).ledgerArc = _
    rw [hbuild]
    rfl
  have hsupply : net.supplyArc =
      numbered ((supplyArcs uw committed [debtor] n ownSupply).map Prod.fst)
        (ledgerArcs edges reserved n).length := by
    show (build edges reserved committed uw [debtor] n ownSupply).supplyArc = _
    rw [hbuild]
    rfl
  have hheld : ({ edges := used net.cap after net.ledgerArc
                  supply := used net.cap after net.supplyArc } : Held) = held := rfl
  rw [hledger, hsupply] at hheld
  have hkeys : (held.edges.map Prod.fst).Nodup := by
    rw [← hheld]
    refine nodup_used ?_
    rw [keys_ledgerArcs]
    exact (List.filter_sublist.map Prod.fst).nodup (OrdMap.nodup_keys edges)
  have hdraws : (held.supply.map Prod.fst).Nodup := by
    rw [← hheld]
    refine nodup_used ?_
    rw [keys_supplyArcs]
    exact (List.filter_sublist.map Prod.fst).nodup hnodup
  -- Where the capacities of the stakes and of the supplies stand in the list of all.
  have hstakes : ∀ i < (ledgerArcs edges reserved n).length,
      ((forward edges reserved committed uw [debtor] n ownSupply).map Prod.snd).getD (0 + i) 0 =
        ((ledgerArcs edges reserved n).map Prod.snd).getD i 0 := by
    intro i hi
    rw [forward, List.append_assoc, List.map_append, Nat.zero_add, List.getD_eq_getElem?_getD,
      List.getElem?_append_left (by simpa using hi), ← List.getD_eq_getElem?_getD]
  have hsupplies : ∀ i < (supplyArcs uw committed [debtor] n ownSupply).length,
      ((forward edges reserved committed uw [debtor] n ownSupply).map Prod.snd).getD
          ((ledgerArcs edges reserved n).length + i) 0 =
        ((supplyArcs uw committed [debtor] n ownSupply).map Prod.snd).getD i 0 := by
    intro i hi
    rw [forward, List.append_assoc, List.map_append, List.map_append, List.map_map,
      List.getD_eq_getElem?_getD, List.getElem?_append_right (by simp), List.length_map,
      Nat.add_sub_cancel_left, List.getElem?_append_left (by simpa using hi),
      ← List.getD_eq_getElem?_getD]
    rfl
  refine ⟨⟨hkeys, hdraws, fun p hp => ?_, ?_⟩, amountAt_le hkeys fun p hp => ?_,
    amountAt_le hdraws fun p hp => ?_, ?_⟩
  · rw [← hheld] at hp
    exact of_decide_eq_true (List.mem_filter.1 hp).2
  · rw [← hheld]
    simp only [listFlow_used]
    exact hbalanced
  · rw [← hheld] at hp
    simp only [used_numbered, hcap] at hp
    obtain ⟨q, hq, hkey, hle⟩ := le_of_mem_amounts hstakes (List.mem_filter.1 hp).1
    obtain ⟨e, he, rfl⟩ := List.mem_map.1 hq
    have hget : edges[e.1]? = some e.2 := OrdMap.mem_toList.1 (List.mem_filter.1 he).1
    rw [← hkey, OrdMap.getD'_eq, hget]
    exact hle
  · rw [← hheld] at hp
    simp only [used_numbered, hcap] at hp
    obtain ⟨q, hq, hkey, hle⟩ := le_of_mem_amounts hsupplies (List.mem_filter.1 hp).1
    obtain ⟨e, he, rfl⟩ := List.mem_map.1 hq
    have := huw e (List.mem_filter.1 he).1
    rw [← hkey]
    exact hle.trans (Nat.sub_le_sub_right this _)
  · rw [← hheld, Held.amount]
    simp only [used_numbered, sum_filter_pos]
    exact hdrawn

/-- A granted reservation is a flow to the debtor, within what is left, of at least the
amount asked for. -/
theorem reserveInner_spec {supplies : Nat → Nat} (hnodup : (uw.map Prod.fst).Nodup)
    (huw : ∀ p ∈ uw, p.2 ≤ supplies p.1)
    (h : reserveInner edges reserved committed uw debtor n amount ownSupply =
      (some held, reserved', committed')) :
    held.FlowsTo debtor ∧
      (∀ k, amountAt held.edges k ≤ OrdMap.getD' edges k 0 - OrdMap.getD' reserved k 0) ∧
      (∀ u, amountAt held.supply u ≤ supplies u - OrdMap.getD' committed u 0) ∧
      amount ≤ held.amount := by
  unfold reserveInner at h
  split at h
  · next hzero =>
    simp only [Prod.mk.injEq, Option.some.injEq] at h
    obtain ⟨rfl, -, -⟩ := h
    exact ⟨Held.flowsTo_empty debtor, fun _ => Nat.zero_le _, fun _ => Nat.zero_le _,
      hzero ▸ Nat.zero_le _⟩
  simp only at h
  split at h
  · cases h
  next htotal =>
  simp only [Prod.mk.injEq, Option.some.injEq] at h
  obtain ⟨rfl, -, -⟩ := h
  obtain ⟨hflows, hedges, hsupply, hdrawn⟩ :=
    flow_spec edges reserved committed n hnodup huw debtor amount ownSupply
  exact ⟨hflows, hedges, hsupply, (not_lt.1 htotal).trans hdrawn.le⟩

/-- It draws just what was asked for. -/
theorem reserveInner_amount (hnodup : (uw.map Prod.fst).Nodup)
    (h : reserveInner edges reserved committed uw debtor n amount ownSupply =
      (some held, reserved', committed')) : held.amount = amount := by
  unfold reserveInner at h
  split at h
  · next hzero =>
    simp only [Prod.mk.injEq, Option.some.injEq] at h
    obtain ⟨rfl, -, -⟩ := h
    exact hzero.symm
  simp only at h
  split at h
  · cases h
  next htotal =>
  simp only [Prod.mk.injEq, Option.some.injEq] at h
  obtain ⟨rfl, -, -⟩ := h
  have huw : ∀ p ∈ uw, p.2 ≤ amountAt uw p.1 := fun p hp => (amountAt_of_mem hnodup hp).ge
  obtain ⟨-, -, -, hdrawn⟩ :=
    flow_spec edges reserved committed n hnodup huw debtor amount ownSupply
  exact hdrawn.symm.trans (le_antisymm (flow_le _ amount) (not_lt.1 htotal))

end Reserve

end Edet.Flow
