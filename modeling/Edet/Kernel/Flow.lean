import Edet.Library.OrdMap

/-!
# Capacity as a cut

An account's capacity is the maximum flow into it from the community's underwriters,
across directed stakes (`Edges`), over a residual that already has outstanding credit
reserved out of it (`Reservations` on the arcs, `Committed` on the supplies).

`reserve` runs a Dinic max-flow with an early exit at the amount asked for and hands
back a `Held`: exactly the arc amounts and the supply draws it consumed. `release`
gives exactly those back. `decompose` reads a hold as paths from an underwriter to
the debtor, and `fromPaths` adds paths up again; a hold whose arcs close a cycle does
not decompose.

Everything is in minor units and iterates in the order of the maps' keys, so the
result is a function of the maps alone.

The loops of the flow carry a bound on their steps. `Network.flowLoop` gets the limit
itself, since every phase moves at least one unit; `Network.blockingLoop` gets a
multiple of arcs times nodes, since a step saturates an arc, moves an arc pointer, or
lengthens a path of at most as many arcs as there are nodes.
-/

namespace Edet.Flow

/-- Directed stake, keyed `(creditor, debtor)`. -/
abbrev Edges := OrdMap (Nat × Nat) Nat

/-- What outstanding credit reserves on each arc. -/
abbrev Reservations := OrdMap (Nat × Nat) Nat

/-- What outstanding credit draws from each underwriter's supply. -/
abbrev Committed := OrdMap Nat Nat

/-- The underwriters and their supplies, in ascending order of account. -/
abbrev Underwriters := List (Nat × Nat)

/-- Exactly what one obligation reserves: amounts on arcs, draws on supplies. -/
structure Held where
  edges : List ((Nat × Nat) × Nat) := []
  supply : List (Nat × Nat) := []
deriving DecidableEq

/-- What a hold delivers: the sum of its draws. -/
def Held.amount (h : Held) : Nat := (h.supply.map Prod.snd).sum

/-- One route of a hold, from an underwriter to the debtor. -/
structure Path where
  source : Nat
  arcs : List (Nat × Nat)
  value : Nat
deriving DecidableEq

/-! ### Holds as paths -/

/-- One route of `decompose`: from `node` to the debtor, always along the first arc
with something left on it. `value` is what the route can still carry and `seen` the
nodes it has visited, of which there are at most as many as arcs: the bound on the
steps is the number of arcs plus one. -/
def route (edgeLeft : Edges) (src debtor : Nat) :
    Nat → Nat → List (Nat × Nat) → Nat → List Nat → Except String (List (Nat × Nat) × Nat)
  | 0, node, _, value, _ =>
    .error s!"held is not a flow: route from {src} stranded at {node} with {value} to place"
  | fuel + 1, node, arcs, value, seen =>
    if node = debtor then .ok (arcs, value)
    else
      match edgeLeft.toList.find? (fun p => p.1.1 = node ∧ 0 < p.2) with
      | none =>
        .error s!"held is not a flow: route from {src} stranded at {node} with {value} to place"
      | some ((a, b), w) =>
        if b ∈ seen then .error s!"held is not a flow: route from {src} cycles at {b}"
        else route edgeLeft src debtor fuel b (arcs ++ [(a, b)]) (min value w) (seen ++ [b])

/-- The routes of `decompose`, one for each step of its budget. -/
def routes (debtor : Nat) :
    Nat → Edges → Committed → List Path → Except String (Edges × Committed × List Path)
  | 0, edgeLeft, supplyLeft, out => .ok (edgeLeft, supplyLeft, out)
  | budget + 1, edgeLeft, supplyLeft, out =>
    match supplyLeft.toList.find? (fun p => decide (0 < p.2)) with
    | none => .ok (edgeLeft, supplyLeft, out)
    | some (src, v) =>
      match route edgeLeft src debtor (edgeLeft.size + 1) src [] v [src] with
      | .error e => .error e
      | .ok (arcs, value) =>
        routes debtor budget
          (arcs.foldl (fun m key => m.modify key (· - value)) edgeLeft)
          (supplyLeft.modify src (· - value))
          (out ++ [{ source := src, arcs, value }])

/-- Read a hold as paths to the debtor. -/
def decompose (held : Held) (debtor : Nat) : Except String (List Path) :=
  match routes debtor (held.edges.length + held.supply.length + 1)
      (Std.ExtTreeMap.ofList held.edges) (Std.ExtTreeMap.ofList held.supply) [] with
  | .error e => .error e
  | .ok (edgeLeft, supplyLeft, out) =>
    if supplyLeft.toList.any (fun p => decide (0 < p.2)) then
      .error "held is not a flow: supply left unplaced"
    else if edgeLeft.toList.any (fun p => decide (0 < p.2)) then
      .error "held is not a flow: arc flow with no source behind it"
    else .ok out

/-- Add a list of keyed amounts to a map. -/
def addAll {κ : Type} [Ord κ] [Std.TransOrd κ] (m : OrdMap κ Nat) (l : List (κ × Nat)) :
    OrdMap κ Nat :=
  l.foldl (fun m p => OrdMap.bump m p.1 p.2) m

/-- The hold that paths add up to. -/
def fromPaths (paths : List Path) : Held :=
  let paths := paths.filter fun p => decide (p.value ≠ 0)
  { edges := (addAll ∅ (paths.flatMap fun p => p.arcs.map fun key => (key, p.value))).toList
    supply := (addAll ∅ (paths.map fun p => (p.source, p.value))).toList }

/-! ### The network -/

/-- More than any flow the ledger asks for. -/
def unbounded : Nat := (2 ^ 64 - 1) / 4

/-- The residual network. Arc `a` leads from `tail a` to `dest a` with `cap a` left on
it, and `a ^^^ 1` is its reverse. `heads u` lists the arcs out of `u` in ascending
order; the source keeps the same lists in one packed array.

The source also packs the nodes it uses into consecutive slots, in ascending order of
account. Here a node is its account, the super-source is `n` and the sink `n + 1`:
the packing keeps the order of nodes and arcs, so every step is the same step. -/
structure Network where
  dest : List Nat := []
  cap : List Nat := []
  tail : List Nat := []
  heads : List (List Nat) := []
  /-- The stake edges in the network, each with its arc. -/
  ledgerArc : List ((Nat × Nat) × Nat) := []
  /-- The underwriters in the network, each with its supply arc. -/
  supplyArc : List (Nat × Nat) := []
  src : Nat
  snk : Nat

namespace Network

/-- Add an arc and its reverse. -/
def arc (net : Network) (u v c : Nat) : Network :=
  { net with dest := net.dest ++ [v, u], cap := net.cap ++ [c, 0], tail := net.tail ++ [u, v] }

/-- The arc of a stake edge: what its reservation leaves free. -/
def addLedger (reserved : Reservations) (n : Nat) (net : Network) (e : (Nat × Nat) × Nat) :
    Network :=
  if e.1.1 < n ∧ e.1.2 < n then
    { net.arc e.1.1 e.1.2 (e.2 - OrdMap.getD' reserved e.1 0) with
      ledgerArc := net.ledgerArc ++ [(e.1, net.dest.length)] }
  else net

/-- The supply arc of an underwriter. A target's own supply is left out, unless
`ownSupply` asks for it. -/
def addSupply (committed : Committed) (targets : List Nat) (n : Nat) (ownSupply : Bool)
    (net : Network) (u : Nat × Nat) : Network :=
  if u.1 < n ∧ ¬(!ownSupply ∧ u.1 ∈ targets) then
    { net.arc net.src u.1 (u.2 - OrdMap.getD' committed u.1 0) with
      supplyArc := net.supplyArc ++ [(u.1, net.dest.length)] }
  else net

/-- The arc from a target to the sink. -/
def addTarget (n : Nat) (net : Network) (t : Nat) : Network :=
  if t < n then net.arc t net.snk unbounded else net

/-- List the arcs out of every node. -/
def index (net : Network) (nodes : Nat) : Network :=
  { net with
    heads := (List.range nodes).map fun u =>
      (List.range net.tail.length).filter fun a => net.tail.getD a 0 = u }

def build (edges : Edges) (reserved : Reservations) (committed : Committed)
    (uw : Underwriters) (targets : List Nat) (n : Nat) (ownSupply : Bool) : Network :=
  let net : Network := { src := n, snk := n + 1 }
  let net := edges.toList.foldl (addLedger reserved n) net
  let net := uw.foldl (addSupply committed targets n ownSupply) net
  let net := targets.foldl (addTarget n) net
  net.index (n + 2)

/-- The arcs out of `u`. -/
def out (net : Network) (u : Nat) : List Nat := net.heads.getD u []

/-- Breadth-first search from the queue `q`; a node enters the queue once, when it gets
its level. -/
def levelsLoop (net : Network) : Nat → List (Option Nat) → List Nat → List (Option Nat)
  | 0, level, _ => level
  | _, level, [] => level
  | fuel + 1, level, u :: q =>
    let (level, q) := (net.out u).foldl (fun (st : List (Option Nat) × List Nat) a =>
      let v := net.dest.getD a 0
      if 0 < net.cap.getD a 0 ∧ (st.1.getD v none).isNone then
        (st.1.set v ((st.1.getD u none).map (· + 1)), st.2 ++ [v])
      else st) (level, q)
    net.levelsLoop fuel level q

/-- The distance of every node from the source, where the sink has one. -/
def levels (net : Network) : Option (List (Option Nat)) :=
  let nodes := net.heads.length
  let level := net.levelsLoop nodes ((List.replicate nodes none).set net.src (some 0)) [net.src]
  if (level.getD net.snk none).isSome then some level else none

/-- Is `a` an arc one level further on, with something left? -/
def admissible (net : Network) (level : List (Option Nat)) (u a : Nat) : Bool :=
  decide (0 < net.cap.getD a 0) &&
    match level.getD u none, level.getD (net.dest.getD a 0) none with
    | some lu, some lv => lv == lu + 1
    | _, _ => false

/-- Move `u`'s arc pointer to its next admissible arc. -/
def scan (net : Network) (level : List (Option Nat)) (u next : Nat) : Nat × Option Nat :=
  let rest := (net.out u).drop next
  let skipped := rest.takeWhile fun a => !net.admissible level u a
  (next + skipped.length, rest[skipped.length]?)

/-- Push `amount` along a path. -/
def push (cap : List Nat) (path : List Nat) (amount : Nat) : List Nat :=
  path.foldl (fun cap a =>
    let cap := cap.set a (cap.getD a 0 - amount)
    cap.set (a ^^^ 1) (cap.getD (a ^^^ 1) 0 + amount)) cap

/-- The least capacity along a path, `0` for the empty one. -/
def bottleneck (cap : List Nat) (path : List Nat) : Nat :=
  ((path.map fun a => cap.getD a 0).min?).getD 0

/-- One phase: depth-first augmentation along the levels, with an arc pointer for each
node. `path` leads from the source to `u`. -/
def blockingLoop (level : List (Option Nat)) (limit : Nat) :
    Nat → Network → List Nat → List Nat → Nat → Nat → Network × Nat
  | 0, net, _, _, _, total => (net, total)
  | fuel + 1, net, nextArc, path, u, total =>
    if limit ≤ total then (net, total)
    else if u = net.snk then
      let amount := min (bottleneck net.cap path) (limit - total)
      let cap := push net.cap path amount
      -- Keep the path up to the first arc the push emptied.
      let kept := path.takeWhile fun a => cap.getD a 0 != 0
      let u := match kept.getLast? with
        | none => net.src
        | some a => net.dest.getD a 0
      blockingLoop level limit fuel { net with cap } nextArc kept u (total + amount)
    else
      match net.scan level u (nextArc.getD u 0) with
      | (next, some a) =>
        blockingLoop level limit fuel net (nextArc.set u next) (path ++ [a]) (net.dest.getD a 0) total
      | (next, none) =>
        let nextArc := nextArc.set u next
        match path.getLast? with
        | none => (net, total)
        | some a =>
          -- A dead end: step back and pass over the arc that led here.
          let u := net.dest.getD (a ^^^ 1) 0
          blockingLoop level limit fuel net (nextArc.set u (nextArc.getD u 0 + 1))
            path.dropLast u total

/-- The bound on the steps of one phase. -/
def phaseFuel (net : Network) : Nat := 4 * (net.tail.length + 2) * (net.heads.length + 4)

/-- Phases until the limit is reached or the sink is cut off. -/
def flowLoop (limit : Nat) : Nat → Network → Nat → Network × Nat
  | 0, net, total => (net, total)
  | fuel + 1, net, total =>
    if total < limit then
      match net.levels with
      | none => (net, total)
      | some level =>
        let (net, total) := blockingLoop level limit net.phaseFuel net
          (List.replicate net.heads.length 0) [] net.src total
        flowLoop limit fuel net total
    else (net, total)

/-- Augment until `limit` units flow or no path is left. -/
def flow (net : Network) (limit : Nat) : Network × Nat := flowLoop limit limit net 0

end Network

/-! ### Queries -/

def capacityInner (edges : Edges) (reserved : Reservations) (committed : Committed)
    (uw : Underwriters) (targets : List Nat) (n limit : Nat) (ownSupply : Bool) : Nat :=
  if targets.isEmpty ∨ n = 0 then 0
  else ((Network.build edges reserved committed uw targets n ownSupply).flow limit).2

/-- The flow into a set of targets, up to `limit`. -/
def capacity (edges : Edges) (reserved : Reservations) (committed : Committed)
    (uw : Underwriters) (targets : List Nat) (n limit : Nat) : Nat :=
  capacityInner edges reserved committed uw targets n limit false

/-- The same with the targets' own supplies counted. -/
def capacityWithOwnSupply (edges : Edges) (reserved : Reservations) (committed : Committed)
    (uw : Underwriters) (targets : List Nat) (n limit : Nat) : Nat :=
  capacityInner edges reserved committed uw targets n limit true

/-- What a member may confer on another: an underwriter's supply, anyone else's
capacity. -/
def conferrable (edges : Edges) (reserved : Reservations) (committed : Committed)
    (uw : Underwriters) (member n : Nat) : Nat :=
  match uw.find? (fun u => u.1 = member) with
  | some (_, supply) => supply
  | none => capacity edges reserved committed uw [member] n (2 ^ 64 - 1)

/-! ### Reservation and release -/

/-- What a list of arcs was used for: the capacity each had before less what is left,
where that is positive. -/
def used {κ : Type} (before after : List Nat) (arcs : List (κ × Nat)) : List (κ × Nat) :=
  (arcs.map fun p => (p.1, before.getD p.2 0 - after.getD p.2 0)).filter fun p => decide (0 < p.2)

def reserveInner (edges : Edges) (reserved : Reservations) (committed : Committed)
    (uw : Underwriters) (debtor n amount : Nat) (ownSupply : Bool) :
    Option Held × Reservations × Committed :=
  if amount = 0 then (some {}, reserved, committed)
  else
    let net := Network.build edges reserved committed uw [debtor] n ownSupply
    let (net', total) := net.flow amount
    if total < amount then (none, reserved, committed)
    else
      let held : Held :=
        { edges := used net.cap net'.cap net.ledgerArc
          supply := used net.cap net'.cap net.supplyArc }
      (some held, addAll reserved held.edges, addAll committed held.supply)

/-- Reserve `amount` towards a debtor, whose own supply does not count. -/
def reserve (edges : Edges) (reserved : Reservations) (committed : Committed)
    (uw : Underwriters) (debtor n amount : Nat) : Option Held × Reservations × Committed :=
  reserveInner edges reserved committed uw debtor n amount false

def reserveWithOwnSupply (edges : Edges) (reserved : Reservations) (committed : Committed)
    (uw : Underwriters) (debtor n amount : Nat) : Option Held × Reservations × Committed :=
  reserveInner edges reserved committed uw debtor n amount true

/-- Take a list of keyed amounts out of a map, and drop the entries that empty. -/
def takeAll {κ : Type} [Ord κ] [Std.TransOrd κ] (m : OrdMap κ Nat) (l : List (κ × Nat)) :
    OrdMap κ Nat :=
  OrdMap.positive (l.foldl (fun m p => m.modify p.1 (· - p.2)) m)

/-- Give a hold back. -/
def release (reserved : Reservations) (committed : Committed) (held : Held) :
    Reservations × Committed :=
  (takeAll reserved held.edges, takeAll committed held.supply)

/-- What an underwriter may not lower its supply below. -/
def supplyFloor (committed : Committed) (underwriter : Nat) : Nat :=
  OrdMap.getD' committed underwriter 0

/-! ### Stakes -/

/-- Raise the stake of `creditor` on `debtor` to `amount`, as far as the creditor has
standing to confer it. -/
def stake (edges : Edges) (creditor debtor amount conferrable : Nat) : Edges :=
  if creditor = debtor then edges
  else
    let staked := min amount conferrable
    if staked = 0 then edges
    else edges.insert (creditor, debtor) (max (OrdMap.getD' edges (creditor, debtor) 0) staked)

/-- Let every stake fade by `num / den`, never below what is reserved on it. -/
def decay (edges : Edges) (reserved : Reservations) (num den : Nat) : Edges :=
  if den = 0 ∨ den ≤ num then edges
  else OrdMap.positive (edges.map fun k w => max (w * num / den) (OrdMap.getD' reserved k 0))

def committedTotal (committed : Committed) : Nat := OrdMap.total (fun _ v => v) committed

end Edet.Flow
