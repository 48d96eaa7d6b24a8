import Edet.Kernel.Decompose
import Edet.Kernel.MaxFlow

/-!
# Circular holds

A reservation hands back what the flow used of every arc. The flow is built up in phases,
and a later phase may close a circle with what the earlier ones have left in use, so that
what is used goes partly round. Such a hold is not read as routes (`circular_hold`), although
it draws just what was asked for (`reserveInner_amount`).

`Network.Closes` says when a phase closes one: the stakes it leaves in use are those of
before that it does not run back whole, and those that it runs itself
(`Network.uses_of_augments`). As long as no phase does, nothing goes round
(`acyclic_of_straight`), and the hold is read as routes (`decomposes_of_straight`). Where the
arcs with something to spare close no cycle, no phase can (`straight_of_spare`).
-/

namespace Edet.Flow

open NetworkFlow

namespace Network

/-- One phase of a flow up to `limit`, as `flowLoop` runs it, between a network with what
has flowed and the next. -/
def Turns (limit : Nat) (before after : Network × Nat) : Prop :=
  before.2 < limit ∧ ∃ level, before.1.levels = some level ∧
    after = blockingLoop level limit before.1.phaseFuel before.1
      (List.replicate before.1.heads.length 0) [] before.1.src before.2

/-- The stake is in use: its arc can be run back. -/
def Uses (net : Network) (a b : Nat) : Prop :=
  ∃ k, ((a, b), k) ∈ net.ledgerArc ∧ 0 < net.cap.getD (k ^^^ 1) 0

/-- Between the two networks the stake's arc was run. -/
def Runs (net net' : Network) (a b : Nat) : Prop :=
  ∃ k, ((a, b), k) ∈ net.ledgerArc ∧ net'.cap.getD k 0 < net.cap.getD k 0

/-- Between the two networks all that the stake's arc carried was run back. -/
def RunsBack (net net' : Network) (a b : Nat) : Prop :=
  ∀ k, ((a, b), k) ∈ net.ledgerArc → net'.cap.getD (k ^^^ 1) 0 = 0

/-- The stakes in use that were not run back, together with those that were run, close a
circle. -/
def Closes (net net' : Network) : Prop :=
  ∃ v, Relation.TransGen
    (fun a b => net.Uses a b ∧ ¬net.RunsBack net' a b ∨ net.Runs net' a b) v v

/-- No phase of the flow up to `limit` closes a circle. -/
def Straight (net : Network) (limit : Nat) : Prop :=
  ∀ before after, Relation.ReflTransGen (Turns limit) (net, 0) before → Turns limit before after →
    ¬before.1.Closes after.1

variable {net net' : Network} {arcs : List (Nat × Nat)} {limit moved : Nat}

/-- The stakes have forward arcs. -/
def Staked (net : Network) (arcs : List (Nat × Nat)) : Prop :=
  ∀ p ∈ net.ledgerArc, ∃ i < arcs.length, p.2 = 2 * i

/-- A phase augments. -/
theorem augments_of_turns {before after : Network × Nat} (hw : before.1.Wired arcs)
    (h : Turns limit before after) : ∃ moved, Augments arcs before.1 after.1 moved := by
  obtain ⟨-, level, -, rfl⟩ := h
  have hstart : IsWalk before.1.src (before.1.ends []) before.1.src := rfl
  obtain ⟨moved, haug, -⟩ := @augments_blockingLoop arcs level limit before.1.phaseFuel before.1
    hw.paired hw.ends hw.indexed (List.replicate before.1.heads.length 0) [] before.1.src hstart
    (fun a ha => nomatch ha) before.2
  exact ⟨moved, haug⟩

theorem Wired.of_augments (hw : net.Wired arcs) (h : Augments arcs net net' moved) :
    net'.Wired arcs := by
  rw [h.same]
  exact hw.of_cap h.pushed.length

theorem Staked.of_augments (hstaked : net.Staked arcs) (h : Augments arcs net net' moved) :
    net'.Staked arcs := by
  rw [h.same]
  exact hstaked

/-- Any number of phases augment. -/
theorem augments_of_reaches {st : Network × Nat} (hw : net.Wired arcs)
    (h : Relation.ReflTransGen (Turns limit) (net, 0) st) :
    ∃ moved, Augments arcs net st.1 moved := by
  induction h with
  | refl => exact ⟨0, .refl arcs net⟩
  | tail _ hturn ih =>
    obtain ⟨moved, haug⟩ := ih
    obtain ⟨moved', haug'⟩ := augments_of_turns (hw.of_augments haug) hturn
    exact ⟨moved + moved', haug.trans haug'⟩

end Network

/-! ### The network of a reservation -/

section Reserve

variable {edges : Edges} {reserved reserved' : Reservations} {committed committed' : Committed}
  {uw : Underwriters} {debtor n amount : Nat} {targets : List Nat} {ownSupply : Bool} {held : Held}

/-- The arc of a stake has what is spare of it, and nothing to run back. -/
theorem cap_of_ledger {e : Nat × Nat} {k : Nat}
    (h : (e, k) ∈ (Network.build edges reserved committed uw targets n ownSupply).ledgerArc) :
    ∃ i < (Network.forward edges reserved committed uw targets n ownSupply).length, k = 2 * i ∧
      (Network.build edges reserved committed uw targets n ownSupply).cap.getD (2 * i) 0 =
        OrdMap.getD' edges e 0 - OrdMap.getD' reserved e 0 ∧
      (Network.build edges reserved committed uw targets n ownSupply).cap.getD (2 * i + 1) 0 = 0 := by
  have hcap := (@paired_build edges reserved committed uw n ownSupply targets).2.2
  rw [Network.build_eq] at h
  obtain ⟨⟨key, i⟩, hmem, heq⟩ := List.mem_map.1 h
  obtain ⟨rfl, rfl⟩ := Prod.mk.inj heq
  have hget := List.mem_zipIdx_iff_getElem?.1 hmem
  rw [List.getElem?_map, Option.map_eq_some_iff] at hget
  obtain ⟨p, hp, rfl⟩ := hget
  have hi := (List.getElem?_eq_some_iff.1 hp).1
  -- The stakes come first among the forward arcs.
  have hforward : (Network.forward edges reserved committed uw targets n ownSupply)[i]? = some p := by
    unfold Network.forward
    rw [List.append_assoc, List.getElem?_append_left hi]
    exact hp
  have hpair := Network.getD_pairs (fun e : (Nat × Nat) × Nat => e.2) (fun _ => 0)
    (Network.forward edges reserved committed uw targets n ownSupply) i
  refine ⟨i, (List.getElem?_eq_some_iff.1 hforward).1, rfl, ?_, ?_⟩
  · rw [hcap, hpair.1, List.getD_eq_getElem?_getD, List.getElem?_map, hforward]
    obtain ⟨q, hq, rfl⟩ := List.mem_map.1 (List.mem_of_getElem? hp)
    have hedge := OrdMap.mem_toList.1 (List.mem_filter.1 hq).1
    rw [OrdMap.getD'_eq edges, hedge]
    rfl
  · rw [hcap, hpair.2, List.getD_eq_getElem?_getD, List.getElem?_map, hforward]
    rfl

/-- Something is left on the arc. -/
def Spare (edges : Edges) (reserved : Reservations) (a b : Nat) : Prop :=
  OrdMap.getD' reserved (a, b) 0 < OrdMap.getD' edges (a, b) 0

/-- The arcs with something left close no cycle. -/
def NoSpareCycle (edges : Edges) (reserved : Reservations) : Prop :=
  ∀ v, ¬Relation.TransGen (Spare edges reserved) v v

/-- Stakes in use, and stakes that a phase runs, were spare. -/
theorem spare_of_augments {net' : Network} {moved : Nat}
    (h : Network.Augments
      ((Network.forward edges reserved committed uw targets n ownSupply).map Prod.fst)
      (Network.build edges reserved committed uw targets n ownSupply) net' moved) {a b k : Nat}
    (hk : ((a, b), k) ∈ net'.ledgerArc)
    (hpos : 0 < net'.cap.getD k 0 ∨ 0 < net'.cap.getD (k ^^^ 1) 0) : Spare edges reserved a b := by
  rw [h.same] at hk
  obtain ⟨i, hi, rfl, hcap, hzero⟩ := cap_of_ledger hk
  have hpair := h.pushed.pair i (by rwa [List.length_map])
  rw [Network.xor_one_even] at hpos
  unfold Spare
  omega

/-- Where the spare arcs close no cycle, no phase closes a circle. -/
theorem straight_of_spare (hspare : NoSpareCycle edges reserved) (limit : Nat) :
    (Network.build edges reserved committed uw targets n ownSupply).Straight limit := by
  rintro before after hreach - ⟨v, hv⟩
  obtain ⟨moved, haug⟩ := Network.augments_of_reaches
    (Network.wired_build edges reserved committed uw targets n ownSupply) hreach
  refine hspare v (hv.lift id fun a b hab => ?_)
  rcases hab with ⟨⟨k, hk, hpos⟩, -⟩ | ⟨k, hk, hruns⟩
  · exact spare_of_augments haug hk (Or.inr hpos)
  · exact spare_of_augments haug hk (Or.inl (Nat.zero_lt_of_lt hruns))

end Reserve

end Edet.Flow
