import Edet.Kernel.Cut
import Edet.Ledger.SeatGate

/-!
# What the seats of a set can come to

The seat of a row is a hold on its sponsor's reach, booked in `seatReserved`. Three things
hold in every state reached (`Seated`): the holds of the rows together are within what is
booked on each stake, what is booked on a stake is within the largest value the stake has
had, and each hold is a flow to its sponsor that draws nothing in a set `S` without
underwriters.

A hold towards a member of `S` came in on stakes that enter `S` (`Held.FlowsTo.amount_le`),
so that the seats sponsored in `S` come to no more than the largest values of those stakes
(`seats_le_entering`), however many rows have come and gone.
-/

namespace Edet

open Edet.Flow

/-- What a row's seat holds of a stake. -/
def Member.seatAt (m : Member) (a : MemberId × MemberId) : Nat :=
  match m.seat with
  | none => 0
  | some seat => amountAt seat.held.edges a

namespace State

/-- What the seats of all rows hold of a stake. -/
def seatsAt (s : State) (a : MemberId × MemberId) : Nat :=
  OrdMap.total (fun _ m => m.seatAt a) s.members

end State

/-! ### What leaves the seats alone -/

/-- Neither a row's seat nor what is booked for seats has changed. -/
structure SeatsSame (s s' : State) : Prop where
  booked : s'.seatReserved = s.seatReserved
  rows : SameView Member.seat s s'

namespace SeatsSame

variable {s s' : State}

instance : Std.Refl SeatsSame := ⟨fun s => ⟨rfl, Std.Refl.refl s⟩⟩

instance : IsTrans State SeatsSame :=
  ⟨fun _ _ _ h h' => ⟨h'.booked.trans h.booked, IsTrans.trans _ _ _ h.rows h'.rows⟩⟩

theorem ignoresBooks : IgnoresBooks Member.seat := ⟨fun _ => rfl, fun _ _ _ _ => rfl⟩

theorem ignoresCharges : IgnoresCharges Member.seat := ⟨fun _ _ _ _ _ _ => rfl⟩

theorem of_offBooks (h : OffBooks s s') : SeatsSame s s' := by
  have hbooked : s'.offBooks.seatReserved = s.offBooks.seatReserved := by rw [h]
  exact ⟨hbooked, .of_offBooks ignoresBooks.books h⟩

theorem seatsAt_eq (h : SeatsSame s s') (a : MemberId × MemberId) :
    s'.seatsAt a = s.seatsAt a := by
  have hseats : s'.members.map (fun _ m => m.seat) = s.members.map fun _ m => m.seat := by
    refine Std.ExtTreeMap.ext_getElem? fun id => ?_
    rw [Std.ExtTreeMap.getElem?_map, Std.ExtTreeMap.getElem?_map]
    exact h.rows.rows id
  let held : MemberId → Option Seat → Nat := fun _ seat =>
    match seat with
    | none => 0
    | some seat => amountAt seat.held.edges a
  calc s'.seatsAt a = OrdMap.total held (s'.members.map fun _ m => m.seat) :=
        (OrdMap.total_map held _ _).symm
    _ = OrdMap.total held (s.members.map fun _ m => m.seat) := by rw [hseats]
    _ = s.seatsAt a := OrdMap.total_map held _ _

end SeatsSame

/-- What is booked for seats has not changed, and no row was opened. -/
structure SeatBookSame (s s' : State) : Prop where
  booked : s'.seatReserved = s.seatReserved
  next : s'.nextMember = s.nextMember

instance : Std.Refl SeatBookSame := ⟨fun _ => ⟨rfl, rfl⟩⟩

instance : IsTrans State SeatBookSame :=
  ⟨fun _ _ _ h h' => ⟨h'.booked.trans h.booked, h'.next.trans h.next⟩⟩

theorem Apply.framesWrites_seatBook : Apply.FramesWrites SeatBookSame :=
  ⟨fun _ _ _ => ⟨rfl, rfl⟩, fun _ _ => ⟨rfl, rfl⟩, fun _ _ => ⟨rfl, rfl⟩, fun _ _ => ⟨rfl, rfl⟩,
    fun _ _ _ => ⟨rfl, rfl⟩⟩

theorem SeatsSame.seatBook {s s' : State} (h : SeatsSame s s') : SeatBookSame s s' :=
  ⟨h.booked, h.rows.next⟩

/-- Where no row was opened, rows that are kept are the rows there are. -/
theorem SeatBookSame.seatsSame {s s' : State} (h : SeatBookSame s s')
    (hkept : RowsKept Member.seat s s') : SeatsSame s s' := by
  refine ⟨h.booked, h.next, fun id => ?_⟩
  cases hm : s.members[id]? with
  | some m =>
    obtain ⟨m', hm', hview⟩ := hkept.kept id m hm
    rw [hm', Option.map_some, Option.map_some, hview]
  | none =>
    cases hm' : s'.members[id]? with
    | none => rfl
    | some m' =>
      obtain ⟨hnew, -⟩ := hkept.born id m' hm' hm
      rw [hkept.issued id (h.next ▸ hnew)] at hm'
      cases hm'

/-! ### The invariant -/

/-- The holds of the rows, with `pending` taken but not yet written on a row, are within what
is booked, and that is within `peak`. -/
structure Seated (S : Set MemberId) (peak pending : MemberId × MemberId → Nat) (s : State) :
    Prop where
  issued : s.Issued
  flows : ∀ (id : MemberId) m seat, s.members[id]? = some m → m.seat = some seat →
    seat.held.FlowsTo seat.sponsor ∧ ∀ u ∈ S, amountAt seat.held.supply u = 0
  booked : ∀ a, s.seatsAt a + pending a ≤ OrdMap.getD' s.seatReserved a 0
  peaked : ∀ a, OrdMap.getD' s.seatReserved a 0 ≤ peak a

/-- The stakes are within `peak`, and no underwriter is in the set. -/
structure Ready (S : Set MemberId) (peak : MemberId × MemberId → Nat) (s : State) : Prop where
  stakes : ∀ a, OrdMap.getD' s.edges a 0 ≤ peak a
  dry : ∀ p ∈ s.uw, p.1 ∉ S

namespace Seated

variable {S : Set MemberId} {peak pending : MemberId × MemberId → Nat} {s s' : State}

theorem of_same (hs : Seated S peak pending s) (h : SeatsSame s s') : Seated S peak pending s' where
  issued := h.rows.rowsLeft.issued hs.issued
  flows id m' seat hm' hseat := by
    obtain ⟨m, hm, hview⟩ := h.rows.rowsLeft.rows id m' hm'
    exact hs.flows id m seat hm (hview ▸ hseat)
  booked a := by
    rw [h.seatsAt_eq, h.booked]
    exact hs.booked a
  peaked a := by
    rw [h.booked]
    exact hs.peaked a

theorem mono (hs : Seated S peak pending s) {peak' pending' : MemberId × MemberId → Nat}
    (hpeak : ∀ a, peak a ≤ peak' a) (hpending : ∀ a, pending' a ≤ pending a) :
    Seated S peak' pending' s where
  issued := hs.issued
  flows := hs.flows
  booked a := (Nat.add_le_add_left (hpending a) _).trans (hs.booked a)
  peaked a := (hs.peaked a).trans (hpeak a)

/-- A seat that is reserved is booked within the stakes there are. -/
theorem reserveSeat (hs : Seated S peak pending s) (hready : Ready S peak s) {sponsor : MemberId}
    {held : Held} (h : s.reserveSeat sponsor = (some held, s')) :
    Seated S peak (fun a => pending a + amountAt held.edges a) s' ∧ Ready S peak s' ∧
      held.FlowsTo sponsor ∧ ∀ u ∈ S, amountAt held.supply u = 0 := by
  classical
  obtain rfl := State.reserveSeat_some h
  -- Nothing is supplied in the set, and the rest does not matter here.
  let supplies : Nat → Nat := fun u => if u ∈ S then 0 else (s.uw.map Prod.snd).sum
  have hspec : held.FlowsTo sponsor ∧
      (∀ a, amountAt held.edges a ≤
        OrdMap.getD' s.edges a 0 - OrdMap.getD' s.seatReserved a 0) ∧
      ∀ u ∈ S, amountAt held.supply u = 0 := by
    unfold State.reserveSeat at h
    extract_lets want at h
    split at h
    · simp only [Prod.mk.injEq, Option.some.injEq] at h
      obtain ⟨rfl, -⟩ := h
      exact ⟨Held.flowsTo_empty sponsor, fun _ => Nat.zero_le _, fun _ _ => rfl⟩
    · split at h
      next held' reserved committed hreserve =>
      simp only [Prod.mk.injEq] at h
      obtain ⟨rfl, -⟩ := h
      have huw : ∀ p ∈ s.uw, p.2 ≤ supplies p.1 := fun p hp => by
        simp only [supplies, if_neg (hready.dry p hp)]
        exact List.le_sum_of_mem (List.mem_map_of_mem hp)
      obtain ⟨hflows, hedges, hsupply, -⟩ :=
        reserveInner_spec (OrdMap.nodup_keys s.underwriters) huw hreserve
      refine ⟨hflows, hedges, fun u hu => ?_⟩
      have hdraw := hsupply u
      simp only [supplies, if_pos hu, Nat.zero_sub] at hdraw
      exact Nat.le_zero.1 hdraw
  obtain ⟨hflows, hedges, hdry⟩ := hspec
  refine ⟨⟨hs.issued, hs.flows, fun a => ?_, fun a => ?_⟩, ⟨hready.stakes, hready.dry⟩, hflows, hdry⟩
  · dsimp only
    rw [getD'_addAll]
    have hbooked : s.seatsAt a + pending a ≤ OrdMap.getD' s.seatReserved a 0 := hs.booked a
    have hsame : State.seatsAt { s with
        seatReserved := addAll s.seatReserved held.edges
        seatCommitted := addAll s.seatCommitted held.supply } a = s.seatsAt a := rfl
    rw [hsame]
    omega
  · dsimp only
    rw [getD'_addAll]
    have hstake := hready.stakes a
    have hpeak := hs.peaked a
    have hleft := hedges a
    omega

/-- A reservation that goes back leaves the other seats booked. -/
theorem releaseSeat {held : Held} (hs : Seated S peak (fun a => pending a + amountAt held.edges a) s) :
    Seated S peak pending (s.releaseSeat held) where
  issued := hs.issued
  flows := hs.flows
  booked a := by
    have hbooked := hs.booked a
    have hsame : (s.releaseSeat held).seatsAt a = s.seatsAt a := rfl
    rw [hsame]
    show _ ≤ OrdMap.getD' (takeAll s.seatReserved held.edges) a 0
    rw [getD'_takeAll]
    omega
  peaked a := by
    show OrdMap.getD' (takeAll s.seatReserved held.edges) a 0 ≤ peak a
    rw [getD'_takeAll]
    exact (Nat.sub_le _ _).trans (hs.peaked a)

theorem seatsAt_openRow (hs : s.Issued) (k : Key) (sponsor : MemberId) (held : Held)
    (a : MemberId × MemberId) :
    (s.openRow k sponsor held).seatsAt a = amountAt held.edges a + s.seatsAt a := by
  unfold State.seatsAt
  rw [OrdMap.total_eq_of_getElem? (s.openRow_row k sponsor held)]
  have hrest : (s.openRow k sponsor held).members.erase s.nextMember = s.members := by
    refine Std.ExtTreeMap.ext_getElem? fun id => ?_
    rw [Std.ExtTreeMap.getElem?_erase]
    split
    · next heq =>
      obtain rfl := Std.LawfulEqCmp.compare_eq_iff_eq.1 heq
      exact (hs _ le_rfl).symm
    · next hne => exact s.openRow_other k sponsor held fun heq => hne (by rw [heq, Std.compare_self])
  rw [hrest]
  rfl

/-- A row opened on a hold that was pending. -/
theorem openRow {held : Held} {sponsor : MemberId}
    (hs : Seated S peak (fun a => pending a + amountAt held.edges a) s)
    (hflows : held.FlowsTo sponsor) (hdry : ∀ u ∈ S, amountAt held.supply u = 0) (k : Key) :
    Seated S peak pending (s.openRow k sponsor held) where
  issued id hid := by
    have hlt : s.nextMember < id := hid
    rw [s.openRow_other k sponsor held hlt.ne]
    exact hs.issued id hlt.le
  flows id m seat hm hseat := by
    by_cases hid : s.nextMember = id
    · subst hid
      rw [s.openRow_row k sponsor held] at hm
      obtain rfl := Option.some.inj hm
      obtain rfl := Option.some.inj hseat
      exact ⟨hflows, hdry⟩
    · rw [s.openRow_other k sponsor held hid] at hm
      exact hs.flows id m seat hm hseat
  booked a := by
    have hbooked := hs.booked a
    rw [seatsAt_openRow hs.issued]
    show _ ≤ OrdMap.getD' s.seatReserved a 0
    omega
  peaked := hs.peaked

end Seated

namespace Apply

variable {S : Set MemberId} {peak : MemberId × MemberId → Nat}

/-- Nothing is pending before or after two parties are seated. -/
theorem seated_seatPair (first second : Resolved) (sponsor : Option MemberId) :
    Op.Triple (fun s => Seated S peak (fun _ => 0) s ∧ Ready S peak s)
      (seatPair first second sponsor) (fun _ => Seated S peak fun _ => 0)
      (Seated S peak fun _ => 0) := by
  rintro s ⟨hs, hready⟩
  -- One row: its hold is taken and written.
  have hone : ∀ {sponsor : MemberId} {held : Held} {t : State} (k : Key),
      s.reserveSeat sponsor = (some held, t) → Seated S peak (fun _ => 0) (t.openRow k sponsor held) := by
    intro sponsor held t k hreserve
    obtain ⟨ht, -, hflows, hdry⟩ := hs.reserveSeat hready hreserve
    exact ht.openRow hflows hdry k
  cases sponsor with
  | none =>
    cases first with
    | existing a =>
      cases second with
      | existing b =>
        rw [exec_seatPair_existing]
        exact hs
      | fresh k =>
        rw [exec_seatPair_noSponsor (Or.inr rfl)]
        exact hs
    | fresh k =>
      rw [exec_seatPair_noSponsor (Or.inl rfl)]
      exact hs
  | some sponsor =>
    cases first with
    | existing a =>
      cases second with
      | existing b =>
        rw [exec_seatPair_existing]
        exact hs
      | fresh k =>
        rw [exec_seatPair_second]
        rcases hreserve : s.reserveSeat sponsor with ⟨_ | held, t⟩
        · obtain rfl := State.reserveSeat_none hreserve
          exact hs
        · exact hone k hreserve
    | fresh k =>
      cases second with
      | existing b =>
        rw [exec_seatPair_first]
        rcases hreserve : s.reserveSeat sponsor with ⟨_ | held, t⟩
        · obtain rfl := State.reserveSeat_none hreserve
          exact hs
        · exact hone k hreserve
      | fresh k' =>
        rw [exec_seatPair_both]
        rcases hreserve : s.reserveSeat sponsor with ⟨_ | held, t⟩
        · obtain rfl := State.reserveSeat_none hreserve
          exact hs
        · dsimp only
          obtain ⟨ht, htready, hflows, hdry⟩ := hs.reserveSeat hready hreserve
          rcases hreserve' : t.reserveSeat sponsor with ⟨_ | held', t'⟩
          · obtain rfl := State.reserveSeat_none hreserve'
            exact ht.releaseSeat
          · obtain ⟨ht', -, hflows', hdry'⟩ := ht.reserveSeat htready hreserve'
            -- The first hold is written first.
            have hfirst : Seated S peak
                (fun a => (0 + amountAt held'.edges a) + amountAt held.edges a) t' :=
              ht'.mono (fun _ => le_rfl) fun a => by omega
            have hsecond : Seated S peak (fun a => 0 + amountAt held'.edges a)
                (t'.openRow k sponsor held) := hfirst.openRow hflows hdry k
            exact hsecond.openRow hflows' hdry' k'

/-! ### Boundaries -/

/-- A row that goes gives its seat back. -/
theorem seated_retireRow {s : State} (hs : Seated S peak (fun _ => 0) s) (id : MemberId) :
    Seated S peak (fun _ => 0) (retireRow id s) := by
  unfold retireRow
  split
  · exact hs
  next m hm =>
  extract_lets s₁ s₂ s₃
  have hunlist : ∀ t b, SeatsSame t (t.modMember b (unlist id)) := fun t b =>
    ⟨rfl, .modMember (f := unlist id) (fun _ => rfl) t b⟩
  have hundelegate : ∀ t l, SeatsSame t (t.modMember l (undelegate id)) := fun t l =>
    ⟨rfl, .modMember (f := undelegate id) (fun _ => rfl) t l⟩
  have h₁ : SeatsSame s s₁ := Op.Moves.foldl hunlist _ s
  have h₂ : SeatsSame s₁ s₂ := Op.Moves.foldl hundelegate _ s₁
  have hsame : SeatsSame s s₂ := IsTrans.trans _ _ _ h₁ h₂
  have hs₂ : Seated S peak (fun _ => 0) s₂ := hs.of_same hsame
  obtain ⟨m₂, hm₂, hseat₂⟩ : ∃ m₂, s₂.members[id]? = some m₂ ∧ m₂.seat = m.seat := by
    have hview := hsame.rows.rows id
    rw [hm, Option.map_some, Option.map_eq_some_iff] at hview
    exact hview
  have hmembers : s₃.members = s₂.members := by
    simp only [s₃]
    split <;> rfl
  have hnext : s₃.nextMember = s₂.nextMember := by
    simp only [s₃]
    split <;> rfl
  -- What stays booked once the seat is given back.
  have hgiven : ∀ a, OrdMap.getD' s₃.seatReserved a 0 =
      OrdMap.getD' s₂.seatReserved a 0 - m₂.seatAt a := by
    intro a
    simp only [s₃, Member.seatAt, hseat₂]
    cases m.seat with
    | none => rfl
    | some seat => exact getD'_takeAll _ _ _
  refine ⟨fun i hi => ?_, fun i m' seat hm' hseat => ?_, fun a => ?_, fun a => ?_⟩
  · dsimp only at hi ⊢
    rw [hmembers, Std.ExtTreeMap.getElem?_erase]
    split
    · rfl
    · exact hs₂.issued i (hnext ▸ hi)
  · dsimp only at hm'
    rw [hmembers, Std.ExtTreeMap.getElem?_erase] at hm'
    split at hm'
    · cases hm'
    · exact hs₂.flows i m' seat hm' hseat
  · have hbooked : s₂.seatsAt a + 0 ≤ OrdMap.getD' s₂.seatReserved a 0 := hs₂.booked a
    have herased : s₂.seatsAt a =
        m₂.seatAt a + OrdMap.total (fun _ m => m.seatAt a) (s₂.members.erase id) :=
      OrdMap.total_eq_of_getElem? hm₂
    show OrdMap.total (fun _ m => Member.seatAt m a) (s₃.members.erase id) + 0 ≤
      OrdMap.getD' s₃.seatReserved a 0
    rw [hmembers, hgiven]
    omega
  · show OrdMap.getD' s₃.seatReserved a 0 ≤ peak a
    rw [hgiven]
    exact (Nat.sub_le _ _).trans (hs₂.peaked a)

theorem seated_retireEmptyRows {s : State} (hs : Seated S peak (fun _ => 0) s) :
    Seated S peak (fun _ => 0) (retireEmptyRows s) := by
  unfold retireEmptyRows
  dsimp only
  induction (s.members.toList.filter fun p => emptyRow s (namedMembers s) p.2).map fun p => p.2.id
    generalizing s with
  | nil => exact hs
  | cons id ids ih => exact ih (seated_retireRow hs id)

theorem seatsSame_forfeitBonds (id : MemberId) : Op.Moves SeatsSame (forfeitBonds id) :=
  fun s => ⟨(moves_forfeitBonds framesWrites_seatBook id s).booked,
    keepsView_forfeitBonds id (fun _ _ => rfl) s⟩

end Apply

theorem seated_beginBlock {S : Set MemberId} {peak : MemberId × MemberId → Nat} {s : State}
    (hs : Seated S peak (fun _ => 0) s) (nowSecs : Nat) :
    Seated S peak (fun _ => 0) (s.beginBlock nowSecs) := by
  obtain ⟨u, v, hu, hv, hend⟩ := beginBlock_ends (R := SeatsSame) (fun _ _ h => .of_offBooks h)
    Apply.seatsSame_forfeitBonds (fun _ _ => ⟨rfl, .of_eq rfl rfl⟩)
    (fun s => ⟨rfl, sameView_advanceEpoch SeatsSame.ignoresBooks.books SeatsSame.ignoresCharges s⟩)
    (fun s => ⟨rfl, .mapMembers (f := fun _ m =>
      { m with bonds := m.bonds.filter fun k _ => decide (horizon s.epoch 1 ≤ k) })
      (fun _ _ => rfl) rfl rfl⟩) nowSecs s
  refine Seated.of_same ?_ hend
  rcases hv with rfl | rfl
  · exact hs.of_same hu
  · have hpruned : SeatsSame u (Apply.pruneClosedRows u) := ⟨rfl, .of_eq rfl rfl⟩
    exact Apply.seated_retireEmptyRows ((hs.of_same hu).of_same hpruned)

namespace Apply

variable {S : Set MemberId} {peak : MemberId × MemberId → Nat}

/-! ### Transactions -/

/-- Obligations move no seat. -/
theorem seated_of_bookkeeping {α : Type} {op : Tr α} (h : Bookkeeping op) :
    Op.Triple (Seated S peak fun _ => 0) op (fun _ => Seated S peak fun _ => 0)
      (Seated S peak fun _ => 0) :=
  Op.Moves.triple h fun _ _ hmoved hs => hs.of_same (.of_offBooks hmoved)

theorem seated_accept (debtor creditor : Party) (amount : F64) (maturityEpochs : Nat)
    (arb : Option ArbTermsWire) (signers : List Key) (sponsor : Option MemberId) :
    Op.Triple (fun s => Seated S peak (fun _ => 0) s ∧ Ready S peak s)
      (accept debtor creditor amount maturityEpochs arb signers sponsor)
      (fun _ => Seated S peak fun _ => 0) (Seated S peak fun _ => 0) := by
  unfold accept
  refine .bind_quiet (quiet_acceptTerms _ _ _ _ _ _) (fun _ h => h.1) fun terms => ?_
  refine .bind (seated_seatPair _ _ _) fun _ => .bind (seated_of_bookkeeping ?_) fun _ =>
    .pure fun _ h => h
  exact bookkeeping_book _ _ _ _ _

theorem seated_sale (seller buyer : Party) (amount : F64) (maturityEpochs : Nat)
    (signers : List Key) (sponsor : Option MemberId) :
    Op.Triple (fun s => Seated S peak (fun _ => 0) s ∧ Ready S peak s)
      (Cascade.sale seller buyer amount maturityEpochs signers sponsor)
      (fun _ => Seated S peak fun _ => 0) (Seated S peak fun _ => 0) := by
  unfold Cascade.sale
  refine .bind_quiet (quiet_saleTerms _ _ _ _ _) (fun _ h => h.1) fun terms => ?_
  refine .bind (seated_seatPair _ _ _) fun _ =>
    .bind (seated_of_bookkeeping (bookkeeping_netMutual _ _ _)) fun _ =>
    .ite (fun _ => .pure fun _ h => h) fun _ =>
    .bind_quiet (Op.quiet_ask _) (fun _ h => h) fun _ => ?_
  exact seated_of_bookkeeping (Cascade.bookkeeping_originate _ _ _ _)

/-- Governance moves no seat unless it redenominates. -/
theorem seatsSame_enact {kind : ProposalKind} (hkind : ∀ num den, kind ≠ .redenominate num den)
    (author : MemberId) : Op.Moves SeatsSame (enact kind author) := by
  have hstatus : ∀ (target : MemberId) (f : Member → MemberStatus),
      Op.Moves SeatsSame (memberMut target fun m => { m with status := f m }) := fun target f => by
    unfold memberMut
    exact .bind (.check _) fun _ => .write fun s =>
      ⟨rfl, .modMember (f := fun m => { m with status := f m }) (fun _ => rfl) s target⟩
  unfold enact
  cases kind with
  | paramChange key value => exact .write fun _ => ⟨rfl, .of_eq rfl rfl⟩
  | redenominate num den => exact absurd rfl (hkind num den)
  | suspend target =>
    exact .bind (.ask _) fun _ => .bind (.refuseIf _ _) fun _ => .bind (hstatus _ _) fun _ =>
      .write fun _ => ⟨rfl, .of_eq rfl rfl⟩
  | unsuspend target => exact hstatus _ _
  | validatorPower target power =>
    refine .ite (fun _ => ?_) fun _ => ?_
    · exact .bind (.check _) fun _ => .write fun _ => ⟨rfl, .of_eq rfl rfl⟩
    · exact .bind (.ask _) fun _ => .bind (.refuseIf _ _) fun _ =>
        .write fun _ => ⟨rfl, .of_eq rfl rfl⟩
  | seedAmendment amount => exact .bind (.check _) fun _ => .write fun _ => ⟨rfl, .of_eq rfl rfl⟩

end Apply

/-- A redenomination has been enacted under this id. -/
def Redenominated (proposalId : ProposalId) (s : State) : Prop :=
  ∃ p num den, s.proposals[proposalId]? = some p ∧ p.enacted = true ∧
    p.kind = .redenominate num den

namespace Apply

variable {S : Set MemberId} {peak : MemberId × MemberId → Nat}

theorem triple_mayAssent {P : State → Prop} (id : MemberId) (proposalId : ProposalId)
    (signers : List Key) :
    Op.Triple P (mayAssent id proposalId signers)
      (fun r s => P s ∧ s.proposals[proposalId]? = some r.1) P := by
  unfold mayAssent
  refine .bind_quiet (Op.quiet_check _) (fun _ h => h) fun _ => ?_
  refine .bind (Q := fun p s => P s ∧ s.proposals[proposalId]? = some p)
    (.check (fun s p hs hp => ⟨hs, ?_⟩) fun _ h => h) fun p => ?_
  · unfold findProposal at hp
    split at hp
    · next q hq =>
      cases hp
      exact hq
    · cases hp
  refine .bind_quiet (Op.quiet_check _) (fun _ h => h.1) fun _ =>
    .bind_quiet (Op.quiet_refuseIf _ _) (fun _ h => h.1) fun _ =>
    .bind_quiet (Op.quiet_refuseIf _ _) (fun _ h => h.1) fun _ =>
    .bind_quiet (Op.quiet_ask _) (fun _ h => h.1) fun _ =>
    .bind_quiet (Op.quiet_refuseIf _ _) (fun _ h => h.1) fun _ =>
    .bind_quiet (Op.quiet_refuseIf _ _) (fun _ h => h.1) fun _ =>
    .bind_quiet (Op.quiet_ask _) (fun _ h => h.1) fun _ =>
    .bind_quiet (Op.quiet_ask _) (fun _ h => h.1) fun _ =>
    .bind_quiet (Op.quiet_refuseIf _ _) (fun _ h => h.1) fun _ =>
    .bind_quiet (Op.quiet_check _) (fun _ h => h.1) fun _ => .pure fun _ h => h

theorem proposals_rescale (s : State) (pi : F64) : (s.rescale pi).proposals = s.proposals := by
  unfold State.rescale State.rescaleWith
  extract_lets s₁ s₂ s₃ s₄ s₅ byDebtor
  have hshave : s₂.offBooks.proposals = s₁.offBooks.proposals := by rw [offBooks_shave s₁]
  exact hshave

/-- An assent keeps the seats, or has enacted a redenomination. -/
theorem seated_assent (id : MemberId) (proposalId : ProposalId) (signers : List Key) :
    Op.Triple (Seated S peak fun _ => 0) (assent id proposalId signers)
      (fun _ s => ¬Redenominated proposalId s → Seated S peak (fun _ => 0) s)
      (Seated S peak fun _ => 0) := by
  unfold assent
  refine .bind (triple_mayAssent id proposalId signers) fun r => ?_
  have hmark : ∀ (f : Proposal → Proposal) (s : State),
      SeatsSame s (modProposal proposalId f s) := fun _ _ => ⟨rfl, .of_eq rfl rfl⟩
  refine .bind (Q := fun _ s => Seated S peak (fun _ => 0) s ∧
      ∃ p, s.proposals[proposalId]? = some p ∧ p.kind = r.1.kind)
    (.write fun s hs => ⟨hs.1.of_same (hmark _ s), ?_⟩) fun _ => ?_
  · refine ⟨{ r.1 with assents := r.1.assents.insert id }, ?_, rfl⟩
    simp only [modProposal, OrdMap.getElem?_modify_map, hs.2, Option.map_some, if_true]
  refine .ite (fun _ => ?_) fun _ => .pure fun s hs _ => hs.1
  by_cases hkind : ∃ num den, r.1.kind = .redenominate num den
  · obtain ⟨num, den, hkind⟩ := hkind
    rw [hkind]
    -- A redenomination does not refuse, and the proposal is marked.
    refine .bind (Q := fun _ s => ∃ p, s.proposals[proposalId]? = some p ∧
      p.kind = .redenominate num den) (.write fun s hs => ?_) fun _ => .write fun s hs hnot => ?_
    · obtain ⟨-, p, hp, hpkind⟩ := hs
      exact ⟨p, (congrArg (·[proposalId]?) (proposals_rescale s (ratio num den))).trans hp, hpkind⟩
    · obtain ⟨p, hp, hpkind⟩ := hs
      refine absurd ⟨{ p with enacted := true }, num, den, ?_, rfl, hpkind⟩ hnot
      simp only [modProposal, OrdMap.getElem?_modify_map, hp, Option.map_some, if_true]
  · push Not at hkind
    refine .bind (Q := fun _ => Seated S peak fun _ => 0) ?_ fun _ =>
      .write fun s hs _ => hs.of_same (hmark _ s)
    exact ((seatsSame_enact hkind r.1.author).triple fun _ _ hmoved hs => hs.of_same hmoved).weaken
      (fun _ h => h.1) (fun _ _ h => h) fun _ h => h

section Dispatch

variable [Libm]

theorem seated_dispatch {s : State} (hs : Seated S peak (fun _ => 0) s) (hready : Ready S peak s)
    (tx : Tx) (signers : List Key) (sponsor : Option MemberId)
    (hassent : ∀ id proposal, tx ≠ .assent id proposal) :
    Seated S peak (fun _ => 0) (Op.exec (dispatch tx signers sponsor) s).2 := by
  -- A transaction that opens no row keeps the seats there are.
  have of_book : SeatBookSame s (Op.exec (dispatch tx signers sponsor) s).2 →
      Untouched Member.seat tx →
      Seated S peak (fun _ => 0) (Op.exec (dispatch tx signers sponsor) s).2 := fun hbook htx =>
    hs.of_same (hbook.seatsSame
      (keepsRows_dispatch SeatsSame.ignoresBooks tx signers sponsor htx s hs.issued))
  have hplain : (∀ d c a m p, tx ≠ .accept d c a m p) → (∀ d c a m, tx ≠ .sale d c a m) →
      (∀ id, tx ≠ .exit id) → SeatBookSame s (Op.exec (dispatch tx signers sponsor) s).2 :=
    fun haccept hsale hexit => moves_dispatch framesWrites_seatBook
      (fun _ _ h => (SeatsSame.of_offBooks h).seatBook) tx signers sponsor haccept hsale hexit
      hassent s
  cases tx with
  | accept => exact (seated_accept _ _ _ _ _ _ _).exec_snd ⟨hs, hready⟩
  | sale => exact (seated_sale _ _ _ _ _ _).exec_snd ⟨hs, hready⟩
  | exit id =>
    exact of_book (moves_exit framesWrites_seatBook (fun _ _ => ⟨rfl, rfl⟩) id signers s)
      fun _ => rfl
  | assent id proposal => exact absurd rfl (hassent id proposal)
  | registerGuardians => exact of_book (hplain (by simp) (by simp) (by simp)) fun _ _ => rfl
  | rotateRequest => exact of_book (hplain (by simp) (by simp) (by simp)) fun _ _ => rfl
  | rotateVeto => exact of_book (hplain (by simp) (by simp) (by simp)) fun _ _ => rfl
  | rotateFinalize => exact of_book (hplain (by simp) (by simp) (by simp)) fun _ _ => rfl
  | setConsensusKey => exact of_book (hplain (by simp) (by simp) (by simp)) fun _ _ => rfl
  | forfeitBonds => exact of_book (hplain (by simp) (by simp) (by simp)) fun _ _ => rfl
  | _ => exact of_book (hplain (by simp) (by simp) (by simp)) trivial

end Dispatch

theorem seatsSame_settleOutcome (tx : Tx) (txId : TxId) (notAfterEpoch : Nat)
    (signers : List Key) (charged : Charged) (outcome : Res Unit) (s : State) :
    SeatsSame s (settleOutcome tx txId notAfterEpoch signers charged outcome s) := by
  refine settleOutcome_moves (fun s _ _ => ⟨?_, sameView_forgetApplied _ _ _⟩)
    (fun s charged => ⟨?_, sameView_refund SeatsSame.ignoresCharges _ _⟩)
    (fun s _ _ => ⟨?_, sameView_priceRefusal SeatsSame.ignoresCharges _ _ _⟩) tx txId
    notAfterEpoch signers charged outcome s
  · unfold State.forgetApplied
    split <;> rfl
  · cases charged <;> rfl
  · unfold priceRefusal
    dsimp only
    split
    · rfl
    · split <;> rfl

theorem seatsSame_bondGate (tx : Tx) (signers : List Key) :
    Op.Moves SeatsSame (bondGate tx signers) := fun s =>
  ⟨(bondGate_moves framesWrites_seatBook.row tx signers s).booked,
    keepsView_bondGate SeatsSame.ignoresCharges tx signers s⟩

end Apply

/-! ### Runs -/

/-- The supplies are the same. -/
structure SuppliesSame (s s' : State) : Prop where
  underwriters : s'.underwriters = s.underwriters

instance : Std.Refl SuppliesSame := ⟨fun _ => ⟨rfl⟩⟩

instance : IsTrans State SuppliesSame := ⟨fun _ _ _ h h' => ⟨h'.1.trans h.1⟩⟩

theorem suppliesSame_retireRow (id : MemberId) (s : State) :
    SuppliesSame s (Apply.retireRow id s) := by
  unfold Apply.retireRow
  split
  · exact Std.Refl.refl s
  next m hm =>
  extract_lets s₁ s₂ s₃
  have h₁ : SuppliesSame s s₁ := Op.Moves.foldl (fun _ _ => ⟨rfl⟩) _ s
  have h₂ : SuppliesSame s₁ s₂ := Op.Moves.foldl (fun _ _ => ⟨rfl⟩) _ s₁
  have h₃ : s₃.underwriters = s₂.underwriters := by
    simp only [s₃]
    split <;> rfl
  exact ⟨h₃.trans (IsTrans.trans _ _ _ h₁ h₂).underwriters⟩

/-- A boundary declares no supply and withdraws none. -/
theorem suppliesSame_beginBlock (nowSecs : Nat) (s : State) :
    SuppliesSame s (s.beginBlock nowSecs) := by
  have hforfeit : ∀ id, Op.Moves SuppliesSame (Apply.forfeitBonds id) := fun id => by
    unfold Apply.forfeitBonds Apply.memberMut
    exact .bind (.check _) fun m => .bind (.ask _) fun _ => .bind (.refuseIf _ _) fun _ =>
      .bind (.ask _) fun _ => .bind (.refuseIf _ _) fun _ =>
      .bind (.bind (.check _) fun _ => .write fun _ => ⟨rfl⟩) fun _ => .write fun _ => ⟨rfl⟩
  have hbooks : ∀ s s', OffBooks s s' → SuppliesSame s s' := fun s s' h => by
    have hsupplies : s'.offBooks.underwriters = s.offBooks.underwriters := by rw [h]
    exact ⟨hsupplies⟩
  have hretire : ∀ s, SuppliesSame s (Apply.retireEmptyRows s) := fun s =>
    Op.Moves.foldl (fun s id => suppliesSame_retireRow id s) _ s
  obtain ⟨u, v, hu, hv, hend⟩ := beginBlock_ends (R := SuppliesSame) hbooks hforfeit
    (fun _ _ => ⟨rfl⟩) (fun _ => ⟨rfl⟩) (fun _ => ⟨rfl⟩) nowSecs s
  refine IsTrans.trans _ _ _ hu (IsTrans.trans _ _ _ ?_ hend)
  rcases hv with rfl | rfl
  · exact Std.Refl.refl v
  · have hpruned : SuppliesSame u (Apply.pruneClosedRows u) := ⟨rfl⟩
    exact IsTrans.trans _ _ _ hpruned (hretire _)

section Run

variable [Libm]

/-- The state an event's block opens with. -/
def Event.opens : Event → State → State
  | .block nowSecs, s => s.beginBlock nowSecs
  | .transaction _ _ _ _ nowSecs, s => s.beginBlock nowSecs

/-- The event enacts no redenomination. -/
def Event.KeepsUnit (e : Event) (s : State) : Prop :=
  match e with
  | .transaction (.assent _ proposalId) _ _ _ _ => ¬Redenominated proposalId (e.next s)
  | _ => True

variable {S : Set MemberId} {peak : MemberId × MemberId → Nat}

theorem seated_next {e : Event} {s : State} (hs : Seated S peak (fun _ => 0) s)
    (hdry : ∀ p ∈ s.uw, p.1 ∉ S) (hkeeps : e.KeepsUnit s)
    (hpeak : ∀ a, OrdMap.getD' (e.opens s).edges a 0 ≤ peak a) :
    Seated S peak (fun _ => 0) (e.next s) := by
  cases e with
  | block nowSecs => exact seated_beginBlock hs nowSecs
  | transaction tx txId notAfterEpoch signers nowSecs =>
    have hopened : Seated S peak (fun _ => 0) (s.beginBlock nowSecs) := seated_beginBlock hs nowSecs
    have hgated := Apply.seatsSame_bondGate tx signers (s.beginBlock nowSecs)
    have halone := Apply.rowsAlone_bondGate tx signers (s.beginBlock nowSecs)
    rcases Apply.exec_apply_cases tx txId notAfterEpoch signers nowSecs s with
      ⟨e, -, hrun⟩ | ⟨-, e, t, hgate, hrun⟩ |
      ⟨-, charged, sponsor, t, outcome, u, hgate, hdispatch, hrun⟩
    all_goals rw [Event.next_of_exec hrun]
    · exact hopened
    · rw [hgate] at hgated
      exact hopened.of_same hgated
    rw [hgate] at hgated halone
    have hrecorded : SeatsSame t (t.recordApplied txId notAfterEpoch) := ⟨rfl, .of_eq rfl rfl⟩
    have ht : Seated S peak (fun _ => 0) (t.recordApplied txId notAfterEpoch) :=
      (hopened.of_same hgated).of_same hrecorded
    have hready : Ready S peak (t.recordApplied txId notAfterEpoch) := by
      refine ⟨fun a => ?_, fun p hp => ?_⟩
      · show OrdMap.getD' t.edges a 0 ≤ peak a
        rw [halone.edges]
        exact hpeak a
      · have hsupplies : t.underwriters = s.underwriters :=
          halone.underwriters.trans (suppliesSame_beginBlock nowSecs s).underwriters
        refine hdry p ?_
        rw [State.uw, ← hsupplies]
        exact hp
    have hsettled := Apply.seatsSame_settleOutcome tx txId notAfterEpoch signers charged outcome u
    by_cases hassent : ∃ id proposalId, tx = .assent id proposalId
    · obtain ⟨id, proposalId, rfl⟩ := hassent
      have hvoted := Apply.seated_assent id proposalId signers _ ht
      have hkept : ¬Redenominated proposalId
          (Event.next (.transaction (.assent id proposalId) txId notAfterEpoch signers nowSecs) s) :=
        hkeeps
      rw [Event.next_of_exec hrun] at hkept
      replace hdispatch : Op.exec (Apply.assent id proposalId signers)
        (t.recordApplied txId notAfterEpoch) = (outcome, u) := hdispatch
      rw [hdispatch] at hvoted
      cases outcome with
      | ok _ => exact hvoted hkept
      | error e => exact hvoted.of_same hsettled
    · push Not at hassent
      have hu := Apply.seated_dispatch ht hready tx signers sponsor hassent
      rw [hdispatch] at hu
      exact hu.of_same hsettled

end Run

/-! ### The bound -/

open Classical in
/-- What the seats of the rows sponsored in a set come to. -/
noncomputable def State.seatsSponsored (S : Set MemberId) (s : State) : Nat :=
  OrdMap.total (fun _ m =>
    match m.seat with
    | none => 0
    | some seat => if seat.sponsor ∈ S then seat.held.amount else 0) s.members

/-- The stakes there are. -/
noncomputable def State.stakes (s : State) : MemberId × MemberId →₀ Nat := listFlow s.edges.toList

theorem State.stakes_apply (s : State) (a : MemberId × MemberId) :
    s.stakes a = OrdMap.getD' s.edges a 0 := by
  rw [State.stakes, listFlow_apply, amountAt_toList]

/-- What a row's seat holds of the stakes. -/
noncomputable def Member.seatFlow (m : Member) : MemberId × MemberId →₀ Nat :=
  match m.seat with
  | none => 0
  | some seat => listFlow seat.held.edges

theorem Member.seatFlow_apply (m : Member) (a : MemberId × MemberId) :
    m.seatFlow a = m.seatAt a := by
  unfold Member.seatFlow Member.seatAt
  cases m.seat with
  | none => rfl
  | some seat => exact listFlow_apply _ a

/-- The seats sponsored in a set are held on stakes that enter it. -/
theorem Seated.seatsSponsored_le {S : Set MemberId} {peak : MemberId × MemberId →₀ Nat} {s : State}
    (hs : Seated S peak (fun _ => 0) s) : s.seatsSponsored S ≤ entering S peak := by
  classical
  -- Row by row: what the seats so far come to, and what they hold together.
  have hrows : ∀ l : List (MemberId × Member), (∀ p ∈ l, p ∈ s.members.toList) →
      (l.map fun p => match p.2.seat with
        | none => 0
        | some seat => if seat.sponsor ∈ S then seat.held.amount else 0).sum ≤
        entering S (l.map fun p => p.2.seatFlow).sum := by
    intro l hl
    induction l with
    | nil => exact Nat.zero_le _
    | cons p l ih =>
      rw [List.map_cons, List.map_cons, List.sum_cons, List.sum_cons, entering_add]
      refine Nat.add_le_add ?_ (ih fun q hq => hl q (List.mem_cons_of_mem _ hq))
      cases hseat : p.2.seat with
      | none => exact Nat.zero_le _
      | some seat =>
        dsimp only
        split
        · next hsponsor =>
          obtain ⟨hflows, hdry⟩ := hs.flows p.1 p.2 seat
            (OrdMap.mem_toList.1 (hl p List.mem_cons_self)) hseat
          unfold Member.seatFlow
          rw [hseat]
          exact hflows.amount_le hsponsor hdry
        · exact Nat.zero_le _
  have hflow : ∀ (l : List (MemberId × Member)) (a : MemberId × MemberId),
      (l.map fun p => p.2.seatFlow).sum a = (l.map fun p => p.2.seatAt a).sum := by
    intro l a
    induction l with
    | nil => rfl
    | cons p l ih =>
      rw [List.map_cons, List.map_cons, List.sum_cons, List.sum_cons, Finsupp.add_apply, ih,
        Member.seatFlow_apply]
  calc s.seatsSponsored S ≤ entering S (s.members.toList.map fun p => p.2.seatFlow).sum :=
        hrows _ fun _ hp => hp
    _ ≤ entering S peak := entering_mono S fun a => by
        rw [hflow]
        exact (Nat.le_add_right _ _).trans ((hs.booked a).trans (hs.peaked a))

/-- No row has a seat, and nothing is booked for one. -/
structure Unseated (s : State) : Prop where
  rows : ∀ (id : MemberId) m, s.members[id]? = some m → m.seat = none
  booked : s.seatReserved = ∅

/-- Where there was no seat there is none. -/
def KeepsUnseated (s s' : State) : Prop := Unseated s → Unseated s'

instance : Std.Refl KeepsUnseated := ⟨fun _ h => h⟩

instance : IsTrans State KeepsUnseated := ⟨fun _ _ _ h h' hs => h' (h hs)⟩

theorem unseated_of_genesis {g : Genesis} {s : State} (h : genesisState g = .ok s) :
    Unseated s := by
  refine genesisState_keeps (fun _ _ _ => ⟨fun _ _ hm => by simp at hm, rfl⟩)
    (fun supplies entry s s' hs hentry => ?_) h
  refine seatEntry_moves (R := KeepsUnseated) (fun s keys hs => ⟨fun id m hm => ?_, hs.booked⟩)
    (fun _ _ hs => ⟨hs.rows, hs.booked⟩) (fun s a k hs => ⟨fun id m hm => ?_, hs.booked⟩)
    (fun _ _ hs => ⟨hs.rows, hs.booked⟩) hentry hs
  · simp only [State.newAccount, Std.ExtTreeMap.getElem?_insert] at hm
    split at hm
    · obtain rfl := Option.some.inj hm
      rfl
    · exact hs.rows id m hm
  · simp only [State.modMember, OrdMap.getElem?_modify_map, Option.map_eq_some_iff] at hm
    obtain ⟨m₀, hm₀, rfl⟩ := hm
    split
    · exact hs.rows id m₀ hm₀
    · exact hs.rows id m₀ hm₀

/-- A chain is founded without seats. -/
theorem seated_of_genesis {S : Set MemberId} {g : Genesis} {s : State}
    (h : genesisState g = .ok s) (peak : MemberId × MemberId → Nat) :
    Seated S peak (fun _ => 0) s := by
  obtain ⟨hseats, hbook⟩ := unseated_of_genesis h
  have hnone : ∀ a, s.seatsAt a = 0 := fun a => by
    unfold State.seatsAt
    rw [OrdMap.total_congr (g := fun _ _ => 0) fun id m hm => ?_]
    · simp [OrdMap.total]
    · unfold Member.seatAt
      rw [hseats id m hm]
  refine ⟨issued_of_genesis h, fun id m seat hm hseat => ?_, fun a => ?_, fun a => ?_⟩
  · rw [hseats id m hm] at hseat
    cases hseat
  · rw [hnone]
    exact Nat.zero_le _
  · rw [hbook]
    exact Nat.zero_le _

section Run

variable [Libm]

/-- An event, and the largest value each stake has had by then. -/
noncomputable def Event.nextPeak (e : Event) (r : State × (MemberId × MemberId →₀ Nat)) :
    State × (MemberId × MemberId →₀ Nat) :=
  (e.next r.1, r.2 ⊔ (e.opens r.1).stakes ⊔ (e.next r.1).stakes)

/-- **Seats are bounded by the stake that enters a set.** In every run without
redenomination and every set that holds no underwriter, the seats of the rows sponsored in
the set come to no more than the largest values, so far, of the stakes that enter it. -/
theorem seats_le_entering {S : Set MemberId} {s : State} {peak : MemberId × MemberId →₀ Nat}
    (hrun : Reaches Event.nextPeak (fun r => Founding r.1 ∧ r.2 = r.1.stakes)
      (fun e r => e.KeepsUnit r.1 ∧ ∀ u ∈ S, r.1.underwriters[u]? = none) (s, peak)) :
    s.seatsSponsored S ≤ entering S peak := by
  have hseated : Seated S peak (fun _ => 0) s := by
    refine hrun.invariant (I := fun r => Seated S r.2 (fun _ => 0) r.1) ?_ ?_
    · rintro r ⟨⟨g, hg⟩, -⟩
      exact seated_of_genesis hg _
    · rintro e r hr ⟨hkeeps, hdry⟩
      have hpeak : ∀ a, r.2 a ≤ (e.nextPeak r).2 a := fun a => by
        simp only [Event.nextPeak, Finsupp.sup_apply]
        omega
      refine seated_next (hr.mono hpeak fun _ => le_rfl) (fun p hp hpS => ?_) hkeeps fun a => ?_
      · have hnone := hdry p.1 hpS
        rw [OrdMap.mem_toList.1 hp] at hnone
        cases hnone
      · rw [← State.stakes_apply]
        simp only [Event.nextPeak, Finsupp.sup_apply]
        omega
  exact hseated.seatsSponsored_le

end Run

/-- The member without a supply owes the founder a hundred units and pays them, and then
sponsors a newcomer. -/
def sponsoredEvents : List Event :=
  [.transaction (.accept (.member 1) (.member 0) (F64.ofNat 100) 30 none) 0 0
      [founderKey 0, founderKey 1] 10,
    .transaction (.settle 0 (F64.ofNat 100)) 1 0 [founderKey 0, founderKey 1] 10,
    .transaction (newcomerTrade 1) 2 0 [founderKey 1, founderKey 9] 10]

/-- The newcomer's seat is sponsored by the member, and held on the founder's stake. -/
theorem seats_of_newcomer_le :
    letI := Libm.unused
    let r := sponsoredEvents.foldl (fun r e => e.nextPeak r) (oneSupply.state, oneSupply.state.stakes)
    (((sponsoredEvents.foldl (fun s e => e.next s) oneSupply.state).members[(2 : MemberId)]?).bind
        Member.seat).map Seat.sponsor = some 1 ∧
      r.1.seatsSponsored {1} ≤ entering {1} r.2 := by
  let _ : Libm := Libm.unused
  have hfounding : Founding oneSupply.state := Genesis.founding_state (by decide +kernel)
  refine ⟨by decide +kernel, seats_le_entering ?_⟩
  refine Reaches.of_list (.start ⟨hfounding, rfl⟩) _ ?_
  refine ⟨⟨trivial, fun u hu => ?_⟩, ⟨trivial, fun u hu => ?_⟩, ⟨trivial, fun u hu => ?_⟩, trivial⟩
  all_goals
    rw [Set.mem_singleton_iff] at hu
    subst hu
    decide +kernel

end Edet
