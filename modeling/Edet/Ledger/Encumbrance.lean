import Edet.Ledger.BondBook
import Edet.Ledger.Charges
import Edet.Ledger.Filed
import Edet.Ledger.SeatBound

/-!
# What a member's bonds hold

A row keeps one amount for each release epoch, and the ledger one forfeited amount for each
member. `State.heldAt` and `State.forfeitedBy` read them, of a member without a row too.

`SameBonds` relates two states that agree on both, and `Forfeits` two where some members have
forfeited all they held. A sweep forfeits and leaves the rest, and a row is retired only where
it holds nothing (`sameBonds_retireEmptyRows`), so that a boundary forfeits first and then
releases (`beginBlock_bonds`). A refused transition leaves the bonds, and one that is accepted
forfeits at most (`bonds_dispatch`), unless it changes the unit. What the gate encumbers is due
back at the epoch the parameters give (`releaseAt_bondGate`), and only a missing signature gives
it back sooner (`sameBonds_settleOutcome`).
-/

namespace Edet

open Edet.Flow

/-! ### What the ledger keeps of the bonds -/

/-- What a row holds until an epoch. -/
def Member.held (m : Member) (epoch : Nat) : Nat := OrdMap.getD' m.bonds epoch 0

namespace State

/-- The bonds of a member; none without a row. -/
def bondsOf (s : State) (id : MemberId) : OrdMap Nat Nat := (s.members[id]?).elim ∅ Member.bonds

/-- What a member holds until an epoch. -/
def heldAt (s : State) (id : MemberId) (epoch : Nat) : Nat := OrdMap.getD' (s.bondsOf id) epoch 0

/-- What a member's bonds hold together. -/
def encumbrance (s : State) (id : MemberId) : Nat := OrdMap.total (fun _ v => v) (s.bondsOf id)

/-- What a member has forfeited. -/
def forfeitedBy (s : State) (id : MemberId) : Nat := OrdMap.getD' s.forfeitReserve id 0

theorem heldAt_of_row {s : State} {id : MemberId} {m : Member} (hm : s.members[id]? = some m) :
    s.heldAt id = m.held := by
  funext epoch
  rw [heldAt, bondsOf, hm]
  rfl

theorem heldAt_of_none {s : State} {id : MemberId} (hm : s.members[id]? = none) :
    s.heldAt id = fun _ => 0 := by
  funext epoch
  rw [heldAt, bondsOf, hm]
  simp [OrdMap.getD'_eq]

theorem encumbrance_of_row {s : State} {id : MemberId} {m : Member} (hm : s.members[id]? = some m) :
    s.encumbrance id = m.bondEnc := by
  rw [encumbrance, bondsOf, hm]
  rfl

theorem encumbrance_eq_zero {s : State} {id : MemberId} (h : ∀ epoch, s.heldAt id epoch = 0) :
    s.encumbrance id = 0 := by
  calc s.encumbrance id = OrdMap.total (fun _ v => v) (∅ : OrdMap Nat Nat) :=
      total_eq_of_getD' fun epoch => (h epoch).trans (by simp [OrdMap.getD'_eq])
    _ = 0 := OrdMap.total_empty _

end State

theorem Member.held_of_bondEnc {m : Member} (h : m.bondEnc = 0) : m.held = fun _ => 0 := by
  funext epoch
  rw [Member.held, OrdMap.getD'_eq]
  cases hv : m.bonds[epoch]? with
  | none => rfl
  | some v => exact Nat.eq_zero_of_le_zero (h ▸ OrdMap.le_total (f := fun _ v => v) hv)

theorem ignoresBooks_held : IgnoresBooks Member.held := ⟨fun _ => rfl, fun _ _ _ _ => rfl⟩

theorem SameView.heldAt {s s' : State} (h : SameView Member.held s s') : s'.heldAt = s.heldAt := by
  funext id
  have hrow := h.rows id
  cases hm : s.members[id]? with
  | none =>
    rw [hm, Option.map_none, Option.map_eq_none_iff] at hrow
    rw [State.heldAt_of_none hm, State.heldAt_of_none hrow]
  | some m =>
    rw [hm, Option.map_some, Option.map_eq_some_iff] at hrow
    obtain ⟨m', hm', hheld⟩ := hrow
    rw [State.heldAt_of_row hm, State.heldAt_of_row hm', hheld]

/-- A row that is opened holds nothing. -/
theorem RowsKept.heldAt {s s' : State} (h : RowsKept Member.held s s') : s'.heldAt = s.heldAt := by
  funext id
  cases hm : s.members[id]? with
  | some m =>
    obtain ⟨m', hm', hheld⟩ := h.kept id m hm
    rw [State.heldAt_of_row hm, State.heldAt_of_row hm', hheld]
  | none =>
    cases hm' : s'.members[id]? with
    | none => rw [State.heldAt_of_none hm, State.heldAt_of_none hm']
    | some m' =>
      obtain ⟨-, m₀, ⟨_, _, _, _, _, rfl⟩, hheld⟩ := h.born id m' hm' hm
      rw [State.heldAt_of_none hm, State.heldAt_of_row hm', hheld]
      funext epoch
      simp [Member.held, OrdMap.getD'_eq]

/-- The same bonds are held, and the same are forfeited. -/
structure SameBonds (s s' : State) : Prop where
  held : s'.heldAt = s.heldAt
  reserve : s'.forfeitReserve = s.forfeitReserve

instance : Std.Refl SameBonds := ⟨fun _ => ⟨rfl, rfl⟩⟩

instance : IsTrans State SameBonds :=
  ⟨fun _ _ _ h h' => ⟨h'.held.trans h.held, h'.reserve.trans h.reserve⟩⟩

theorem SameBonds.of_view {s s' : State} (h : SameView Member.held s s')
    (hreserve : s'.forfeitReserve = s.forfeitReserve) : SameBonds s s' := ⟨h.heldAt, hreserve⟩

theorem SameBonds.of_eq {s s' : State} (hmembers : s'.members = s.members)
    (hreserve : s'.forfeitReserve = s.forfeitReserve) : SameBonds s s' := by
  refine ⟨?_, hreserve⟩
  funext id epoch
  rw [State.heldAt, State.bondsOf, hmembers]
  rfl

theorem SameBonds.modMember {f : Member → Member} (hf : ∀ m, (f m).held = m.held) (s : State)
    (id : MemberId) : SameBonds s (s.modMember id f) :=
  .of_view (.modMember hf s id) rfl

theorem SameBonds.of_offBooks {s s' : State} (h : OffBooks s s') : SameBonds s s' := by
  refine .of_view (.of_offBooks (fun _ => rfl) h) ?_
  have hreserve : s'.offBooks.forfeitReserve = s.offBooks.forfeitReserve := by rw [h]
  exact hreserve

/-- Some members forfeit all they hold, and nobody else's bonds change. -/
def Forfeits (s s' : State) : Prop :=
  ∀ id, (s'.heldAt id = s.heldAt id ∧ s'.forfeitedBy id = s.forfeitedBy id) ∨
    ((∀ epoch, s'.heldAt id epoch = 0) ∧ 0 < s.encumbrance id ∧
      s'.forfeitedBy id = s.forfeitedBy id + s.encumbrance id)

theorem SameBonds.forfeits {s s' : State} (h : SameBonds s s') : Forfeits s s' := by
  refine fun id => Or.inl ⟨by rw [h.held], ?_⟩
  rw [State.forfeitedBy, h.reserve]
  rfl

instance : Std.Refl Forfeits := ⟨fun s => SameBonds.forfeits (Std.Refl.refl s)⟩

theorem State.encumbrance_of_heldAt {s s' : State} {id : MemberId} (h : s'.heldAt id = s.heldAt id) :
    s'.encumbrance id = s.encumbrance id :=
  total_eq_of_getD' fun epoch => congrFun h epoch

instance : IsTrans State Forfeits := by
  refine ⟨fun s s' s'' h h' id => ?_⟩
  rcases h id with ⟨hheld, hreserve⟩ | ⟨hnone, hpos, hreserve⟩
  · rcases h' id with ⟨hheld', hreserve'⟩ | ⟨hnone', hpos', hreserve'⟩
    · exact Or.inl ⟨hheld'.trans hheld, hreserve'.trans hreserve⟩
    · rw [State.encumbrance_of_heldAt hheld, hreserve] at hreserve'
      exact Or.inr ⟨hnone', State.encumbrance_of_heldAt hheld ▸ hpos', hreserve'⟩
  · have hzero := State.encumbrance_eq_zero hnone
    rcases h' id with ⟨hheld', hreserve'⟩ | ⟨-, hpos', -⟩
    · refine Or.inr ⟨fun epoch => ?_, hpos, hreserve'.trans hreserve⟩
      rw [hheld', hnone]
    · -- what is forfeited once is not held any more
      exact absurd hzero (Nat.ne_of_gt hpos')

/-- Has the member's forfeited amount risen? -/
def State.seized (s s' : State) (id : MemberId) : Bool := decide (s.forfeitedBy id < s'.forfeitedBy id)

theorem SameBonds.seized {s s' : State} (h : SameBonds s s') (id : MemberId) :
    s.seized s' id = false := by
  rw [State.seized, State.forfeitedBy, State.forfeitedBy, h.reserve]
  simp

theorem State.seized_of_reserve {s s' t : State} (h : t.forfeitReserve = s'.forfeitReserve) :
    s.seized t = s.seized s' := by
  funext id
  rw [State.seized, State.seized, State.forfeitedBy, State.forfeitedBy, State.forfeitedBy, h]


/-- The same is forfeited, and no block was begun. -/
structure SameReserve (s s' : State) : Prop where
  reserve : s'.forfeitReserve = s.forfeitReserve
  clock : s'.lastBeginSecs = s.lastBeginSecs

instance : Std.Refl SameReserve := ⟨fun _ => ⟨rfl, rfl⟩⟩

instance : IsTrans State SameReserve :=
  ⟨fun _ _ _ h h' => ⟨h'.reserve.trans h.reserve, h'.clock.trans h.clock⟩⟩

/-! ### Forfeiting, releasing, retiring -/

/-- Writing one row's bonds. -/
theorem State.heldAt_modMember {s : State} {target : MemberId} {f : Member → Member} {m : Member}
    (hm : s.members[target]? = some m) (id : MemberId) :
    (s.modMember target f).heldAt id = if target = id then (f m).held else s.heldAt id := by
  have hrow : (s.modMember target f).members[id]? =
      (s.members[id]?).map fun m => if target = id then f m else m := by
    simp only [State.modMember, OrdMap.getElem?_modify_map]
  split
  · next h =>
    subst h
    rw [hm] at hrow
    exact State.heldAt_of_row (by simpa using hrow)
  · next h =>
    cases hid : s.members[id]? with
    | none =>
      rw [hid] at hrow
      rw [State.heldAt_of_none hid, State.heldAt_of_none hrow]
    | some m' =>
      rw [hid] at hrow
      rw [State.heldAt_of_row hid]
      exact State.heldAt_of_row (by simpa [h] using hrow)

namespace Apply

theorem forfeits_forfeitBonds (target : MemberId) : Op.Moves Forfeits (forfeitBonds target) := by
  intro s
  have hself : Forfeits s s := Std.Refl.refl s
  have h : Op.Triple (· = s) (forfeitBonds target) (fun _ => Forfeits s) (Forfeits s) := by
    unfold forfeitBonds
    refine .bind (Q := fun m t => t = s ∧ s.members[target]? = some m)
      (triple_member (fun t m ht hm => ⟨ht, ht ▸ hm⟩) fun t ht => ht ▸ hself) fun m => ?_
    refine .bind_quiet (Op.quiet_ask _) (fun t ht => ht.1 ▸ hself) fun early =>
      .bind_quiet (Op.quiet_refuseIf _ _) (fun t ht => ht.1 ▸ hself) fun _ => ?_
    refine .bind (Q := fun nothing t => (t = s ∧ s.members[target]? = some m) ∧
      (nothing = false → s.params.dustMinor < m.bondEnc))
      (.ask fun t ht => ⟨ht, fun hnothing => ?_⟩) fun nothing => ?_
    · obtain ⟨rfl, -⟩ := ht
      exact Nat.lt_of_not_le (of_decide_eq_false hnothing)
    refine .bind (Q := fun _ t => (t = s ∧ s.members[target]? = some m) ∧ 0 < m.bondEnc)
      (.refuseIf (fun t ht hnothing => ⟨ht.1, ?_⟩) fun t ht _ => ht.1.1 ▸ hself) fun _ => ?_
    · exact Nat.zero_lt_of_lt (ht.2 (by simpa using hnothing))
    refine .bind (Q := fun _ t => (s.members[target]? = some m ∧ 0 < m.bondEnc) ∧
        t = s.modMember target fun m =>
          { m with bonds := ∅, bondSaturatedEpochs := 0, bondDeniedThisEpoch := false })
      (triple_memberMut (fun t _ ht _ => ⟨⟨ht.1.2, ht.2⟩, ht.1.1 ▸ rfl⟩) fun t ht => ht.1.1 ▸ hself)
      fun _ => .write fun t ht => ?_
    obtain ⟨⟨hm, hpos⟩, rfl⟩ := ht
    intro id
    have hheld := State.heldAt_modMember (f := fun m : Member =>
      { m with bonds := ∅, bondSaturatedEpochs := 0, bondDeniedThisEpoch := false }) hm id
    have hreserve := OrdMap.getD'_bump s.forfeitReserve target id m.bondEnc
    by_cases hid : target = id
    · subst hid
      rw [if_pos rfl] at hheld hreserve
      rw [State.encumbrance_of_row hm]
      refine Or.inr ⟨fun epoch => ?_, hpos, hreserve⟩
      refine (congrFun hheld epoch).trans ?_
      simp [Member.held, OrdMap.getD'_eq]
    · rw [if_neg hid] at hheld hreserve
      exact Or.inl ⟨hheld, hreserve⟩
  exact h.exec_snd rfl

theorem sameReserve_retireRow (id : MemberId) (s : State) : SameReserve s (retireRow id s) := by
  unfold retireRow
  split
  · exact Std.Refl.refl s
  · next m hm =>
    extract_lets s₁ s₂ s₃
    have h₁ : SameReserve s s₁ := Op.Moves.foldl (f := fun s b => s.modMember b (unlist id))
      (fun _ _ => ⟨rfl, rfl⟩) _ s
    have h₂ : SameReserve s₁ s₂ := Op.Moves.foldl (f := fun s l => s.modMember l (undelegate id))
      (fun _ _ => ⟨rfl, rfl⟩) _ s₁
    have h₃ : SameReserve s₂ s₃ := by
      simp only [s₃]
      split
      · exact Std.Refl.refl s₂
      · exact ⟨rfl, rfl⟩
    have h : SameReserve s s₃ := IsTrans.trans _ _ _ h₁ (IsTrans.trans _ _ _ h₂ h₃)
    exact ⟨h.reserve, h.clock⟩

/-- A row is retired only where it holds nothing. -/
theorem sameBonds_retireEmptyRows {s : State} (hs : s.Filed) : SameBonds s (retireEmptyRows s) := by
  have hreserve : SameReserve s (retireEmptyRows s) :=
    Op.Moves.foldl (R := SameReserve) (fun s id => sameReserve_retireRow id s) _ s
  have hleft : RowsLeft Member.held s (retireEmptyRows s) :=
    Op.Moves.foldl (R := RowsLeft Member.held)
      (fun s id => rowsLeft_retireRow ignoresBooks_held id s) _ s
  refine ⟨?_, hreserve.reserve⟩
  funext id
  cases hm' : (retireEmptyRows s).members[id]? with
  | some m' =>
    obtain ⟨m, hm, hheld⟩ := hleft.rows id m' hm'
    rw [State.heldAt_of_row hm', State.heldAt_of_row hm, hheld]
  | none =>
    cases hm : s.members[id]? with
    | none => rw [State.heldAt_of_none hm', State.heldAt_of_none hm]
    | some m =>
      rw [State.heldAt_of_none hm', State.heldAt_of_row hm]
      -- the row was among the empty ones
      let empty := (s.members.toList.filter fun p => emptyRow s (namedMembers s) p.2).map
        fun p => p.2.id
      have hmem : id ∈ empty := by
        by_contra hid
        obtain ⟨m', hkept⟩ := getElem?_foldl_retireRow empty hid hm
        have hrow : (retireEmptyRows s).members[id]? = some m' := hkept
        rw [hm'] at hrow
        cases hrow
      obtain ⟨p, hp, hpid⟩ := List.mem_map.1 hmem
      obtain ⟨hrow, hempty⟩ := List.mem_filter.1 hp
      have hfiled := hs p.1 p.2 (OrdMap.mem_toList.1 hrow)
      have hself : p.2 = m := by
        have hget : s.members[p.1]? = some p.2 := OrdMap.mem_toList.1 hrow
        rw [hfiled.symm.trans hpid, hm] at hget
        exact (Option.some.inj hget).symm
      have hnothing : m.bondEnc = 0 := by
        simp only [emptyRow, hself, Bool.and_eq_true, decide_eq_true_eq] at hempty
        exact hempty.1.1.1.1.2.2.2
      rw [Member.held_of_bondEnc hnothing]

/-- What a sweep does: some members forfeit their bonds, and the clock stands. -/
structure Sweeps (s s' : State) : Prop where
  forfeits : Forfeits s s'
  filed : KeepsFiled s s'
  epoch : s'.epoch = s.epoch
  clock : s'.lastBeginSecs = s.lastBeginSecs

instance : Std.Refl Sweeps := ⟨fun s => ⟨Std.Refl.refl s, Std.Refl.refl s, rfl, rfl⟩⟩

instance : IsTrans State Sweeps := ⟨fun _ _ _ h h' =>
  ⟨IsTrans.trans _ _ _ h.forfeits h'.forfeits, IsTrans.trans _ _ _ h.filed h'.filed,
    h'.epoch.trans h.epoch, h'.clock.trans h.clock⟩⟩

theorem sweeps_forfeitBonds (target : MemberId) : Op.Moves Sweeps (forfeitBonds target) := by
  intro s
  refine ⟨forfeits_forfeitBonds target s, FilesRows.of_view (keepsView_forfeitBonds target
    fun _ _ => rfl) s, (routine_forfeitBonds target s).epoch, ?_⟩
  exact moves_forfeitBonds (R := fun s s' : State => s'.lastBeginSecs = s.lastBeginSecs)
    ⟨fun _ _ _ => rfl, fun _ _ => rfl, fun _ _ => rfl, fun _ _ => rfl, fun _ _ _ => rfl⟩ target s

theorem sweeps_sweepCranks {s : State} (hs : s.Filed) : Sweeps s (Op.exec sweepCranks s).2 := by
  have hbooks : ∀ s s', OffBooks s s' → Sweeps s s' := by
    intro s s' h
    have hclock : s'.offBooks.lastBeginSecs = s.offBooks.lastBeginSecs := by rw [h]
    exact ⟨(SameBonds.of_offBooks h).forfeits, .of_view (.of_offBooks (fun _ => rfl) h),
      (Steady.of_offBooks h).epoch, hclock⟩
  obtain ⟨u, hu, hend | hend⟩ := sweepCranks_ends hbooks sweeps_forfeitBonds s
  · rw [hend]
    exact hu
  · rw [hend]
    have hpruned : SameBonds u (pruneClosedRows u) := .of_eq rfl rfl
    have hfiled : (pruneClosedRows u).Filed := hu.filed hs
    have hretired := sameBonds_retireEmptyRows hfiled
    have hkept : SameReserve (pruneClosedRows u) (retireEmptyRows (pruneClosedRows u)) :=
      Op.Moves.foldl (R := SameReserve) (fun s id => sameReserve_retireRow id s) _ _
    have hroutine : Routine (pruneClosedRows u) (retireEmptyRows (pruneClosedRows u)) :=
      Routine.foldl _ _ fun s id => routine_retireRow id s
    refine IsTrans.trans _ _ _ hu ⟨(IsTrans.trans _ _ _ hpruned hretired).forfeits, ?_,
      hroutine.epoch, hkept.clock⟩
    refine fun h => KeepsFiled.of_rowsLeft ?_ h
    refine IsTrans.trans _ (pruneClosedRows u) _ (SameView.rowsLeft (.of_eq rfl rfl)) ?_
    exact Op.Moves.foldl (R := RowsLeft Member.id)
      (fun s id => rowsLeft_retireRow ignoresBooks_id id s) _ _

end Apply

/-! ### The boundary -/

theorem sameBonds_advanceEpoch (s : State) : SameBonds s s.advanceEpoch := by
  refine .of_view (.mapMembers (f := fun _ m =>
    { m with
      rep := { m.rep with dIn := F64.zero false, dOut := F64.zero false }
      bondSaturatedEpochs := if m.bondDeniedThisEpoch then m.bondSaturatedEpochs + 1 else 0
      bondDeniedThisEpoch := false
      bondFreeUsed := 0 }) (fun _ _ => rfl) rfl rfl) rfl

/-- Epochs that pass count up, and nothing else of the bonds. -/
theorem advance_spec (n : Nat) (s : State) :
    SameBonds s (Nat.repeat State.advanceEpoch n s) ∧
      (Nat.repeat State.advanceEpoch n s).epoch = s.epoch + n ∧
      (Nat.repeat State.advanceEpoch n s).lastBeginSecs = s.lastBeginSecs ∧
      KeepsFiled s (Nat.repeat State.advanceEpoch n s) := by
  induction n with
  | zero => exact ⟨Std.Refl.refl s, rfl, rfl, Std.Refl.refl s⟩
  | succ n ih =>
    obtain ⟨hsame, hepoch, hclock, hfiled⟩ := ih
    refine ⟨IsTrans.trans _ _ _ hsame (sameBonds_advanceEpoch _), ?_, hclock, ?_⟩
    · exact congrArg (· + 1) hepoch
    · exact IsTrans.trans _ _ _ hfiled
        (.of_view (sameView_advanceEpoch ignoresBooks_id.books ignoresCharges_id _))

/-- **What a boundary does to the bonds**: nothing where no epoch passes, and else some members
forfeit theirs before those that are due are released. -/
theorem beginBlock_bonds {s : State} (hs : s.Filed) (nowSecs : Nat) :
    (s.beginBlock nowSecs).lastBeginSecs = nowSecs ∧
      ((SameBonds s (s.beginBlock nowSecs) ∧ (s.beginBlock nowSecs).epoch = s.epoch) ∨
        ∃ u, Forfeits s u ∧ s.epoch < u.epoch ∧ u.epoch = s.targetEpoch nowSecs ∧
          s.beginBlock nowSecs = u.releaseBonds) := by
  unfold State.beginBlock
  split
  · next h => exact ⟨h.symm, Or.inl ⟨Std.Refl.refl s, rfl⟩⟩
  dsimp only
  split
  · next hlt =>
    obtain ⟨hsame, hepoch, hclock, hfiled⟩ := advance_spec
      (State.targetEpoch { s with lastBeginSecs := nowSecs } nowSecs - s.epoch)
      { s with lastBeginSecs := nowSecs }
    have hswept := Apply.sweeps_sweepCranks (hfiled hs)
    have htarget : State.targetEpoch { s with lastBeginSecs := nowSecs } nowSecs =
      s.targetEpoch nowSecs := rfl
    have hreached : (Op.exec Apply.sweepCranks (Nat.repeat State.advanceEpoch
        (State.targetEpoch { s with lastBeginSecs := nowSecs } nowSecs - s.epoch)
        { s with lastBeginSecs := nowSecs })).2.epoch = s.targetEpoch nowSecs := by
      rw [hswept.epoch, hepoch]
      dsimp only at hlt ⊢
      omega
    refine ⟨hswept.clock.trans hclock, Or.inr ⟨_, ?_, ?_, hreached, rfl⟩⟩
    · refine IsTrans.trans _ _ _ (SameBonds.forfeits ?_) hswept.forfeits
      exact IsTrans.trans _ { s with lastBeginSecs := nowSecs } _ (.of_eq rfl rfl) hsame
    · rw [hreached]
      exact hlt
  · exact ⟨rfl, Or.inl ⟨.of_eq rfl rfl, rfl⟩⟩

/-! ### Transitions -/

theorem SameReserve.of_offBooks {s s' : State} (h : OffBooks s s') : SameReserve s s' := by
  have hreserve : s'.offBooks.forfeitReserve = s.offBooks.forfeitReserve := by rw [h]
  have hclock : s'.offBooks.lastBeginSecs = s.offBooks.lastBeginSecs := by rw [h]
  exact ⟨hreserve, hclock⟩

/-- The time of the last block is the same. -/
def SameClock (s s' : State) : Prop := s'.lastBeginSecs = s.lastBeginSecs

instance : Std.Refl SameClock := ⟨fun _ => rfl⟩

instance : IsTrans State SameClock := ⟨fun _ _ _ h h' => h'.trans h⟩

namespace Apply

/-- A transition that forfeits nothing. -/
abbrev KeepsReserve {α : Type} (op : Tr α) : Prop := Op.Moves SameReserve op

theorem KeepsReserve.of_bookkeeping {α : Type} {op : Tr α} (h : Bookkeeping op) : KeepsReserve op :=
  fun s => .of_offBooks (h s)

theorem framesRows_reserve : FramesRows SameReserve :=
  ⟨fun _ _ _ => ⟨rfl, rfl⟩, fun _ _ => ⟨rfl, rfl⟩, fun _ _ => ⟨rfl, rfl⟩, fun _ _ _ => ⟨rfl, rfl⟩⟩

theorem keepsReserve_seatPair (first second : Resolved) (sponsor : Option MemberId) :
    KeepsReserve (seatPair first second sponsor) :=
  moves_seatPair (fun _ _ _ => ⟨rfl, rfl⟩) (fun _ _ => ⟨rfl, rfl⟩) (fun _ _ _ => ⟨rfl, rfl⟩) _ _ _

section Dispatch

variable [Libm]

/-- Only a forfeiture forfeits; an assent may, where it redenominates. -/
theorem keepsReserve_dispatch (tx : Tx) (signers : List Key) (sponsor : Option MemberId)
    (hassent : ∀ id proposal, tx ≠ .assent id proposal) (hforfeit : ∀ id, tx ≠ .forfeitBonds id) :
    KeepsReserve (dispatch tx signers sponsor) := by
  have h := framesRows_reserve
  cases tx with
  | registerGuardians => exact moves_registerGuardians h _ _ _ _ _
  | rotateRequest => exact moves_rotateRequest h _ _ _
  | rotateVeto => exact moves_rotateVeto h _ _
  | rotateFinalize => exact moves_rotateFinalize h _
  | setConsensusKey => exact moves_setConsensusKey h _ _ _
  | declareSupply => exact moves_declareSupply h _ _ _
  | accept debtor creditor amount maturity arb =>
    show KeepsReserve (accept debtor creditor amount maturity arb signers sponsor)
    unfold accept
    refine .bind (quiet_acceptTerms _ _ _ _ _ _).moves fun _ =>
      .bind (keepsReserve_seatPair _ _ _) fun _ => ?_
    exact .bind (KeepsReserve.of_bookkeeping (bookkeeping_book _ _ _ _ _)) fun _ => .pure _
  | transfer => exact KeepsReserve.of_bookkeeping (bookkeeping_transfer _ _ _)
  | settle => exact KeepsReserve.of_bookkeeping (bookkeeping_repayment _ _ _ _ _ _)
  | extend => exact KeepsReserve.of_bookkeeping (bookkeeping_extend _ _ _)
  | markExpired => exact KeepsReserve.of_bookkeeping (bookkeeping_markExpired _)
  | cure => exact KeepsReserve.of_bookkeeping (bookkeeping_repayment _ _ _ _ _ _)
  | listBeneficiaries => exact moves_listBeneficiaries h _ _ _
  | approveSupporter => exact moves_approveSupporter h _ _ _ _
  | sale seller buyer amount maturity =>
    show KeepsReserve (Cascade.sale seller buyer amount maturity signers sponsor)
    unfold Cascade.sale
    refine .bind (quiet_saleTerms _ _ _ _ _).moves fun _ =>
      .bind (keepsReserve_seatPair _ _ _) fun _ =>
      .bind (KeepsReserve.of_bookkeeping (bookkeeping_netMutual _ _ _)) fun _ =>
      .ite (fun _ => .pure _) fun _ => .bind (.ask _) fun _ => ?_
    exact KeepsReserve.of_bookkeeping (Cascade.bookkeeping_originate _ _ _ _)
  | arbAttest => exact KeepsReserve.of_bookkeeping (bookkeeping_arbAttest _ _ _ _)
  | exit => exact moves_exit h (fun _ _ => ⟨rfl, rfl⟩) _ _
  | propose => exact moves_propose h _ _ _
  | assent id proposal => exact absurd rfl (hassent id proposal)
  | forfeitBonds id => exact absurd rfl (hforfeit id)

end Dispatch

theorem sameBonds_enact {kind : ProposalKind} (hkind : ∀ num den, kind ≠ .redenominate num den)
    (author : MemberId) : Op.Moves SameBonds (enact kind author) := by
  have hstatus : ∀ (id : MemberId) (f : Member → Member), (∀ m, (f m).held = m.held) →
      Op.Moves SameBonds (memberMut id f) := by
    intro id f hf
    unfold memberMut
    exact .bind (.check _) fun _ => .write fun s => .modMember hf s id
  unfold enact
  cases kind with
  | paramChange key value => exact .write fun _ => .of_eq rfl rfl
  | redenominate num den => exact absurd rfl (hkind num den)
  | suspend target =>
    exact .bind (.ask _) fun _ => .bind (.refuseIf _ _) fun _ => .bind (hstatus _ _ fun _ => rfl) fun _ =>
      .write fun _ => .of_eq rfl rfl
  | unsuspend target => exact hstatus _ _ fun _ => rfl
  | validatorPower target power =>
    refine .ite (fun _ => ?_) fun _ => ?_
    · exact .bind (.check _) fun _ => .write fun _ => .of_eq rfl rfl
    · exact .bind (.ask _) fun _ => .bind (.refuseIf _ _) fun _ => .write fun _ => .of_eq rfl rfl
  | seedAmendment amount => exact .bind (.check _) fun _ => .write fun _ => .of_eq rfl rfl

/-- An assent leaves the bonds as they are, or has enacted a redenomination. -/
theorem sameBonds_assent (s : State) (id : MemberId) (proposalId : ProposalId) (signers : List Key) :
    Op.Triple (SameBonds s) (assent id proposalId signers)
      (fun _ t => ¬Redenominated proposalId t → SameBonds s t) (SameBonds s) := by
  have hsteps : ∀ {t t' : State}, SameBonds s t → SameBonds t t' → SameBonds s t' := fun h h' =>
    IsTrans.trans _ _ _ h h'
  unfold assent
  refine .bind (triple_mayAssent id proposalId signers) fun r => ?_
  refine .bind (Q := fun _ t => SameBonds s t ∧
      ∃ p, t.proposals[proposalId]? = some p ∧ p.kind = r.1.kind)
    (.write fun t ht => ⟨hsteps ht.1 (.of_eq rfl rfl), ?_⟩) fun _ => ?_
  · refine ⟨{ r.1 with assents := r.1.assents.insert id }, ?_, rfl⟩
    simp only [modProposal, OrdMap.getElem?_modify_map, ht.2, Option.map_some, if_true]
  refine .ite (fun _ => ?_) fun _ => .pure fun t ht _ => ht.1
  by_cases hkind : ∃ num den, r.1.kind = .redenominate num den
  · obtain ⟨num, den, hkind⟩ := hkind
    rw [hkind]
    -- a redenomination does not refuse, and the proposal is marked
    refine .bind (Q := fun _ t => ∃ p, t.proposals[proposalId]? = some p ∧
      p.kind = .redenominate num den) (.write fun t ht => ?_) fun _ => .write fun t ht hnot => ?_
    · obtain ⟨-, p, hp, hpkind⟩ := ht
      exact ⟨p, (congrArg (·[proposalId]?) (proposals_rescale t (ratio num den))).trans hp, hpkind⟩
    · obtain ⟨p, hp, hpkind⟩ := ht
      refine absurd ⟨{ p with enacted := true }, num, den, ?_, rfl, hpkind⟩ hnot
      simp only [modProposal, OrdMap.getElem?_modify_map, hp, Option.map_some, if_true]
  · push Not at hkind
    refine .bind (Q := fun _ => SameBonds s) ?_ fun _ =>
      .write fun t ht _ => hsteps ht (.of_eq rfl rfl)
    exact ((sameBonds_enact hkind r.1.author).triple fun _ _ hmoved ht => hsteps ht hmoved).weaken
      (fun _ h => h.1) (fun _ _ h => h) fun _ h => h

theorem framesWrites_clock : FramesWrites SameClock :=
  ⟨fun _ _ _ => rfl, fun _ _ => rfl, fun _ _ => rfl, fun _ _ => rfl, fun _ _ _ => rfl⟩

theorem clock_rescale (s : State) (pi : F64) : SameClock s (s.rescale pi) := by
  unfold State.rescale State.rescaleWith
  extract_lets s₁ s₂ s₃ s₄ s₅ byDebtor
  have hshave : s₂.offBooks.lastBeginSecs = s₁.offBooks.lastBeginSecs := by rw [offBooks_shave s₁]
  exact hshave

theorem clock_assent (id : MemberId) (proposalId : ProposalId) (signers : List Key) :
    Op.Moves SameClock (assent id proposalId signers) := by
  have henact : ∀ kind author, Op.Moves SameClock (enact kind author) := by
    intro kind author
    unfold enact
    cases kind with
    | paramChange key value => exact .write fun _ => rfl
    | redenominate num den =>
      refine .write fun s => ?_
      have hscaled : (s.rescale (ratio num den)).lastBeginSecs = s.lastBeginSecs :=
        clock_rescale s (ratio num den)
      exact hscaled
    | suspend target =>
      exact .bind (.ask _) fun _ => .bind (.refuseIf _ _) fun _ =>
        .bind (framesWrites_clock.rows.memberMut _ _) fun _ => .write fun _ => rfl
    | unsuspend target => exact framesWrites_clock.rows.memberMut _ _
    | validatorPower target power =>
      refine .ite (fun _ => ?_) fun _ => ?_
      · exact .bind (.check _) fun _ => .write fun _ => rfl
      · exact .bind (.ask _) fun _ => .bind (.refuseIf _ _) fun _ => .write fun _ => rfl
    | seedAmendment amount => exact .bind (.check _) fun _ => .write fun _ => rfl
  unfold assent
  refine .bind (quiet_mayAssent _ _ _).moves fun carried =>
    .bind (.write fun _ => rfl) fun _ => .ite (fun _ => ?_) fun _ => .pure _
  exact .bind (henact _ _) fun _ => .write fun _ => rfl

end Apply

/-! ### The gate, the outcome and the dispatch -/

namespace Apply

/-- A bond is due back at the release epoch the parameters give. -/
theorem releaseAt_bondGate (tx : Tx) (signers : List Key) (s : State) :
    Op.Triple (· = s) (bondGate tx signers)
      (fun p _ => ∀ payer releaseAt amount, p.1 = .bond payer releaseAt amount →
        releaseAt = horizon s.epoch (max s.params.bondReleaseEpochs 1)) (fun _ => True) := by
  let P (t : State) : Prop := horizon t.epoch (max t.params.bondReleaseEpochs 1) =
    horizon s.epoch (max s.params.bondReleaseEpochs 1)
  have hroutine : ∀ {α : Type} {op : Tr α}, KeepsRoutine op → Op.Triple P op (fun _ => P) fun _ => True :=
    fun hop => (hop.triple fun t t' hmoved ht => by
      show horizon t'.epoch (max t'.params.bondReleaseEpochs 1) = _
      rw [hmoved.epoch, hmoved.params]
      exact ht).weaken (fun _ h => h) (fun _ _ h => h) fun _ _ => trivial
  have hheadroom : ∀ payer bond, KeepsRoutine (requireHeadroom payer bond) := by
    intro payer bond
    unfold requireHeadroom
    refine .bind (.check _) fun _ => .bind (.refuseIf _ _) fun _ => .bind (.ask _) fun _ =>
      .ite (fun _ => ?_) fun _ => .pure _
    exact .bind (routine_memberMut _ _) fun _ => .refuse _
  have hencumber : ∀ payer bond, Op.Triple P (encumber payer bond)
      (fun charged _ => ∀ payer releaseAt amount, charged = .bond payer releaseAt amount →
        releaseAt = horizon s.epoch (max s.params.bondReleaseEpochs 1)) (fun _ => True) := by
    intro payer bond
    unfold encumber
    refine .bind (Q := fun releaseAt _ => releaseAt = horizon s.epoch (max s.params.bondReleaseEpochs 1))
      (.ask fun t ht => ht) fun releaseAt => ?_
    refine .bind (Q := fun _ _ => releaseAt = horizon s.epoch (max s.params.bondReleaseEpochs 1))
      (triple_memberMut (fun t m ht _ => ht) fun _ _ => trivial) fun _ => .pure fun _ ht p r a hcharged => ?_
    injection hcharged with _ hr _
    exact hr.symm.trans ht
  refine Op.Triple.weaken (P := P) ?_ (fun t ht => ht ▸ rfl) (fun _ _ h => h) fun _ h => h
  unfold bondGate
  refine .bind (Q := fun _ => P) (.ask fun _ h => h) fun due => ?_
  cases due with
  | free => exact .pure fun _ _ p r a h => by cases h
  | allowance payer =>
    exact .bind (hroutine (routine_memberMut _ _)) fun _ => .pure fun _ _ p r a h => by cases h
  | slot payer =>
    exact .bind (hroutine (routine_memberMut _ _)) fun _ => .pure fun _ _ p r a h => by cases h
  | bond payer bond =>
    exact .bind (hroutine (hheadroom _ _)) fun _ => .bind (hencumber _ _) fun _ => .pure fun _ h => h
  | seat payer bond rows =>
    exact .bind (hroutine (hheadroom _ _)) fun _ => .bind (hroutine (.ask _)) fun _ =>
      .bind (hroutine (.refuseIf _ _)) fun _ => .bind (hencumber _ _) fun _ => .pure fun _ h => h
  | unpayable => exact .refuse fun _ _ => trivial

theorem sameBonds_forgetApplied (s : State) (txId : TxId) (expiry : Nat) :
    SameBonds s (s.forgetApplied txId expiry) := by
  unfold State.forgetApplied
  split
  · exact Std.Refl.refl s
  · exact .of_eq rfl rfl

theorem sameBonds_priceRefusal (subject : Option MemberId) (signers : List Key) (s : State) :
    SameBonds s (priceRefusal subject signers s).2 := by
  unfold priceRefusal
  dsimp only
  split
  · next id _ => exact .modMember (f := fun m => { m with seatSlot := false }) (fun _ => rfl) s id
  · split
    · next id _ =>
      exact .modMember (f := fun m => { m with bondFreeUsed := m.bondFreeUsed + 1 }) (fun _ => rfl) s id
    · exact Std.Refl.refl s

/-- Only a missing signature gives a bond back. -/
theorem sameBonds_settleOutcome {charged : Charged} {outcome : Res Unit}
    (h : outcome = .error .memNotSigner → ∀ payer releaseAt amount, charged ≠ .bond payer releaseAt amount)
    (tx : Tx) (txId : TxId) (expiry : Nat) (signers : List Key) (s : State) :
    SameBonds s (settleOutcome tx txId expiry signers charged outcome s) := by
  unfold settleOutcome
  split
  · exact Std.Refl.refl s
  · next e =>
    split
    · next he =>
      subst he
      refine IsTrans.trans _ _ _ (sameBonds_forgetApplied s txId expiry) ?_
      cases charged with
      | free => exact Std.Refl.refl _
      | allowance payer =>
        exact .modMember (f := fun m => { m with bondFreeUsed := m.bondFreeUsed - 1 }) (fun _ => rfl) _ payer
      | slot payer => exact .modMember (f := fun m => { m with seatSlot := true }) (fun _ => rfl) _ payer
      | bond payer releaseAt amount => exact absurd rfl (h rfl payer releaseAt amount)
    · split
      · split
        · exact sameBonds_forgetApplied s txId expiry
        · dsimp only
          split
          · exact sameBonds_priceRefusal _ _ s
          · exact IsTrans.trans _ _ _ (sameBonds_priceRefusal _ _ s) (sameBonds_forgetApplied _ _ _)
      · exact Std.Refl.refl s

theorem sameClock_settleOutcome (tx : Tx) (txId : TxId) (expiry : Nat) (signers : List Key)
    (charged : Charged) (outcome : Res Unit) (s : State) :
    SameClock s (settleOutcome tx txId expiry signers charged outcome s) := by
  refine settleOutcome_moves (R := SameClock) (fun s txId expiry => ?_) (fun s charged => ?_)
    (fun s subject signers => ?_) tx txId expiry signers charged outcome s
  · unfold State.forgetApplied
    split <;> rfl
  · cases charged <;> rfl
  · unfold priceRefusal
    dsimp only
    split
    · rfl
    · split <;> rfl

/-- **What a dispatch does to the bonds**: refused it leaves them, and else some are forfeited,
unless the unit is changed. -/
theorem bonds_dispatch [Libm] (tx : Tx) (signers : List Key) (sponsor : Option MemberId) {s u : State}
    {outcome : Res Unit} (hs : s.Issued) (hu : Op.exec (dispatch tx signers sponsor) s = (outcome, u)) :
    SameClock s u ∧ (outcome ≠ .ok () → SameBonds s u) ∧
      ((∀ id proposalId, tx = .assent id proposalId → ¬Redenominated proposalId u) → Forfeits s u) := by
  have of_kept : Untouched Member.held tx → (∀ id proposal, tx ≠ .assent id proposal) →
      (∀ id, tx ≠ .forfeitBonds id) → SameClock s u ∧ (outcome ≠ .ok () → SameBonds s u) ∧
        ((∀ id proposalId, tx = .assent id proposalId → ¬Redenominated proposalId u) →
          Forfeits s u) := by
    intro htx hassent hforfeit
    have hrows := keepsRows_dispatch ignoresBooks_held tx signers sponsor htx s hs
    have hreserve := keepsReserve_dispatch tx signers sponsor hassent hforfeit s
    rw [hu] at hrows hreserve
    have hsame : SameBonds s u := ⟨hrows.heldAt, hreserve.reserve⟩
    exact ⟨hreserve.clock, fun _ => hsame, fun _ => hsame.forfeits⟩
  cases tx with
  | assent id proposalId =>
    have hclock := clock_assent id proposalId signers s
    have hvoted := sameBonds_assent s id proposalId signers s (Std.Refl.refl s)
    replace hu : Op.exec (assent id proposalId signers) s = (outcome, u) := hu
    rw [hu] at hclock hvoted
    cases outcome with
    | ok _ => exact ⟨hclock, fun h => absurd rfl h, fun h => (hvoted (h id proposalId rfl)).forfeits⟩
    | error e => exact ⟨hclock, fun _ => hvoted, fun _ => SameBonds.forfeits hvoted⟩
  | forfeitBonds target =>
    have hclock := moves_forfeitBonds framesWrites_clock target s
    have hforfeits := forfeits_forfeitBonds target s
    replace hu : Op.exec (forfeitBonds target) s = (outcome, u) := hu
    rw [hu] at hclock hforfeits
    refine ⟨hclock, fun hne => ?_, fun _ => hforfeits⟩
    cases outcome with
    | ok _ => exact absurd rfl hne
    | error e =>
      have hatomic := atomic_forfeitBonds (s := s) target e
      rw [hu] at hatomic
      obtain rfl : u = s := hatomic rfl
      exact Std.Refl.refl u
  | registerGuardians => exact of_kept (fun _ _ => rfl) (by simp) (by simp)
  | rotateRequest => exact of_kept (fun _ _ => rfl) (by simp) (by simp)
  | rotateVeto => exact of_kept (fun _ _ => rfl) (by simp) (by simp)
  | rotateFinalize => exact of_kept (fun _ _ => rfl) (by simp) (by simp)
  | setConsensusKey => exact of_kept (fun _ _ => rfl) (by simp) (by simp)
  | exit => exact of_kept (fun _ => rfl) (by simp) (by simp)
  | _ => exact of_kept trivial (by simp) (by simp)

end Apply

end Edet
