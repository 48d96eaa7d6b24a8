import Edet.Kernel.Growth
import Edet.Ledger.Bonds
import Edet.Ledger.Charges
import Edet.Ledger.Screens
import Edet.Ledger.Stakes
import Edet.Library.Answers

/-!
# The memo of the bond gate

The gate asks how much of the seed reaches a member, which is a cut of the whole graph. A node keeps
the cuts it has computed (`GateCache`), under the epoch, the parameters and the supplies they were
computed for, and takes each for a lower bound: a threshold that the bound passes is passed, and one
that it fails is asked again of the cut itself.

A bound stays one because nothing lowers a cut that does not also move what it is kept under
(`GateCache.Valid`): within an epoch the stakes rise and rows are added, supplies are part of what a
cut is kept under, and a redenomination is on record in the parameters. So over any run of blocks,
transactions and screens that share one memo, the gate says what it says without one
(`gate_of_run`).
-/

namespace Edet

open Edet.Flow

/-! ### The memo -/

/-- Equality of amounts as floats: no number is equal to what is none. -/
def F64.same (x y : F64) : Bool := decide (x ≤ y ∧ y ≤ x)

/-- Equality of parameters, field by field. -/
def Params.same (p q : Params) : Bool :=
  F64.same p.vBase q.vBase && F64.same p.dust q.dust && F64.same p.riskK q.riskK &&
  F64.same p.thetaAdopt q.thetaAdopt && F64.same p.thetaAdoptValidator q.thetaAdoptValidator &&
  F64.same p.sealAmounts q.sealAmounts && F64.same p.stakeDecay q.stakeDecay &&
  F64.same p.bondFraction q.bondFraction && F64.same p.seedRate q.seedRate &&
  F64.same p.insuredHorizon q.insuredHorizon && F64.same p.redenomBandLn q.redenomBandLn &&
  decide (p.bondFreeAllowance = q.bondFreeAllowance ∧ p.bondReleaseEpochs = q.bondReleaseEpochs ∧
    p.bondForfeitEpochs = q.bondForfeitEpochs ∧ p.minMaturityEpochs = q.minMaturityEpochs ∧
    p.govCooldownEpochs = q.govCooldownEpochs ∧ p.minValidators = q.minValidators ∧
    p.lastAmendEpoch = q.lastAmendEpoch ∧ p.lastRedenomEpoch = q.lastRedenomEpoch)

theorem Params.lastRedenomEpoch_of_same {p q : Params} (h : p.same q = true) :
    p.lastRedenomEpoch = q.lastRedenomEpoch := by
  rw [Params.same, Bool.and_eq_true, decide_eq_true_eq] at h
  exact h.2.2.2.2.2.2.2.2

/-- What a cut is kept under. -/
structure GateKey where
  epoch : Nat
  params : Params
  underwriters : OrdMap MemberId Nat

def GateKey.same (k l : GateKey) : Bool :=
  decide (k.epoch = l.epoch) && k.params.same l.params && decide (k.underwriters = l.underwriters)

/-- The cuts that were computed, and how many that was. -/
structure GateCache where
  key : Option GateKey := none
  reach : OrdMap MemberId Nat := ∅
  queries : Nat := 0

/-- What reads and writes the memo. -/
abbrev Cached := StateM GateCache

namespace GateCache

def keyOf (s : State) : GateKey := ⟨s.epoch, s.params, s.underwriters⟩

/-- Drop everything if the ledger has moved. -/
def rekey (s : State) (cache : GateCache) : GateCache :=
  -- a key that is not a number equals nothing, not even itself
  if (cache.key.any fun k => k.same (keyOf s)) = true then cache
  else { cache with key := some (keyOf s), reach := ∅ }

/-- The cut itself, kept as the new bound. -/
def exact (s : State) (id : MemberId) : Cached Nat := fun cache =>
  let v := s.seedReachMinor id
  (v, { cache with queries := cache.queries + 1, reach := cache.reach.insert id v })

/-- A lower bound on the cut, computed if none is held. -/
def bound (s : State) (id : MemberId) : Cached Nat := fun cache =>
  match cache.reach[id]? with
  | some v => (v, cache)
  | none => exact s id cache

end GateCache

namespace Bond

def establishedCached (s : State) (id : MemberId) : Cached Bool :=
  match s.members[id]? with
  | none => pure false
  | some m =>
    if m.status ≠ .active then pure false
    else do
      let floor := toMinor (s.params.vBase * establishedFraction)
      -- the bound decides only in favour; against a member the cut itself is asked
      if floor ≤ (← GateCache.bound s id) then pure true
      else pure (decide (floor ≤ (← GateCache.exact s id)))

def freeRemainingCached (s : State) (id : MemberId) : Cached Nat :=
  match s.members[id]? with
  | none => pure 0
  | some m => do
    let established ← establishedCached s id
    if ¬established ∨ s.params.dustMinor < m.rep.openDefault then pure 0
    else pure (s.params.bondFreeAllowance - m.bondFreeUsed)

def headroomCached (s : State) (id : MemberId) : Cached Nat :=
  match s.members[id]? with
  | none => pure 0
  | some m =>
    if m.status ≠ .active then pure 0
    else do
      let reach ← GateCache.bound s id
      pure (reach - m.debtOut - m.bondEnc - OrdMap.getD' s.forfeitReserve id 0)

def headroomExact (s : State) (id : MemberId) : Cached Nat := do
  let _ ← GateCache.exact s id
  pure (s.bondHeadroomMinor id)

def coversBond (s : State) (bond : Nat) (id : MemberId) : Cached Bool := do
  if bond ≤ (← headroomCached s id) then pure true
  else pure (decide (bond ≤ (← headroomExact s id)))

/-- The member whose seat slot pays, if it does. -/
def slotCached (s : State) (ids : List MemberId) (tx : Tx) : Cached (Option MemberId) :=
  match selfActSubject tx with
  | none => pure none
  | some subject =>
    if ownSlot s ids subject then do
      let remaining ← freeRemainingCached s subject
      pure (if remaining = 0 then some subject else none)
    else pure none

/-- May the member sponsor that many rows? -/
def sponsorsCached (s : State) (bond rows : Nat) (id : MemberId) : Cached Bool :=
  if isActive s id then do
    if ← coversBond s bond id then pure (s.canSeatMinor id rows) else pure false
  else pure false

/-- Who pays for a transaction, and how, against the memo. -/
def dueWithCache (s : State) (tx : Tx) (signers : List Key) : Cached Due :=
  let multiple := bondMultiple s tx
  if multiple = 0 then pure .free
  else
    let ids := payers s signers
    match ids with
    | [] => pure .unpayable
    | first :: _ => do
      let bond := toMinor (F64.ofNat multiple * s.params.bondUnit)
      let rows := freshKeys s tx
      modify (GateCache.rekey s)
      -- a member’s slot and allowance pay for no row but its own
      if rows = 0 then do
        match ← slotCached s ids tx with
        | some subject => pure (.slot subject)
        | none =>
          match ← Answers.findM
            (fun id => do pure (decide (0 < (← freeRemainingCached s id)))) ids with
          | some id => pure (.allowance id)
          | none => do
            let payer ← Answers.findM (coversBond s bond) ids
            pure (.bond (payer.getD first) bond)
      else do
        let payer ← Answers.findM (sponsorsCached s bond rows) ids
        pure (.seat (payer.getD first) bond rows)

/-- Would the gate let the transaction pass, against the memo? -/
def admitsWithCache (s : State) (tx : Tx) (signers : List Key) : Cached Bool := do
  match ← dueWithCache s tx signers with
  | .free | .allowance _ | .slot _ => pure true
  | .bond payer bond => coversBond s bond payer
  | .seat payer bond rows => sponsorsCached s bond rows payer
  | .unpayable => pure false

/-! ### Against sound bounds -/

end Bond

/-- No bound is above the cut it stands for. -/
def GateCache.Bounds (s : State) (cache : GateCache) : Prop :=
  ∀ (id : MemberId) (v : Nat), cache.reach[id]? = some v → v ≤ s.seedReachMinor id

/-- The bounds are sound, under a key. -/
def GateCache.Under (s : State) (key : Option GateKey) (cache : GateCache) : Prop :=
  cache.Bounds s ∧ cache.key = key

namespace GateCache

variable {s : State} {key : Option GateKey}

theorem answers_exact (id : MemberId) :
    Answers (Under s key) (exact s id) (· = s.seedReachMinor id) := by
  refine fun cache h => ⟨rfl, fun other v hv => ?_, h.2⟩
  change (cache.reach.insert id (s.seedReachMinor id))[other]? = some v at hv
  rw [Std.ExtTreeMap.getElem?_insert] at hv
  -- what was kept for others is untouched
  by_cases hid : compare id other = .eq
  · obtain rfl := Std.compare_eq_iff_eq.1 hid
    rw [if_pos hid] at hv
    exact (Option.some.inj hv).ge
  · rw [if_neg hid] at hv
    exact h.1 other v hv

theorem answers_bound (id : MemberId) :
    Answers (Under s key) (bound s id) (· ≤ s.seedReachMinor id) := by
  intro cache h
  unfold bound
  cases hv : cache.reach[id]? with
  | some v => exact ⟨h.1 id v hv, h⟩
  | none =>
    obtain ⟨hvalue, hunder⟩ := answers_exact id cache h
    exact ⟨hvalue.le, hunder⟩

end GateCache

namespace Bond

open GateCache

variable {s : State} {key : Option GateKey}

/-- Asking the bound first and then the cut is asking the cut. -/
theorem answers_threshold {low high : Cached Nat} {value floor : Nat}
    (hlow : Answers (Under s key) low (· ≤ value)) (hhigh : Answers (Under s key) high (· = value)) :
    Answers (Under s key) (do
      if floor ≤ (← low) then pure true else pure (decide (floor ≤ (← high))))
      (· = decide (floor ≤ value)) := by
  refine hlow.bind fun v hv => ?_
  split
  · next hpass => exact .pure (decide_eq_true (hpass.trans hv)).symm
  · exact hhigh.bind fun w hw => .pure (by rw [hw])

theorem answers_establishedCached (id : MemberId) :
    Answers (Under s key) (establishedCached s id) (· = established s id) := by
  unfold establishedCached established
  cases s.members[id]? with
  | none => exact .pure rfl
  | some m =>
    by_cases hactive : m.status = .active
    · simp only [hactive, ne_eq, not_true_eq_false, if_false, decide_true, Bool.true_and]
      exact answers_threshold (answers_bound id) (answers_exact id)
    · simp only [hactive, ne_eq, not_false_eq_true, if_true, decide_false, Bool.false_and]
      exact .pure rfl

theorem answers_freeRemainingCached (id : MemberId) :
    Answers (Under s key) (freeRemainingCached s id) (· = freeRemaining s id) := by
  unfold freeRemainingCached freeRemaining
  cases s.members[id]? with
  | none => exact .pure rfl
  | some m =>
    refine (answers_establishedCached id).bind fun established hestablished => ?_
    subst hestablished
    dsimp only
    split <;> exact .pure rfl

theorem answers_headroomCached (id : MemberId) :
    Answers (Under s key) (headroomCached s id) (· ≤ s.bondHeadroomMinor id) := by
  unfold headroomCached State.bondHeadroomMinor
  cases s.members[id]? with
  | none => exact .pure le_rfl
  | some m =>
    by_cases hactive : m.status = .active
    · simp only [hactive, ne_eq, not_true_eq_false, if_false, if_true]
      refine (answers_bound id).bind fun reach hreach => .pure ?_
      exact Nat.sub_le_sub_right (Nat.sub_le_sub_right (Nat.sub_le_sub_right hreach _) _) _
    · simp only [hactive, ne_eq, not_false_eq_true, if_true, if_false]
      exact .pure le_rfl

theorem answers_coversBond (bond : Nat) (id : MemberId) :
    Answers (Under s key) (coversBond s bond id) (· = decide (bond ≤ s.bondHeadroomMinor id)) :=
  answers_threshold (answers_headroomCached id) ((answers_exact id).bind fun _ _ => .pure rfl)

theorem answers_sponsorsCached (bond rows : Nat) (id : MemberId) :
    Answers (Under s key) (sponsorsCached s bond rows id) (· =
      (isActive s id && decide (bond ≤ s.bondHeadroomMinor id) && s.canSeatMinor id rows)) := by
  unfold sponsorsCached
  cases isActive s id with
  | false => exact .pure rfl
  | true =>
    refine (answers_coversBond bond id).bind fun covers hcovers => ?_
    subst hcovers
    by_cases hbond : bond ≤ s.bondHeadroomMinor id <;> simp only [hbond, decide_true, decide_false] <;>
      exact .pure rfl

/-- The member whose seat slot pays, if it does. -/
def slotOf (s : State) (ids : List MemberId) (tx : Tx) : Option MemberId :=
  match selfActSubject tx with
  | none => none
  | some subject =>
    if ownSlot s ids subject && freeRemaining s subject == 0 then some subject else none

theorem answers_slotCached (ids : List MemberId) (tx : Tx) :
    Answers (Under s key) (slotCached s ids tx) (· = slotOf s ids tx) := by
  unfold slotCached slotOf
  cases selfActSubject tx with
  | none => exact .pure rfl
  | some subject =>
    dsimp only
    cases ownSlot s ids subject with
    | false => exact .pure rfl
    | true =>
      refine (answers_freeRemainingCached subject).bind fun remaining hremaining => .pure ?_
      subst hremaining
      simp

end Bond

/-! ### What the bounds are kept under -/

/-- How much of the supplies reaches a member over the stakes. -/
def reachOver (edges : Edges) (supplies : OrdMap MemberId Nat) (n : Nat) (id : MemberId) : Nat :=
  capacity edges ∅ ∅ supplies.toList [id] n u64Max + OrdMap.getD' supplies id 0

/-- It does not fall while the stakes rise and rows are added. -/
theorem reachOver_mono {edges edges' : Edges} {n n' : Nat}
    (hedges : ∀ k, OrdMap.getD' edges k 0 ≤ OrdMap.getD' edges' k 0) (hrows : n ≤ n')
    (supplies : OrdMap MemberId Nat) (id : MemberId) :
    reachOver edges supplies n id ≤ reachOver edges' supplies n' id := by
  refine Nat.add_le_add_right ?_ _
  calc capacity edges ∅ ∅ supplies.toList [id] n u64Max
    _ ≤ capacity edges' ∅ ∅ supplies.toList [id] n u64Max :=
        capacityInner_mono (fun k => Nat.sub_le_sub_right (hedges k) _) (fun _ => le_rfl) _ _ _ _
    _ ≤ capacity edges' ∅ ∅ supplies.toList [id] n' u64Max := capacityInner_mono_rows hrows _

/-- What is kept under the key of an earlier state: where that state is of the same epoch and no
redenomination was put on record since, no bound is above what the supplies of the key reach. -/
structure GateCache.Kept (s : State) (key : GateKey) (reach : OrdMap MemberId Nat) : Prop where
  epoch : key.epoch ≤ s.epoch
  recorded : key.epoch = s.epoch → key.params.lastRedenomEpoch = some key.epoch →
    s.params.lastRedenomEpoch = some s.epoch
  bounds : key.epoch = s.epoch → key.params.lastRedenomEpoch = s.params.lastRedenomEpoch →
    ∀ (id : MemberId) (v : Nat), reach[id]? = some v →
      v ≤ reachOver s.edges key.underwriters s.nextMember id

def GateCache.Valid (s : State) (cache : GateCache) : Prop :=
  ∀ key, cache.key = some key → GateCache.Kept s key cache.reach

namespace GateCache

variable {s s' : State} {cache : GateCache}

theorem valid_empty : GateCache.Valid s {} := by
  intro key hkey
  cases hkey

/-- **A memo outlives what happens to the ledger.** -/
theorem Valid.upholds (h : cache.Valid s) (hs : s.Cools) (hlater : Upholds s s') :
    cache.Valid s' := by
  intro key hkey
  have hkept := h key hkey
  -- if the key is of the later epoch, all three are of one epoch
  have hsame (hepoch : key.epoch = s'.epoch) : s'.epoch = s.epoch ∧ key.epoch = s.epoch := by
    have hle := hkept.epoch
    have hle' := hlater.epoch
    omega
  refine ⟨hkept.epoch.trans hlater.epoch, fun hepoch hrecord => ?_, fun hepoch hrecord id v hv => ?_⟩
  · obtain ⟨hstays, hfirst⟩ := hsame hepoch
    have hbefore := hkept.recorded hfirst hrecord
    rcases hlater.same hstays hs with hrises | ⟨hnot, -⟩
    · rw [hrises.redenominated, hbefore, hstays]
    · exact absurd hbefore hnot
  · obtain ⟨hstays, hfirst⟩ := hsame hepoch
    -- either the stakes rose, and the cuts with them, or a redenomination has been put on record
    -- that the key does not have
    rcases hlater.same hstays hs with hrises | ⟨hnot, hthen⟩
    · exact (hkept.bounds hfirst (hrecord.trans hrises.redenominated) id v hv).trans
        (reachOver_mono hrises.edges hrises.rows _ _)
    · exact absurd (hkept.recorded hfirst (by rw [hrecord, hthen, hfirst])) hnot

/-- The memo is keyed to the ledger as it is, and its bounds are sound. -/
structure Current (s : State) (cache : GateCache) : Prop where
  bounds : cache.Bounds s
  key : ∃ key, cache.key = some key ∧ key.epoch = s.epoch ∧
    key.params.lastRedenomEpoch = s.params.lastRedenomEpoch ∧ key.underwriters = s.underwriters

theorem Current.valid (h : cache.Current s) : cache.Valid s := by
  intro key hkey
  obtain ⟨key', hkey', hepoch, hrecord, hsupplies⟩ := h.key
  obtain rfl : key' = key := Option.some.inj (hkey'.symm.trans hkey)
  refine ⟨hepoch.le, fun _ hlast => by rw [← hrecord, hlast, hepoch], fun _ _ id v hv => ?_⟩
  have hbound := h.bounds id v hv
  rw [hsupplies]
  exact hbound

/-- What is asked of a memo keyed to the ledger leaves it so. -/
theorem Current.answered {α : Type} {m : Cached α} {a : α} (h : cache.Current s)
    (hm : ∀ key, Answers (Under s key) m (· = a)) : (m cache).1 = a ∧ (m cache).2.Current s := by
  obtain ⟨hvalue, hbounds, hkey⟩ := hm cache.key cache ⟨h.bounds, rfl⟩
  exact ⟨hvalue, hbounds, hkey ▸ h.key⟩

theorem Valid.rekey (h : cache.Valid s) : (cache.rekey s).Current s := by
  unfold GateCache.rekey
  split
  -- the key is of the ledger as it is: the bounds are those of its own supplies
  · next hsame =>
    obtain ⟨key, hkey, hsame⟩ := (Option.any_eq_true _ _).1 hsame
    simp only [GateKey.same, Bool.and_eq_true, decide_eq_true_eq] at hsame
    obtain ⟨⟨hepoch, hparams⟩, hsupplies⟩ := hsame
    have hrecord := Params.lastRedenomEpoch_of_same hparams
    refine ⟨fun id v hv => ?_, key, hkey, hepoch, hrecord, hsupplies⟩
    have hbound := (h key hkey).bounds hepoch hrecord id v hv
    rwa [hsupplies] at hbound
  · refine ⟨fun id v hv => ?_, _, rfl, rfl, rfl, rfl⟩
    rw [Std.ExtTreeMap.getElem?_empty] at hv
    cases hv

theorem Valid.answered {α : Type} {m : Cached α} {a : α} (h : cache.Valid s)
    (hm : ∀ key, Answers (Under s key) m (· = a)) :
    ((do modify (GateCache.rekey s); m : Cached α) cache).1 = a ∧
      ((do modify (GateCache.rekey s); m : Cached α) cache).2.Current s :=
  h.rekey.answered hm

end GateCache

namespace Bond

open GateCache

variable {s : State} {cache : GateCache}

theorem due_eq (s : State) (tx : Tx) (signers : List Key) : due s tx signers =
    if bondMultiple s tx = 0 then .free
    else
      match payers s signers with
      | [] => .unpayable
      | first :: rest =>
        let bond := toMinor (F64.ofNat (bondMultiple s tx) * s.params.bondUnit)
        if freshKeys s tx = 0 then
          match slotOf s (first :: rest) tx with
          | some subject => .slot subject
          | none =>
            match (first :: rest).find? fun id => decide (0 < freeRemaining s id) with
            | some id => .allowance id
            | none =>
              .bond (((first :: rest).find? fun id =>
                decide (bond ≤ s.bondHeadroomMinor id)).getD first) bond
        else
          .seat (((first :: rest).find? fun id => isActive s id &&
            decide (bond ≤ s.bondHeadroomMinor id) && s.canSeatMinor id (freshKeys s tx)).getD first)
            bond (freshKeys s tx) := by
  unfold due
  cases payers s signers <;> rfl

/-- **The memo changes no verdict**: what is due against a valid one is what is due; and where a
budget was asked for, the memo is keyed to the ledger. -/
theorem due_of_valid (h : cache.Valid s) (tx : Tx) (signers : List Key) :
    (dueWithCache s tx signers cache).1 = due s tx signers ∧
      (dueWithCache s tx signers cache).2.Valid s ∧
      (due s tx signers = .free ∨ due s tx signers = .unpayable ∨
        (dueWithCache s tx signers cache).2.Current s) := by
  rw [due_eq]
  unfold dueWithCache
  dsimp only
  split
  · exact ⟨rfl, h, .inl rfl⟩
  cases payers s signers with
  | nil => exact ⟨rfl, h, .inr (.inl rfl)⟩
  | cons first rest =>
    dsimp only
    -- a budget is asked for, of a memo that has been keyed to the ledger
    refine (fun hanswered => ⟨hanswered.1, hanswered.2.valid, .inr (.inr hanswered.2)⟩)
      (h.answered fun key => ?_)
    split
    -- the transaction opens no row
    · refine (answers_slotCached _ tx).bind fun slot hslot => ?_
      rw [← hslot]
      cases slot with
      | some subject => exact .pure rfl
      | none =>
        refine (Answers.find (fun id => (answers_freeRemainingCached id).bind
          fun remaining hremaining => .pure (by rw [hremaining])) _).bind fun found hfound => ?_
        rw [← hfound]
        cases found with
        | some id => exact .pure rfl
        | none =>
          refine (Answers.find (answers_coversBond _) _).bind fun payer hpayer => .pure ?_
          rw [hpayer]
    -- it opens some, which one member must back
    · refine (Answers.find (answers_sponsorsCached _ _) _).bind fun payer hpayer => .pure ?_
      rw [hpayer]

/-- What is admitted against a valid memo is what is admitted. -/
theorem admits_of_valid (h : cache.Valid s) (tx : Tx) (signers : List Key) :
    (admitsWithCache s tx signers cache).1 = admits s tx signers ∧
      (admitsWithCache s tx signers cache).2.Valid s := by
  obtain ⟨hdue, hvalid, hcurrent⟩ := due_of_valid h tx signers
  unfold admitsWithCache admits
  rw [StateM.bind_apply, hdue]
  generalize (dueWithCache s tx signers cache).2 = later at hvalid hcurrent ⊢
  cases hpays : due s tx signers with
  | free => exact ⟨rfl, hvalid⟩
  | allowance => exact ⟨rfl, hvalid⟩
  | slot => exact ⟨rfl, hvalid⟩
  | unpayable => exact ⟨rfl, hvalid⟩
  | bond payer bond =>
    obtain hcurrent := (hcurrent.resolve_left (by simp [hpays])).resolve_left (by simp [hpays])
    obtain ⟨hanswer, hlater⟩ := hcurrent.answered fun key => answers_coversBond bond payer
    exact ⟨hanswer, hlater.valid⟩
  | seat payer bond rows =>
    obtain hcurrent := (hcurrent.resolve_left (by simp [hpays])).resolve_left (by simp [hpays])
    obtain ⟨hanswer, hlater⟩ := hcurrent.answered fun key => answers_sponsorsCached bond rows payer
    exact ⟨hanswer, hlater.valid⟩

end Bond

/-! ### A transaction against the memo -/

namespace Apply

/-- Charge for a transaction what is due. -/
def chargeDue (due : Bond.Due) : Tr (Charged × Option MemberId) :=
  match due with
  | .free => pure (.free, none)
  | .allowance payer => do
    memberMut payer fun m => { m with bondFreeUsed := m.bondFreeUsed + 1 }
    pure (.allowance payer, none)
  | .slot payer => do
    memberMut payer fun m => { m with seatSlot := false }
    pure (.slot payer, none)
  | .seat payer bond rows => do
    requireHeadroom payer bond
    let seats ← Op.ask (·.canSeatMinor payer rows)
    Op.refuseIf (¬seats) .bondSeatUnbacked
    let charged ← encumber payer bond
    pure (charged, some payer)
  | .bond payer bond => do
    requireHeadroom payer bond
    let charged ← encumber payer bond
    pure (charged, none)
  | .unpayable => Op.refuse .bondNoPayer

theorem exec_bondGate (tx : Tx) (signers : List Key) (s : State) :
    Op.exec (bondGate tx signers) s = Op.exec (chargeDue (Bond.due s tx signers)) s := by
  unfold bondGate
  rw [Op.exec_bind, Op.exec_ask]
  cases Bond.due s tx signers <;> rfl

/-! ### The screen and the gate -/

section Screen

variable {s : State} {payer : MemberId} {m : Member}

theorem exec_encumber (hm : s.members[payer]? = some m) (bond : Nat) :
    ∃ charged t, Op.exec (encumber payer bond) s = (.ok charged, t) := by
  unfold encumber
  rw [Op.exec_bind, Op.exec_ask]
  dsimp only
  rw [Op.exec_bind_ok (exec_memberMut hm _)]
  exact ⟨_, _, rfl⟩

theorem isActive_iff (hm : s.members[payer]? = some m) :
    Bond.isActive s payer = true ↔ m.status = .active := by
  unfold Bond.isActive
  rw [hm]
  exact decide_eq_true_iff

/-- What is due is at hand. -/
def AtHand (s : State) : Bond.Due → Prop
  | .free | .allowance _ | .slot _ => True
  | .bond payer bond => Bond.isActive s payer = true ∧ bond ≤ s.bondHeadroomMinor payer
  | .seat payer bond rows => Bond.isActive s payer = true ∧ bond ≤ s.bondHeadroomMinor payer ∧
      s.canSeatMinor payer rows = true
  | .unpayable => False

/-- A bond is refused, or passed with nothing written. -/
theorem requireHeadroom_cases (hm : s.members[payer]? = some m) (bond : Nat) :
    ((Bond.isActive s payer = true ∧ bond ≤ s.bondHeadroomMinor payer) ∧
        Op.exec (requireHeadroom payer bond) s = (.ok (), s)) ∨
      ¬(Bond.isActive s payer = true ∧ bond ≤ s.bondHeadroomMinor payer) ∧
        ∃ e t, Op.exec (requireHeadroom payer bond) s = (.error e, t) := by
  have hmember : Op.exec (member payer) s = (.ok m, s) := Prod.ext (findMember_eq_ok.2 hm) rfl
  unfold requireHeadroom
  rw [Op.exec_bind_ok hmember, Op.exec_bind, Op.exec_refuseIf, isActive_iff hm]
  -- both refusals come before the row is written
  by_cases hactive : m.status = .active
  · rw [if_neg (not_not.2 hactive)]
    dsimp only
    rw [Op.exec_bind, Op.exec_ask]
    dsimp only
    by_cases hshort : s.bondHeadroomMinor payer < bond
    · rw [decide_eq_true hshort, if_pos rfl, Op.exec_bind_ok (exec_memberMut hm _)]
      exact .inr ⟨fun h => Nat.not_le_of_lt hshort h.2, _, _, rfl⟩
    · rw [decide_eq_false hshort, if_neg Bool.false_ne_true]
      exact .inl ⟨⟨hactive, Nat.le_of_not_lt hshort⟩, rfl⟩
  · rw [if_pos hactive]
    exact .inr ⟨fun h => hactive h.1, _, _, rfl⟩

/-- The gate charges what is due where it is at hand, and refuses where it is not. -/
theorem chargeDue_cases {tx : Tx} {signers : List Key} {due : Bond.Due}
    (hpays : PaysBy s tx signers due) :
    (AtHand s due ∧ ∃ a t, Op.exec (chargeDue due) s = (.ok a, t)) ∨
      ¬AtHand s due ∧ ∃ e t, Op.exec (chargeDue due) s = (.error e, t) := by
  cases due with
  | free => exact .inl ⟨trivial, _, _, rfl⟩
  | unpayable => exact .inr ⟨id, _, _, rfl⟩
  | allowance payer =>
    obtain ⟨m, hm⟩ := (mem_payers.1 hpays).2
    exact .inl ⟨trivial, _, _, Op.exec_bind_ok (exec_memberMut hm _) _⟩
  | slot payer =>
    obtain ⟨m, hm⟩ := (mem_payers.1 hpays.1).2
    exact .inl ⟨trivial, _, _, Op.exec_bind_ok (exec_memberMut hm _) _⟩
  -- the payer has a row, so nothing but the headroom can refuse
  | bond payer bond =>
    obtain ⟨m, hm⟩ := (mem_payers.1 hpays.1).2
    unfold chargeDue
    rcases requireHeadroom_cases hm bond with ⟨hatHand, hok⟩ | ⟨hnot, e, t, herror⟩
    · obtain ⟨charged, t, hcharged⟩ := exec_encumber hm bond
      exact .inl ⟨hatHand, _, _, by rw [Op.exec_bind_ok hok, Op.exec_bind_ok hcharged]; rfl⟩
    · exact .inr ⟨hnot, e, t, Op.exec_bind_error herror _⟩
  | seat payer bond rows =>
    obtain ⟨m, hm⟩ := (mem_payers.1 hpays.1).2
    unfold chargeDue
    rcases requireHeadroom_cases hm bond with ⟨hatHand, hok⟩ | ⟨hnot, e, t, herror⟩
    · dsimp only
      rw [Op.exec_bind_ok hok, Op.exec_bind, Op.exec_ask]
      dsimp only
      rw [Op.exec_bind, Op.exec_refuseIf]
      cases hseats : s.canSeatMinor payer rows with
      | false => exact .inr ⟨fun h => absurd (hseats.symm.trans h.2.2) Bool.false_ne_true, _, _, rfl⟩
      | true =>
        obtain ⟨charged, t, hcharged⟩ := exec_encumber hm bond
        refine .inl ⟨⟨hatHand.1, hatHand.2, hseats⟩, (charged, some payer), t, ?_⟩
        rw [if_neg (by simp)]
        dsimp only
        rw [Op.exec_bind_ok hcharged]
        rfl
    · exact .inr ⟨fun h => hnot ⟨h.1, h.2.1⟩, e, t, Op.exec_bind_error herror _⟩

/-- What the screen admits is at hand, but for a bond of nothing asked of a member that is not
active. -/
theorem atHand_iff_admits (s : State) (tx : Tx) (signers : List Key) :
    AtHand s (Bond.due s tx signers) ↔ Bond.admits s tx signers = true ∧
      ∀ payer bond, Bond.due s tx signers = .bond payer bond → Bond.isActive s payer = true := by
  unfold Bond.admits
  cases Bond.due s tx signers with
  | bond payer bond =>
    simp only [AtHand, decide_eq_true_eq, Bond.Due.bond.injEq]
    exact ⟨fun h => ⟨h.2, fun _ _ hpays => hpays.1 ▸ h.1⟩, fun h => ⟨h.2 _ _ ⟨rfl, rfl⟩, h.1⟩⟩
  | seat payer bond rows => simp [AtHand, and_assoc]
  | _ => simp [AtHand]

/-- The screen answers as the gate does. -/
theorem passes_iff (s : State) (tx : Tx) (signers : List Key) :
    (∃ a t, Op.exec (bondGate tx signers) s = (.ok a, t)) ↔ Bond.admits s tx signers = true ∧
      ∀ payer bond, Bond.due s tx signers = .bond payer bond → Bond.isActive s payer = true := by
  rw [exec_bondGate, ← atHand_iff_admits]
  rcases chargeDue_cases (paysBy_due s tx signers) with ⟨hatHand, hok⟩ | ⟨hnot, e, t, herror⟩
  · exact ⟨fun _ => hatHand, fun _ => hok⟩
  · refine ⟨fun hpasses => ?_, fun h => absurd h hnot⟩
    obtain ⟨a, u, hok⟩ := hpasses
    exact nomatch herror.symm.trans hok

end Screen

section Apply

variable [Libm]

/-- Apply a transaction in an opened block, once the gate's verdict is known. -/
def applyDue (tx : Tx) (txId : TxId) (notAfterEpoch : Nat) (signers : List Key)
    (due : Bond.Due) : Tr Unit := do
  let (charged, sponsor) ← chargeDue due
  Op.write (·.recordApplied txId notAfterEpoch)
  let outcome ← Op.outcome (dispatch tx signers sponsor)
  Op.write (settleOutcome tx txId notAfterEpoch signers charged outcome)
  Op.check fun _ => outcome

/-- Apply a transaction in a block at `nowSecs`, against the memo. -/
def applyWithCache (tx : Tx) (txId : TxId) (notAfterEpoch : Nat) (signers : List Key)
    (nowSecs : Nat) (s : State) : Cached (Res Unit × State) :=
  let s := s.beginBlock nowSecs
  match admissible s txId notAfterEpoch with
  | .error e => pure (.error e, s)
  | .ok _ => do
    let due ← Bond.dueWithCache s tx signers
    pure (Op.exec (applyDue tx txId notAfterEpoch signers due) s)

theorem exec_apply (tx : Tx) (txId : TxId) (notAfterEpoch : Nat) (signers : List Key)
    (nowSecs : Nat) (s : State) : Op.exec (apply tx txId notAfterEpoch signers nowSecs) s =
      match admissible (s.beginBlock nowSecs) txId notAfterEpoch with
      | .error e => (.error e, s.beginBlock nowSecs)
      | .ok _ => Op.exec (applyDue tx txId notAfterEpoch signers
          (Bond.due (s.beginBlock nowSecs) tx signers)) (s.beginBlock nowSecs) := by
  unfold apply
  rw [Op.exec_bind, Op.exec_write]
  dsimp only
  rw [Op.exec_bind, Op.exec_check]
  cases admissible (s.beginBlock nowSecs) txId notAfterEpoch with
  | error e => rfl
  | ok =>
    unfold applyDue
    dsimp only
    rw [Op.exec_bind, exec_bondGate, Op.exec_bind]

/-- What an opened block does with a transaction. -/
theorem within_applyDue (tx : Tx) (txId : TxId) (notAfterEpoch : Nat) (signers : List Key)
    (s : State) :
    Within s (Op.exec (applyDue tx txId notAfterEpoch signers (Bond.due s tx signers)) s).2 := by
  have hmoves : Op.Moves Within (do
      let (charged, sponsor) ← bondGate tx signers
      Op.write (·.recordApplied txId notAfterEpoch)
      let outcome ← Op.outcome (dispatch tx signers sponsor)
      Op.write (settleOutcome tx txId notAfterEpoch signers charged outcome)
      Op.check fun _ => outcome : Tr Unit) := by
    refine .bind (bondGate_moves (fun _ _ _ => Rises.within (.of_eq rfl rfl rfl rfl)) _ _)
      fun charged => .bind (.write fun _ => Rises.within (.of_eq rfl rfl rfl rfl)) fun _ => ?_
    refine .bind (.outcome (within_dispatch _ _ _)) fun outcome => ?_
    exact .bind (.write fun s => (rises_settleOutcome _ _ _ _ _ _ s).within) fun _ => .check _
  have hsame := hmoves s
  rw [Op.exec_bind, exec_bondGate] at hsame
  unfold applyDue
  rw [Op.exec_bind]
  exact hsame

/-- A transaction ends against a valid memo as it ends without one. -/
theorem apply_of_valid {cache : GateCache} (tx : Tx) (txId : TxId) (notAfterEpoch : Nat)
    (signers : List Key) (nowSecs : Nat) (s : State) (h : cache.Valid (s.beginBlock nowSecs))
    (hs : (s.beginBlock nowSecs).Cools) :
    (applyWithCache tx txId notAfterEpoch signers nowSecs s cache).1 =
        Op.exec (apply tx txId notAfterEpoch signers nowSecs) s ∧
      (applyWithCache tx txId notAfterEpoch signers nowSecs s cache).2.Valid
        (Op.exec (apply tx txId notAfterEpoch signers nowSecs) s).2 ∧
      (Op.exec (apply tx txId notAfterEpoch signers nowSecs) s).2.Cools := by
  unfold applyWithCache
  rw [exec_apply]
  generalize s.beginBlock nowSecs = opened at h hs ⊢
  cases admissible opened txId notAfterEpoch with
  | error e => exact ⟨rfl, h, hs⟩
  | ok =>
    obtain ⟨hdue, hvalid, -⟩ := Bond.due_of_valid h tx signers
    have hend := within_applyDue tx txId notAfterEpoch signers opened
    dsimp only
    rw [StateM.bind_apply, hdue]
    exact ⟨rfl, hvalid.upholds hs hend.toUpholds, hs.of_within hend⟩

end Apply

end Apply

/-! ### A run that shares one memo -/

/-- What a node does with its ledger and its memo: an event, or a screen. -/
inductive Asked
  | event (e : Event)
  | screen (tx : Tx) (signers : List Key)

/-- What is answered to it. -/
inductive Verdict
  | opened
  | applied (outcome : Res Unit)
  | screened (admitted : Bool)

/-- The block's clock is a machine integer. -/
def Asked.Timed : Asked → Prop
  | .event e => e.nowSecs ≤ u64Max
  | .screen _ _ => True

instance (a : Asked) : Decidable a.Timed :=
  match a with
  | .event e => inferInstanceAs (Decidable (e.nowSecs ≤ u64Max))
  | .screen _ _ => inferInstanceAs (Decidable True)

/-- A block of a clock that is a machine integer does not run the epochs out. -/
theorem opens_of_timed {s : State} {nowSecs : Nat} (hs : s.Cools) (hnow : nowSecs ≤ u64Max) :
    Upholds s (s.beginBlock nowSecs) ∧ (s.beginBlock nowSecs).Cools := by
  obtain ⟨hlater, hepoch⟩ := upholds_beginBlock nowSecs s
  refine ⟨hlater, hlater.cooldown ▸ hs.cooldown, hepoch.trans_lt (max_lt hs.epoch ?_)⟩
  have := Nat.div_le_div_right (c := Constants.epochSecs) hnow
  exact this.trans_lt (by decide)

section Run

variable [Libm]

/-- The verdict and the ledger after it, with no memo. -/
def Asked.answer (s : State) : Asked → Verdict × State
  | .event (.block nowSecs) => (.opened, s.beginBlock nowSecs)
  | .event (.transaction tx txId notAfterEpoch signers nowSecs) =>
    let (outcome, s) := Op.exec (Apply.apply tx txId notAfterEpoch signers nowSecs) s
    (.applied outcome, s)
  | .screen tx signers => (.screened (Bond.admits s tx signers), s)

/-- The verdict and the ledger after it, against the memo. -/
def Asked.answerWithCache (s : State) : Asked → Cached (Verdict × State)
  | .event (.block nowSecs) => pure (.opened, s.beginBlock nowSecs)
  | .event (.transaction tx txId notAfterEpoch signers nowSecs) => do
    let (outcome, s) ← Apply.applyWithCache tx txId notAfterEpoch signers nowSecs s
    pure (.applied outcome, s)
  | .screen tx signers => do
    let admitted ← Bond.admitsWithCache s tx signers
    pure (.screened admitted, s)

/-- The verdicts of a run, in its order, and the ledger after it. -/
def Asked.run (s : State) : List Asked → List Verdict × State
  | [] => ([], s)
  | a :: as =>
    let (verdict, s) := a.answer s
    let (verdicts, s) := Asked.run s as
    (verdict :: verdicts, s)

def Asked.runWithCache (s : State) : List Asked → Cached (List Verdict × State)
  | [] => pure ([], s)
  | a :: as => do
    let (verdict, s) ← a.answerWithCache s
    let (verdicts, s) ← Asked.runWithCache s as
    pure (verdict :: verdicts, s)

/-- What is asked is answered as without the memo, and leaves the memo valid. -/
theorem Asked.answer_of_valid {s : State} {cache : GateCache} {a : Asked} (h : cache.Valid s)
    (hs : s.Cools) (ha : a.Timed) :
    (a.answerWithCache s cache).1 = a.answer s ∧
      (a.answerWithCache s cache).2.Valid (a.answer s).2 ∧ (a.answer s).2.Cools := by
  rcases a with (nowSecs | ⟨tx, txId, notAfterEpoch, signers, nowSecs⟩) | ⟨tx, signers⟩
  · obtain ⟨hlater, hcools⟩ := opens_of_timed hs ha
    exact ⟨rfl, h.upholds hs hlater, hcools⟩
  · have hnow : nowSecs ≤ u64Max := ha
    obtain ⟨hlater, hcools⟩ := opens_of_timed hs hnow
    obtain ⟨houtcome, hvalid, hcools⟩ := Apply.apply_of_valid tx txId notAfterEpoch signers nowSecs s
      (h.upholds hs hlater) hcools
    refine ⟨?_, hvalid, hcools⟩
    exact congrArg (fun ended : Res Unit × State => (Verdict.applied ended.1, ended.2)) houtcome
  -- a screen writes the memo and leaves the ledger
  · obtain ⟨hadmits, hvalid⟩ := Bond.admits_of_valid h tx signers
    exact ⟨congrArg (fun admitted => (Verdict.screened admitted, s)) hadmits, hvalid, hs⟩

/-- A run against a valid memo ends as it ends without one, and leaves the memo valid. -/
theorem Asked.run_of_valid {s : State} {cache : GateCache} (h : cache.Valid s) (hs : s.Cools)
    {asked : List Asked} (hasked : ∀ a ∈ asked, a.Timed) :
    (Asked.runWithCache s asked cache).1 = Asked.run s asked ∧
      (Asked.runWithCache s asked cache).2.Valid (Asked.run s asked).2 := by
  -- by induction on what is asked, from any ledger and any memo valid for it
  induction asked generalizing s cache with
  | nil => exact ⟨rfl, h⟩
  | cons a as ih =>
    obtain ⟨hanswer, hvalid, hcools⟩ := answer_of_valid h hs (hasked a (List.mem_cons_self ..))
    obtain ⟨hrest, hend⟩ := ih hvalid hcools fun b hb => hasked b (List.mem_cons_of_mem _ hb)
    unfold Asked.runWithCache Asked.run
    rw [StateM.bind_apply, hanswer]
    dsimp only
    rw [StateM.bind_apply, hrest]
    exact ⟨rfl, hend⟩

/-- **One memo for a whole run changes nothing.** -/
theorem gate_of_run {s : State} (hs : s.Cools) {asked : List Asked}
    (hasked : ∀ a ∈ asked, a.Timed) :
    (Asked.runWithCache s asked {}).1 = Asked.run s asked :=
  (Asked.run_of_valid GateCache.valid_empty hs hasked).1

/-- **What the screen admits against the memo, the gate lets pass**, at any point of a run, and
nothing else; but for a bond of nothing, which it asks of an active member alone. -/
theorem passes_iff_screened {s t : State} (hs : s.Cools) {asked : List Asked}
    (hasked : ∀ a ∈ asked, a.Timed) {verdicts : List Verdict} {cache : GateCache}
    (hrun : Asked.runWithCache s asked {} = ((verdicts, t), cache)) (tx : Tx) (signers : List Key) :
    (∃ a u, Op.exec (Apply.bondGate tx signers) t = (.ok a, u)) ↔
      (Bond.admitsWithCache t tx signers cache).1 = true ∧
        ∀ payer bond, Bond.due t tx signers = .bond payer bond → Bond.isActive t payer = true := by
  obtain ⟨hends, hvalid⟩ := Asked.run_of_valid GateCache.valid_empty hs hasked
  rw [hrun] at hends hvalid
  have hends : t = (Asked.run s asked).2 := congrArg Prod.snd hends
  rw [← hends] at hvalid
  rw [(Bond.admits_of_valid hvalid tx signers).1, Apply.passes_iff]

end Run

/-- A founder's debt to another, and what that does to a second one. -/
def memoAsked : List Asked :=
  let signers := [founderKey 0, founderKey 1]
  let lends amount : Tx := .accept (.member 1) (.member 0) (F64.ofNat amount) 30 none
  [.event (.block 10), .event (.transaction (lends 100) 0 0 signers 10), .screen (lends 200) signers,
    .event (.transaction (.settle 0 (F64.ofNat 100)) 1 0 signers 10), .screen (lends 200) signers,
    .event (.transaction (lends 200) 2 0 signers 10)]

/-- The settlement raises a stake between two questions, and a single cut serves them all. -/
theorem gate_of_run_memoAsked :
    letI := Libm.unused
    let s := (devGenesis [1000, 1000]).state
    (Asked.runWithCache s memoAsked {}).1 = Asked.run s memoAsked ∧
      (Asked.runWithCache s memoAsked {}).2.queries = 1 ∧
      OrdMap.getD' (Asked.run s memoAsked).2.edges (0, 1) 0 = 10000 := by
  let _ : Libm := Libm.unused
  have hrun := @gate_of_run _ (devGenesis [1000, 1000]).state ⟨by decide +kernel, by decide +kernel⟩
    memoAsked (by decide)
  exact ⟨hrun, by decide +kernel, by decide +kernel⟩

/-- A debt between strangers. -/
def strangersTx : Tx := .accept (.key (founderKey 7)) (.key (founderKey 8)) (F64.ofNat 1) 30 none

/-- After it strangers are refused, for want of anyone who pays. -/
theorem passes_iff_screened_strangers :
    letI := Libm.unused
    ¬∃ a u, Op.exec (Apply.bondGate strangersTx [founderKey 7, founderKey 8])
      (Asked.runWithCache (devGenesis [1000, 1000]).state memoAsked {}).1.2 = (.ok a, u) := by
  let _ : Libm := Libm.unused
  have heta (r : (List Verdict × State) × GateCache) : r = ((r.1.1, r.1.2), r.2) := rfl
  have hscreened := passes_iff_screened (s := (devGenesis [1000, 1000]).state)
    ⟨by decide +kernel, by decide +kernel⟩ (by decide) (heta (Asked.runWithCache _ memoAsked {}))
    strangersTx [founderKey 7, founderKey 8]
  rw [hscreened]
  have hrefused : (Bond.admitsWithCache
      (Asked.runWithCache (devGenesis [1000, 1000]).state memoAsked {}).1.2 strangersTx
      [founderKey 7, founderKey 8]
      (Asked.runWithCache (devGenesis [1000, 1000]).state memoAsked {}).2).1 = false := by
    decide +kernel
  rw [hrefused]
  exact fun h => Bool.false_ne_true h.1

end Edet
