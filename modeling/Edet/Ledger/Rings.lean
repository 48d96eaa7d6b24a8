import Edet.Ledger.CleanRefusal
import Edet.Ledger.Parties
import Edet.Library.Rings

/-!
# Rings of defaults

The sweep of a boundary looks for rings of defaulted debts (`findRing`) and nets each by the
least that one of its hops owes (`netRing`).

The search visits a member at most once on the way it is on, and what it visited on a way it
gave up is forgotten: it finds a ring if and only if the eligible hops have one
(`isSome_findRing_iff`), and what it finds is one (`isRing_of_findRing`).

Netting lowers every hop of the ring by the same (`Lowered`). A hop left with dust is closed and
the dust forgiven, so the least hop closes, and what its members are owed less what they owe
stays as it is but for that dust (`netting_forgives`).
-/

namespace Edet

open Edet.Flow

namespace Apply

variable {s : State} {hops : List Contract} {start here : MemberId} {seen : List MemberId}
  {path : List ContractId} {fuel : Nat}

/-! ### The search -/

/-- A ring that may be netted: two hops or more, and at most the longest that is looked for. -/
structure IsRing (s : State) (ring : List Contract) : Prop
    extends Rings.IsRing Contract.debtor Contract.creditor ring where
  eligible : ∀ c ∈ ring, c ∈ eligibleHops s
  two_le : 2 ≤ ring.length
  le_max : ring.length ≤ Constants.nettingMaxRing

/-- A way back to the first member. -/
abbrev WayBack (hops : List Contract) (start : MemberId) :
    MemberId → List MemberId → List Contract → Prop :=
  Rings.WayBack Contract.debtor Contract.creditor hops start

/-- What the walk returns continues its path by a way back. -/
theorem walkRing_sound {ids : List ContractId}
    (h : walkRing hops start fuel here path seen = some ids)
    (hpath : path.length + 1 ≤ Constants.nettingMaxRing) :
    ∃ way, WayBack hops start here seen way ∧ ids = path ++ way.map Contract.id ∧
      path.length + way.length ≤ Constants.nettingMaxRing := by
  induction fuel generalizing here path seen with
  | zero => cases h
  | succ fuel ih =>
    unfold walkRing at h
    obtain ⟨c, hc, hstep⟩ := List.exists_of_findSome?_eq_some h
    obtain ⟨hmem, hhere⟩ := List.mem_filter.1 hc
    have hhere : c.debtor = here := of_decide_eq_true hhere
    split at hstep
    · next hclose =>
      obtain rfl := Option.some.inj hstep
      exact ⟨[c], .closes hmem hhere hclose, rfl, hpath⟩
    · split at hstep
      · cases hstep
      · next hgoes =>
        obtain ⟨hlength, hfresh⟩ := not_or.1 hgoes
        obtain ⟨way, hway, rfl, hle⟩ := ih hstep (by simpa using Nat.lt_of_not_le hlength)
        refine ⟨c :: way, .goes hmem hhere hfresh hway, by simp, ?_⟩
        simpa [Nat.add_assoc, Nat.add_comm 1] using hle

/-- The walk finds a way back where there is one within its bounds. -/
theorem walkRing_complete {way : List Contract} (h : WayBack hops start here seen way)
    (hlength : path.length + way.length ≤ Constants.nettingMaxRing) (hfuel : way.length ≤ fuel)
    (hstart : start ∈ seen) : (walkRing hops start fuel here path seen).isSome := by
  induction h generalizing path fuel with
  | @closes here seen c hmem hhere hclose =>
    cases fuel with
    | zero => simp at hfuel
    | succ fuel =>
      unfold walkRing
      rw [List.isSome_findSome?]
      refine List.any_eq_true.2 ⟨c, List.mem_filter.2 ⟨hmem, decide_eq_true hhere⟩, ?_⟩
      rw [if_pos hclose]
      rfl
  | @goes here seen c way hmem hhere hfresh hway ih =>
    cases fuel with
    | zero => simp at hfuel
    | succ fuel =>
      unfold walkRing
      rw [List.isSome_findSome?]
      refine List.any_eq_true.2 ⟨c, List.mem_filter.2 ⟨hmem, decide_eq_true hhere⟩, ?_⟩
      -- the way goes on, so the hop does not close it
      have hopen : c.creditor ≠ start := fun heq => hfresh (heq ▸ hstart)
      have hpos := List.length_pos_iff.2 hway.ne_nil
      have hshort : path.length + 1 < Constants.nettingMaxRing := by
        rw [List.length_cons] at hlength
        omega
      rw [if_neg hopen, if_neg (not_or.2 ⟨Nat.not_le.2 hshort, hfresh⟩)]
      refine ih ?_ (Nat.le_of_succ_le_succ hfuel) (List.mem_cons_of_mem _ hstart)
      rw [List.length_cons] at hlength
      rw [List.length_append, List.length_singleton]
      omega

/-- **What the search finds is a ring**. -/
theorem isRing_of_findRing {ids : List ContractId} (h : findRing s = some ids) :
    ∃ ring, IsRing s ring ∧ ids = ring.map Contract.id := by
  unfold findRing at h
  obtain ⟨c, hc, hwalk⟩ := List.exists_of_findSome?_eq_some h
  split at hwalk
  · cases hwalk
  · next hne =>
    obtain ⟨way, hway, rfl, hle⟩ := walkRing_sound hwalk (show 2 ≤ Constants.nettingMaxRing by decide)
    have hmem : ∀ c' ∈ c :: way, c' ∈ eligibleHops s := by
      simpa using ⟨hc, hway.subset⟩
    obtain ⟨hring, htwo⟩ := (Rings.isRing_cons_iff hmem).2 ⟨hne, hway⟩
    exact ⟨c :: way, ⟨hring, hmem, htwo, by simpa [Nat.add_comm] using hle⟩, rfl⟩

/-- **The search finds a ring if the eligible hops have one**. -/
theorem isSome_findRing_iff : (findRing s).isSome ↔ ∃ ring, IsRing s ring := by
  constructor
  · intro h
    obtain ⟨ids, hids⟩ := Option.isSome_iff_exists.1 h
    obtain ⟨ring, hring, -⟩ := isRing_of_findRing hids
    exact ⟨ring, hring⟩
  · rintro ⟨ring, hring⟩
    cases ring with
    | nil => exact absurd hring.two_le (by simp)
    | cons c way =>
      obtain ⟨hne, hway⟩ :=
        (Rings.isRing_cons_iff hring.eligible).1 ⟨hring.toIsRing, hring.two_le⟩
      have hle := hring.le_max
      rw [List.length_cons] at hle
      unfold findRing
      rw [List.isSome_findSome?]
      refine List.any_eq_true.2 ⟨c, hring.eligible c (by simp), ?_⟩
      rw [if_neg hne]
      refine walkRing_complete hway ?_ (Nat.le_of_succ_le hle) (by simp)
      simpa [Nat.add_comm] using hle

/-! ### Netting one hop -/

end Apply

namespace Contract

/-- What a write to its hold leaves of a contract. -/
def terms (c : Contract) : MemberId × MemberId × Nat × ContractStatus :=
  (c.debtor, c.creditor, c.outstanding, c.status)

/-- A contract in default, netted by `take`. -/
def netted (dust take : Nat) (c : Contract) : Contract :=
  if c.outstanding - take ≤ dust then { c with outstanding := 0, status := .cured }
  else { c with outstanding := c.outstanding - take }

/-- The dust that netting a contract by `take` forgives. -/
def forgiven (dust take : Nat) (c : Contract) : Nat :=
  if c.outstanding - take ≤ dust then c.outstanding - take else 0

variable {dust take : Nat} {c : Contract}

@[simp] theorem netted_debtor : (c.netted dust take).debtor = c.debtor := by
  unfold netted
  split <;> rfl

@[simp] theorem netted_creditor : (c.netted dust take).creditor = c.creditor := by
  unfold netted
  split <;> rfl

theorem forgiven_le : c.forgiven dust take ≤ dust := by
  unfold forgiven
  split
  · assumption
  · exact Nat.zero_le _

/-- A netted contract is lowered by what was taken and what was forgiven. -/
theorem netted_outstanding (hle : take ≤ c.outstanding) :
    (c.netted dust take).outstanding + (take + c.forgiven dust take) = c.outstanding := by
  unfold netted forgiven
  split
  · dsimp only
    omega
  · dsimp only
    omega

end Contract

namespace Apply

/-- No contract's terms are written. -/
def SameTerms (s s' : State) : Prop :=
  ∀ id : ContractId, s'.contracts[id]?.map Contract.terms = s.contracts[id]?.map Contract.terms

instance : Std.Refl SameTerms := ⟨fun _ _ => rfl⟩

instance : IsTrans State SameTerms := ⟨fun _ _ _ h h' id => (h' id).trans (h id)⟩

theorem SameTerms.of_eq {s s' : State} (h : s'.contracts = s.contracts) : SameTerms s s' :=
  fun id => by rw [h]

theorem sameTerms_contractMut {id : ContractId} {f : Contract → Contract}
    (hf : ∀ c, (f c).terms = c.terms) : Op.Moves SameTerms (contractMut id f) := by
  unfold contractMut
  refine .bind (.check _) fun _ => .write fun s a => ?_
  rw [State.modContract, OrdMap.getElem?_modify_map, Option.map_map]
  cases s.contracts[a]? with
  | none => rfl
  | some c =>
    by_cases heq : id = a
    · simp [heq, hf]
    · simp [heq]

theorem sameTerms_rehold (id : ContractId) : Op.Moves SameTerms (rehold id) := by
  unfold rehold
  refine .bind (.check _) fun c => .ite (fun _ => .pure _) fun _ => .ite (fun _ => ?_) fun _ => ?_
  · refine .ite (fun _ => .pure _) fun _ => .bind (.write fun _ => .of_eq rfl) fun _ => ?_
    exact sameTerms_contractMut fun _ => rfl
  · refine .bind (.ask _) fun _ => .ite (fun _ => ?_) fun _ => .pure _
    refine .bind (.draw fun s => ?_) fun held => ?_
    · generalize (if c.status.live then c.outstanding else 0) = want
      unfold State.reserveCapacityMinor
      split <;> exact .of_eq rfl
    · cases held <;> exact sameTerms_contractMut fun _ => rfl

theorem contracts_dischargeCredit (debtor creditor : MemberId) (amount : Nat) (s : State) :
    (dischargeCredit debtor creditor amount s).contracts = s.contracts := by
  unfold dischargeCredit
  split <;> rfl

/-- The contract `id` is there, on the terms of `c`. -/
def OnTerms (id : ContractId) (c : Contract) (s : State) : Prop :=
  ∃ c', s.contracts[id]? = some c' ∧ c'.terms = c.terms

theorem OnTerms.sameTerms {id : ContractId} {c : Contract} {s s' : State} (h : OnTerms id c s)
    (hsame : SameTerms s s') : OnTerms id c s' := by
  obtain ⟨c₁, hc₁, hterms⟩ := h
  have hmap := hsame id
  rw [hc₁, Option.map_some, Option.map_eq_some_iff] at hmap
  obtain ⟨c₂, hc₂, heq⟩ := hmap
  exact ⟨c₂, hc₂, heq.trans hterms⟩

/-- One contract was netted by `take`, and nothing else about contracts changed. -/
structure Lowered (take : Nat) (id : ContractId) (s s' : State) : Prop where
  winds : Winds s s'
  elsewhere : Cascade.Elsewhere id s s'
  hop : ∀ c, s.contracts[id]? = some c → OnTerms id (c.netted s.params.dustMinor take) s'

/-- **A hop in default is lowered by what the ring takes**, and by the dust it is left with. -/
theorem lowered_dischargeHop {id : ContractId} {c : Contract} {m : Member} {take : Nat}
    (hc : s.contracts[id]? = some c) (hm : s.members[c.debtor]? = some m)
    (hexpired : c.status = .expired) (hdust : s.params.dustMinor < take)
    (hle : take ≤ c.outstanding) :
    Op.Succeeds (dischargeHop id take) s fun _ => Lowered take id s := by
  have hnetted : Op.Succeeds (dischargeHop id take) s fun _ t =>
      Winds s t ∧ OnTerms id (c.netted s.params.dustMinor take) t := by
    unfold dischargeHop
    refine .bind_ask ?_
    refine .bind (succeeds_contract (Q := fun c' s' => c = c' ∧ s = s') hc ⟨rfl, rfl⟩) ?_
    rintro _ _ ⟨rfl, rfl⟩
    dsimp only
    rw [min_eq_left hle]
    refine .ite (fun hsmall => absurd hsmall (not_le.2 hdust)) fun _ => ?_
    refine .bind (Q := fun _ t => Winds s t ∧ OnTerms id (c.netted s.params.dustMinor take) t)
      (succeeds_contractMut hc ⟨.modContract _ _ fun _ => rfl, ?_⟩) fun _ s₁ h₁ => ?_
    · refine ⟨_, by rw [State.modContract, OrdMap.getElem?_modify_map, hc]; rfl, ?_⟩
      dsimp only
      rw [if_pos rfl, Contract.netted]
      by_cases hcloses : c.outstanding - take ≤ s.params.dustMinor
      · simp [Contract.terms, hcloses, hexpired]
      · simp [Contract.terms, hcloses]
    obtain ⟨m₁, hm₁, -⟩ := h₁.1.row _ m hm
    refine .bind (Q := fun _ t => Winds s t ∧ OnTerms id (c.netted s.params.dustMinor take) t)
      (succeeds_memberMut hm₁ ⟨h₁.1.trans (.modMember _ _ fun _ => Nat.sub_le _ _), h₁.2⟩)
      fun _ s₂ h₂ => ?_
    obtain ⟨c₂, hc₂, -⟩ := h₂.2
    refine .bind ((succeeds_rehold hc₂).moves (sameTerms_rehold id)) fun _ s₃ h₃ => ?_
    refine .bind (Q := fun _ t => Winds s t ∧ OnTerms id (c.netted s.params.dustMinor take) t)
      (.write ⟨?_, ?_⟩) fun _ s₄ h₄ => .pure h₄
    · exact h₂.1.trans (h₃.1.trans (winds_dischargeCredit _ _ _ _))
    · exact (h₂.2.sameTerms h₃.2).sameTerms (.of_eq (contracts_dischargeCredit _ _ _ _))
  refine (hnetted.moves (Cascade.elsewhere_dischargeHop id take)).weaken ?_
  rintro - t ⟨⟨hwinds, hstands⟩, helse⟩
  refine ⟨hwinds, helse, fun c' hc' => ?_⟩
  obtain rfl : c = c' := Option.some.inj (hc.symm.trans hc')
  exact hstands

end Apply

/-! ### What is owed -/

section Owed

variable (who : Contract → MemberId) (member : MemberId)

/-- What is outstanding on the contracts that `who` names the member for. -/
def State.owed (s : State) : Nat :=
  OrdMap.total (fun _ c => if who c = member then c.outstanding else 0) s.contracts

/-- What a member is owed, less what it owes. -/
def State.net (s : State) : Int :=
  (s.owed Contract.creditor member : Int) - s.owed Contract.debtor member

end Owed

/-- What the hops of a ring that `who` names the member for are forgiven. -/
def forgivenTo (dust take : Nat) (who : Contract → MemberId) (member : MemberId)
    (ring : List Contract) : Nat :=
  (ring.map fun c => if who c = member then c.forgiven dust take else 0).sum

namespace Apply

variable {who : Contract → MemberId}

/-- Where one contract has other terms, what is owed differs by it. -/
theorem owed_of_elsewhere (hwho : ∀ c c' : Contract, c.terms = c'.terms → who c = who c')
    {id : ContractId} {c c₁ : Contract} {s' : State} (hc : s.contracts[id]? = some c)
    (helse : Cascade.Elsewhere id s s') (hstands : OnTerms id c₁ s') (member : MemberId) :
    s'.owed who member + (if who c = member then c.outstanding else 0) =
      s.owed who member + if who c₁ = member then c₁.outstanding else 0 := by
  obtain ⟨c', hc', hterms⟩ := hstands
  have hothers : s'.contracts.erase id = s.contracts.erase id := by
    refine Std.ExtTreeMap.ext_getElem? fun a => ?_
    rw [Std.ExtTreeMap.getElem?_erase, Std.ExtTreeMap.getElem?_erase]
    simp only [Std.LawfulEqCmp.compare_eq_iff_eq]
    split
    · rfl
    · next hne => exact helse.2 a (Ne.symm hne)
  have houtstanding : c'.outstanding = c₁.outstanding := congrArg (·.2.2.1) hterms
  unfold State.owed
  rw [OrdMap.total_eq_of_getElem? hc, OrdMap.total_eq_of_getElem? hc', hothers,
    hwho c' c₁ hterms, houtstanding]
  omega

/-- The hops of a ring were netted by `take`. -/
structure Netted (take : Nat) (ring : List Contract) (s s' : State) : Prop where
  winds : Winds s s'
  params : s'.params = s.params
  elsewhere : ∀ id ∉ ring.map Contract.id, s'.contracts[id]? = s.contracts[id]?
  hop : ∀ c ∈ ring, OnTerms c.id (c.netted s.params.dustMinor take) s'
  owed : ∀ who : Contract → MemberId, (∀ c c', c.terms = c'.terms → who c = who c') →
    (∀ c, who (c.netted s.params.dustMinor take) = who c) → ∀ member,
      s'.owed who member +
        (take * (ring.countP fun c => who c = member) +
          forgivenTo s.params.dustMinor take who member ring) = s.owed who member

/-- **A ring is netted hop by hop**, none of which refuses. -/
theorem netted_hops {take : Nat} {ring : List Contract} (hnodup : (ring.map Contract.id).Nodup)
    (hdust : s.params.dustMinor < take)
    (hring : ∀ c ∈ ring, s.contracts[c.id]? = some c ∧ c.status = .expired ∧
      take ≤ c.outstanding ∧ ∃ m, s.members[c.debtor]? = some m) :
    Op.Succeeds ((ring.map Contract.id).forM fun id => Op.attempt (dischargeHop id take)) s
      fun _ => Netted take ring s := by
  induction ring generalizing s with
  | nil =>
    refine .pure ⟨.refl _, rfl, fun _ _ => rfl, by simp, fun who _ _ member => ?_⟩
    simp [forgivenTo]
  | cons c ring ih =>
    obtain ⟨hnotin, hnodup⟩ := List.nodup_cons.1 hnodup
    obtain ⟨hc, hexpired, hle, m, hm⟩ := hring c (by simp)
    obtain ⟨took, s₁, hexec, h₁⟩ := lowered_dischargeHop hc hm hexpired hdust hle
    have hparams : s₁.params = s.params := h₁.elsewhere.1
    have hother : ∀ c' ∈ ring, c'.id ≠ c.id := fun c' hc' heq =>
      hnotin (heq ▸ List.mem_map_of_mem hc')
    -- the hops that are left stand as they did
    have hleft : ∀ c' ∈ ring, s₁.contracts[c'.id]? = some c' ∧ c'.status = .expired ∧
        take ≤ c'.outstanding ∧ ∃ m, s₁.members[c'.debtor]? = some m := by
      intro c' hc'
      obtain ⟨hget, hexpired', hle', m', hm'⟩ := hring c' (by simp [hc'])
      obtain ⟨m₁, hm₁, -⟩ := h₁.winds.row _ m' hm'
      exact ⟨(h₁.elsewhere.2 _ (hother c' hc')).trans hget, hexpired', hle', m₁, hm₁⟩
    obtain ⟨u, s₂, hrest, h₂⟩ := ih hnodup (hparams ▸ hdust) hleft
    rw [List.map_cons]
    refine .bind (Q := fun _ t => t = s₁) ⟨(), s₁, by rw [Op.exec_attempt, hexec], rfl⟩ ?_
    rintro - _ rfl
    refine ⟨u, s₂, hrest, h₁.winds.trans h₂.winds, h₂.params.trans hparams, ?_, ?_, ?_⟩
    · intro id hid
      obtain ⟨hne, hid⟩ := not_or.1 (List.mem_cons.not.1 hid)
      exact (h₂.elsewhere id hid).trans (h₁.elsewhere.2 id hne)
    · intro c' hc'
      rcases List.mem_cons.1 hc' with rfl | hc'
      · obtain ⟨c₁, hc₁, hterms⟩ := h₁.hop c' hc
        exact ⟨c₁, (h₂.elsewhere _ hnotin).trans hc₁, hterms⟩
      · exact hparams ▸ h₂.hop c' hc'
    · intro who hwho hnetted member
      have hfirst := owed_of_elsewhere hwho hc h₁.elsewhere (h₁.hop c hc) member
      have hrest := h₂.owed who hwho (by rwa [hparams]) member
      have hlowered : (c.netted s.params.dustMinor take).outstanding +
          (take + c.forgiven s.params.dustMinor take) = c.outstanding :=
        Contract.netted_outstanding hle
      rw [hparams] at hrest
      rw [hnetted] at hfirst
      simp only [forgivenTo, List.countP_cons, List.map_cons, List.sum_cons] at hrest ⊢
      by_cases heq : who c = member
      · simp only [heq, if_true, decide_true] at hfirst ⊢
        rw [Nat.mul_add, Nat.mul_one]
        omega
      · simp only [heq, if_false, decide_false] at hfirst ⊢
        simpa [hfirst] using hrest.trans (by simpa using hfirst)

/-! ### Netting a ring -/

/-- One round of the netting loop. -/
def netRing (ring : List ContractId) : Tr Unit := do
  let take ← Op.ask (ringTake · ring)
  ring.forM fun id => Op.attempt (dischargeHop id take)

variable {ring : List Contract} {ids : List ContractId} {rounds : Nat}

theorem exec_netRings_of_none (h : findRing s = none) :
    Op.exec (netRings (rounds + 1)) s = (.ok (), s) := by
  unfold netRings
  rw [Op.exec_bind, Op.exec_ask]
  dsimp only
  rw [h]
  rfl

theorem exec_netRings_of_some {s₁ : State} (h : findRing s = some ids)
    (hexec : Op.exec (netRing ids) s = (.ok (), s₁)) :
    Op.exec (netRings (rounds + 1)) s = Op.exec (netRings rounds) s₁ := by
  unfold netRing at hexec
  rw [Op.exec_bind, Op.exec_ask] at hexec
  conv_lhs => unfold netRings
  rw [Op.exec_bind, Op.exec_ask]
  dsimp only
  rw [h]
  dsimp only
  rw [Op.exec_bind, Op.exec_ask]
  exact Op.exec_bind_ok hexec _

theorem follows_netRing (ids : List ContractId) : CarriesOn (netRing ids) := by
  unfold netRing
  exact .bind (.ask _) fun take => .forM fun id _ => .attempt (follows_dischargeHop _ _)

/-- An eligible hop is there, in default and above dust, with its debtor. -/
theorem hop_of_eligible (hnamed : s.ContractsNamed) {c : Contract} (h : c ∈ eligibleHops s) :
    s.contracts[c.id]? = some c ∧ c.status = .expired ∧ s.params.dustMinor < c.outstanding ∧
      ∃ m, s.members[c.debtor]? = some m := by
  obtain ⟨hmem, heligible⟩ := List.mem_filter.1 h
  obtain ⟨p, hp, rfl⟩ := List.mem_map.1 hmem
  have hget := OrdMap.mem_toList.1 hp
  unfold eligibleHop at heligible
  simp only [Bool.and_eq_true, decide_eq_true_eq] at heligible
  obtain ⟨⟨⟨⟨hexpired, hdust⟩, -⟩, hactive⟩, -⟩ := heligible
  refine ⟨?_, hexpired, hdust, ?_⟩
  · rw [hnamed _ _ hget]
    exact hget
  · cases hm : s.members[p.2.debtor]? with
    | none => simp [hm] at hactive
    | some m => exact ⟨m, rfl⟩

/-- The take of a ring is what its least hop owes. -/
theorem ringTake_spec (hget : ∀ c ∈ ring, s.contracts[c.id]? = some c) (hne : ring ≠ []) :
    (∃ c ∈ ring, ringTake s (ring.map Contract.id) = c.outstanding) ∧
      ∀ c ∈ ring, ringTake s (ring.map Contract.id) ≤ c.outstanding := by
  have hlist : ((ring.map Contract.id).filterMap fun id =>
      s.contracts[id]?.map Contract.outstanding) = ring.map Contract.outstanding := by
    rw [List.filterMap_map, ← List.filterMap_eq_map]
    refine List.filterMap_congr fun c hc => ?_
    simp [hget c hc]
  unfold ringTake
  rw [hlist]
  cases hmin : (ring.map Contract.outstanding).min? with
  | none => simp [hne] at hmin
  | some least =>
    obtain ⟨hmem, hle⟩ := List.min?_eq_some_iff.1 hmin
    obtain ⟨c, hc, rfl⟩ := List.mem_map.1 hmem
    exact ⟨⟨c, hc, rfl⟩, fun c' hc' => hle _ (List.mem_map_of_mem hc')⟩

/-- **A ring is netted by what its least hop owes**. -/
theorem netted_ring (hnamed : s.ContractsNamed) (hring : IsRing s ring) :
    ∃ s', Op.exec (netRing (ring.map Contract.id)) s = (.ok (), s') ∧
      Netted (ringTake s (ring.map Contract.id)) ring s s' := by
  have hhop : ∀ c ∈ ring, _ := fun c hc => hop_of_eligible hnamed (hring.eligible c hc)
  have hne : ring ≠ [] := List.length_pos_iff.1 (Nat.lt_of_lt_of_le Nat.two_pos hring.two_le)
  obtain ⟨⟨least, hleast, htake⟩, hle⟩ := ringTake_spec (fun c hc => (hhop c hc).1) hne
  have hnodup : (ring.map Contract.id).Nodup := by
    refine List.Nodup.map_on (fun c hc c' hc' heq => ?_) hring.simple.of_map
    have hget := (hhop c hc).1
    rw [heq, (hhop c' hc').1] at hget
    exact (Option.some.inj hget).symm
  obtain ⟨u, s', hexec, hnetted⟩ := netted_hops hnodup (htake ▸ (hhop least hleast).2.2.1)
    fun c hc => ⟨(hhop c hc).1, (hhop c hc).2.1, hle c hc, (hhop c hc).2.2.2⟩
  exact ⟨s', hexec, hnetted⟩

theorem forgivenTo_le (dust take : Nat) (who : Contract → MemberId) (member : MemberId)
    (ring : List Contract) :
    forgivenTo dust take who member ring ≤ dust * ring.countP fun c => who c = member := by
  induction ring with
  | nil => simp [forgivenTo]
  | cons c ring ih =>
    have hc : c.forgiven dust take ≤ dust := Contract.forgiven_le
    unfold forgivenTo at ih ⊢
    rw [List.map_cons, List.sum_cons, List.countP_cons, Nat.mul_add]
    by_cases heq : who c = member
    · simp only [heq, if_true, decide_true, Nat.mul_one]
      omega
    · simp only [heq, if_false, decide_false]
      simpa using ih

/-- **A ring leaves what its members are owed less what they owe as it is**, but for the dust
that their hops are forgiven. -/
theorem net_of_netted {take : Nat} {s' : State} (hring : IsRing s ring)
    (h : Netted take ring s s') (member : MemberId) :
    s'.net member = s.net member + forgivenTo s.params.dustMinor take Contract.debtor member ring -
        forgivenTo s.params.dustMinor take Contract.creditor member ring ∧
      |s'.net member - s.net member| ≤ s.params.dustMinor := by
  have hclaims := h.owed Contract.creditor (fun _ _ heq => congrArg (·.2.1) heq) (by simp) member
  have hdebts := h.owed Contract.debtor (fun _ _ heq => congrArg (·.1) heq) (by simp) member
  have hcount := hring.countP_head member
  have hone := hring.countP_tail_le member
  have hcreditor := forgivenTo_le s.params.dustMinor take Contract.creditor member ring
  have hdebtor := forgivenTo_le s.params.dustMinor take Contract.debtor member ring
  rw [hcount] at hclaims hcreditor
  have hbound := Nat.mul_le_mul_left s.params.dustMinor hone
  have hnet : s'.net member =
      s.net member + forgivenTo s.params.dustMinor take Contract.debtor member ring -
        forgivenTo s.params.dustMinor take Contract.creditor member ring := by
    unfold State.net
    omega
  refine ⟨hnet, abs_le.2 ⟨?_, ?_⟩⟩
  · omega
  · omega

/-- The loop ends without refusing, and what its rounds forgive is at most dust each. -/
theorem exec_netRings (rounds : Nat) (hnamed : s.ContractsNamed) :
    ∃ s', Op.exec (netRings rounds) s = (.ok (), s') ∧
      ∀ member, |s'.net member - s.net member| ≤ rounds * s.params.dustMinor := by
  induction rounds generalizing s with
  | zero => exact ⟨s, rfl, fun member => by simp⟩
  | succ rounds ih =>
    cases hfind : findRing s with
    | none =>
      refine ⟨s, exec_netRings_of_none hfind, fun member => ?_⟩
      rw [sub_self, abs_zero]
      positivity
    | some ids =>
      obtain ⟨ring, hring, rfl⟩ := isRing_of_findRing hfind
      obtain ⟨s₁, hexec, hnetted⟩ := netted_ring hnamed hring
      have hfollows := follows_netRing (ring.map Contract.id) s
      rw [hexec] at hfollows
      obtain ⟨s', hloop, hnet⟩ := ih (hfollows.named hnamed)
      refine ⟨s', (exec_netRings_of_some hfind hexec).trans hloop, fun member => ?_⟩
      have hround := (net_of_netted hring hnetted member).2
      have hrest := hnet member
      rw [hnetted.params] at hrest
      calc |s'.net member - s.net member|
          ≤ |s'.net member - s₁.net member| + |s₁.net member - s.net member| := abs_sub_le _ _ _
        _ ≤ rounds * s.params.dustMinor + s.params.dustMinor := add_le_add hrest hround
        _ = (rounds + 1 : Nat) * s.params.dustMinor := by push_cast; ring

/-- **The search finds a ring if and only if there is one, and netting what it finds closes a
hop, lowers the hops alike and leaves every member as well off, but for the dust forgiven on the
hops that close**. The loop ends. -/
theorem findRing_netting (hnamed : s.ContractsNamed) :
    ((findRing s).isSome ↔ ∃ ring, IsRing s ring) ∧
      (∀ ids, findRing s = some ids → ∃ ring, IsRing s ring ∧ ids = ring.map Contract.id ∧
        ∃ s', Op.exec (netRing ids) s = (.ok (), s') ∧
          (∀ id ∉ ids, s'.contracts[id]? = s.contracts[id]?) ∧
          (∃ c ∈ ring, ∃ c', s'.contracts[c.id]? = some c' ∧ c'.outstanding = 0 ∧
            c'.status = .cured) ∧
          (∀ c ∈ ring, OnTerms c.id (c.netted s.params.dustMinor (ringTake s ids)) s' ∧
            (c.netted s.params.dustMinor (ringTake s ids)).outstanding +
              (ringTake s ids + c.forgiven s.params.dustMinor (ringTake s ids)) =
                c.outstanding) ∧
          ∀ member,
            s'.net member = s.net member +
                forgivenTo s.params.dustMinor (ringTake s ids) Contract.debtor member ring -
                forgivenTo s.params.dustMinor (ringTake s ids) Contract.creditor member ring ∧
              |s'.net member - s.net member| ≤ s.params.dustMinor) ∧
      ∀ rounds, ∃ s', Op.exec (netRings rounds) s = (.ok (), s') ∧
        ∀ member, |s'.net member - s.net member| ≤ rounds * s.params.dustMinor := by
  refine ⟨isSome_findRing_iff, fun ids hfind => ?_, fun rounds => exec_netRings rounds hnamed⟩
  obtain ⟨ring, hring, rfl⟩ := isRing_of_findRing hfind
  obtain ⟨s', hexec, hnetted⟩ := netted_ring hnamed hring
  have hne : ring ≠ [] := List.length_pos_iff.1 (Nat.lt_of_lt_of_le Nat.two_pos hring.two_le)
  obtain ⟨⟨least, hleast, htake⟩, hle⟩ := ringTake_spec
    (fun c hc => (hop_of_eligible hnamed (hring.eligible c hc)).1) hne
  refine ⟨ring, hring, rfl, s', hexec, hnetted.elsewhere, ?_, ?_, net_of_netted hring hnetted⟩
  · obtain ⟨c', hc', hterms⟩ := hnetted.hop least hleast
    refine ⟨least, hleast, c', hc', ?_⟩
    rw [Contract.netted, htake, Nat.sub_self, if_pos (Nat.zero_le _)] at hterms
    exact ⟨congrArg (·.2.2.1) hterms, congrArg (·.2.2.2) hterms⟩
  · exact fun c hc => ⟨hnetted.hop c hc, Contract.netted_outstanding (hle c hc)⟩

end Apply

/-- Two founders take on debts of each other, one of them a cent larger. -/
def mutualEvents : List Event :=
  [.transaction (.accept (.member 0) (.member 1) (F64.ofNat 100) 30 none) 0 0
      [founderKey 0, founderKey 1] 10,
    .transaction (.accept (.member 1) (.member 0) (Apply.ratio 10001 100) 30 none) 1 0
      [founderKey 0, founderKey 1] 10]

/-- The sweep of the debts that are past their maturity. -/
def defaultBoth : Tr Unit := do
  Apply.markExpired 0
  Apply.markExpired 1

theorem follows_defaultBoth : Apply.CarriesOn defaultBoth :=
  .bind (Apply.follows_markExpired 0) fun _ => Apply.follows_markExpired 1

/-- Both debts past maturity and in default, as the sweep leaves them before it looks for
rings. -/
def mutualDefaults : State :=
  letI := Libm.unused
  (Op.exec defaultBoth (Nat.repeat State.advanceEpoch 31
    (Event.run mutualEvents (devGenesis [2000, 0, 0]).state))).2

theorem contractsNamed_mutualDefaults : mutualDefaults.ContractsNamed := by
  unfold mutualDefaults
  refine (follows_defaultBoth _).named ((follows_advance 31 _).named ?_)
  exact @contractsNamed_run Libm.unused _ (Genesis.founding_state (by decide +kernel)) mutualEvents

/-- The two debts are a ring, and are netted. -/
theorem findRing_netting_mutual :
    (∃ ring, Apply.IsRing mutualDefaults ring) ∧
      ∃ s', Op.exec (Apply.netRings Constants.nettingMaxRingsPerEpoch) mutualDefaults =
        (.ok (), s') := by
  obtain ⟨hsearch, -, hloop⟩ := Apply.findRing_netting contractsNamed_mutualDefaults
  obtain ⟨s', hexec, -⟩ := hloop Constants.nettingMaxRingsPerEpoch
  exact ⟨hsearch.1 (by decide +kernel), s', hexec⟩

/-- Netting forgives the cent that is left, and the first founder is owed that much less. -/
theorem netting_forgives :
    Apply.findRing mutualDefaults = some [0, 1] ∧
      (Op.exec (Apply.netRing [0, 1]) mutualDefaults).2.net 0 ≠ mutualDefaults.net 0 := by
  decide +kernel

end Edet
