import Edet.Ledger.Refusals
import Edet.Ledger.Replay
import Edet.Ledger.Rows
import Edet.Ledger.SeatFrames

/-!
# What the community decides

The parameters of a ledger are written, and a supply is raised, by one transition: the assent that
carries a proposal over its threshold (`amended_by_ratification`, `raised_by_ratification`). Every
other transition, every charge and every boundary leaves the parameters as they are and raises no
supply (`SameLaws`).

A proposal stands as it was tabled (`Tabled`): its subject and its author stay, its assents are added
to, and once it has been carried out nothing about it changes. Ids are only used up. So over a run no
proposal is carried out twice, not even after it has been pruned (`ratified_once`).
-/

namespace Edet

open Edet.Flow

/-- Neither the parameters nor what is tabled has changed, and no supply has risen. -/
structure SameLaws (s s' : State) : Prop where
  params : s'.params = s.params
  proposals : s'.proposals = s.proposals
  next : s'.nextProposal = s.nextProposal
  supplies : ∀ u, OrdMap.getD' s'.underwriters u 0 ≤ OrdMap.getD' s.underwriters u 0

namespace SameLaws

theorem of_eq {s s' : State} (hparams : s'.params = s.params) (hproposals : s'.proposals = s.proposals)
    (hnext : s'.nextProposal = s.nextProposal) (hsupplies : s'.underwriters = s.underwriters) :
    SameLaws s s' := ⟨hparams, hproposals, hnext, fun u => (congrArg (OrdMap.getD' · u 0) hsupplies).le⟩

theorem of_offBooks {s s' : State} (h : OffBooks s s') : SameLaws s s' := by
  have hparams : s'.offBooks.params = s.offBooks.params := by rw [h]
  have hproposals : s'.offBooks.proposals = s.offBooks.proposals := by rw [h]
  have hnext : s'.offBooks.nextProposal = s.offBooks.nextProposal := by rw [h]
  have hsupplies : s'.offBooks.underwriters = s.offBooks.underwriters := by rw [h]
  exact .of_eq hparams hproposals hnext hsupplies

end SameLaws

instance : Std.Refl SameLaws := ⟨fun _ => .of_eq rfl rfl rfl rfl⟩

instance : IsTrans State SameLaws :=
  ⟨fun _ _ _ h h' => ⟨h'.params.trans h.params, h'.proposals.trans h.proposals, h'.next.trans h.next,
    fun u => (h'.supplies u).trans (h.supplies u)⟩⟩

namespace Apply

/-- A transition that decides nothing. -/
abbrev KeepsLaws {α : Type} (op : Tr α) : Prop := Op.Moves SameLaws op

theorem KeepsLaws.of_bookkeeping {α : Type} {op : Tr α} (h : Bookkeeping op) : KeepsLaws op :=
  fun s => .of_offBooks (h s)

theorem framesKeys_sameLaws : FramesKeys SameLaws :=
  ⟨fun _ _ _ => .of_eq rfl rfl rfl rfl, fun _ _ => .of_eq rfl rfl rfl rfl⟩

theorem framesSeats_sameLaws : FramesSeats SameLaws where
  reserved s sponsor := by
    unfold State.reserveSeat
    dsimp only
    split <;> exact .of_eq rfl rfl rfl rfl
  released _ _ := .of_eq rfl rfl rfl rfl
  account _ _ := .of_eq rfl rfl rfl rfl
  row _ _ _ := .of_eq rfl rfl rfl rfl

theorem sameLaws_forfeitBonds (target : MemberId) : KeepsLaws (forfeitBonds target) := by
  unfold forfeitBonds
  exact .bind (.check _) fun _ => .bind (.ask _) fun _ => .bind (.refuseIf _ _) fun _ =>
    .bind (.ask _) fun _ => .bind (.refuseIf _ _) fun _ =>
    .bind (framesKeys_sameLaws.memberMut _ _) fun _ => .write fun _ => .of_eq rfl rfl rfl rfl

/-- A member may lower its supply. -/
theorem sameLaws_declareSupply (id : MemberId) (supply : F64) (signers : List Key) :
    KeepsLaws (declareSupply id supply signers) := by
  intro s
  have hself : ∀ t, t = s → SameLaws s t := fun t ht => ht ▸ Std.Refl.refl t
  have hdeclared : Op.Triple (· = s) (declareSupply id supply signers) (fun _ => SameLaws s)
      (SameLaws s) := by
    unfold declareSupply
    refine .bind_quiet (Op.quiet_check _) hself fun _ => .bind_quiet (quiet_member _) hself fun _ =>
      .bind_quiet (Op.quiet_refuseIf _ _) hself fun _ =>
      .bind_quiet (Op.quiet_refuseIf _ _) hself fun _ => ?_
    -- what is declared may not be more than what stands
    refine .bind (Q := fun current t => t = s ∧ current = OrdMap.getD' s.underwriters id 0)
      (.ask fun t ht => ⟨ht, ht ▸ rfl⟩) fun current => ?_
    refine .bind (Q := fun _ t => t = s ∧ toMinor supply ≤ OrdMap.getD' s.underwriters id 0)
      (.refuseIf (fun t ht hle => ⟨ht.1, ht.2 ▸ Nat.le_of_not_lt hle⟩) fun t ht _ => hself t ht.1)
      fun _ => ?_
    refine .bind_quiet (Op.quiet_ask _) (fun t ht => hself t ht.1) fun _ =>
      .bind_quiet (Op.quiet_refuseIf _ _) (fun t ht => hself t ht.1) fun _ => .write fun t ht => ?_
    obtain ⟨rfl, hle⟩ := ht
    refine ⟨rfl, rfl, rfl, fun u => ?_⟩
    show OrdMap.getD' (if toMinor supply = 0 then t.underwriters.erase id
      else t.underwriters.insert id (toMinor supply)) u 0 ≤ _
    by_cases hu : id = u
    · subst hu
      split
      · simp [OrdMap.getD']
      · rw [OrdMap.getD'_insert, if_pos Std.compare_self]
        exact hle
    · have hne : ¬compare id u = .eq := fun heq => hu (Std.compare_eq_iff_eq.1 heq)
      split <;> simp [OrdMap.getD', Std.ExtTreeMap.getElem?_erase, Std.ExtTreeMap.getElem?_insert, hne]
  exact hdeclared.exec_snd rfl

section Dispatch

variable [Libm]

/-- **A transition that neither tables nor assents decides nothing.** -/
theorem sameLaws_dispatch (tx : Tx) (signers : List Key) (sponsor : Option MemberId)
    (hpropose : ∀ author kind, tx ≠ .propose author kind)
    (hassent : ∀ id proposal, tx ≠ .assent id proposal) :
    KeepsLaws (dispatch tx signers sponsor) := by
  have h := framesKeys_sameLaws
  have hseats := framesSeats_sameLaws
  -- the two transitions of governance are excluded; of the others one lowers a supply
  cases tx with
  | registerGuardians => exact moves_registerGuardians h _ _ _ _ _
  | rotateRequest => exact moves_rotateRequest h _ _ _
  | rotateVeto => exact moves_rotateVeto h _ _
  | rotateFinalize => exact moves_rotateFinalize h _
  | setConsensusKey => exact moves_setConsensusKey h _ _ _
  | declareSupply => exact sameLaws_declareSupply _ _ _
  | accept =>
    exact hseats.accept (fun _ _ _ _ _ =>
      KeepsLaws.of_bookkeeping (bookkeeping_book _ _ _ _ _)) _ _ _ _ _ _ _
  | transfer => exact KeepsLaws.of_bookkeeping (bookkeeping_transfer _ _ _)
  | settle => exact KeepsLaws.of_bookkeeping (bookkeeping_repayment _ _ _ _ _ _)
  | extend => exact KeepsLaws.of_bookkeeping (bookkeeping_extend _ _ _)
  | markExpired => exact KeepsLaws.of_bookkeeping (bookkeeping_markExpired _)
  | cure => exact KeepsLaws.of_bookkeeping (bookkeeping_repayment _ _ _ _ _ _)
  | listBeneficiaries => exact moves_listBeneficiaries h _ _ _
  | approveSupporter => exact moves_approveSupporter h _ _ _ _
  | sale =>
    exact hseats.sale (fun _ _ _ => KeepsLaws.of_bookkeeping (bookkeeping_netMutual _ _ _))
      (fun _ _ _ _ => KeepsLaws.of_bookkeeping (Cascade.bookkeeping_originate _ _ _ _)) _ _ _ _ _ _
  | arbAttest => exact KeepsLaws.of_bookkeeping (bookkeeping_arbAttest _ _ _ _)
  | exit => exact moves_exit h (fun _ _ => .of_eq rfl rfl rfl rfl) _ _
  | propose author kind => exact absurd rfl (hpropose author kind)
  | assent id proposal => exact absurd rfl (hassent id proposal)
  | forfeitBonds => exact sameLaws_forfeitBonds _

end Dispatch

theorem sameLaws_retireRow (id : MemberId) (s : State) : SameLaws s (retireRow id s) := by
  unfold retireRow
  split
  · exact Std.Refl.refl s
  · next m hm =>
    extract_lets s₁ s₂ s₃
    have h₁ : SameLaws s s₁ := Op.Moves.foldl (fun _ _ => .of_eq rfl rfl rfl rfl) _ s
    have h₂ : SameLaws s₁ s₂ := Op.Moves.foldl (fun _ _ => .of_eq rfl rfl rfl rfl) _ s₁
    have h₃ : SameLaws s₂ s₃ := by
      simp only [s₃]
      split
      · exact Std.Refl.refl s₂
      · exact .of_eq rfl rfl rfl rfl
    have h : SameLaws s s₃ := IsTrans.trans _ _ _ h₁ (IsTrans.trans _ _ _ h₂ h₃)
    exact ⟨h.params, h.proposals, h.next, h.supplies⟩

theorem sameLaws_settleOutcome (tx : Tx) (txId : TxId) (notAfterEpoch : Nat) (signers : List Key)
    (charged : Charged) (outcome : Res Unit) (s : State) :
    SameLaws s (settleOutcome tx txId notAfterEpoch signers charged outcome s) := by
  refine settleOutcome_moves (fun s txId notAfterEpoch => ?_) (fun s charged => ?_)
    (fun s subject signers => ?_) tx txId notAfterEpoch signers charged outcome s
  · unfold State.forgetApplied
    split
    · exact Std.Refl.refl s
    · exact .of_eq rfl rfl rfl rfl
  · cases charged <;> exact .of_eq rfl rfl rfl rfl
  · unfold priceRefusal
    dsimp only
    split
    · exact .of_eq rfl rfl rfl rfl
    · split
      · exact .of_eq rfl rfl rfl rfl
      · exact Std.Refl.refl s

theorem sameLaws_bondGate (tx : Tx) (signers : List Key) : KeepsLaws (bondGate tx signers) :=
  bondGate_moves (fun _ _ _ => .of_eq rfl rfl rfl rfl) tx signers

end Apply

/-! ### What is tabled -/

/-- A proposal stands: nobody's assent is taken back, and what has been carried out stays as it is. -/
structure Proposal.Stands (p p' : Proposal) : Prop where
  id : p'.id = p.id
  kind : p'.kind = p.kind
  author : p'.author = p.author
  opened : p'.openedEpoch = p.openedEpoch
  assents : ∀ m, m ∈ p.assents → m ∈ p'.assents
  enacted : p.enacted = true → p' = p

namespace Proposal.Stands

theorem refl (p : Proposal) : Stands p p := ⟨rfl, rfl, rfl, rfl, fun _ h => h, fun _ => rfl⟩

theorem trans {p p' p'' : Proposal} (h : Stands p p') (h' : Stands p' p'') : Stands p p'' where
  id := h'.id.trans h.id
  kind := h'.kind.trans h.kind
  author := h'.author.trans h.author
  opened := h'.opened.trans h.opened
  assents m hm := h'.assents m (h.assents m hm)
  enacted hp := by
    obtain rfl := h.enacted hp
    exact h'.enacted hp

end Proposal.Stands

/-- Only issued ids are in use. -/
def State.ProposalsIssued (s : State) : Prop :=
  ∀ id : ProposalId, s.nextProposal ≤ id → s.proposals[id]? = none

/-- What is tabled in `s` stands in `s'`, as far as it is still there. -/
structure Tabled (s s' : State) : Prop where
  next : s.nextProposal ≤ s'.nextProposal
  old : ∀ (id : ProposalId) (p' : Proposal), id < s.nextProposal → s'.proposals[id]? = some p' →
    ∃ p, s.proposals[id]? = some p ∧ p.Stands p'
  issued : s.ProposalsIssued → s'.ProposalsIssued

instance : Std.Refl Tabled := ⟨fun _ => ⟨le_rfl, fun _ p' _ hp => ⟨p', hp, .refl p'⟩, id⟩⟩

instance : IsTrans State Tabled := by
  refine ⟨fun s s' s'' h h' => ⟨h.next.trans h'.next, fun id p'' hid hp'' => ?_,
    fun hs => h'.issued (h.issued hs)⟩⟩
  obtain ⟨p', hp', hstands'⟩ := h'.old id p'' (hid.trans_le h.next) hp''
  obtain ⟨p, hp, hstands⟩ := h.old id p' hid hp'
  exact ⟨p, hp, hstands.trans hstands'⟩

namespace Tabled

variable {s s' : State}

/-- Nothing is tabled, and what is left stands. -/
theorem of_stands (hnext : s'.nextProposal = s.nextProposal)
    (h : ∀ (id : ProposalId) (p' : Proposal), s'.proposals[id]? = some p' →
      ∃ p, s.proposals[id]? = some p ∧ p.Stands p') : Tabled s s' := by
  refine ⟨hnext.ge, fun id p' _ hp' => h id p' hp', fun hs id hid => ?_⟩
  cases hp' : s'.proposals[id]? with
  | none => rfl
  | some p' =>
    obtain ⟨p, hp, -⟩ := h id p' hp'
    rw [hs id (hnext ▸ hid)] at hp
    cases hp

theorem of_eq (hproposals : s'.proposals = s.proposals) (hnext : s'.nextProposal = s.nextProposal) :
    Tabled s s' := .of_stands hnext fun _ p' hp' => ⟨p', hproposals ▸ hp', .refl p'⟩

theorem of_same (h : SameLaws s s') : Tabled s s' := .of_eq h.proposals h.next

end Tabled

/-- What is tabled stands, no parameter has changed and no supply has risen. -/
structure Undecided (s s' : State) : Prop extends Tabled s s' where
  params : s'.params = s.params
  supplies : ∀ u, OrdMap.getD' s'.underwriters u 0 ≤ OrdMap.getD' s.underwriters u 0

theorem Undecided.of_same {s s' : State} (h : SameLaws s s') : Undecided s s' :=
  ⟨.of_same h, h.params, h.supplies⟩

instance : Std.Refl Undecided := ⟨fun s => .of_same (Std.Refl.refl s)⟩

instance : IsTrans State Undecided :=
  ⟨fun _ _ _ h h' => ⟨IsTrans.trans _ _ _ h.toTabled h'.toTabled, h'.params.trans h.params,
    fun u => (h'.supplies u).trans (h.supplies u)⟩⟩

namespace Apply

theorem undecided_modProposal {s : State} {id : ProposalId} {f : Proposal → Proposal}
    (hf : ∀ p, s.proposals[id]? = some p → p.Stands (f p)) : Undecided s (modProposal id f s) := by
  refine ⟨.of_stands rfl fun a p' hp' => ?_, rfl, fun _ => le_rfl⟩
  rw [modProposal, OrdMap.getElem?_modify_map, Option.map_eq_some_iff] at hp'
  obtain ⟨p, hp, rfl⟩ := hp'
  refine ⟨p, hp, ?_⟩
  split
  · next heq => exact hf p (heq ▸ hp)
  · exact .refl p

theorem undecided_pruneClosedRows (s : State) : Undecided s (pruneClosedRows s) :=
  ⟨.of_stands rfl fun _ p' hp' => ⟨p', (OrdMap.getElem?_filter_of_some hp').1, .refl p'⟩, rfl,
    fun _ => le_rfl⟩

/-- A proposal is tabled at the next id. -/
theorem undecided_propose [Libm] (author : MemberId) (kind : ProposalKind) (signers : List Key) :
    Op.Moves Undecided (propose author kind signers) := by
  unfold propose
  refine .bind (.check _) fun _ => .bind (.check _) fun _ => .bind (.ask _) fun _ =>
    .bind (.refuseIf _ _) fun _ => .bind (.check _) fun _ => .write fun s => ⟨?_, rfl, fun _ => le_rfl⟩
  -- the next id is not in use, and no id below it is written
  have hget (id : ProposalId) (p : Proposal) : (s.proposals.insert s.nextProposal p)[id]? =
      if s.nextProposal = id then some p else s.proposals[id]? := by
    rw [Std.ExtTreeMap.getElem?_insert]
    simp only [Std.LawfulEqCmp.compare_eq_iff_eq]
  refine ⟨Nat.le_succ _, fun id p' hid hp' => ?_, fun hs id hid => ?_⟩
  · change (s.proposals.insert s.nextProposal _)[id]? = _ at hp'
    rw [hget, if_neg (Nat.ne_of_gt hid)] at hp'
    exact ⟨p', hp', .refl p'⟩
  · have hlt : s.nextProposal < id := hid
    change (s.proposals.insert s.nextProposal _)[id]? = _
    rw [hget, if_neg (Nat.ne_of_lt hlt)]
    exact hs id hlt.le

/-! ### Ratification -/

/-- The assent of `member` to `id` may be written, and carries it out if `enacts`. -/
structure Assents (s : State) (member : MemberId) (id : ProposalId) (signers : List Key)
    (p : Proposal) (enacts : Bool) : Prop where
  signed : requireSigned s member signers = .ok ()
  tabled : s.proposals[id]? = some p
  governs : mayGovern s member p.kind = .ok ()
  pending : p.enacted = false
  first : member ∉ p.assents
  mandate : 0 < OrdMap.getD' s.underwriters member 0
  disinterested : ¬(p.kind.isSeedAmendment = true ∧ member = p.author)
  carried : enacts = true ↔ assentEnacts s member p
  rests : enacts = true → ¬cooling s p.kind

theorem assents_of_mayAssent {s : State} {member : MemberId} {id : ProposalId} {signers : List Key}
    {p : Proposal} {enacts : Bool}
    (h : (Op.exec (mayAssent member id signers) s).1 = .ok (p, enacts)) :
    Assents s member id signers p enacts := by
  have h := Op.Succeeds.of_ok h
  unfold mayAssent at h
  obtain ⟨⟨⟩, hsigned, h⟩ := h.of_check_bind
  obtain ⟨q, hq, h⟩ := h.of_check_bind
  obtain ⟨⟨⟩, hgoverns, h⟩ := h.of_check_bind
  obtain ⟨hpending, h⟩ := h.of_refuseIf_bind
  obtain ⟨hfirst, h⟩ := h.of_refuseIf_bind
  obtain ⟨hmandate, h⟩ := h.of_ask_bind.of_refuseIf_bind
  obtain ⟨hdisinterested, h⟩ := h.of_refuseIf_bind
  obtain ⟨hrests, h⟩ := h.of_ask_bind.of_ask_bind.of_refuseIf_bind
  obtain ⟨-, -, h⟩ := h.of_check_bind
  obtain ⟨rfl, rfl⟩ := Prod.mk.inj h.of_pure
  refine ⟨hsigned, ?_, hgoverns, Bool.eq_false_iff.2 hpending, ?_, Nat.pos_of_ne_zero hmandate,
    hdisinterested, decide_eq_true_iff, fun henacts hcooling => hrests ⟨henacts, decide_eq_true hcooling⟩⟩
  · unfold findProposal at hq
    split at hq
    · next hfound => exact (Except.ok.inj hq) ▸ hfound
    · cases hq
  · exact fun hin => hfirst (Std.ExtTreeSet.contains_iff_mem.2 hin)

/-- The assent is written. -/
def assented (member : MemberId) (p : Proposal) : Proposal :=
  { p with assents := p.assents.insert member }

theorem stands_assented {p : Proposal} (hpending : p.enacted = false) (member : MemberId)
    (enacted : Bool) : p.Stands { assented member p with enacted } where
  id := rfl
  kind := rfl
  author := rfl
  opened := rfl
  assents _ hm := Std.ExtTreeSet.mem_insert.2 (.inr hm)
  enacted h := absurd (hpending.symm.trans h) Bool.false_ne_true

/-- What carrying a proposal out does to the parameters and the supplies. -/
def Decided (kind : ProposalKind) (author : MemberId) (s t : State) : Prop :=
  match kind with
  | .paramChange _ _ => ∀ u, OrdMap.getD' t.underwriters u 0 ≤ OrdMap.getD' s.underwriters u 0
  | .redenominate _ _ => True
  | .seedAmendment amount => t.params = s.params ∧ toMinor amount ≤ Seed.remaining s ∧
      ∀ u, OrdMap.getD' t.underwriters u 0 ≤
        OrdMap.getD' s.underwriters u 0 + if author = u then toMinor amount else 0
  | _ => t.params = s.params ∧
      ∀ u, OrdMap.getD' t.underwriters u 0 ≤ OrdMap.getD' s.underwriters u 0

theorem tabled_rescale (s : State) (pi : F64) :
    (s.rescale pi).proposals = s.proposals ∧ (s.rescale pi).nextProposal = s.nextProposal := by
  unfold State.rescale State.rescaleWith
  extract_lets s₁ s₂ s₃ s₄ s₅ byDebtor
  have hshave : SameLaws s₁ s₂ := .of_offBooks (offBooks_shave s₁)
  clear_value s₂
  exact ⟨hshave.proposals, hshave.next⟩

/-- A proposal is refused with nothing decided, or carried out, and neither tables anything. -/
theorem enact_decides (kind : ProposalKind) (author : MemberId) (s : State) :
    (∃ e t, Op.exec (enact kind author) s = (.error e, t) ∧ SameLaws s t) ∨
      ∃ t, Op.exec (enact kind author) s = (.ok (), t) ∧ t.proposals = s.proposals ∧
        t.nextProposal = s.nextProposal ∧ Decided kind author s t := by
  -- the kinds that write neither the parameters nor a supply are ordinary transitions
  have hordinary {op : Tr Unit} (hop : KeepsLaws op) :
      (∃ e t, Op.exec op s = (.error e, t) ∧ SameLaws s t) ∨
        ∃ t, Op.exec op s = (.ok (), t) ∧ SameLaws s t := by
    have hsame := hop s
    rcases hexec : Op.exec op s with ⟨⟨e⟩ | ⟨⟩, t⟩ <;> rw [hexec] at hsame
    · exact .inl ⟨e, t, rfl, hsame⟩
    · exact .inr ⟨t, rfl, hsame⟩
  have hmut (id : MemberId) (f : Member → Member) := framesKeys_sameLaws.memberMut id f
  unfold enact
  cases kind with
  | paramChange key value => exact .inr ⟨_, rfl, rfl, rfl, fun _ => le_rfl⟩
  | redenominate num den =>
    have hproposals := tabled_rescale s (ratio num den)
    dsimp only
    rw [Op.exec_write]
    generalize s.rescale (ratio num den) = r at hproposals ⊢
    exact .inr ⟨_, rfl, hproposals.1, hproposals.2, trivial⟩
  | suspend target =>
    have hop : KeepsLaws (do
        let last ← Op.ask fun s => decide (lastValidator s target)
        Op.refuseIf last .valLastValidator
        memberMut target fun m =>
          { m with status := if m.status = .active then .suspended else m.status }
        Op.write fun s => { s with validators := s.validators.erase target }) :=
      .bind (.ask _) fun _ => .bind (.refuseIf _ _) fun _ => .bind (hmut _ _) fun _ =>
        .write fun _ => .of_eq rfl rfl rfl rfl
    exact (hordinary hop).imp id fun ⟨t, ht, h⟩ => ⟨t, ht, h.proposals, h.next, h.params, h.supplies⟩
  | unsuspend target =>
    exact (hordinary (hmut _ _)).imp id fun ⟨t, ht, h⟩ =>
      ⟨t, ht, h.proposals, h.next, h.params, h.supplies⟩
  | validatorPower target power =>
    have hop : KeepsLaws (enact (.validatorPower target power) author) := by
      unfold enact
      refine .ite (fun _ => ?_) fun _ => ?_
      · exact .bind (.check _) fun _ => .write fun _ => .of_eq rfl rfl rfl rfl
      · exact .bind (.ask _) fun _ => .bind (.refuseIf _ _) fun _ =>
          .write fun _ => .of_eq rfl rfl rfl rfl
    exact (hordinary hop).imp id fun ⟨t, ht, h⟩ => ⟨t, ht, h.proposals, h.next, h.params, h.supplies⟩
  | seedAmendment amount =>
    dsimp only
    unfold Seed.enact
    rw [Op.exec_bind, Op.exec_check]
    cases hcheck : Seed.check s author amount with
    | error e => exact .inl ⟨e, s, rfl, Std.Refl.refl s⟩
    | ok =>
      refine .inr ⟨_, rfl, rfl, rfl, rfl, ?_, fun u => (OrdMap.getD'_bump _ _ _ _).le⟩
      unfold Seed.check at hcheck
      dsimp only at hcheck
      split at hcheck
      · cases hcheck
      · split_ifs at hcheck with _ _ hrate
        exact Nat.le_of_not_lt hrate

/-- `member` carries out the proposal `id` by assenting to it in `s`, which ends as `t`. -/
structure Ratified (s t : State) (member : MemberId) (id : ProposalId) (signers : List Key)
    (p : Proposal) : Prop extends Assents s member id signers p true where
  decided : Decided p.kind p.author s t
  after : t.proposals[id]? = some { assented member p with enacted := true }

theorem getElem?_modProposal {s : State} {id : ProposalId} {p : Proposal}
    (hp : s.proposals[id]? = some p) (f : Proposal → Proposal) :
    (modProposal id f s).proposals[id]? = some (f p) := by
  rw [modProposal, OrdMap.getElem?_modify_map, hp, Option.map_some, if_pos rfl]

/-- An assent decides nothing, or carries a proposal out. -/
theorem assent_decides (member : MemberId) (id : ProposalId) (signers : List Key) (s : State) :
    Undecided s (Op.exec (assent member id signers) s).2 ∨
      (Op.exec (assent member id signers) s).1 = .ok () ∧
        Tabled s (Op.exec (assent member id signers) s).2 ∧
        ∃ p, Ratified s (Op.exec (assent member id signers) s).2 member id signers p := by
  unfold assent
  rw [Op.exec_bind]
  rcases hmay : Op.exec (mayAssent member id signers) s with ⟨⟨e⟩ | ⟨p, enacts⟩, t⟩
  all_goals
    obtain rfl : t = s := (congrArg Prod.snd hmay).symm.trans (quiet_mayAssent member id signers s)
  · exact .inl (Std.Refl.refl t)
  have hassents := assents_of_mayAssent (congrArg Prod.fst hmay)
  have hwritten : Undecided t (modProposal id (assented member) t) := by
    refine undecided_modProposal fun q hq => ?_
    obtain rfl := Option.some.inj (hq.symm.trans hassents.tabled)
    exact stands_assented hassents.pending member (assented member q).enacted
  have hrow := getElem?_modProposal hassents.tabled (assented member)
  -- what is carried out is marked so, in whatever state that leaves
  have hmarked (u : State) (hu : u.proposals[id]? = some (assented member p)) :
      Undecided u (modProposal id (fun p => { p with enacted := true }) u) := by
    refine undecided_modProposal fun q hq => ?_
    obtain rfl := Option.some.inj (hq.symm.trans hu)
    exact ⟨rfl, rfl, rfl, rfl, fun _ h => h, fun h => absurd (hassents.pending.symm.trans h)
      Bool.false_ne_true⟩
  dsimp only
  rw [Op.exec_bind, Op.exec_write]
  change Undecided t (modProposal id (fun p => { p with assents := p.assents.insert member }) t)
    at hwritten
  change (modProposal id (fun p => { p with assents := p.assents.insert member }) t).proposals[id]? =
    some (assented member p) at hrow
  have hkept : ∀ kind author v, Decided kind author
      (modProposal id (fun p => { p with assents := p.assents.insert member }) t) v →
      Decided kind author t (modProposal id (fun p => { p with enacted := true }) v) := by
    intro kind author v hdecided
    cases kind <;> exact hdecided
  -- what is carried out runs on the ledger with the assent written
  generalize modProposal id (fun p => { p with assents := p.assents.insert member }) t = u
    at hwritten hrow hkept ⊢
  dsimp only
  cases enacts with
  | false => exact .inl hwritten
  | true =>
    rw [if_pos rfl]
    -- a proposal that the ledger refuses to carry out keeps the assent and stays open
    rcases enact_decides p.kind p.author u with
      ⟨e, v, hv, hsame⟩ | ⟨v, hv, hproposals, hnext, hdecided⟩
    · rw [Op.exec_bind_error hv]
      exact .inl (IsTrans.trans _ _ _ hwritten (.of_same hsame))
    · have hrow' : v.proposals[id]? = some (assented member p) := hproposals ▸ hrow
      rw [Op.exec_bind_ok hv, Op.exec_write]
      exact .inr ⟨rfl, IsTrans.trans _ _ _ hwritten.toTabled (IsTrans.trans _ _ _
        (.of_eq hproposals hnext) (hmarked v hrow').toTabled), p, hassents, hkept _ _ _ hdecided,
        getElem?_modProposal hrow' _⟩

/-- A transition that does not assent decides nothing. -/
theorem undecided_dispatch [Libm] {tx : Tx} (signers : List Key) (sponsor : Option MemberId)
    (hassent : ∀ id proposal, tx ≠ .assent id proposal) :
    Op.Moves Undecided (dispatch tx signers sponsor) := by
  by_cases hpropose : ∃ author kind, tx = .propose author kind
  · obtain ⟨author, kind, rfl⟩ := hpropose
    exact undecided_propose author kind signers
  · exact fun s => .of_same (sameLaws_dispatch tx signers sponsor
      (fun author kind h => hpropose ⟨author, kind, h⟩) hassent s)

/-- An assent is free, whoever signs it. -/
theorem exec_bondGate_assent (member : MemberId) (id : ProposalId) (signers : List Key) (s : State) :
    Op.exec (bondGate (.assent member id) signers) s = (.ok (.free, none), s) := rfl

end Apply

theorem undecided_beginBlock (nowSecs : Nat) (s : State) : Undecided s (s.beginBlock nowSecs) := by
  obtain ⟨u, v, hu, hv, hend⟩ := beginBlock_ends (R := Undecided) (fun _ _ h => .of_same (.of_offBooks h))
    (fun id s => .of_same (Apply.sameLaws_forfeitBonds id s)) (fun _ _ => .of_same (.of_eq rfl rfl rfl rfl))
    (fun _ => .of_same (.of_eq rfl rfl rfl rfl)) (fun _ => .of_same (.of_eq rfl rfl rfl rfl)) nowSecs s
  refine IsTrans.trans _ _ _ hu (IsTrans.trans _ _ _ ?_ hend)
  -- an epoch has ended or not; if it has, closed rows are pruned and empty ones retired
  rcases hv with rfl | rfl
  · exact Std.Refl.refl v
  · refine IsTrans.trans _ _ _ (Apply.undecided_pruneClosedRows u) (.of_same ?_)
    exact Op.Moves.foldl (fun s id => Apply.sameLaws_retireRow id s) _ _

/-- A genesis tables nothing. -/
theorem proposalsIssued_founding {s : State} (h : Founding s) : s.ProposalsIssued := by
  obtain ⟨g, hg⟩ := h
  refine genesisState_keeps (I := State.ProposalsIssued)
    (fun _ _ _ _ _ => Std.ExtTreeMap.getElem?_empty) (fun _ _ _ _ hs hseat => ?_) hg
  exact (seatEntry_moves (R := Tabled) (fun _ _ => .of_eq rfl rfl) (fun _ _ => .of_eq rfl rfl)
    (fun _ _ _ => .of_eq rfl rfl) (fun _ _ => .of_eq rfl rfl) hseat).issued hs

section Events

variable [Libm]

/-- The event is an assent of `member` that carries out the proposal `id`. -/
def Event.Ratifies (e : Event) (s : State) (member : MemberId) (id : ProposalId) (p : Proposal) :
    Prop :=
  ∃ txId notAfterEpoch signers nowSecs,
    e = .transaction (.assent member id) txId notAfterEpoch signers nowSecs ∧
      Apply.Ratified (s.beginBlock nowSecs) (e.next s) member id signers p

/-- **An event decides nothing, or carries out one proposal.** -/
theorem decides_next (e : Event) (s : State) : Undecided s (e.next s) ∨
    Tabled s (e.next s) ∧ ∃ member id p, e.Ratifies s member id p := by
  cases e with
  | block nowSecs => exact .inl (undecided_beginBlock nowSecs s)
  | transaction tx txId notAfterEpoch signers nowSecs =>
    have hbegin := undecided_beginBlock nowSecs s
    have hgate := Undecided.of_same (Apply.sameLaws_bondGate tx signers (s.beginBlock nowSecs))
    rcases Apply.exec_apply_cases tx txId notAfterEpoch signers nowSecs s with
      ⟨e, -, hexec⟩ | ⟨-, e, t, ht, hexec⟩ | ⟨-, charged, sponsor, t, outcome, u, ht, hu, hexec⟩
    · rw [Event.next, hexec]
      exact .inl hbegin
    · rw [ht] at hgate
      rw [Event.next, hexec]
      exact .inl (IsTrans.trans _ _ _ hbegin hgate)
    have hrecorded (s : State) : Undecided s (s.recordApplied txId notAfterEpoch) :=
      .of_same (.of_eq rfl rfl rfl rfl)
    have hsettled := Apply.sameLaws_settleOutcome tx txId notAfterEpoch signers charged outcome u
    have hnext : (Event.transaction tx txId notAfterEpoch signers nowSecs).next s =
        Apply.settleOutcome tx txId notAfterEpoch signers charged outcome u := by
      rw [Event.next, hexec]
    rw [hnext]
    -- the transaction passed the gate; only an assent can decide
    by_cases hassent : ∃ member id, tx = .assent member id
    · obtain ⟨member, id, rfl⟩ := hassent
      rw [Apply.exec_bondGate_assent] at ht
      obtain ⟨-, hstart⟩ := Prod.mk.inj ht
      have hdecides := Apply.assent_decides member id signers
        ((s.beginBlock nowSecs).recordApplied txId notAfterEpoch)
      change Op.exec (Apply.assent member id signers) _ = _ at hu
      rw [← hstart] at hu
      rw [hu] at hdecides
      rcases hdecides with hundecided | ⟨houtcome, htabled, p, hratified⟩
      · exact .inl (IsTrans.trans _ _ _ hbegin <| IsTrans.trans _ _ _ (hrecorded _) <|
          IsTrans.trans _ _ _ hundecided (.of_same hsettled))
      · obtain rfl : outcome = .ok () := houtcome
        refine .inr ⟨IsTrans.trans _ _ _ hbegin.toTabled <| IsTrans.trans _ _ _ (hrecorded _).toTabled
          htabled, member, id, p, txId, notAfterEpoch, signers, nowSecs, rfl, ?_⟩
        rw [hnext]
        exact ⟨⟨hratified.signed, hratified.tabled, hratified.governs, hratified.pending,
          hratified.first, hratified.mandate, hratified.disinterested, hratified.carried,
          hratified.rests⟩, hratified.decided, hratified.after⟩
    · rw [ht] at hgate
      have hassent : ∀ member id, tx ≠ .assent member id := fun member id h =>
        hassent ⟨member, id, h⟩
      have hdispatch := Apply.undecided_dispatch signers sponsor hassent
        (t.recordApplied txId notAfterEpoch)
      rw [hu] at hdispatch
      exact .inl (IsTrans.trans _ _ _ hbegin <| IsTrans.trans _ _ _ hgate <|
        IsTrans.trans _ _ _ (hrecorded _) <| IsTrans.trans _ _ _ hdispatch (.of_same hsettled))

theorem tabled_next (e : Event) (s : State) : Tabled s (e.next s) := by
  rcases decides_next e s with h | h
  · exact h.toTabled
  · exact h.1

theorem tabled_run (es : List Event) (s : State) : Tabled s (Event.run es s) := by
  -- by induction on the run
  induction es generalizing s with
  | nil => exact Std.Refl.refl s
  | cons e es ih => exact IsTrans.trans _ _ _ (tabled_next e s) (ih _)

/-- **The parameters are written by ratification alone**, of a proposal to amend one of them or to
redenominate. -/
theorem amended_by_ratification (e : Event) (s : State) (h : (e.next s).params ≠ s.params) :
    ∃ member id p, e.Ratifies s member id p ∧
      ((∃ key value, p.kind = .paramChange key value) ∨ ∃ num den, p.kind = .redenominate num den) := by
  rcases decides_next e s with hundecided | ⟨-, member, id, p, hratifies⟩
  · exact absurd hundecided.params h
  refine ⟨member, id, p, hratifies, ?_⟩
  obtain ⟨_, _, _, nowSecs, _, hratified⟩ := hratifies
  have hopened := (undecided_beginBlock nowSecs s).params
  have hdecided := hratified.decided
  unfold Apply.Decided at hdecided
  cases hkind : p.kind with
  | paramChange key value => exact .inl ⟨key, value, rfl⟩
  | redenominate num den => exact .inr ⟨num, den, rfl⟩
  | _ =>
    rw [hkind] at hdecided
    exact absurd (hdecided.1.trans hopened) h

/-- **A supply rises by ratification alone**: another member's assent carries out its author's
amendment, which raises it by the amount and within what the epoch still allows; or the unit is
changed. -/
theorem raised_by_ratification (e : Event) (s : State) (u : MemberId)
    (h : OrdMap.getD' s.underwriters u 0 < OrdMap.getD' (e.next s).underwriters u 0) :
    ∃ member id txId notAfterEpoch signers nowSecs p,
      e = .transaction (.assent member id) txId notAfterEpoch signers nowSecs ∧
      e.Ratifies s member id p ∧ ((∃ num den, p.kind = .redenominate num den) ∨
        ∃ amount, p.kind = .seedAmendment amount ∧ p.author = u ∧ member ≠ u ∧
          toMinor amount ≤ Seed.remaining (s.beginBlock nowSecs) ∧
          OrdMap.getD' (e.next s).underwriters u 0 ≤
            OrdMap.getD' s.underwriters u 0 + toMinor amount) := by
  rcases decides_next e s with hundecided | ⟨-, member, id, p, hratifies⟩
  · exact absurd (hundecided.supplies u) (Nat.not_le_of_lt h)
  obtain ⟨txId, notAfterEpoch, signers, nowSecs, he, hratified⟩ := hratifies
  refine ⟨member, id, txId, notAfterEpoch, signers, nowSecs, p, he,
    ⟨txId, notAfterEpoch, signers, nowSecs, he, hratified⟩, ?_⟩
  have hopened := (undecided_beginBlock nowSecs s).supplies u
  have hdisinterested := hratified.disinterested
  have hdecided := hratified.decided
  unfold Apply.Decided at hdecided
  cases hkind : p.kind with
  | redenominate num den => exact .inl ⟨num, den, rfl⟩
  | paramChange key value =>
    rw [hkind] at hdecided
    exact absurd ((hdecided u).trans hopened) (Nat.not_le_of_lt h)
  | seedAmendment amount =>
    rw [hkind] at hdecided hdisinterested
    obtain ⟨-, hallowed, hraised⟩ := hdecided
    have hauthor : p.author = u := by
      by_contra hne
      have hsame := (hraised u).trans (by rw [if_neg hne, Nat.add_zero])
      exact absurd (hsame.trans hopened) (Nat.not_le_of_lt h)
    refine .inr ⟨amount, rfl, hauthor, fun hmember => hdisinterested ⟨rfl, hmember.trans hauthor.symm⟩,
      hallowed, ?_⟩
    have hbumped := hraised u
    rw [if_pos hauthor] at hbumped
    exact hbumped.trans (Nat.add_le_add_right hopened _)
  | _ =>
    rw [hkind] at hdecided
    exact absurd ((hdecided.2 u).trans hopened) (Nat.not_le_of_lt h)

/-- **No proposal is carried out twice**, whoever assents to it, and however much later. -/
theorem ratified_once {s : State} (h : Founding s) (es es' : List Event) {e e' : Event}
    {member member' : MemberId} {id : ProposalId} {p p' : Proposal}
    (hfirst : e.Ratifies (Event.run es s) member id p) :
    ¬e'.Ratifies (Event.run (es ++ e :: es') s) member' id p' := by
  rintro ⟨-, -, signers', nowSecs', -, hsecond⟩
  obtain ⟨-, -, signers, nowSecs, -, hfirst⟩ := hfirst
  set t := Event.run es s with ht
  have hissued : (e.next t).ProposalsIssued :=
    (tabled_next e t).issued ((tabled_run es s).issued (proposalsIssued_founding h))
  have hbelow : id < (e.next t).nextProposal := by
    by_contra hnot
    have hnone := hissued id (Nat.le_of_not_lt hnot)
    rw [hfirst.after] at hnone
    cases hnone
  have hrun : Event.run (es ++ e :: es') s = Event.run es' (e.next t) := by
    rw [ht, Event.run, List.foldl_append, List.foldl_cons]
    rfl
  have hlater : Tabled (e.next t) ((Event.run es' (e.next t)).beginBlock nowSecs') :=
    IsTrans.trans _ _ _ (tabled_run es' _) (undecided_beginBlock nowSecs' _).toTabled
  -- what has been carried out stands as it was, and may not be assented to
  obtain ⟨q, hq, hstands⟩ := hlater.old id p' hbelow (hrun ▸ hsecond.tabled)
  rw [hfirst.after] at hq
  obtain rfl := Option.some.inj hq
  obtain rfl := hstands.enacted rfl
  exact Bool.false_ne_true (hsecond.pending.symm.trans rfl)

end Events

/-- A founder of two proposes to amend a parameter. -/
def tablingEvents : List Event :=
  [.transaction (.propose 0 (.paramChange .seedRate (F64.lit 2 100))) 0 0 [founderKey 0] 10]

/-- It stands for half of the supply, which is enough. -/
def amendingEvent : Event := .transaction (.assent 0 0) 1 0 [founderKey 0] 10

theorem amends_amendingEvent :
    letI := Libm.unused
    (amendingEvent.next (Event.run tablingEvents (devGenesis [1000, 1000]).state)).params ≠
      (Event.run tablingEvents (devGenesis [1000, 1000]).state).params := by
  have hset : (@Event.next Libm.unused amendingEvent (@Event.run Libm.unused tablingEvents
      (devGenesis [1000, 1000]).state)).params.lastAmendEpoch.contains .seedRate = true := by
    decide +kernel
  have hunset : (@Event.run Libm.unused tablingEvents
      (devGenesis [1000, 1000]).state).params.lastAmendEpoch.contains .seedRate = false := by
    decide +kernel
  intro hsame
  rw [hsame, hunset] at hset
  exact Bool.false_ne_true hset

theorem amended_by_ratification_seedRate :
    letI := Libm.unused
    ∃ member id p, amendingEvent.Ratifies
        (Event.run tablingEvents (devGenesis [1000, 1000]).state) member id p ∧
      ((∃ key value, p.kind = .paramChange key value) ∨ ∃ num den, p.kind = .redenominate num den) := by
  let _ : Libm := Libm.unused
  exact amended_by_ratification _ _ amends_amendingEvent

/-- Nobody's later assent carries it out again. -/
theorem ratified_once_seedRate :
    letI := Libm.unused
    ∃ id, (∃ member p, amendingEvent.Ratifies
        (Event.run tablingEvents (devGenesis [1000, 1000]).state) member id p) ∧
      ∀ (es : List Event) (e : Event) member p, ¬e.Ratifies
        (Event.run (tablingEvents ++ amendingEvent :: es) (devGenesis [1000, 1000]).state)
        member id p := by
  let _ : Libm := Libm.unused
  rcases decides_next amendingEvent (Event.run tablingEvents (devGenesis [1000, 1000]).state) with
    hundecided | ⟨-, member, id, p, hratifies⟩
  · exact absurd hundecided.params amends_amendingEvent
  have hfounding : Founding (devGenesis [1000, 1000]).state := Genesis.founding_state (by decide +kernel)
  exact ⟨id, ⟨member, p, hratifies⟩, fun es _ _ _ => ratified_once hfounding _ es hratifies⟩

/-- A founder proposes to raise its own supply by one unit. -/
def raisingEvents : List Event :=
  [.transaction (.propose 0 (.seedAmendment (F64.ofNat 1))) 0 0 [founderKey 0] 10]

/-- The other founder carries it out. -/
theorem raised_by_ratification_unit :
    letI := Libm.unused
    ∃ p, (Event.transaction (.assent 1 0) 1 0 [founderKey 1] 10).Ratifies
        (Event.run raisingEvents (devGenesis [1000, 1000]).state) 1 0 p ∧
      ((∃ num den, p.kind = .redenominate num den) ∨ p.author = 0) := by
  let _ : Libm := Libm.unused
  have hraised : OrdMap.getD' (@Event.run Libm.unused raisingEvents
        (devGenesis [1000, 1000]).state).underwriters 0 0 <
      OrdMap.getD' (@Event.next Libm.unused (.transaction (.assent 1 0) 1 0 [founderKey 1] 10)
        (@Event.run Libm.unused raisingEvents (devGenesis [1000, 1000]).state)).underwriters 0 0 := by
    decide +kernel
  obtain ⟨member, id, _, _, _, _, p, he, hratifies, hkind⟩ :=
    raised_by_ratification (.transaction (.assent 1 0) 1 0 [founderKey 1] 10)
      (Event.run raisingEvents (devGenesis [1000, 1000]).state) 0 hraised
  cases he
  exact ⟨p, hratifies, hkind.imp id fun ⟨_, _, hauthor, _⟩ => hauthor⟩

end Edet
