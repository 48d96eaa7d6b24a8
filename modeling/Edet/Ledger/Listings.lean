import Edet.Ledger.Rows

/-!
# Listings and approvals

A supporter lists beneficiaries; every beneficiary records who lists it, and approves some
of those. Two rows hold what one relation says, so the two ends can come apart.

They do not (`Listing.Agree.both`): a listing, an exit and a retirement write both ends.
An approval stands for a listing only as long as the listing stands, and a listing that
drops a beneficiary leaves that beneficiary's approval in place. So approvals are kept in
every run whose listings drop nobody that has approved them (`agree_of_reaches`), and fail
without that (`stale_approval`).
-/

namespace Edet

open Edet.Flow

/-- What a row says of listings: whom it lists, who lists it, and whom of these it has
approved. -/
@[ext] structure Listing where
  lists : OrdMap MemberId F64 := ∅
  supporters : OrdSet MemberId := ∅
  approved : OrdSet MemberId := ∅

namespace Listing

/-- Both ends of every listing say the same, and nobody has approved but those that list
it. -/
structure Agree (l : MemberId → Listing) : Prop where
  both : ∀ a b, a ∈ (l b).supporters ↔ a ≠ b ∧ b ∈ (l a).lists
  approved : ∀ a b, a ∈ (l b).approved → a ∈ (l b).supporters

/-- Whoever is approved lists the member that approved it. -/
theorem Agree.lists {l : MemberId → Listing} (h : Agree l) {a b : MemberId}
    (ha : a ∈ (l b).approved) : b ∈ (l a).lists :=
  ((h.both a b).1 (h.approved a b ha)).2

/-- Listings from and to a member are gone, and so are the approvals for them. -/
structure Dropped (id : MemberId) (l l' : MemberId → Listing) : Prop where
  lists : ∀ a b, b ∈ (l' a).lists ↔ a ≠ id ∧ b ≠ id ∧ b ∈ (l a).lists
  supporters : ∀ a b, a ∈ (l' b).supporters ↔ a ≠ id ∧ b ≠ id ∧ a ∈ (l b).supporters
  approved : ∀ a b, a ∈ (l' b).approved → a ≠ id ∧ b ≠ id ∧ a ∈ (l b).approved

theorem Agree.drop {id : MemberId} {l l' : MemberId → Listing} (h : Agree l)
    (hdropped : Dropped id l l') : Agree l' where
  both a b := by
    rw [hdropped.supporters, hdropped.lists, h.both]
    tauto
  approved a b hab := by
    obtain ⟨ha, hb, happroved⟩ := hdropped.approved a b hab
    exact (hdropped.supporters a b).2 ⟨ha, hb, h.approved a b happroved⟩

end Listing

def Member.listing (m : Member) : Listing := ⟨m.beneficiaries, m.supportersOf, m.approvedSupporters⟩

namespace State

/-- What the row of an id says of listings; an id without a row says nothing. -/
def listing (s : State) (id : MemberId) : Listing := (s.members[id]?.map Member.listing).getD {}

theorem listing_of_row {s : State} {id : MemberId} {m : Member} (hm : s.members[id]? = some m) :
    s.listing id = m.listing := by
  rw [listing, hm]
  rfl

theorem listing_eq_of_sameView {s s' : State} (h : SameView Member.listing s s') :
    s'.listing = s.listing := by
  funext id
  rw [listing, listing, h.rows]

/-- A row opened on the way says nothing of listings. -/
theorem listing_eq_of_rowsKept {s s' : State} (h : RowsKept Member.listing s s') :
    s'.listing = s.listing := by
  funext id
  cases hm : s.members[id]? with
  | some m =>
    obtain ⟨m', hm', hview⟩ := h.kept id m hm
    rw [listing_of_row hm', listing_of_row hm, hview]
  | none =>
    have hblank : s.listing id = {} := by
      rw [listing, hm]
      rfl
    rw [hblank]
    cases hm' : s'.members[id]? with
    | none =>
      rw [listing, hm']
      rfl
    | some m' =>
      obtain ⟨-, m₀, ⟨_, _, _, _, _, rfl⟩, hview⟩ := h.born id m' hm' hm
      rw [listing_of_row hm', hview]
      rfl

/-- Writing one row as `f` writes what it says of listings as `g`. -/
theorem listing_modMember {f : Member → Member} {g : Listing → Listing}
    (hf : ∀ m, (f m).listing = g m.listing) (hblank : g {} = {}) (s : State) (i a : MemberId) :
    (s.modMember i f).listing a = if i = a then g (s.listing a) else s.listing a := by
  unfold listing modMember
  rw [OrdMap.getElem?_modify_map]
  cases s.members[a]? with
  | none =>
    simp only [Option.map_none, Option.getD_none]
    split
    · exact hblank.symm
    · rfl
  | some m =>
    simp only [Option.map_some, Option.getD_some]
    split
    · exact hf m
    · rfl

/-- The same for a row that stands. -/
theorem listing_modMember_of_row {f : Member → Member} {g : Listing → Listing}
    (hf : ∀ m, (f m).listing = g m.listing) {s : State} {i : MemberId} {m : Member}
    (hm : s.members[i]? = some m) (a : MemberId) :
    (s.modMember i f).listing a = if i = a then g (s.listing a) else s.listing a := by
  by_cases hia : i = a
  · subst hia
    rw [if_pos rfl, listing_of_row hm]
    have hrow : (s.modMember i f).members[i]? = some (f m) := by
      rw [modMember, OrdMap.getElem?_modify_map, hm, Option.map_some, if_pos rfl]
    rw [listing_of_row hrow, hf]
  · rw [if_neg hia]
    have hrow : (s.modMember i f).members[a]? = s.members[a]? := by
      rw [modMember, OrdMap.getElem?_modify_map]
      simp only [if_neg hia, Option.map_id']
    rw [listing, listing, hrow]

/-- Does a row stand? -/
def Stands (s : State) (id : MemberId) : Prop := ∃ m, s.members[id]? = some m

theorem stands_modMember {s : State} {i a : MemberId} {f : Member → Member} :
    (s.modMember i f).Stands a ↔ s.Stands a := by
  unfold Stands modMember
  rw [OrdMap.getElem?_modify_map]
  cases s.members[a]? <;> simp

end State

namespace Listing

/-- The listings without an entry for `id` on the side of the supported. -/
def unlisted (id : MemberId) (l : Listing) : Listing :=
  { l with supporters := l.supporters.erase id, approved := l.approved.erase id }

/-- The listings without an entry for `id` on the side of the supporter. -/
def undelegated (id : MemberId) (l : Listing) : Listing := { l with lists := l.lists.erase id }

theorem mem_erase_lists {m : OrdMap MemberId F64} {k a : MemberId} :
    a ∈ m.erase k ↔ a ≠ k ∧ a ∈ m := by
  rw [Std.ExtTreeMap.mem_erase, Ne, Std.compare_eq_iff_eq, eq_comm]

theorem mem_erase_supporters {set : OrdSet MemberId} {k a : MemberId} :
    a ∈ set.erase k ↔ a ≠ k ∧ a ∈ set := by
  rw [Std.ExtTreeSet.mem_erase, Ne, Std.compare_eq_iff_eq, eq_comm]

@[simp] theorem unlisted_blank (id : MemberId) : ({} : Listing).unlisted id = {} := by
  simp [unlisted]

@[simp] theorem undelegated_blank (id : MemberId) : ({} : Listing).undelegated id = {} := by
  simp [undelegated]

@[simp] theorem unlisted_unlisted (id : MemberId) (l : Listing) :
    (l.unlisted id).unlisted id = l.unlisted id := by
  refine Listing.ext rfl (Std.ExtTreeSet.ext_mem fun a => ?_) (Std.ExtTreeSet.ext_mem fun a => ?_)
  all_goals simp only [unlisted, mem_erase_supporters]; tauto

@[simp] theorem undelegated_undelegated (id : MemberId) (l : Listing) :
    (l.undelegated id).undelegated id = l.undelegated id := by
  refine Listing.ext (Std.ExtTreeMap.ext_getElem? fun a => ?_) rfl rfl
  simp only [undelegated, Std.ExtTreeMap.getElem?_erase]
  split <;> rfl

end Listing

/-- Writing several rows alike. -/
theorem State.listing_foldl_modMember {f : Member → Member} {g : Listing → Listing}
    (hf : ∀ m, (f m).listing = g m.listing) (hblank : g {} = {}) (htwice : ∀ l, g (g l) = g l)
    (l : List MemberId) (s : State) (a : MemberId) :
    (l.foldl (fun s b => s.modMember b f) s).listing a =
      if a ∈ l then g (s.listing a) else s.listing a := by
  induction l generalizing s with
  | nil => simp
  | cons b l ih =>
    rw [List.foldl_cons, ih, State.listing_modMember hf hblank]
    by_cases hba : b = a
    · subst hba
      simp [htwice]
    · simp only [if_neg hba, List.mem_cons, Ne.symm hba, false_or]

namespace Apply

/-! ### Leaving -/

/-- Whoever is dropped on both ends has no listing left to or from it. -/
theorem dropped_of_listings {id : MemberId} {l l' : MemberId → Listing} (h : Listing.Agree l)
    (hself : l' id = {})
    (hothers : ∀ a, a ≠ id → l' a = 
      (let r := if a ∈ (l id).lists then (l a).unlisted id else l a
       if a ∈ (l id).supporters then r.undelegated id else r)) : Listing.Dropped id l l' := by
  have hlists : ∀ a b, b ∈ (l' a).lists ↔ a ≠ id ∧ b ≠ id ∧ b ∈ (l a).lists := by
    intro a b
    by_cases ha : a = id
    · subst ha
      simp [hself]
    · rw [hothers a ha]
      have hback := h.both a id
      by_cases hsup : a ∈ (l id).supporters <;> by_cases hlist : a ∈ (l id).lists <;>
        simp only [hsup, hlist, if_true, if_false, Listing.undelegated, Listing.unlisted,
          Listing.mem_erase_lists]
      all_goals
        constructor
        · rintro hb
          grind
        · grind
  refine ⟨hlists, fun a b => ?_, fun a b hab => ?_⟩
  · by_cases hb : b = id
    · subst hb
      simp [hself]
    · rw [hothers b hb]
      have hback := h.both id b
      by_cases hsup : b ∈ (l id).supporters <;> by_cases hlist : b ∈ (l id).lists <;>
        simp only [hsup, hlist, if_true, if_false, Listing.undelegated, Listing.unlisted,
          Listing.mem_erase_supporters]
      all_goals grind
  · by_cases hb : b = id
    · subst hb
      simp [hself] at hab
    · rw [hothers b hb] at hab
      have hback := h.both id b
      have happroved := h.approved id b
      by_cases hsup : b ∈ (l id).supporters <;> by_cases hlist : b ∈ (l id).lists <;>
        simp only [hsup, hlist, if_true, if_false, Listing.undelegated, Listing.unlisted,
          Listing.mem_erase_supporters] at hab
      all_goals grind

theorem agree_retireRow {s : State} (hs : Listing.Agree s.listing) (id : MemberId) :
    Listing.Agree (retireRow id s).listing := by
  unfold retireRow
  split
  · exact hs
  next m hm =>
  extract_lets s₁ s₂ s₃
  refine hs.drop (dropped_of_listings hs ?_ fun a ha => ?_ : Listing.Dropped id _ _)
  · simp [State.listing]
  · have h₁ : s₁.listing a = if a ∈ (s.listing id).lists then (s.listing a).unlisted id
        else s.listing a := by
      rw [State.listing_foldl_modMember (g := Listing.unlisted id) (fun _ => rfl) (by simp) (by simp),
        State.listing_of_row hm]
      exact if_congr (by simp [Member.listing]) rfl rfl
    have h₂ : s₂.listing a = if a ∈ (s.listing id).supporters then (s₁.listing a).undelegated id
        else s₁.listing a := by
      rw [State.listing_foldl_modMember (g := Listing.undelegated id) (fun _ => rfl) (by simp)
        (by simp), State.listing_of_row hm]
      exact if_congr (by simp [Member.listing]) rfl rfl
    have h₃ : s₃.members = s₂.members := by
      simp only [s₃]
      split <;> rfl
    have hrow : s₃.listing a = s₂.listing a := by rw [State.listing, State.listing, h₃]
    rw [← h₁, ← h₂, ← hrow]
    simp only [State.listing, Std.ExtTreeMap.getElem?_erase, Std.compare_eq_iff_eq, if_neg (Ne.symm ha)]

/-- A row that exits leaves the listings as a row that is retired does. -/
theorem agree_exit {s : State} (hs : Listing.Agree s.listing) (id : MemberId) (signers : List Key) :
    Listing.Agree (Op.exec (exit id signers) s).2.listing := by
  refine Op.Triple.exec_snd (P := fun t => t = s) (J := fun t => Listing.Agree t.listing) ?_ rfl
  have hE : ∀ t, t = s → Listing.Agree t.listing := by
    rintro t rfl
    exact hs
  unfold exit
  refine .bind_quiet (Op.quiet_check _) hE fun _ =>
    .bind (triple_member (Q := fun m t => t = s ∧ s.members[id]? = some m)
      (fun t m ht hm => ⟨ht, ht ▸ hm⟩) hE) fun m => .of_fact fun hm => ?_
  refine .bind_quiet (Op.quiet_refuseIf _ _) hE fun _ => .bind_quiet (Op.quiet_ask _) hE fun _ =>
    .bind_quiet (Op.quiet_refuseIf _ _) hE fun _ => .bind_quiet (Op.quiet_refuseIf _ _) hE fun _ =>
    .bind_quiet (Op.quiet_ask _) hE fun _ => .bind_quiet (Op.quiet_refuseIf _ _) hE fun _ =>
    .bind_quiet (Op.quiet_ask _) hE fun _ => .bind_quiet (Op.quiet_refuseIf _ _) hE fun _ => ?_
  -- From here on nothing is refused: the row stands throughout.
  refine .of_succeeds ?_
  rintro t rfl
  let s₁ := (m.beneficiaries.toList.map Prod.fst).foldl (fun t b => t.modMember b (unlist id)) t
  have hstands : ∀ (l : List MemberId) (f : Member → Member) (t : State),
      t.Stands id → (l.foldl (fun t b => t.modMember b f) t).Stands id := by
    intro l f
    induction l with
    | nil => exact fun _ h => h
    | cons b l ih => exact fun t h => ih _ (State.stands_modMember.2 h)
  obtain ⟨m₁, hm₁⟩ : s₁.Stands id := hstands _ _ t ⟨m, hm⟩
  obtain ⟨m₂, hm₂⟩ := hstands m₁.supportersOf.toList (undelegate id) s₁ ⟨m₁, hm₁⟩
  refine .bind_write (.bind (succeeds_member (Q := fun m' t' => m₁ = m' ∧ t' = s₁) hm₁ ⟨rfl, rfl⟩) ?_)
  rintro _ _ ⟨rfl, rfl⟩
  refine .bind_write (.bind_write (succeeds_memberMut (m := m₂) hm₂ ?_))
  -- The validators are written in between.
  let s₂ := m₁.supportersOf.toList.foldl (fun t b => t.modMember b (undelegate id)) s₁
  have hcleared : ∀ (v : State) {f : Member → Member}, v.members = s₂.members →
      (∀ m, (f m).listing = {}) → Listing.Agree (v.modMember id f).listing := ?_
  · exact hcleared _ rfl fun _ => rfl
  intro v f hv hf
  have hrow : v.members[id]? = some m₂ := hv ▸ hm₂
  have hsame : v.listing = s₂.listing := funext fun a => by rw [State.listing, State.listing, hv]
  refine hs.drop (dropped_of_listings hs ?_ fun a ha => ?_ : Listing.Dropped id _ _)
  · rw [State.listing_modMember_of_row (g := fun _ => {}) hf hrow, if_pos rfl]
  · have h₁ : s₁.listing a = if a ∈ (t.listing id).lists then (t.listing a).unlisted id
        else t.listing a := by
      rw [State.listing_foldl_modMember (g := Listing.unlisted id) (fun _ => rfl) (by simp) (by simp),
        State.listing_of_row hm]
      exact if_congr (by simp [Member.listing]) rfl rfl
    -- A row that lists itself is none of its own supporters.
    have hsupporters : a ∈ m₁.supportersOf ↔ a ∈ (t.listing id).supporters := by
      have hid : s₁.listing id = if id ∈ m.beneficiaries.toList.map Prod.fst then
          (t.listing id).unlisted id else t.listing id :=
        State.listing_foldl_modMember (fun _ => rfl) (by simp) (by simp) _ _ _
      rw [show m₁.supportersOf = (s₁.listing id).supporters by rw [State.listing_of_row hm₁]; rfl, hid]
      split
      · simp only [Listing.unlisted, Listing.mem_erase_supporters, ha, ne_eq, not_false_eq_true,
          true_and]
      · rfl
    rw [State.listing_modMember_of_row (g := fun _ => {}) hf hrow, if_neg (Ne.symm ha), hsame,
      State.listing_foldl_modMember (g := Listing.undelegated id) (fun _ => rfl) (by simp)
      (by simp), h₁]
    exact if_congr (by rw [Std.ExtTreeSet.mem_toList, hsupporters]) rfl rfl

/-! ### Listing -/

/-- May the listing be written? -/
structure MayList (supporter : MemberId) (entries : List (MemberId × F64)) (signers : List Key)
    (s : State) : Prop where
  active : requireActive s supporter = .ok ()
  signed : requireSigned s supporter signers = .ok ()
  few : entries.length ≤ maxListed
  weights : ∀ e ∈ entries, e.2.isFinite ∧ ¬e.2 ≤ F64.zero false
  rows : ∀ e ∈ entries, s.Stands e.1

/-- A listing that may be written drops nobody who has approved it. -/
def DropsNoApproval (supporter : MemberId) (entries : List (MemberId × F64)) (signers : List Key)
    (s : State) : Prop :=
  MayList supporter entries signers s →
    ∀ b, supporter ∈ (s.listing b).approved → b ∈ entries.map Prod.fst

theorem mem_foldl_weights (entries : List (MemberId × F64)) (l : OrdMap MemberId F64) (b : MemberId) :
    b ∈ entries.foldl (fun list e =>
        list.insert e.1 (OrdMap.getD' list e.1 (F64.zero false) + e.2)) l ↔
      b ∈ l ∨ b ∈ entries.map Prod.fst := by
  induction entries generalizing l with
  | nil => simp
  | cons e entries ih =>
    rw [List.foldl_cons, ih, Std.ExtTreeMap.mem_insert, Std.compare_eq_iff_eq, List.map_cons,
      List.mem_cons]
    tauto

/-- What a supporter's new listing makes of what the rows say. -/
structure Listed (supporter : MemberId) (entries : List (MemberId × F64))
    (l l' : MemberId → Listing) : Prop where
  lists : ∀ a b, b ∈ (l' a).lists ↔
    if a = supporter then b ∈ entries.map Prod.fst else b ∈ (l a).lists
  supporters : ∀ a b, a ∈ (l' b).supporters ↔
    if a = supporter ∧ b ≠ supporter then b ∈ entries.map Prod.fst ∨
      a ∈ (l b).supporters ∧ b ∉ (l supporter).lists
    else a ∈ (l b).supporters
  approved : ∀ b, (l' b).approved = (l b).approved

theorem agree_listed {supporter : MemberId} {entries : List (MemberId × F64)}
    {l l' : MemberId → Listing} (h : Listing.Agree l) (hlisted : Listed supporter entries l l')
    (hdrops : ∀ b, supporter ∈ (l b).approved → b ∈ entries.map Prod.fst) : Listing.Agree l' where
  both a b := by
    have hab := h.both a b
    rw [hlisted.supporters, hlisted.lists]
    by_cases ha : a = supporter
    · subst ha
      by_cases hb : b = a
      · simp [hb, h.both]
      · simp only [hb, ne_eq, not_false_eq_true, and_self, if_true, Ne.symm hb, true_and]
        tauto
    · simp only [ha, false_and, if_false]
      exact hab
  approved a b hab := by
    rw [hlisted.approved] at hab
    have hsupporter := h.approved a b hab
    rw [hlisted.supporters]
    by_cases ha : a = supporter
    · subst ha
      split
      · exact Or.inl (hdrops b hab)
      · exact hsupporter
    · simp only [ha, false_and, if_false]
      exact hsupporter

/-- Every beneficiary that stands records its supporter. -/
theorem succeeds_record (supporter : MemberId) (entries : List (MemberId × F64)) {s : State}
    (hrows : ∀ e ∈ entries, s.Stands e.1) :
    Op.Succeeds (entries.forM fun e =>
      if e.1 ≠ supporter then
        memberMut e.1 fun bm => { bm with supportersOf := bm.supportersOf.insert supporter }
      else pure ()) s fun _ s' => (∀ a, s'.Stands a ↔ s.Stands a) ∧
        ∀ b, (s'.listing b).lists = (s.listing b).lists ∧
          (s'.listing b).approved = (s.listing b).approved ∧
          ∀ a, a ∈ (s'.listing b).supporters ↔ a ∈ (s.listing b).supporters ∨
            a = supporter ∧ b ≠ supporter ∧ b ∈ entries.map Prod.fst := by
  induction entries generalizing s with
  | nil => exact .pure ⟨fun _ => Iff.rfl, fun b => ⟨rfl, rfl, fun a => by simp⟩⟩
  | cons e entries ih =>
    have hrest : ∀ x ∈ entries, s.Stands x.1 := fun x hx => hrows x (List.mem_cons_of_mem _ hx)
    refine .bind (Q := fun _ s' => (∀ a, s'.Stands a ↔ s.Stands a) ∧
      ∀ b, (s'.listing b).lists = (s.listing b).lists ∧
        (s'.listing b).approved = (s.listing b).approved ∧
        ∀ a, a ∈ (s'.listing b).supporters ↔ a ∈ (s.listing b).supporters ∨
          a = supporter ∧ b ≠ supporter ∧ b = e.1) (.ite (fun hne => ?_) fun heq => ?_) ?_
    · obtain ⟨m, hm⟩ := hrows e List.mem_cons_self
      refine succeeds_memberMut hm ⟨fun a => State.stands_modMember, fun b => ?_⟩
      rw [State.listing_modMember_of_row
        (g := fun l => { l with supporters := l.supporters.insert supporter }) (fun _ => rfl) hm]
      split
      · next hb =>
        subst hb
        refine ⟨rfl, rfl, fun a => ?_⟩
        rw [Std.ExtTreeSet.mem_insert, Std.compare_eq_iff_eq]
        simp only [hne, ne_eq, not_false_eq_true, and_true]
        tauto
      · next hb => exact ⟨rfl, rfl, fun a => by simp [Ne.symm hb]⟩
    · have he : e.1 = supporter := not_not.1 heq
      refine .pure ⟨fun _ => Iff.rfl, fun b => ⟨rfl, rfl, fun a => ?_⟩⟩
      rw [he]
      tauto
    · rintro - s' ⟨hstands, hlisting⟩
      refine (ih fun x hx => (hstands _).2 (hrest x hx)).weaken fun _ s'' h => ?_
      obtain ⟨hstands', hlisting'⟩ := h
      refine ⟨fun a => (hstands' a).trans (hstands a), fun b => ?_⟩
      obtain ⟨hl, ha, hs⟩ := hlisting b
      obtain ⟨hl', ha', hs'⟩ := hlisting' b
      refine ⟨hl'.trans hl, ha'.trans ha, fun a => ?_⟩
      rw [hs', hs, List.map_cons, List.mem_cons]
      tauto

theorem listed_writes {s : State} {supporter : MemberId} {self : Member}
    (hself : s.members[supporter]? = some self) {entries : List (MemberId × F64)}
    (hrows : ∀ e ∈ entries, s.Stands e.1) :
    Op.Succeeds (do
      Op.write fun s =>
        (self.beneficiaries.toList.map Prod.fst).foldl (fun s b =>
          if b = supporter then s
          else s.modMember b fun bm => { bm with supportersOf := bm.supportersOf.erase supporter }) s
      entries.forM fun e =>
        if e.1 ≠ supporter then
          memberMut e.1 fun bm => { bm with supportersOf := bm.supportersOf.insert supporter }
        else pure ()
      memberMut supporter fun m =>
        { m with
          beneficiaries := entries.foldl (fun list e =>
            list.insert e.1 (OrdMap.getD' list e.1 (F64.zero false) + e.2)) ∅ }) s
      fun _ s' => Listed supporter entries s.listing s'.listing := by
  let erased : Listing → Listing := fun l => { l with supporters := l.supporters.erase supporter }
  let f : Member → Member := fun bm => { bm with supportersOf := bm.supportersOf.erase supporter }
  let kept := (self.beneficiaries.toList.map Prod.fst).filter fun b => !decide (b = supporter)
  let s₁ := kept.foldl (fun s b => s.modMember b f) s
  have hwritten : (self.beneficiaries.toList.map Prod.fst).foldl (fun s b =>
      if b = supporter then s else s.modMember b f) s = s₁ := by
    simp only [s₁, kept, List.foldl_filter, Bool.not_eq_true', decide_eq_false_iff_not, ite_not]
  have htwice : ∀ l, erased (erased l) = erased l := fun l => by
    refine Listing.ext rfl (Std.ExtTreeSet.ext_mem fun a => ?_) rfl
    simp only [erased, Listing.mem_erase_supporters]
    tauto
  have hlisting₁ : ∀ b, s₁.listing b = if b ∈ kept then erased (s.listing b) else s.listing b :=
    State.listing_foldl_modMember (fun _ => rfl) (by simp [erased]) htwice kept s
  have hstands₁ : ∀ (l : List MemberId) (t : State) (a : MemberId),
      (l.foldl (fun s b => s.modMember b f) t).Stands a ↔ t.Stands a := by
    intro l
    induction l with
    | nil => exact fun _ _ => Iff.rfl
    | cons b l ih => exact fun t a => (ih _ a).trans State.stands_modMember
  refine .bind_write ?_
  rw [hwritten]
  refine .bind (succeeds_record supporter entries fun e he => (hstands₁ _ _ _).2 (hrows e he)) ?_
  rintro - s₂ ⟨hstands₂, hlisting₂⟩
  obtain ⟨m₂, hm₂⟩ := (hstands₂ supporter).2 ((hstands₁ _ _ _).2 ⟨self, hself⟩)
  refine succeeds_memberMut hm₂ ?_
  have hkept : ∀ b, b ∈ kept ↔ b ≠ supporter ∧ b ∈ (s.listing supporter).lists := fun b => by
    rw [State.listing_of_row hself]
    simp [kept, Member.listing, and_comm]
  let news := entries.foldl (fun list e =>
    list.insert e.1 (OrdMap.getD' list e.1 (F64.zero false) + e.2)) (∅ : OrdMap MemberId F64)
  have hlast : ∀ b, (s₂.modMember supporter fun m => { m with beneficiaries := news }).listing b =
      if supporter = b then { s₂.listing b with lists := news } else s₂.listing b :=
    State.listing_modMember_of_row (g := fun l => { l with lists := news }) (fun _ => rfl) hm₂
  refine ⟨fun a b => ?_, fun a b => ?_, fun b => ?_⟩
  · rw [hlast]
    by_cases ha : a = supporter
    · subst ha
      simp only [if_true, news, mem_foldl_weights]
      simp
    · rw [if_neg (Ne.symm ha), if_neg ha, (hlisting₂ a).1, hlisting₁]
      split <;> rfl
  · have hsupporters : ∀ (l : Listing) x, a ∈ (if supporter = b then { l with lists := x } else l :
        Listing).supporters ↔ a ∈ l.supporters := fun l x => by split <;> rfl
    rw [hlast, hsupporters, (hlisting₂ b).2.2, hlisting₁]
    have := hkept b
    by_cases hb : b ∈ kept
    · rw [if_pos hb]
      simp only [erased, Listing.mem_erase_supporters]
      have hbs := this.1 hb
      by_cases ha : a = supporter
      · simp [ha, hbs.1, hbs.2]
      · simp [ha]
    · rw [if_neg hb]
      by_cases ha : a = supporter
      · subst ha
        by_cases hbs : b = a
        · simp [hbs]
        · have hnot : b ∉ (s.listing a).lists := fun h => hb (this.2 ⟨hbs, h⟩)
          simp only [hbs, hnot, ne_eq, not_false_eq_true, and_self, if_true, true_and, and_true]
          tauto
      · simp [ha]
  · rw [hlast]
    have happroved : (s₂.listing b).approved = (s.listing b).approved := by
      rw [(hlisting₂ b).2.1, hlisting₁]
      split <;> rfl
    split
    · exact happroved
    · exact happroved

theorem agree_listBeneficiaries {s : State} (hs : Listing.Agree s.listing) (supporter : MemberId)
    (entries : List (MemberId × F64)) (signers : List Key)
    (hdrops : DropsNoApproval supporter entries signers s) :
    Listing.Agree (Op.exec (listBeneficiaries supporter entries signers) s).2.listing := by
  refine Op.Triple.exec_snd (P := fun t => t = s) (J := fun t => Listing.Agree t.listing) ?_ rfl
  have hE : ∀ t, t = s → Listing.Agree t.listing := by
    rintro t rfl
    exact hs
  unfold listBeneficiaries
  refine .bind (Q := fun _ t => t = s ∧ requireActive s supporter = .ok ())
    (.check (fun t _ ht h => ⟨ht, ht ▸ h⟩) hE) fun _ => .of_fact fun hactive => ?_
  refine .bind (Q := fun _ t => t = s ∧ requireSigned s supporter signers = .ok ())
    (.check (fun t _ ht h => ⟨ht, ht ▸ h⟩) hE) fun _ => .of_fact fun hsigned => ?_
  refine .bind (Q := fun _ t => t = s ∧ ¬maxListed < entries.length)
    (.refuseIf (fun t ht h => ⟨ht, h⟩) fun t ht _ => hE t ht) fun _ => .of_fact fun hfew => ?_
  refine .bind (Op.Quiet.triple_forM (fun e _ => .bind (Op.quiet_refuseIf _ _) fun _ =>
    .bind (quiet_member _) fun _ => Op.quiet_pure _) hE) fun _ => ?_
  refine .bind (Q := fun self t => (t = s ∧ ∀ e ∈ entries, (e.2.isFinite ∧ ¬e.2 ≤ F64.zero false) ∧
    s.Stands e.1) ∧ s.members[supporter]? = some self) (triple_member (fun t self ht hself => ?_)
    fun t ht => hE t ht.1) fun self => .of_fact fun hself => .of_fact fun hentries => ?_
  · obtain ⟨rfl, hentries⟩ := ht
    refine ⟨⟨rfl, fun e he => ?_⟩, hself⟩
    obtain ⟨hweight, hrest⟩ := (hentries e he).of_refuseIf_bind
    obtain ⟨m, hm, -⟩ := hrest.of_check_bind
    exact ⟨by simpa [not_or] using hweight, m, findMember_eq_ok.1 hm⟩
  refine .of_succeeds ?_
  rintro t rfl
  refine (listed_writes hself fun e he => (hentries e he).2).weaken fun _ t' hlisted => ?_
  exact agree_listed hs hlisted (hdrops ⟨hactive, hsigned, not_lt.1 hfew,
    fun e he => (hentries e he).1, fun e he => (hentries e he).2⟩)

theorem agree_approveSupporter {s : State} (hs : Listing.Agree s.listing)
    (beneficiary supporter : MemberId) (approved : Bool) (signers : List Key) :
    Listing.Agree (Op.exec (approveSupporter beneficiary supporter approved signers) s).2.listing := by
  refine Op.Triple.exec_snd (P := fun t => t = s) (J := fun t => Listing.Agree t.listing) ?_ rfl
  have hE : ∀ t, t = s → Listing.Agree t.listing := by
    rintro t rfl
    exact hs
  -- Only the approvals of the beneficiary's row are written.
  have hwrite : ∀ {m : Member} {f : Member → Member} {g : Listing → Listing},
      s.members[beneficiary]? = some m → (∀ m, (f m).listing = g m.listing) →
      (∀ l, (g l).lists = l.lists ∧ (g l).supporters = l.supporters) →
      (∀ a, a ∈ (g (s.listing beneficiary)).approved → a ∈ (s.listing beneficiary).supporters) →
      Listing.Agree (s.modMember beneficiary f).listing := by
    intro m f g hm hf hsame happroved
    have hlisting := State.listing_modMember_of_row hf hm
    have hlists : ∀ a, ((s.modMember beneficiary f).listing a).lists = (s.listing a).lists := fun a => by
      rw [hlisting]
      split
      · exact (hsame _).1
      · rfl
    have hsupporters : ∀ a,
        ((s.modMember beneficiary f).listing a).supporters = (s.listing a).supporters := fun a => by
      rw [hlisting]
      split
      · exact (hsame _).2
      · rfl
    refine ⟨fun a b => by rw [hlists, hsupporters, hs.both], fun a b hab => ?_⟩
    rw [hsupporters]
    rw [hlisting] at hab
    split at hab
    · next heq =>
      subst heq
      exact happroved a hab
    · exact hs.approved a b hab
  unfold approveSupporter
  refine .bind_quiet (Op.quiet_check _) hE fun _ => .ite (fun _ => ?_) fun _ => ?_
  · refine .bind (triple_member (Q := fun m t => t = s ∧ s.members[beneficiary]? = some m)
      (fun t m ht hm => ⟨ht, ht ▸ hm⟩) hE) fun m => .of_fact fun hm => ?_
    refine .bind (Q := fun _ t => t = s ∧ ¬¬m.supportersOf.contains supporter)
      (.refuseIf (fun t ht h => ⟨ht, h⟩) fun t ht _ => hE t ht) fun _ => .of_fact fun hlisted => ?_
    refine triple_memberMut (fun t _ ht _ => ?_) hE
    subst ht
    refine hwrite (g := fun l => { l with approved := l.approved.insert supporter }) hm
      (fun _ => rfl) (fun _ => ⟨rfl, rfl⟩) fun a ha => ?_
    rw [Std.ExtTreeSet.mem_insert, Std.compare_eq_iff_eq] at ha
    rcases ha with rfl | ha
    · rw [State.listing_of_row hm]
      exact Std.ExtTreeSet.mem_iff_contains.2 (not_not.1 hlisted)
    · exact hs.approved a _ ha
  · refine triple_memberMut (fun t m ht hm => ?_) hE
    subst ht
    refine hwrite (g := fun l => { l with approved := l.approved.erase supporter }) hm
      (fun _ => rfl) (fun _ => ⟨rfl, rfl⟩) fun a ha => ?_
    exact hs.approved a _ (Listing.mem_erase_supporters.1 ha).2

/-! ### Runs -/

theorem listing_books (m : Member) : m.offBooks.listing = m.listing := rfl

theorem listing_charges : IgnoresCharges Member.listing := ⟨fun _ _ _ _ _ _ => rfl⟩

section Dispatch

variable [Libm]

/-- May the transaction withdraw a listing and leave the approval? -/
def KeepsApprovals (tx : Tx) (signers : List Key) (s : State) : Prop :=
  match tx with
  | .listBeneficiaries supporter entries => DropsNoApproval supporter entries signers s
  | _ => True

omit [Libm] in
/-- What the bond gate writes matters to no listing. -/
theorem mayList_of_sameView {s s' : State}
    (h : SameView (fun m : Member => (m.status, m.keys)) s s') {supporter : MemberId}
    {entries : List (MemberId × F64)} {signers : List Key}
    (hmay : MayList supporter entries signers s') : MayList supporter entries signers s := by
  have hrow : ∀ {id : MemberId} {m' : Member}, s'.members[id]? = some m' →
      ∃ m, s.members[id]? = some m ∧ m'.status = m.status ∧ m'.keys = m.keys := by
    intro id m' hm'
    obtain ⟨m, hm, hview⟩ := h.rowsLeft.rows id m' hm'
    exact ⟨m, hm, congrArg Prod.fst hview, congrArg Prod.snd hview⟩
  refine ⟨?_, ?_, hmay.few, hmay.weights, fun e he => ?_⟩
  · have hactive := hmay.active
    unfold requireActive at hactive ⊢
    cases hm' : findMember s' supporter with
    | error e => rw [hm'] at hactive; cases hactive
    | ok m' =>
      obtain ⟨m, hm, hstatus, -⟩ := hrow (findMember_eq_ok.1 hm')
      rw [hm'] at hactive
      rw [findMember_eq_ok.2 hm]
      simpa only [hstatus] using hactive
  · have hsigned := hmay.signed
    unfold requireSigned at hsigned ⊢
    cases hm' : findMember s' supporter with
    | error e => rw [hm'] at hsigned; cases hsigned
    | ok m' =>
      obtain ⟨m, hm, -, hkeys⟩ := hrow (findMember_eq_ok.1 hm')
      rw [hm'] at hsigned
      rw [findMember_eq_ok.2 hm]
      have hsame : ∀ k, m'.hasKey k = m.hasKey k := fun k => by rw [Member.hasKey, hkeys]; rfl
      simpa only [hsame] using hsigned
  · obtain ⟨m', hm'⟩ := hmay.rows e he
    obtain ⟨m, hm, -⟩ := hrow hm'
    exact ⟨m, hm⟩

theorem agree_dispatch {s : State} (hs : Listing.Agree s.listing) (hissued : s.Issued) (tx : Tx)
    (signers : List Key) (sponsor : Option MemberId) (hkeeps : KeepsApprovals tx signers s) :
    Listing.Agree (Op.exec (dispatch tx signers sponsor) s).2.listing := by
  have of_rows : ∀ {op : Tr Unit}, Op.Moves (KeepsRows Member.listing) op →
      Listing.Agree (Op.exec op s).2.listing := fun h => by
    rw [State.listing_eq_of_rowsKept (h s hissued)]
    exact hs
  have of_view : ∀ {op : Tr Unit}, KeepsView Member.listing op →
      Listing.Agree (Op.exec op s).2.listing := fun h => of_rows h.keepsRows
  have of_books : ∀ {op : Tr Unit}, Bookkeeping op → Listing.Agree (Op.exec op s).2.listing :=
    fun h => of_view (.of_bookkeeping listing_books h)
  have books : ∀ {α : Type} {op : Tr α}, Bookkeeping op → Op.Moves (KeepsRows Member.listing) op :=
    fun h => (KeepsView.of_bookkeeping listing_books h).keepsRows
  cases tx with
  | listBeneficiaries supporter entries => exact agree_listBeneficiaries hs _ _ _ hkeeps
  | approveSupporter => exact agree_approveSupporter hs _ _ _ _
  | exit => exact agree_exit hs _ _
  | accept =>
    refine of_rows ?_
    show Op.Moves _ (accept _ _ _ _ _ _ _)
    unfold accept
    exact .bind (quiet_acceptTerms _ _ _ _ _ _).moves fun _ => .bind (keepsRows_seatPair _ _ _)
      fun _ => .bind (books (bookkeeping_book _ _ _ _ _)) fun _ => .pure _
  | sale =>
    refine of_rows ?_
    show Op.Moves _ (Cascade.sale _ _ _ _ _ _)
    unfold Cascade.sale
    exact .bind (quiet_saleTerms _ _ _ _ _).moves fun _ => .bind (keepsRows_seatPair _ _ _)
      fun _ => .bind (books (bookkeeping_netMutual _ _ _)) fun _ => .ite (fun _ => .pure _)
      fun _ => .bind (.ask _) fun _ => books (Cascade.bookkeeping_originate _ _ _ _)
  | transfer => exact of_books (bookkeeping_transfer _ _ _)
  | settle => exact of_books (bookkeeping_repayment _ _ _ _ _ _)
  | extend => exact of_books (bookkeeping_extend _ _ _)
  | markExpired => exact of_books (bookkeeping_markExpired _)
  | cure => exact of_books (bookkeeping_repayment _ _ _ _ _ _)
  | arbAttest => exact of_books (bookkeeping_arbAttest _ _ _ _)
  | registerGuardians =>
    exact of_view (keepsView_registerGuardians _ _ _ _ _ fun _ _ => rfl)
  | rotateRequest => exact of_view (keepsView_rotateRequest _ _ _ fun _ _ => rfl)
  | rotateVeto => exact of_view (keepsView_rotateVeto _ _ fun _ _ => rfl)
  | rotateFinalize => exact of_view (keepsView_rotateFinalize _ fun _ _ => rfl)
  | setConsensusKey => exact of_view (keepsView_setConsensusKey _ _ _ fun _ _ => rfl)
  | declareSupply => exact of_view (keepsView_declareSupply _ _ _)
  | propose => exact of_view (keepsView_propose _ _ _)
  | assent =>
    exact of_view (keepsView_assent listing_books _ _ _ ⟨fun _ _ => rfl, fun _ _ _ => rfl⟩)
  | forfeitBonds => exact of_view (keepsView_forfeitBonds _ fun _ _ => rfl)

end Dispatch

end Apply

/-- Where ids are issued and listings agree, they do so still. -/
structure ListingsSound (s : State) : Prop where
  issued : s.Issued
  agree : Listing.Agree s.listing

theorem listingsSound_beginBlock {s : State} (hs : ListingsSound s) (nowSecs : Nat) :
    ListingsSound (s.beginBlock nowSecs) := by
  have hcharge : ∀ s s' : State, SameView Member.listing s s' → KeepsRows Member.listing s s' :=
    fun _ _ h => h.keeps
  obtain ⟨u, v, hu, hv, hend⟩ := beginBlock_ends (R := KeepsRows Member.listing)
    (fun _ _ h => hcharge _ _ (.of_offBooks Apply.listing_books h))
    (fun id => (Apply.keepsView_forfeitBonds id fun _ _ => rfl).keepsRows)
    (fun _ _ => hcharge _ _ (.of_eq rfl rfl))
    (fun s => hcharge _ _ (sameView_advanceEpoch Apply.listing_books Apply.listing_charges s))
    (fun s => hcharge _ _ (.mapMembers (f := fun _ m =>
      { m with bonds := m.bonds.filter fun k _ => decide (horizon s.epoch 1 ≤ k) })
      (fun _ _ => rfl) rfl rfl)) nowSecs s
  have hkept := hu hs.issued
  have hagree : Listing.Agree u.listing := by
    rw [State.listing_eq_of_rowsKept hkept]
    exact hs.agree
  have hretired : ListingsSound v := by
    rcases hv with rfl | rfl
    · exact ⟨hkept.issued, hagree⟩
    · have hretire : ∀ (l : List MemberId) (t : State), ListingsSound t →
          ListingsSound (l.foldl (fun t id => Apply.retireRow id t) t) := by
        intro l
        induction l with
        | nil => exact fun _ h => h
        | cons id l ih =>
          refine fun t ht => ih _ ⟨?_, Apply.agree_retireRow ht.agree id⟩
          have hbooks : IgnoresBooks fun _ : Member => () := ⟨fun _ => rfl, fun _ _ _ _ => rfl⟩
          exact (Apply.rowsLeft_retireRow hbooks id t).issued ht.issued
      exact hretire _ _ ⟨hkept.issued, hagree⟩
  have hlast := hend hretired.issued
  refine ⟨hlast.issued, ?_⟩
  rw [State.listing_eq_of_rowsKept hlast]
  exact hretired.agree

section Run

variable [Libm]

/-- An event leaves no approval behind whose listing it withdraws. -/
def Event.KeepsApprovals (e : Event) (s : State) : Prop :=
  match e with
  | .transaction tx _ _ signers nowSecs => Apply.KeepsApprovals tx signers (s.beginBlock nowSecs)
  | .block _ => True

theorem listingsSound_next {e : Event} {s : State} (hs : ListingsSound s)
    (hkeeps : e.KeepsApprovals s) : ListingsSound (e.next s) := by
  cases e with
  | block nowSecs => exact listingsSound_beginBlock hs nowSecs
  | transaction tx txId notAfterEpoch signers nowSecs =>
    refine ⟨issued_next _ hs.issued, ?_⟩
    have hopened := listingsSound_beginBlock hs nowSecs
    have hgated := Apply.keepsView_bondGate Apply.listing_charges tx signers (s.beginBlock nowSecs)
    have hgatedRows := hgated.keeps hopened.issued
    rcases Apply.exec_apply_cases tx txId notAfterEpoch signers nowSecs s with
      ⟨e, -, hrun⟩ | ⟨-, e, t, hgate, hrun⟩ |
      ⟨-, charged, sponsor, t, outcome, u, hgate, hdispatch, hrun⟩
    all_goals rw [Event.next_of_exec hrun]
    · exact hopened.agree
    · rw [hgate] at hgated
      rw [State.listing_eq_of_sameView hgated]
      exact hopened.agree
    · rw [hgate] at hgated hgatedRows
      dsimp only at hgated hgatedRows
      have hcharges : IgnoresCharges fun m : Member => (m.status, m.keys) :=
        ⟨fun _ _ _ _ _ _ => rfl⟩
      have hstanding := Apply.keepsView_bondGate hcharges tx signers (s.beginBlock nowSecs)
      rw [hgate] at hstanding
      have hlisting : (t.recordApplied txId notAfterEpoch).listing = (s.beginBlock nowSecs).listing :=
        State.listing_eq_of_sameView ⟨hgated.next, hgated.rows⟩
      have hready : Apply.KeepsApprovals tx signers (t.recordApplied txId notAfterEpoch) := by
        cases tx with
        | listBeneficiaries supporter entries =>
          intro hmay b hb
          rw [hlisting] at hb
          have hrows : SameView (fun m : Member => (m.status, m.keys)) (s.beginBlock nowSecs)
              (t.recordApplied txId notAfterEpoch) := ⟨hstanding.next, hstanding.rows⟩
          have hbefore := Apply.mayList_of_sameView hrows hmay
          exact hkeeps hbefore b hb
        | _ => trivial
      have hissued : (t.recordApplied txId notAfterEpoch).Issued := hgatedRows.issued
      have hdispatched := Apply.agree_dispatch (hlisting ▸ hopened.agree) hissued tx signers sponsor
        hready
      rw [hdispatch] at hdispatched
      rw [State.listing_eq_of_sameView (Apply.sameView_settleOutcome Apply.listing_charges tx txId
        notAfterEpoch signers charged outcome u)]
      exact hdispatched

/-- **Listings and approvals agree** in every run whose listings drop nobody that has
approved them. -/
theorem agree_of_reaches {s : State}
    (hrun : Reaches Event.next Founding (fun e s => e.KeepsApprovals s) s) :
    Listing.Agree s.listing := by
  have hsound : ListingsSound s := by
    refine hrun.invariant (I := ListingsSound) ?_ fun e s hs hkeeps => listingsSound_next hs hkeeps
    rintro s ⟨g, hg⟩
    refine genesisState_keeps (I := ListingsSound) (fun _ _ _ => ?_) (fun _ _ t t' ht hentry => ?_) hg
    · refine ⟨fun id _ => by simp, fun a b => ?_, fun a b hab => ?_⟩
      · simp [State.listing]
      · simp [State.listing] at hab
    · have hview : ∀ (m : Member) k, Member.listing { m with consensusKey := k } = m.listing :=
        fun _ _ => rfl
      have hkept := keepsRows_seatEntry hview hentry ht.issued
      refine ⟨hkept.issued, ?_⟩
      rw [State.listing_eq_of_rowsKept hkept]
      exact ht.agree
  exact hsound.agree

end Run

theorem founding_twoSupplies : Founding (devGenesis [1000, 1000]).state :=
  Genesis.founding_state (by decide +kernel)

/-- The first member lists the second and is approved. -/
def approvedEvents : List Event :=
  [.transaction (.listBeneficiaries 0 [(1, F64.ofNat 1)]) 0 0 [founderKey 0] 10,
    .transaction (.approveSupporter 1 0 true) 1 0 [founderKey 1] 10]

/-- A listing is made and approved. -/
theorem agree_of_approved :
    letI := Libm.unused
    let s := approvedEvents.foldl (fun s e => e.next s) (devGenesis [1000, 1000]).state
    s.members[(1 : MemberId)]?.map (fun m => m.approvedSupporters.toList) = some [0] ∧
      Listing.Agree s.listing := by
  let _ : Libm := Libm.unused
  refine ⟨by decide +kernel,
    agree_of_reaches (.of_list (.start founding_twoSupplies) _ ⟨?_, trivial, trivial⟩)⟩
  · -- Nobody has approved anybody when the block opens.
    intro _ b hb
    obtain ⟨g, hg⟩ := founding_twoSupplies
    have hfounded : ListingsSound (devGenesis [1000, 1000]).state :=
      ⟨issued_of_genesis hg, agree_of_reaches (.start founding_twoSupplies)⟩
    have hopened := (listingsSound_beginBlock hfounded 10).agree
    have hnone : ¬b ∈ (((devGenesis [1000, 1000]).state.beginBlock 10).listing 0).lists := by
      have hempty : (((devGenesis [1000, 1000]).state.beginBlock 10).listing 0).lists.isEmpty = true := by
        decide +kernel
      simp [Std.ExtTreeMap.isEmpty_iff.1 hempty]
    exact absurd (hopened.lists hb) hnone

/-- The first member then withdraws its listing, and is approved still. -/
def withdrawnEvents : List Event :=
  [.transaction (.listBeneficiaries 0 [(1, F64.ofNat 1)]) 0 0 [founderKey 0] 10,
    .transaction (.approveSupporter 1 0 true) 1 0 [founderKey 1] 10,
    .transaction (.listBeneficiaries 0 []) 2 0 [founderKey 0] 10]

/-- Somebody is approved that no longer lists the member that approved it. -/
theorem stale_approval :
    letI := Libm.unused
    ∃ s, Reaches Event.next Founding (fun _ _ => True) s ∧ ¬Listing.Agree s.listing := by
  let _ : Libm := Libm.unused
  refine ⟨withdrawnEvents.foldl (fun s e => e.next s) (devGenesis [1000, 1000]).state,
    .of_list (.start founding_twoSupplies) withdrawnEvents ⟨trivial, trivial, trivial, trivial⟩,
    fun hagree => ?_⟩
  have happroved : (0 : MemberId) ∈ ((withdrawnEvents.foldl (fun s e => e.next s)
      (devGenesis [1000, 1000]).state).listing 1).approved := by decide +kernel
  have hlists : (1 : MemberId) ∉ ((withdrawnEvents.foldl (fun s e => e.next s)
      (devGenesis [1000, 1000]).state).listing 0).lists := by decide +kernel
  exact hlists (hagree.lists happroved)

end Edet
