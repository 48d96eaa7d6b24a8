import Edet.StateRoot.Patching

/-!
# A refresh from one state to another

`Mirrors C c s` says that a cache holds the trees of a state: then it answers the state's
root, and proves what `prove` proves (`Mirrors.root`, `Mirrors.prove`). A cold cache is
built to mirror the state (`succeeds_fullBuild`); a warm one that mirrors `s₀` is brought
to `s`, provided that what it is told of each section leaves out no value that differs
(`Patch.Covers`, `succeeds_refresh_warm`).

The section is the unit of the argument: whichever of the three ways the code takes, the
tree of the section is in the end the one built from the leaves of `s`
(`succeeds_refreshSection`), and the other sections are untouched.
-/

namespace Edet.StateRoot

variable {D : Type} [Digest D] {C : Codec} {s s₀ : State}

/-! ### Kept trees -/

theorem leavesRoot_levels (l : List D) :
    leavesRoot (PromotionTree.levels innerHash l) = (merkle l none).1 := by
  rw [leavesRoot, PromotionTree.topOf_levels]
  cases l with
  | nil => rw [PromotionTree.rootOf_nil, merkle]; rfl
  | cons a l => rw [merkle_fst (List.cons_ne_nil a l) none]; rfl

theorem root_built (sec : Section) (leaves : Leaves D) :
    (SectionTree.built sec leaves).root =
      sectionHash sec (UInt64.ofNat leaves.length) (merkle (hashes leaves) none).1 := by
  rw [← leavesRoot_levels]
  rfl

theorem path_built (sec : Section) {leaves : Leaves D} {i : Nat} (hi : i < leaves.length) :
    (SectionTree.built sec leaves).path i = (merkle (hashes leaves) (some i)).2 := by
  rw [merkle_snd (by rwa [hashes, List.length_map]), ← PromotionTree.siblingsOf_levels]
  rfl

/-- A section's tree as it was built, before a key was patched. -/
theorem Patching.start {sec : Section} {table : Nat → Option ByteVec} {ids : List Nat}
    {leaves : Leaves D} (h : Leafed s sec table ids leaves) :
    Patching s sec (hashes leaves) (PromotionTree.levels innerHash (hashes leaves)).tail table []
      (.built sec leaves) :=
  ⟨⟨ids, h⟩, PromotionTree.levels_eq_cons _ _, ⟨le_rfl, fun _ _ => .inr rfl⟩⟩

/-- **Folding up again is building again**, after a patch that came to its end. -/
theorem Patching.refold [Inhabited D] {sec : Section} {old : List D}
    {table : Nat → Option ByteVec} {dirty : List Nat} {tree : SectionTree D}
    (h : Patching s sec old (PromotionTree.levels innerHash old).tail table dirty tree) :
    tree.refold sec dirty = .built sec tree.leaves := by
  have hlevels : PromotionTree.refold innerHash default (tree.levels.headD []) tree.levels.tail
      dirty = PromotionTree.levels innerHash (hashes tree.leaves) := by
    rw [h.levels]
    exact PromotionTree.refold_levels default h.named
  rw [SectionTree.refold, hlevels]
  rfl

/-! ### One section -/

namespace RootCache

omit [Digest D]

@[simp] theorem sections_setTree (sec : Section) (tree : SectionTree D) (c : RootCache D) :
    (c.setTree sec tree).sections sec = tree := Function.update_self ..

@[simp] theorem setTree_setTree (sec : Section) (tree tree' : SectionTree D) (c : RootCache D) :
    (c.setTree sec tree).setTree sec tree' = c.setTree sec tree' := by
  simp only [setTree, Function.update_idem]

theorem setTree_sections (sec : Section) (c : RootCache D) :
    c.setTree sec (c.sections sec) = c := by
  rw [setTree, Function.update_eq_self]

end RootCache

theorem succeeds_rebuild {sec : Section} {leaves : Leaves D}
    (h : sectionLeaves C s sec = .ok leaves) (c : RootCache D) :
    Op.Succeeds (rebuild C s sec) c fun _ c' => c' = c.setTree sec (.built sec leaves) :=
  .bind_check h (.write rfl)

/-- A patch that comes to its end has built the tree of the new table; one that is given up
has touched no other section. -/
theorem succeeds_patch [Inhabited D] (fits : Fits s) (encodes : Encodes C s) {sec : Section}
    (hsec : sec ≠ .ledger) {table : Nat → Option ByteVec} {ids : List Nat}
    {leaves₀ leaves : Leaves D} (h₀ : Leafed s sec table ids leaves₀)
    (h : sectionLeaves C s sec = .ok leaves) {keys : List Nat} (hkeys : ∀ id ∈ keys, id < 2 ^ 64)
    (hoff : ∀ id < 2 ^ 64, id ∉ keys → valueOf C s sec id = table id) {c : RootCache D}
    (hc : c.sections sec = .built sec leaves₀) :
    Op.Succeeds (patch C s sec (keys.map idKey)) c fun patched c' =>
      ∃ tree, c' = c.setTree sec tree ∧ (patched = true → tree = .built sec leaves) := by
  obtain ⟨out, tree, hrun, hout⟩ :=
    succeeds_patchKeys fits encodes hsec keys hkeys (Patching.start h₀)
  rw [← hc] at hrun
  rw [patch]
  refine .bind_draw ?_
  simp only [hrun]
  refine .bind_check rfl ?_
  cases out with
  | none => exact .pure ⟨tree, rfl, fun hfalse => nomatch hfalse⟩
  | some dirty =>
    refine .bind_write (.pure ⟨_, RootCache.setTree_setTree _ _ _ _, fun _ => ?_⟩)
    rw [RootCache.sections_setTree, (hout dirty rfl).refold]
    -- the patched table is the state's, so the leaves are the state's
    obtain ⟨ids', hpatched⟩ := (hout dirty rfl).leafed
    have htable : ∀ id < 2 ^ 64,
        valueOf C s sec id = if id ∈ keys then valueOf C s sec id else table id := by
      intro id hid
      split
      · rfl
      · next hmem => exact hoff id hid hmem
    rw [(hpatched.congr rfl rfl htable).unique (leafed_sectionLeaves fits hsec h)]

/-- What is left out of a patch has the value it had. -/
def Patch.Covers (C : Codec) (s₀ s : State) (sec : Section) : Patch → Prop
  | .clean => ∀ id < 2 ^ 64, valueOf C s sec id = valueOf C s₀ sec id
  | .keys ks => ∃ ids : List Nat, ks = ids.map idKey ∧ (∀ id ∈ ids, id < 2 ^ 64) ∧
      ∀ id < 2 ^ 64, id ∉ ids → valueOf C s sec id = valueOf C s₀ sec id
  | .all => True

/-- Two states of one epoch, both of which can be hashed. -/
structure Neighbours (C : Codec) (s₀ s : State) : Prop where
  epoch : s.epoch = s₀.epoch
  salt : s.rootSalt = s₀.rootSalt
  fits₀ : Fits s₀
  fits : Fits s
  encodes : Encodes C s

/-- **One section is brought to the state**, and no other is touched. -/
theorem succeeds_refreshSection [Inhabited D] (n : Neighbours C s₀ s) {patches : Section → Patch}
    {sec : Section}
    (hcovers : sec ≠ .validators → sec ≠ .ledger → (patches sec).Covers C s₀ s sec)
    {leaves₀ leaves : Leaves D} (h₀ : sectionLeaves C s₀ sec = .ok leaves₀)
    (h : sectionLeaves C s sec = .ok leaves) {c : RootCache D}
    (hc : c.sections sec = .built sec leaves₀) :
    Op.Succeeds (refreshSection C s patches sec) c fun _ c' =>
      c' = c.setTree sec (.built sec leaves) := by
  rw [refreshSection]
  refine .ite (fun _ => succeeds_rebuild h c) fun hsec => ?_
  obtain ⟨hvalidators, hledger⟩ := not_or.1 hsec
  have hpatch := hcovers hvalidators hledger
  have hleafed₀ := (leafed_sectionLeaves n.fits₀ hledger h₀).congr n.epoch n.salt fun _ _ => rfl
  cases hp : patches sec with
  | all => exact succeeds_rebuild h c
  | clean =>
    rw [hp] at hpatch
    refine .pure ?_
    rw [((hleafed₀.congr rfl rfl hpatch).unique (leafed_sectionLeaves n.fits hledger h)).symm, ← hc,
      RootCache.setTree_sections]
  | keys keys =>
    rw [hp] at hpatch
    obtain ⟨ids, rfl, hids, hoff⟩ := hpatch
    refine (succeeds_patch n.fits n.encodes hledger hleafed₀ h hids hoff hc).bind
      fun patched c' hc' => ?_
    obtain ⟨tree, rfl, htree⟩ := hc'
    refine .ite (fun hyes => .pure (by rw [htree hyes])) fun _ => ?_
    refine (succeeds_rebuild h _).weaken fun _ c'' hc'' => ?_
    rw [hc'', RootCache.setTree_setTree]

/-! ### All sections -/

/-- The cache holds the trees of a state. -/
def Mirrors (C : Codec) (c : RootCache D) (s : State) : Prop :=
  ∃ built : Sections D, sections C s = .ok built ∧
    (c.sections = fun sec => .built sec (built.get sec)) ∧ c.ledgerValue = built.ledgerValue

theorem sectionRoots_of_built {c : RootCache D} {built : Sections D}
    (h : c.sections = fun sec => .built sec (built.get sec)) :
    c.sectionRoots = sectionRoots built := by
  refine List.map_congr_left fun sec _ => ?_
  rw [h]
  exact root_built sec (built.get sec)

/-- **The root of a cache that mirrors a state is the state's.** -/
theorem Mirrors.root {c : RootCache D} (h : Mirrors C c s) :
    stateRoot C s = .ok (merkle c.sectionRoots none).1 := by
  obtain ⟨built, hbuilt, htrees, -⟩ := h
  rw [stateRoot, hbuilt, sectionRoots_of_built htrees]
  rfl

/-- The key of a ledger leaf is the empty one. -/
theorem eq_emptyKey_of_ledger {built : Sections D} (h : sections C s = .ok built) {i : Nat}
    {key : ByteVec} (hi : (built.get .ledger).findIdx? (fun e => e.1 = key) = some i) :
    key = emptyKey := by
  have hkeys : (built.get .ledger).map Prod.fst = [emptyKey] := ((sections_ok h).1 .ledger).keys
  obtain ⟨hlt, hkey, -⟩ := List.findIdx?_eq_some_iff_getElem.1 hi
  have hmem : (built.get .ledger)[i].1 ∈ (built.get .ledger).map Prod.fst :=
    List.mem_map_of_mem (List.getElem_mem hlt)
  rw [hkeys, List.mem_singleton] at hmem
  rw [← hmem]
  exact (of_decide_eq_true hkey).symm

/-- **A cache that mirrors a state proves what the definition proves.** -/
theorem Mirrors.prove {c : RootCache D} (h : Mirrors C c s) (hwarm : c.marker.isSome)
    (sec : Section) (key : ByteVec) : c.prove C s sec key = prove C s sec key := by
  obtain ⟨built, hbuilt, htrees, hvalue⟩ := h
  have hmarker : c.marker.isNone = false := by
    rw [← Option.not_isSome, hwarm]
    rfl
  have hleaves : (c.sections sec).leaves = built.get sec := by rw [htrees]; rfl
  rw [RootCache.prove, StateRoot.prove, hbuilt, hmarker, sectionRoots_of_built htrees]
  simp only [hleaves, search, Bool.false_eq_true, if_false, bind, Except.bind, pure, Except.pure]
  cases hfind : (built.get sec).findIdx? (fun e => e.1 = key) with
  | none => rfl
  | some i =>
    have hi := (List.findIdx?_eq_some_iff_getElem.1 hfind).1
    have hpath : (c.sections sec).path i = (merkle (hashes (built.get sec)) (some i)).2 := by
      rw [htrees]
      exact path_built sec hi
    by_cases hsec : sec = .ledger
    · subst hsec
      obtain rfl := eq_emptyKey_of_ledger hbuilt hfind
      simp only [leafValue, if_true, hvalue, hpath]
      rfl
    · simp only [leafValue, if_neg hsec, hpath]
      cases recordValue C s sec key with
      | error e => rfl
      | ok value => cases value <;> rfl

/-- Build everything: the cache mirrors the state. -/
theorem succeeds_fullBuild (encodes : Encodes C s) (hwindow : checkReplayWindow s = .ok ())
    (c : RootCache D) : Op.Succeeds (fullBuild C s) c fun root c' =>
      root = (merkle c'.sectionRoots none).1 ∧ c'.marker = some (saltMarker s) ∧
        Mirrors C c' s := by
  obtain ⟨built, hbuilt⟩ := exists_sections (D := D) encodes hwindow
  exact .bind_check hbuilt (.bind_write (.bind_write (.ask ⟨rfl, rfl, built, hbuilt, rfl, rfl⟩)))

/-- The sections of a list are brought to the state, the others stay as they are. -/
theorem succeeds_refreshSections [Inhabited D] (n : Neighbours C s₀ s) {patches : Section → Patch}
    (hcovers : ∀ sec, sec ≠ .validators → sec ≠ .ledger → (patches sec).Covers C s₀ s sec)
    {built₀ built : Sections D} (h₀ : sections C s₀ = .ok built₀) (h : sections C s = .ok built)
    (secs : List Section) (hnodup : secs.Nodup) {c : RootCache D}
    (hc : ∀ sec ∈ secs, c.sections sec = .built sec (built₀.get sec)) :
    Op.Succeeds (secs.forM (refreshSection C s patches)) c fun _ c' =>
      c'.marker = c.marker ∧ ∀ sec, c'.sections sec =
        if sec ∈ secs then .built sec (built.get sec) else c.sections sec := by
  induction secs generalizing c with
  | nil => exact .pure ⟨rfl, fun _ => rfl⟩
  | cons sec secs ih =>
    obtain ⟨hnot, hnodup⟩ := List.nodup_cons.1 hnodup
    show Op.Succeeds (refreshSection C s patches sec >>= fun _ => secs.forM _) c _
    refine (succeeds_refreshSection n (hcovers sec) (sectionLeaves_of_sections h₀ sec)
      (sectionLeaves_of_sections h sec) (hc sec List.mem_cons_self)).bind fun _ c' hc' => ?_
    subst hc'
    have hother : ∀ t, t ≠ sec →
        (c.setTree sec (.built sec (built.get sec))).sections t = c.sections t :=
      fun t ht => Function.update_of_ne ht ..
    refine (ih hnodup fun t ht => ?_).weaken fun _ c'' h'' => ⟨h''.1, fun t => ?_⟩
    · rw [hother t (fun heq => hnot (heq ▸ ht))]
      exact hc t (List.mem_cons_of_mem _ ht)
    · rw [h''.2 t]
      by_cases ht : t = sec
      · subst ht
        rw [if_neg hnot, if_pos List.mem_cons_self, RootCache.sections_setTree]
      · simp only [hother t ht, List.mem_cons, ht, false_or]

/-- **A warm cache is brought to the state.** -/
theorem succeeds_refresh_warm [Inhabited D] {l : Ledger} (n : Neighbours C s₀ l.state)
    (hwindow : checkReplayWindow l.state = .ok ())
    (hcovers : ∀ sec, sec ≠ .validators → sec ≠ .ledger →
      (takePatches l.journals sec).Covers C s₀ l.state sec)
    {c : RootCache D} (hc : Mirrors C c s₀) (hmarker : c.marker = some (saltMarker l.state)) :
    Op.Succeeds (refresh C l) c fun root c' =>
      root = (merkle c'.sectionRoots none).1 ∧ c'.marker = some (saltMarker l.state) ∧
        Mirrors C c' l.state := by
  obtain ⟨built₀, hbuilt₀, htrees, -⟩ := hc
  obtain ⟨built, hbuilt⟩ := exists_sections (D := D) n.encodes hwindow
  obtain ⟨leaf, hleaf, hvalue⟩ := ledgerLeaf_of_sections hbuilt
  rw [refresh]
  refine .bind_ask (.ite (fun hcold => absurd hmarker hcold) fun _ => .bind_check hwindow ?_)
  refine (succeeds_refreshSections n hcovers hbuilt₀ hbuilt Section.all (by decide)
    fun sec _ => by rw [htrees]).bind fun _ c' hc' => ?_
  refine .bind_check hleaf (.bind_write (.bind_write (.ask ⟨rfl, ?_, built, hbuilt, ?_, hvalue⟩)))
  · rw [← hmarker, ← hc'.1]
  · funext sec
    show c'.sections sec = _
    rw [hc'.2 sec, if_pos (List.mem_of_getElem? sec.getElem?_position)]

/-- A cold cache, or one of another epoch, is built again. -/
theorem succeeds_refresh_cold [Inhabited D] {l : Ledger} (encodes : Encodes C l.state)
    (hwindow : checkReplayWindow l.state = .ok ()) {c : RootCache D}
    (hmarker : c.marker ≠ some (saltMarker l.state)) :
    Op.Succeeds (refresh C l) c fun root c' =>
      root = (merkle c'.sectionRoots none).1 ∧ c'.marker = some (saltMarker l.state) ∧
        Mirrors C c' l.state := by
  rw [refresh]
  exact .bind_ask (.ite (fun _ => succeeds_fullBuild encodes hwindow c) fun h => absurd hmarker h)

end Edet.StateRoot
