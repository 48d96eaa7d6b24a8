import Edet.Ledger.Window
import Edet.StateRoot.Records
import Edet.StateRoot.Refreshing

/-!
# The incremental root is the root

A ledger runs with the cache of its root: events happen to it, and now and then the cache
is refreshed or discarded. Whatever the order, the root that a refresh answers is the root
of the state computed from nothing, and a proof from the refreshed cache is the
definition's (`refresh_eq_stateRoot`).

The invariant of a run is `Faithful`. Where the cache is warm, it mirrors some state `s₀`
of the epoch it is marked with, and the journals name every key whose row is not the one in
`s₀`. In the same epoch the journals cover what is patched (`covers_takePatches`): a leaf
is a function of the row under its id or, for a stake row, of the rows of its creditor.
-/

namespace Edet.StateRoot

variable {C : Codec} {s s₀ : State}

/-! ### What a leaf is made of -/

theorem valueOf_members {id : Nat} (hid : id < 2 ^ 64) (h : s.members[id]? = s₀.members[id]?) :
    valueOf C s .members id = valueOf C s₀ .members id := by
  simp only [valueOf, recordValue, keyId_idKey hid, h]

theorem valueOf_contracts {id : Nat} (hid : id < 2 ^ 64)
    (h : s.contracts[id]? = s₀.contracts[id]?) :
    valueOf C s .contracts id = valueOf C s₀ .contracts id := by
  simp only [valueOf, recordValue, keyId_idKey hid, h]

theorem valueOf_proposals {id : Nat} (hid : id < 2 ^ 64)
    (h : s.proposals[id]? = s₀.proposals[id]?) :
    valueOf C s .proposals id = valueOf C s₀ .proposals id := by
  simp only [valueOf, recordValue, keyId_idKey hid, h]

theorem valueOf_replay {id : Nat} (hid : id < 2 ^ 64) (hepoch : s.epoch = s₀.epoch)
    (h : s.appliedByExpiry[id]? = s₀.appliedByExpiry[id]?) :
    valueOf C s .replay id = valueOf C s₀ .replay id := by
  have hbucket : replayBucket s id = replayBucket s₀ id := by
    rw [replayBucket, replayBucket, Std.ExtTreeMap.getD_eq_getD_getElem?,
      Std.ExtTreeMap.getD_eq_getD_getElem?, h]
  simp only [valueOf, recordValue, keyId_idKey hid, hepoch, hbucket]

/-- The arcs of a creditor are those it has a row for. -/
theorem arcs_congr {m m' : OrdMap (Nat × Nat) Nat} {id : Nat}
    (h : ∀ x : Nat, m[(id, x)]? = m'[(id, x)]?) :
    m.toList.filter (fun a => a.1.1 = id) = m'.toList.filter fun a => a.1.1 = id := by
  have hfilter : m.filter (fun a _ => decide (a.1 = id)) = m'.filter fun a _ => a.1 = id := by
    refine Std.ExtTreeMap.ext_getElem? fun a => ?_
    rw [Std.ExtTreeMap.getElem?_filter', Std.ExtTreeMap.getElem?_filter']
    by_cases ha : a.1 = id
    · obtain ⟨c, x⟩ := a
      obtain rfl : c = id := ha
      rw [h x]
    · simp [ha]
  have hlist := congrArg Std.ExtTreeMap.toList hfilter
  rwa [Std.ExtTreeMap.toList_filter, Std.ExtTreeMap.toList_filter] at hlist

theorem anyArc_congr {m m' : OrdMap (Nat × Nat) Nat} {id : Nat}
    (h : ∀ x : Nat, m[(id, x)]? = m'[(id, x)]?) :
    m.keys.any (fun arc => arc.1 = id) = m'.keys.any fun arc => arc.1 = id := by
  have hany : ∀ m : OrdMap (Nat × Nat) Nat,
      m.keys.any (fun arc => decide (arc.1 = id)) = true ↔ ∃ x : Nat, (m[(id, x)]?).isSome := by
    intro m
    simp only [List.any_eq_true, Std.ExtTreeMap.mem_keys, decide_eq_true_eq]
    constructor
    · rintro ⟨⟨c, x⟩, hmem, rfl⟩
      exact ⟨x, Std.ExtTreeMap.mem_iff_isSome_getElem?.1 hmem⟩
    · rintro ⟨x, hx⟩
      exact ⟨(id, x), Std.ExtTreeMap.mem_iff_isSome_getElem?.2 hx, rfl⟩
  rw [Bool.eq_iff_iff, hany, hany]
  simp only [h]

/-- A stake row is made of its member and of the arcs of its creditor. -/
theorem valueOf_stakes {id : Nat} (hid : id < 2 ^ 64) (hmember : s.members[id]? = s₀.members[id]?)
    (hedges : ∀ x : Nat, s.edges[(id, x)]? = s₀.edges[(id, x)]?)
    (hreserved : ∀ x : Nat, s.reserved[(id, x)]? = s₀.reserved[(id, x)]?)
    (hseats : ∀ x : Nat, s.seatReserved[(id, x)]? = s₀.seatReserved[(id, x)]?) :
    valueOf C s .stakes id = valueOf C s₀ .stakes id := by
  have hholds : holdsAStakeRow s id = holdsAStakeRow s₀ id := by
    simp only [holdsAStakeRow, Std.ExtTreeMap.contains_eq_isSome_getElem?, hmember,
      anyArc_congr hedges, anyArc_congr hreserved, anyArc_congr hseats]
  have hrow : stakeRow s.edges s.reserved s.seatReserved id =
      stakeRow s₀.edges s₀.reserved s₀.seatReserved id := by
    simp only [stakeRow, arcs_congr hedges, arcs_congr hreserved, arcs_congr hseats]
  simp only [valueOf, recordValue, keyId_idKey hid, hholds, hrow]

/-! ### The journals cover the leaves -/

/-- An id is written as a word. -/
theorem idKey_mod (id : Nat) : idKey (id % 2 ^ 64) = idKey id := by
  have hwidth : 2 ^ 64 = 256 ^ 8 := by norm_num
  refine ByteVec.ext ?_
  simp only [idKey, be64, beBytes]
  rw [hwidth, leBytes_mod]

/-- A patch at the keys of some ids covers what is the same off them. -/
theorem covers_idKeys {sec : Section} {ids : OrdSet Nat}
    (h : ∀ id < 2 ^ 64, id ∉ ids → valueOf C s sec id = valueOf C s₀ sec id) :
    (Patch.keys (idKeys ids)).Covers C s₀ s sec := by
  refine ⟨ids.toList.map (· % 2 ^ 64), ?_, fun id hid => ?_, fun id hid hmem => h id hid ?_⟩
  · rw [idKeys, List.map_map]
    exact List.map_congr_left fun id _ => (idKey_mod id).symm
  · obtain ⟨a, -, rfl⟩ := List.mem_map.1 hid
    exact Nat.mod_lt _ (by norm_num)
  · intro hid'
    exact hmem (List.mem_map.2 ⟨id, Std.ExtTreeSet.mem_toList.2 hid', Nat.mod_eq_of_lt hid⟩)

/-- A journal of ids covers its section. -/
theorem covers_idsPatch {V : Type} {sec : Section} {d : Dirty Nat} {m₀ m : OrdMap Nat V}
    (h : d.Tracks m₀ m)
    (hvalue : ∀ id < 2 ^ 64, m[id]? = m₀[id]? → valueOf C s sec id = valueOf C s₀ sec id) :
    (idsPatch d).Covers C s₀ s sec := by
  cases d with
  | clean => exact fun id hid => hvalue id hid ((h id).resolve_right fun hfalse => hfalse)
  | keys ids => exact covers_idKeys fun id hid hmem => hvalue id hid ((h id).resolve_right hmem)
  | all => trivial

/-- Off the accounts that a journal names, its map is as it was. -/
theorem tracks_off_namedIds {κ V : Type} [Ord κ] [Std.TransOrd κ] [Std.LawfulEqOrd κ]
    {account : κ → Nat} {d : Dirty κ} {m₀ m : OrdMap κ V} (h : d.Tracks m₀ m) {ids : List Nat}
    (hids : namedIds account d = some ids) (key : κ) (hkey : account key ∉ ids) :
    m[key]? = m₀[key]? := by
  refine (h key).resolve_right fun hcovers => ?_
  cases d with
  | clean => exact hcovers
  | keys ks =>
    obtain rfl := Option.some.inj hids
    exact hkey (List.mem_map_of_mem (Std.ExtTreeSet.mem_toList.2 hcovers))
  | all => cases hids

/-- The four journals cover the stake rows. -/
theorem covers_stakesPatch {l : Ledger} (h : l.Tracks s₀) :
    (stakesPatch l.journals).Covers C s₀ l.state .stakes := by
  unfold stakesPatch
  split
  case h_2 => trivial
  case h_1 members edges reserved seatReserved hmembers hedges hreserved hseats =>
    -- an account that no journal names has the row it had
    have hsame : ∀ id < 2 ^ 64, id ∉ members ++ edges ++ reserved ++ seatReserved →
        valueOf C l.state .stakes id = valueOf C s₀ .stakes id := by
      intro id hid hmem
      simp only [List.mem_append, not_or] at hmem
      obtain ⟨⟨⟨hm, he⟩, hr⟩, hs⟩ := hmem
      exact valueOf_stakes hid (tracks_off_namedIds h.members hmembers id hm)
        (fun x => tracks_off_namedIds h.edges hedges (id, x) he)
        (fun x => tracks_off_namedIds h.reserved hreserved (id, x) hr)
        fun x => tracks_off_namedIds h.seatReserved hseats (id, x) hs
    have hmem : ∀ id, id ∈ (members ++ edges ++ reserved ++ seatReserved).foldl
        (fun ids id => ids.insert id) (∅ : OrdSet Nat) ↔
          id ∈ members ++ edges ++ reserved ++ seatReserved := by
      intro id
      rw [OrdSet.mem_foldl_insert]
      simp
    dsimp only
    split
    · next hempty =>
      refine fun id hid => hsame id hid fun hnamed => ?_
      rw [← hmem, Std.ExtTreeSet.isEmpty_iff.1 hempty] at hnamed
      exact Std.ExtTreeSet.not_mem_empty hnamed
    · exact covers_idKeys fun id hid hnamed => hsame id hid (mt (hmem id).2 hnamed)

/-- **Every leaf that has changed within an epoch is covered** by what the journals say. -/
theorem covers_takePatches {l : Ledger} (h : l.Tracks s₀) (hepoch : l.state.epoch = s₀.epoch)
    {sec : Section} (hvalidators : sec ≠ .validators) (hledger : sec ≠ .ledger) :
    (takePatches l.journals sec).Covers C s₀ l.state sec := by
  cases sec with
  | members => exact covers_idsPatch h.members fun id hid => valueOf_members hid
  | contracts => exact covers_idsPatch h.contracts fun id hid => valueOf_contracts hid
  | proposals => exact covers_idsPatch h.proposals fun id hid => valueOf_proposals hid
  | replay => exact covers_idsPatch h.appliedByExpiry fun id hid => valueOf_replay hid hepoch
  | stakes => exact covers_stakesPatch h
  | validators => exact absurd rfl hvalidators
  | ledger => exact absurd rfl hledger

/-! ### Runs -/

/-- A ledger whose buckets lie in their window has a replay section. -/
theorem checkReplayWindow_ok (h : s.InWindow) : checkReplayWindow s = .ok () := by
  have hbucket : ∀ e : Nat, e ∈ s.appliedByExpiry → s.epoch ≤ e ∧ e ≤ replayEnd s.epoch := by
    intro e he
    obtain ⟨ids, hids⟩ := Option.isSome_iff_exists.1 (Std.ExtTreeMap.mem_iff_isSome_getElem?.1 he)
    exact h e ids hids
  have hends : ∀ e ∈ [s.appliedByExpiry.minKey?, s.appliedByExpiry.maxKey?].filterMap id,
      e ∈ s.appliedByExpiry := by
    intro e he
    obtain ⟨o, ho, hoe⟩ := List.mem_filterMap.1 he
    obtain rfl : o = some e := hoe
    rcases List.mem_cons.1 ho with hmin | hmax
    · exact Std.ExtTreeMap.minKey?_mem hmin.symm
    · exact Std.ExtTreeMap.maxKey?_mem (List.mem_singleton.1 hmax).symm
  have hnone : ([s.appliedByExpiry.minKey?, s.appliedByExpiry.maxKey?].filterMap id).find?
      (fun e => decide (e < s.epoch ∨ replayEnd s.epoch < e)) = none := by
    refine List.find?_eq_none.2 fun e he hout => ?_
    obtain ⟨hlow, hhigh⟩ := hbucket e (hends e he)
    rcases of_decide_eq_true hout with hlt | hlt <;> omega
  unfold checkReplayWindow
  dsimp only
  rw [hnone]

/-- A founding ledger holds no capacity and no seat. -/
theorem reserved_of_genesis {g : Genesis} (h : genesisState g = .ok s) : s.Reserved := by
  obtain ⟨hcapacity, hseats⟩ : s.reserved = ∅ ∧ s.seatReserved = ∅ :=
    genesisState_keeps (I := fun s => s.reserved = ∅ ∧ s.seatReserved = ∅)
      (fun _ _ _ => ⟨rfl, rfl⟩)
      (fun _ _ _ _ hs hseat =>
        ⟨(unspent_seatEntry hseat).reserved.trans hs.1,
          (unspent_seatEntry hseat).seatReserved.trans hs.2⟩) h
  constructor
  · rw [hcapacity]
    rfl
  · rw [hseats]
    rfl

/-- The ids of a state are machine words, and its records encode. -/
structure Storable (C : Codec) (s : State) : Prop where
  fits : Fits s
  encodes : Encodes C s

variable {D : Type} [Digest D] [Inhabited D]

/-- What happens to a ledger with a cache: an event of the ledger, with the accesses it
comes to the data by; a refresh; or that the cache is discarded. -/
inductive Call
  | event (e : Event) (accesses : List Access)
  | refresh
  | discard

namespace Call

def next (C : Codec) : Call → Kept D → Kept D
  | .event _ accesses, k => { k with ledger := Access.runAll k.ledger accesses }
  | .refresh, k => (k.refresh C).2
  | .discard, k => k.discard

/-- The accesses of an event do what the event does, and what is refreshed can be stored. -/
def Allowed [Libm] (C : Codec) : Call → Kept D → Prop
  | .event e accesses, k =>
    (Access.runAll k.ledger accesses).state = e.next k.ledger.state
  | .refresh, k => Storable C k.ledger.state
  | .discard, _ => True

end Call

/-- A run starts at a genesis, with a cold cache. -/
def Kept.Cold (k : Kept D) : Prop := k.cache.marker = none ∧ Founding k.ledger.state

/-- **A cache is faithful to its ledger**: what it is warm with are the trees of a state
from which the journals have recorded every change. -/
structure Kept.Faithful (C : Codec) (k : Kept D) : Prop where
  window : k.ledger.state.InWindow
  reserved : k.ledger.state.Reserved
  warm : ∀ e, k.cache.marker = some e → ∃ s₀, saltMarker s₀ = e ∧ Fits s₀ ∧
    Mirrors C k.cache s₀ ∧ k.ledger.Tracks s₀

/-- **A refresh of a faithful cache** answers the root of its ledger, and leaves the cache a
mirror of it. -/
theorem Kept.Faithful.refresh {k : Kept D} (h : k.Faithful C) (hs : Storable C k.ledger.state) :
    Op.Succeeds (StateRoot.refresh C k.ledger) k.cache fun root c =>
      root = (merkle c.sectionRoots none).1 ∧ c.marker = some (saltMarker k.ledger.state) ∧
        Mirrors C c k.ledger.state := by
  have hwindow := checkReplayWindow_ok h.window
  by_cases hmarker : k.cache.marker = some (saltMarker k.ledger.state)
  · obtain ⟨s₀, hepoch, fits₀, hmirrors, htracks⟩ := h.warm _ hmarker
    have n : Neighbours C s₀ k.ledger.state :=
      ⟨hepoch.symm, htracks.rootSalt, fits₀, hs.fits, hs.encodes⟩
    exact succeeds_refresh_warm n hwindow (fun _ => covers_takePatches htracks n.epoch) hmirrors
      hmarker
  · exact succeeds_refresh_cold hs.encodes hwindow hmarker

/-- Every call keeps a cache faithful. -/
theorem faithful_next [Libm] {k : Kept D} (h : k.Faithful C) {call : Call}
    (ha : call.Allowed C k) : (call.next C k).Faithful C := by
  cases call with
  | event e accesses =>
    have hstate : (Access.runAll k.ledger accesses).state = e.next k.ledger.state := ha
    refine ⟨?_, ?_, fun e' he' => ?_⟩
    · show (Access.runAll k.ledger accesses).state.InWindow
      rw [hstate]
      exact inWindow_next e h.window
    · exact (Access.keeps_runAll accesses k.ledger.tracks_self h.reserved).2
    · obtain ⟨s₀, hepoch, fits₀, hmirrors, htracks⟩ := h.warm e' he'
      exact ⟨s₀, hepoch, fits₀, hmirrors, (Access.keeps_runAll accesses htracks h.reserved).1⟩
  | refresh =>
    have hs : Storable C k.ledger.state := ha
    obtain ⟨root, c, hrun, -, hmarker, hmirrors⟩ := h.refresh hs
    refine ⟨h.window, h.reserved, fun e he => ⟨k.ledger.state, ?_, hs.fits, ?_, ?_⟩⟩
    · have hcache : (Op.exec (StateRoot.refresh C k.ledger) k.cache).2.marker = some e := he
      rw [hrun, hmarker] at hcache
      exact Option.some.inj hcache
    · show Mirrors C (Op.exec (StateRoot.refresh C k.ledger) k.cache).2 k.ledger.state
      rw [hrun]
      exact hmirrors
    · exact k.ledger.tracks_drained
  | discard => exact ⟨h.window, h.reserved, fun e he => nomatch he⟩

/-- **The incremental root is the root.** After any run of events, refreshes and discards
from a genesis, a refresh answers the root of the ledger, and every proof from the
refreshed cache is the definition's. -/
theorem refresh_eq_stateRoot [Libm] {k : Kept D}
    (h : Reaches (Call.next C) Kept.Cold (Call.Allowed C) k) (hs : Storable C k.ledger.state) :
    ∃ root, (k.refresh C).1 = .ok root ∧ stateRoot C k.ledger.state = .ok root ∧
      ∀ sec key, (k.refresh C).2.cache.prove C k.ledger.state sec key =
        prove C k.ledger.state sec key := by
  have hfaithful : k.Faithful C := by
    refine h.invariant (I := Kept.Faithful C) (fun k hcold => ?_)
      fun call k hk ha => faithful_next hk ha
    obtain ⟨hmarker, g, hg⟩ := hcold
    exact ⟨inWindow_of_genesis hg, reserved_of_genesis hg, fun e he => by
      rw [hmarker] at he
      cases he⟩
  obtain ⟨root, c, hrun, rfl, hmarker, hmirrors⟩ := hfaithful.refresh hs
  have hout : k.refresh C =
      (.ok (merkle c.sectionRoots none).1, { cache := c, ledger := k.ledger.drained }) := by
    rw [Kept.refresh, hrun]
  rw [hout]
  exact ⟨_, rfl, hmirrors.root, fun sec key => hmirrors.prove (by rw [hmarker]; rfl) sec key⟩

/-! ### A chain of one founder -/

/-- A state is found storable by looking at every row. -/
theorem storable_of_rows (h : ∀ sec ∈ Section.all,
    (∀ id ∈ sectionIds s sec, id < 2 ^ 64) ∧ (sectionIds s sec).length < 2 ^ 64 ∧
      ∀ row ∈ rows C s sec, row.2.toOption.isSome) : Storable C s := by
  have hall : ∀ sec, sec ∈ Section.all := fun sec => List.mem_of_getElem? sec.getElem?_position
  refine ⟨⟨fun sec => (h sec (hall sec)).1, fun sec => (h sec (hall sec)).2.1⟩,
    fun sec row hrow => ?_⟩
  have hsome := (h sec (hall sec)).2.2 row hrow
  cases hvalue : row.2 with
  | ok value => exact ⟨value, rfl⟩
  | error e => rw [hvalue] at hsome; cases hsome

/-- The founder's chain, with a cold cache. -/
def soleFounder : Kept Bytes where
  cache := .cold
  ledger := { state := (devGenesis [100]).state, journals := {} }

/-- The founder has a proof that verifies, the proof carries the founder's record, and what else
verifies in that section is about the founder too. -/
theorem stateRoot_proofs_soleFounder : ∃ (root : Bytes) (key : ByteVec) (p : InclusionProof Bytes),
    @prove Bytes idealDigest records soleFounder.ledger.state .members key = .ok (some p) ∧
      @verify Bytes idealDigest _ root p = true ∧
      (rows records soleFounder.ledger.state .members)[p.index.toNat]? =
        some (p.key, .ok p.value) ∧
      ∀ q : InclusionProof Bytes, @verify Bytes idealDigest _ root q = true → q.sec = .members →
        q.leafCount.toNat = 1 ∧ q.index.toNat = 0 := by
  let _ := idealDigest
  have hs : Storable records soleFounder.ledger.state := storable_of_rows (by decide +kernel)
  obtain ⟨_, hgenesis⟩ := Genesis.founding_state (g := devGenesis [100]) (by decide +kernel)
  have hwindow : soleFounder.ledger.state.InWindow := inWindow_of_genesis hgenesis
  obtain ⟨root, hroot⟩ : ∃ root : Bytes, stateRoot records soleFounder.ledger.state = .ok root :=
    exists_stateRoot hs.encodes (checkReplayWindow_ok hwindow)
  have hlen : (rows records soleFounder.ledger.state .members).length = 1 := by decide +kernel
  obtain ⟨complete, sound⟩ := stateRoot_proofs idealDigest_ideal hs.fits hroot
  obtain ⟨key, p, hp, hsec, -, -, hv⟩ := complete .members 0 (by rw [hlen]; decide)
  refine ⟨root, key, p, hp, hv, hsec ▸ (sound p hv).2, fun q hq hmembers => ?_⟩
  obtain ⟨hcount, hrow⟩ := sound q hq
  rw [hmembers, hlen] at hcount
  have hlt := (List.getElem?_eq_some_iff.1 hrow).1
  rw [hmembers, hlen] at hlt
  exact ⟨hcount.symm, by omega⟩

/-- The transaction that names another consensus key for the founder. -/
def rekeying : Event := .transaction (.setConsensusKey 0 (some 7)) 1 2 [founderKey 0] 5

/-- The ledger after it. -/
def rekeyed : State :=
  let _ := Libm.unused
  rekeying.next soleFounder.ledger.state

/-- How the transaction comes to the data: the envelope is remembered in its bucket, the founder's
row is written, both through their journals, and the bond goes where no journal stands. -/
def rekeyingAccesses : List Access :=
  [.appliedByExpiry (.point 2 (some ((∅ : OrdSet TxId).insert 1))),
    .members (.point 0 rekeyed.members[(0 : MemberId)]?), .rest rekeyed]

/-- The accesses have the transaction's effect. -/
theorem state_rekeyingAccesses :
    (Access.runAll soleFounder.ledger.drained rekeyingAccesses).state = rekeyed := by
  have hmembers : Mutation.map (.point 0 rekeyed.members[(0 : MemberId)]?)
      soleFounder.ledger.state.members = rekeyed.members := by decide +kernel
  have happlied : Mutation.map (.point 2 (some ((∅ : OrdSet TxId).insert 1)))
      soleFounder.ledger.state.appliedByExpiry = rekeyed.appliedByExpiry := by decide +kernel
  -- the other maps that a journal stands before are as they were
  obtain ⟨hcontracts, hproposals, hedges, hreserved, hseats, hsalt⟩ :
      soleFounder.ledger.state.contracts = rekeyed.contracts ∧
      soleFounder.ledger.state.proposals = rekeyed.proposals ∧
      soleFounder.ledger.state.edges = rekeyed.edges ∧
      soleFounder.ledger.state.reserved = rekeyed.reserved ∧
      soleFounder.ledger.state.seatReserved = rekeyed.seatReserved ∧
      soleFounder.ledger.state.rootSalt = rekeyed.rootSalt := by decide +kernel
  change ({ rekeyed with
    members := Mutation.map (.point 0 rekeyed.members[(0 : MemberId)]?)
      soleFounder.ledger.state.members
    contracts := soleFounder.ledger.state.contracts
    proposals := soleFounder.ledger.state.proposals
    edges := soleFounder.ledger.state.edges
    reserved := soleFounder.ledger.state.reserved
    seatReserved := soleFounder.ledger.state.seatReserved
    appliedByExpiry := Mutation.map (.point 2 (some ((∅ : OrdSet TxId).insert 1)))
      soleFounder.ledger.state.appliedByExpiry
    rootSalt := soleFounder.ledger.state.rootSalt } : State) = rekeyed
  rw [hmembers, happlied, hcontracts, hproposals, hedges, hreserved, hseats, hsalt]

/-- The cache is warmed, then the transaction happens: the next refresh is incremental. -/
def soleRun : Kept Bytes :=
  let _ := idealDigest
  (Call.event rekeying rekeyingAccesses).next records (Call.refresh.next records soleFounder)

/-- The refresh after that transaction patches the founder's leaf and the bucket's, and answers
the root of the ledger. -/
theorem refresh_eq_stateRoot_soleRun :
    soleRun.ledger.journals.members.Covers 0 ∧
      (rekeyed.members[(0 : MemberId)]?.bind fun m => m.consensusKey) = some 7 ∧
      ∃ root : Bytes, (@Kept.refresh Bytes idealDigest _ records soleRun).1 = .ok root ∧
        @stateRoot Bytes idealDigest records rekeyed = .ok root := by
  let _ := idealDigest
  let _ := Libm.unused
  have hstart : soleFounder.Cold :=
    ⟨rfl, Genesis.founding_state (g := devGenesis [100]) (by decide +kernel)⟩
  have hcold : Reaches (Call.next records) Kept.Cold (Call.Allowed records) soleFounder :=
    .start hstart
  have hwarm := hcold.step .refresh (storable_of_rows (by decide +kernel))
  have hstate : (Access.runAll soleFounder.ledger.drained rekeyingAccesses).state = rekeyed :=
    state_rekeyingAccesses
  have hrun := hwarm.step (.event rekeying rekeyingAccesses) hstate
  have hstorable : Storable records rekeyed := storable_of_rows (by decide +kernel)
  obtain ⟨root, hrefresh, hroot, -⟩ := refresh_eq_stateRoot hrun (hstate.symm ▸ hstorable)
  exact ⟨Dirty.covers_mark .clean 0, by decide +kernel, root, hrefresh, hstate ▸ hroot⟩

end Edet.StateRoot
