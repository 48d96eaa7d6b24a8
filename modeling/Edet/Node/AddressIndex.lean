import Edet.Ledger.KeySeparation
import Edet.View.Disclose

/-!
# The address index

A node keeps a table from wallet addresses to members and builds it again when the number of
members differs from the number it was built at (`AddressIndex.resolve`). An address is that of a
member's first key, so a rotation changes it and leaves the number alone, and so does a row that
retires while another is seated.

`builtOn` is the ledger the table was last built from, kept beside the node for what is proved
here. In every run the table is that ledger's (`isTable_of_reaches`), and where every member of
that ledger still has its row and its first key, an equal number of members means that there are
no others (`kept_symm`).
-/

namespace Edet.Node

open View (memberAddressBytes keyAddressBytes)

structure AddressIndex where
  builtAtLen : Nat := 0
  map : OrdMap View.Address MemberId := ∅

section Index

variable (sha256 : Bytes → View.Digest)

/-- The table of a ledger. -/
def AddressIndex.build (s : State) : AddressIndex where
  builtAtLen := s.members.size
  map := s.members.vals.foldl (fun map m => map.insert (memberAddressBytes sha256 m) m.id) ∅

/-- The table as a lookup finds it: built again if the number of members has moved. -/
def AddressIndex.refreshed (index : AddressIndex) (s : State) : AddressIndex :=
  if index.builtAtLen ≠ s.members.size then AddressIndex.build sha256 s else index

def AddressIndex.resolve (index : AddressIndex) (s : State) (addr : View.Address) :
    Option MemberId × AddressIndex :=
  let index := index.refreshed sha256 s
  (index.map[addr]?, index)

/-- Is this row of the ledger's one with that id and that address? -/
def HasAddress (s : State) (addr : View.Address) (id : MemberId) : Prop :=
  ∃ m ∈ s.members.vals, m.id = id ∧ memberAddressBytes sha256 m = addr

/-- An answer is what a scan of the ledger could give. -/
def AnswersFor (s : State) (addr : View.Address) : Option MemberId → Prop
  | some id => HasAddress sha256 s addr id
  | none => ∀ id, ¬HasAddress sha256 s addr id

/-! ### Runs -/

/-- A node's ledger and its index, with the ledger that the index was built from. -/
structure Lookups where
  ledger : State
  index : AddressIndex := {}
  builtOn : State := {}

inductive LookupEvent
  | commit (s : State)
  | lookup (addr : View.Address)

def LookupEvent.next : LookupEvent → Lookups → Lookups
  | .commit s, n => { n with ledger := s }
  | .lookup addr, n =>
    { n with
      index := (n.index.resolve sha256 n.ledger addr).2
      builtOn := if n.index.builtAtLen ≠ n.ledger.members.size then n.ledger else n.builtOn }

/-- A node that has answered no lookup. -/
def Lookups.Fresh (n : Lookups) : Prop := n.index = {} ∧ n.builtOn = {}

/-- Every member of one ledger has its row in another, and the same first key there. -/
def Kept (s s' : State) : Prop :=
  ∀ (id : MemberId) (m : Member), s.members[id]? = some m →
    ∃ m', s'.members[id]? = some m' ∧ m'.id = m.id ∧ m'.keys.head? = m.keys.head?

end Index

/-! ### The table of a ledger -/

/-- What a table filled from a list holds: the last entry written at an address, or what was there
before. -/
theorem getElem?_foldl_insert {α : Type} (key : α → View.Address) (val : α → MemberId) (l : List α)
    (map : OrdMap View.Address MemberId) (addr : View.Address) :
    match (l.foldl (fun map x => map.insert (key x) (val x)) map)[addr]? with
    | some id => (∃ x ∈ l, val x = id ∧ key x = addr) ∨ map[addr]? = some id
    | none => (∀ x ∈ l, key x ≠ addr) ∧ map[addr]? = none := by
  induction l generalizing map with
  | nil =>
    rw [List.foldl_nil]
    split
    · next h => exact .inr h
    · next h => exact ⟨by simp, h⟩
  | cons x l ih =>
    have ih := ih (map.insert (key x) (val x))
    rw [List.foldl_cons]
    have hwrite : (map.insert (key x) (val x))[addr]? =
        if key x = addr then some (val x) else map[addr]? := by
      simp only [Std.ExtTreeMap.getElem?_insert, Std.LawfulEqCmp.compare_eq_iff_eq]
    rw [hwrite] at ih
    split
    · next id h =>
      rw [h] at ih
      rcases ih with ⟨y, hy, hval, hkey⟩ | hmap
      · exact .inl ⟨y, List.mem_cons_of_mem _ hy, hval, hkey⟩
      · split at hmap
        · next hkey => exact .inl ⟨x, List.mem_cons_self, Option.some.inj hmap, hkey⟩
        · exact .inr hmap
    · next h =>
      rw [h] at ih
      obtain ⟨hl, hmap⟩ := ih
      split at hmap
      · cases hmap
      · next hkey => exact ⟨List.forall_mem_cons.2 ⟨hkey, hl⟩, hmap⟩

section Table

variable {sha256 : Bytes → View.Digest} {s s' : State} {addr : View.Address}

/-- The table of a ledger answers for it. -/
theorem answersFor_build : AnswersFor sha256 s addr (AddressIndex.build sha256 s).map[addr]? := by
  have h := getElem?_foldl_insert (memberAddressBytes sha256) Member.id s.members.vals ∅ addr
  have hmap : (AddressIndex.build sha256 s).map
      = s.members.vals.foldl (fun map m => map.insert (memberAddressBytes sha256 m) m.id) ∅ := rfl
  rw [hmap]
  split at h
  · next id hid =>
    rw [hid]
    rcases h with h | hempty
    · exact h
    · rw [Std.ExtTreeMap.getElem?_empty] at hempty
      cases hempty
  · next hnone =>
    rw [hnone]
    rintro id ⟨m, hm, -, haddr⟩
    exact h.1 m hm haddr

/-- With as many members as before, no others have come. -/
theorem kept_symm (hsize : s.members.size = s'.members.size) (h : Kept s s') : Kept s' s := by
  have hsubset : s.members.keys ⊆ s'.members.keys := by
    intro id hid
    rw [Std.ExtTreeMap.mem_keys, Std.ExtTreeMap.mem_iff_isSome_getElem?, Option.isSome_iff_exists] at hid
    obtain ⟨m, hm⟩ := hid
    obtain ⟨m', hm', -⟩ := h id m hm
    rw [Std.ExtTreeMap.mem_keys, Std.ExtTreeMap.mem_iff_isSome_getElem?, hm']
    rfl
  have hnodup : s.members.keys.Nodup := by
    have hkeys := OrdMap.nodup_keys s.members
    rwa [Std.ExtTreeMap.map_fst_toList_eq_keys] at hkeys
  have hperm : s.members.keys.Perm s'.members.keys := by
    refine (List.subperm_of_subset hnodup hsubset).perm_of_length_le ?_
    rw [Std.ExtTreeMap.length_keys, Std.ExtTreeMap.length_keys, hsize]
  intro id m' hm'
  have hid : id ∈ s.members.keys := by
    rw [hperm.mem_iff, Std.ExtTreeMap.mem_keys, Std.ExtTreeMap.mem_iff_isSome_getElem?, hm']
    rfl
  rw [Std.ExtTreeMap.mem_keys, Std.ExtTreeMap.mem_iff_isSome_getElem?, Option.isSome_iff_exists] at hid
  obtain ⟨m, hm⟩ := hid
  obtain ⟨m₀, hm₀, hsame, hkey⟩ := h id m hm
  obtain rfl : m₀ = m' := Option.some.inj (hm₀.symm.trans hm')
  exact ⟨m, hm, hsame.symm, hkey.symm⟩

/-- A member that is kept keeps its address. -/
theorem Kept.hasAddress (h : Kept s s') {id : MemberId} (hid : HasAddress sha256 s addr id) :
    HasAddress sha256 s' addr id := by
  obtain ⟨m, hm, hid, haddr⟩ := hid
  obtain ⟨key, hm⟩ := OrdMap.mem_vals.1 hm
  obtain ⟨m', hm', hsame, hkey⟩ := h key m hm
  refine ⟨m', OrdMap.mem_vals.2 ⟨key, hm'⟩, hsame.trans hid, ?_⟩
  unfold memberAddressBytes at haddr ⊢
  rw [hkey, haddr]

theorem AnswersFor.kept (hsize : s.members.size = s'.members.size) (h : Kept s s')
    {answer : Option MemberId} (ha : AnswersFor sha256 s addr answer) :
    AnswersFor sha256 s' addr answer := by
  cases answer with
  | some id => exact h.hasAddress ha
  | none => exact fun id hid => ha id ((kept_symm hsize h).hasAddress hid)

/-! ### The index over a run -/

/-- The index is always the table of the ledger it was built from. -/
theorem isTable_of_reaches {n : Lookups}
    (h : Reaches (LookupEvent.next sha256) Lookups.Fresh (fun _ _ => True) n) :
    n.index = AddressIndex.build sha256 n.builtOn := by
  refine h.invariant (I := fun n => n.index = AddressIndex.build sha256 n.builtOn) ?_ ?_
  · rintro n ⟨hindex, hbuilt⟩
    rw [hindex, hbuilt]
    rfl
  · intro e n hn _
    cases e with
    | commit s => exact hn
    | lookup addr =>
      unfold LookupEvent.next AddressIndex.resolve AddressIndex.refreshed
      dsimp only
      split
      · rfl
      · exact hn

/-- **The index answers for the ledger of the moment** at every lookup that builds it again or
finds the members of the last time, each with the first key it had. -/
theorem resolve_answersFor {n : Lookups}
    (h : Reaches (LookupEvent.next sha256) Lookups.Fresh (fun _ _ => True) n) (addr : View.Address)
    (hkept : n.index.builtAtLen ≠ n.ledger.members.size ∨ Kept n.builtOn n.ledger) :
    AnswersFor sha256 n.ledger addr (n.index.resolve sha256 n.ledger addr).1 := by
  have htable := isTable_of_reaches h
  unfold AddressIndex.resolve AddressIndex.refreshed
  dsimp only
  split
  · exact answersFor_build
  · next hsize =>
    rw [Ne, not_not, htable] at hsize
    rw [htable]
    exact answersFor_build.kept hsize (hkept.resolve_left fun hne => hne (htable ▸ hsize))

end Table

/-! ### A rotation between two lookups -/

section Rotation

/-- Three founders, the first with a rotation under way. -/
def rotating : State :=
  letI := Libm.unused
  (rotationEvents [founderKey 9]).foldl (fun s e => e.next s) (devGenesis [1000, 1000, 1000]).state

/-- The rotation is carried out. -/
def rotated : State :=
  letI := Libm.unused
  finalizeEvent.next rotating

/-- The rows of the two ledgers. -/
theorem rows_rotating :
    (rotating.members.vals.map (fun m => (m.id, m.keys))
      = [(0, [founderKey 0]), (1, [founderKey 1]), (2, [founderKey 2])] ∧
      rotating.members.size = 3) ∧
    (rotated.members.vals.map (fun m => (m.id, m.keys))
      = [(0, [founderKey 9]), (1, [founderKey 1]), (2, [founderKey 2])] ∧
      rotated.members.size = 3) := by
  decide +kernel

/-- The founders, before any of them names guardians. -/
def unguarded : State := (devGenesis [1000, 1000, 1000]).state

/-- A hash that tells bytes apart by their sum. -/
def sumHash (b : Bytes) : View.Digest := BitVec.ofNat 256 ((b.map UInt8.toNat).sum * 2 ^ 96)

/-- Naming guardians and asking for a rotation leaves every row its first key. -/
theorem kept_rotating : Kept unguarded rotating := by
  have hrows : ∀ p ∈ unguarded.members.toList, (rotating.members[p.1]?).any (fun m' =>
      decide (m'.id = p.2.id ∧ m'.keys.head? = p.2.keys.head?)) = true := by decide +kernel
  intro id m hm
  obtain ⟨m', hm', hsame⟩ :=
    (Option.any_eq_true _ _).1 (hrows (id, m) (OrdMap.mem_toList.2 hm))
  exact ⟨m', hm', of_decide_eq_true hsame⟩

/-- A lookup, a commit that leaves the number of members and their first keys, and the same lookup:
the index is not built again, and answers for the ledger behind the commit. -/
theorem resolve_answersFor_again :
    let addr := keyAddressBytes sumHash (Encoding.key (founderKey 0))
    let n := [LookupEvent.lookup addr, .commit rotating].foldl (fun n e => e.next sumHash n)
      { ledger := unguarded }
    n.index.builtAtLen = n.ledger.members.size ∧
      (n.index.resolve sumHash n.ledger addr).1 = some 0 ∧
      AnswersFor sumHash n.ledger addr (n.index.resolve sumHash n.ledger addr).1 := by
  intro addr n
  have hreach : Reaches (LookupEvent.next sumHash) Lookups.Fresh (fun _ _ => True) n :=
    Reaches.of_list (.start ⟨rfl, rfl⟩) _ ⟨trivial, trivial, trivial⟩
  have hsize : 0 ≠ unguarded.members.size := by decide +kernel
  have hbuilt : n.builtOn = unguarded := by
    show (if 0 ≠ unguarded.members.size then unguarded else {}) = unguarded
    rw [if_pos hsize]
  exact ⟨by decide +kernel, by decide +kernel,
    resolve_answersFor hreach addr (.inr (hbuilt ▸ kept_rotating))⟩

/-- A row with an address is one of the list of ids and keys. -/
theorem HasAddress.mem {sha256 : Bytes → View.Digest} {s : State} {addr : View.Address} {id : MemberId}
    (h : HasAddress sha256 s addr id) :
    ∃ keys, (id, keys) ∈ s.members.vals.map (fun m => (m.id, m.keys)) ∧
      keyAddressBytes sha256 ((keys.head?.map Encoding.key).getD []) = addr := by
  obtain ⟨m, hm, rfl, haddr⟩ := h
  exact ⟨m.keys, List.mem_map.2 ⟨m, hm, rfl⟩, haddr⟩

/-- The founder has the old address before the rotation. -/
theorem hasAddress_rotating (sha256 : Bytes → View.Digest) :
    HasAddress sha256 rotating (keyAddressBytes sha256 (Encoding.key (founderKey 0))) 0 := by
  have hrow : ((0, [founderKey 0]) : MemberId × List Key)
      ∈ rotating.members.vals.map fun m => (m.id, m.keys) := by
    rw [rows_rotating.1.1]
    exact List.mem_cons_self
  obtain ⟨m, hm, heq⟩ := List.mem_map.1 hrow
  obtain ⟨hid, hkeys⟩ := Prod.mk.inj heq
  refine ⟨m, hm, hid, ?_⟩
  unfold memberAddressBytes
  rw [hkeys]
  rfl

/-- After the rotation the old address still resolves to the member who had it, under every hash
that tells the keys apart. -/
theorem not_answersFor_rotated :
    ¬∃ sha256 : Bytes → View.Digest,
      (∀ k ∈ [founderKey 1, founderKey 2, founderKey 9],
        keyAddressBytes sha256 (Encoding.key k)
          ≠ keyAddressBytes sha256 (Encoding.key (founderKey 0))) ∧
      let addr := keyAddressBytes sha256 (Encoding.key (founderKey 0))
      let n := [LookupEvent.lookup addr, .commit rotated].foldl (fun n e => e.next sha256 n)
        { ledger := rotating }
      AnswersFor sha256 n.ledger addr (n.index.resolve sha256 n.ledger addr).1 := by
  rintro ⟨sha256, hapart, hanswers⟩
  obtain ⟨⟨-, hsize⟩, hrows', hsize'⟩ := rows_rotating
  extract_lets addr n at hanswers
  have hindex : n.index = AddressIndex.build sha256 rotating := by
    show AddressIndex.refreshed sha256 {} rotating = _
    unfold AddressIndex.refreshed
    rw [if_pos (by rw [hsize]; decide)]
  have hledger : n.ledger = rotated := rfl
  have hsame : (n.index.resolve sha256 n.ledger addr).1
      = (AddressIndex.build sha256 rotating).map[addr]? := by
    have hlen : (AddressIndex.build sha256 rotating).builtAtLen = rotated.members.size :=
      hsize.trans hsize'.symm
    unfold AddressIndex.resolve AddressIndex.refreshed
    dsimp only
    rw [hindex, hledger, if_neg (not_not.2 hlen)]
  rw [hsame, hledger] at hanswers
  have hold : AnswersFor sha256 rotating addr (AddressIndex.build sha256 rotating).map[addr]? :=
    answersFor_build
  cases hfound : (AddressIndex.build sha256 rotating).map[addr]? with
  | none =>
    rw [hfound] at hold
    exact hold 0 (hasAddress_rotating sha256)
  | some id =>
    -- nobody has the address any more
    rw [hfound] at hanswers
    obtain ⟨keys, hmem, haddr⟩ := HasAddress.mem hanswers
    rw [hrows'] at hmem
    simp only [List.mem_cons, Prod.mk.injEq, List.not_mem_nil, or_false] at hmem
    rcases hmem with ⟨-, rfl⟩ | ⟨-, rfl⟩ | ⟨-, rfl⟩
    · exact hapart (founderKey 9) (by simp) haddr
    · exact hapart (founderKey 1) (by simp) haddr
    · exact hapart (founderKey 2) (by simp) haddr

end Rotation

end Edet.Node
