import Edet.StateRoot.Definition
import Edet.Wallet.Number

/-!
# The wallet's verifier

The wallet checks proofs on its own, from `(index, leafCount)` and the section's name: it
was written again in another language, over byte arrays of any length and numbers that
need not be integers. Here the two are compared. A wallet proof that came from a ledger
proof is accepted by the one exactly when it is by the other, and a wallet proof that did
not is refused.

The wallet's loop counts the siblings it has consumed; `foldLoop_eq_climb` turns the
count into the list of siblings that are left, which is what the ledger's loop holds.
-/

namespace Edet

/-- A digest: thirty-two bytes. -/
abbrev Digest32 := { b : Bytes // b.length = 32 }

/-- A hash whose digests have thirty-two bytes. -/
class Sha256 where
  sha256 : Bytes → Digest32

/-- The hash as the ledger uses it. -/
instance Digest32.instDigest [Sha256] : Digest Digest32 where
  sha256 := Sha256.sha256
  bytes := Subtype.val

namespace Wallet

open StateRoot (Section ascii InclusionProof)

/-- A proof as the wallet holds it. -/
structure WalletProof where
  sec : String
  index : Number
  leafCount : Number
  key : ByteVec
  value : ByteVec
  leafSalt : Bytes
  path : List Bytes
  sectionPath : List Bytes
deriving DecidableEq

def SECTIONS : List String :=
  ["members", "contracts", "proposals", "validators", "stakes", "replay", "ledger"]

/-- The tag of each section, which is not its place in `SECTIONS`. -/
def sectionTag : List (String × UInt8) :=
  [("members", 0), ("contracts", 1), ("proposals", 2), ("validators", 3), ("stakes", 5),
    ("replay", 6), ("ledger", 4)]

def LEAF_PREFIX : UInt8 := 0x00
def INNER_PREFIX : UInt8 := 0x01
def SECTION_PREFIX : UInt8 := 0x02

def LEAF_DOMAIN : Bytes := ascii "edet-leaf-v3"
def SECTION_DOMAIN : Bytes := ascii "edet-section-v1"

/-- A word, highest byte first. -/
def be64 (n : Nat) : Bytes := beBytes 8 n

/-- The digit that a character is in base sixteen. -/
def hexDigit (c : Char) : Option Nat :=
  if '0' ≤ c ∧ c ≤ '9' then some (c.toNat - '0'.toNat)
  else if 'a' ≤ c ∧ c ≤ 'f' then some (c.toNat - 'a'.toNat + 10)
  else if 'A' ≤ c ∧ c ≤ 'F' then some (c.toNat - 'A'.toNat + 10)
  else none

/-- Digits taken two by two, `none` where one is missing or is none. -/
def hexPairs : List Char → Option Bytes
  | [] => some []
  | [_] => none
  | h :: l :: rest => do
    let high ← hexDigit h
    let low ← hexDigit l
    let bytes ← hexPairs rest
    pure (UInt8.ofNat (16 * high + low) :: bytes)

/-- `0x`, if it is there, is skipped. -/
def hexToBytes (hex : String) : Option Bytes :=
  match hex.toList with
  | '0' :: 'x' :: clean => hexPairs clean
  | clean => hexPairs clean

def bytesFromHex (v : String) (exact : Nat) : Option Bytes :=
  (hexToBytes v).bind fun bytes => if bytes.length = exact then some bytes else none

/-- A `u64`: a non-negative integer that is represented exactly. -/
def u64 (v : Number) : Option Nat := v.safe?

def constantTimeEqual (a b : Bytes) : Bool :=
  if a.length ≠ b.length then false
  else (List.zipWith (· ^^^ ·) a b).foldl (· ||| ·) 0 = 0

theorem foldl_or_eq_zero (l : List UInt8) (acc : UInt8) :
    l.foldl (· ||| ·) acc = 0 ↔ acc = 0 ∧ ∀ b ∈ l, b = 0 := by
  induction l generalizing acc with
  | nil => simp
  | cons b l ih =>
    rw [List.foldl_cons, ih, UInt8.or_eq_zero_iff]
    simp [and_assoc]

theorem constantTimeEqual_iff (a b : Bytes) : constantTimeEqual a b = true ↔ a = b := by
  unfold constantTimeEqual
  by_cases hlen : a.length = b.length
  · rw [if_neg (by simpa using hlen), decide_eq_true_iff, foldl_or_eq_zero]
    simp only [true_and]
    induction a generalizing b with
    | nil => simp [List.length_eq_zero_iff.1 hlen.symm]
    | cons x a ih =>
      match b, hlen with
      | y :: b, hlen =>
        simp only [List.zipWith_cons_cons, List.mem_cons, forall_eq_or_imp, UInt8.xor_eq_zero_iff,
          List.cons.injEq]
        rw [ih b (by simpa using hlen)]
  · rw [if_pos hlen]
    simp only [Bool.false_eq_true, false_iff]
    rintro rfl
    exact hlen rfl

/-! ### Sections by name -/

/-- The name the wallet knows a section by. -/
def sectionName : Section → String
  | .members => "members"
  | .contracts => "contracts"
  | .proposals => "proposals"
  | .validators => "validators"
  | .stakes => "stakes"
  | .replay => "replay"
  | .ledger => "ledger"

/-- A section's name has the section's position and the section's tag. -/
theorem idxOf?_sectionName (sec : Section) :
    SECTIONS.idxOf? (sectionName sec) = some sec.position ∧
      (sectionTag.lookup (sectionName sec)).getD 0 = sec.tag := by
  cases sec <;> decide

theorem exists_sectionName {name : String} {i : Nat} (h : SECTIONS.idxOf? name = some i) :
    ∃ sec, name = sectionName sec := by
  have hmem : name ∈ SECTIONS := by
    by_contra hn
    rw [List.idxOf?_eq_none_iff.2 hn] at h
    simp at h
  simp only [SECTIONS, List.mem_cons, List.not_mem_nil, or_false] at hmem
  rcases hmem with rfl | rfl | rfl | rfl | rfl | rfl | rfl
  exacts [⟨.members, rfl⟩, ⟨.contracts, rfl⟩, ⟨.proposals, rfl⟩, ⟨.validators, rfl⟩,
    ⟨.stakes, rfl⟩, ⟨.replay, rfl⟩, ⟨.ledger, rfl⟩]

/-! ### The verifier -/

section Verifier

variable [Sha256]

def leafHash (salt : Bytes) (tag : UInt8) (index : Nat) (key value : ByteVec) : Bytes :=
  (Sha256.sha256 ([LEAF_PREFIX] ++ LEAF_DOMAIN ++ salt ++ [tag] ++ be64 index ++
    be64 key.data.length ++ key.data ++ be64 value.data.length ++ value.data)).val

def sectionHash (tag : UInt8) (count : Nat) (leavesRoot : Bytes) : Bytes :=
  (Sha256.sha256 ([SECTION_PREFIX] ++ SECTION_DOMAIN ++ [tag] ++ be64 count ++ leavesRoot)).val

def innerHash (left right : Bytes) : Bytes :=
  (Sha256.sha256 ([INNER_PREFIX] ++ left ++ right)).val

/-- The loop of `foldPath`: `i` siblings have been consumed. -/
def foldLoop (siblings : List Bytes) (acc : Bytes) (t m i : Nat) : Option Bytes :=
  if 1 < m then
    if t % 2 = 0 then
      if t + 1 < m then
        match siblings[i]? with
        | none => none
        | some s => foldLoop siblings (innerHash acc s) (t / 2) ((m + 1) / 2) (i + 1)
      else foldLoop siblings acc (t / 2) ((m + 1) / 2) i
    else
      match siblings[i]? with
      | none => none
      | some s => foldLoop siblings (innerHash s acc) (t / 2) ((m + 1) / 2) (i + 1)
  else if i = siblings.length then some acc else none
termination_by m

def foldPath (leaf : Bytes) (index count : Nat) (siblings : List Bytes) : Option Bytes :=
  if count ≤ index then none else foldLoop siblings leaf index count 0

/-- Check a proof against a root. -/
def verifyProof (rootHex : String) (proof : WalletProof) : Bool :=
  match bytesFromHex rootHex 32 with
  | none => false
  | some root =>
    match u64 proof.index, u64 proof.leafCount with
    | some index, some leafCount =>
      if proof.leafSalt.length ≠ 32 then false
      else if (proof.path.any fun h => h.length ≠ 32) ∨
          (proof.sectionPath.any fun h => h.length ≠ 32) then false
      else
        match SECTIONS.idxOf? proof.sec with
        | none => false
        | some sectionIndex =>
          let tag := (sectionTag.lookup proof.sec).getD 0
          let leaf := leafHash proof.leafSalt tag index proof.key proof.value
          match foldPath leaf index leafCount proof.path with
          | none => false
          | some leavesRoot =>
            let sectionRoot := sectionHash tag leafCount leavesRoot
            match foldPath sectionRoot sectionIndex SECTIONS.length proof.sectionPath with
            | none => false
            | some top => constantTimeEqual top root
    | _, _ => false

/-! ### The loop -/

/-- **The two loops agree**: to have consumed `i` siblings is to hold the rest. -/
theorem foldLoop_eq_climb (siblings : List Bytes) (acc : Bytes) (t m i : Nat)
    (hi : i ≤ siblings.length) :
    foldLoop siblings acc t m i = PromotionTree.climb innerHash acc t m (siblings.drop i) := by
  induction acc, t, m, i using foldLoop.induct siblings with
  | case1 acc t m i hm ht hnext hs =>
    have hdrop : siblings.drop i = [] := List.drop_eq_nil_of_le (List.getElem?_eq_none_iff.1 hs)
    rw [foldLoop, if_pos hm, if_pos ht, if_pos hnext, hdrop,
      PromotionTree.climb_left_nil hnext ht]
    simp only [hs]
  | case2 acc t m i hm ht hnext s hs ih =>
    obtain ⟨hlt, rfl⟩ := List.getElem?_eq_some_iff.1 hs
    rw [foldLoop, if_pos hm, if_pos ht, if_pos hnext, List.drop_eq_getElem_cons hlt,
      PromotionTree.climb_left hnext ht, ← ih hlt]
    simp only [hs]
  | case3 acc t m i hm ht hlast ih =>
    rw [foldLoop, if_pos hm, if_pos ht, if_neg hlast,
      PromotionTree.climb_promoted hm ht (by omega), ih hi]
  | case4 acc t m i hm ht hs =>
    have hdrop : siblings.drop i = [] := List.drop_eq_nil_of_le (List.getElem?_eq_none_iff.1 hs)
    rw [foldLoop, if_pos hm, if_neg ht, hdrop, PromotionTree.climb_right_nil hm (by omega)]
    simp only [hs]
  | case5 acc t m i hm ht s hs ih =>
    obtain ⟨hlt, rfl⟩ := List.getElem?_eq_some_iff.1 hs
    rw [foldLoop, if_pos hm, if_neg ht, List.drop_eq_getElem_cons hlt,
      PromotionTree.climb_right hm (by omega), ← ih hlt]
    simp only [hs]
  | case6 acc t m hm =>
    rw [foldLoop, if_neg hm, if_pos rfl, List.drop_length, PromotionTree.climb_top_nil (by omega)]
  | case7 acc t m i hm hend =>
    have hlt : i < siblings.length := by omega
    rw [foldLoop, if_neg hm, if_neg hend, List.drop_eq_getElem_cons hlt,
      PromotionTree.climb_top_cons (by omega)]

/-- The wallet's fold over the bytes of digests is the ledger's over the digests. -/
theorem foldPath_val (leaf : Digest32) (index count : UInt64) (siblings : List Digest32) :
    foldPath leaf.val index.toNat count.toNat (siblings.map Subtype.val) =
      (StateRoot.foldPath leaf index count siblings).map Subtype.val := by
  rw [foldPath, StateRoot.foldPath]
  by_cases hrange : count ≤ index
  · rw [if_pos hrange, if_pos (UInt64.le_iff_toNat_le.1 hrange)]
    rfl
  · rw [if_neg hrange, if_neg fun h => hrange (UInt64.le_iff_toNat_le.2 h),
      foldLoop_eq_climb _ _ _ _ _ (Nat.zero_le _), List.drop_zero]
    exact PromotionTree.climb_map StateRoot.innerHash Subtype.val (fun _ _ => rfl) _ _ _ _

/-! ### The two verifiers -/

/-- A ledger proof, as it arrives at the wallet. -/
def WalletProof.ofLedger (p : InclusionProof Digest32) : WalletProof where
  sec := sectionName p.sec
  index := .int p.index.toNat
  leafCount := .int p.leafCount.toNat
  key := p.key
  value := p.value
  leafSalt := p.leafSalt.val
  path := p.path.map Subtype.val
  sectionPath := p.sectionPath.map Subtype.val

theorem leafHash_val (salt : Digest32) (sec : Section) (index : UInt64) (key value : ByteVec) :
    leafHash salt.val sec.tag index.toNat key value =
      (StateRoot.leafHash salt sec index key value).val := rfl

theorem sectionHash_val (sec : Section) (count : UInt64) (leavesRoot : Digest32) :
    sectionHash sec.tag count.toNat leavesRoot.val =
      (StateRoot.sectionHash sec count leavesRoot).val := rfl

/-- A proof that came from the ledger is accepted by both verifiers or by neither. -/
theorem verifyProof_ofLedger {rootHex : String} {root : Digest32}
    (hroot : hexToBytes rootHex = some root.val) {p : InclusionProof Digest32}
    (hindex : p.index.toNat < 2 ^ 53) (hcount : p.leafCount.toNat < 2 ^ 53) :
    verifyProof rootHex (.ofLedger p) = StateRoot.verify root p := by
  have hbytes : bytesFromHex rootHex 32 = some root.val := by
    rw [bytesFromHex, hroot, Option.bind_some, if_pos root.property]
  have hu64 : ∀ n : Nat, n < 2 ^ 53 → u64 (.int n) = some n := fun n hn => Number.safe?_int hn
  have hhashes : ∀ l : List Digest32, ((l.map Subtype.val).any fun h => h.length ≠ 32) = false := by
    intro l
    rw [List.any_eq_false]
    simp only [List.mem_map, decide_eq_true_eq]
    rintro _ ⟨d, -, rfl⟩ hd
    exact hd d.property
  obtain ⟨hidx, htag⟩ := idxOf?_sectionName p.sec
  have hlen : ¬ p.leafSalt.val.length ≠ 32 := by simp [p.leafSalt.property]
  unfold verifyProof WalletProof.ofLedger
  simp only [hbytes, hu64 _ hindex, hu64 _ hcount, hhashes, hidx, htag, if_neg hlen,
    Bool.false_eq_true, or_self, if_false]
  -- what is left is the two folds, each over the bytes of the ledger's
  have hleaf := foldPath_val (StateRoot.leafHash p.leafSalt p.sec p.index p.key p.value)
    p.index p.leafCount p.path
  rw [leafHash_val, hleaf]
  simp only [StateRoot.verify]
  cases hleaves : StateRoot.foldPath (StateRoot.leafHash p.leafSalt p.sec p.index p.key p.value)
      p.index p.leafCount p.path with
  | none => simp only [Option.map_none]
  | some leavesRoot =>
    have htop := foldPath_val (StateRoot.sectionHash p.sec p.leafCount leavesRoot)
      (UInt64.ofNat p.sec.position) (UInt64.ofNat Section.all.length) p.sectionPath
    have hpos : (UInt64.ofNat p.sec.position).toNat = p.sec.position := by
      cases p.sec <;> rfl
    rw [hpos] at htop
    simp only [Option.map_some, sectionHash_val]
    rw [show SECTIONS.length = (UInt64.ofNat Section.all.length).toNat from rfl, htop]
    cases StateRoot.foldPath (StateRoot.sectionHash p.sec p.leafCount leavesRoot)
        (UInt64.ofNat p.sec.position) (UInt64.ofNat Section.all.length) p.sectionPath with
    | none => simp only [Option.map_none]
    | some top =>
      simp only [Option.map_some]
      rw [Bool.eq_iff_iff, constantTimeEqual_iff, decide_eq_true_iff, Subtype.ext_iff]

/-- What the wallet accepts came from the ledger: digests of thirty-two bytes, a section
that exists, and an index and a count it can represent. -/
theorem exists_ofLedger {rootHex : String} {p : WalletProof} (h : verifyProof rootHex p = true) :
    ∃ (root : Digest32) (q : InclusionProof Digest32), hexToBytes rootHex = some root.val ∧
      p = .ofLedger q ∧ q.index.toNat < 2 ^ 53 ∧ q.leafCount.toNat < 2 ^ 53 := by
  unfold verifyProof at h
  split at h
  · simp at h
  rename_i root hroot
  obtain ⟨hroot, hlen⟩ : hexToBytes rootHex = some root ∧ root.length = 32 := by
    rw [bytesFromHex, Option.bind_eq_some_iff] at hroot
    obtain ⟨b, hb, hroot⟩ := hroot
    split_ifs at hroot with hlen
    obtain rfl : b = root := by simpa using hroot
    exact ⟨hb, hlen⟩
  split at h
  case h_2 => simp at h
  rename_i index leafCount hindex hcount
  split_ifs at h with hsalt hpaths
  split at h
  · simp at h
  rename_i sectionIndex hsec
  obtain ⟨sec, hname⟩ := exists_sectionName hsec
  obtain ⟨hindex, hindexlt⟩ := Number.eq_of_safe? hindex
  obtain ⟨hcount, hcountlt⟩ := Number.eq_of_safe? hcount
  have hdigests : ∀ l : List Bytes, (l.any fun h => h.length ≠ 32) = false →
      ∃ ds : List Digest32, l = ds.map Subtype.val := by
    intro l hl
    rw [List.any_eq_false] at hl
    exact ⟨l.attach.map fun h => ⟨h.1, by simpa using hl h.1 h.2⟩, by simp⟩
  simp only [not_or, Bool.not_eq_true] at hpaths
  obtain ⟨path, hpath⟩ := hdigests _ hpaths.1
  obtain ⟨sectionPath, hsectionPath⟩ := hdigests _ hpaths.2
  have hmod : ∀ n : Nat, n < 2 ^ 53 → (UInt64.ofNat n).toNat = n := by
    intro n hn
    rw [UInt64.toNat_ofNat', Nat.mod_eq_of_lt (by omega)]
  refine ⟨⟨root, hlen⟩, {
    sec, index := UInt64.ofNat index, leafCount := UInt64.ofNat leafCount
    key := p.key, value := p.value, leafSalt := ⟨p.leafSalt, not_not.1 hsalt⟩
    path, sectionPath }, hroot, ?_, ?_, ?_⟩
  · obtain ⟨sec', index', count', key, value, leafSalt, path', sectionPath'⟩ := p
    simp only at hname hindex hcount hpath hsectionPath
    simp only [WalletProof.ofLedger, hname, hindex, hcount, hpath, hsectionPath, hmod _ hindexlt,
      hmod _ hcountlt]
  · simpa only [hmod _ hindexlt] using hindexlt
  · simpa only [hmod _ hcountlt] using hcountlt

/-- **The wallet's verifier is the ledger's.** -/
theorem verifyProof_iff_verify :
    (∀ (rootHex : String) (root : Digest32) (p : InclusionProof Digest32),
      hexToBytes rootHex = some root.val → p.index.toNat < 2 ^ 53 → p.leafCount.toNat < 2 ^ 53 →
        (verifyProof rootHex (.ofLedger p) = true ↔ StateRoot.verify root p = true)) ∧
    (∀ (rootHex : String) (p : WalletProof), verifyProof rootHex p = true →
      ∃ (root : Digest32) (q : InclusionProof Digest32), hexToBytes rootHex = some root.val ∧
        p = .ofLedger q ∧ StateRoot.verify root q = true) := by
  constructor
  · intro rootHex root p hroot hindex hcount
    rw [verifyProof_ofLedger hroot hindex hcount]
  · intro rootHex p h
    obtain ⟨root, q, hroot, rfl, hindex, hcount⟩ := exists_ofLedger h
    exact ⟨root, q, hroot, rfl, by rwa [verifyProof_ofLedger hroot hindex hcount] at h⟩

end Verifier

/-- A digest of the first thirty-two bytes. -/
@[reducible] def headDigest : Sha256 where
  sha256 b := ⟨(b ++ List.replicate 32 0).take 32, by simp⟩

/-- A digest of thirty-two zeroes. -/
def zeroes : Digest32 := ⟨List.replicate 32 0, by simp⟩

/-- A proof of the second leaf of two. -/
def secondOfTwo : InclusionProof Digest32 where
  sec := .members
  index := 1
  leafCount := 2
  key := ⟨[0], by decide⟩
  value := ⟨[1], by decide⟩
  leafSalt := zeroes
  path := [zeroes]
  sectionPath := [zeroes, zeroes, zeroes]

/-- The root it climbs to. -/
def rootOfTwo : Digest32 :=
  ⟨[1, 1, 1, 2] ++ ascii "edet-section-v1" ++ [0] ++ be64 2 ++ [1, 0, 0, 0], by decide +kernel⟩

/-- The wallet accepts the proof against that root, and refuses it against another; a proof it
accepts is one that the ledger made. -/
theorem verifyProof_iff_verify_secondOfTwo :
    @verifyProof headDigest "0x01010102656465742d73656374696f6e2d763100000000000000000201000000"
        (.ofLedger secondOfTwo) = true ∧
      @verifyProof headDigest ("0x" ++ String.ofList (List.replicate 64 '0'))
        (.ofLedger secondOfTwo) = false ∧
      ∃ (root : Digest32) (q : InclusionProof Digest32), root = rootOfTwo ∧
        WalletProof.ofLedger secondOfTwo = .ofLedger q ∧
        @StateRoot.verify Digest32 (@Digest32.instDigest headDigest) _ root q = true := by
  have haccepted : @verifyProof headDigest
      "0x01010102656465742d73656374696f6e2d763100000000000000000201000000"
      (.ofLedger secondOfTwo) = true :=
    ((@verifyProof_iff_verify headDigest).1 _ rootOfTwo _ (by decide +kernel) (by decide)
      (by decide)).2 (by decide +kernel)
  refine ⟨haccepted, ?_, ?_⟩
  · rw [← Bool.not_eq_true, (@verifyProof_iff_verify headDigest).1 _ zeroes secondOfTwo
      (by decide +kernel) (by decide) (by decide)]
    decide +kernel
  · obtain ⟨root, q, hroot, heq, hverify⟩ := (@verifyProof_iff_verify headDigest).2 _ _ haccepted
    refine ⟨root, q, Subtype.ext ?_, heq, hverify⟩
    exact Option.some_injective _ (hroot.symm.trans (by decide +kernel))

end Wallet

end Edet
