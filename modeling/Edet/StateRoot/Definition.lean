import Edet.Ledger.State
import Edet.Library.Bytes
import Edet.Library.PromotionTree

/-!
# The state root and its proofs

The state root commits to the whole ledger: seven **sections** of records, each hashed
into a promotion tree, and the seven section roots hashed into a tree above them. A leaf
commits to its salt, its section, its position and its record; a section root commits to
the number of its leaves. `prove` hands out one record with the siblings on its way up,
and `verify` checks it against a root.

Two things stand outside this file. The hash is a parameter, `Digest`: a function from
byte strings to digests, and the bytes a digest is written as. The encoding of a record
is a parameter, `Codec`: nothing here reads what it writes, only that it may fail.
-/

namespace Edet

/-- A byte vector: its length is a machine word. -/
structure ByteVec where
  data : Bytes
  fits : data.length < 2 ^ 64
deriving DecidableEq

@[ext] theorem ByteVec.ext {a b : ByteVec} (h : a.data = b.data) : a = b := by
  cases a; cases b; congr

/-- A hash: digests, and the bytes a digest is written as inside a preimage. -/
class Digest (D : Type) where
  sha256 : Bytes → D
  bytes : D → Bytes

/-- The hash taken as injective, with digests whose bytes delimit themselves (those of
the real one have a fixed width). -/
structure Digest.Ideal (D : Type) [Digest D] : Prop where
  injective : Function.Injective (Digest.sha256 (D := D))
  delimited : SelfDelimiting (fun _ : D => True) Digest.bytes

/-- A root could not be computed, and why. -/
structure RootError where
  message : String
deriving DecidableEq

namespace StateRoot

/-! ### Sections -/

inductive Section
  | members
  | contracts
  | proposals
  | validators
  | stakes
  | replay
  | ledger
deriving DecidableEq

namespace Section

def all : List Section :=
  [.members, .contracts, .proposals, .validators, .stakes, .replay, .ledger]

/-- The byte that names a section inside a preimage. -/
def tag : Section → UInt8
  | .members => 0
  | .contracts => 1
  | .proposals => 2
  | .validators => 3
  | .stakes => 5
  | .replay => 6
  | .ledger => 4

/-- A section's place in the top tree: its index in `all`, not its tag. -/
def position (sec : Section) : Nat := all.idxOf sec

theorem getElem?_position (sec : Section) : all[sec.position]? = some sec := by
  cases sec <;> rfl

theorem position_lt (sec : Section) : sec.position < all.length := by
  cases sec <;> decide

end Section

/-! ### Preimages -/

/-- The bytes of an ASCII text. -/
def ascii (text : String) : Bytes := text.toList.map fun c => UInt8.ofNat c.toNat

def saltDomain : Bytes := ascii "edet-leaf-salt-v4"
def leafDomain : Bytes := ascii "edet-leaf-v3"
def sectionDomain : Bytes := ascii "edet-section-v1"
def emptyDomain : Bytes := ascii "edet-empty-section-v1"

def leafPrefix : UInt8 := 0x00
def innerPrefix : UInt8 := 0x01
def sectionPrefix : UInt8 := 0x02

variable {D : Type} [Digest D]

open Digest

/-- A word, highest byte first. -/
def be64 (n : Nat) : Bytes := beBytes 8 n

def beLen (b : ByteVec) : Bytes := be64 b.data.length

def saltMarker (s : State) : Nat := s.epoch

def valueDigest (value : ByteVec) : D := sha256 value.data

def leafSalt (rootSalt : Key) (marker : Nat) (sec : Section) (key : ByteVec)
    (valueDigest : D) : D :=
  sha256 (saltDomain ++ beBytes 32 rootSalt.toNat ++ be64 marker ++ [sec.tag] ++ beLen key ++
    key.data ++ bytes valueDigest)

def leafHash (salt : D) (sec : Section) (index : UInt64) (key value : ByteVec) : D :=
  sha256 ([leafPrefix] ++ leafDomain ++ bytes salt ++ [sec.tag] ++ be64 index.toNat ++
    beLen key ++ key.data ++ beLen value ++ value.data)

def innerHash (left right : D) : D := sha256 ([innerPrefix] ++ bytes left ++ bytes right)

def sectionHash (sec : Section) (count : UInt64) (leavesRoot : D) : D :=
  sha256 ([sectionPrefix] ++ sectionDomain ++ [sec.tag] ++ be64 count.toNat ++ bytes leavesRoot)

def emptySection : D := sha256 emptyDomain

/-! ### The tree -/

/-- Fold a level, from its `i`-th pair on, into the one above it, with the tracked
position there and the sibling met on the way. -/
def foldLevel (track : Option Nat) : Nat → List D → List D × Option Nat × Option D
  | _, [] => ([], none, none)
  | i, [only] => ([only], if track = some (2 * i) then some i else none, none)
  | i, l :: r :: rest =>
    let (up, nextTrack, sibling) := foldLevel track (i + 1) rest
    if track = some (2 * i) then (innerHash l r :: up, some i, some r)
    else if track = some (2 * i + 1) then (innerHash l r :: up, some i, some l)
    else (innerHash l r :: up, nextTrack, sibling)

theorem foldLevel_fst (track : Option Nat) (i : Nat) (l : List D) :
    (foldLevel track i l).1 = PromotionTree.levelUp innerHash l := by
  induction l using PromotionTree.levelUp.induct generalizing i with
  | case1 => rfl
  | case2 only => rfl
  | case3 l r rest ih =>
    simp only [foldLevel]
    split_ifs <;> simp [ih]

/-- The root over some leaves, with the siblings from `index` if one is asked for. -/
def merkle : List D → Option Nat → D × List D
  | [], _ => (emptySection, [])
  | [only], _ => (only, [])
  | l :: r :: rest, track =>
    let level := foldLevel track 0 (l :: r :: rest)
    let above := merkle level.1 level.2.1
    (above.1, level.2.2.toList ++ above.2)
termination_by l => l.length
decreasing_by
  rw [foldLevel_fst, PromotionTree.length_levelUp]
  simp only [List.length_cons]
  omega

/-- Fold one node up a tree of `count` leaves from position `index`: nothing for an index
out of range, a missing sibling, or one left over. -/
def foldPath (leaf : D) (index count : UInt64) (siblings : List D) : Option D :=
  if count ≤ index then none
  else PromotionTree.climb innerHash leaf index.toNat count.toNat siblings

/-! ### What a section holds -/

/-- An id or an epoch as the key of a leaf. -/
def idKey (id : Nat) : ByteVec where
  data := be64 id
  fits := by simp [be64]

/-- One creditor's arcs: debtor, stake, credit reserved and seat reserved. -/
def stakeRow (edges : Flow.Edges) (reserved seatReserved : Flow.Reservations)
    (creditor : Nat) : List (Nat × Nat × Nat × Nat) :=
  let arcs (m : OrdMap (Nat × Nat) Nat) := m.toList.filter fun a => a.1.1 = creditor
  let put (f : Nat → Nat × Nat × Nat → Nat × Nat × Nat)
      (row : OrdMap Nat (Nat × Nat × Nat)) (a : (Nat × Nat) × Nat) :=
    row.insert a.1.2 (f a.2 (row.getD a.1.2 (0, 0, 0)))
  let row := (arcs edges).foldl (put fun w e => (w, e.2.1, e.2.2)) ∅
  let row := (arcs reserved).foldl (put fun r e => (e.1, r, e.2.2)) row
  let row := (arcs seatReserved).foldl (put fun r e => (e.1, e.2.1, r)) row
  row.toList

/-- The accounts with a stake row: the members, and any creditor the graph names. -/
def stakeKeys (s : State) : OrdSet Nat :=
  (s.members.keys ++ s.edges.keys.map Prod.fst ++ s.reserved.keys.map Prod.fst ++
    s.seatReserved.keys.map Prod.fst).foldl (fun keys c => keys.insert c) ∅

/-- The last epoch of the replay window that opens at `epoch`. -/
def replayEnd (epoch : Nat) : Nat := horizon epoch Constants.maxTxLifetimeEpochs

/-- The epochs the replay section has a leaf for. -/
def replayWindow (epoch : Nat) : List Nat :=
  (List.range (replayEnd epoch + 1 - epoch)).map (epoch + ·)

def replayBucket (s : State) (epoch : Nat) : OrdSet TxId :=
  s.appliedByExpiry.getD epoch ∅

/-- Refuse a replay cache with a bucket the section has no position for. -/
def checkReplayWindow (s : State) : Except RootError Unit :=
  let ends := [s.appliedByExpiry.minKey?, s.appliedByExpiry.maxKey?].filterMap id
  match ends.find? fun e => e < s.epoch ∨ replayEnd s.epoch < e with
  | none => .ok ()
  | some e => .error ⟨s!"replay bucket {e} is outside the window [{s.epoch}, {replayEnd s.epoch}] the section is defined over"⟩

/-- What is left of the state: everything the six keyed sections do not hold, save the
salt (which every leaf is hashed with) and the index of keys (a function of the members). -/
structure LedgerLeaf where
  params : Params
  epoch : Nat
  nextMember : MemberId
  nextContract : ContractId
  nextProposal : ProposalId
  seedAmendedThisEpoch : Nat
  chainId : String
  lastBeginSecs : Nat
  underwriters : OrdMap MemberId Nat
  committed : Flow.Committed
  seatCommitted : Flow.Committed
  forfeitReserve : OrdMap MemberId Nat

/-- The encoding of records: each may fail with a message. -/
structure Codec where
  member : Member → Except String ByteVec
  contract : Contract → Except String ByteVec
  proposal : Proposal → Except String ByteVec
  power : Nat → Except String ByteVec
  stakeRow : List (Nat × Nat × Nat × Nat) → Except String ByteVec
  bucket : OrdSet TxId → Except String ByteVec
  ledger : LedgerLeaf → Except String ByteVec

/-- An encoding, under the name its failure is reported by. -/
def encode (what : String) (encoded : Except String ByteVec) : Except RootError ByteVec :=
  encoded.mapError fun e => ⟨s!"encoding {what}: {e}"⟩

variable (C : Codec) (s : State)

/-- One section's leaves: each key with the hash of its leaf. -/
abbrev Leaves (D : Type) := List (ByteVec × D)

/-- The hash of the leaf that a record has in this state. -/
def recordLeaf (sec : Section) (index : Nat) (key value : ByteVec) : D :=
  let salt : D := leafSalt s.rootSalt (saltMarker s) sec key (valueDigest value : D)
  leafHash salt sec (UInt64.ofNat index) key value

/-- Leaves in the order of the entries. -/
def recordLeaves {V : Type} (sec : Section) (entries : List (Nat × V))
    (encoded : V → Except RootError ByteVec) : Except RootError (Leaves D) :=
  entries.zipIdx.mapM fun e => do
    let bytes ← encoded e.1.2
    pure (idKey e.1.1, recordLeaf s sec e.2 (idKey e.1.1) bytes)

def State.ledgerLeaf : LedgerLeaf where
  params := s.params
  epoch := s.epoch
  nextMember := s.nextMember
  nextContract := s.nextContract
  nextProposal := s.nextProposal
  seedAmendedThisEpoch := s.seedAmendedThisEpoch
  chainId := s.chainId
  lastBeginSecs := s.lastBeginSecs
  underwriters := s.underwriters
  committed := s.committed
  seatCommitted := s.seatCommitted
  forfeitReserve := s.forfeitReserve

def emptyKey : ByteVec := ⟨[], by simp⟩

/-- The ledger leaf: its encoded value and its hash. -/
def ledgerLeaf : Except RootError (ByteVec × D) := do
  let bytes ← encode "ledger" (C.ledger (State.ledgerLeaf s))
  pure (bytes, recordLeaf s .ledger 0 emptyKey bytes)

def sectionLeaves : Section → Except RootError (Leaves D)
  | .members =>
    recordLeaves s .members s.members.toList fun m => encode "member" (C.member m)
  | .contracts =>
    recordLeaves s .contracts s.contracts.toList fun c => encode "contract" (C.contract c)
  | .proposals =>
    recordLeaves s .proposals s.proposals.toList fun p => encode "proposal" (C.proposal p)
  | .validators =>
    recordLeaves s .validators s.validators.toList fun p => encode "validator" (C.power p)
  | .stakes =>
    recordLeaves s .stakes
      ((stakeKeys s).toList.map fun c => (c, stakeRow s.edges s.reserved s.seatReserved c))
      fun row => encode "stake row" (C.stakeRow row)
  | .replay => do
    checkReplayWindow s
    recordLeaves s .replay ((replayWindow s.epoch).map fun e => (e, replayBucket s e))
      fun ids => encode "replay bucket" (C.bucket ids)
  | .ledger => do
    let leaf ← ledgerLeaf C s
    pure [(emptyKey, leaf.2)]

/-- Every section's leaves, by the section's position, and the ledger leaf's value. -/
structure Sections (D : Type) where
  leaves : List (Leaves D)
  ledgerValue : ByteVec

def Sections.get (built : Sections D) (sec : Section) : Leaves D :=
  built.leaves.getD sec.position []

def sections : Except RootError (Sections D) := do
  let leaves ← Section.all.mapM fun sec => sectionLeaves C s sec
  let ledger : ByteVec × D ← ledgerLeaf C s
  pure { leaves, ledgerValue := ledger.1 }

def hashes (entries : Leaves D) : List D := entries.map Prod.snd

/-- The section roots, in the order of the top tree. -/
def sectionRoots (built : Sections D) : List D :=
  Section.all.map fun sec =>
    let entries := built.get sec
    sectionHash sec (UInt64.ofNat entries.length) (merkle (hashes entries) none).1

def stateRoot : Except RootError D := do
  let built ← sections C s
  pure (merkle (sectionRoots built) none).1

/-! ### Proofs -/

/-- One record, provable against a root without the ledger. -/
structure InclusionProof (D : Type) where
  sec : Section
  /-- The leaf's position among its section's leaves. -/
  index : UInt64
  /-- How many leaves the section held. -/
  leafCount : UInt64
  key : ByteVec
  value : ByteVec
  leafSalt : D
  /-- Sibling hashes, from the leaf up to the root of its section's leaves. -/
  path : List D
  /-- Sibling hashes, from the section root up to the state root. -/
  sectionPath : List D
deriving DecidableEq

/-- Does the graph hold a row for this account? -/
def holdsAStakeRow (id : Nat) : Bool :=
  let names (m : OrdMap (Nat × Nat) Nat) := m.keys.any fun arc => arc.1 = id
  s.members.contains id || names s.edges || names s.reserved || names s.seatReserved

/-- The id or epoch that a key spells, where it is one. -/
def keyId (key : ByteVec) : Option Nat :=
  if key.data.length = 8 then some (leNat key.data.reverse) else none

/-- The bytes a leaf of a keyed section commits to. -/
def recordValue (sec : Section) (key : ByteVec) : Except RootError (Option ByteVec) :=
  match sec, keyId key with
  | .members, some id =>
    s.members[id]?.mapM fun m => encode "member" (C.member m)
  | .contracts, some id =>
    s.contracts[id]?.mapM fun c => encode "contract" (C.contract c)
  | .proposals, some id =>
    s.proposals[id]?.mapM fun p => encode "proposal" (C.proposal p)
  | .validators, some id =>
    s.validators[id]?.mapM fun p => encode "validator" (C.power p)
  | .stakes, some id =>
    if holdsAStakeRow s id then
      some <$> encode "stake row" (C.stakeRow (stakeRow s.edges s.reserved s.seatReserved id))
    else pure none
  | .replay, some epoch =>
    if s.epoch ≤ epoch ∧ epoch ≤ replayEnd s.epoch then
      some <$> encode "replay bucket" (C.bucket (replayBucket s epoch))
    else pure none
  | _, _ => pure none

def leafValue (built : Sections D) (sec : Section) (key : ByteVec) :
    Except RootError (Option ByteVec) :=
  if sec = .ledger then pure (if key = emptyKey then some built.ledgerValue else none)
  else recordValue C s sec key

/-- Prove that `key` holds its value in a section; nothing for a key that is not there. -/
def prove (sec : Section) (key : ByteVec) : Except RootError (Option (InclusionProof D)) := do
  let built ← sections C s
  let entries := built.get sec
  match entries.findIdx? fun e => e.1 = key with
  | none => pure none
  | some index =>
    match ← leafValue C s built sec key with
    | none => throw ⟨"a leaf present in the section had no value"⟩
    | some value =>
      pure <| some {
        sec := sec
        index := UInt64.ofNat index
        leafCount := UInt64.ofNat entries.length
        key, value
        leafSalt := leafSalt s.rootSalt (saltMarker s) sec key (valueDigest value : D)
        path := (merkle (hashes entries) (some index)).2
        sectionPath := (merkle (sectionRoots built) (some sec.position)).2 }

/-- Check a proof against a root. -/
def verify [DecidableEq D] (root : D) (proof : InclusionProof D) : Bool :=
  let leaf := leafHash proof.leafSalt proof.sec proof.index proof.key proof.value
  match foldPath leaf proof.index proof.leafCount proof.path with
  | none => false
  | some leavesRoot =>
    let sectionRoot := sectionHash proof.sec proof.leafCount leavesRoot
    match foldPath sectionRoot (UInt64.ofNat proof.sec.position)
      (UInt64.ofNat Section.all.length) proof.sectionPath with
    | none => false
    | some top => top = root

end StateRoot

end Edet
