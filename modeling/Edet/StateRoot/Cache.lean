import Edet.Ledger.Journal
import Edet.Library.PromotionLevels
import Edet.StateRoot.Definition

/-!
# The cached root

A replica does not hash its whole ledger again for every block. It keeps the trees of the
seven sections (`RootCache`) and, from what the journals marked, rewrites the leaves that
moved and folds up from them (`patch`). Where that cannot be done in place,
because a leaf has come or gone in the middle, the section is built again; and all of them
are where the epoch has changed, which every leaf is salted with.

`refresh` brings the cache to a state and answers its root; `RootCache.prove` proves a
record from the trees that are kept.
-/

namespace Edet.StateRoot

open Digest

variable {D : Type} [Digest D]

/-! ### The tree of a section -/

/-- A section's leaves, the levels of the tree over them, and its root. -/
@[ext] structure SectionTree (D : Type) where
  leaves : Leaves D
  /-- The leaves' hashes first, up to the root of the leaves. -/
  levels : List (List D)
  root : D

def leavesRoot (levels : List (List D)) : D := (PromotionTree.topOf levels).getD emptySection

namespace SectionTree

/-- The root of a section over its leaves' levels. -/
def rootOver (sec : Section) (leaves : Leaves D) (levels : List (List D)) : D :=
  sectionHash sec (UInt64.ofNat leaves.length) (leavesRoot levels)

def built (sec : Section) (leaves : Leaves D) : SectionTree D :=
  let levels := PromotionTree.levels innerHash (hashes leaves)
  { leaves, levels, root := rootOver sec leaves levels }

/-- Fold up again from the leaves at some positions. -/
def refold [Inhabited D] (sec : Section) (dirty : List Nat) (tree : SectionTree D) :
    SectionTree D :=
  let levels :=
    PromotionTree.refold innerHash default (tree.levels.headD []) tree.levels.tail dirty
  { tree with levels, root := rootOver sec tree.leaves levels }

/-- The siblings of a leaf. -/
def path (tree : SectionTree D) (index : Nat) : List D :=
  PromotionTree.siblingsOf tree.levels index

/-- Rewrite the hash of a leaf that is there. -/
def setLeaf (index : Nat) (hash : D) (tree : SectionTree D) : SectionTree D :=
  { tree with
    leaves := tree.leaves.modify index fun e => (e.1, hash)
    levels := tree.levels.modifyHead fun level => level.set index hash }

def pushLeaf (key : ByteVec) (hash : D) (tree : SectionTree D) : SectionTree D :=
  { tree with
    leaves := tree.leaves ++ [(key, hash)]
    levels := tree.levels.modifyHead fun level => level ++ [hash] }

end SectionTree

/-- Where a key stands among leaves in the order of their keys, or else where it would. -/
def search (leaves : Leaves D) (key : ByteVec) : Except Nat Nat :=
  match leaves.findIdx? fun e => e.1 = key with
  | some index => .ok index
  | none => .error (leaves.countP fun e => e.1.data < key.data)

/-! ### What the journals say -/

/-- What to do about a section: nothing, rewrite the leaves of some keys, or build it. -/
inductive Patch
  | clean
  | keys (keys : List ByteVec)
  | all

/-- The keys of a set of ids, in order. -/
def idKeys (ids : OrdSet Nat) : List ByteVec := ids.toList.map idKey

def idsPatch : Dirty Nat → Patch
  | .clean => .clean
  | .all => .all
  | .keys ids => .keys (idKeys ids)

/-- The accounts a journal names; nothing where it names all of them. -/
def namedIds {κ : Type} [Ord κ] [Std.TransOrd κ] (account : κ → Nat) : Dirty κ → Option (List Nat)
  | .clean => some []
  | .keys ks => some (ks.toList.map account)
  | .all => none

/-- The stake rows are fed by four maps: the members, and the three the arcs are in, where
a row is its creditor's. -/
def stakesPatch (j : Journals) : Patch :=
  match namedIds id j.members, namedIds Prod.fst j.edges, namedIds Prod.fst j.reserved,
    namedIds Prod.fst j.seatReserved with
  | some members, some edges, some reserved, some seatReserved =>
    let ids := (members ++ edges ++ reserved ++ seatReserved).foldl
      (fun ids id => ids.insert id) (∅ : OrdSet Nat)
    if ids.isEmpty then .clean else .keys (idKeys ids)
  | _, _, _, _ => .all

def takePatches (j : Journals) : Section → Patch
  | .members => idsPatch j.members
  | .contracts => idsPatch j.contracts
  | .proposals => idsPatch j.proposals
  | .stakes => stakesPatch j
  | .replay => idsPatch j.appliedByExpiry
  -- no journal stands before what these two hold: they are built every time
  | .validators => .clean
  | .ledger => .clean

/-! ### The cache -/

structure RootCache (D : Type) where
  /-- The epoch the leaves are salted with; nothing while the cache is cold. -/
  marker : Option Nat
  sections : Section → SectionTree D
  root : D
  ledgerValue : ByteVec

/-- Steps of a refresh: they write the cache, and may fail. -/
abbrev Refreshing (D : Type) := Op (RootCache D) RootError

namespace RootCache

/-- A cache that was never refreshed. -/
def cold [Inhabited D] : RootCache D where
  marker := none
  sections _ := { leaves := [], levels := [], root := default }
  root := default
  ledgerValue := emptyKey

def setTree (sec : Section) (tree : SectionTree D) (c : RootCache D) : RootCache D :=
  { c with sections := Function.update c.sections sec tree }

/-- The section roots, in the order of the top tree. -/
def sectionRoots (c : RootCache D) : List D := Section.all.map fun sec => (c.sections sec).root

end RootCache

section Refresh

variable (C : Codec) (s : State)

/-- Build one section. -/
def rebuild (sec : Section) : Refreshing D Unit := do
  let leaves ← Op.check fun _ => sectionLeaves C s sec
  Op.write (RootCache.setTree sec (.built sec leaves))

/-- Rewrite or append the leaves of some keys, and name their positions; nothing if one of
them has gone or stands between others. -/
def patchKeys (sec : Section) :
    List ByteVec → List Nat → Op (SectionTree D) RootError (Option (List Nat))
  | [], dirty => pure (some dirty)
  | key :: keys, dirty => do
    let value ← Op.check fun _ => recordValue C s sec key
    let place ← Op.ask fun tree => search tree.leaves key
    let count ← Op.ask fun tree => tree.leaves.length
    match value, place with
    | some value, .ok index => do
      Op.write (SectionTree.setLeaf index (recordLeaf s sec index key value))
      patchKeys sec keys (index :: dirty)
    | some value, .error index =>
      if index = count then do
        Op.write (SectionTree.pushLeaf key (recordLeaf s sec index key value))
        patchKeys sec keys (index :: dirty)
      else pure none
    -- a record made and unmade between two refreshes never had a leaf
    | none, .error _ => patchKeys sec keys dirty
    | none, .ok _ => pure none

/-- Patch one section in place, if that can be done. -/
def patch [Inhabited D] (sec : Section) (keys : List ByteVec) : Refreshing D Bool := do
  let patched ← Op.draw fun c =>
    let out := Op.exec (patchKeys C s sec keys []) (c.sections sec)
    (out.1, c.setTree sec out.2)
  let dirty ← Op.check fun _ => patched
  match dirty with
  | none => pure false
  | some dirty => do
    Op.write fun c => c.setTree sec ((c.sections sec).refold sec dirty)
    pure true

/-- Bring one section to the state. -/
def refreshSection [Inhabited D] (patches : Section → Patch) (sec : Section) :
    Refreshing D PUnit :=
  if sec = .validators ∨ sec = .ledger then rebuild C s sec
  else
    match patches sec with
    | .clean => pure ()
    | .all => rebuild C s sec
    | .keys keys => do
      let patched ← patch C s sec keys
      if patched then pure () else rebuild C s sec

/-- Fold the section roots, and answer the root. -/
def closeRoot : Refreshing D D := do
  Op.write fun c => { c with root := (merkle c.sectionRoots none).1 }
  Op.ask (·.root)

/-- Build everything. -/
def fullBuild : Refreshing D D := do
  let built : Sections D ← Op.check fun _ => StateRoot.sections C s
  Op.write fun c =>
    { c with
      sections := fun sec => .built sec (built.get sec)
      ledgerValue := built.ledgerValue
      marker := some (saltMarker s) }
  closeRoot

/-- **Bring the cache to a state** and answer its root. -/
def refresh [Inhabited D] (l : Ledger) : Refreshing D D := do
  let marker ← Op.ask (·.marker)
  if marker ≠ some (saltMarker l.state) then fullBuild C l.state
  else do
    Op.check fun _ => checkReplayWindow l.state
    Section.all.forM (refreshSection C l.state (takePatches l.journals))
    let leaf : ByteVec × D ← Op.check fun _ => ledgerLeaf C l.state
    Op.write fun c => { c with ledgerValue := leaf.1 }
    closeRoot

/-- Prove a record from the kept trees. -/
def RootCache.prove (c : RootCache D) (sec : Section) (key : ByteVec) :
    Except RootError (Option (InclusionProof D)) := do
  if c.marker.isNone then
    throw ⟨"the root cache is cold: refresh it before proving from it"⟩
  let tree := c.sections sec
  match search tree.leaves key with
  | .error _ => pure none
  | .ok index =>
    let value ←
      if sec = .ledger then pure c.ledgerValue
      else
        match ← recordValue C s sec key with
        | some value => pure value
        | none => throw ⟨"a leaf present in the section had no value"⟩
    pure <| some {
      sec := sec
      index := UInt64.ofNat index
      leafCount := UInt64.ofNat tree.leaves.length
      key, value
      leafSalt := leafSalt s.rootSalt (saltMarker s) sec key (valueDigest value : D)
      path := tree.path index
      sectionPath := (merkle c.sectionRoots (some sec.position)).2 }

end Refresh

/-! ### A ledger and its cache -/

/-- A ledger with the cache of its root. -/
structure Kept (D : Type) where
  cache : RootCache D
  ledger : Ledger

namespace Kept

variable [Inhabited D] (C : Codec)

/-- Refresh the cache. The journals are drained whatever comes of it. -/
def refresh (k : Kept D) : Except RootError D × Kept D :=
  let out := Op.exec (StateRoot.refresh C k.ledger) k.cache
  (out.1, { cache := out.2, ledger := k.ledger.drained })

/-- Forget what is kept. -/
def discard (k : Kept D) : Kept D :=
  { cache := { k.cache with marker := none }, ledger := k.ledger.drained }

end Kept

end Edet.StateRoot
