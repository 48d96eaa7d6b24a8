import Edet.Node.Parts

/-!
# The store

What a node keeps on disk: the log of blocks, the commit certificates, the histories of
the validator set and of its keys, and the latest snapshot. Each log is a sequence of
frames; the indexes find the frame of a height. An index entry here is the frame it points
to, not its offset.

Two conventions differ: the first block of a height is the one that is found
(`appendBlock`), and the last certificate (`appendCertificate`).
-/

namespace Edet.Node

/-- What consensus hands over with a decision. -/
structure Certificate (D : Type) where
  height : Nat
  round : Round
  valueId : D
  signatures : List (Address × Bytes)
deriving DecidableEq

structure Store (σ D : Type) where
  /-- The encodings of the blocks, in the order of their appends. -/
  wal : List Bytes := []
  blockIndex : OrdMap Nat Bytes := ∅
  certificates : List (Nat × Certificate D) := []
  certIndex : OrdMap Nat (Certificate D) := ∅
  validators : List (Nat × OrdMap MemberId Nat) := []
  keys : List (Nat × OrdMap MemberId Key) := []
  snapshot : Option (Nat × σ) := none

namespace Store

variable {σ D : Type}

def appendBlock (block : Block) (s : Store σ D) : Store σ D :=
  { s with
    wal := s.wal ++ [block.encode]
    blockIndex := s.blockIndex.insertIfNew block.height block.encode }

def findBlock (s : Store σ D) (height : Nat) : Option Block :=
  s.blockIndex[height]?.bind Block.decode

def appendCertificate (height : Nat) (certificate : Certificate D) (s : Store σ D) : Store σ D :=
  { s with
    certificates := s.certificates ++ [(height, certificate)]
    certIndex := s.certIndex.insert height certificate }

def findCertificate (s : Store σ D) (height : Nat) : Option (Certificate D) := s.certIndex[height]?

def appendValidatorSet (height : Nat) (validators : OrdMap MemberId Nat) (s : Store σ D) :
    Store σ D :=
  { s with validators := s.validators ++ [(height, validators)] }

def appendValidatorKeys (height : Nat) (keys : OrdMap MemberId Key) (s : Store σ D) : Store σ D :=
  { s with keys := s.keys ++ [(height, keys)] }

def writeSnapshot (height : Nat) (state : σ) (s : Store σ D) : Store σ D :=
  { s with snapshot := some (height, state) }

/-- The index of a log that is read from its start: the last frame of a height stays. -/
def index {α : Type} (log : List (Nat × α)) : OrdMap Nat α :=
  log.foldl (fun m p => m.insert p.1 p.2) ∅

/-- The frames of a log that read as blocks, each with its height. -/
def blockFrames (wal : List Bytes) : List (Nat × Bytes) :=
  wal.filterMap fun p => (Block.decode p).map fun b => (b.height, p)

/-- Drop what is below a height. A log from which nothing would be dropped is not
rewritten, and where the log of blocks is not, the certificates are not looked at. -/
def pruneBelow (keepFrom : Nat) (s : Store σ D) : Store σ D :=
  if keepFrom = 0 ∨ s.blockIndex.minKey?.all (fun lowest => decide (keepFrom ≤ lowest)) then s
  else
    let wal := s.wal.filter fun p => (Block.decode p).all fun b => decide (keepFrom ≤ b.height)
    if wal.length = s.wal.length then s
    else
      let s := { s with wal, blockIndex := index (blockFrames wal) }
      let certificates := s.certificates.filter fun p => decide (keepFrom ≤ p.1)
      if certificates.length = s.certificates.length then s
      else { s with certificates, certIndex := index certificates }

/-! ### Indexes -/

/-- The last entry of a height. -/
def lastOf {α : Type} (log : List (Nat × α)) (height : Nat) : Option α :=
  (log.reverse.find? fun p => decide (p.1 = height)).map Prod.snd

theorem lastOf_append {α : Type} (log : List (Nat × α)) (h : Nat) (a : α) (height : Nat) :
    lastOf (log ++ [(h, a)]) height = if h = height then some a else lastOf log height := by
  unfold lastOf
  rw [List.reverse_append, List.reverse_singleton, List.singleton_append]
  by_cases hh : h = height
  · rw [List.find?_cons_of_pos (by simpa using hh), if_pos hh]
    rfl
  · rw [List.find?_cons_of_neg (by simpa using hh), if_neg hh]

theorem lastOf_filter {α : Type} (log : List (Nat × α)) (keepFrom height : Nat) :
    lastOf (log.filter fun p => decide (keepFrom ≤ p.1)) height =
      if keepFrom ≤ height then lastOf log height else none := by
  unfold lastOf
  rw [← List.filter_reverse, List.find?_filter]
  split
  case isTrue hle =>
    refine congrArg (Option.map Prod.snd) (congrFun (congrArg _ (funext fun p => ?_)) _)
    by_cases hp : p.1 = height
    · subst hp
      simp [hle]
    · simp [hp]
  case isFalse hlt =>
    rw [List.find?_eq_none.2 fun p _ => ?_]
    · rfl
    · simp only [decide_eq_true_eq, not_and]
      omega

theorem getElem?_index {α : Type} (log : List (Nat × α)) (height : Nat) :
    (index log)[height]? = lastOf log height := by
  induction log using List.reverseRecOn with
  | nil => exact Std.ExtTreeMap.getElem?_empty
  | append_singleton log p ih =>
    obtain ⟨h, a⟩ := p
    rw [lastOf_append, ← ih, index, List.foldl_append]
    show ((index log).insert h a)[height]? = _
    rw [Std.ExtTreeMap.getElem?_insert]
    by_cases hh : h = height
    · rw [if_pos (Std.compare_eq_iff_eq.2 hh), if_pos hh]
    · rw [if_neg fun hc => hh (Std.compare_eq_iff_eq.1 hc), if_neg hh]

theorem mem_of_lastOf {α : Type} {log : List (Nat × α)} {height : Nat} {a : α}
    (h : lastOf log height = some a) : (height, a) ∈ log := by
  obtain ⟨⟨k, b⟩, hfind, rfl⟩ := Option.map_eq_some_iff.1 h
  have hk : k = height := by simpa using List.find?_some hfind
  subst hk
  exact List.mem_reverse.1 (List.mem_of_find?_eq_some hfind)

/-- **The indexes are sound**: what is found for a height is a frame of that height, and
the last certificate. -/
structure Indexed (s : Store σ D) : Prop where
  block : ∀ (h : Nat) (p : Bytes), s.blockIndex[h]? = some p →
    p ∈ s.wal ∧ ∃ b, Block.decode p = some b ∧ b.height = h
  certificate : ∀ h : Nat, s.certIndex[h]? = lastOf s.certificates h

theorem Indexed.appendBlock {s : Store σ D} (h : s.Indexed) {block : Block} (hfits : block.Fits) :
    (s.appendBlock block).Indexed := by
  refine ⟨fun k p hget => ?_, h.certificate⟩
  simp only [Store.appendBlock, Std.ExtTreeMap.getElem?_insertIfNew] at hget ⊢
  split at hget
  case isTrue hnew =>
    obtain rfl := Std.compare_eq_iff_eq.1 hnew.1
    obtain rfl := Option.some.inj hget
    exact ⟨List.mem_append_right _ (List.mem_singleton.2 rfl), block,
      Block.decode_encode hfits, rfl⟩
  case isFalse =>
    obtain ⟨hmem, hb⟩ := h.block k p hget
    exact ⟨List.mem_append_left _ hmem, hb⟩

theorem Indexed.appendCertificate {s : Store σ D} (h : s.Indexed) (height : Nat)
    (certificate : Certificate D) : (s.appendCertificate height certificate).Indexed := by
  refine ⟨h.block, fun k => ?_⟩
  simp only [Store.appendCertificate, lastOf_append, Std.ExtTreeMap.getElem?_insert]
  by_cases hk : height = k
  · rw [if_pos (Std.compare_eq_iff_eq.2 hk), if_pos hk]
  · rw [if_neg fun hc => hk (Std.compare_eq_iff_eq.1 hc), if_neg hk, h.certificate k]

/-- Every frame that is left was there, and the last certificate of its height is the one
it was. -/
theorem Indexed.pruneBelow {s : Store σ D} (h : s.Indexed) (keepFrom : Nat) :
    (s.pruneBelow keepFrom).Indexed ∧ ∀ p ∈ (s.pruneBelow keepFrom).wal, p ∈ s.wal ∧
      ∀ b, Block.decode p = some b → lastOf (s.pruneBelow keepFrom).certificates b.height =
        lastOf s.certificates b.height := by
  unfold Store.pruneBelow
  split
  case isTrue => exact ⟨h, fun p hp => ⟨hp, fun b _ => rfl⟩⟩
  case isFalse =>
    dsimp only
    split
    case isTrue => exact ⟨h, fun p hp => ⟨hp, fun b _ => rfl⟩⟩
    case isFalse =>
      have hblock (wal : List Bytes) (k : Nat) (p : Bytes)
          (hget : (index (blockFrames wal))[k]? = some p) :
          p ∈ wal ∧ ∃ b, Block.decode p = some b ∧ b.height = k := by
        rw [getElem?_index] at hget
        obtain ⟨q, hq, hmap⟩ := List.mem_filterMap.1 (mem_of_lastOf hget)
        obtain ⟨b, hb, heq⟩ := Option.map_eq_some_iff.1 hmap
        obtain ⟨rfl, rfl⟩ := Prod.mk.inj heq
        exact ⟨hq, b, hb, rfl⟩
      split
      case isTrue =>
        refine ⟨⟨fun k p => hblock _ k p, h.certificate⟩, fun p hp => ?_⟩
        exact ⟨(List.mem_filter.1 hp).1, fun b _ => rfl⟩
      case isFalse =>
        refine ⟨⟨fun k p => hblock _ k p, fun k => getElem?_index _ k⟩, fun p hp => ?_⟩
        obtain ⟨hmem, hkeep⟩ := List.mem_filter.1 hp
        refine ⟨hmem, fun b hb => ?_⟩
        rw [hb] at hkeep
        rw [lastOf_filter, if_pos (by simpa using hkeep)]

end Store

end Edet.Node
