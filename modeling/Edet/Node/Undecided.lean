import Edet.Node.Decision
import Edet.Node.Durability

/-!
# The cache of undecided values

Whenever the loop changes the values it holds it rewrites `undecided.bin` with their blocks, under
the height of the value that was kept, as one frame (`persistPending`). A node that starts holds
what the file gives (`restorePending`): the blocks of that height, each under the hash of its
encoding, and nothing if the frame is torn.

In every run of messages, restarts and crashes in the middle of a rewrite, the file gives the values
that the node holds of the height the file was written under, and no others
(`restored_of_reaches`): no such value is lost by a restart but by a torn rewrite, and then all are.
-/

namespace Edet.Node

open Encoding

/-! ### The file -/

section File

variable (digest : Bytes → FrameDigest)

/-- What is cached: a height, and some blocks. -/
def undecidedPayload (height : Nat) (blocks : List Block) : Bytes :=
  u64 height ++ seq Block.encode blocks

def readUndecidedPayload : Reader (Nat × List Block) := do
  let height ← Reader.uint 8
  let blocks ← Reader.seq readBlock
  pure (height, blocks)

/-- The file that caches some blocks. -/
def writeUndecided (height : Nat) (blocks : List Block) : Bytes :=
  Frames.frame digest (undecidedPayload height blocks)

/-- What the file caches, where there is one that reads. -/
def readUndecided (file : Option Bytes) : Option (Nat × List Block) := do
  let bytes ← file
  let frames ← (Durable.walkFrames digest bytes).toOption
  let frame ← frames.head?
  Prod.fst <$> readUndecidedPayload.run frame.2

theorem reads_undecidedPayload {height : Nat} (hheight : height < 2 ^ 64) {blocks : List Block}
    (hlength : blocks.length < 2 ^ 64) (hblocks : ∀ b ∈ blocks, b.Fits) :
    Reads readUndecidedPayload (undecidedPayload height blocks) (height, blocks) := by
  have hread := (reads_u64 hheight).bind (f := fun height => do
    let blocks ← Reader.seq readBlock
    pure (height, blocks)) <|
    (reads_seq hlength fun b hb => reads_block (hblocks b hb)).bind (Reads.pure (height, blocks))
  rwa [List.append_nil] at hread

/-- A block takes more than no bytes. -/
theorem length_le_undecidedPayload (height : Nat) (blocks : List Block) :
    blocks.length ≤ (undecidedPayload height blocks).length := by
  have hsum : blocks.length ≤ (blocks.flatMap Block.encode).length := by
    rw [List.length_flatMap]
    induction blocks with
    | nil => exact Nat.zero_le 0
    | cons b blocks ih =>
      have hb : 1 ≤ b.encode.length := by
        simp only [Block.encode, List.flatten_cons, List.length_append, length_u64]
        omega
      rw [List.map_cons, List.sum_cons, List.length_cons]
      omega
  simp only [undecidedPayload, seq, List.length_append]
  omega

variable {digest}

theorem readUndecided_of_frames {bytes : Bytes} {frame : Nat × Bytes} {frames : List (Nat × Bytes)}
    (h : Durable.walkFrames digest bytes = .ok (frame :: frames)) :
    readUndecided digest (some bytes) = Prod.fst <$> readUndecidedPayload.run frame.2 := by
  simp only [readUndecided, h, Except.toOption, Option.bind_eq_bind, Option.bind_some, List.head?_cons]

/-- What was written is read back. -/
theorem readUndecided_writeUndecided {height : Nat} (hheight : height < 2 ^ 64)
    {blocks : List Block} (hblocks : ∀ b ∈ blocks, b.Fits)
    (hlength : (undecidedPayload height blocks).length < 2 ^ 32) :
    readUndecided digest (some (writeUndecided digest height blocks)) = some (height, blocks) := by
  have hwalk := Frames.walkFrom_frame digest hlength [] 0
  rw [(Frames.torn_nil digest).walkFrom, List.append_nil] at hwalk
  have hframes : Durable.walkFrames digest (writeUndecided digest height blocks) =
      .ok [(0, undecidedPayload height blocks)] := by
    rw [Durable.walkFrames, Frames.walk, writeUndecided, hwalk]
    rfl
  have hfew : blocks.length < 2 ^ 64 := by
    have := length_le_undecidedPayload height blocks
    omega
  have hread := reads_undecidedPayload hheight hfew hblocks []
  rw [List.append_nil] at hread
  rw [readUndecided_of_frames hframes, hread]
  rfl

/-- Nothing is read of a file that was torn while it was written. -/
theorem readUndecided_torn {height : Nat} {blocks : List Block}
    (hlength : (undecidedPayload height blocks).length < 2 ^ 32) {written : Nat}
    (htorn : written < (writeUndecided digest height blocks).length) :
    readUndecided digest (some ((writeUndecided digest height blocks).take written)) = none := by
  have hframe : Frames.Torn digest
      ((Frames.frame digest (undecidedPayload height blocks)).take written) :=
    ⟨_, written, hlength, htorn.trans_eq (Frames.length_frame digest _), rfl⟩
  have hwalk := hframe.walkFrom 0
  have hframes : Durable.walkFrames digest ((writeUndecided digest height blocks).take written) =
      .ok [] := by
    rw [Durable.walkFrames, Frames.walk, writeUndecided, hwalk]
    rfl
  rw [readUndecided, Option.bind_eq_bind, Option.bind_some, hframes]
  rfl

theorem fits_of_readUndecided {file : Option Bytes} {height : Nat} {blocks : List Block}
    (h : readUndecided digest file = some (height, blocks)) : ∀ b ∈ blocks, b.Fits := by
  have hyields : Yields readUndecidedPayload fun p => ∀ b ∈ p.2, b.Fits :=
    Yields.any.bind fun _ _ => (Yields.seq yields_block).bind fun _ hblocks =>
      Yields.pure fun b hb => hblocks.2 b hb
  simp only [readUndecided, Option.bind_eq_bind, Option.bind_eq_some_iff] at h
  obtain ⟨bytes, -, frames, -, frame, -, hread⟩ := h
  obtain ⟨⟨p, rest⟩, hread, rfl⟩ := Option.map_eq_some_iff.1 hread
  exact hyields _ _ _ hread

end File

/-! ### What is restored -/

section Restore

variable {D : Type} [Ord D] [Std.TransOrd D]
variable (digest : Bytes → FrameDigest) (sha256 : Bytes → D) (ownAddress : Address)

/-- A value that is held again: what its block does not tell is not known any more. -/
def restoredValue (block : Block) : PendingValue where
  round := .nil
  validRound := .nil
  proposer := ownAddress
  block := block

/-- The cached blocks of a height, held again. -/
def restoreBlocks (height : Nat) (blocks : List Block) : Pending D :=
  blocks.foldl (fun pending block =>
    if block.height ≠ height then pending
    else pending.insert (valueId sha256 block) (restoredValue ownAddress block)) ∅

/-- What a node holds that starts. -/
def restorePending (file : Option Bytes) : Pending D :=
  match readUndecided digest file with
  | none => ∅
  | some (height, blocks) => restoreBlocks sha256 ownAddress height blocks

/-- The blocks that are held. -/
def Pending.blocks (pending : Pending D) : List Block := pending.vals.map PendingValue.block

/-- The file that caches what is held. -/
def persistPending (height : Nat) (pending : Pending D) : Bytes :=
  writeUndecided digest height pending.blocks

variable {digest ownAddress} {sha256}

theorem mem_blocks [Std.LawfulEqOrd D] {pending : Pending D} {b : Block} :
    b ∈ pending.blocks ↔ ∃ (id : D) (v : PendingValue), pending[id]? = some v ∧ v.block = b := by
  simp only [Pending.blocks, List.mem_map, OrdMap.mem_vals]
  exact ⟨fun ⟨v, ⟨id, hv⟩, hb⟩ => ⟨id, v, hv, hb⟩, fun ⟨id, v, hv, hb⟩ => ⟨v, ⟨id, hv⟩, hb⟩⟩

/-- What is restored is cached, of that height, and held under its own hash. -/
theorem mem_restoreBlocks [Std.LawfulEqOrd D] {height : Nat} {blocks : List Block} {id : D}
    {v : PendingValue} (h : (restoreBlocks sha256 ownAddress height blocks)[id]? = some v) :
    v = restoredValue ownAddress v.block ∧ valueId sha256 v.block = id ∧ v.block.height = height ∧
      v.block ∈ blocks := by
  -- by induction on the blocks, the last one inserted last
  induction blocks using List.reverseRecOn with
  | nil => simp [restoreBlocks] at h
  | append_singleton blocks b ih =>
    have hold (h : (restoreBlocks sha256 ownAddress height blocks)[id]? = some v) :
        v = restoredValue ownAddress v.block ∧ valueId sha256 v.block = id ∧
          v.block.height = height ∧ v.block ∈ blocks ++ [b] := by
      obtain ⟨hvalue, hid, hheight, hmem⟩ := ih h
      exact ⟨hvalue, hid, hheight, List.mem_append_left _ hmem⟩
    rw [restoreBlocks, List.foldl_append, List.foldl_cons, List.foldl_nil] at h
    split at h
    · exact hold h
    · next hheight =>
      rw [Std.ExtTreeMap.getElem?_insert] at h
      split at h
      · next hid =>
        obtain rfl := Option.some.inj h
        exact ⟨rfl, Std.LawfulEqOrd.eq_of_compare hid, not_not.1 hheight, by simp [restoredValue]⟩
      · exact hold h

/-- What is cached of that height is restored. -/
theorem restoreBlocks_of_mem [Std.LawfulEqOrd D] {height : Nat} {blocks : List Block} {b : Block}
    (hb : b ∈ blocks) (hheight : b.height = height) :
    ∃ v, (restoreBlocks sha256 ownAddress height blocks)[valueId sha256 b]? = some v := by
  induction blocks using List.reverseRecOn with
  | nil => cases hb
  | append_singleton blocks last ih =>
    rw [restoreBlocks, List.foldl_append, List.foldl_cons, List.foldl_nil]
    rcases List.mem_append.1 hb with hmem | hmem
    · split
      · exact ih hmem
      · rw [Std.ExtTreeMap.getElem?_insert]
        split
        · exact ⟨_, rfl⟩
        · exact ih hmem
    · obtain rfl := List.mem_singleton.1 hmem
      rw [if_neg (not_not.2 hheight), Std.ExtTreeMap.getElem?_insert_self]
      exact ⟨_, rfl⟩

/-- What is restored is restored again. -/
theorem restoreBlocks_restoreBlocks [Std.LawfulEqOrd D] (height : Nat) (blocks : List Block) :
    restoreBlocks sha256 ownAddress height (restoreBlocks sha256 ownAddress height blocks).blocks =
      restoreBlocks sha256 ownAddress height blocks := by
  -- what is read a second time was under its own hash the first time
  have hagain {id : D} {v : PendingValue}
      (h : (restoreBlocks sha256 ownAddress height
        (restoreBlocks sha256 ownAddress height blocks).blocks)[id]? = some v) :
      (restoreBlocks sha256 ownAddress height blocks)[id]? = some v := by
    obtain ⟨hvalue, hid, -, hmem⟩ := mem_restoreBlocks h
    obtain ⟨id', w, hw, hblock⟩ := mem_blocks.1 hmem
    obtain ⟨hw', hid', -, -⟩ := mem_restoreBlocks hw
    rw [hblock] at hw' hid'
    rwa [← hid, hid', hvalue, ← hw']
  refine Std.ExtTreeMap.ext_getElem? fun id => Option.ext fun v => ⟨hagain, fun h => ?_⟩
  obtain ⟨-, hid, hheight, -⟩ := mem_restoreBlocks h
  obtain ⟨w, hw⟩ : ∃ w, (restoreBlocks sha256 ownAddress height
      (restoreBlocks sha256 ownAddress height blocks).blocks)[valueId sha256 v.block]? = some w :=
    restoreBlocks_of_mem (mem_blocks.2 ⟨id, v, h, rfl⟩) hheight
  rw [hid] at hw
  rwa [← (hagain hw).symm.trans h]

end Restore

/-! ### The loop and its cache -/

section Loop

variable {σ D : Type} [Ord D] [Std.TransOrd D] [DecidableEq D]

/-- A node, and the file that caches what it holds. -/
structure CachingNode (σ D : Type) [Ord D] where
  engine : Engine σ D
  undecided : Option Bytes := none
  /-- The height the file was last written under; nothing reads it. -/
  cachedHeight : Nat := 0

inductive CacheEvent (σ D : Type)
  | message (e : EngineEvent D)
  /-- The process ends, and another starts with the replica that was recovered. -/
  | restart (replica : Replica σ D)
  /-- The process ends while it rewrites the file after a message, so many bytes of it written. -/
  | crash (e : EngineEvent D) (written : Nat) (replica : Replica σ D)

variable (M : Machine σ) (digest : Bytes → FrameDigest) (sha256 : Bytes → D)
  (certified : σ → OrdMap MemberId Nat → OrdMap MemberId Key → Certificate D → Bool)

/-- The height that the loop writes the file under after an event, if it does. -/
def Engine.persists (e : EngineEvent D) (s : Engine σ D) : Option Nat :=
  if s.stopped then none
  else
    match e with
    | .getValue height _ _ _ => some height
    | .decided certificate io =>
      match verifyDecided certified s.replica s.pending certificate with
      | none => none
      | some block =>
        match Op.exec (commitBlockWithCertificate M io block certificate) s.replica with
        | (.ok _, r) => some r.height
        | _ => none
    | e => (s.answer M sha256 e).bind fun v => if v.validity = .valid then some v.height else none

namespace CachingNode

def start (replica : Replica σ D) (s : CachingNode σ D) : CachingNode σ D :=
  { s with
    engine := { replica, pending := restorePending digest sha256 s.engine.ownAddress s.undecided,
                ownAddress := s.engine.ownAddress } }

def take (e : EngineEvent D) (s : CachingNode σ D) : CachingNode σ D :=
  let engine := s.engine.next M sha256 certified e
  match s.engine.persists M sha256 certified e with
  | none => { s with engine }
  | some height =>
    { engine, undecided := some (persistPending digest height engine.pending),
      cachedHeight := height }

def next (e : CacheEvent σ D) (s : CachingNode σ D) : CachingNode σ D :=
  match e with
  | .message e => s.take M digest sha256 certified e
  | .restart replica => s.start digest sha256 replica
  | .crash e written replica =>
    match s.engine.persists M sha256 certified e with
    | none => s.start digest sha256 replica
    | some _ =>
      let cut := s.take M digest sha256 certified e
      { cut with undecided := cut.undecided.map (List.take written) }.start digest sha256 replica

/-- A process that has started, with whatever file it found. -/
def Started (s : CachingNode σ D) : Prop :=
  s.engine.pending = restorePending digest sha256 s.engine.ownAddress s.undecided ∧
    ∀ height blocks, readUndecided digest s.undecided = some (height, blocks) →
      s.cachedHeight = height

/-- What is cached after an event is shorter than a frame can be, and its numbers are machine
words. -/
structure Cacheable (e : EngineEvent D) (s : Engine σ D) : Prop where
  fitting : Fitting e s
  height : ∀ height, s.persists M sha256 certified e = some height → height < 2 ^ 64
  length : ∀ height, s.persists M sha256 certified e = some height →
    (undecidedPayload height (s.next M sha256 certified e).pending.blocks).length < 2 ^ 32

def Allowed (e : CacheEvent σ D) (s : CachingNode σ D) : Prop :=
  match e with
  | .message e | .crash e _ _ => Cacheable M sha256 certified e s.engine
  | .restart _ => True

/-- The file gives what is held of the height it was written under. -/
structure Cached (s : CachingNode σ D) : Prop where
  restored : restorePending digest sha256 s.engine.ownAddress s.undecided =
    restoreBlocks sha256 s.engine.ownAddress s.cachedHeight s.engine.pending.blocks
  filed : s.engine.Filed sha256

end CachingNode

variable {M} {digest} {sha256} {certified}

omit [DecidableEq D] in
theorem Engine.Filed.fits [Std.LawfulEqOrd D] {s : Engine σ D} (h : s.Filed sha256) :
    ∀ b ∈ s.pending.blocks, b.Fits := by
  intro b hb
  obtain ⟨id, v, hv, rfl⟩ := mem_blocks.1 hb
  obtain ⟨bytes, -, hdecode⟩ := h id v hv
  exact Block.fits_of_decode hdecode

theorem Engine.ownAddress_next (e : EngineEvent D) (s : Engine σ D) :
    (s.next M sha256 certified e).ownAddress = s.ownAddress := by
  unfold Engine.next
  split
  · rfl
  · cases e with
    | decided certificate io =>
      show (s.decide M certified certificate io).ownAddress = _
      unfold Engine.decide
      split
      · rfl
      · split <;> rfl
    | part | synced | getValue => rfl

/-- An event after which the file is not rewritten leaves what is held. -/
theorem Engine.pending_of_not_persists {e : EngineEvent D} {s : Engine σ D}
    (h : s.persists M sha256 certified e = none) :
    (s.next M sha256 certified e).pending = s.pending := by
  cases hrun : s.stopped with
  | true => rw [Engine.next_of_stopped hrun]
  | false =>
    unfold Engine.persists at h
    rw [hrun, if_neg Bool.false_ne_true] at h
    -- a message is persisted exactly if its value was answered valid, and only then kept
    have hmessage (he : (∃ sender msg now, e = .part sender msg now) ∨
          ∃ height round proposer bytes now, e = .synced height round proposer bytes now)
        (hnone : ((s.answer M sha256 e).bind fun v =>
          if v.validity = .valid then some v.height else none) = none) :
        (s.next M sha256 certified e).pending = s.pending := by
      rw [(Engine.pending_of_message hrun he).2.2]
      cases hanswer : s.answer M sha256 e with
      | none => rfl
      | some v =>
        rw [hanswer, Option.bind_some] at hnone
        split at hnone
        · cases hnone
        · next hinvalid => exact if_neg hinvalid
    cases e with
    | part sender msg now => exact hmessage (.inl ⟨sender, msg, now, rfl⟩) h
    | synced height round proposer bytes now =>
      exact hmessage (.inr ⟨height, round, proposer, bytes, now, rfl⟩) h
    | getValue => cases h
    | decided certificate io =>
      simp only [Engine.next, hrun, Bool.false_eq_true, if_false, Engine.decide]
      dsimp only at h
      generalize verifyDecided certified s.replica s.pending certificate = verified at h ⊢
      cases verified with
      | none => rfl
      | some block =>
        dsimp only at h ⊢
        generalize (commitBlockWithCertificate M io block certificate).exec s.replica = out at h ⊢
        obtain ⟨err | _, r⟩ := out
        · -- a block that does not commit is not let go
          cases err <;> rfl
        · cases h

namespace CachingNode

variable [Std.LawfulEqOrd D]

omit [DecidableEq D] in
/-- A process that starts with a file that gives some blocks which fit. -/
theorem cached_of_restored {s : CachingNode σ D} (blocks : List Block)
    (hheld : s.engine.pending = restorePending digest sha256 s.engine.ownAddress s.undecided)
    (hfile : restorePending digest sha256 s.engine.ownAddress s.undecided =
      restoreBlocks sha256 s.engine.ownAddress s.cachedHeight blocks)
    (hfits : ∀ b ∈ blocks, b.Fits) : s.Cached digest sha256 where
  restored := by rw [hheld, hfile, restoreBlocks_restoreBlocks]
  filed := by
    intro id v hv
    rw [hheld, hfile] at hv
    obtain ⟨-, rfl, -, hmem⟩ := mem_restoreBlocks hv
    exact names_valueId (hfits _ hmem)

omit [DecidableEq D] in
theorem cached_of_started {s : CachingNode σ D} (h : s.Started digest sha256) :
    s.Cached digest sha256 := by
  cases hread : readUndecided digest s.undecided with
  | none =>
    refine cached_of_restored [] h.1 ?_ fun b hb => absurd hb List.not_mem_nil
    rw [restorePending, hread]
    rfl
  | some cached =>
    refine cached_of_restored cached.2 h.1 ?_ (fits_of_readUndecided hread)
    rw [restorePending, hread, h.2 _ _ hread]

/-- The file that is written after a message gives what is held then. -/
theorem restore_persistPending {e : EngineEvent D} {s : Engine σ D} (h : s.Filed sha256)
    (hcache : Cacheable M sha256 certified e s) {height : Nat}
    (hpersists : s.persists M sha256 certified e = some height) (own : Address) :
    restorePending digest sha256 own
        (some (persistPending digest height (s.next M sha256 certified e).pending)) =
      restoreBlocks sha256 own height (s.next M sha256 certified e).pending.blocks := by
  rw [restorePending, persistPending, readUndecided_writeUndecided (hcache.height _ hpersists)
    (h.next hcache.fitting).fits (hcache.length _ hpersists)]

omit [Std.LawfulEqOrd D] in
/-- A process that ended in the middle of writing the file starts with nothing. -/
theorem pending_of_torn {s : CachingNode σ D} {e : EngineEvent D} {written : Nat}
    {replica : Replica σ D} (he : Allowed M sha256 certified (.crash e written replica) s)
    {height : Nat} (hpersists : s.engine.persists M sha256 certified e = some height)
    (htorn : written <
      (persistPending digest height (s.engine.next M sha256 certified e).pending).length) :
    (s.next M digest sha256 certified (.crash e written replica)).engine.pending = ∅ := by
  simp only [CachingNode.next, take, hpersists, start, Option.map_some]
  rw [restorePending, persistPending, readUndecided_torn (he.length _ hpersists) htorn]

/-- **One event keeps the cache.** -/
theorem Cached.next {s : CachingNode σ D} (h : s.Cached digest sha256) {e : CacheEvent σ D}
    (he : Allowed M sha256 certified e s) :
    (s.next M digest sha256 certified e).Cached digest sha256 := by
  have hstart (replica : Replica σ D) : (s.start digest sha256 replica).Cached digest sha256 :=
    cached_of_restored _ rfl h.restored h.filed.fits
  cases e with
  -- what is read back is what was held of that height, and is read back again
  | restart replica => exact hstart replica
  | message e =>
    show (s.take M digest sha256 certified e).Cached digest sha256
    unfold take
    cases hpersists : s.engine.persists M sha256 certified e with
    | none =>
      refine ⟨?_, h.filed.next he.fitting⟩
      show restorePending digest sha256 (s.engine.next M sha256 certified e).ownAddress _ =
        restoreBlocks sha256 (s.engine.next M sha256 certified e).ownAddress _ _
      rw [Engine.ownAddress_next, Engine.pending_of_not_persists hpersists]
      exact h.restored
    | some height => exact ⟨restore_persistPending h.filed he hpersists _, h.filed.next he.fitting⟩
  | crash e written replica =>
    simp only [CachingNode.next, take]
    cases hpersists : s.engine.persists M sha256 certified e with
    | none => exact hstart replica
    | some height =>
      dsimp only
      -- a torn file reads as no file; a whole one as if the process had ended after it
      by_cases htorn : written <
          (persistPending digest height (s.engine.next M sha256 certified e).pending).length
      · refine cached_of_restored [] rfl ?_ fun b hb => absurd hb List.not_mem_nil
        simp only [start, Option.map_some]
        rw [restorePending, persistPending,
          readUndecided_torn (he.length _ hpersists) htorn]
        rfl
      · refine cached_of_restored (s.engine.next M sha256 certified e).pending.blocks rfl ?_
          (h.filed.next he.fitting).fits
        simp only [start, Option.map_some, List.take_of_length_le (Nat.le_of_not_lt htorn)]
        exact restore_persistPending h.filed he hpersists _

theorem cached_of_reaches {s : CachingNode σ D}
    (h : Reaches (fun e s => CachingNode.next M digest sha256 certified e s)
      (Started digest sha256) (Allowed M sha256 certified) s) : s.Cached digest sha256 :=
  h.invariant (fun _ hs => cached_of_started hs) fun _ _ hs he => hs.next he

/-- **A restart gives back what is held** of the height the file was written under, each value under
the hash of its block, and nothing else; and nothing after a crash that cuts the file short. -/
theorem restored_of_reaches (hinjective : Function.Injective sha256) {s : CachingNode σ D}
    (h : Reaches (fun e s => CachingNode.next M digest sha256 certified e s)
      (Started digest sha256) (Allowed M sha256 certified) s) :
    (∀ (id : D) (v : PendingValue),
      (restorePending digest sha256 s.engine.ownAddress s.undecided)[id]? = some v ↔
        ∃ (key : D) (held : PendingValue), s.engine.pending[key]? = some held ∧
          held.block.height = s.cachedHeight ∧ valueId sha256 held.block = id ∧
          v = restoredValue s.engine.ownAddress held.block) ∧
      ∀ (e : EngineEvent D) (written : Nat) (replica : Replica σ D) (height : Nat),
        Allowed M sha256 certified (.crash e written replica) s →
        s.engine.persists M sha256 certified e = some height →
        written <
          (persistPending digest height (s.engine.next M sha256 certified e).pending).length →
        (s.next M digest sha256 certified (.crash e written replica)).engine.pending = ∅ := by
  refine ⟨fun id v => ?_, fun e written replica height he hpersists htorn =>
    pending_of_torn he hpersists htorn⟩
  have hcached := cached_of_reaches h
  rw [hcached.restored]
  constructor
  · intro hv
    obtain ⟨hvalue, hid, hheight, hmem⟩ := mem_restoreBlocks hv
    obtain ⟨key, held, hheld, hblock⟩ := mem_blocks.1 hmem
    rw [← hblock] at hvalue hid hheight
    exact ⟨key, held, hheld, hheight, hid, hvalue⟩
  · rintro ⟨key, held, hheld, hheight, rfl, rfl⟩
    have hmem := mem_blocks.2 ⟨key, held, hheld, rfl⟩
    obtain ⟨w, hw⟩ : ∃ w, (restoreBlocks sha256 s.engine.ownAddress s.cachedHeight
        s.engine.pending.blocks)[valueId sha256 held.block]? = some w :=
      restoreBlocks_of_mem hmem hheight
    obtain ⟨hvalue, hid, -, hrestored⟩ := mem_restoreBlocks hw
    -- the block of that hash is the block that is held
    have hblock : w.block = held.block :=
      Names.unique hinjective (names_valueId (hcached.filed.fits _ hrestored))
        (hid ▸ names_valueId (hcached.filed.fits _ hmem))
    rw [hw, hvalue, hblock]

end CachingNode

end Loop

/-- A digest that says how long the payload is. -/
def lengthDigest (payload : Bytes) : FrameDigest := ⟨leBytes 32 payload.length, length_leBytes 32 _⟩

/-- A node at the start of its chain, asked for a value. -/
def idleCache : CachingNode Unit Nat :=
  CachingNode.next openLedger lengthDigest leNumeral (fun _ _ _ _ => true)
    (.message (.getValue 1 (.some 0) 0 [])) { engine := idleEngine }

/-- A restart gives the block that the node proposed, and a crash in the middle of writing it again
gives none. -/
theorem restored_of_reaches_idleCache :
    (restorePending lengthDigest leNumeral 0
        idleCache.undecided)[valueId leNumeral (emptyBlock 1)]? =
      some (restoredValue 0 (emptyBlock 1)) ∧
    (idleCache.next openLedger lengthDigest leNumeral (fun _ _ _ _ => true)
      (.crash (.getValue 1 (.some 1) 0 []) 50 idleEngine.replica)).engine.pending = ∅ := by
  have hfits : (emptyBlock 1).Fits :=
    ⟨show 1 < 2 ^ 64 by decide, show 0 < 2 ^ 64 by decide, show 0 < 2 ^ 64 by decide,
      fun t ht => absurd ht List.not_mem_nil⟩
  have hallowed : CachingNode.Allowed openLedger leNumeral (fun _ _ _ _ => true)
      (.message (.getValue 1 (.some 0) 0 [])) { engine := idleEngine } :=
    { fitting := hfits
      height := fun height h => by
        obtain rfl : 1 = height := Option.some.inj h
        decide
      length := fun height h => by
        obtain rfl : 1 = height := Option.some.inj h
        decide }
  have hstarted : CachingNode.Started lengthDigest leNumeral { engine := idleEngine } :=
    ⟨rfl, fun _ _ h => nomatch h⟩
  have hreaches : Reaches
      (fun e s => CachingNode.next openLedger lengthDigest leNumeral (fun _ _ _ _ => true) e s)
      (CachingNode.Started lengthDigest leNumeral)
      (CachingNode.Allowed openLedger leNumeral fun _ _ _ _ => true) idleCache :=
    .step (.start hstarted) _ hallowed
  obtain ⟨hrestored, htorn⟩ := CachingNode.restored_of_reaches leNumeral_injective hreaches
  constructor
  · refine (hrestored _ _).2
      ⟨valueId leNumeral (emptyBlock 1), ⟨.some 0, .nil, 0, emptyBlock 1⟩, ?_, rfl, rfl, rfl⟩
    exact Std.ExtTreeMap.getElem?_insert_self
  · refine htorn (.getValue 1 (.some 1) 0 []) 50 idleEngine.replica 1 ?_ rfl (by decide +kernel)
    exact ⟨hfits, fun height h => Option.some.inj h ▸ by decide,
      fun height h => Option.some.inj h ▸ by decide +kernel⟩

end Edet.Node
