import Edet.Library.Frames
import Edet.Library.Runs
import Edet.Node.Block

/-!
# Durability

The files of a store byte for byte: the log of blocks, the histories of the validators and of their
keys, and the certificates. A log grows by whole frames, and a crash leaves some of the bytes of the
last one (`Event.crash`).

An open passes a torn frame over, but it leaves it in the file, and the next append goes behind it
(`openStore` truncates only where a frame is damaged). There the appended frame is read as the rest
of the torn one: a block that was appended is lost. As long as every append goes to a log with
nothing torn behind its frames (`Lands`), every later open succeeds and reads back what was
appended, in order (`appended_read_back`).
-/

namespace Edet.Durable

open Encoding (u64 seq reads_u64 reads_seq reads_key readKey)
open Frames
open Node (Block readByte reads_byte)

/-! ### What the logs hold -/

inductive Log
  | wal
  | validators
  | keys
  | certificates
deriving DecidableEq

/-- What is appended to a log: a block, or something as of a height. -/
abbrev Entry : Log → Type
  | .wal => Block
  | .validators => Nat × OrdMap MemberId Nat
  | .keys => Nat × OrdMap MemberId Key
  | .certificates => Nat × Bytes

section Rows

variable {α : Type}

/-- A map as of a height. -/
def encodeRows (enc : α → Bytes) (e : Nat × OrdMap MemberId α) : Bytes :=
  u64 e.1 ++ seq (fun row => u64 row.1 ++ enc row.2) e.2.toList

def readRow (r : Reader α) : Reader (MemberId × α) := do
  let id ← Reader.uint 8
  let a ← r
  pure (id, a)

def readRows (r : Reader α) : Reader (Nat × OrdMap MemberId α) := do
  let height ← Reader.uint 8
  let rows ← Reader.seq (readRow r)
  pure (height, Std.ExtTreeMap.ofList rows compare)

/-- The numbers of a history's entry are machine words. -/
structure FitsRows (e : Nat × OrdMap MemberId α) : Prop where
  height : e.1 < 2 ^ 64
  length : e.2.toList.length < 2 ^ 64
  member : ∀ row ∈ e.2.toList, row.1 < 2 ^ 64

theorem ofList_toList (m : OrdMap MemberId α) : Std.ExtTreeMap.ofList m.toList compare = m := by
  refine Std.ExtTreeMap.ext_getElem? fun k => ?_
  cases hget : m[k]? with
  | some v =>
    exact Std.ExtTreeMap.getElem?_ofList_of_mem (Std.compare_eq_iff_eq.2 rfl)
      Std.ExtTreeMap.distinct_keys_toList (Std.ExtTreeMap.mem_toList_iff_getElem?_eq_some.2 hget)
  | none =>
    refine Std.ExtTreeMap.getElem?_ofList_of_contains_eq_false ?_
    rw [Bool.eq_false_iff]
    intro hcontains
    obtain ⟨⟨k', v⟩, hmem, rfl⟩ := List.mem_map.1 (List.contains_iff_mem.1 hcontains)
    rw [OrdMap.mem_toList.1 hmem] at hget
    cases hget

theorem reads_rows {enc : α → Bytes} {r : Reader α} {e : Nat × OrdMap MemberId α} (h : FitsRows e)
    (hr : ∀ row ∈ e.2.toList, Reads r (enc row.2) row.2) :
    Reads (readRows r) (encodeRows enc e) e := by
  have hrow : ∀ row ∈ e.2.toList, Reads (readRow r) (u64 row.1 ++ enc row.2) row := by
    intro row hmem
    have := (reads_u64 (h.member row hmem)).bind (f := fun id => r >>= fun a => pure (id, a))
      ((hr row hmem).bind (Reads.pure _))
    rwa [List.append_nil] at this
  have hread := (reads_u64 h.height).bind
    (f := fun height => Reader.seq (readRow r) >>= fun rows =>
      pure (height, Std.ExtTreeMap.ofList rows compare))
    ((reads_seq h.length hrow).bind (Reads.pure _))
  rw [List.append_nil, ofList_toList] at hread
  exact hread

end Rows

def payload : {log : Log} → Entry log → Bytes
  | .wal, block => block.encode
  | .validators, e => encodeRows u64 e
  | .keys, e => encodeRows Encoding.key e
  | .certificates, e => u64 e.1 ++ seq (fun b => [b]) e.2

def readCertificate : Reader (Nat × Bytes) := do
  let height ← Reader.uint 8
  let bytes ← Reader.seq readByte
  pure (height, bytes)

/-- What a payload says; what follows it is not looked at. -/
def decode : (log : Log) → Bytes → Option (Entry log)
  | .wal, bytes => Block.decode bytes
  | .validators, bytes => Prod.fst <$> (readRows (Reader.uint 8)).run bytes
  | .keys, bytes => Prod.fst <$> (readRows readKey).run bytes
  | .certificates, bytes => Prod.fst <$> readCertificate.run bytes

/-- The numbers and lengths of an entry are machine words. -/
def Fits : {log : Log} → Entry log → Prop
  | .wal, block => block.Fits
  | .validators, e => FitsRows e ∧ ∀ row ∈ e.2.toList, row.2 < 2 ^ 64
  | .keys, e => FitsRows e
  | .certificates, e => e.1 < 2 ^ 64 ∧ e.2.length < 2 ^ 64

theorem fst_run {α : Type} {r : Reader α} {code : Bytes} {a : α} (h : Reads r code a) :
    Prod.fst <$> r.run code = some a := by
  have := h []
  rw [List.append_nil] at this
  rw [this]
  rfl

theorem decode_payload {log : Log} {e : Entry log} (h : Fits e) : decode log (payload e) = some e := by
  cases log with
  | wal => exact Block.decode_encode h
  | validators => exact fst_run (reads_rows h.1 fun row hrow => reads_u64 (h.2 row hrow))
  | keys => exact fst_run (reads_rows h fun row _ => reads_key row.2)
  | certificates =>
    have hread := (reads_u64 h.1).bind
      (f := fun height => Reader.seq readByte >>= fun bytes => pure (height, bytes))
      ((reads_seq h.2 fun b _ => reads_byte b).bind (Reads.pure _))
    rw [List.append_nil] at hread
    exact fst_run hread

/-! ### The store -/

inductive StoreError
  | codec
  | corrupt (detail : String)
deriving DecidableEq

structure Disk where
  files : Log → Bytes := fun _ => []
  /-- The height in the header of the snapshot. -/
  snapshotHeight : Option Nat := none

/-- What an open store keeps in memory. -/
structure Store where
  /-- Where the frame of a height starts. -/
  blockIndex : OrdMap Nat Nat
  /-- Where the frames start that cannot be read and are not needed. -/
  degraded : OrdSet Nat

def Disk.write (disk : Disk) (log : Log) (bytes : Bytes) : Disk :=
  { disk with files := Function.update disk.files log bytes }

@[simp] theorem Disk.files_write (disk : Disk) (log : Log) (bytes : Bytes) :
    (disk.write log bytes).files log = bytes :=
  Function.update_self ..

theorem Disk.files_write_of_ne {disk : Disk} {log log' : Log} (h : log' ≠ log) (bytes : Bytes) :
    (disk.write log bytes).files log' = disk.files log' :=
  Function.update_of_ne h ..

variable (digest : Bytes → FrameDigest)

/-- The height that a frame of blocks says, if it can be read. -/
def blockHeight (payload : Bytes) : Option Nat := (Block.decode payload).map Block.height

def certificateHeight (payload : Bytes) : Option Nat :=
  if 8 ≤ payload.length then some (leNat (payload.take 8)) else none

/-- What the walk over the frames has found, last frame first. -/
structure Scan where
  degraded : OrdSet Nat := ∅
  earliestDamage : Option Nat := none
  nextReadableHeight : Option Nat := none

/-- A frame that cannot be read is not needed if the first one behind it that can is at most one
above the snapshot. -/
def scanFrame (snapshotHeight : Nat) (frame : Nat × Option Nat) (scan : Scan) : Scan :=
  match frame.2, scan.nextReadableHeight with
  | some height, _ => { scan with nextReadableHeight := some height }
  | none, some height =>
    if height - 1 ≤ snapshotHeight then
      { scan with degraded := scan.degraded.insert frame.1 }
    else { scan with earliestDamage := some (scan.earliestDamage.elim frame.1 (min · frame.1)) }
  | none, none =>
    { scan with earliestDamage := some (scan.earliestDamage.elim frame.1 (min · frame.1)) }

/-- The index of the log of blocks, or where the first frame starts that is damaged and needed. -/
def indexWal (bytes : Bytes) (snapshotHeight : Nat) : Except Nat Store :=
  let frames := (walk digest bytes).map fun f => (f.offset, f.payload.bind blockHeight)
  let scan := frames.foldr (scanFrame snapshotHeight) {}
  match scan.earliestDamage with
  | some offset => .error offset
  | none =>
    .ok {
      blockIndex := frames.foldl (fun index frame =>
        frame.2.elim index fun height => index.insertIfNew height frame.1) ∅
      degraded := scan.degraded }

/-- Open the store. The log of blocks is cut where it is damaged, and nowhere else: a torn frame
stays where it is. -/
def openStore (disk : Disk) : Except StoreError (Disk × Store) :=
  let snapshotAt := disk.snapshotHeight.getD 0
  match indexWal digest (disk.files .wal) snapshotAt with
  | .ok store => .ok (disk, store)
  | .error offset =>
    let bytes := (disk.files .wal).take offset
    match indexWal digest bytes snapshotAt with
    | .ok store => .ok (disk.write .wal bytes, store)
    | .error offset => .error (.corrupt s!"unrecoverable WAL frame at offset {offset}")

/-- The block of a frame; nothing for a frame that is not needed. -/
def readBlock (store : Store) (f : Found) : Except StoreError (Option Block) :=
  match f.payload.map Block.decode with
  | some (some block) => .ok (some block)
  | read =>
    if f.offset ∈ store.degraded then .ok none
    else
      match read with
      | some _ => .error .codec
      | none => .error (.corrupt s!"frame at offset {f.offset}")

/-- The blocks of the log, in order. -/
def readWal (disk : Disk) (store : Store) : Except StoreError (List Block) :=
  (walk digest (disk.files .wal)).filterMapM (readBlock store)

/-- The frames of a log that must all be as they were digested. -/
def walkFrames (bytes : Bytes) : Except StoreError (List (Nat × Bytes)) :=
  (walk digest bytes).mapM fun f =>
    match f.payload with
    | some payload => .ok (f.offset, payload)
    | none => .error (.corrupt s!"frame at offset {f.offset}")

def decodeFrame (log : Log) (what : String) (frame : Nat × Bytes) :
    Except StoreError (Entry log) :=
  match decode log frame.2 with
  | some e => .ok e
  | none => .error (.corrupt what)

/-- The entries of a log, in order. -/
def readLog (log : Log) (what : String) (disk : Disk) : Except StoreError (List (Entry log)) := do
  let frames ← walkFrames digest (disk.files log)
  frames.mapM (decodeFrame log what)

def readValidatorHistory := readLog digest .validators "validator frame decode"

def readValidatorKeyHistory := readLog digest .keys "validator-key frame decode"

/-- Append a frame to a log. -/
def append (disk : Disk) {log : Log} (e : Entry log) : Disk :=
  disk.write log (disk.files log ++ frame digest (payload e))

/-- The index behind an append: the first frame of a height stays. -/
def Store.indexed (store : Store) (offset : Nat) : {log : Log} → Entry log → Store
  | .wal, block => { store with blockIndex := store.blockIndex.insertIfNew block.height offset }
  | _, _ => store

/-- The log without the frames below a height, and where the last one of each height starts; `none`
if there is nothing to drop. A frame that cannot be read stays, and a torn one does not. -/
def compact (heightOf : Bytes → Option Nat) (keepFrom : Nat) (bytes : Bytes) :
    Option (Bytes × OrdMap Nat Nat) :=
  let kept := ((walk digest bytes).filter fun f =>
    (f.payload.bind heightOf).all fun height => decide (keepFrom ≤ height)).flatMap Found.raw
  if kept.length = bytes.length then none
  else
    some (kept, (walk digest kept).foldl (fun index f =>
      (f.payload.bind heightOf).elim index fun height => index.insert height f.offset) ∅)

/-- Drop what is below a height. Where no block is dropped, the certificates are not looked at. -/
def pruneBelow (keepFrom : Nat) (disk : Disk) (store : Store) : Disk × Store :=
  if keepFrom = 0 ∨ store.blockIndex.minKey?.all (fun lowest => decide (keepFrom ≤ lowest)) then
    (disk, store)
  else
    match compact digest blockHeight keepFrom (disk.files .wal) with
    | none => (disk, store)
    | some (wal, blockIndex) =>
      let disk := disk.write .wal wal
      let store := { store with blockIndex, degraded := ∅ }
      match compact digest certificateHeight keepFrom (disk.files .certificates) with
      | none => (disk, store)
      | some (certificates, _) => (disk.write .certificates certificates, store)

/-! ### Runs -/

/-- A store over its life: its files, what the running process holds, and what appends returned
`Ok` for. -/
structure Host where
  disk : Disk := {}
  /-- The open store, while a process is running. -/
  store : Option Store := none
  /-- The entries whose appends returned `Ok`, without those that pruning dropped. -/
  acked : (log : Log) → List (Entry log) := fun _ => []

inductive Event
  /-- An append that returns `Ok`. -/
  | append (log : Log) (e : Entry log)
  /-- The process dies after some bytes of an append. -/
  | crash (log : Log) (e : Entry log) (cut : Nat)
  | reopen
  | prune (keepFrom : Nat)
  | snapshot (height : Nat)

def next : Event → Host → Host
  | .reopen, host =>
    match openStore digest host.disk with
    | .ok (disk, store) => { host with disk, store := some store }
    | .error _ => { host with store := none }
  | .append log e, host =>
    match host.store with
    | none => host
    | some store =>
      { disk := append digest host.disk e
        store := some (store.indexed (host.disk.files log).length e)
        acked := Function.update host.acked log (host.acked log ++ [e]) }
  | .crash log e cut, host =>
    match host.store with
    | none => host
    | some _ =>
      { host with
        disk := host.disk.write log (host.disk.files log ++ (frame digest (payload e)).take cut)
        store := none }
  | .prune keepFrom, host =>
    match host.store with
    | none => host
    | some store =>
      let (disk, store) := pruneBelow digest keepFrom host.disk store
      { disk
        store := some store
        acked :=
          if disk.files .wal = host.disk.files .wal then host.acked
          else Function.update host.acked .wal
            ((host.acked .wal).filter fun block => decide (keepFrom ≤ block.height)) }
  | .snapshot height, host =>
    match host.store with
    | none => host
    | some _ => { host with disk := { host.disk with snapshotHeight := some height } }

/-- **An open succeeds, and what was appended is read back, in order and unchanged.** -/
def ReadsBack (host : Host) : Prop :=
  ∃ disk store blocks validators keys, openStore digest host.disk = .ok (disk, store) ∧
    readWal digest disk store = .ok blocks ∧
    readValidatorHistory digest disk = .ok validators ∧
    readValidatorKeyHistory digest disk = .ok keys ∧
    (host.acked .wal).Sublist blocks ∧ (host.acked .validators).Sublist validators ∧
    (host.acked .keys).Sublist keys

/-- The entry that is appended, in full or in part, is one that its types can hold. -/
def WellTyped : Event → Host → Prop
  | .append _ e, _ => Fits e
  | .crash _ e _, _ => Fits e
  | _, _ => True

/-- The payload's length is that of its frame's header, and nothing torn is left behind the frames
of the log. -/
def Lands {log : Log} (e : Entry log) (host : Host) : Prop :=
  (payload e).length < 2 ^ 32 ∧ tailOf (host.disk.files log) = []

/-- What is appended to the logs that an open reads back, in full or in part, lands on whole
frames. -/
def OnWholeFrames : Event → Host → Prop
  | .append log e, host => log ≠ .certificates → Lands e host
  | .crash log e cut, host => log ≠ .certificates → 0 < cut → Lands e host
  | _, _ => True

/-! ### What a log keeps -/

/-- A log whose bytes are whole frames, a torn one behind them or none. What was appended is among
the entries of the frames, in order. -/
def Kept (log : Log) (bytes : Bytes) (acked : List (Entry log)) : Prop :=
  ∃ (entries : List (Entry log)) (tail : Bytes),
    bytes = frames digest (entries.map payload) ++ tail ∧ Torn digest tail ∧
    (∀ e ∈ entries, Fits e ∧ (payload e).length < 2 ^ 32) ∧ acked.Sublist entries

/-- The frame of an entry. -/
structure FrameOf (log : Log) (f : Found) (e : Entry log) : Prop where
  fits : Fits e
  raw : f.raw = frame digest (payload e)
  payload : f.payload = some (Durable.payload e)

variable {digest}

namespace Kept

variable {log : Log} {bytes : Bytes} {acked : List (Entry log)}

theorem empty : Kept digest log [] [] :=
  ⟨[], [], rfl, torn_nil digest, fun _ he => absurd he List.not_mem_nil, List.Sublist.refl _⟩

theorem short {entries : List (Entry log)}
    (h : ∀ e ∈ entries, Fits e ∧ (payload e).length < 2 ^ 32) :
    ∀ p ∈ entries.map payload, p.length < 2 ^ 32 := by
  intro p hp
  obtain ⟨e, he, rfl⟩ := List.mem_map.1 hp
  exact (h e he).2

/-- An append behind whole frames is one more. -/
theorem append (h : Kept digest log bytes acked) (hwhole : tailOf bytes = []) {e : Entry log}
    (hfits : Fits e) (hlen : (payload e).length < 2 ^ 32) :
    Kept digest log (bytes ++ frame digest (payload e)) (acked ++ [e]) := by
  obtain ⟨entries, tail, rfl, htail, hentries, hsub⟩ := h
  rw [tailOf_frames htail (short hentries)] at hwhole
  subst hwhole
  refine ⟨entries ++ [e], [], ?_, htail, fun e' he' => ?_, hsub.append (List.Sublist.refl _)⟩
  · simp [frames]
  · rcases List.mem_append.1 he' with he' | he'
    · exact hentries e' he'
    · obtain rfl := List.mem_singleton.1 he'
      exact ⟨hfits, hlen⟩

/-- A crash behind whole frames leaves a torn one, or a whole one if it came late. -/
theorem crash (h : Kept digest log bytes acked) {e : Entry log} (hfits : Fits e) (cut : Nat)
    (hlands : 0 < cut → (payload e).length < 2 ^ 32 ∧ tailOf bytes = []) :
    Kept digest log (bytes ++ (frame digest (payload e)).take cut) acked := by
  rcases Nat.eq_zero_or_pos cut with rfl | hpos
  · rwa [List.take_zero, List.append_nil]
  obtain ⟨hlen, hwhole⟩ := hlands hpos
  by_cases hcut : cut < 36 + (payload e).length
  · obtain ⟨entries, tail, rfl, htail, hentries, hsub⟩ := h
    rw [tailOf_frames htail (short hentries)] at hwhole
    subst hwhole
    refine ⟨entries, _, ?_, ⟨payload e, cut, hlen, hcut, rfl⟩, hentries, hsub⟩
    rw [List.append_nil]
  · have htake : (frame digest (payload e)).take cut = frame digest (payload e) :=
      List.take_of_length_le (by rw [length_frame]; omega)
    rw [htake]
    obtain ⟨entries, tail, hbytes, htail, hentries, hsub⟩ := h.append hwhole hfits hlen
    exact ⟨entries, tail, hbytes, htail, hentries, (List.sublist_append_left ..).trans hsub⟩

/-- The walk finds the entries, one frame each. -/
theorem walk {entries : List (Entry log)} {tail : Bytes} (htail : Torn digest tail)
    (hentries : ∀ e ∈ entries, Fits e ∧ (payload e).length < 2 ^ 32) :
    List.Forall₂ (FrameOf digest log) (walk digest (frames digest (entries.map payload) ++ tail))
      entries := by
  have hwalk := walkFrom_frames htail (short hentries) 0
  rw [List.map_map, ← List.forall₂_eq_eq_eq, List.forall₂_map_left_iff,
    List.forall₂_map_right_iff] at hwalk
  have hfits := (List.forall₂_and_left _ _).2 ⟨fun e he => (hentries e he).1, hwalk.flip⟩
  refine (hfits.imp fun e f hfe => ?_).flip
  exact ⟨hfe.1, congrArg Prod.fst hfe.2, congrArg Prod.snd hfe.2⟩

end Kept

/-! ### Reading a log back -/

/-- What a fallible map makes of every element, it makes of the list. -/
theorem mapM_forall₂ {α β γ ε : Type} {f : α → Except ε β} {R : α → γ → Prop} {S : β → γ → Prop}
    {l : List α} {out : List γ} (h : List.Forall₂ R l out)
    (hf : ∀ a c, R a c → ∃ b, f a = .ok b ∧ S b c) :
    ∃ found, l.mapM f = .ok found ∧ List.Forall₂ S found out := by
  induction h with
  | nil => exact ⟨[], rfl, .nil⟩
  | cons hac _ ih =>
    obtain ⟨b, hb, hbc⟩ := hf _ _ hac
    obtain ⟨found, hfound, hall⟩ := ih
    refine ⟨b :: found, ?_, .cons hbc hall⟩
    rw [List.mapM_cons, hb, hfound]
    rfl

/-- The entries of a log that is kept are read back. -/
theorem readLog_of_kept {log : Log} {disk : Disk} {acked : List (Entry log)}
    (h : Kept digest log (disk.files log) acked) (what : String) :
    ∃ entries, readLog digest log what disk = .ok entries ∧ acked.Sublist entries := by
  obtain ⟨entries, tail, hbytes, htail, hentries, hsub⟩ := h
  obtain ⟨found, hfound, hall⟩ : ∃ found, walkFrames digest (disk.files log) = .ok found ∧
      List.Forall₂ (fun f e => Fits e ∧ f.2 = payload e) found entries := by
    rw [hbytes]
    refine mapM_forall₂ (Kept.walk htail hentries) fun f e hfe => ⟨(f.offset, payload e), ?_, ?_⟩
    · rw [hfe.payload]
    · exact ⟨hfe.fits, rfl⟩
  obtain ⟨read, hread, heq⟩ : ∃ read, found.mapM (decodeFrame log what) = .ok read ∧
      List.Forall₂ (· = ·) read entries := by
    refine mapM_forall₂ hall fun f e hfe => ⟨e, ?_, rfl⟩
    rw [decodeFrame, hfe.2, decode_payload hfe.1]
  rw [List.forall₂_eq_eq_eq] at heq
  subst heq
  refine ⟨read, ?_, hsub⟩
  rw [readLog, hfound]
  exact hread

section Blocks

variable {found : List Found} {blocks : List Block}

theorem FrameOf.height {f : Found} {block : Block} (h : FrameOf digest .wal f block) :
    f.payload.bind blockHeight = some block.height := by
  rw [h.payload, Option.bind_some, blockHeight]
  exact congrArg (Option.map Block.height) (@decode_payload .wal _ h.fits)

/-- Frames that can be read are not damaged. -/
theorem indexWal_of_frames {bytes : Bytes} (snapshotHeight : Nat)
    (h : List.Forall₂ (FrameOf digest .wal) (Frames.walk digest bytes) blocks) :
    ∃ store, indexWal digest bytes snapshotHeight = .ok store := by
  have hscan : ∀ {found : List Found}, List.Forall₂ (FrameOf digest .wal) found blocks →
      ((found.map fun f => (f.offset, f.payload.bind blockHeight)).foldr
        (scanFrame snapshotHeight) {}).earliestDamage = none := by
    clear h
    intro found h
    induction h with
    | nil => rfl
    | cons hfe _ ih => rwa [List.map_cons, List.foldr_cons, hfe.height]
  rw [indexWal, hscan h]
  exact ⟨_, rfl⟩

theorem readBlock_of_frames (store : Store)
    (h : List.Forall₂ (FrameOf digest .wal) found blocks) :
    found.filterMapM (readBlock store) = .ok blocks := by
  induction h with
  | nil => rfl
  | cons hfe _ ih =>
    have hdecode := @decode_payload .wal _ hfe.fits
    rw [List.filterMapM_cons, ih, readBlock, hfe.payload, Option.map_some]
    change Block.decode _ = _ at hdecode
    rw [hdecode]
    rfl

end Blocks

/-- A log of blocks that is kept has nothing damaged: it is opened as it is, and its blocks are read
back. -/
theorem open_of_kept {disk : Disk} {acked : List Block}
    (h : Kept digest .wal (disk.files .wal) acked) :
    ∃ store blocks, openStore digest disk = .ok (disk, store) ∧
      readWal digest disk store = .ok blocks ∧ acked.Sublist blocks := by
  obtain ⟨blocks, tail, hbytes, htail, hentries, hsub⟩ := h
  have hwalk := Kept.walk htail hentries
  rw [← hbytes] at hwalk
  obtain ⟨store, hstore⟩ := indexWal_of_frames (disk.snapshotHeight.getD 0) hwalk
  refine ⟨store, blocks, ?_, readBlock_of_frames store hwalk, hsub⟩
  rw [openStore, hstore]

/-- Compaction keeps the entries that are not below the height. -/
theorem Kept.compact {bytes kept : Bytes} {acked : List Block} {keepFrom : Nat}
    {index : OrdMap Nat Nat} (h : Kept digest .wal bytes acked)
    (hcompact : compact digest blockHeight keepFrom bytes = some (kept, index)) :
    Kept digest .wal kept
      (acked.filter fun block => decide (keepFrom ≤ block.height)) := by
  obtain ⟨blocks, tail, hbytes, htail, hentries, hsub⟩ := h
  have hwalk := Kept.walk htail hentries
  rw [← hbytes] at hwalk
  have hkept := List.rel_filter (p := fun f : Found =>
      (f.payload.bind blockHeight).all fun height => decide (keepFrom ≤ height))
    (q := fun block : Block => decide (keepFrom ≤ block.height))
    (fun f e hfe => by beta_reduce; rw [hfe.height]; exact Iff.rfl) hwalk
  have hraw : ∀ {found : List Found} {blocks : List Block},
      List.Forall₂ (FrameOf digest .wal) found blocks →
      found.flatMap Found.raw = frames digest (blocks.map (@payload .wal)) ++ [] := by
    intro found blocks hframes
    rw [List.append_nil]
    induction hframes with
    | nil => rfl
    | cons hfe _ ih =>
      rw [List.flatMap_cons, ih, hfe.raw]
      rfl
  simp only [Durable.compact] at hcompact
  split at hcompact
  · cases hcompact
  · obtain ⟨rfl, -⟩ := Prod.mk.inj (Option.some.inj hcompact)
    exact ⟨_, [], hraw hkept, torn_nil digest,
      fun e he => hentries e (List.mem_of_mem_filter he), hsub.filter _⟩

/-- Pruning writes the logs of blocks and of certificates only, the former by compaction. -/
theorem pruneBelow_files (keepFrom : Nat) (disk : Disk) (store : Store) :
    (∀ log, log ≠ .wal → log ≠ .certificates →
      (pruneBelow digest keepFrom disk store).1.files log = disk.files log) ∧
    ((pruneBelow digest keepFrom disk store).1.files .wal = disk.files .wal ∨
      ∃ index, compact digest blockHeight keepFrom (disk.files .wal) =
        some ((pruneBelow digest keepFrom disk store).1.files .wal, index)) := by
  unfold pruneBelow
  split
  case isTrue => exact ⟨fun log _ _ => rfl, .inl rfl⟩
  case isFalse =>
    split
    case h_1 => exact ⟨fun log _ _ => rfl, .inl rfl⟩
    case h_2 wal blockIndex hcompact =>
      rw [hcompact]
      dsimp only
      split
      case h_1 =>
        refine ⟨fun log hwal _ => Disk.files_write_of_ne hwal wal, .inr ⟨blockIndex, ?_⟩⟩
        rw [Disk.files_write]
      case h_2 certificates _ _ =>
        refine ⟨fun log hwal hcerts => ?_, .inr ⟨blockIndex, ?_⟩⟩
        · rw [Disk.files_write_of_ne hcerts, Disk.files_write_of_ne hwal]
        · rw [Disk.files_write_of_ne (by decide), Disk.files_write]

/-! ### What a run keeps -/

/-- The logs that an open reads back are kept. -/
def AllKept (digest : Bytes → FrameDigest) (host : Host) : Prop :=
  ∀ log, log ≠ .certificates → Kept digest log (host.disk.files log) (host.acked log)

namespace AllKept

variable {host : Host}

theorem prune (h : AllKept digest host) (keepFrom : Nat) :
    AllKept digest (next digest (.prune keepFrom) host) := by
  cases hstore : host.store with
  | none => simpa only [next, hstore] using h
  | some store =>
    obtain ⟨hother, hwal⟩ := @pruneBelow_files digest keepFrom host.disk store
    intro log hlog
    simp only [next, hstore]
    by_cases heq : log = .wal
    · subst heq
      split
      case isTrue hsame =>
        rw [hsame]
        exact h .wal hlog
      case isFalse hcut =>
        obtain ⟨index, hcompact⟩ := hwal.resolve_left hcut
        rw [Function.update_self]
        exact (h .wal hlog).compact hcompact
    · rw [hother log heq hlog]
      have hacked := h log hlog
      split
      case isTrue => exact hacked
      case isFalse => rwa [Function.update_of_ne heq]

theorem step (h : AllKept digest host) {event : Event} (hfits : WellTyped event host)
    (hlands : OnWholeFrames event host) : AllKept digest (next digest event host) := by
  cases event with
  | reopen =>
    obtain ⟨store, blocks, hopen, -⟩ := open_of_kept (h .wal (by decide))
    intro log hlog
    simp only [next, hopen]
    exact h log hlog
  | append log e =>
    cases hstore : host.store with
    | none => simpa only [next, hstore] using h
    | some store =>
      intro log' hlog'
      simp only [next, hstore, append]
      by_cases heq : log' = log
      · subst heq
        obtain ⟨hlen, hwhole⟩ := hlands hlog'
        rw [Disk.files_write, Function.update_self]
        exact (h log' hlog').append hwhole hfits hlen
      · rw [Disk.files_write_of_ne heq, Function.update_of_ne heq]
        exact h log' hlog'
  | crash log e cut =>
    cases hstore : host.store with
    | none => simpa only [next, hstore] using h
    | some store =>
      intro log' hlog'
      simp only [next, hstore]
      by_cases heq : log' = log
      · subst heq
        rw [Disk.files_write]
        exact (h log' hlog').crash hfits cut (hlands hlog')
      · rw [Disk.files_write_of_ne heq]
        exact h log' hlog'
  | prune keepFrom => exact h.prune keepFrom
  | snapshot height =>
    cases hstore : host.store with
    | none => simpa only [next, hstore] using h
    | some store =>
      intro log hlog
      simp only [next, hstore]
      exact h log hlog

theorem readsBack (h : AllKept digest host) : ReadsBack digest host := by
  obtain ⟨store, blocks, hopen, hblocks, hsub⟩ := open_of_kept (h .wal (by decide))
  obtain ⟨validators, hvalidators, hvsub⟩ :=
    readLog_of_kept (h .validators (by decide)) "validator frame decode"
  obtain ⟨keys, hkeys, hksub⟩ := readLog_of_kept (h .keys (by decide)) "validator-key frame decode"
  exact ⟨host.disk, store, blocks, validators, keys, hopen, hblocks, hvalidators, hkeys, hsub,
    hvsub, hksub⟩

end AllKept

/-! ### A log with one torn frame -/

/-- Where the log of blocks is shorter than its first frame, an open finds none, and leaves it. -/
theorem open_of_short {disk : Disk}
    (h : (disk.files .wal).length < firstLength (disk.files .wal)) :
    openStore digest disk = .ok (disk, ⟨∅, ∅⟩) ∧ ∀ store, readWal digest disk store = .ok [] := by
  have hwalk : walk digest (disk.files .wal) = [] := walkFrom_of_short h 0
  refine ⟨?_, fun store => ?_⟩
  · rw [openStore, indexWal, hwalk]
    rfl
  · rw [readWal, hwalk]
    rfl

theorem reopen_of_torn {disk : Disk} {acked : (log : Log) → List (Entry log)}
    (h : Torn digest (disk.files .wal)) :
    next digest .reopen { disk, acked } = { disk, store := some ⟨∅, ∅⟩, acked } := by
  simp only [next, (open_of_short h.short).1]

/-- A block of one transaction. -/
def longBlock : Block where
  height := 1
  timeSecs := 1
  appHash := 0
  txs := [{
    tx := .markExpired 0
    nonce := ⟨List.replicate 16 2, rfl⟩
    notAfterEpoch := 0
    signers := []
    signatures := [] }]

/-- A block of none. -/
def shortBlock : Block where
  height := 1
  timeSecs := 2
  appHash := 0
  txs := []

theorem longBlock_fits : longBlock.Fits := by
  refine ⟨by simp [longBlock], by simp [longBlock], by simp [longBlock], fun t ht => ?_⟩
  obtain rfl := List.mem_singleton.1 ht
  exact ⟨⟨by simp [Encoding.txWords], by simp [Encoding.txShorts]⟩, by simp, by simp, by simp,
    by simp⟩

theorem shortBlock_fits : shortBlock.Fits :=
  ⟨by simp [shortBlock], by simp [shortBlock], by simp [shortBlock], fun t ht => by cases ht⟩

theorem length_longBlock : longBlock.encode.length = 108 := by decide

theorem length_shortBlock : shortBlock.encode.length = 56 := by decide

/-! ### Durability -/

/-- **What an append returned `Ok` for is durable**, whatever appends, crashes, opens, snapshots and
prunings follow, as long as every append, in full or in part, lands on whole frames. -/
theorem appended_read_back {host : Host}
    (h : Reaches (next digest) (· = {})
      (fun event host => WellTyped event host ∧ OnWholeFrames event host) host) :
    ReadsBack digest host := by
  refine AllKept.readsBack (h.invariant ?_ ?_)
  · rintro host rfl log -
    exact Kept.empty
  · exact fun event host hkept hallowed => hkept.step hallowed.1 hallowed.2

/-- Any thirty-two bytes that depend on what they digest. -/
def sampleDigest (bytes : Bytes) : FrameDigest :=
  ⟨(bytes ++ List.replicate 32 1).take 32, by simp⟩

/-- A block, and a torn one behind it. -/
theorem appended_read_back_torn : ReadsBack sampleDigest
    ([Event.reopen, .append .wal shortBlock, .crash .wal longBlock 36, .reopen].foldl
      (fun host event => next sampleDigest event host) {}) := by
  have hstart : Reaches (next sampleDigest) (· = {})
      (fun event host => WellTyped event host ∧ OnWholeFrames event host) {} := .start rfl
  have hreopen : next sampleDigest .reopen {} = { store := some ⟨∅, ∅⟩ } :=
    reopen_of_torn (torn_nil sampleDigest)
  have hshort : @Lands .wal shortBlock (next sampleDigest .reopen {}) := by
    refine ⟨length_shortBlock.trans_lt (by omega), ?_⟩
    rw [hreopen]
    exact (torn_nil sampleDigest).tailOf
  have hlong : @Lands .wal longBlock
      (next sampleDigest (.append .wal shortBlock) (next sampleDigest .reopen {})) := by
    refine ⟨length_longBlock.trans_lt (by omega), ?_⟩
    have hfiles : (next sampleDigest (.append .wal shortBlock)
        (next sampleDigest .reopen {})).disk.files .wal =
          frame sampleDigest shortBlock.encode ++ [] := by
      rw [hreopen, List.append_nil]
      exact Disk.files_write ..
    rw [hfiles, tailOf_frame sampleDigest (length_shortBlock.trans_lt (by omega))]
    exact (torn_nil sampleDigest).tailOf
  exact appended_read_back (hstart.of_list _ ⟨⟨trivial, trivial⟩, ⟨shortBlock_fits, fun _ => hshort⟩,
    ⟨longBlock_fits, fun _ _ => hlong⟩, ⟨trivial, trivial⟩, trivial⟩)

/-! ### An append behind a torn frame -/

/-- The process dies behind the header of a long frame, is started again and appends a short one. -/
def tornRun : List Event :=
  [.reopen, .crash .wal longBlock 36, .reopen, .append .wal shortBlock]

/-- The log after it. -/
def tornLog (digest : Bytes → FrameDigest) : Bytes :=
  (frame digest longBlock.encode).take 36 ++ frame digest shortBlock.encode

theorem tornLog_short : (tornLog digest).length < firstLength (tornLog digest) := by
  rw [tornLog, firstLength_take (by rw [length_longBlock]; omega) (by omega), List.length_append,
    List.length_take, length_frame, length_frame, length_longBlock, length_shortBlock]
  omega

theorem torn_run : ∃ host, tornRun.foldl (fun host event => next digest event host) {} = host ∧
    host.disk.files .wal = tornLog digest ∧ host.acked .wal = [shortBlock] := by
  let torn := (frame digest longBlock.encode).take 36
  let disk : Disk := Disk.write {} .wal torn
  have hfiles : disk.files .wal = torn := Disk.files_write ..
  have hcrash : next digest (.crash .wal longBlock 36) { store := some ⟨∅, ∅⟩ } = { disk } := rfl
  have htorn : Torn digest (disk.files .wal) :=
    ⟨longBlock.encode, 36, by rw [length_longBlock]; omega, by rw [length_longBlock]; omega, hfiles⟩
  refine ⟨next digest (.append .wal shortBlock) { disk, store := some ⟨∅, ∅⟩ }, ?_, ?_, rfl⟩
  · have hstart : next digest .reopen {} = { store := some ⟨∅, ∅⟩ } := reopen_of_torn (torn_nil digest)
    rw [← reopen_of_torn htorn, ← hcrash, ← hstart]
    rfl
  · exact (Disk.files_write ..).trans (congrArg (· ++ frame digest shortBlock.encode) hfiles)

/-- A block is lost whose append returned `Ok`. -/
theorem torn_append_lost : ¬ ∃ digest : Bytes → FrameDigest, ∀ host : Host,
    Reaches (next digest) (· = {}) WellTyped host → ReadsBack digest host := by
  rintro ⟨digest, hall⟩
  obtain ⟨host, hrun, hfiles, hacked⟩ := @torn_run digest
  have hreaches : Reaches (next digest) (· = {}) WellTyped host := by
    have hstart : Reaches (next digest) (· = {}) WellTyped {} := .start rfl
    rw [← hrun]
    exact hstart.of_list tornRun ⟨trivial, longBlock_fits, trivial, shortBlock_fits, trivial⟩
  obtain ⟨disk, store, blocks, validators, keys, hopen, hblocks, -, -, hsub, -⟩ := hall host hreaches
  obtain ⟨hopens, hreads⟩ := @open_of_short digest host.disk (by
    rw [hfiles]
    exact tornLog_short)
  obtain ⟨rfl, -⟩ := Prod.mk.inj (Except.ok.inj (hopen.symm.trans hopens))
  obtain rfl := Except.ok.inj (hblocks.symm.trans (hreads store))
  rw [hacked] at hsub
  cases hsub

end Edet.Durable
