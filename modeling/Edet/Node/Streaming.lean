import Edet.Library.Chunks
import Edet.Node.Commit
import Edet.Node.Isolation

/-!
# A streamed block

A proposer cuts its block into parts (`streamValue`), and a peer with an empty buffer puts them
together again. The parts of the block may come in any order before the envelope: each is folded in
(`deliver_streams`), and what is gathered does not depend on the order (`gather_spec`). The peer
then answers the block, judged at the time the envelope comes, if its encoding is no longer than the
cap on a stream, and nothing if it is longer (`streamed_answered`).
-/

namespace Edet.Node

variable {D : Type}

/-! ### The parts of a block -/

/-- A number for the round: that of no round is -1, as 64 bits. -/
def Round.word : Round → Nat
  | .nil => 2 ^ 64 - 1
  | .some r => r

/-- The stream of a proposal: the bytes of its height and its round, as a number. -/
def streamIdFor (height : Nat) (round : Round) : StreamId := height * 2 ^ 64 + round.word

/-- What a proposer sends of a block: where it belongs, its bytes in chunks, their hash. -/
def streamParts (proposer : Address) (height : Nat) (round polRound : Round) (block : Block)
    (blockId : D) : List (ProposalPart D) :=
  .init height round polRound proposer ::
    ((chunks proposalChunkBytes block.encode).zipIdx.map fun p => .chunk (p.2 % 2 ^ 32) p.1) ++
    [.fin blockId]

/-- The parts under their envelope numbers. -/
def streamData (proposer : Address) (height : Nat) (round polRound : Round) (block : Block)
    (blockId : D) : List (StreamMessage D) :=
  (streamParts proposer height round polRound block blockId).zipIdx.map fun p =>
    ⟨streamIdFor height round, p.2, .data p.1⟩

/-- The envelope that closes the stream. -/
def streamEnd (proposer : Address) (height : Nat) (round polRound : Round) (block : Block)
    (blockId : D) : StreamMessage D :=
  ⟨streamIdFor height round,
    (streamParts proposer height round polRound block blockId).length, .fin⟩

def streamValue (proposer : Address) (height : Nat) (round polRound : Round) (block : Block)
    (blockId : D) : List (StreamMessage D) :=
  streamData proposer height round polRound block blockId ++
    [streamEnd proposer height round polRound block blockId]

/-! ### What is gathered -/

/-- The part a message carries. -/
def StreamMessage.part? (m : StreamMessage D) : Option (ProposalPart D) :=
  match m.content with
  | .data part => some part
  | .fin => none

/-- The bytes a message brings. -/
def StreamMessage.size (m : StreamMessage D) : Nat := (m.part?.map ProposalPart.size).getD 0

/-- The chunk of a part, under its own number. -/
def ProposalPart.chunk? : ProposalPart D → Option (Nat × Bytes)
  | .chunk seq bytes => some (seq, bytes)
  | _ => none

def StreamMessage.chunk? (m : StreamMessage D) : Option (Nat × Bytes) :=
  m.part?.bind ProposalPart.chunk?

/-- A message folded into an assembly that nothing refuses. -/
def Assembly.take (a : Assembly D) (m : StreamMessage D) : Assembly D :=
  match m.part? with
  | some part => { a with seenSequences := a.seenSequences.insert m.sequence }.fold part
  | none => a

def gather (ms : List (StreamMessage D)) : Assembly D := ms.foldl Assembly.take {}

theorem gather_concat (ms : List (StreamMessage D)) (m : StreamMessage D) :
    gather (ms ++ [m]) = (gather ms).take m := by
  rw [gather, List.foldl_append]
  rfl

theorem seenSequences_fold (a : Assembly D) (part : ProposalPart D) :
    (a.fold part).seenSequences = a.seenSequences := by
  cases part with
  | init => rfl
  | fin => rfl
  | chunk seq bytes =>
    rw [Assembly.fold]
    split <;> rfl

/-- The numbers recorded are those of the parts. -/
theorem seen_gather {ms : List (StreamMessage D)} (hdata : ∀ m ∈ ms, m.part?.isSome = true) (n : Nat) :
    (gather ms).seenSequences.contains n = true ↔ n ∈ ms.map StreamMessage.sequence := by
  -- by induction on what has arrived, the last message first
  induction ms using List.reverseRecOn with
  | nil => simp [gather]
  | append_singleton ms m ih =>
    obtain ⟨part, hpart⟩ := Option.isSome_iff_exists.1 (hdata m (by simp))
    have ih := ih fun m' hm' => hdata m' (List.mem_append_left _ hm')
    rw [gather_concat, Assembly.take, hpart, seenSequences_fold, List.map_append, List.mem_append,
      ← ih]
    show (Std.ExtTreeSet.insert _ m.sequence).contains n = true ↔ _
    rw [Std.ExtTreeSet.contains_insert, Bool.or_eq_true, beq_iff_eq, Nat.compare_eq_eq,
      List.map_singleton, List.mem_singleton, or_comm, eq_comm (a := n)]

/-- However it was gathered, an assembly is within its caps. -/
theorem capped_gather (ms : List (StreamMessage D)) : ∃ S, (gather ms).Capped S := by
  induction ms using List.reverseRecOn with
  | nil => exact ⟨0, Assembly.capped_new 0⟩
  | append_singleton ms m ih =>
    obtain ⟨S, h⟩ := ih
    rw [gather_concat, Assembly.take]
    cases m.part? with
    | none => exact ⟨S, h⟩
    | some part =>
      have hseen : Assembly.Capped (S + 1) { gather ms with
          seenSequences := (gather ms).seenSequences.insert m.sequence } :=
        ⟨h.chunks, h.counter, h.bytes, Std.ExtTreeSet.size_insert_le.trans
          (Nat.succ_le_succ h.seen)⟩
      exact ⟨S + 1, (hseen.fold part).1⟩

/-- **What is gathered of chunks** that are few and short enough, and numbered apart: their bytes are
counted, and each is there under its number. -/
theorem gather_spec {ms : List (StreamMessage D)}
    (hchunks : (ms.filterMap StreamMessage.chunk?).length ≤ maxChunksPerStream)
    (hbytes : (ms.map StreamMessage.size).sum ≤ maxStreamBytes)
    (hdistinct : ((ms.filterMap StreamMessage.chunk?).map Prod.fst).Nodup) :
    (gather ms).bytes = (ms.map StreamMessage.size).sum ∧
      (gather ms).chunks.size = (ms.filterMap StreamMessage.chunk?).length ∧
      ∀ (i : Nat) (b : Bytes),
        (gather ms).chunks[i]? = some b ↔ (i, b) ∈ ms.filterMap StreamMessage.chunk? := by
  induction ms using List.reverseRecOn with
  | nil => exact ⟨rfl, rfl, fun i b => by simp [gather]⟩
  | append_singleton ms m ih =>
    rw [List.filterMap_append] at hchunks hdistinct ⊢
    rw [List.map_append, List.sum_append] at hbytes ⊢
    rw [List.length_append] at hchunks
    obtain ⟨hcount, hsize, hget⟩ := ih ((Nat.le_add_right _ _).trans hchunks)
      ((Nat.le_add_right _ _).trans hbytes)
      ((List.map_append ▸ hdistinct).of_append_left)
    rw [gather_concat, Assembly.take]
    -- a message without a chunk adds nothing
    have hplain (hnone : m.chunk? = none) (hzero : m.size = 0) (a : Assembly D)
        (hbytes : a.bytes = (gather ms).bytes) (hsame : a.chunks = (gather ms).chunks) :
        a.bytes = (ms.map StreamMessage.size).sum + ([m].map StreamMessage.size).sum ∧
          a.chunks.size = (ms.filterMap StreamMessage.chunk? ++
            [m].filterMap StreamMessage.chunk?).length ∧
          ∀ (i : Nat) (b : Bytes), a.chunks[i]? = some b ↔
            (i, b) ∈ ms.filterMap StreamMessage.chunk? ++ [m].filterMap StreamMessage.chunk? := by
      rw [List.filterMap_cons_none hnone, List.filterMap_nil, List.append_nil, hbytes, hsame]
      exact ⟨by simp [hcount, hzero], hsize, hget⟩
    cases hpart : m.part? with
    | none =>
      exact hplain (by rw [StreamMessage.chunk?, hpart]; rfl) (by rw [StreamMessage.size, hpart]; rfl) _
        rfl rfl
    | some part =>
      cases part with
      | init =>
        exact hplain (by rw [StreamMessage.chunk?, hpart]; rfl) (by rw [StreamMessage.size, hpart]; rfl)
          _ rfl rfl
      | fin =>
        exact hplain (by rw [StreamMessage.chunk?, hpart]; rfl) (by rw [StreamMessage.size, hpart]; rfl)
          _ rfl rfl
      | chunk seq bytes =>
        have hchunk : m.chunk? = some (seq, bytes) := by rw [StreamMessage.chunk?, hpart]; rfl
        have hlength : m.size = bytes.length := by rw [StreamMessage.size, hpart]; rfl
        have hnew : (gather ms).chunks.contains seq = false := by
          rw [← Std.ExtTreeMap.isSome_getElem?_eq_contains, Option.isSome_eq_false_iff,
            Option.isNone_iff_eq_none, Option.eq_none_iff_forall_not_mem]
          intro b hb
          rw [List.map_append, List.filterMap_cons_some hchunk] at hdistinct
          refine List.disjoint_of_nodup_append hdistinct ?_ List.mem_cons_self
          exact List.mem_map.2 ⟨(seq, b), (hget seq b).1 hb, rfl⟩
        rw [List.filterMap_cons_some hchunk, List.filterMap_nil] at hchunks ⊢
        rw [List.map_singleton, List.sum_singleton, hlength] at hbytes ⊢
        dsimp only [Assembly.fold]
        rw [if_neg (by
          rw [hsize, hcount, hnew]
          simp only [List.length_singleton] at hchunks
          simp
          omega)]
        refine ⟨by rw [hcount], ?_, fun i b => ?_⟩
        · show ((gather ms).chunks.insert seq bytes).size = _
          rw [Std.ExtTreeMap.size_insert, if_neg (by rw [hnew]; exact Bool.false_ne_true), hsize,
            List.length_append, List.length_singleton]
        · show ((gather ms).chunks.insert seq bytes)[i]? = some b ↔ _
          rw [Std.ExtTreeMap.getElem?_insert, List.mem_append, List.mem_singleton, Prod.mk.injEq]
          by_cases hi : compare seq i = .eq
          · obtain rfl := Std.compare_eq_iff_eq.1 hi
            rw [if_pos hi, Option.some.injEq]
            refine ⟨fun h => .inr ⟨rfl, h.symm⟩, fun h => ?_⟩
            rcases h with h | h
            · have hold := (hget seq b).2 h
              rw [Std.ExtTreeMap.getElem?_eq_none_of_contains_eq_false hnew] at hold
              cases hold
            · exact h.2.symm
          · rw [if_neg hi, hget]
            refine ⟨.inl, fun h => h.resolve_right fun h => hi ?_⟩
            rw [h.1]
            exact Std.compare_eq_iff_eq.2 rfl

/-- An assembly records what a part says of its stream. -/
def Assembly.Records (a : Assembly D) : ProposalPart D → Prop
  | .init height round polRound proposer => a.height = some height ∧ a.round = some round ∧
      a.polRound = some polRound ∧ a.proposer = some proposer
  | .fin blockHash => a.blockHash = some blockHash
  | .chunk _ _ => True

/-- Two parts say the same kind of thing. -/
def ProposalPart.SameKind : ProposalPart D → ProposalPart D → Prop
  | .init _ _ _ _, .init _ _ _ _ => True
  | .fin _, .fin _ => True
  | _, _ => False

theorem records_fold_self (a : Assembly D) (part : ProposalPart D) : (a.fold part).Records part := by
  cases part with
  | init => exact ⟨rfl, rfl, rfl, rfl⟩
  | fin => rfl
  | chunk => trivial

theorem records_fold {a : Assembly D} {part other : ProposalPart D} (h : a.Records part)
    (hkind : ¬other.SameKind part) (numbers : OrdSet Nat) :
    (Assembly.fold { a with seenSequences := numbers } other).Records part := by
  cases other with
  | init =>
    cases part with
    | init => exact absurd trivial hkind
    | fin => exact h
    | chunk => trivial
  | fin =>
    cases part with
    | init => exact h
    | fin => exact absurd trivial hkind
    | chunk => trivial
  | chunk seq bytes =>
    dsimp only [Assembly.fold]
    split <;> cases part <;> exact h

/-- What one part says of the stream, and no other part of its kind, is recorded. -/
theorem records_gather {ms : List (StreamMessage D)} {part : ProposalPart D}
    (hsent : ∃ m ∈ ms, m.part? = some part)
    (honly : ∀ m ∈ ms, ∀ other, m.part? = some other → other.SameKind part → other = part) :
    (gather ms).Records part := by
  induction ms using List.reverseRecOn with
  | nil =>
    obtain ⟨m, hm, -⟩ := hsent
    cases hm
  | append_singleton ms m ih =>
    have hlast := honly m (by simp)
    have ih (hsent : ∃ m ∈ ms, m.part? = some part) := ih hsent fun m' hm' =>
      honly m' (List.mem_append_left _ hm')
    rw [gather_concat, Assembly.take]
    by_cases hpart : m.part? = some part
    · rw [hpart]
      exact records_fold_self _ _
    have hbefore : ∃ m ∈ ms, m.part? = some part := by
      obtain ⟨m', hm', h⟩ := hsent
      rcases List.mem_append.1 hm' with hm' | hm'
      · exact ⟨m', hm', h⟩
      · obtain rfl := List.mem_singleton.1 hm'
        exact absurd h hpart
    cases hother : m.part? with
    | none => exact ih hbefore
    | some other =>
      refine records_fold (ih hbefore) (fun hkind => hpart ?_) _
      rw [hother, hlast other hother hkind]

/-! ### Delivery -/

/-- A buffer that holds one stream, or none. -/
def PartStreams.single (key : StreamKey) : Option (Assembly D) → PartStreams D
  | none => ∅
  | some a => (∅ : PartStreams D).insert key a

namespace PartStreams

variable {key : StreamKey}

theorem entry_single (x : Option (Assembly D)) : (single key x).entry key = x.getD {} := by
  cases x with
  | none => rfl
  | some a =>
    rw [entry, single, Std.ExtTreeMap.getD_insert_self]
    rfl

theorem bufferedBytes_single (x : Option (Assembly D)) :
    (single key x).bufferedBytes = (x.getD {}).bytes := by
  cases x with
  | none => exact OrdMap.total_empty _
  | some a =>
    rw [bufferedBytes, single, OrdMap.total_insert_of_none (by simp), OrdMap.total_empty,
      Nat.zero_add]
    rfl

theorem full_single (x : Option (Assembly D)) : (single key x).full key = false := by
  cases x with
  | none => rfl
  | some a => simp [full, single]

/-- A part that is new to its stream, and for which there is room, is folded in. -/
theorem put_single {x : Option (Assembly D)} {sequence : Nat} {part : ProposalPart D}
    (hnew : (x.getD {}).seenSequences.contains sequence = false)
    (hsize : part.size ≤ maxStreamBytes)
    (hroom : (x.getD {}).bytes + part.size ≤ maxBufferedBytes) :
    (single key x).put key sequence part = single key (some (Assembly.fold
      { x.getD {} with seenSequences := (x.getD {}).seenSequences.insert sequence } part)) := by
  have haccept : (single key x).accept key sequence = some
      { x.getD {} with seenSequences := (x.getD {}).seenSequences.insert sequence } := by
    rw [accept_eq_some, entry_single]
    exact ⟨full_single x, hnew, rfl⟩
  have hfits : (single key x).room part = true := by
    cases part with
    | init => rfl
    | fin => rfl
    | chunk seq bytes =>
      rw [room, bufferedBytes_single, decide_eq_true_eq]
      exact ⟨hsize, hroom⟩
  rw [put, admitted, if_pos hfits, haccept, Option.elim_some]
  cases x with
  | none => rfl
  | some a =>
    refine Std.ExtTreeMap.ext_getElem? fun k => ?_
    rw [single, single, Std.ExtTreeMap.getElem?_insert, Std.ExtTreeMap.getElem?_insert,
      Std.ExtTreeMap.getElem?_insert]
    split <;> rfl

end PartStreams

section Delivery

variable [Ord D] [Std.TransOrd D] [DecidableEq D] (sha256 : Bytes → D)

/-- Messages of a peer are received, each at its own time. -/
def deliver (sender : PeerId) (arrived : List (StreamMessage D × ScreenCtx)) (s : Held D) : Held D :=
  arrived.foldl (fun s p => s.next sha256 (.part sender p.1 p.2)) s

/-- **The parts of a stream are gathered**: those of one stream, numbered apart and short enough,
into an empty buffer. -/
theorem deliver_streams {sender : PeerId} {stream : StreamId} {s : Held D} (hempty : s.streams = ∅)
    {arrived : List (StreamMessage D × ScreenCtx)}
    (hparts : ∀ p ∈ arrived, p.1.streamId = stream ∧ p.1.part?.isSome = true)
    (hnumbers : (arrived.map fun p => p.1.sequence).Nodup)
    (hsize : ∀ p ∈ arrived, p.1.size ≤ proposalChunkBytes) :
    (deliver sha256 sender arrived s).pending = s.pending ∧
      (deliver sha256 sender arrived s).streams = PartStreams.single (sender, stream)
        (if arrived = [] then none else some (gather (arrived.map Prod.fst))) := by
  -- by induction on what has arrived; the caps on the buffer hold by the one stream’s own
  induction arrived using List.reverseRecOn with
  | nil => exact ⟨rfl, hempty⟩
  | append_singleton arrived p ih =>
    obtain ⟨hpending, hstreams⟩ := ih (fun q hq => hparts q (List.mem_append_left _ hq))
      (List.map_append ▸ hnumbers).of_append_left
      fun q hq => hsize q (List.mem_append_left _ hq)
    have hshort := hsize p (by simp)
    obtain ⟨hstream, hpart⟩ := hparts p (by simp)
    obtain ⟨part, hpart⟩ := Option.isSome_iff_exists.1 hpart
    obtain ⟨⟨streamId, sequence, content⟩, ctx⟩ := p
    cases content with
    | fin => cases hpart
    | data part' =>
    obtain rfl := Option.some.inj hpart
    obtain rfl := hstream
    set x := if arrived = [] then none else some (gather (arrived.map Prod.fst)) with hx
    have hgathered : x.getD {} = gather (arrived.map Prod.fst) := by
      rw [hx]
      split
      · next h => rw [h]; rfl
      · rfl
    have hnew : (x.getD {}).seenSequences.contains sequence = false := by
      rw [hgathered, Bool.eq_false_iff]
      intro hseen
      rw [seen_gather (fun m hm => ?_)] at hseen
      · rw [List.map_append] at hnumbers
        refine List.disjoint_of_nodup_append hnumbers ?_ List.mem_cons_self
        rwa [List.map_map] at hseen
      · obtain ⟨q, hq, rfl⟩ := List.mem_map.1 hm
        exact (hparts q (List.mem_append_left _ hq)).2
    change part'.size ≤ proposalChunkBytes at hshort
    obtain ⟨S, hcapped⟩ := capped_gather (arrived.map Prod.fst)
    have hbytes := hcapped.bytes
    have hput : (PartStreams.single (sender, streamId) x).put (sender, streamId) sequence part' = _ :=
      PartStreams.put_single hnew (hshort.trans (by decide)) (by
        rw [hgathered]
        exact (Nat.add_le_add hbytes hshort).trans (by decide))
    have hnext : deliver sha256 sender (arrived ++ [(⟨streamId, sequence, .data part'⟩, ctx)]) s =
        Held.next sha256 (.part sender ⟨streamId, sequence, .data part'⟩ ctx)
          (deliver sha256 sender arrived s) := by
      rw [deliver, List.foldl_append]
      rfl
    rw [hnext, Held.next, reassemble_data]
    refine ⟨hpending, ?_⟩
    dsimp only
    rw [hstreams, hput, if_neg (by simp), List.map_append, List.map_singleton, gather_concat,
      hgathered]
    rfl

end Delivery

/-! ### The stream of a block -/

section Stream

variable {proposer : Address} {height : Nat} {round polRound : Round} {block : Block} {blockId : D}

theorem filterMap_part?_streamData :
    (streamData proposer height round polRound block blockId).filterMap StreamMessage.part? =
      streamParts proposer height round polRound block blockId := by
  rw [streamData, List.filterMap_map]
  exact (congrFun (List.filterMap_eq_map (f := Prod.fst)) _).trans (List.zipIdx_map_fst 0 _)

theorem filterMap_chunk?_streamData :
    (streamData proposer height round polRound block blockId).filterMap StreamMessage.chunk? =
      (chunks proposalChunkBytes block.encode).zipIdx.map fun p => (p.2 % 2 ^ 32, p.1) := by
  have hparts : (streamData proposer height round polRound block blockId).filterMap
      StreamMessage.chunk? = (streamParts proposer height round polRound block
        blockId).filterMap ProposalPart.chunk? := by
    rw [← filterMap_part?_streamData, List.filterMap_filterMap]
    rfl
  rw [hparts, streamParts, List.cons_append, List.filterMap_cons_none rfl, List.filterMap_append,
    List.filterMap_map, List.filterMap_cons_none rfl, List.filterMap_nil, List.append_nil]
  exact congrFun List.filterMap_eq_map _

theorem sum_size_streamData :
    ((streamData proposer height round polRound block blockId).map StreamMessage.size).sum =
      block.encode.length := by
  have hparts : (streamData proposer height round polRound block blockId).map StreamMessage.size =
      (streamParts proposer height round polRound block blockId).map ProposalPart.size := by
    rw [streamData, List.map_map, ← List.zipIdx_map_fst 0 (streamParts _ _ _ _ _ _), List.map_map]
    simp only [List.zipIdx_map_fst]
    rfl
  have hchunks : ((chunks proposalChunkBytes block.encode).zipIdx.map fun p =>
      (ProposalPart.chunk (D := D) (p.2 % 2 ^ 32) p.1)).map ProposalPart.size =
        (chunks proposalChunkBytes block.encode).map List.length := by
    rw [List.map_map]
    conv_rhs => rw [← List.zipIdx_map_fst 0 (chunks _ _), List.map_map]
    rfl
  rw [hparts, streamParts, List.cons_append, List.map_cons, List.map_append, hchunks, List.sum_cons,
    List.sum_append, ← List.length_flatten, flatten_chunks (by decide)]
  exact (Nat.zero_add _).trans (Nat.add_zero _)

theorem size_le_of_mem_streamData {m : StreamMessage D}
    (h : m ∈ streamData proposer height round polRound block blockId) :
    m.size ≤ proposalChunkBytes := by
  obtain ⟨p, hp, rfl⟩ := List.mem_map.1 h
  have hpart : p.1 ∈ streamParts proposer height round polRound block blockId :=
    List.fst_mem_of_mem_zipIdx hp
  show p.1.size ≤ _
  rcases List.mem_append.1 hpart with hpart | hpart
  · rcases List.mem_cons.1 hpart with hpart | hpart
    · rw [hpart]
      exact Nat.zero_le _
    · obtain ⟨q, hq, hchunk⟩ := List.mem_map.1 hpart
      rw [← hchunk]
      exact length_le_of_mem_chunks (List.fst_mem_of_mem_zipIdx hq)
  · rw [List.mem_singleton.1 hpart]
    exact Nat.zero_le _

theorem sequences_streamData :
    (streamData proposer height round polRound block blockId).map StreamMessage.sequence =
      List.range' 0 (streamParts proposer height round polRound block blockId).length := by
  rw [streamData, List.map_map]
  exact List.zipIdx_map_snd 0 _

/-- Each message is a part of the stream. -/
theorem part_of_mem_streamData {m : StreamMessage D}
    (h : m ∈ streamData proposer height round polRound block blockId) :
    m.streamId = streamIdFor height round ∧ m.part?.isSome = true := by
  obtain ⟨p, -, rfl⟩ := List.mem_map.1 h
  exact ⟨rfl, rfl⟩

/-- The stream says each kind of thing once. -/
theorem eq_of_sameKind {part other : ProposalPart D}
    (h : part ∈ streamParts proposer height round polRound block blockId)
    (hother : other ∈ streamParts proposer height round polRound block blockId)
    (hkind : other.SameKind part) : other = part := by
  have hcases {q : ProposalPart D}
      (hq : q ∈ streamParts proposer height round polRound block blockId) :
      q = .init height round polRound proposer ∨ (∃ i b, q = .chunk i b) ∨ q = .fin blockId := by
    rcases List.mem_append.1 hq with hq | hq
    · rcases List.mem_cons.1 hq with hq | hq
      · exact .inl hq
      · obtain ⟨c, -, rfl⟩ := List.mem_map.1 hq
        exact .inr (.inl ⟨_, _, rfl⟩)
    · exact .inr (.inr (List.mem_singleton.1 hq))
  rcases hcases h with rfl | ⟨i, b, rfl⟩ | rfl <;>
    rcases hcases hother with rfl | ⟨j, c, rfl⟩ | rfl <;> first | rfl | cases hkind

theorem init_mem_streamParts :
    .init height round polRound proposer ∈
      streamParts proposer height round polRound block blockId :=
  List.mem_append_left _ List.mem_cons_self

theorem fin_mem_streamParts :
    .fin blockId ∈ streamParts proposer height round polRound block blockId :=
  List.mem_append_right _ List.mem_cons_self

theorem streamData_ne_nil : streamData proposer height round polRound block blockId ≠ [] := by
  intro h
  have hlength := congrArg List.length h
  rw [streamData, List.length_map, List.length_zipIdx] at hlength
  exact List.ne_nil_of_mem fin_mem_streamParts (List.length_eq_zero_iff.1 hlength)

theorem nodup_sequences_streamData :
    ((streamData proposer height round polRound block blockId).map
      StreamMessage.sequence).Nodup := by
  rw [sequences_streamData]
  exact List.nodup_range'

end Stream

/-! ### The answer -/

section Answer

variable [Ord D] [Std.TransOrd D] [DecidableEq D] (sha256 : Bytes → D)

omit [Ord D] [Std.TransOrd D] [DecidableEq D] in
/-- What is gathered of all the parts of a block that is not too long, in any order, is the block's
encoding. -/
theorem payload_gather {proposer : Address} {height : Nat} {round polRound : Round} {block : Block}
    {blockId : D} (hfits : block.encode.length ≤ maxStreamBytes) {ms : List (StreamMessage D)}
    (hperm : ms.Perm (streamData proposer height round polRound block blockId)) :
    (gather ms).payload = block.encode := by
  have hcount : (chunks proposalChunkBytes block.encode).length ≤ maxChunksPerStream :=
    (length_chunks_le_iff (by decide) _).2 hfits
  have hchunks := (hperm.filterMap StreamMessage.chunk?).trans
    (.of_eq filterMap_chunk?_streamData)
  have hsmall {i : Nat} (hi : i < (chunks proposalChunkBytes block.encode).length) :
      i % 2 ^ 32 = i := Nat.mod_eq_of_lt ((hi.trans_le hcount).trans (by decide))
  have hmem (i : Nat) (b : Bytes) : (i, b) ∈ ms.filterMap StreamMessage.chunk? ↔
      (chunks proposalChunkBytes block.encode)[i]? = some b := by
    rw [hchunks.mem_iff, List.mem_map]
    constructor
    · rintro ⟨⟨b', j⟩, hj, heq⟩
      obtain ⟨rfl, rfl⟩ := Prod.mk.inj heq
      have hget := List.mem_zipIdx_iff_getElem?.1 hj
      rwa [hsmall (List.getElem?_eq_some_iff.1 hget).1]
    · intro hget
      refine ⟨(b, i), List.mem_zipIdx_iff_getElem?.2 hget, ?_⟩
      rw [hsmall (List.getElem?_eq_some_iff.1 hget).1]
  have hdistinct : ((ms.filterMap StreamMessage.chunk?).map Prod.fst).Nodup := by
    refine (hchunks.map Prod.fst).nodup_iff.2 ?_
    have hnumbers : ((chunks proposalChunkBytes block.encode).zipIdx.map fun p =>
        (p.2 % 2 ^ 32, p.1)).map Prod.fst =
          List.range' 0 (chunks proposalChunkBytes block.encode).length := by
      rw [List.map_map, ← List.zipIdx_map_snd 0 (chunks _ _)]
      refine List.map_congr_left fun p hp => hsmall ?_
      exact (List.getElem?_eq_some_iff.1 (List.mem_zipIdx_iff_getElem?.1 hp)).1
    rw [hnumbers]
    exact List.nodup_range'
  have hfew : (ms.filterMap StreamMessage.chunk?).length ≤ maxChunksPerStream := by
    rw [hchunks.length_eq, List.length_map, List.length_zipIdx]
    exact hcount
  have hbytes : (ms.map StreamMessage.size).sum ≤ maxStreamBytes := by
    rw [(hperm.map StreamMessage.size).sum_eq, sum_size_streamData]
    exact hfits
  obtain ⟨-, -, hget⟩ := gather_spec hfew hbytes hdistinct
  rw [Assembly.payload, OrdMap.vals_of_getElem? (l := chunks proposalChunkBytes block.encode)
    fun i => Option.ext fun b => (hget i b).trans (hmem i b), flatten_chunks (by decide)]

omit [Ord D] [Std.TransOrd D] [DecidableEq D] in
/-- The assembly of a whole stream, in whatever order it came, records what the stream says. -/
theorem gather_streamData {proposer : Address} {height : Nat} {round polRound : Round} {block : Block}
    {blockId : D} {ms : List (StreamMessage D)}
    (hperm : ms.Perm (streamData proposer height round polRound block blockId)) {part : ProposalPart D}
    (h : part ∈ streamParts proposer height round polRound block blockId) :
    (gather ms).Records part := by
  have hpart {part : ProposalPart D} : (∃ m ∈ ms, m.part? = some part) ↔
      part ∈ streamParts proposer height round polRound block blockId := by
    rw [← filterMap_part?_streamData, ← (hperm.filterMap _).mem_iff, List.mem_filterMap]
  exact records_gather (hpart.2 h) fun m hm other hother hkind =>
    eq_of_sameKind h (hpart.1 ⟨m, hm, hother⟩) hkind

omit [Ord D] [Std.TransOrd D] in
/-- An assembly that says where a block belongs, and whose bytes are the block's, closes to it. -/
theorem closeStream_of_payload {a : Assembly D} {proposer : Address} {height : Nat}
    {round polRound : Round} {block : Block} (hblock : block.Fits)
    (hinit : a.Records (.init height round polRound proposer))
    (hfin : a.Records (.fin (valueId sha256 block))) (hpayload : a.payload = block.encode)
    (ctx : ScreenCtx) :
    closeStream sha256 a ctx = some
      { height, round, validRound := polRound, proposer, id := valueId sha256 block, block,
        validity := screen block ctx } := by
  obtain ⟨hheight, hround, hpolRound, hproposer⟩ := hinit
  have hhash : a.blockHash = some (valueId sha256 block) := hfin
  rw [closeStream, hheight, hround, hpolRound, hproposer, hhash, hpayload,
    Block.decode_encode hblock]
  dsimp only [Option.bind_some]
  rw [if_neg (fun h => h rfl)]

omit [Ord D] [Std.TransOrd D] in
/-- An assembly cannot close to a block that is longer than its cap. -/
theorem closeStream_of_long (hinjective : Function.Injective sha256) {ms : List (StreamMessage D)}
    {block : Block} (hfin : (gather ms).Records (.fin (valueId sha256 block)))
    (hlong : ¬block.encode.length ≤ maxStreamBytes) (ctx : ScreenCtx) :
    closeStream sha256 (gather ms) ctx = none := by
  cases hv : closeStream sha256 (gather ms) ctx with
  | none => rfl
  | some v =>
    obtain ⟨hid, -, hpayload, -⟩ := closeStream_eq_some sha256 hv
    have hhash : (gather ms).blockHash = some (valueId sha256 block) := hfin
    obtain ⟨S, hcapped⟩ := capped_gather ms
    have hencode : (gather ms).payload = block.encode :=
      hinjective (hpayload.trans (Option.some.inj (hid.symm.trans hhash)))
    exact absurd (hencode ▸ hcapped.payload_le) hlong

/-- What the envelope leads to once the parts are there. -/
def streamAnswer (proposer : Address) (height : Nat) (round polRound : Round) (block : Block)
    (ctx : ScreenCtx) : Option (ProposedValue D) :=
  if block.encode.length ≤ maxStreamBytes then
    some { height, round, validRound := polRound, proposer, id := valueId sha256 block, block,
           validity := screen block ctx }
  else none

/-- **A streamed block is answered exactly where it is not too long.** The parts that a proposer
sends of a block arrive at a node with an empty buffer, in any order and each at its own time, and
then the envelope. The node answers the block under its hash, judged when the envelope came, if its
encoding is within the cap on a stream, and nothing otherwise; nothing of the stream stays. -/
theorem streamed_answered (hinjective : Function.Injective sha256) {block : Block}
    (hblock : block.Fits) (proposer : Address) (height : Nat) (round polRound : Round)
    (sender : PeerId) {s : Held D} (hempty : s.streams = ∅)
    {arrived : List (StreamMessage D × ScreenCtx)}
    (hperm : (arrived.map Prod.fst).Perm
      (streamData proposer height round polRound block (valueId sha256 block))) (ctx : ScreenCtx) :
    (deliver sha256 sender arrived s).answer sha256 sender
        (streamEnd proposer height round polRound block (valueId sha256 block)) ctx =
      streamAnswer sha256 proposer height round polRound block ctx ∧
    ((deliver sha256 sender arrived s).next sha256 (.part sender
      (streamEnd proposer height round polRound block (valueId sha256 block)) ctx)).streams = ∅ := by
  have hsent {m : StreamMessage D} (hm : m ∈ arrived.map Prod.fst) := hperm.mem_iff.1 hm
  have hnonempty : arrived ≠ [] := by
    rintro rfl
    exact streamData_ne_nil hperm.nil_eq.symm
  have hnumbers : (arrived.map fun p => p.1.sequence).Nodup := by
    have hnodup := (hperm.map StreamMessage.sequence).nodup_iff.2 nodup_sequences_streamData
    rwa [List.map_map] at hnodup
  obtain ⟨-, hstreams⟩ := deliver_streams sha256 hempty
    (fun p hp => part_of_mem_streamData (hsent (List.mem_map_of_mem hp))) hnumbers
    fun p hp => size_le_of_mem_streamData (hsent (List.mem_map_of_mem hp))
  rw [if_neg hnonempty] at hstreams
  -- the envelope closes the one stream that is held
  have hclose : (deliver sha256 sender arrived s).streams.close sha256
      (sender, streamIdFor height round) ctx =
        closeStream sha256 (gather (arrived.map Prod.fst)) ctx := by
    rw [PartStreams.close, hstreams, PartStreams.single, Std.ExtTreeMap.getElem?_insert_self,
      Option.bind_some]
  have hfin := gather_streamData hperm fin_mem_streamParts
  refine ⟨?_, ?_⟩
  · rw [Held.answer, streamEnd, reassemble_fin, hclose, streamAnswer]
    split
    · next hfits =>
      exact closeStream_of_payload sha256 hblock (gather_streamData hperm init_mem_streamParts) hfin
        (payload_gather hfits hperm) ctx
    · next hlong => exact closeStream_of_long sha256 hinjective hfin hlong ctx
  · rw [Held.next, streamEnd, reassemble_fin]
    show (deliver sha256 sender arrived s).streams.erase (sender, streamIdFor height round) = ∅
    rw [hstreams, PartStreams.single]
    refine Std.ExtTreeMap.ext_getElem? fun k => ?_
    rw [Std.ExtTreeMap.getElem?_erase, Std.ExtTreeMap.getElem?_insert]
    split <;> rfl

/-- The parts of an empty block, the last one first. -/
def reversedParts : List (StreamMessage Nat × ScreenCtx) :=
  ((streamData 7 1 (.some 0) .nil (emptyBlock 1) (valueId leNumeral (emptyBlock 1))).map
    fun m => (m, openScreen)).reverse

/-- An empty block that arrives backwards is answered. -/
theorem streamed_answered_reversed :
    (deliver leNumeral 3 reversedParts {}).answer leNumeral 3 (streamEnd 7 1 (.some 0) .nil
      (emptyBlock 1) (valueId leNumeral (emptyBlock 1))) openScreen =
        some { height := 1, round := .some 0, validRound := .nil, proposer := 7,
               id := valueId leNumeral (emptyBlock 1), block := emptyBlock 1, validity := .valid } := by
  have hfits : (emptyBlock 1).Fits :=
    ⟨show 1 < 2 ^ 64 by decide, show 0 < 2 ^ 64 by decide, show 0 < 2 ^ 64 by decide,
      fun t ht => absurd ht List.not_mem_nil⟩
  have hperm : (reversedParts.map Prod.fst).Perm
      (streamData 7 1 (.some 0) .nil (emptyBlock 1) (valueId leNumeral (emptyBlock 1))) := by
    rw [reversedParts, List.map_reverse, List.map_map]
    exact (List.reverse_perm _).trans (.of_eq (List.map_id _))
  exact (streamed_answered leNumeral leNumeral_injective hfits 7 1 (.some 0) .nil 3 rfl hperm
    openScreen).1.trans (if_pos (by decide))

end Answer

end Edet.Node
