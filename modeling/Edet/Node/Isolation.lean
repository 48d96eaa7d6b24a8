import Edet.Node.Bounds

/-!
# One peer's parts among others'

What the node answers a peer, when other peers send what they like, against what it
answers when they send nothing (`Held.replies`). The streams of one peer are a part of the
buffer (`PartStreams.alone`), and a message of another peer does not touch it; so the two
runs stay in step as long as no cap that the peers share refuses a part of this peer
(`Uncrowded`, `replies_alone`).

The shared caps do refuse: eight peers, each with its own allowance and no more, fill the
slots for all (`flood_spoils`).
-/

namespace Edet.Node

variable {D : Type}

/-! ### The streams of one peer -/

/-- The streams of one peer. -/
def PartStreams.alone (p : PeerId) (streams : PartStreams D) : PartStreams D :=
  streams.filter fun key _ => decide (key.1 = p)

namespace PartStreams

variable {p q : PeerId} {streams : PartStreams D}

theorem getElem?_alone (p : PeerId) (streams : PartStreams D) (key : StreamKey) :
    (streams.alone p)[key]? = if key.1 = p then streams[key]? else none := by
  unfold alone
  rw [Std.ExtTreeMap.getElem?_filter']
  cases hget : streams[key]? with
  | none => simp
  | some a => by_cases h : key.1 = p <;> simp [h]

theorem alone_insert (h : q = p) (stream : StreamId) (a : Assembly D) :
    alone p (streams.insert (q, stream) a) = (streams.alone p).insert (q, stream) a := by
  subst h
  refine Std.ExtTreeMap.ext_getElem? fun key => ?_
  rw [getElem?_alone, Std.ExtTreeMap.getElem?_insert, Std.ExtTreeMap.getElem?_insert,
    getElem?_alone]
  by_cases hk : compare (q, stream) key = .eq
  · obtain rfl := Std.compare_eq_iff_eq.1 hk
    simp
  · rw [if_neg hk, if_neg hk]

theorem alone_insert_other (h : q ≠ p) (stream : StreamId) (a : Assembly D) :
    alone p (streams.insert (q, stream) a) = streams.alone p := by
  refine Std.ExtTreeMap.ext_getElem? fun key => ?_
  rw [getElem?_alone, getElem?_alone, Std.ExtTreeMap.getElem?_insert]
  by_cases hk : compare (q, stream) key = .eq
  · obtain rfl := Std.compare_eq_iff_eq.1 hk
    rw [if_neg h, if_neg h]
  · rw [if_neg hk]

theorem alone_erase (h : q = p) (stream : StreamId) :
    alone p (streams.erase (q, stream)) = (streams.alone p).erase (q, stream) := by
  subst h
  refine Std.ExtTreeMap.ext_getElem? fun key => ?_
  rw [getElem?_alone, Std.ExtTreeMap.getElem?_erase, Std.ExtTreeMap.getElem?_erase,
    getElem?_alone]
  by_cases hk : compare (q, stream) key = .eq
  · rw [if_pos hk, if_pos hk, ite_self]
  · rw [if_neg hk, if_neg hk]

theorem alone_erase_other (h : q ≠ p) (stream : StreamId) :
    alone p (streams.erase (q, stream)) = streams.alone p := by
  refine Std.ExtTreeMap.ext_getElem? fun key => ?_
  rw [getElem?_alone, getElem?_alone, Std.ExtTreeMap.getElem?_erase]
  by_cases hk : compare (q, stream) key = .eq
  · obtain rfl := Std.compare_eq_iff_eq.1 hk
    rw [if_neg h, if_neg h]
  · rw [if_neg hk]

theorem alone_evictDecided (p : PeerId) (streams : PartStreams D) (committed : Nat) :
    (streams.evictDecided committed).alone p = (streams.alone p).evictDecided committed := by
  refine Std.ExtTreeMap.ext_getElem? fun key => ?_
  unfold evictDecided
  rw [getElem?_alone, Std.ExtTreeMap.getElem?_filter', Std.ExtTreeMap.getElem?_filter',
    getElem?_alone]
  by_cases hk : key.1 = p
  · rw [if_pos hk, if_pos hk]
  · rw [if_neg hk, if_neg hk]
    rfl

theorem bufferedBytes_alone_le (p : PeerId) (streams : PartStreams D) :
    (streams.alone p).bufferedBytes ≤ streams.bufferedBytes :=
  OrdMap.total_filter_le _ _ _

theorem size_alone_le (p : PeerId) (streams : PartStreams D) :
    (streams.alone p).size ≤ streams.size :=
  Std.ExtTreeMap.size_filter_le_size

/-- A peer's streams are counted where they are. -/
theorem heldBy_alone (p : PeerId) (streams : PartStreams D) :
    (streams.alone p).heldBy p = streams.heldBy p := by
  have hsplit := OrdMap.total_filter_add (fun key _ => if key.1 = p then 1 else 0)
    (fun key _ => decide (key.1 = p)) streams
  have hrest : OrdMap.total (fun key _ => if key.1 = p then 1 else 0)
      (streams.filter fun key _ => !decide (key.1 = p)) = 0 := by
    refine (OrdMap.total_congr (g := fun _ _ => 0) fun key a hget => ?_).trans (by simp [OrdMap.total])
    have := (OrdMap.getElem?_filter_of_some hget).2
    simp only [Bool.not_eq_true', decide_eq_false_iff_not] at this
    exact if_neg this
  rw [hrest, Nat.add_zero] at hsplit
  rw [heldBy_eq_total, heldBy_eq_total]
  exact hsplit

theorem entry_alone (h : q = p) (streams : PartStreams D) (stream : StreamId) :
    (streams.alone p).entry (q, stream) = streams.entry (q, stream) := by
  unfold entry
  rw [Std.ExtTreeMap.getD_eq_getD_getElem?, Std.ExtTreeMap.getD_eq_getD_getElem?, getElem?_alone,
    if_pos h]

theorem contains_alone (h : q = p) (streams : PartStreams D) (stream : StreamId) :
    (streams.alone p).contains (q, stream) = streams.contains (q, stream) := by
  rw [← Std.ExtTreeMap.isSome_getElem?_eq_contains, ← Std.ExtTreeMap.isSome_getElem?_eq_contains,
    getElem?_alone, if_pos h]

end PartStreams

/-! ### Shared caps -/

/-- **No cap that the peers share refuses the part.** The buffer has the bytes for it, or
the peer's own streams leave none; and there is a slot for its stream, or the peer has
used up its own. -/
structure PartStreams.Spares (streams : PartStreams D) (key : StreamKey)
    (part : ProposalPart D) : Prop where
  bytes : streams.bufferedBytes + part.size ≤ maxBufferedBytes ∨
    maxBufferedBytes < (streams.alone key.1).bufferedBytes + part.size
  slots : streams.contains key = true ∨ streams.size < maxInflightStreams ∨
    maxStreamsPerPeer ≤ streams.heldBy key.1

namespace PartStreams

variable {p : PeerId} {streams : PartStreams D} {stream : StreamId}

/-- A part is folded alike, whoever else sends. -/
theorem Spares.admitted {part : ProposalPart D} (h : streams.Spares (p, stream) part)
    (sequence : Nat) :
    (streams.alone p).admitted (p, stream) sequence part =
      streams.admitted (p, stream) sequence part := by
  have hroom : (streams.alone p).room part = streams.room part := by
    cases part with
    | init => rfl
    | fin => rfl
    | chunk seq bytes =>
      have hle := bufferedBytes_alone_le p streams
      have hbytes := h.bytes
      simp only [ProposalPart.size] at hbytes
      simp only [room, decide_eq_decide]
      omega
  have hfull : (streams.alone p).full (p, stream) = streams.full (p, stream) := by
    have hle := size_alone_le p streams
    have hslots := h.slots
    simp only [full, contains_alone rfl, heldBy_alone]
    cases hold : streams.contains (p, stream) with
    | true => rfl
    | false =>
      rw [hold] at hslots
      simp only [Bool.false_eq_true, false_or] at hslots
      rw [Bool.eq_iff_iff]
      simp only [Bool.not_false, Bool.true_and, Bool.or_eq_true, decide_eq_true_eq]
      omega
  simp only [PartStreams.admitted, PartStreams.accept, hroom, hfull, entry_alone rfl]

/-- **A part of this peer** is put alike. -/
theorem Spares.put {part : ProposalPart D} (h : streams.Spares (p, stream) part)
    (sequence : Nat) :
    (streams.put (p, stream) sequence part).alone p =
      (streams.alone p).put (p, stream) sequence part := by
  unfold PartStreams.put
  rw [h.admitted sequence]
  cases streams.admitted (p, stream) sequence part with
  | none => rfl
  | some a => exact alone_insert rfl stream (a.fold part)

/-- **A part of another peer** is put elsewhere. -/
theorem alone_put_other {q : PeerId} (h : q ≠ p) (sequence : Nat) (part : ProposalPart D) :
    (streams.put (q, stream) sequence part).alone p = streams.alone p := by
  unfold PartStreams.put
  cases streams.admitted (q, stream) sequence part with
  | none => rfl
  | some a => exact alone_insert_other h stream (a.fold part)

end PartStreams

/-! ### Runs -/

section Runs

variable [Ord D] [Std.TransOrd D] [DecidableEq D] (sha256 : Bytes → D)

/-- What the node answers a message. -/
def Held.answer (sender : PeerId) (msg : StreamMessage D) (ctx : ScreenCtx) (s : Held D) :
    Option (ProposedValue D) :=
  (reassemble sha256 s.streams s.pending sender msg ctx).2.2

/-- What it answers the messages of one peer, over a run. -/
def Held.replies (p : PeerId) : List (HeldEvent D) → Held D → List (Option (ProposedValue D))
  | [], _ => []
  | .part sender msg ctx :: es, s =>
    let rest := Held.replies p es (s.next sha256 (.part sender msg ctx))
    if sender = p then s.answer sha256 sender msg ctx :: rest else rest
  | e :: es, s => Held.replies p es (s.next sha256 e)

/-- Does an event happen also where the other peers send nothing? -/
def HeldEvent.concerns (p : PeerId) (e : HeldEvent D) : Bool :=
  match e with
  | .part sender _ _ => decide (sender = p)
  | _ => true

/-- A part of this peer is spared by the shared caps. -/
def Uncrowded (p : PeerId) (e : HeldEvent D) (s : Held D) : Prop :=
  match e with
  | .part sender ⟨stream, _, .data part⟩ _ =>
    sender = p → s.streams.Spares (sender, stream) part
  | _ => True

/-- The two runs agree about this peer. -/
def Held.Agree (p : PeerId) (s alone : Held D) : Prop := alone.streams = s.streams.alone p

variable {sha256}

/-- **One event of this peer's run** keeps the runs in step, and is answered alike. -/
theorem Held.Agree.next {p : PeerId} {s alone : Held D} (h : s.Agree p alone) {e : HeldEvent D}
    (hc : e.concerns p = true) (hu : Uncrowded p e s) :
    (s.next sha256 e).Agree p (alone.next sha256 e) := by
  unfold Held.Agree at h ⊢
  cases e with
  | committed height =>
    simp only [Held.next]
    rw [h, PartStreams.alone_evictDecided]
  | synced height round proposer bytes ctx => exact h
  | part sender msg ctx =>
    obtain rfl : sender = p := of_decide_eq_true hc
    obtain ⟨stream, sequence, content⟩ := msg
    cases content with
    | data part =>
      simp only [Held.next, reassemble_data, h]
      exact ((hu rfl).put sequence).symm
    | fin =>
      simp only [Held.next, reassemble_fin, h]
      exact (PartStreams.alone_erase rfl stream).symm

/-- **One event of another peer** is not seen. -/
theorem Held.Agree.other {p : PeerId} {s alone : Held D} (h : s.Agree p alone) {e : HeldEvent D}
    (hc : e.concerns p = false) : (s.next sha256 e).Agree p alone := by
  unfold Held.Agree at h ⊢
  cases e with
  | committed height => cases hc
  | synced height round proposer bytes ctx => cases hc
  | part sender msg ctx =>
    have hne : sender ≠ p := of_decide_eq_false hc
    obtain ⟨stream, sequence, content⟩ := msg
    cases content with
    | data part =>
      simp only [Held.next, reassemble_data]
      rw [PartStreams.alone_put_other hne, h]
    | fin =>
      simp only [Held.next, reassemble_fin]
      rw [PartStreams.alone_erase_other hne, h]

/-- **A message of this peer is answered alike.** -/
theorem Held.Agree.answer {p : PeerId} {s alone : Held D} (h : s.Agree p alone)
    (msg : StreamMessage D) (ctx : ScreenCtx) :
    alone.answer sha256 p msg ctx = s.answer sha256 p msg ctx := by
  obtain ⟨stream, sequence, content⟩ := msg
  unfold Held.answer
  cases content with
  | data part => rw [reassemble_data, reassemble_data]
  | fin =>
    rw [reassemble_fin, reassemble_fin]
    show PartStreams.close sha256 alone.streams (p, stream) ctx = _
    unfold PartStreams.close
    rw [h, PartStreams.getElem?_alone, if_pos rfl]

/-- Two runs in step give the same answers. -/
theorem Held.Agree.replies {p : PeerId} {s alone : Held D} (h : s.Agree p alone)
    (es : List (HeldEvent D))
    (hu : Reaches.Admits (fun e s => Held.next sha256 e s) (Uncrowded p) es s) :
    s.replies sha256 p es = alone.replies sha256 p (es.filter (HeldEvent.concerns p)) := by
  induction es generalizing s alone with
  | nil => rfl
  | cons e es ih =>
    obtain ⟨hue, hues⟩ := hu
    cases hc : e.concerns p with
    | false =>
      rw [List.filter_cons_of_neg (by simp [hc]), ← ih (h.other hc) hues]
      cases e with
      | part sender msg ctx => exact if_neg (of_decide_eq_false hc)
      | synced height round proposer bytes ctx => cases hc
      | committed height => cases hc
    | true =>
      rw [List.filter_cons_of_pos hc]
      have hnext := ih (h.next hc hue) hues
      cases e with
      | synced height round proposer bytes ctx => exact hnext
      | committed height => exact hnext
      | part sender msg ctx =>
        obtain rfl : sender = p := of_decide_eq_true hc
        simp only [Held.replies, if_true]
        rw [hnext, h.answer]

variable (sha256)

/-- What a node would hold, had only one peer sent its streams. -/
def Held.only (p : PeerId) (s : Held D) : Held D := { s with streams := s.streams.alone p }

/-- **The other peers are not felt.** While no shared cap refuses a part of this peer, it
is answered as if nobody else sent anything. -/
theorem replies_alone (p : PeerId) (es : List (HeldEvent D)) (s : Held D)
    (hu : Reaches.Admits (fun e s => Held.next sha256 e s) (Uncrowded p) es s) :
    s.replies sha256 p es = (s.only p).replies sha256 p (es.filter (HeldEvent.concerns p)) :=
  Held.Agree.replies (show s.Agree p (s.only p) from rfl) es hu

end Runs

/-! ### A flood -/

/-- A stream that proposes a block: its `init` part, its bytes in one chunk, its `fin`
part, and the envelope that closes it. -/
def honestStream (p : PeerId) : List (HeldEvent Nat) :=
  [.part p ⟨0, 0, .data (.init 2 (.some 0) .nil 0)⟩ openScreen,
    .part p ⟨0, 1, .data (.chunk 0 (earlyBlock 0).encode)⟩ openScreen,
    .part p ⟨0, 2, .data (.fin (valueId leNumeral (earlyBlock 0)))⟩ openScreen,
    .part p ⟨0, 3, .fin⟩ openScreen]

/-- Eight peers open eight streams each, for a height that will not be decided soon. -/
def flood : List (HeldEvent Nat) :=
  (List.range maxStreamsPerPeer).flatMap fun peer =>
    (List.range maxStreamsPerPeer).map fun stream =>
      .part (peer + 1) ⟨stream, 0, .data (.init 1000000 (.some 0) .nil 0)⟩ openScreen

/-- An `init` part of a peer's stream, for a height that will not be decided soon. -/
def opens (p : PeerId) (stream : StreamId) : HeldEvent Nat :=
  .part p ⟨stream, 0, .data (.init 1000000 (.some 0) .nil 0)⟩ openScreen

/-- The honest stream among the parts of three other peers, with a commit in between. -/
def crowd : List (HeldEvent Nat) :=
  [opens 1 0, .part 0 ⟨0, 0, .data (.init 2 (.some 0) .nil 0)⟩ openScreen,
    .part 1 ⟨0, 1, .data (.chunk 0 (earlyBlock 1).encode)⟩ openScreen,
    .part 0 ⟨0, 1, .data (.chunk 0 (earlyBlock 0).encode)⟩ openScreen, opens 2 0, opens 2 1,
    .committed 1, .part 0 ⟨0, 2, .data (.fin (valueId leNumeral (earlyBlock 0)))⟩ openScreen,
    .part 1 ⟨0, 2, .fin⟩ openScreen, .part 0 ⟨0, 3, .fin⟩ openScreen]

/-- A node that holds the open streams of two peers. -/
def busy : Held Nat := (({} : Held Nat).next leNumeral (opens 2 7)).next leNumeral (opens 3 0)

/-- A stream sent among those of others, over a commit, is answered with its value, as it is when
it is sent alone. -/
theorem replies_alone_crowd :
    busy.replies leNumeral 0 crowd =
        (busy.only 0).replies leNumeral 0 (crowd.filter (HeldEvent.concerns 0)) ∧
      (busy.replies leNumeral 0 crowd).map Option.isSome = [false, false, false, true] := by
  refine ⟨replies_alone leNumeral 0 crowd busy ?_, by decide +kernel⟩
  refine ⟨nofun, fun _ => ?_, nofun, fun _ => ?_, nofun, nofun, trivial, fun _ => ?_, trivial, trivial,
    trivial⟩ <;>
  exact ⟨.inl (by decide +kernel), by decide +kernel⟩

/-- **A flood spoils the stream**, and each peer in it stays within its own allowance:
the value that the node makes of the stream alone, it does not make after the flood, nor
after a commit that leaves the flood where it is. -/
theorem flood_spoils :
    (({} : Held Nat).replies leNumeral 0 (flood ++ .committed 1 :: honestStream 0)).map
        Option.isSome = [false, false, false, false] ∧
      (({} : Held Nat).replies leNumeral 0
        ((flood ++ .committed 1 :: honestStream 0).filter (HeldEvent.concerns 0))).map
        Option.isSome = [false, false, false, true] := by
  decide +kernel

end Edet.Node
