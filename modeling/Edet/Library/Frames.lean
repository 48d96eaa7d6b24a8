import Edet.Library.Codec

/-!
# Logs of frames

A log is a byte string to which frames are appended: the length of the payload in four bytes, a
digest of it in thirty-two, and the payload. `walk` reads a log from its start. It stops where what
is left is shorter than the frame it begins with, which is how a frame that was only partly written
is passed over (`tailOf` is what is left there); a frame whose digest is not its payload's is read
without a payload.

A log of whole frames, with a torn one behind them or none, is read back frame by frame
(`walkFrom_frames`). Only a log with nothing torn behind it can be appended to: a frame behind a torn one
is read as the rest of it.
-/

namespace Edet

/-- A frame's digest: thirty-two bytes. -/
abbrev FrameDigest := { b : Bytes // b.length = 32 }

namespace Frames

variable (digest : Bytes → FrameDigest)

/-- A payload as it is appended. -/
def frame (payload : Bytes) : Bytes := leBytes 4 payload.length ++ (digest payload).val ++ payload

/-- A frame is thirty-six bytes longer than its payload. -/
theorem length_frame (payload : Bytes) : (frame digest payload).length = 36 + payload.length := by
  simp only [frame, List.length_append, length_leBytes, (digest payload).property]

/-- A frame found in a log: where it starts, its bytes, and its payload if that is as it was
digested. -/
structure Found where
  offset : Nat
  raw : Bytes
  payload : Option Bytes

/-- The length that a log's first frame says it has. -/
def firstLength (log : Bytes) : Nat := 36 + leNat (log.take 4)

/-- The frame at the start of a log. -/
def first (offset : Nat) (log : Bytes) : Found :=
  let raw := log.take (firstLength log)
  let payload := raw.drop 36
  { offset, raw, payload := if (digest payload).val = (raw.drop 4).take 32 then some payload else none }

/-- The frames of a log from an offset on, up to one that is not all there. -/
def walkFrom (offset : Nat) (log : Bytes) : List Found :=
  if _h : firstLength log ≤ log.length then
    first digest offset log :: walkFrom (offset + firstLength log) (log.drop (firstLength log))
  else []
termination_by log.length
decreasing_by
  rw [List.length_drop]
  unfold firstLength at _h ⊢
  omega

/-- The frames of a log, from its start. -/
def walk (log : Bytes) : List Found := walkFrom digest 0 log

/-- What is left of a log behind its frames. -/
def tailOf (log : Bytes) : Bytes :=
  if _h : firstLength log ≤ log.length then tailOf (log.drop (firstLength log)) else log
termination_by log.length
decreasing_by
  rw [List.length_drop]
  unfold firstLength at _h ⊢
  omega

/-! ### Frames in front -/

section Front

variable {payload : Bytes} (hlen : payload.length < 2 ^ 32) (rest : Bytes)

include hlen

/-- The header of a frame gives its length, whatever follows. -/
theorem firstLength_frame : firstLength (frame digest payload ++ rest) = 36 + payload.length := by
  have htake : (frame digest payload ++ rest).take 4 = leBytes 4 payload.length := by
    rw [frame, List.append_assoc, List.append_assoc]
    exact List.take_left' (length_leBytes 4 _)
  rw [firstLength, htake, leNat_leBytes (by omega)]

/-- A frame at the head of a log is found whole. -/
theorem first_frame (offset : Nat) : first digest offset (frame digest payload ++ rest) =
    { offset, raw := frame digest payload, payload := some payload } := by
  have hraw : (frame digest payload ++ rest).take (36 + payload.length) = frame digest payload :=
    List.take_left' (length_frame digest payload)
  have hpayload : (frame digest payload).drop 36 = payload := by
    refine List.drop_left' ?_
    rw [List.length_append, length_leBytes, (digest payload).property]
  have hdigest : ((frame digest payload).drop 4).take 32 = (digest payload).val := by
    rw [frame, List.append_assoc, List.drop_left' (length_leBytes 4 _)]
    exact List.take_left' (digest payload).property
  simp only [first, firstLength_frame digest hlen, hraw, hpayload, hdigest, if_true]

/-- Behind a whole frame the walk goes on. -/
theorem walkFrom_frame (offset : Nat) : walkFrom digest offset (frame digest payload ++ rest) =
    { offset, raw := frame digest payload, payload := some payload } ::
      walkFrom digest (offset + 36 + payload.length) rest := by
  have hle : firstLength (frame digest payload ++ rest) ≤ (frame digest payload ++ rest).length := by
    rw [firstLength_frame digest hlen, List.length_append, length_frame]
    omega
  rw [walkFrom, dif_pos hle, first_frame digest hlen, firstLength_frame digest hlen,
    List.drop_left' (length_frame digest payload), Nat.add_assoc]

/-- A whole frame is no part of the tail. -/
theorem tailOf_frame : tailOf (frame digest payload ++ rest) = tailOf rest := by
  have hle : firstLength (frame digest payload ++ rest) ≤ (frame digest payload ++ rest).length := by
    rw [firstLength_frame digest hlen, List.length_append, length_frame]
    omega
  rw [tailOf, dif_pos hle, firstLength_frame digest hlen, List.drop_left' (length_frame digest payload)]

end Front

/-! ### Torn frames -/

/-- What a crash leaves of a frame: some of its bytes, not all. -/
def Torn (tail : Bytes) : Prop :=
  ∃ payload cut, payload.length < 2 ^ 32 ∧ cut < 36 + payload.length ∧
    tail = (frame digest payload).take cut

/-- No bytes at all are a torn frame, cut before its first. -/
theorem torn_nil : Torn digest [] := ⟨[], 0, by simp, by simp, rfl⟩

variable {digest}

/-- The header of a torn frame says how long the frame would be, whatever is behind it. -/
theorem firstLength_take {payload : Bytes} (hlen : payload.length < 2 ^ 32) {cut : Nat}
    (hcut : 4 ≤ cut) (rest : Bytes) :
    firstLength ((frame digest payload).take cut ++ rest) = 36 + payload.length := by
  have htake : ((frame digest payload).take cut ++ rest).take 4 =
      (frame digest payload ++ []).take 4 := by
    have hle : 4 ≤ ((frame digest payload).take cut).length := by
      rw [List.length_take, length_frame]
      omega
    rw [List.append_nil, List.take_append_of_le_length hle, List.take_take, Nat.min_eq_left hcut]
  have hfirst := firstLength_frame digest hlen []
  unfold firstLength at hfirst ⊢
  rw [htake, hfirst]

/-- A torn frame says that it is longer than it is. -/
theorem Torn.short {tail : Bytes} (h : Torn digest tail) : tail.length < firstLength tail := by
  obtain ⟨payload, cut, hlen, hcut, rfl⟩ := h
  have hlength : ((frame digest payload).take cut).length = cut := by
    rw [List.length_take, length_frame]
    omega
  rw [hlength]
  by_cases hheader : cut < 36
  · exact Nat.lt_of_lt_of_le hheader (Nat.le_add_right _ _)
  · have hfirst := @firstLength_take digest payload hlen cut (by omega) []
    rw [List.append_nil] at hfirst
    rw [hfirst]
    exact hcut

/-- Nothing is found in a log that is shorter than its first frame. -/
theorem walkFrom_of_short {log : Bytes} (h : log.length < firstLength log) (offset : Nat) :
    walkFrom digest offset log = [] := by
  rw [walkFrom, dif_neg (Nat.not_le.2 h)]

/-- Nothing is found in a torn frame. -/
theorem Torn.walkFrom {tail : Bytes} (h : Torn digest tail) (offset : Nat) :
    walkFrom digest offset tail = [] :=
  walkFrom_of_short h.short offset

/-- A torn frame is all tail. -/
theorem Torn.tailOf {tail : Bytes} (h : Torn digest tail) : tailOf tail = tail := by
  rw [Frames.tailOf, dif_neg (Nat.not_le.2 h.short)]

/-! ### Whole frames -/

/-- Some payloads as frames, one behind the other. -/
def frames (digest : Bytes → FrameDigest) (payloads : List Bytes) : Bytes :=
  payloads.flatMap (frame digest)

/-- **A log of whole frames is read back**, a torn one behind them passed over. -/
theorem walkFrom_frames {payloads : List Bytes} {tail : Bytes} (htail : Torn digest tail)
    (hlen : ∀ p ∈ payloads, p.length < 2 ^ 32) (offset : Nat) :
    (walkFrom digest offset (frames digest payloads ++ tail)).map (fun f => (f.raw, f.payload)) =
      payloads.map fun p => (frame digest p, some p) := by
  induction payloads generalizing offset with
  | nil => exact congrArg _ (htail.walkFrom offset)
  | cons p payloads ih =>
    rw [frames, List.flatMap_cons, List.append_assoc,
      walkFrom_frame digest (hlen p (List.mem_cons_self ..)), List.map_cons, List.map_cons]
    exact congrArg _ (ih (fun q hq => hlen q (List.mem_cons_of_mem _ hq)) _)

/-- Behind whole frames a torn one is the tail. -/
theorem tailOf_frames {payloads : List Bytes} {tail : Bytes} (htail : Torn digest tail)
    (hlen : ∀ p ∈ payloads, p.length < 2 ^ 32) : tailOf (frames digest payloads ++ tail) = tail := by
  induction payloads with
  | nil => exact htail.tailOf
  | cons p payloads ih =>
    rw [frames, List.flatMap_cons, List.append_assoc,
      tailOf_frame digest (hlen p (List.mem_cons_self ..))]
    exact ih fun q hq => hlen q (List.mem_cons_of_mem _ hq)

end Frames

end Edet
