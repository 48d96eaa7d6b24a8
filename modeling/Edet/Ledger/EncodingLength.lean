import Edet.Ledger.Encoding

/-!
# The length of what is read

A reader of the consensus encoding takes at least as many bytes as the encoding of what it
yields (`takes_tx`). It can take more: a set may be written with an element twice, and is
encoded with it once.
-/

namespace Edet.Encoding

@[simp] theorem length_u64 (n : Nat) : (u64 n).length = 8 := length_leBytes 8 n
@[simp] theorem length_u32 (n : Nat) : (u32 n).length = 4 := length_leBytes 4 n
@[simp] theorem length_f64 (x : F64) : (f64 x).length = 8 := length_leBytes 8 _
@[simp] theorem length_variant (i : Nat) : (variant i).length = 4 := length_leBytes 4 i
@[simp] theorem length_key (k : Key) : (key k).length = 32 := length_beBytes 32 _
@[simp] theorem length_bool (b : Bool) : (bool b).length = 1 := rfl

/-- A sequence is its length in eight bytes, then its entries. -/
theorem length_seq {α : Type} (enc : α → Bytes) (l : List α) :
    (seq enc l).length = 8 + (l.flatMap enc).length := by
  rw [seq, List.length_append, length_u64]

/-- A key is read from thirty-two bytes. -/
theorem takes_key : Takes readKey fun _ n => n = 32 := (Takes.bytes 32).map fun _ _ h => h

/-- An amount is read from eight. -/
theorem takes_f64 : Takes readF64 fun _ n => n = 8 := (Takes.uint 8).map fun _ _ h => h

/-- What a sequence is read from is no shorter than its encoding, where that holds of an entry. -/
theorem takes_seq {α : Type} {r : Reader α} {enc : α → Bytes}
    (h : Takes r fun a n => (enc a).length ≤ n) :
    Takes (Reader.seq r) fun l n => (seq enc l).length ≤ n :=
  (Takes.seq h).mono fun l n hn => by rwa [length_seq]

/-- A number is written in the eight bytes it is read from. -/
theorem takes_u64 : Takes (Reader.uint 8) fun a n => (u64 a).length ≤ n :=
  (Takes.uint 8).mono fun a n hn => by rw [length_u64, hn]

/-- A party is read from no fewer bytes than it is written in. -/
theorem takes_party : Takes readParty fun p n => (party p).length ≤ n := by
  refine (Takes.uint 4).bind fun i m hm => ?_
  match i with
  | 0 =>
    refine (Takes.uint 8).map fun a n hn => ?_
    simp only [party, List.length_flatten, List.map_cons, List.map_nil, length_variant,
      length_u64, List.sum_cons, List.sum_nil]
    omega
  | 1 =>
    refine takes_key.map fun a n hn => ?_
    simp only [party, List.length_flatten, List.map_cons, List.map_nil, length_variant,
      length_key, List.sum_cons, List.sum_nil]
    omega
  | _ + 2 => exact Takes.failure

/-- An element that is written twice is kept once. -/
theorem takes_set : Takes readSet fun s n => (seq u64 s.toList).length ≤ n := by
  have hlength (l : List MemberId) : (seq u64 l).length = 8 + 8 * l.length := by
    rw [length_seq, List.length_flatMap]
    simp [Nat.mul_comm]
  refine (takes_seq takes_u64).map fun l n hn => ?_
  have hle := length_ofList_le l
  rw [hlength] at hn ⊢
  omega

/-- A set may be sent with an id twice, and is written with it once. -/
theorem takes_arbTerms : Takes readArbTerms fun t n => (arbTerms t).length ≤ n := by
  refine takes_set.bind fun arbiters a ha => (Takes.uint 4).bind fun quorum b hb =>
    (Takes.uint 8).bind fun window c hc => takes_f64.bind fun cap d hd => Takes.pure ?_
  simp only [arbTerms, List.length_flatten, List.map_cons, List.map_nil, length_u32, length_u64,
    length_f64, List.sum_cons, List.sum_nil]
  omega

/-- The key of a parameter is an index. -/
theorem takes_paramKey : Takes readParamKey fun _ n => n = 4 := by
  refine (Takes.uint 4).bind fun i m hm => ?_
  match i with
  | 0 | 1 | 2 | 3 | 4 | 5 => exact Takes.pure hm
  | _ + 6 => exact Takes.failure

/-- The index of the kind is four bytes more. -/
theorem takes_kind (i : Nat) : Takes (readKind i) fun k n => (proposalKind k).length ≤ 4 + n := by
  match i with
  | 0 =>
    refine takes_paramKey.bind fun k a ha => takes_f64.bind fun v b hb => Takes.pure ?_
    simp [proposalKind]
    omega
  | 1 =>
    refine (Takes.uint 8).bind fun num a ha => (Takes.uint 8).bind fun den b hb => Takes.pure ?_
    simp [proposalKind]
    omega
  | 2 => exact (Takes.uint 8).map fun m n hn => by simp [proposalKind]; omega
  | 3 => exact (Takes.uint 8).map fun m n hn => by simp [proposalKind]; omega
  | 4 =>
    refine (Takes.uint 8).bind fun m a ha => (Takes.uint 8).bind fun p b hb => Takes.pure ?_
    simp [proposalKind]
    omega
  | 5 => exact takes_f64.map fun x n hn => by simp [proposalKind]; omega
  | _ + 6 => exact Takes.failure

/-- One byte says whether there is a value. -/
theorem takes_option {α : Type} {r : Reader α} {enc : α → Bytes}
    (h : Takes r fun a n => (enc a).length ≤ n) :
    Takes (Reader.option r) fun o n => (option enc o).length ≤ n := by
  have hnone : (option enc none).length ≤ 1 := Nat.le_refl 1
  refine Takes.option hnone (h.mono fun a n hn => ?_)
  rw [option, List.length_cons]
  omega

/-- One field that is a word. -/
theorem takes_one {f : Nat → Tx} (hf : ∀ a, (encodeTx (f a)).length = 12) :
    Takes (f <$> Reader.uint 8) fun tx n => (encodeTx tx).length ≤ 4 + n :=
  (Takes.uint 8).map fun a n hn => by rw [hf, hn]

/-- **A transaction is no longer than what it was read from**, kind by kind. -/
theorem takes_txBody (i : Nat) : Takes (txBody i) fun tx n => (encodeTx tx).length ≤ 4 + n := by
  match i with
  | 0 =>
    refine (Takes.uint 8).bind fun member a ha => (takes_seq takes_u64).bind fun guardians b hb =>
      (Takes.uint 4).bind fun threshold c hc => (Takes.uint 8).bind fun window d hd =>
      Takes.pure ?_
    simp [encodeTx]
    omega
  | 1 =>
    refine (Takes.uint 8).bind fun member a ha =>
      (takes_seq (takes_key.mono fun k n hn => (length_key k).trans_le hn.ge)).bind
        fun keys b hb => Takes.pure ?_
    simp [encodeTx]
    omega
  | 2 => exact takes_one fun a => by simp [encodeTx]
  | 3 => exact takes_one fun a => by simp [encodeTx]
  | 4 =>
    refine (Takes.uint 8).bind fun member a ha =>
      (takes_option (takes_key.mono fun k n hn => (length_key k).trans_le hn.ge)).bind
        fun k b hb => Takes.pure ?_
    simp [encodeTx]
    omega
  | 5 => exact takes_one fun a => by simp [encodeTx]
  | 6 =>
    have hentry : Takes (do
          let id ← Reader.uint 8
          let weight ← readF64
          pure (id, weight)) fun (e : MemberId × F64) n =>
        ([u64 e.1, f64 e.2].flatten).length ≤ n := by
      refine (Takes.uint 8).bind fun id a ha => takes_f64.bind fun w b hb => Takes.pure ?_
      simp
      omega
    refine (Takes.uint 8).bind fun supporter a ha =>
      (takes_seq hentry).bind fun entries b hb => Takes.pure ?_
    replace hb : (seq (fun e : MemberId × F64 => [u64 e.1, f64 e.2].flatten) entries).length ≤ b :=
      hb
    simp [encodeTx] at hb ⊢
    omega
  | 7 =>
    refine (Takes.uint 8).bind fun x a ha => (Takes.uint 8).bind fun y b hb =>
      Takes.bool.bind fun z c hc => Takes.pure ?_
    simp [encodeTx]
    omega
  | 8 =>
    refine takes_party.bind fun seller a ha => takes_party.bind fun buyer b hb =>
      takes_f64.bind fun amount c hc => (Takes.uint 8).bind fun maturity d hd => Takes.pure ?_
    simp [encodeTx]
    omega
  | 9 =>
    refine (Takes.uint 8).bind fun m a ha => takes_f64.bind fun x b hb => Takes.pure ?_
    simp [encodeTx]
    omega
  | 10 =>
    refine takes_party.bind fun debtor a ha => takes_party.bind fun creditor b hb =>
      takes_f64.bind fun amount c hc => (Takes.uint 8).bind fun maturity d hd =>
      (takes_option takes_arbTerms).bind fun arb e he => Takes.pure ?_
    simp [encodeTx]
    omega
  | 11 | 13 | 18 =>
    refine (Takes.uint 8).bind fun x a ha => (Takes.uint 8).bind fun y b hb => Takes.pure ?_
    simp [encodeTx]
    omega
  | 12 | 15 =>
    refine (Takes.uint 8).bind fun x a ha => takes_f64.bind fun y b hb => Takes.pure ?_
    simp [encodeTx]
    omega
  | 14 => exact takes_one fun a => by simp [encodeTx]
  | 16 =>
    refine (Takes.uint 8).bind fun x a ha => (Takes.uint 8).bind fun y b hb =>
      takes_f64.bind fun z c hc => Takes.pure ?_
    simp [encodeTx]
    omega
  | 17 =>
    refine (Takes.uint 8).bind fun author a ha => Takes.bind (P := fun kind n =>
      (proposalKind kind).length ≤ n) ?_ fun kind b hb => Takes.pure ?_
    · refine (Takes.uint 4).bind fun i m hm => (takes_kind i).mono fun k n hn => ?_
      omega
    · simp [encodeTx]
      omega
  | 19 => exact takes_one fun a => by simp [encodeTx]
  | _ + 20 => exact Takes.failure

/-- Reading a transaction takes at least the length of its encoding. -/
theorem takes_tx : Takes readTx fun tx n => (encodeTx tx).length ≤ n := by
  refine (Takes.uint 4).bind fun i m hm => (takes_txBody i).mono fun tx n hn => ?_
  omega

end Edet.Encoding
