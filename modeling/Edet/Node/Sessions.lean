import Edet.Library.Runs
import Edet.Node.SeenSignatures
import Edet.View.Pending
import Edet.Wallet.Proof

/-!
# Session tokens

A member exchanges one signed request for a token, and reads as that member for a quarter of an
hour by showing it. The store keeps tokens by their hash, each with the key that the request was
signed under, and every committed block drops those that are too old, or whose member is suspended
or no longer holds the key.

`resolve_run_iff` says of every run of requests, reads and committed blocks which tokens resolve and
to whom: a token that was minted, is young enough, and has not been dropped or drawn again since.
`viewer_signed` says what stands behind a read that is answered as a member's: a signature, now or
when the token was minted, under a key that the ledger then attributed to the member.
-/

namespace Edet.Node

open Wallet (hexPairs)

def sessionTtlSecs : Nat := 15 * 60

/-- What a token stands for: the member, and the key of theirs that minted it. -/
structure SessionEntry where
  memberId : MemberId
  key : Key
  expiresSecs : Nat

/-- The tokens, by their hash. -/
abbrev SessionStore (D : Type) [Ord D] := OrdMap D SessionEntry

/-- The bytes of a token, which is 64 digits. -/
def decodeHex32 (s : String) : Option Bytes :=
  let bytes := Encoding.utf8 s
  if bytes.length ≠ 64 then none else hexPairs (bytes.map fun b => Char.ofNat b.toNat)

/-- Has the member not been suspended, and do they hold the key? -/
def SessionEntry.stands (s : State) (e : SessionEntry) : Bool :=
  (s.members[e.memberId]?).any fun m => decide (m.status ≠ .suspended) && m.keys.contains e.key

namespace SessionStore

variable {D : Type} [Ord D] [Std.TransOrd D] (sha256 : Bytes → D)

/-- Mint a token of the bytes that were drawn, if any were. -/
def mint (tokens : SessionStore D) (memberId : MemberId) (key : Key) (nowSecs : Nat)
    (drawn : Option Bytes) : Option (String × Nat) × SessionStore D :=
  match drawn with
  | none => (none, tokens)
  | some raw =>
    let expiresSecs := nowSecs + sessionTtlSecs
    (some (View.hex raw, expiresSecs), tokens.insert (sha256 raw) { memberId, key, expiresSecs })

/-- The member a token stands for, until it expires. -/
def resolve (tokens : SessionStore D) (token : String) (nowSecs : Nat) : Option MemberId :=
  (decodeHex32 token).bind fun raw =>
    ((tokens[sha256 raw]?).filter fun e => decide (nowSecs < e.expiresSecs)).map
      SessionEntry.memberId

def pruneExpired (tokens : SessionStore D) (nowSecs : Nat) : SessionStore D :=
  tokens.filter fun _ e => decide (nowSecs < e.expiresSecs)

def pruneInvalid (tokens : SessionStore D) (s : State) : SessionStore D :=
  tokens.filter fun _ e => e.stands s

end SessionStore

/-! ### Credentials -/

/-- Whether a key is a point of the curve, and whether it signed a message. -/
class VerifyingKey where
  isKey : Key → Bool
  verify : Key → Bytes → Signature → Bool

/-- Whom a signed request names: a key, or any key of a member. -/
inductive ViewerClaim
  | key (key : Key)
  | member (id : MemberId)

/-- A request with its signature. -/
structure SignedRequest where
  claim : ViewerClaim
  method : String
  path : String
  ts : UInt64
  nonceHex : String
  sig : Signature

/-- The bytes that the signature of a request covers. -/
def viewerAuthMessage (chainId method path : String) (ts : Nat) (nonceHex : String) : Bytes :=
  Encoding.utf8 (String.intercalate "\n"
    ["edet-view-v2", chainId, method ++ " " ++ path, toString ts, nonceHex])

def SignedRequest.message (s : State) (req : SignedRequest) : Bytes :=
  viewerAuthMessage s.chainId req.method req.path req.ts.toNat req.nonceHex

section Credentials

variable [VerifyingKey]

/-- The holder of the key that signed a message. The signature is checked before the key is looked
up. -/
def attributeKeyProof (s : State) (key : Key) (sig : Signature) (msg : Bytes) :
    Except ViewerAuthError (MemberId × Key) :=
  if ¬VerifyingKey.isKey key then .error .malformedHeader
  else if ¬VerifyingKey.verify key msg sig then .error .badSignature
  else
    match s.keyIndex[key]? with
    | some id => .ok (id, key)
    | none => .error (.unattributedKey key)

/-- Who signed a request, as the ledger has it. -/
def attributeRequest (s : State) (req : SignedRequest) : Except ViewerAuthError (MemberId × Key) :=
  let msg := req.message s
  match req.claim with
  | .key key => attributeKeyProof s key req.sig msg
  | .member id =>
    match s.members[id]? with
    | none => .error .unknownMember
    | some m =>
      match m.keys.find? fun key => VerifyingKey.isKey key && VerifyingKey.verify key msg req.sig with
      | some key => .ok (id, key)
      | none => .error .badSignature

/-- The ledger attributes a key to a member. -/
def Attributes (s : State) (id : MemberId) (key : Key) : Prop :=
  s.keyIndex[key]? = some id ∨ ∃ m, s.members[id]? = some m ∧ key ∈ m.keys

/-- Who is named signed, under a key that the ledger attributes to them. -/
theorem attributeRequest_ok {s : State} {req : SignedRequest} {id : MemberId} {key : Key}
    (h : attributeRequest s req = .ok (id, key)) :
    VerifyingKey.verify key (req.message s) req.sig = true ∧ Attributes s id key := by
  unfold attributeRequest at h
  dsimp only at h
  split at h
  · unfold attributeKeyProof at h
    split at h
    · cases h
    · split at h
      · cases h
      · next hverify =>
        split at h
        · next hindex =>
          cases h
          exact ⟨by simpa using hverify, .inl hindex⟩
        · cases h
  · split at h
    · cases h
    · next m hm =>
      split at h
      · next hfind =>
        cases h
        have hsigned := List.find?_some hfind
        rw [Bool.and_eq_true] at hsigned
        exact ⟨hsigned.2, .inr ⟨m, hm, List.mem_of_find?_eq_some hfind⟩⟩
      · cases h

omit [VerifyingKey] in
/-- Whoever a signed read names was attributed. -/
theorem attributed_of_verifySignedHeaders {attributed : Except ViewerAuthError (MemberId × Key)}
    {sig : Signature} {ts now : UInt64} {seen : SeenSignatures} {who : MemberId × Key}
    (h : (verifySignedHeaders attributed sig ts now seen).1 = .ok who) : attributed = .ok who := by
  unfold verifySignedHeaders at h
  split at h
  · cases h
  · split at h
    · dsimp only at h
      split at h
      · exact h
      · cases h
    · dsimp only at h
      split at h
      · exact h
      · cases h
    · exact h

end Credentials

/-! ### The node -/

/-- What the node decides a read by. -/
structure SessionNode (D : Type) [Ord D] where
  state : State
  seen : SeenSignatures := {}
  tokens : SessionStore D := ∅

/-- What a read shows of itself. -/
inductive Credential
  | anonymous
  | bearer (token : String)
  | signed (req : SignedRequest)

inductive SessionEvent
  /-- A request for a token, and the bytes drawn for it. -/
  | session (req : SignedRequest) (now : UInt64) (drawn : Option Bytes)
  | read (credential : Credential) (now : UInt64)
  /-- A block is committed, and leaves this ledger. -/
  | committed (state : State) (now : UInt64)

namespace SessionNode

variable {D : Type} [Ord D] [Std.TransOrd D] [VerifyingKey] (sha256 : Bytes → D)

def verify (req : SignedRequest) (now : UInt64) (node : SessionNode D) :
    Except ViewerAuthError (MemberId × Key) × SeenSignatures :=
  verifySignedHeaders (attributeRequest node.state req) req.sig req.ts now node.seen

/-- Exchange a signed request for a token. -/
def session (req : SignedRequest) (now : UInt64) (drawn : Option Bytes) (node : SessionNode D) :
    Except ViewerAuthError (Option (String × Nat)) × SessionNode D :=
  match node.verify req now with
  | (.ok (id, key), seen) =>
    let (token, tokens) := node.tokens.mint sha256 id key now.toNat drawn
    (.ok token, { node with seen, tokens })
  | (.error e, seen) => (.error e, { node with seen })

/-- Who is asking: a member, nobody, or someone who is refused. A key of no member is nobody. -/
def viewer (credential : Credential) (now : UInt64) (node : SessionNode D) :
    Except ViewerAuthError (Option MemberId) × SessionNode D :=
  match credential with
  | .anonymous => (.ok none, node)
  | .bearer token =>
    match node.tokens.resolve sha256 token now.toNat with
    | some id => (.ok (some id), node)
    | none => (.error .unknownOrExpiredToken, node)
  | .signed req =>
    match node.verify req now with
    | (.ok (id, _), seen) => (.ok (some id), { node with seen })
    | (.error (.unattributedKey _), seen) => (.ok none, { node with seen })
    | (.error e, seen) => (.error e, { node with seen })

/-- What is done once a block is committed. -/
def commitDecided (state : State) (now : UInt64) (node : SessionNode D) : SessionNode D where
  state
  seen := node.seen.prune now.toNat
  tokens := (node.tokens.pruneExpired now.toNat).pruneInvalid state

def next (e : SessionEvent) (node : SessionNode D) : SessionNode D :=
  match e with
  | .session req now drawn => (node.session sha256 req now drawn).2
  | .read credential now => (node.viewer sha256 credential now).2
  | .committed state now => node.commitDecided state now

def run (es : List SessionEvent) (node : SessionNode D) : SessionNode D :=
  es.foldl (fun node e => node.next sha256 e) node

end SessionNode

/-! ### Runs -/

section Runs

variable {D : Type} [Ord D] [Std.TransOrd D] [VerifyingKey] {sha256 : Bytes → D}

open SessionNode

/-- An event mints a token of these bytes. -/
def Mints (raw : Bytes) (entry : SessionEntry) (e : SessionEvent) (node : SessionNode D) : Prop :=
  ∃ req now id key, e = .session req now (some raw) ∧ (node.verify req now).1 = .ok (id, key) ∧
    entry = ⟨id, key, now.toNat + sessionTtlSecs⟩

/-- An event leaves the token of these bytes what it is. -/
def Survives (raw : Bytes) (entry : SessionEntry) (e : SessionEvent) (node : SessionNode D) : Prop :=
  match e with
  | .session _ _ _ => ∀ other, ¬Mints raw other e node
  | .read _ _ => True
  | .committed state now => now.toNat < entry.expiresSecs ∧ entry.stands state = true

theorem tokens_read (credential : Credential) (now : UInt64) (node : SessionNode D) :
    (node.next sha256 (.read credential now)).tokens = node.tokens := by
  cases credential with
  | anonymous => rfl
  | bearer token =>
    simp only [SessionNode.next, viewer]
    split <;> rfl
  | signed req =>
    simp only [SessionNode.next, viewer]
    split <;> rfl

theorem tokens_committed [Std.LawfulEqOrd D] {h : D} {entry : SessionEntry} (state : State) (now : UInt64)
    (node : SessionNode D) :
    (node.next sha256 (.committed state now)).tokens[h]? = some entry ↔
      node.tokens[h]? = some entry ∧ now.toNat < entry.expiresSecs ∧ entry.stands state = true := by
  rw [SessionNode.next, commitDecided]
  show ((node.tokens.filter _).filter _)[h]? = _ ↔ _
  rw [Std.ExtTreeMap.getElem?_filter', Std.ExtTreeMap.getElem?_filter']
  cases node.tokens[h]? with
  | none => simp
  | some e =>
    rw [Option.filter_some, Option.some_inj]
    by_cases hnow : now.toNat < e.expiresSecs
    · rw [if_pos (decide_eq_true hnow), Option.filter_some]
      by_cases hstands : e.stands state = true
      · rw [if_pos hstands, Option.some_inj]
        exact ⟨fun h => ⟨h, h ▸ hnow, h ▸ hstands⟩, And.left⟩
      · rw [if_neg hstands]
        exact ⟨fun h => (nomatch h), fun ⟨h, _, h'⟩ => absurd (h ▸ h') hstands⟩
    · rw [if_neg (by simpa using hnow)]
      exact ⟨fun h => (nomatch h), fun ⟨h, h', _⟩ => absurd (h ▸ h') hnow⟩

theorem tokens_session [Std.LawfulEqOrd D] (hinjective : Function.Injective sha256) {raw : Bytes}
    {entry : SessionEntry} (req : SignedRequest) (now : UInt64) (drawn : Option Bytes)
    (node : SessionNode D) :
    (node.next sha256 (.session req now drawn)).tokens[sha256 raw]? = some entry ↔
      Mints raw entry (.session req now drawn) node ∨
        node.tokens[sha256 raw]? = some entry ∧
          ∀ other, ¬Mints raw other (.session req now drawn) node := by
  rw [SessionNode.next, session]
  -- a request that is refused mints nothing
  rcases hverify : node.verify req now with ⟨⟨e⟩ | ⟨id, key⟩, seen⟩
  · have hnot (other : SessionEntry) : ¬Mints raw other (.session req now drawn) node := by
      rintro ⟨_, _, _, _, heq, hok, -⟩
      cases heq
      rw [hverify] at hok
      cases hok
    exact ⟨fun h => .inr ⟨h, hnot⟩, fun h => h.elim (fun h => absurd h (hnot _)) And.left⟩
  dsimp only
  have hmints (other : SessionEntry) : Mints raw other (.session req now drawn) node ↔
      drawn = some raw ∧ other = ⟨id, key, now.toNat + sessionTtlSecs⟩ := by
    constructor
    · rintro ⟨_, _, _, _, heq, hok, rfl⟩
      cases heq
      rw [hverify] at hok
      cases hok
      exact ⟨rfl, rfl⟩
    · rintro ⟨rfl, rfl⟩
      exact ⟨req, now, id, key, rfl, congrArg Prod.fst hverify, rfl⟩
  cases drawn with
  | none => simp [hmints, SessionStore.mint]
  | some other =>
    show (node.tokens.insert (sha256 other) _)[sha256 raw]? = _ ↔ _
    rw [Std.ExtTreeMap.getElem?_insert]
    -- the same bytes drawn again replace the entry
    by_cases hraw : other = raw
    · subst hraw
      rw [if_pos Std.ReflOrd.compare_self]
      simp [hmints, eq_comm]
    · rw [if_neg fun h => hraw (hinjective (Std.compare_eq_iff_eq.1 h))]
      simp [hmints, hraw]

/-- **What an event does to a token**: it mints it, or finds it and leaves it. -/
theorem tokens_next [Std.LawfulEqOrd D] (hinjective : Function.Injective sha256) {raw : Bytes}
    {entry : SessionEntry} (e : SessionEvent) (node : SessionNode D) :
    (node.next sha256 e).tokens[sha256 raw]? = some entry ↔
      Mints raw entry e node ∨ node.tokens[sha256 raw]? = some entry ∧ Survives raw entry e node := by
  cases e with
  | session req now drawn => exact tokens_session hinjective req now drawn node
  | read credential now =>
    rw [tokens_read]
    exact ⟨fun h => .inr ⟨h, trivial⟩, fun h => h.elim (fun ⟨_, _, _, _, h, _⟩ => nomatch h) And.left⟩
  | committed state now =>
    rw [tokens_committed]
    exact ⟨.inr, fun h => h.elim (fun ⟨_, _, _, _, h, _⟩ => nomatch h) id⟩

theorem run_append (es es' : List SessionEvent) (node : SessionNode D) :
    run sha256 (es ++ es') node = run sha256 es' (run sha256 es node) :=
  List.foldl_append

/-- The tokens that a run leaves are those that it minted and has left since. -/
theorem tokens_run [Std.LawfulEqOrd D] (hinjective : Function.Injective sha256)
    {node : SessionNode D} (hempty : node.tokens = ∅) (es : List SessionEvent) {raw : Bytes}
    {entry : SessionEntry} :
    (run sha256 es node).tokens[sha256 raw]? = some entry ↔
      ∃ before e after, es = before ++ e :: after ∧ Mints raw entry e (run sha256 before node) ∧
        Reaches.Admits (SessionNode.next sha256) (Survives raw entry) after
          (run sha256 (before ++ [e]) node) := by
  -- by induction on the run, its last event first
  induction es using List.reverseRecOn with
  | nil =>
    refine ⟨fun h => ?_, fun ⟨before, e, after, h, _⟩ => by simp at h⟩
    rw [run, List.foldl_nil, hempty, Std.ExtTreeMap.getElem?_empty] at h
    cases h
  | append_singleton es last ih =>
    rw [run_append]
    show ((run sha256 es node).next sha256 last).tokens[sha256 raw]? = some entry ↔ _
    rw [tokens_next hinjective, ih]
    constructor
    · rintro (h | ⟨⟨before, e, after, rfl, hmints, hkept⟩, hlast⟩)
      · exact ⟨es, last, [], rfl, h, trivial⟩
      · refine ⟨before, e, after ++ [last], by simp, hmints, hkept.append ⟨?_, trivial⟩⟩
        rwa [List.append_cons, run_append] at hlast
    · rintro ⟨before, e, after, heq, hmints, hkept⟩
      -- the token was minted by the last event, or before it and left by it
      rcases List.eq_nil_or_concat' after with rfl | ⟨after, last', rfl⟩
      · obtain ⟨rfl, h⟩ := List.append_inj' heq rfl
        cases h
        exact .inl hmints
      · rw [← List.cons_append, ← List.append_assoc] at heq
        obtain ⟨rfl, h⟩ := List.append_inj' heq rfl
        cases h
        obtain ⟨hkept, hlast, -⟩ := hkept.of_append
        refine .inr ⟨⟨before, e, after, rfl, hmints, hkept⟩, ?_⟩
        rwa [List.append_cons, run_append]

omit [VerifyingKey] in
/-- A token resolves to the member of its entry, while that has not expired. -/
theorem resolve_eq_some {tokens : SessionStore D} {token : String} {now : Nat} {id : MemberId} :
    tokens.resolve sha256 token now = some id ↔ ∃ raw entry, decodeHex32 token = some raw ∧
      tokens[sha256 raw]? = some entry ∧ entry.memberId = id ∧ now < entry.expiresSecs := by
  rw [SessionStore.resolve, Option.bind_eq_some_iff]
  constructor
  · rintro ⟨raw, hraw, h⟩
    obtain ⟨entry, hentry, rfl⟩ := Option.map_eq_some_iff.1 h
    obtain ⟨hentry, hnow⟩ := Option.filter_eq_some_iff.1 hentry
    exact ⟨raw, entry, hraw, hentry, rfl, of_decide_eq_true hnow⟩
  · rintro ⟨raw, entry, hraw, hentry, rfl, hnow⟩
    refine ⟨raw, hraw, ?_⟩
    rw [hentry, Option.filter_some, if_pos (decide_eq_true hnow), Option.map_some]

/-- **Which tokens resolve.** After any run from a node without tokens, a token resolves to a member
exactly if the run minted one of the same bytes for that member less than the time a token is good
for ago, did not draw these bytes again, and left it at every committed block: the member was not
suspended, and held the key that the token was minted under. -/
theorem resolve_run_iff [Std.LawfulEqOrd D] (hinjective : Function.Injective sha256)
    {node : SessionNode D} (hempty : node.tokens = ∅) (es : List SessionEvent) (token : String)
    (now : Nat) (id : MemberId) :
    (run sha256 es node).tokens.resolve sha256 token now = some id ↔
      ∃ raw entry before e after, decodeHex32 token = some raw ∧ es = before ++ e :: after ∧
        Mints raw entry e (run sha256 before node) ∧ entry.memberId = id ∧
        now < entry.expiresSecs ∧
        Reaches.Admits (SessionNode.next sha256) (Survives raw entry) after
          (run sha256 (before ++ [e]) node) := by
  rw [resolve_eq_some]
  constructor
  · rintro ⟨raw, entry, hraw, hentry, hid, hnow⟩
    obtain ⟨before, e, after, heq, hmints, hkept⟩ := (tokens_run hinjective hempty es).1 hentry
    exact ⟨raw, entry, before, e, after, hraw, heq, hmints, hid, hnow, hkept⟩
  · rintro ⟨raw, entry, before, e, after, hraw, heq, hmints, hid, hnow, hkept⟩
    exact ⟨raw, entry, hraw, (tokens_run hinjective hempty es).2
      ⟨before, e, after, heq, hmints, hkept⟩, hid, hnow⟩

/-- A request is signed and fresh, under a key that the ledger attributes to a member. -/
structure SignedFor (s : State) (id : MemberId) (key : Key) (req : SignedRequest) (now : UInt64) :
    Prop where
  verified : VerifyingKey.verify key (req.message s) req.sig = true
  attributed : Attributes s id key
  isFresh : fresh req.ts.toNat now.toNat timestampSkewSecs = true

omit [Std.TransOrd D] in
theorem signedFor_of_verify {req : SignedRequest} {now : UInt64} {node : SessionNode D}
    {id : MemberId} {key : Key} (h : (node.verify req now).1 = .ok (id, key)) :
    SignedFor node.state id key req now := by
  obtain ⟨hverified, hattributed⟩ := attributeRequest_ok (attributed_of_verifySignedHeaders h)
  exact ⟨hverified, hattributed, (verifySignedHeaders_admitted (Prod.ext h rfl)).1⟩

/-- A token that survives stands in every ledger that was committed. -/
theorem stands_of_admits {raw : Bytes} {entry : SessionEntry} {es : List SessionEvent}
    {node : SessionNode D}
    (h : Reaches.Admits (SessionNode.next sha256) (Survives raw entry) es node) {state : State}
    {now : UInt64} (he : .committed state now ∈ es) : entry.stands state = true := by
  -- by induction on what came after the token was minted
  induction es generalizing node with
  | nil => cases he
  | cons e es ih =>
    rcases List.mem_cons.1 he with rfl | he
    · exact h.1.2
    · exact ih h.2 he

omit [Ord D] [Std.TransOrd D] [VerifyingKey] in
theorem SessionEntry.stands_iff {s : State} {e : SessionEntry} : e.stands s = true ↔
    ∃ m, s.members[e.memberId]? = some m ∧ m.status ≠ .suspended ∧ e.key ∈ m.keys := by
  simp [SessionEntry.stands, Option.any_eq_true]

/-- **Nobody reads as a member without the member's signature.** A read that is answered as a
member's carries a fresh signature under a key that the ledger attributes to the member; or a token
that a request with such a signature was exchanged for, less than the time a token is good for ago,
and in every ledger committed since then the member was not suspended and held that key. -/
theorem viewer_signed [Std.LawfulEqOrd D] (hinjective : Function.Injective sha256)
    {node : SessionNode D} (hempty : node.tokens = ∅) (es : List SessionEvent)
    {credential : Credential} {now : UInt64} {id : MemberId}
    (h : ((run sha256 es node).viewer sha256 credential now).1 = .ok (some id)) :
    (∃ req key, credential = .signed req ∧ SignedFor (run sha256 es node).state id key req now) ∨
    ∃ token raw before req ts after key, credential = .bearer token ∧
      decodeHex32 token = some raw ∧ es = before ++ .session req ts (some raw) :: after ∧
      SignedFor (run sha256 before node).state id key req ts ∧
      now.toNat < ts.toNat + sessionTtlSecs ∧
      ∀ state t, .committed state t ∈ after →
        ∃ m, state.members[id]? = some m ∧ m.status ≠ .suspended ∧ key ∈ m.keys := by
  cases credential with
  | anonymous => cases h
  | bearer token =>
    refine .inr ?_
    rw [viewer] at h
    split at h
    case h_2 => cases h
    case h_1 id' hresolve =>
    cases h
    obtain ⟨raw, entry, hraw, hentry, rfl, hnow⟩ := resolve_eq_some.1 hresolve
    -- the token that resolves was minted, for a request that verified
    obtain ⟨before, e, after, rfl, ⟨req, ts, _, key, rfl, hok, rfl⟩, hkept⟩ :=
      (tokens_run hinjective hempty es).1 hentry
    exact ⟨token, raw, before, req, ts, after, key, rfl, hraw, rfl, signedFor_of_verify hok, hnow,
      fun state t ht => SessionEntry.stands_iff.1 (stands_of_admits hkept ht)⟩
  | signed req =>
    rw [viewer] at h
    rcases hverify : (run sha256 es node).verify req now with ⟨⟨e⟩ | ⟨id', key⟩, seen⟩
    · rw [hverify] at h
      cases e <;> cases h
    · rw [hverify] at h
      cases h
      exact .inl ⟨req, key, rfl, signedFor_of_verify (congrArg Prod.fst hverify)⟩

end Runs

/-! ### A token -/

/-- A key signs with its own number. -/
@[reducible]
def plainKey : VerifyingKey where
  isKey := fun _ => true
  verify := fun key _ sig => decide (sig.toNat = key.toNat)

/-- A node whose ledger has one member. -/
def oneMemberNode : SessionNode Nat where
  state :=
    { keyIndex := (∅ : OrdMap Key MemberId).insert 5 0
      members := (∅ : OrdMap MemberId Member).insert 0 { id := 0, keys := [5], joinedEpoch := 0 } }

def tokenRequest : SignedRequest where
  claim := .key 5
  method := "POST"
  path := "/session"
  ts := 1000
  nonceHex := "00000000000000000000000000000000"
  sig := 5

def zeroToken : String := "0000000000000000000000000000000000000000000000000000000000000000"

def zeroBytes : Bytes := List.replicate 32 0

theorem decodeHex32_zeroToken : decodeHex32 zeroToken = some zeroBytes := by decide +kernel

theorem verify_tokenRequest :
    let _ := plainKey
    (oneMemberNode.verify tokenRequest 1000).1 = .ok (0, 5) := by
  intro
  have hkey : oneMemberNode.state.keyIndex[(5 : Key)]? = some 0 :=
    Std.ExtTreeMap.getElem?_insert_self
  have hverify (msg : Bytes) : VerifyingKey.verify 5 msg 5 = true :=
    decide_eq_true (by decide +kernel)
  have hkeyed : VerifyingKey.isKey 5 = true := rfl
  have hattributed : attributeRequest oneMemberNode.state tokenRequest = .ok (0, 5) := by
    show attributeKeyProof oneMemberNode.state 5 5 _ = _
    rw [attributeKeyProof, if_neg (not_not.2 hkeyed), if_neg (not_not.2 (hverify _)), hkey]
  rw [SessionNode.verify, hattributed]
  rfl

/-- A run that mints one token. -/
def oneToken : List SessionEvent := [.session tokenRequest 1000 (some zeroBytes)]

/-- A minted token resolves, until fifteen minutes have passed. -/
theorem resolve_run_oneToken :
    let _ := plainKey
    (SessionNode.run leNumeral oneToken oneMemberNode).tokens.resolve leNumeral zeroToken 1899 =
      some 0 := by
  intro
  exact (resolve_run_iff leNumeral_injective rfl _ zeroToken 1899 0).2
    ⟨zeroBytes, ⟨0, 5, 1900⟩, [], _, [], decodeHex32_zeroToken, rfl,
      ⟨tokenRequest, 1000, 0, 5, rfl, verify_tokenRequest, rfl⟩, rfl, by decide, trivial⟩

/-- Behind a read with that token there is a signature. -/
theorem viewer_signed_oneToken :
    let _ := plainKey
    ∃ req ts key, SignedFor oneMemberNode.state 0 key req ts := by
  intro
  have hentry : (SessionNode.run leNumeral oneToken oneMemberNode).tokens[leNumeral zeroBytes]? =
      some ⟨0, 5, 1900⟩ := (tokens_run leNumeral_injective rfl _).2
    ⟨[], _, [], rfl, ⟨tokenRequest, 1000, 0, 5, rfl, verify_tokenRequest, rfl⟩, trivial⟩
  have hread : ((SessionNode.run leNumeral oneToken oneMemberNode).viewer leNumeral
      (.bearer zeroToken) 1899).1 = .ok (some 0) := by
    have hresolve : SessionStore.resolve leNumeral _ zeroToken (UInt64.toNat 1899) = some 0 :=
      resolve_eq_some.2 ⟨_, _, decodeHex32_zeroToken, hentry, rfl, by decide⟩
    rw [SessionNode.viewer, hresolve]
  obtain ⟨req, key, h, -⟩ | ⟨_, _, before, req, ts, after, key, -, -, hes, hsigned, -⟩ :=
    viewer_signed leNumeral_injective rfl oneToken hread
  · cases h
  · have hlength := congrArg List.length hes
    rw [List.length_append, List.length_cons, oneToken, List.length_singleton] at hlength
    obtain rfl : before = [] := List.eq_nil_of_length_eq_zero (by omega)
    exact ⟨req, ts, key, hsigned⟩

end Edet.Node
