/-
Tokens: `base64url_encode`, `base64url_decode`, `buildToken`, `parseToken`.

A token is three segments joined by dots.  The MAC covers the first two with the
dot between them, and since neither contains a dot, equal signing inputs have equal
segments.  `parseToken` asks for the clock only once the MAC and the JSON are in
order, so a token that fails before that costs no command.
-/
import Mathlib.Data.List.DropRight
import PqcApi.Backend

namespace PqcApi

open Concurrent

/-! ### base64url -/

/-- `+` to `-`, `/` to `_`. -/
def toUrl (c : UInt8) : UInt8 := if c = 43 then 45 else if c = 47 then 95 else c

/-- `-` to `+`, `_` to `/`. -/
def fromUrl (c : UInt8) : UInt8 := if c = 45 then 43 else if c = 95 then 47 else c

/-- `while (!result.empty() && result.back() == '=') result.pop_back()`. -/
def stripPad (s : Bytes) : Bytes := s.rdropWhile (· == Base64.pad)

/-- `while (padded.size() % 4 != 0) padded += '='`. -/
def padToFour (s : Bytes) : Bytes := s ++ List.replicate ((4 - s.length % 4) % 4) Base64.pad

def base64urlEncode (L : Lib) (input : Bytes) : Bytes := stripPad ((L.b64Write input).map toUrl)

def base64urlDecode (L : Lib) (input : Bytes) : Bytes :=
  L.b64Read (padToFour (input.map fromUrl))

/-- What the translation to the URL alphabet does to one character. -/
private theorem toUrl_symbol : ∀ n < 64, toUrl (Base64.symbol n) ≠ Base64.pad ∧
    fromUrl (toUrl (Base64.symbol n)) = Base64.symbol n ∧ toUrl (Base64.symbol n) ≠ dot := by
  decide

theorem stripPad_append {body : Bytes} (h : Base64.pad ∉ body) (k : Nat) :
    stripPad (body ++ List.replicate k Base64.pad) = body := by
  induction k with
  | zero =>
      rw [List.replicate_zero, List.append_nil]
      refine List.rdropWhile_eq_self_iff.mpr fun hne hlast => h ?_
      rw [← beq_iff_eq.mp hlast]
      exact List.getLast_mem hne
  | succ k ih =>
      rw [List.replicate_succ', ← List.append_assoc, stripPad,
        List.rdropWhile_concat_pos _ _ _ (by simp)]
      exact ih

/-- An encoding is its base64 body in the URL alphabet, the padding cut off. -/
theorem base64urlEncode_shape {L : Lib} {s : Bytes} (h : L.Base64Ok s) :
    ∃ body k, Base64.encode s = body ++ List.replicate k Base64.pad ∧ k ≤ 2 ∧
      (∀ c ∈ body, Base64.IsSymbol c) ∧ base64urlEncode L s = body.map toUrl := by
  obtain ⟨body, k, hbody, hk, hsym⟩ := Base64.encode_shape s
  refine ⟨body, k, hbody, hk, hsym, ?_⟩
  have hpad : toUrl Base64.pad = Base64.pad := by decide
  rw [base64urlEncode, h.write, hbody, List.map_append, List.map_replicate, hpad]
  refine stripPad_append (fun hmem => ?_) k
  obtain ⟨c, hc, heq⟩ := List.mem_map.mp hmem
  obtain ⟨n, hn, rfl⟩ := hsym c hc
  exact (toUrl_symbol n hn).1 heq

/-- No encoding contains a dot. -/
theorem dot_notMem_base64urlEncode {L : Lib} {s : Bytes} (h : L.Base64Ok s) :
    dot ∉ base64urlEncode L s := by
  obtain ⟨body, -, -, -, hsym, henc⟩ := base64urlEncode_shape h
  intro hmem
  rw [henc] at hmem
  obtain ⟨c, hc, heq⟩ := List.mem_map.mp hmem
  obtain ⟨n, hn, rfl⟩ := hsym c hc
  exact (toUrl_symbol n hn).2.2 heq

private theorem toUrl_ascii : ∀ n < 64, toUrl (Base64.symbol n) < 128 := by decide

/-- An encoding is ASCII. -/
theorem base64urlEncode_ascii {L : Lib} {s : Bytes} (h : L.Base64Ok s) :
    ∀ c ∈ base64urlEncode L s, c < 128 := by
  obtain ⟨body, -, -, -, hsym, henc⟩ := base64urlEncode_shape h
  intro c hmem
  rw [henc] at hmem
  obtain ⟨d, hd, rfl⟩ := List.mem_map.mp hmem
  obtain ⟨n, hn, rfl⟩ := hsym d hd
  exact toUrl_ascii n hn

/-- **Decoding undoes encoding.**  The padding is found again from the length. -/
theorem base64urlDecode_encode {L : Lib} {s : Bytes} (h : L.Base64Ok s) :
    base64urlDecode L (base64urlEncode L s) = s := by
  obtain ⟨body, k, hbody, hk, hsym, henc⟩ := base64urlEncode_shape h
  have hback : (body.map toUrl).map fromUrl = body := by
    rw [List.map_map]
    refine (List.map_congr_left fun c hc => ?_).trans (List.map_id body)
    obtain ⟨n, hn, rfl⟩ := hsym c hc
    exact (toUrl_symbol n hn).2.1
  have hlen : (body.length + k) % 4 = 0 := by
    have := Base64.length_encode s
    rwa [hbody, List.length_append, List.length_replicate] at this
  have hk' : (4 - body.length % 4) % 4 = k := by omega
  rw [base64urlDecode, henc, hback, padToFour, hk', ← hbody, h.read]

/-! ### Building -/

/-- `TOKEN_TTL_SECONDS`. -/
def tokenTtlSeconds : Int := 3600

/-- The constructor arguments of `AuthManager` that its functions read. -/
structure AuthManager where
  lib : Lib
  secretKey : Bytes

def tokenHeader : Json := .object [("alg", .text "HS256"), ("typ", .text "JWT")]

def tokenPayload (userId sessionId : Bytes) (iat exp : Int) : Json :=
  .object [("sub", .str userId), ("sid", .str sessionId), ("iat", .int iat), ("exp", .int exp)]

/-- `json::dump`, which throws on a string that is not UTF-8. -/
def dumpJson {τ : Type} (L : Lib) (j : Json) : Action τ Bytes :=
  match L.dump j with
  | some text => .ret text
  | none => .throw .json

namespace AuthManager

variable {τ : Type} [Field τ] [LinearOrder τ] [FloorRing τ]

/-- `HMAC(EVP_sha256(), secret_key_, ...)`. -/
def mac (A : AuthManager) (signingInput : Bytes) : Bytes := A.lib.hmac A.secretKey signingInput

def buildToken (A : AuthManager) (userId sessionId : Bytes) : Action τ Bytes := do
  let header ← dumpJson A.lib tokenHeader
  let h := base64urlEncode A.lib header
  let now : τ ← ask .now
  let exp := now + (tokenTtlSeconds : τ)
  let payload ← dumpJson A.lib (tokenPayload userId sessionId (truncate now) (truncate exp))
  let p := base64urlEncode A.lib payload
  let signingInput := h ++ dot :: p
  let sig := base64urlEncode A.lib (A.mac signingInput)
  return h ++ dot :: p ++ dot :: sig

/-! ### Parsing -/

/-- The three parts of a token: up to the first dot, up to the second, and the rest. -/
structure Segments where
  header : Bytes
  payload : Bytes
  signature : Bytes
  deriving DecidableEq

/-- `find('.')` twice, and `substr`. -/
def segments (token : Bytes) : Option Segments := do
  let (h, rest) ← splitOnce dot token
  let (p, sig) ← splitOnce dot rest
  return ⟨h, p, sig⟩

/-- What the MAC covers. -/
def Segments.signingInput (s : Segments) : Bytes := s.header ++ dot :: s.payload

/-- The signature segment decodes to the MAC of the first two. -/
def Verifies (A : AuthManager) (s : Segments) : Prop :=
  base64urlDecode A.lib s.signature = A.mac s.signingInput

instance (A : AuthManager) (s : Segments) : Decidable (A.Verifies s) :=
  inferInstanceAs (Decidable (_ = _))

/-- The payload once it is parsed: expiry first, then subject and session. -/
def readPayload (payload : Json) (now : Int) : Option (Bytes × Bytes) := do
  let exp ← (← payload.field "exp").getLong
  if exp < now then none
  else
    let userId ← (← payload.field "sub").getString
    let sessionId ← (← payload.field "sid").getString
    return (userId, sessionId)

/-- The user id and session id of a valid token; `none` where the source returns false. -/
def parseToken (A : AuthManager) (token : Bytes) : Action τ (Option (Bytes × Bytes)) :=
  match segments token with
  | none => .ret none
  | some s =>
      if A.Verifies s then
        match A.lib.jsonParse (base64urlDecode A.lib s.payload) with
        | none => .ret none
        | some payload => do
            let now : τ ← ask .now
            return readPayload payload (truncate now)
      else .ret none

/-! ### What a built token is -/

/-- The payload `buildToken` signs at time `now`. -/
def payloadAt (userId sessionId : Bytes) (now : τ) : Json :=
  tokenPayload userId sessionId (truncate now) (truncate (now + (tokenTtlSeconds : τ)))

/-- The segments of the token `buildToken` returns when it reads the time `now`. -/
def segmentsAt (A : AuthManager) (userId sessionId : Bytes) (now : τ) : Segments :=
  let h := base64urlEncode A.lib (A.lib.jsonDump tokenHeader)
  let p := base64urlEncode A.lib (A.lib.jsonDump (payloadAt userId sessionId now))
  ⟨h, p, base64urlEncode A.lib (A.mac (h ++ dot :: p))⟩

/-- A token from its segments. -/
def Segments.token (s : Segments) : Bytes :=
  s.header ++ dot :: s.payload ++ dot :: s.signature

/-- The payload's fields in key order. -/
theorem tokenPayload_fields (userId sessionId : Bytes) (iat exp : Int) :
    tokenPayload userId sessionId iat exp =
      .obj [(ascii "exp", .int exp), (ascii "iat", .int iat), (ascii "sid", .str sessionId),
        (ascii "sub", .str userId)] := by
  have h₁ : ¬ ascii "iat" < ascii "exp" := by decide
  have h₂ : ¬ ascii "sid" < ascii "exp" ∧ ¬ ascii "sid" < ascii "iat" := by decide
  have h₃ : ¬ ascii "sub" < ascii "exp" ∧ ¬ ascii "sub" < ascii "iat" ∧
      ¬ ascii "sub" < ascii "sid" := by decide
  simp only [tokenPayload, Json.object, List.foldr_cons, List.foldr_nil, Json.insertField, h₁,
    h₂, h₃, if_false]

/-- Reading a payload that `buildToken` wrote. -/
theorem readPayload_tokenPayload (userId sessionId : Bytes) (iat exp now : Int) :
    readPayload (tokenPayload userId sessionId iat exp) now =
      if exp < now then none else some (userId, sessionId) := by
  have hne : ascii "iat" ≠ ascii "sid" ∧ ascii "exp" ≠ ascii "sid" ∧ ascii "iat" ≠ ascii "sub" ∧
      ascii "exp" ≠ ascii "sub" ∧ ascii "sid" ≠ ascii "sub" := by decide
  rw [tokenPayload_fields]
  simp only [readPayload, Json.field, List.find?_cons, decide_true, hne, decide_false,
    Option.bind_eq_bind, Option.bind_some, Json.getLong, Json.getString, Option.pure_def]

theorem dump_tokenHeader (L : Lib) : L.dump tokenHeader = some (L.jsonDump tokenHeader) := by
  have h : tokenHeader.dumpable = true := by decide
  rw [Lib.dump, if_pos h]

theorem dump_tokenPayload (L : Lib) {userId sessionId : Bytes} (iat exp : Int)
    (hu : utf8 userId = true) (hs : utf8 sessionId = true) :
    L.dump (tokenPayload userId sessionId iat exp) =
      some (L.jsonDump (tokenPayload userId sessionId iat exp)) := by
  have h : (tokenPayload userId sessionId iat exp).dumpable = true := by
    rw [tokenPayload_fields]
    simp only [Json.dumpable, Json.dumpableFields, hu, hs]
    decide
  rw [Lib.dump, if_pos h]

/-- **`buildToken` on UTF-8 strings** reads the clock once and returns. -/
theorem buildToken_eq (A : AuthManager) {userId sessionId : Bytes} (hu : utf8 userId = true)
    (hs : utf8 sessionId = true) :
    A.buildToken userId sessionId =
      .call (S := services τ) .now fun now : τ =>
        .ret (A.segmentsAt userId sessionId now).token := by
  simp only [buildToken, dumpJson, dump_tokenHeader, dump_tokenPayload A.lib _ _ hu hs, ask,
    Program.bind_eq, Program.ret_bind, Program.pure_eq]
  rfl

/-! ### Splitting and joining -/

theorem segments_token {s : Segments} (hh : dot ∉ s.header) (hp : dot ∉ s.payload) :
    segments s.token = some s := by
  have htoken : s.token = s.header ++ dot :: (s.payload ++ dot :: s.signature) := by
    simp [Segments.token]
  rw [segments, htoken, splitOnce_append hh]
  simp only [Option.bind_eq_bind, Option.bind_some]
  rw [splitOnce_append hp]
  rfl

theorem segments_some {token : Bytes} {s : Segments} (h : segments token = some s) :
    token = s.token ∧ dot ∉ s.header ∧ dot ∉ s.payload := by
  simp only [segments, Option.bind_eq_bind, Option.bind_eq_some_iff, Prod.exists,
    Option.pure_def, Option.some.injEq] at h
  obtain ⟨hd, rest, hsplit, p, sig, hsplit', rfl⟩ := h
  obtain ⟨rfl, hhd⟩ := splitOnce_some hsplit
  obtain ⟨rfl, hp⟩ := splitOnce_some hsplit'
  exact ⟨by simp [Segments.token], hhd, hp⟩

/-- Equal signing inputs have equal segments. -/
theorem signingInput_injective {s s' : Segments} (hs : dot ∉ s.header) (hs' : dot ∉ s'.header)
    (h : s.signingInput = s'.signingInput) : s.header = s'.header ∧ s.payload = s'.payload := by
  have hsplit := splitOnce_append (b := s.payload) hs
  rw [show s.header ++ dot :: s.payload = s'.header ++ dot :: s'.payload from h,
    splitOnce_append hs', Option.some.injEq, Prod.mk.injEq] at hsplit
  exact ⟨hsplit.1.symm, hsplit.2.symm⟩

/-! ### The round trip -/

/-- The libraries round-trip what one call of `buildToken` writes: the base64 routines the two
JSON texts and the MAC, the JSON library the payload. -/
structure CodecAt (A : AuthManager) (userId sessionId : Bytes) (now : τ) : Prop where
  header : A.lib.Base64Ok (A.lib.jsonDump tokenHeader)
  payload : A.lib.Base64Ok (A.lib.jsonDump (payloadAt userId sessionId now))
  digest : A.lib.Base64Ok (A.mac (A.segmentsAt userId sessionId now).signingInput)
  json : A.lib.jsonParse (A.lib.jsonDump (payloadAt userId sessionId now)) =
    some (payloadAt userId sessionId now)

namespace CodecAt

variable {A : AuthManager} {userId sessionId : Bytes} {now : τ}
  (hc : A.CodecAt userId sessionId now)

include hc

/-- None of the three segments contains a dot. -/
theorem dot_notMem :
    dot ∉ (A.segmentsAt userId sessionId now).header ∧
      dot ∉ (A.segmentsAt userId sessionId now).payload ∧
      dot ∉ (A.segmentsAt userId sessionId now).signature :=
  ⟨dot_notMem_base64urlEncode hc.header, dot_notMem_base64urlEncode hc.payload,
    dot_notMem_base64urlEncode hc.digest⟩

/-- A built token is UTF-8. -/
theorem utf8_token : utf8 (A.segmentsAt userId sessionId now).token = true := by
  have hdot : dot < 128 := by decide
  refine utf8_of_ascii fun b hb => ?_
  simp only [Segments.token, List.mem_append, List.mem_cons] at hb
  rcases hb with (hb | rfl | hb) | rfl | hb
  · exact base64urlEncode_ascii hc.header b hb
  · exact hdot
  · exact base64urlEncode_ascii hc.payload b hb
  · exact hdot
  · exact base64urlEncode_ascii hc.digest b hb

theorem segments_eq :
    segments (A.segmentsAt userId sessionId now).token = some (A.segmentsAt userId sessionId now) :=
  segments_token hc.dot_notMem.1 hc.dot_notMem.2.1

theorem verifies : A.Verifies (A.segmentsAt userId sessionId now) :=
  base64urlDecode_encode hc.digest

theorem jsonParse_eq :
    A.lib.jsonParse (base64urlDecode A.lib (A.segmentsAt userId sessionId now).payload) =
      some (payloadAt userId sessionId now) := by
  have hback : base64urlDecode A.lib (A.segmentsAt userId sessionId now).payload =
      A.lib.jsonDump (payloadAt userId sessionId now) :=
    base64urlDecode_encode hc.payload
  rw [hback]
  exact hc.json

end CodecAt

end AuthManager

end PqcApi
