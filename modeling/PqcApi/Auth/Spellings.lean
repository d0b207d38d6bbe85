/-
The spellings of a token.

`base64url_decode` undoes `base64url_encode`, but it reads more than that writes: it lets `+` and
`/` through next to `-` and `_`, fills up padding that may be there in part, and leaves the rest to
OpenSSL's reader, which looks at neither the unused bits of the last group nor the place of a
padding character.  `parseToken` compares the bytes that come out of it.  Header and payload of a
token are safe, since the MAC is of their text as it stands; the signature is not, and as long as
a token lasts it is accepted in other spellings than the one that was issued.
-/
import PqcApi.Auth.RoundTrip
import PqcApi.Codec.Base64Reader

namespace PqcApi

open Concurrent

/-! ### The alphabet -/

/-- The base64 BIO writes RFC 4648 text and reads it back, for the lengths the casts to `int`
keep. -/
def Lib.Rfc4648 (L : Lib) : Prop := ∀ s : Bytes, s.length < 2 ^ 31 / 2 → L.Base64Ok s

private theorem toUrl_alphabet : ∀ n < 64, isAlnum (toUrl (Base64.symbol n)) = true ∨
    toUrl (Base64.symbol n) = 45 ∨ toUrl (Base64.symbol n) = 95 := by decide

/-- What `base64url_encode` writes. -/
theorem base64urlEncode_alphabet {L : Lib} {s : Bytes} (h : L.Base64Ok s) {c : UInt8}
    (hc : c ∈ base64urlEncode L s) : isAlnum c = true ∨ c = 45 ∨ c = 95 := by
  obtain ⟨body, -, -, -, hsym, henc⟩ := base64urlEncode_shape h
  rw [henc] at hc
  obtain ⟨d, hd, rfl⟩ := List.mem_map.mp hc
  obtain ⟨n, hn, rfl⟩ := hsym d hd
  exact toUrl_alphabet n hn

/-- **The two base64url loops are inverse**, and leave only the URL alphabet. -/
theorem base64url_inverse {L : Lib} (hL : L.Rfc4648) {s : Bytes} (hs : s.length < 2 ^ 31 / 2) :
    base64urlDecode L (base64urlEncode L s) = s ∧
      (∀ c ∈ base64urlEncode L s, isAlnum c = true ∨ c = 45 ∨ c = 95) ∧
      dot ∉ base64urlEncode L s ∧ Base64.pad ∉ base64urlEncode L s := by
  have hok := hL s hs
  have hpad : isAlnum Base64.pad = false ∧ Base64.pad ≠ 45 ∧ Base64.pad ≠ 95 := by decide
  refine ⟨base64urlDecode_encode hok, fun c => base64urlEncode_alphabet hok,
    dot_notMem_base64urlEncode hok, fun h => ?_⟩
  rcases base64urlEncode_alphabet hok h with h | h | h
  · rw [hpad.1] at h
    cases h
  · exact hpad.2.1 h
  · exact hpad.2.2 h

/-- Four bytes: a NUL at either end, and both characters that differ between the alphabets. -/
theorem base64url_inverse_sample :
    base64urlDecode Sample.lib (base64urlEncode Sample.lib [0, 251, 255, 0]) = [0, 251, 255, 0] ∧
      (∀ c ∈ base64urlEncode Sample.lib [0, 251, 255, 0], isAlnum c = true ∨ c = 45 ∨ c = 95) ∧
      dot ∉ base64urlEncode Sample.lib [0, 251, 255, 0] ∧
      Base64.pad ∉ base64urlEncode Sample.lib [0, 251, 255, 0] :=
  base64url_inverse (fun s _ => Sample.base64Ok s) (by norm_num)

/-! ### OpenSSL -/

/-- The base64 BIO as OpenSSL has it, and the length of HMAC-SHA256. -/
structure Lib.OpenSsl (L : Lib) : Prop where
  write : ∀ s : Bytes, s.length < 2 ^ 31 / 2 → L.b64Write s = Base64.encode s
  read : ∀ s, L.b64Read s = Base64.Reader.read s
  digest : ∀ key m, (L.hmac key m).length = 32

theorem Lib.OpenSsl.rfc4648 {L : Lib} (h : L.OpenSsl) : L.Rfc4648 := by
  intro s hs
  refine ⟨h.write s hs, ?_⟩
  have hread : Base64.Reader.read (Base64.encode s ++ []) = s :=
    Base64.Reader.read_encode hs (by simp)
  rw [h.read, ← List.append_nil (Base64.encode s), hread]

/-- The text is one that is read as these bytes when the alphabet is translated and the padding
put back. -/
def SignatureSpells (text digest : Bytes) : Prop :=
  Base64.Reader.Spells (Base64.Reader.visible (padToFour (text.map fromUrl))) digest

theorem base64urlDecode_eq_iff {L : Lib} (h : L.OpenSsl) {text digest : Bytes} :
    base64urlDecode L text = digest ↔ SignatureSpells text digest := by
  rw [base64urlDecode, h.read, Base64.Reader.read_eq_iff]
  rfl

/-- An encoding is a character short of its groups for each padding character. -/
theorem length_base64urlEncode {L : Lib} {s : Bytes} (h : L.Base64Ok s) :
    (base64urlEncode L s).length + Base64.Reader.missing s.length = (s.length + 2) / 3 * 4 := by
  obtain ⟨body, k, hbody, -, hsym, henc⟩ := base64urlEncode_shape h
  have hlen := Base64.length_encode_eq s
  rw [hbody, List.length_append, List.length_replicate] at hlen
  rw [henc, List.length_map, ← Base64.Reader.eq_missing hbody hsym]
  exact hlen

/-- A padding character that was cut off may be there: it is put back otherwise. -/
theorem padToFour_append_pad {s : Bytes} (h : s.length % 4 = 3) :
    padToFour (s ++ [Base64.pad]) = padToFour s := by
  have hpad : (4 - (s ++ [Base64.pad]).length % 4) % 4 = 0 ∧ (4 - s.length % 4) % 4 = 1 := by
    rw [List.length_append, List.length_singleton]
    omega
  rw [padToFour, padToFour, hpad.1, hpad.2]
  simp

theorem base64urlDecode_append_pad {L : Lib} {s : Bytes} (h : s.length % 4 = 3) :
    base64urlDecode L (s ++ [Base64.pad]) = base64urlDecode L s := by
  have hpad : [Base64.pad].map fromUrl = [Base64.pad] := by decide
  rw [base64urlDecode, base64urlDecode, List.map_append, hpad,
    padToFour_append_pad (by rwa [List.length_map])]

/-! ### The tokens that were issued -/

variable {τ : Type} [Field τ] [LinearOrder τ] [FloorRing τ]

variable (τ) in
/-- A call of `buildToken`: its arguments, which it dumps as UTF-8, and the time it read. -/
structure Build where
  userId : Bytes
  sessionId : Bytes
  now : τ
  utf8_userId : utf8 userId = true
  utf8_sessionId : utf8 sessionId = true

namespace Build

variable (b : Build τ) (A : AuthManager)

def segments : AuthManager.Segments := A.segmentsAt b.userId b.sessionId b.now

/-- The token it returned. -/
def token : Bytes := (b.segments A).token

/-- Its header and payload with a signature of one's own. -/
def signedBy (text : Bytes) : Bytes := { b.segments A with signature := text }.token

/-- The libraries round-trip what it wrote. -/
def Codec : Prop := A.CodecAt b.userId b.sessionId b.now

/-- The token has not expired. -/
def Live (now : τ) : Prop := truncate now ≤ truncate (b.now + (tokenTtlSeconds : τ))

theorem signature_eq : (b.segments A).signature =
    base64urlEncode A.lib (A.mac (b.segments A).signingInput) := rfl

/-- What the call returned. -/
theorem alone_buildToken (w : World τ) :
    (machine τ A.lib).alone .done { w with now := b.now } (A.buildToken b.userId b.sessionId) =
      some (.ret (b.token A), { w with now := b.now }) := by
  rw [AuthManager.buildToken_eq A b.utf8_userId b.utf8_sessionId]
  rfl

variable {b A}

theorem dot_notMem (hb : b.Codec A) :
    dot ∉ (b.segments A).header ∧ dot ∉ (b.segments A).payload :=
  ⟨AuthManager.CodecAt.dot_notMem hb |>.1, AuthManager.CodecAt.dot_notMem hb |>.2.1⟩

theorem segments_signedBy (hb : b.Codec A) (text : Bytes) :
    AuthManager.segments (b.signedBy A text) = some { b.segments A with signature := text } :=
  AuthManager.segments_token (s := { b.segments A with signature := text }) (dot_notMem hb).1
    (dot_notMem hb).2

end Build

namespace AuthManager

/-- `parseToken` returns true on this token, run in `w`. -/
def Accepts (A : AuthManager) (w : World τ) (token : Bytes) : Prop :=
  ∃ ids, (machine τ A.lib).alone .done w (A.parseToken token) = some (.ret (some ids), w)

/-- The token is no forgery: if its signature is the MAC of its header and payload, one of these
calls signed them. -/
def Genuine (A : AuthManager) (issued : Set (Build τ)) (token : Bytes) : Prop :=
  ∀ s, segments token = some s → A.Verifies s →
    ∃ b ∈ issued, (b.segments A).signingInput = s.signingInput

/-- The token is one of these in another spelling: header and payload of a token that lasts,
and a signature that is not its own and is read as the same MAC. -/
def Respelt (A : AuthManager) (issued : Set (Build τ)) (now : τ) (token : Bytes) : Prop :=
  ∃ b ∈ issued, b.Live now ∧ ∃ text, text ≠ (b.segments A).signature ∧
    SignatureSpells text (A.mac (b.segments A).signingInput) ∧ token = b.signedBy A text

theorem accepts_iff {A : AuthManager} {w : World τ} {token : Bytes} :
    A.Accepts w token ↔
      ∃ p, A.payload token = some p ∧ (readPayload p (truncate w.now)).isSome := by
  unfold Accepts
  rw [parseToken_eq]
  cases A.payload token with
  | none =>
      refine ⟨fun ⟨ids, h⟩ => ?_, fun ⟨p, h, _⟩ => by cases h⟩
      exact absurd h (by simp [Machine.alone])
  | some p =>
      show (∃ ids, some (Program.ret (readPayload p (truncate w.now)), w) = _) ↔ _
      constructor
      · rintro ⟨ids, h⟩
        refine ⟨p, rfl, ?_⟩
        rw [(Program.ret.inj (Prod.mk.inj (Option.some.inj h)).1)]
        rfl
      · rintro ⟨p', hp, hread⟩
        obtain rfl := Option.some.inj hp
        obtain ⟨ids, hids⟩ := Option.isSome_iff_exists.mp hread
        exact ⟨ids, by rw [hids]⟩

theorem verifies_of_accepts {A : AuthManager} {w : World τ} {token : Bytes}
    (h : A.Accepts w token) : ∃ s, segments token = some s ∧ A.Verifies s := by
  obtain ⟨p, hp, -⟩ := accepts_iff.mp h
  unfold payload at hp
  cases hs : segments token with
  | none =>
      rw [hs] at hp
      cases hp
  | some s =>
      refine ⟨s, rfl, ?_⟩
      by_contra hv
      simp only [hs, hv, if_false] at hp
      cases hp

/-- A token that verifies has the header and payload of one that was issued. -/
theorem Genuine.signedBy {A : AuthManager} {issued : Set (Build τ)} {token : Bytes}
    (h : A.Genuine issued token) (hcodec : ∀ b ∈ issued, b.Codec A) {s : Segments}
    (hs : segments token = some s) (hv : A.Verifies s) :
    ∃ b ∈ issued, token = b.signedBy A s.signature := by
  obtain ⟨b, hb, hinput⟩ := h s hs hv
  obtain ⟨rfl, hheader, -⟩ := segments_some hs
  obtain ⟨hh, hp⟩ : (b.segments A).header = s.header ∧ (b.segments A).payload = s.payload :=
    signingInput_injective (Build.dot_notMem (hcodec b hb)).1 hheader hinput
  refine ⟨b, hb, ?_⟩
  show s.token = Segments.token ⟨(b.segments A).header, (b.segments A).payload, s.signature⟩
  rw [hh, hp]

end AuthManager

namespace Build

variable {b b' : Build τ} {A : AuthManager} {w : World τ} {text : Bytes}

theorem token_eq_signedBy : b.token A = b.signedBy A (b.segments A).signature := rfl

/-- Its header and payload are no forgery, whatever signature follows them. -/
theorem genuine_signedBy {issued : Set (Build τ)} (hmem : b ∈ issued) (hb : b.Codec A) :
    A.Genuine issued (b.signedBy A text) := by
  intro s hs _
  rw [segments_signedBy hb] at hs
  rw [← Option.some.inj hs]
  exact ⟨b, hmem, rfl⟩

/-- A token determines its signature. -/
theorem signature_of_token (hb : b.Codec A) (hb' : b'.Codec A)
    (h : b'.token A = b.signedBy A text) : (b.segments A).signature = text := by
  have hsegments := segments_signedBy hb' (b'.segments A).signature
  rw [← token_eq_signedBy, h, segments_signedBy hb] at hsegments
  have heq : { b.segments A with signature := text } = b'.segments A := Option.some.inj hsegments
  have hsignature := b'.signature_eq A
  rw [← heq] at hsignature
  exact hsignature.symm

/-- **Whatever is read as the MAC is accepted** while the token lasts. -/
theorem accepts_signedBy (hb : b.Codec A)
    (htext : base64urlDecode A.lib text = A.mac (b.segments A).signingInput) :
    A.Accepts w (b.signedBy A text) ↔ b.Live w.now := by
  have hpayload : A.payload (b.signedBy A text) = _ :=
    AuthManager.CodecAt.payload_respelt hb htext
  rw [AuthManager.accepts_iff, hpayload]
  simp only [Option.some.injEq, exists_eq_left', AuthManager.payloadAt,
    AuthManager.readPayload_tokenPayload, Live]
  by_cases hlate : truncate w.now ≤ truncate (b.now + (tokenTtlSeconds : τ))
  · simp [hlate, not_lt.mpr hlate]
  · simp [hlate, not_le.mp hlate]

/-- **Nothing else is.** -/
theorem decode_of_accepts (hb : b.Codec A) (h : A.Accepts w (b.signedBy A text)) :
    base64urlDecode A.lib text = A.mac (b.segments A).signingInput := by
  obtain ⟨p, hp, -⟩ := AuthManager.accepts_iff.mp h
  by_contra hne
  have hverifies : ¬ A.Verifies { b.segments A with signature := text } := hne
  simp only [AuthManager.payload, segments_signedBy hb, hverifies, if_false] at hp
  cases hp

theorem decode_signature (hb : b.Codec A) :
    base64urlDecode A.lib (b.segments A).signature = A.mac (b.segments A).signingInput :=
  AuthManager.CodecAt.verifies hb

/-- The signature with the padding character that was cut off is read as it was. -/
theorem decode_signature_append_pad (hlib : A.lib.OpenSsl) (hb : b.Codec A) :
    base64urlDecode A.lib ((b.segments A).signature ++ [Base64.pad]) =
      A.mac (b.segments A).signingInput := by
  have hok : A.lib.Base64Ok (A.mac (b.segments A).signingInput) := AuthManager.CodecAt.digest hb
  have hlength := length_base64urlEncode hok
  have hmac : (A.mac (b.segments A).signingInput).length = 32 := hlib.digest _ _
  have hmissing : Base64.Reader.missing 32 = 1 := rfl
  rw [hmac, hmissing, ← signature_eq] at hlength
  rw [base64urlDecode_append_pad (by omega)]
  exact decode_signature hb

end Build

/-! ### The library with OpenSSL's reader -/

namespace Sample

def openssl : Lib := { lib with b64Read := Base64.Reader.read }

theorem length_hmac (k m : Bytes) : (lib.hmac k m).length = 32 := by
  simp only [lib]
  cases hfind : macs.find? fun e => ascii e.1 = m with
  | none => rfl
  | some e =>
      have hall : ∀ e ∈ macs, e.2.length = 32 := by decide
      exact hall e (List.mem_of_find?_eq_some hfind)

theorem openssl_ok : openssl.OpenSsl where
  write _ _ := by simp only [openssl, lib]
  read _ := by simp only [openssl]
  digest k m := by simpa only [openssl] using length_hmac k m

def opensslAuth : AuthManager := ⟨openssl, auth.secretKey⟩

/-- The call of `buildToken` in a login of the first account at time 0. -/
def build : Build ℚ := ⟨toDecimal 1, hex draw, 0, utf8_toDecimal 1, utf8_hex draw⟩

theorem payloadAt_build : AuthManager.payloadAt build.userId build.sessionId build.now =
    tokenPayload (toDecimal 1) (hex draw) 0 3600 := by
  have hnow : truncate (0 : ℚ) = 0 := by
    rw [truncate, if_pos (by norm_num), Int.floor_eq_iff]
    norm_num
  have hexp : truncate ((0 : ℚ) + (tokenTtlSeconds : ℚ)) = 3600 := by
    rw [truncate, if_pos (by norm_num [tokenTtlSeconds]), Int.floor_eq_iff]
    norm_num [tokenTtlSeconds]
  rw [AuthManager.payloadAt, show build.now = 0 from rfl, hnow, hexp]
  rfl

theorem opensslAuth_ok : opensslAuth.lib.OpenSsl := openssl_ok

theorem build_codec : build.Codec opensslAuth where
  header := opensslAuth_ok.rfc4648 _ (by decide +kernel)
  payload := opensslAuth_ok.rfc4648 _ (by rw [payloadAt_build]; decide +kernel)
  digest := opensslAuth_ok.rfc4648 _ (by
    rw [AuthManager.mac, opensslAuth_ok.digest]
    norm_num)
  json := by
    rw [payloadAt_build]
    exact parse_tokenPayload 1 draw 0 3600

theorem build_live : build.Live (0 : ℚ) :=
  truncate_mono (by norm_num [build, tokenTtlSeconds])

theorem segments_build : build.segments opensslAuth =
    let h := base64urlEncode openssl (openssl.jsonDump tokenHeader)
    let p := base64urlEncode openssl
      (openssl.jsonDump (tokenPayload (toDecimal 1) (hex draw) 0 3600))
    ⟨h, p, base64urlEncode openssl (opensslAuth.mac (h ++ dot :: p))⟩ := by
  show opensslAuth.segmentsAt _ _ _ = _
  rw [AuthManager.segmentsAt, payloadAt_build]
  rfl

end Sample

/-! ### Altered tokens -/

/-- **What is accepted though it was not issued**, given that nobody else can make a MAC.  A token
that is accepted was issued, unless it is an issued one in another spelling; and a token has
only its own spelling exactly when it has expired. -/
theorem unaltered_iff {A : AuthManager} (hlib : A.lib.OpenSsl) {issued : Set (Build τ)}
    (hcodec : ∀ b ∈ issued, b.Codec A) (w : World τ) :
    (∀ token, A.Genuine issued token →
      ((A.Accepts w token → ∃ b ∈ issued, b.token A = token) ↔ ¬ A.Respelt issued w.now token)) ∧
    ∀ b ∈ issued,
      ((∀ text text', A.Accepts w (b.signedBy A text) → A.Accepts w (b.signedBy A text') →
        text = text') ↔ ¬ b.Live w.now) := by
  refine ⟨fun token hgenuine => ⟨fun h hrespelt => ?_, fun h haccepts => ?_⟩,
    fun b hb => ⟨fun h hlive => ?_, fun h text text' haccepts => ?_⟩⟩
  · obtain ⟨b, hb, hlive, text, hne, hspells, rfl⟩ := hrespelt
    have htext := (base64urlDecode_eq_iff hlib).mpr hspells
    obtain ⟨b', hb', htoken⟩ := h ((Build.accepts_signedBy (hcodec b hb) htext).mpr hlive)
    exact hne (Build.signature_of_token (hcodec b hb) (hcodec b' hb') htoken).symm
  · obtain ⟨s, hs, hv⟩ := AuthManager.verifies_of_accepts haccepts
    obtain ⟨b, hb, rfl⟩ := hgenuine.signedBy hcodec hs hv
    by_cases hown : s.signature = (b.segments A).signature
    · exact ⟨b, hb, by rw [hown, Build.token_eq_signedBy]⟩
    · have htext := Build.decode_of_accepts (hcodec b hb) haccepts
      have hlive := (Build.accepts_signedBy (hcodec b hb) htext).mp haccepts
      exact absurd ⟨b, hb, hlive, _, hown, (base64urlDecode_eq_iff hlib).mp htext, rfl⟩ h
  · have hpad := Build.decode_signature_append_pad hlib (hcodec b hb)
    have heq := h _ _
      ((Build.accepts_signedBy (hcodec b hb) (Build.decode_signature (hcodec b hb))).mpr hlive)
      ((Build.accepts_signedBy (hcodec b hb) hpad).mpr hlive)
    simpa using congrArg List.length heq
  · have htext := Build.decode_of_accepts (hcodec b hb) haccepts
    exact absurd ((Build.accepts_signedBy (hcodec b hb) htext).mp haccepts) h

/-- Of the token `buildToken` returns for the first account, while it lasts: it is not a
respelling, and there are some. -/
theorem unaltered_sample :
    (machine ℚ Sample.opensslAuth.lib).alone .done { Sample.world with now := Sample.build.now }
        (Sample.opensslAuth.buildToken Sample.build.userId Sample.build.sessionId) =
      some (.ret (Sample.build.token Sample.opensslAuth),
        { Sample.world with now := Sample.build.now }) ∧
    (Sample.opensslAuth.Accepts Sample.world (Sample.build.token Sample.opensslAuth) →
      ∃ b ∈ ({Sample.build} : Set (Build ℚ)), b.token Sample.opensslAuth =
        Sample.build.token Sample.opensslAuth) ∧
    ¬ Sample.opensslAuth.Respelt {Sample.build} Sample.world.now
      (Sample.build.token Sample.opensslAuth) ∧
    ¬ ∀ text text', Sample.opensslAuth.Accepts Sample.world
        (Sample.build.signedBy Sample.opensslAuth text) →
      Sample.opensslAuth.Accepts Sample.world (Sample.build.signedBy Sample.opensslAuth text') →
      text = text' := by
  have hissued : Sample.opensslAuth.Accepts Sample.world (Sample.build.token Sample.opensslAuth) →
      ∃ b ∈ ({Sample.build} : Set (Build ℚ)), b.token Sample.opensslAuth =
        Sample.build.token Sample.opensslAuth := fun _ => ⟨Sample.build, rfl, rfl⟩
  have hcodec : ∀ b ∈ ({Sample.build} : Set (Build ℚ)), b.Codec Sample.opensslAuth := by
    rintro b rfl
    exact Sample.build_codec
  have hgenuine : Sample.opensslAuth.Genuine {Sample.build}
      (Sample.build.token Sample.opensslAuth) := by
    rw [Build.token_eq_signedBy]
    exact Build.genuine_signedBy rfl Sample.build_codec
  obtain ⟨hspelt, hone⟩ := unaltered_iff Sample.opensslAuth_ok hcodec Sample.world
  exact ⟨Sample.build.alone_buildToken Sample.opensslAuth Sample.world, hissued,
    (hspelt _ hgenuine).mp hissued,
    fun h => (hone Sample.build rfl).mp h Sample.build_live⟩

/-- **The last character is altered and nobody notices.**  The token of the first account, and
the same token with the `g` at its end replaced by an `h`. -/
theorem altered_token :
    (Sample.build.segments Sample.opensslAuth).signature =
      ascii "EsblGhaxZ40xtTUTdp8cMDQ15z4c6BzoIo8z-13408g" ∧
    Sample.opensslAuth.Genuine {Sample.build}
      (Sample.build.signedBy Sample.opensslAuth
        (ascii "EsblGhaxZ40xtTUTdp8cMDQ15z4c6BzoIo8z-13408h")) ∧
    Sample.opensslAuth.Accepts Sample.world
      (Sample.build.signedBy Sample.opensslAuth
        (ascii "EsblGhaxZ40xtTUTdp8cMDQ15z4c6BzoIo8z-13408h")) ∧
    ∀ b ∈ ({Sample.build} : Set (Build ℚ)), b.token Sample.opensslAuth ≠
      Sample.build.signedBy Sample.opensslAuth
        (ascii "EsblGhaxZ40xtTUTdp8cMDQ15z4c6BzoIo8z-13408h") := by
  have hsignature : (Sample.build.segments Sample.opensslAuth).signature =
      ascii "EsblGhaxZ40xtTUTdp8cMDQ15z4c6BzoIo8z-13408g" := by
    rw [Sample.segments_build]
    decide +kernel
  have hread : base64urlDecode Sample.opensslAuth.lib
      (ascii "EsblGhaxZ40xtTUTdp8cMDQ15z4c6BzoIo8z-13408h") =
        base64urlDecode Sample.opensslAuth.lib
          (ascii "EsblGhaxZ40xtTUTdp8cMDQ15z4c6BzoIo8z-13408g") := by
    decide +kernel
  have htext := hread.trans (hsignature ▸ Build.decode_signature Sample.build_codec)
  refine ⟨hsignature, Build.genuine_signedBy rfl Sample.build_codec,
    (Build.accepts_signedBy Sample.build_codec htext).mpr Sample.build_live, ?_⟩
  rintro b rfl h
  have heq := Build.signature_of_token Sample.build_codec Sample.build_codec h
  rw [hsignature] at heq
  exact absurd heq (by decide)

end PqcApi
