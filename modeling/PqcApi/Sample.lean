/-
A library to run the server with.

The functions the model takes as parameters, given bodies that compute: base64 as in
RFC 4648, a JSON writer and reader for the flat objects the server dumps, and tables
or stand-ins for the cryptography.  It meets what the results assume of the libraries,
so their hypotheses can be met together.
-/
import Mathlib.Tactic.NormNum
import PqcApi.Api.Server

namespace PqcApi.Sample

/-! ### JSON -/

/-- A number or a string; the strings need no escapes. -/
def renderValue : Json → Bytes
  | .int n => toDecimal n
  | .str s => 34 :: s ++ [34]
  | _ => ascii "null"

def renderField (f : Bytes × Json) : Bytes := 34 :: f.1 ++ 34 :: 58 :: renderValue f.2

def renderFields : List (Bytes × Json) → Bytes
  | [] => []
  | [f] => renderField f
  | f :: rest => renderField f ++ 44 :: renderFields rest

/-- The compact text of a flat object. -/
def render : Json → Bytes
  | .obj fields => 123 :: renderFields fields ++ [125]
  | j => renderValue j

/-- A character of a number. -/
def isNumeric (c : UInt8) : Bool := isDigit c || c == 45

def intValue : Bytes → Int
  | [] => 0
  | c :: ds => if c = 45 then -(digitsValue ds : Int) else digitsValue (c :: ds)

/-- A string or a number, and what follows it. -/
def parseValue : Bytes → Option (Json × Bytes)
  | [] => none
  | c :: rest =>
      if c = 34 then (splitOnce 34 rest).map fun p => (.str p.1, p.2)
      else if isNumeric c then
        some (.int (intValue ((c :: rest).takeWhile isNumeric)), (c :: rest).dropWhile isNumeric)
      else none

/-- `"key":value`, and what follows it. -/
def parseField : Bytes → Option ((Bytes × Json) × Bytes)
  | 34 :: s => do
      let (key, rest) ← splitOnce 34 s
      match rest with
      | 58 :: rest => do
          let (v, rest) ← parseValue rest
          return ((key, v), rest)
      | _ => none
  | _ => none

def parseFields : Nat → Bytes → Option (List (Bytes × Json))
  | 0, _ => none
  | n + 1, s => do
      let (f, rest) ← parseField s
      match rest with
      | [125] => return [f]
      | 44 :: rest => do
          let fs ← parseFields n rest
          return f :: fs
      | _ => none

def parse : Bytes → Option Json
  | 123 :: s => (parseFields s.length s).map .obj
  | _ => none

/-- A value that the text above stands for. -/
def Plain : Json → Prop
  | .int _ => True
  | .str s => 34 ∉ s
  | _ => False

theorem isNumeric_toDecimal {n : Int} {c : UInt8} (h : c ∈ toDecimal n) : isNumeric c = true := by
  cases n with
  | ofNat n => simp [isNumeric, isDigit_of_mem_natDecimal h]
  | negSucc n =>
      rcases List.mem_cons.mp h with rfl | h
      · decide
      · simp [isNumeric, isDigit_of_mem_natDecimal h]

theorem intValue_toDecimal (n : Int) : intValue (toDecimal n) = n := by
  cases n with
  | ofNat n =>
      obtain ⟨c, rest, hcons⟩ := List.exists_cons_of_ne_nil (natDecimal_ne_nil n)
      have hc : c ≠ 45 := by
        rintro rfl
        have := isDigit_of_mem_natDecimal (n := n) (b := 45) (by rw [hcons]; simp)
        exact absurd this (by decide)
      show intValue (natDecimal n) = _
      rw [hcons, intValue, if_neg hc, ← hcons, digitsValue_natDecimal]
      rfl
  | negSucc n =>
      show intValue (45 :: natDecimal (n + 1)) = _
      rw [intValue, if_pos rfl, digitsValue_natDecimal]
      rfl

theorem parseValue_render {v : Json} (hv : Plain v) {c : UInt8} (hc : isNumeric c = false)
    (rest : Bytes) : parseValue (renderValue v ++ c :: rest) = some (v, c :: rest) := by
  cases v with
  | int n =>
      have hall : ∀ d ∈ toDecimal n, isNumeric d = true := fun d => isNumeric_toDecimal
      obtain ⟨d, ds, hcons⟩ : ∃ d ds, toDecimal n = d :: ds := by
        cases n with
        | ofNat n => exact List.exists_cons_of_ne_nil (natDecimal_ne_nil n)
        | negSucc n => exact ⟨_, _, rfl⟩
      have hd : isNumeric d = true := hall d (by rw [hcons]; simp)
      have hquote : d ≠ 34 := by
        rintro rfl
        exact absurd hd (by decide)
      have htake : (toDecimal n ++ c :: rest).takeWhile isNumeric = toDecimal n := by
        rw [List.takeWhile_append_of_pos hall]
        simp [hc]
      have hdrop : (toDecimal n ++ c :: rest).dropWhile isNumeric = c :: rest := by
        rw [List.dropWhile_append_of_pos hall]
        simp [hc]
      show parseValue (toDecimal n ++ c :: rest) = _
      have hsplit : toDecimal n ++ c :: rest = d :: (ds ++ c :: rest) := by rw [hcons]; rfl
      rw [hsplit, parseValue, if_neg hquote, if_pos hd, ← hsplit, htake, hdrop,
        intValue_toDecimal]
  | str s =>
      have hshape : renderValue (.str s) ++ c :: rest = 34 :: (s ++ 34 :: c :: rest) := by
        simp [renderValue]
      rw [hshape, parseValue, if_pos rfl, splitOnce_append hv]
      rfl
  | _ => exact hv.elim

theorem parseField_render {f : Bytes × Json} (hk : 34 ∉ f.1) (hv : Plain f.2) {c : UInt8}
    (hc : isNumeric c = false) (rest : Bytes) :
    parseField (renderField f ++ c :: rest) = some (f, c :: rest) := by
  have hshape : renderField f ++ c :: rest =
      34 :: (f.1 ++ 34 :: 58 :: (renderValue f.2 ++ c :: rest)) := by
    simp [renderField]
  rw [hshape]
  simp only [parseField, splitOnce_append hk, Option.bind_eq_bind, Option.bind_some,
    parseValue_render hv hc]
  rfl

/-- **Reading a flat object's text gives it back.** -/
theorem parseFields_render : ∀ {fields : List (Bytes × Json)} {n : Nat}, fields ≠ [] →
    (∀ f ∈ fields, 34 ∉ f.1 ∧ Plain f.2) → fields.length ≤ n →
    parseFields n (renderFields fields ++ [125]) = some fields := by
  intro fields
  induction fields with
  | nil => intro n hne; exact absurd rfl hne
  | cons f rest ih =>
      intro n _ hall hlen
      obtain ⟨hk, hv⟩ := hall f (by simp)
      cases n with
      | zero => simp at hlen
      | succ n =>
          cases rest with
          | nil =>
              simp only [renderFields, parseFields, parseField_render hk hv
                (by decide : isNumeric 125 = false), Option.bind_eq_bind, Option.bind_some]
              rfl
          | cons g rest =>
              have hshape : renderFields (f :: g :: rest) ++ [125] =
                  renderField f ++ 44 :: (renderFields (g :: rest) ++ [125]) := by
                simp [renderFields]
              have hrest := ih (n := n) (by simp) (fun h hh => hall h (by simp [hh]))
                (by simpa using hlen)
              rw [hshape]
              simp only [parseFields, parseField_render hk hv (by decide : isNumeric 44 = false),
                Option.bind_eq_bind, Option.bind_some, hrest]
              rfl

theorem length_le_renderFields (fields : List (Bytes × Json)) :
    fields.length ≤ (renderFields fields).length := by
  induction fields with
  | nil => simp
  | cons f rest ih =>
      cases rest with
      | nil => simp [renderFields, renderField]
      | cons g rest =>
          simp only [renderFields, List.length_append, List.length_cons] at ih ⊢
          omega

theorem parse_render {fields : List (Bytes × Json)} (hne : fields ≠ [])
    (hall : ∀ f ∈ fields, 34 ∉ f.1 ∧ Plain f.2) :
    parse (render (.obj fields)) = some (.obj fields) := by
  have hlen := length_le_renderFields fields
  show (parseFields (renderFields fields ++ [125]).length (renderFields fields ++ [125])).map
    Json.obj = _
  rw [parseFields_render hne hall (by rw [List.length_append]; omega)]
  rfl

/-! ### The library -/

/-- HMAC-SHA256 under the key below, of the texts the runs sign. -/
def macs : List (String × Bytes) :=
  [("eyJhbGciOiJIUzI1NiIsInR5cCI6IkpXVCJ9.eyJleHAiOjM2MDAsImlhdCI6MCwic2lkIjoiMDEwMTAxMDEwMTAxMDEwMTAxMDEwMTAxMDEwMTAxMDEwMTAxMDEwMTAxMDEwMTAxMDEwMTAxMDEwMTAxMDEwMSIsInN1YiI6IjEifQ",
    [18, 198, 229, 26, 22, 177, 103, 141, 49, 181, 53, 19, 118, 159, 28, 48, 52, 53, 231, 62,
      28, 232, 28, 232, 34, 143, 51, 251, 93, 248, 211, 200])]

/-- The document the runs sign. -/
def pdf : Bytes := ascii "%PDF-1.4\n%%EOF\n"

/-- SHA-256 of that document, and 32 bytes for any other text. -/
def sha256 (m : Bytes) : Bytes :=
  if m = pdf then
    [20, 188, 208, 144, 186, 243, 30, 219, 166, 78, 156, 189, 140, 223, 193, 95, 148, 51, 68, 170,
      114, 203, 54, 117, 173, 142, 145, 191, 203, 206, 3, 173]
  else (m ++ List.replicate 32 0).take 32

theorem length_sha256 (m : Bytes) : (sha256 m).length = 32 := by
  unfold sha256
  split
  · rfl
  · simp

/-- A stand-in for the ML-DSA-65 signature of a text, of its length. -/
def signature (key : PubKey) (m : Bytes) : Bytes :=
  (List.replicate 104 (sha256 (key.value ++ sha256 m))).flatten.take 3309

def lib : Lib where
  hmac _ m := ((macs.find? fun e => ascii e.1 = m).map Prod.snd).getD (List.replicate 32 0)
  b64Write := Base64.encode
  b64Read s := (Base64.decode s).getD []
  jsonDump := render
  jsonParse := parse
  pwhashStr salt pw := ascii "$argon2id$v=19$m=65536,t=2,p=1$" ++ (hex salt).take 32 ++
    ascii "$" ++ (hex pw).take 43
  pwhashVerify h pw :=
    if h = UsersTable.seedHash then pw = ascii "paulsiv123"
    else (h.reverse.takeWhile (· ≠ 36)).reverse = (hex pw).take 43
  sha256 := sha256
  timestampText := toDecimal
  isA key name := key.algorithm = name
  pemReadPubkey s := (splitOnce 10 s).bind fun p =>
    (["ML-DSA-65", "mldsa65", "RSA"].find? fun name => ascii name = p.1).map fun name => ⟨name, p.2⟩
  pemWritePubkey key := ascii key.algorithm ++ 10 :: key.value
  digestSign key _ data := some (signature key.pub data)
  verifyInit _ := true
  digestVerify key sig data := sig = signature key data

theorem base64Ok (s : Bytes) : lib.Base64Ok s :=
  ⟨rfl, by show (Base64.decode (Base64.encode s)).getD [] = s; rw [Base64.decode_encode]; rfl⟩

/-! ### The stand-in hash -/

private theorem hexDigit_ne : ∀ n < 16, hexDigit n ≠ 36 ∧ hexDigit n ≠ 90 := by decide

private theorem hex_ne {bs : Bytes} {c : UInt8} (h : c ∈ hex bs) : c ≠ 36 ∧ c ≠ 90 := by
  obtain ⟨b, -, hc⟩ := List.mem_flatMap.mp h
  have hb := UInt8.toNat_lt b
  rcases List.mem_pair.mp hc with rfl | rfl
  · exact hexDigit_ne _ (by omega)
  · exact hexDigit_ne _ (by omega)

/-- What stands before the salt. -/
def parameters : Bytes := ascii "$argon2id$v=19$m=65536,t=2,p=1$"

theorem pwhashStr_eq (salt pw : Bytes) : lib.pwhashStr salt pw =
    parameters ++ ((hex salt).take 32 ++ 36 :: (hex pw).take 43) := by
  show parameters ++ (hex salt).take 32 ++ ascii "$" ++ (hex pw).take 43 = _
  rw [show ascii "$" = [36] from rfl]
  simp

/-- The salt of the first account is not one of these. -/
theorem pwhashStr_ne_seedHash (salt pw : Bytes) : lib.pwhashStr salt pw ≠ UsersTable.seedHash := by
  obtain ⟨rest, hrest⟩ : ∃ rest, UsersTable.seedHash = parameters ++ 90 :: rest := ⟨_, rfl⟩
  intro h
  rw [pwhashStr_eq, hrest] at h
  have htail := List.append_cancel_left h
  cases hsalt : (hex salt).take 32 with
  | nil =>
      rw [hsalt] at htail
      exact absurd (List.cons.inj htail).1 (by decide)
  | cons c cs =>
      rw [hsalt] at htail
      have hc : c ∈ hex salt := List.mem_of_mem_take (by rw [hsalt]; simp)
      exact (hex_ne hc).2 (List.cons.inj htail).1

theorem pwhashVerify_of_ne {h pw : Bytes} (hne : h ≠ UsersTable.seedHash) :
    lib.pwhashVerify h pw =
      decide ((h.reverse.takeWhile (· ≠ 36)).reverse = (hex pw).take 43) := by
  simp only [lib, hne, if_false]

/-- A hash accepts the passwords that agree with its own as far as it reaches. -/
theorem pwhashVerify_pwhashStr (salt pw pw' : Bytes) :
    lib.pwhashVerify (lib.pwhashStr salt pw) pw' = true ↔
      (hex pw).take 43 = (hex pw').take 43 := by
  have hpos : ∀ c ∈ ((hex pw).take 43).reverse, (decide (c ≠ 36)) = true := by
    intro c hc
    simpa using (hex_ne (List.mem_of_mem_take (List.mem_reverse.mp hc))).1
  have htail : ((lib.pwhashStr salt pw).reverse.takeWhile (· ≠ 36)).reverse = (hex pw).take 43 := by
    rw [pwhashStr_eq, List.reverse_append, List.reverse_append, List.reverse_cons,
      List.append_assoc, List.append_assoc, List.takeWhile_append_of_pos hpos]
    simp
  rw [pwhashVerify_of_ne (pwhashStr_ne_seedHash salt pw), htail, decide_eq_true_iff]

/-- The first account's hash accepts one password. -/
theorem pwhashVerify_seedHash (pw : Bytes) :
    lib.pwhashVerify UsersTable.seedHash pw = decide (pw = ascii "paulsiv123") := by
  simp only [lib, if_true]

theorem pwhash : lib.Pwhash where
  text salt pw b hb := by
    rw [pwhashStr_eq] at hb
    have hparameters : ∀ b ∈ parameters, b ≠ 0 ∧ b < 128 := by simp [parameters, ascii]
    rcases List.mem_append.mp hb with h | h
    · exact hparameters b h
    · rcases List.mem_append.mp h with h | h
      · exact hex_ascii (List.mem_of_mem_take h)
      · rcases List.mem_cons.mp h with rfl | h
        · decide
        · exact hex_ascii (List.mem_of_mem_take h)
  length salt pw := by
    have hparameters : parameters.length = 31 := by decide
    have hsalt := List.length_take_le 32 (hex salt)
    have hpw := List.length_take_le 43 (hex pw)
    rw [pwhashStr_eq, List.length_append, List.length_append, List.length_cons]
    omega
  accepts salt pw := (pwhashVerify_pwhashStr salt pw pw).mpr rfl

/-! ### The server -/

/-- The authentication manager over the library. -/
def auth : AuthManager := ⟨lib, List.replicate 32 107⟩

private theorem hexDigit_ne_quote : ∀ n < 16, hexDigit n ≠ 34 := by decide

private theorem quote_notMem_hex (b : Bytes) : (34 : UInt8) ∉ hex b := by
  intro h
  obtain ⟨x, -, hx⟩ := List.mem_flatMap.mp h
  have := UInt8.toNat_lt x
  rcases List.mem_pair.mp hx with hq | hq
  · exact hexDigit_ne_quote _ (by omega) hq.symm
  · exact hexDigit_ne_quote _ (by omega) hq.symm

theorem parse_tokenPayload (id : Int) (b : Bytes) (iat exp : Int) :
    lib.jsonParse (lib.jsonDump (tokenPayload (toDecimal id) (hex b) iat exp)) =
      some (tokenPayload (toDecimal id) (hex b) iat exp) := by
  have hid : (34 : UInt8) ∉ toDecimal id := fun h =>
    absurd (isNumeric_toDecimal h) (by decide)
  rw [AuthManager.tokenPayload_fields]
  refine parse_render (by simp) ?_
  intro f hf
  simp only [List.mem_cons, List.not_mem_nil, or_false] at hf
  rcases hf with rfl | rfl | rfl | rfl
  · exact ⟨(by decide : (34 : UInt8) ∉ ascii "exp"), trivial⟩
  · exact ⟨(by decide : (34 : UInt8) ∉ ascii "iat"), trivial⟩
  · exact ⟨(by decide : (34 : UInt8) ∉ ascii "sid"), quote_notMem_hex b⟩
  · exact ⟨(by decide : (34 : UInt8) ∉ ascii "sub"), hid⟩

/-- **The library round-trips what `buildToken` writes.** -/
theorem codec {τ : Type} [Field τ] [LinearOrder τ] [FloorRing τ] (id : Int) (b : Bytes)
    (now : τ) : auth.CodecAt (toDecimal id) (hex b) now :=
  ⟨base64Ok _, base64Ok _, base64Ok _, parse_tokenPayload _ _ _ _⟩

/-- A key accepts what it signs. -/
theorem accepts (k : PKey) (r data sig : Bytes) (h : lib.digestSign k r data = some sig) :
    lib.digestVerify k.pub sig data = true := by
  obtain rfl : signature k.pub data = sig := Option.some.inj h
  exact decide_eq_true rfl

/-- The server's signing key. -/
def key : PKey := ⟨⟨"ML-DSA-65", List.replicate 1952 7⟩, some (List.replicate 4032 9)⟩

/-- The signer that has generated it. -/
def signer : DilithiumSigner := (DilithiumSigner.fresh.generateKeyPair (.generated key true)).2

theorem keyPair : signer.KeyPair lib key where
  signing := (DilithiumSigner.members_of_alloc [] key).1
  verifying := (DilithiumSigner.members_of_alloc [] key).2
  init := rfl
  accepts := accepts key

/-- The server over the library and that key. -/
def app : App := ⟨auth, signer⟩

/-- The world as `init.sql` leaves it, at time 0. -/
def world : World ℚ := ⟨0, fun _ => none, UsersTable.seeded 0, DocsTable.empty⟩

/-- The first account. -/
def user : User := UsersTable.seedUser 0

def username : Bytes := ascii "paulsiv"

def password : Bytes := ascii "paulsiv123"

/-- A name nobody has. -/
def newcomer : Bytes := ascii "alice"

/-- The bytes the random source gives first. -/
def draw : Bytes := List.replicate 32 1

/-- The token of a login that draws them at time 0. -/
def token : Bytes := auth.issuedToken user draw (0 : ℚ)

theorem username_text : (pgText username).isSome := by decide

theorem byName_username : world.users.byName (cstr username) = some user := by decide +kernel

theorem password_ok : app.auth.verifyPassword password user.passwordHash = true := by
  decide +kernel

/-- The segments of that token. -/
def seg : AuthManager.Segments := auth.segmentsAt (toDecimal user.id) (hex draw) (0 : ℚ)

theorem segments_token : AuthManager.segments token = some seg :=
  (codec user.id draw 0).segments_eq

theorem payload_token : auth.payload token =
    some (AuthManager.payloadAt (toDecimal user.id) (hex draw) (0 : ℚ)) :=
  (codec user.id draw 0).payload_eq

theorem readPayload_token :
    AuthManager.readPayload (AuthManager.payloadAt (toDecimal user.id) (hex draw) (0 : ℚ))
      (truncate (0 : ℚ)) = some (toDecimal user.id, hex draw) := by
  rw [AuthManager.payloadAt, AuthManager.readPayload_tokenPayload, if_neg]
  exact not_lt.mpr (truncate_mono (by norm_num [tokenTtlSeconds]))

end PqcApi.Sample
