/-
What the code takes from libraries outside the repository.

JSON values are modelled as far as the code builds and reads them.  The library
functions themselves are parameters, gathered in `Lib`: HMAC, the base64 BIO, the
JSON writer and reader, Argon2id, SHA-256 and the EVP operations.  What a result
needs to know of them is a hypothesis of that result.
-/
import Mathlib.Algebra.Order.Floor.Ring
import Mathlib.Data.Rat.Floor
import PqcApi.Bytes
import PqcApi.Codec.Base64

namespace PqcApi

/-- Conversion to an integer as C++ does it, towards zero. -/
def truncate {τ : Type} [Field τ] [LinearOrder τ] [FloorRing τ] (x : τ) : Int :=
  if 0 ≤ x then ⌊x⌋ else ⌈x⌉

theorem truncate_mono {τ : Type} [Field τ] [LinearOrder τ] [IsStrictOrderedRing τ] [FloorRing τ]
    {x y : τ} (h : x ≤ y) : truncate x ≤ truncate y := by
  unfold truncate
  by_cases hx : 0 ≤ x
  · rw [if_pos hx, if_pos (le_trans hx h)]
    exact Int.floor_le_floor h
  · rw [if_neg hx]
    by_cases hy : 0 ≤ y
    · rw [if_pos hy]
      have hceil : ⌈x⌉ ≤ 0 := Int.ceil_le.mpr (by simpa using le_of_lt (not_le.mp hx))
      exact le_trans hceil (Int.floor_nonneg.mpr hy)
    · rw [if_neg hy]
      exact Int.ceil_le_ceil h

/-! ### JSON -/

/-- `nlohmann::json`.  The fields of an object stand in key order, as in the `std::map` it
is kept in. -/
inductive Json
  | null
  | bool (b : Bool)
  | int (n : Int)
  | real (q : ℚ)
  | str (s : Bytes)
  | arr (items : List Json)
  | obj (fields : List (Bytes × Json))

namespace Json

/-- Put a field into its place among fields in key order. -/
def insertField (k : Bytes) (v : Json) : List (Bytes × Json) → List (Bytes × Json)
  | [] => [(k, v)]
  | (k', v') :: rest => if k < k' then (k, v) :: (k', v') :: rest else
      (k', v') :: insertField k v rest

/-- An object from the fields as the code lists them. -/
def object (fields : List (String × Json)) : Json :=
  .obj (fields.foldr (fun f acc => insertField (ascii f.1) f.2 acc) [])

/-- A string constant of the source. -/
def text (s : String) : Json := .str (ascii s)

/-- `operator[]` on a non-constant value: a missing key reads as null, and so does any key
of null.  `none` where it throws. -/
def field (j : Json) (key : String) : Option Json :=
  match j with
  | .obj fields =>
      match fields.find? fun f => f.1 = ascii key with
      | some f => some f.2
      | none => some .null
  | .null => some .null
  | _ => none

/-- `get<long>()`. -/
def getLong : Json → Option Int
  | .int n => some n
  | .real q => some (truncate q)
  | _ => none

/-- `get<std::string>()`. -/
def getString : Json → Option Bytes
  | .str s => some s
  | _ => none

mutual

/-- Every string in the value is UTF-8; `dump` throws on any other. -/
def dumpable : Json → Bool
  | .str s => utf8 s
  | .arr items => dumpableItems items
  | .obj fields => dumpableFields fields
  | _ => true

def dumpableItems : List Json → Bool
  | [] => true
  | j :: rest => dumpable j && dumpableItems rest

def dumpableFields : List (Bytes × Json) → Bool
  | [] => true
  | (k, j) :: rest => utf8 k && dumpable j && dumpableFields rest

end

theorem dumpableFields_insertField (k : Bytes) (v : Json) (fields : List (Bytes × Json)) :
    dumpableFields (insertField k v fields) = (utf8 k && dumpable v && dumpableFields fields) := by
  induction fields with
  | nil => rfl
  | cons f rest ih =>
      unfold insertField
      split
      · rfl
      · simp only [dumpableFields, ih]
        cases utf8 k <;> cases v.dumpable <;> cases utf8 f.1 <;> cases f.2.dumpable <;> rfl

/-- An object is UTF-8 when the values of its fields are; the keys are ASCII constants. -/
theorem dumpable_object (fields : List (String × Json)) :
    (object fields).dumpable = fields.all fun f => utf8 (ascii f.1) && f.2.dumpable := by
  show dumpableFields _ = _
  induction fields with
  | nil => rfl
  | cons f rest ih => rw [List.foldr_cons, dumpableFields_insertField, ih, List.all_cons]

theorem dumpableItems_eq_all (items : List Json) : dumpableItems items = items.all dumpable := by
  induction items with
  | nil => rfl
  | cons j rest ih => rw [dumpableItems, ih, List.all_cons]

end Json

/-! ### Keys -/

/-- A public key: the name its key type is registered under, and its encoded value. -/
structure PubKey where
  algorithm : String
  value : Bytes
  deriving DecidableEq

/-- An `EVP_PKEY`: a public key, and the private part when it has one. -/
structure PKey where
  pub : PubKey
  priv : Option Bytes
  deriving DecidableEq

/-! ### The library functions -/

/-- The library functions the code calls. -/
structure Lib where
  /-- `HMAC(EVP_sha256(), key, message)`. -/
  hmac : Bytes → Bytes → Bytes
  /-- What `BIO_write` through `BIO_f_base64` without newlines leaves in the memory BIO. -/
  b64Write : Bytes → Bytes
  /-- The bytes `BIO_read` through it delivers; none of them when it fails. -/
  b64Read : Bytes → Bytes
  /-- `json::dump` of a value whose strings are UTF-8. -/
  jsonDump : Json → Bytes
  /-- `json::parse`; `none` where it throws. -/
  jsonParse : Bytes → Option Json
  /-- `crypto_pwhash_str` with the salt it draws. -/
  pwhashStr : Bytes → Bytes → Bytes
  /-- `crypto_pwhash_str_verify(hash, password) == 0`. -/
  pwhashVerify : Bytes → Bytes → Bool
  /-- `EVP_Digest` with `EVP_sha256()`. -/
  sha256 : Bytes → Bytes
  /-- How PostgreSQL prints a timestamp. -/
  timestampText : Int → Bytes
  /-- `EVP_PKEY_is_a`. -/
  isA : PubKey → String → Bool
  /-- `PEM_read_bio_PUBKEY`, and `PEM_read_PUBKEY`. -/
  pemReadPubkey : Bytes → Option PubKey
  /-- `PEM_write_bio_PUBKEY`. -/
  pemWritePubkey : PubKey → Bytes
  /-- `EVP_DigestSign` with the randomness it draws; `none` where a step of it fails. -/
  digestSign : PKey → Bytes → Bytes → Option Bytes
  /-- `EVP_DigestVerifyInit_ex` succeeds. -/
  verifyInit : PubKey → Bool
  /-- `EVP_DigestVerify(key, signature, data) == 1`. -/
  digestVerify : PubKey → Bytes → Bytes → Bool

namespace Lib

/-- `json::dump`; `none` where it throws. -/
def dump (L : Lib) (j : Json) : Option Bytes := if j.dumpable then some (L.jsonDump j) else none

/-- The base64 routines write RFC 4648 text for this string and read it back. -/
structure Base64Ok (L : Lib) (s : Bytes) : Prop where
  write : L.b64Write s = Base64.encode s
  read : L.b64Read (Base64.encode s) = s

/-- What Argon2id hashes look like, and that a hash accepts the password it is of. -/
structure Pwhash (L : Lib) : Prop where
  text : ∀ salt pw, ∀ b ∈ L.pwhashStr salt pw, b ≠ 0 ∧ b < 128
  length : ∀ salt pw, (L.pwhashStr salt pw).length ≤ 128
  accepts : ∀ salt pw, L.pwhashVerify (L.pwhashStr salt pw) pw = true

namespace Pwhash

variable {L : Lib}

theorem cstr_eq (h : L.Pwhash) (salt pw : Bytes) :
    cstr (L.pwhashStr salt pw) = L.pwhashStr salt pw :=
  cstr_eq_self fun hz => (h.text salt pw 0 hz).1 rfl

/-- The column `password_hash` takes a hash as it is. -/
theorem stored (h : L.Pwhash) (salt pw : Bytes) :
    (pgText (cstr (L.pwhashStr salt pw))).bind (varchar 256) = some (L.pwhashStr salt pw) := by
  have hlen := h.length salt pw
  rw [h.cstr_eq, pgText_of_ascii (h.text salt pw), Option.bind_some,
    varchar_of_length (by omega)]

end Pwhash

end Lib

end PqcApi
