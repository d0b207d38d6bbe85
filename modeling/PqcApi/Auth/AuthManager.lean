/-
`AuthManager`: registering, logging in, checking and revoking tokens.

The functions are written as the source has them, exceptions and ignored results
included: `login` drops what `storeKey` returns, and `logout` what `invalidate`
returns.  After them each is unfolded once into the commands it issues, which is the
form its paths are read off from.
-/
import PqcApi.Auth.Token
import PqcApi.Persistence.Repositories

namespace PqcApi

open Concurrent

/-- `AuthResult`. -/
structure AuthResult where
  success : Bool
  userId : Bytes
  token : Bytes
  error : String
  deriving DecidableEq

/-- `{ false, {}, {}, error }`. -/
def AuthResult.failed (error : String) : AuthResult := ⟨false, [], [], error⟩

/-- The key of a session as Redis receives it. -/
def sessionKey (sessionId : Bytes) : Bytes := cstr (SessionRepository.makeKey sessionId)

theorem sessionKey_hex (b : Bytes) : sessionKey (hex b) = ascii "session:" ++ hex b := by
  refine cstr_eq_self fun h => ?_
  rcases List.mem_append.mp h with h | h
  · revert h
    decide
  · exact (hex_ascii h).1 rfl

/-- Different draws have different keys. -/
theorem sessionKey_hex_inj {a b : Bytes} (h : sessionKey (hex a) = sessionKey (hex b)) :
    a = b := by
  rw [sessionKey_hex, sessionKey_hex] at h
  exact hex_injective (List.append_cancel_left h)

namespace AuthManager

variable {τ : Type} [Field τ] [LinearOrder τ] [FloorRing τ]

/-- `generate_session_id`: 32 random bytes in hexadecimal. -/
def generateSessionId : Action τ Bytes := do
  let buf : Bytes ← ask .randombytes
  return hex buf

def hashPassword (password : Bytes) : Action τ Bytes := do
  let hash : Option Bytes ← ask (.pwhash password)
  match hash with
  | some hash => return cstr hash
  | none => .throw (.runtime "[AuthManager] Argon2id hashing failed (OOM?)")

def verifyPassword (A : AuthManager) (password hash : Bytes) : Bool :=
  A.lib.pwhashVerify (cstr hash) password

def registerUser (username password : Bytes) : Action τ AuthResult := do
  if username = [] ∨ password.length < 8 then
    return .failed "Username empty or password too short"
  else
    let existing ← UserRepository.findByUsername username
    if existing.isSome then
      return .failed "Username already exists"
    else
      let hash ← hashPassword password
      let saved ← UserRepository.save username hash
      if saved then
        return ⟨true, username, [], ""⟩
      else
        return .failed "Failed to save user"

def login (A : AuthManager) (username password : Bytes) : Action τ AuthResult := do
  let user ← UserRepository.findByUsername username
  match user with
  | none => return .failed "Invalid credentials"
  | some user =>
      if A.verifyPassword password user.passwordHash then
        let sessionId ← generateSessionId
        let token ← A.buildToken (toDecimal user.id) sessionId
        -- the result of storing the session is not looked at
        let _ ← SessionRepository.storeKey sessionId (toDecimal user.id)
        return ⟨true, toDecimal user.id, token, ""⟩
      else
        return .failed "Invalid credentials"

/-- The user id of a token whose session exists and belongs to it. -/
def verifyToken (A : AuthManager) (token : Bytes) : Action τ (Option Bytes) := do
  let parsed ← A.parseToken token
  match parsed with
  | none => return none
  | some (userId, sessionId) =>
      let owner ← SessionRepository.getKey sessionId
      return if owner = some userId then some userId else none

def logout (A : AuthManager) (token : Bytes) : Action τ Bool := do
  let parsed ← A.parseToken token
  match parsed with
  | none => return false
  | some (_, sessionId) =>
      -- best effort: whether the key was deleted is not looked at
      let _ ← SessionRepository.invalidate sessionId
      return true

/-! ### The functions, one command after another -/

/-- The payload of a token whose signature verifies. -/
def payload (A : AuthManager) (token : Bytes) : Option Json :=
  match segments token with
  | none => none
  | some s =>
      if A.Verifies s then A.lib.jsonParse (base64urlDecode A.lib s.payload) else none

theorem parseToken_eq (A : AuthManager) (token : Bytes) :
    A.parseToken token =
      match A.payload token with
      | none => .ret none
      | some p => .call (S := services τ) .now fun now : τ =>
          .ret (readPayload p (truncate now)) := by
  unfold parseToken payload
  cases segments token with
  | none => rfl
  | some s =>
      by_cases hv : A.Verifies s
      · simp only [hv, if_true]
        cases A.lib.jsonParse (base64urlDecode A.lib s.payload) <;> rfl
      · simp only [hv, if_false]

theorem verifyToken_eq (A : AuthManager) (token : Bytes) :
    A.verifyToken token =
      match A.payload token with
      | none => .ret none
      | some p => .call (S := services τ) .now fun now : τ =>
          match readPayload p (truncate now) with
          | none => .ret none
          | some (userId, sessionId) =>
              .call (S := services τ) (.get (sessionKey sessionId))
                fun reply : Option RedisReply =>
                  .ret (if reply = some (.string userId) then some userId else none) := by
  unfold verifyToken
  rw [parseToken_eq]
  cases A.payload token with
  | none => rfl
  | some p =>
      refine congrArg (Program.call (S := services τ) .now) (funext fun now : τ => ?_)
      simp only [Program.ret_bind, Program.bind_eq]
      cases readPayload p (truncate now) with
      | none => rfl
      | some ids =>
          refine congrArg (Program.call (S := services τ) _) (funext fun reply => ?_)
          show Program.ret (if RedisClient.stringReply reply = some ids.1 then _ else _) = _
          simp only [RedisClient.stringReply_eq_some]

theorem logout_eq (A : AuthManager) (token : Bytes) :
    A.logout token =
      match A.payload token with
      | none => .ret false
      | some p => .call (S := services τ) .now fun now : τ =>
          match readPayload p (truncate now) with
          | none => .ret false
          | some (_, sessionId) =>
              .call (S := services τ) (.del (sessionKey sessionId)) fun _ => .ret true := by
  unfold logout
  rw [parseToken_eq]
  cases A.payload token with
  | none => rfl
  | some p =>
      refine congrArg (Program.call (S := services τ) .now) (funext fun now : τ => ?_)
      simp only [Program.ret_bind]
      cases readPayload p (truncate now) <;> rfl

/-- The session id a token carries, if its signature verifies. -/
def sessionOf (A : AuthManager) (token : Bytes) : Option Bytes :=
  (A.payload token).bind fun p => (p.field "sid").bind Json.getString

theorem sessionOf_read {A : AuthManager} {token userId sessionId : Bytes} {p : Json}
    {now : Int} (hp : A.payload token = some p)
    (hread : readPayload p now = some (userId, sessionId)) :
    A.sessionOf token = some sessionId := by
  simp only [readPayload, Option.bind_eq_bind, Option.bind_eq_some_iff] at hread
  obtain ⟨j, -, exp, -, hrest⟩ := hread
  split at hrest
  · cases hrest
  · simp only [Option.bind_eq_some_iff, Option.pure_def, Option.some.injEq, Prod.mk.injEq] at hrest
    obtain ⟨sub, -, _, -, sid, hsid, v, hv, -, rfl⟩ := hrest
    simp only [sessionOf, hp, Option.bind_some, hsid, hv]

/-- The payload of a built token is the one that was signed, whatever text reads as its MAC. -/
theorem CodecAt.payload_respelt {A : AuthManager} {userId sessionId text : Bytes} {now : τ}
    (hc : A.CodecAt userId sessionId now)
    (htext : base64urlDecode A.lib text = A.mac (A.segmentsAt userId sessionId now).signingInput) :
    AuthManager.payload A { A.segmentsAt userId sessionId now with signature := text }.token =
      some (payloadAt userId sessionId now) := by
  have hverifies : A.Verifies { A.segmentsAt userId sessionId now with signature := text } := htext
  simp only [AuthManager.payload, segments_token (s := { A.segmentsAt userId sessionId now with
    signature := text }) hc.dot_notMem.1 hc.dot_notMem.2.1, hverifies, if_true]
  exact hc.jsonParse_eq

/-- The payload of a token that was built. -/
theorem CodecAt.payload_eq {A : AuthManager} {userId sessionId : Bytes} {now : τ}
    (hc : A.CodecAt userId sessionId now) :
    AuthManager.payload A (A.segmentsAt userId sessionId now).token =
      some (payloadAt userId sessionId now) :=
  hc.payload_respelt hc.verifies

/-- Its session. -/
theorem CodecAt.sessionOf_eq {A : AuthManager} {userId sessionId : Bytes} {now : τ}
    (hc : A.CodecAt userId sessionId now) :
    AuthManager.sessionOf A (A.segmentsAt userId sessionId now).token = some sessionId := by
  have hread : readPayload (payloadAt userId sessionId now)
      (truncate (now + (tokenTtlSeconds : τ))) = some (userId, sessionId) := by
    rw [payloadAt, readPayload_tokenPayload, if_neg (lt_irrefl _)]
  exact sessionOf_read hc.payload_eq hread

/-- The token a login issues that drew `b` and read the time `now`. -/
def issuedToken (A : AuthManager) (user : User) (b : Bytes) (now : τ) : Bytes :=
  (A.segmentsAt (toDecimal user.id) (hex b) now).token

theorem login_eq (A : AuthManager) (username password : Bytes) :
    A.login username password =
      .call (S := services τ) (.userByName username) fun reply : Option (Option User) =>
        match reply with
        | none => .throw .query
        | some none => .ret (.failed "Invalid credentials")
        | some (some user) =>
            if A.verifyPassword password user.passwordHash then
              .call (S := services τ) .randombytes fun b : Bytes =>
              .call (S := services τ) .now fun now : τ =>
              .call (S := services τ) (.setex (sessionKey (hex b)) SessionRepository.ttlSeconds
                (toDecimal user.id)) fun _ =>
              .ret ⟨true, toDecimal user.id, A.issuedToken user b now, ""⟩
            else .ret (.failed "Invalid credentials") := by
  refine congrArg (Program.call (S := services τ) _) (funext fun reply => ?_)
  rcases reply with _ | (_ | user)
  · rfl
  · rfl
  · show (if _ then _ else _) = _
    by_cases hpw : A.verifyPassword password user.passwordHash = true
    · simp only [hpw, if_true]
      refine congrArg (Program.call (S := services τ) _) (funext fun b => ?_)
      show (A.buildToken _ _).bind _ = _
      rw [buildToken_eq A (utf8_toDecimal user.id) (utf8_hex b)]
      refine congrArg (Program.call (S := services τ) _) (funext fun now => ?_)
      show Program.call (S := services τ) (.setex _ _ (cstr (toDecimal user.id))) _ = _
      rw [cstr_toDecimal]
      rfl
    · simp only [hpw]
      rfl

omit [Field τ] [LinearOrder τ] [FloorRing τ] in
theorem registerUser_eq (username password : Bytes) :
    registerUser username password =
      if username = [] ∨ password.length < 8 then
        .ret (.failed "Username empty or password too short")
      else
        .call (S := services τ) (.userByName username) fun reply : Option (Option User) =>
          match reply with
          | none => .throw .query
          | some (some _) => .ret (.failed "Username already exists")
          | some none =>
              .call (S := services τ) (.pwhash password) fun hash : Option Bytes =>
                match hash with
                | none => .throw (.runtime "[AuthManager] Argon2id hashing failed (OOM?)")
                | some hash =>
                    .call (S := services τ) (.insertUser username (cstr hash))
                      fun saved : Option Unit =>
                        .ret (if saved.isSome then ⟨true, username, [], ""⟩
                          else .failed "Failed to save user") := by
  unfold registerUser
  split
  · rfl
  · refine congrArg (Program.call (S := services τ) _) (funext fun reply => ?_)
    rcases reply with _ | (_ | user)
    · rfl
    · refine congrArg (Program.call (S := services τ) _) (funext fun hash => ?_)
      rcases hash with _ | hash
      · rfl
      · refine congrArg (Program.call (S := services τ) _) (funext fun saved => ?_)
        rcases saved with _ | _ <;> rfl
    · rfl

end AuthManager

end PqcApi
