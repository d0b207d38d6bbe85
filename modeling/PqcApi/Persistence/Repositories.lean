/-
The persistence layer: `RedisClient`, `SessionRepository`, `UserRepository` and
`DocumentRepository`.

Each function is the one command it issues and the reading of its reply.  A null
or error reply from Redis, and an exception a repository catches, become `false`
or "not found" here, and what the callers make of that is theirs.
-/
import PqcApi.Backend

namespace PqcApi

variable {τ : Type}

/-! ### Redis -/

namespace RedisClient

def set (key value : Bytes) (ttlSeconds : Int) : Action τ Bool := do
  let reply : Option RedisReply ← ask (.setex (cstr key) ttlSeconds (cstr value))
  return reply = some .status

/-- The value of a string reply; any other reply, and none at all, is no value. -/
def stringReply : Option RedisReply → Option Bytes
  | some (.string s) => some s
  | _ => none

theorem stringReply_eq_some {reply : Option RedisReply} {s : Bytes} :
    stringReply reply = some s ↔ reply = some (.string s) := by
  rcases reply with _ | (_ | _ | v | n | _) <;> simp [stringReply]

def get (key : Bytes) : Action τ (Option Bytes) := do
  let reply : Option RedisReply ← ask (.get (cstr key))
  return stringReply reply

/-- `reply->integer > 0`; the integer of an error reply is 0. -/
def del (key : Bytes) : Action τ Bool := do
  let reply : Option RedisReply ← ask (.del (cstr key))
  return match reply with
    | some (.integer n) => n > 0
    | _ => false

end RedisClient

namespace SessionRepository

/-- The default of the constructor, which `main` uses. -/
def ttlSeconds : Int := 3600

def makeKey (sessionId : Bytes) : Bytes := ascii "session:" ++ sessionId

def storeKey (sessionId keyData : Bytes) : Action τ Bool :=
  RedisClient.set (makeKey sessionId) keyData ttlSeconds

def getKey (sessionId : Bytes) : Action τ (Option Bytes) := RedisClient.get (makeKey sessionId)

def invalidate (sessionId : Bytes) : Action τ Bool := RedisClient.del (makeKey sessionId)

end SessionRepository

/-! ### PostgreSQL -/

/-- `PostgreSQLClient::query`: an exception is the caller's. -/
def query {α : Type} (reply : Option α) : Action τ α :=
  match reply with
  | some a => .ret a
  | none => .throw .query

namespace UserRepository

/-- `PostgreSQLClient::execute` catches what the statement throws; that no row was
written because of a conflict is no error. -/
def save (username passwordHash : Bytes) : Action τ Bool := do
  let reply : Option Unit ← ask (.insertUser username passwordHash)
  return reply.isSome

def findByUsername (username : Bytes) : Action τ (Option User) := do
  let reply : Option (Option User) ← ask (.userByName username)
  query reply

end UserRepository

namespace DocumentRepository

/-- The new row's id, or -1 if the insert failed. -/
def save (userId : Int) (filename pdf sig sha : Bytes) : Action τ Int := do
  let reply : Option Int ← ask (.insertDocument userId filename pdf sig sha)
  return reply.getD (-1)

def findById (id : Int) : Action τ (Option Document) := do
  let reply : Option (Option Document) ← ask (.documentById id)
  query reply

def findByUserId (userId : Int) : Action τ (List Document) := do
  let reply : Option (List Document) ← ask (.documentsByUser userId)
  query reply

def getPdfData (id : Int) : Action τ (Option Bytes) := do
  let reply : Option (Option Bytes) ← ask (.pdfData id)
  query reply

def ownedBy (docId userId : Int) : Action τ Bool := do
  let reply : Option Bool ← ask (.ownedBy docId userId)
  query reply

/-- `false` both when no row had this id and when the statement threw. -/
def deleteById (id : Int) : Action τ Bool := do
  let reply : Option Bool ← ask (.deleteDocument id)
  return reply.getD false

end DocumentRepository

end PqcApi
