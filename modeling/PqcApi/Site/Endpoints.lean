/-
Every endpoint of `Controllers.h`, as one system in front of the server.

The controllers hand most of a visit to the managers and answer what these return.  What they
do besides is to read: a row of `users` by its id, the clock for the health report.  So the
site is a front of the server, and `endpoint` is written as the source has it and then shown
to be what a front runs.

Nothing in the program calls `setRole` or `remove` of `UserRepository`.  They are what an
operator does to the accounts while the server runs.
-/
import PqcApi.Api.Health
import PqcApi.Api.Server
import PqcApi.Api.Timestamp
import PqcApi.Concurrent.Front

namespace PqcApi

open Concurrent

/-! ### What the controllers read -/

/-- A call of a controller that is none of the managers'. -/
inductive Look
  /-- `SELECT ... FROM users WHERE id = $1` -/
  | userById (id : Int)
  /-- `std::time(nullptr)`, and the clock `X509_cmp_current_time` reads -/
  | time

/-- What it gives back; `none` stands for an exception. -/
abbrev looks : Reads where
  Cmd := Look
  Reply
    | .userById _ => Option (Option User)
    | .time => Int

/-- A function of the controllers. -/
abbrev Visiting (τ α : Type) := Program ((services τ).extend looks) α

/-- A function of the managers, as the controllers call it. -/
def managed {τ α : Type} (p : Action τ α) : Visiting τ α := p.lift

def look {τ : Type} (c : Look) : Visiting τ (looks.Reply c) :=
  Program.perform (S := (services τ).extend looks) (.inr c)

/-- `UserRepository::findById`. -/
def UserRepository.findById {τ : Type} (id : Int) : Visiting τ (Option User) := do
  let reply : Option (Option User) ← look (.userById id)
  managed (query reply)

section Reading

variable {τ : Type} [Field τ] [LinearOrder τ] [FloorRing τ]

/-- How it is answered. -/
def World.look (w : World τ) : (c : Look) → Choice → Option (looks.Reply c)
  | .userById id, ch => (statement w (some (w.users.byId id)) w ch).map Prod.fst
  | .time, ch => if ch = .done then some ⌊w.now⌋ else none

end Reading

/-! ### What operators do -/

/-- A statement of `UserRepository` that the program itself never issues. -/
inductive Operation
  | setRole (username : Bytes) (role : Int)
  | remove (id : Int)

/-- What it does, if PostgreSQL takes its text.  The documents of a removed account go with
it. -/
def World.operate {τ : Type} (w : World τ) : Operation → Option (World τ)
  | .setRole username role =>
      (pgText username).map fun name => { w with users := w.users.setRole name role }
  | .remove id => some
      { w with
        users := w.users.remove id
        docs := w.docs.keep fun d => d.userId ≠ id }

/-! ### Visits -/

/-- What the controllers hold, and the time zone of the process. -/
structure Site where
  app : App
  cert : Certificate
  zone : Zone

/-- A request to one of the endpoints.  How the OpenSSL calls behind `publicKey` and
`verifyExternal` end is part of it. -/
inductive Visit
  | registerUser (body : Bytes)
  | login (body : Bytes)
  | getProfile (req : HttpRequest)
  | logout (req : HttpRequest)
  | check
  | adminHealth (req : HttpRequest)
  | sign (req : HttpRequest)
  | list (req : HttpRequest)
  | download (req : HttpRequest) (id : Int)
  | verify (req : HttpRequest) (id : Int)
  | remove (req : HttpRequest) (id : Int)
  | publicKey (exported : Bool)
  | verifyExternal (allocs : DilithiumSigner.Allocs) (own : DilithiumSigner.OwnKeyOutcome)
      (req : HttpRequest)

/-- `value(key, "")`; `none` where it throws. -/
def Json.valueText (j : Json) (key : String) : Option Bytes :=
  match j with
  | .obj fields =>
      match fields.find? fun f => f.1 = ascii key with
      | some f => f.2.getString
      | none => some []
  | _ => none

/-- The user name and the password of a body; `none` where reading them throws. -/
def credentials (L : Lib) (body : Bytes) : Option (Bytes × Bytes) := do
  let j ← L.jsonParse body
  let username ← j.valueText "username"
  let password ← j.valueText "password"
  return (username, password)

/-- What `catch (const json::exception&)` makes of an exception. -/
def caught (e : Exn) : Except Exn HttpResponse :=
  if e = .json then .ok (errorResponse "Invalid JSON body" 400) else .error e

namespace Site

variable {τ : Type} [Field τ] [LinearOrder τ] [FloorRing τ]

/-- The libraries the controllers call. -/
abbrev lib (S : Site) : Lib := S.app.lib

/-- The handlers of `AuthController` catch what the JSON library throws, and nothing else. -/
def catchJson (p : Visiting τ HttpResponse) : Visiting τ HttpResponse :=
  p.handle fun e =>
    match caught e with
    | .ok response => .ret response
    | .error e => .throw e

/-! ### AuthController -/

/-- What `registerUser` answers to a new user. -/
def registeredResponse (username : Bytes) : Json :=
  .object [("message", .text "User registered"), ("username", .str username)]

/-- `registerUser` on what the manager returned. -/
def registered (username : Bytes) (result : AuthResult) : Action τ HttpResponse :=
  if result.success then jsonResponse (registeredResponse username) 201
  else return errorResponse result.error 400

/-- `AuthController::registerUser`. -/
def registerUser (S : Site) (body : Bytes) : Visiting τ HttpResponse :=
  catchJson <|
    match credentials S.lib body with
    | none => .throw .json
    | some (username, password) => do
        let result ← managed (AuthManager.registerUser username password)
        managed (registered username result)

/-- What `login` answers to a user it knows. -/
def loggedInResponse (token userId : Bytes) : Json :=
  .object [("token", .str token), ("user_id", .str userId), ("type", .text "Bearer")]

/-- `login` on what the manager returned. -/
def loggedIn (result : AuthResult) : Action τ HttpResponse :=
  if result.success then jsonResponse (loggedInResponse result.token result.userId) 200
  else return errorResponse result.error 401

/-- `AuthController::login`. -/
def login (S : Site) (body : Bytes) : Visiting τ HttpResponse :=
  catchJson <|
    match credentials S.lib body with
    | none => .throw .json
    | some (username, password) => do
        let result ← managed (S.app.auth.login username password)
        managed (loggedIn result)

/-! ### UserController -/

/-- `extractAndVerifyToken`. -/
def extractAndVerifyToken (S : Site) (req : HttpRequest) : Visiting τ (Option Bytes) :=
  match bearerToken req.authorization with
  | none => .ret none
  | some token => managed (S.app.auth.verifyToken token)

/-- What `getProfile` answers about a row. -/
def profileResponse (L : Lib) (user : User) : Json :=
  .object [("id", .int user.id), ("username", .str user.username),
    ("created_at", .str (L.timestampText user.createdAt)), ("role", .int user.role)]

/-- `getProfile` once the user id is known. -/
def profileOf (S : Site) (userId : Bytes) : Visiting τ HttpResponse := do
  let id ← managed (stoiOrThrow userId)
  let user ← UserRepository.findById id
  match user with
  | none => return errorResponse "User not found" 404
  | some user => managed (jsonResponse (profileResponse S.lib user) 200)

/-- `UserController::getProfile`. -/
def getProfile (S : Site) (req : HttpRequest) : Visiting τ HttpResponse := do
  let userId ← S.extractAndVerifyToken req
  match userId with
  | none => return errorResponse "Unauthorized" 401
  | some userId => S.profileOf userId

/-! ### HealthController -/

/-- `HealthController::check`. -/
def check : Visiting τ HttpResponse :=
  managed (jsonResponse (.object [("status", .text "ok"), ("tls", .text "1.3"),
    ("key_exchange", .text "X25519 + ML-KEM-768 (hybrid)"),
    ("tls_auth", .text "ECDSA P-256 (certificate)"), ("token_signing", .text "HS256"),
    ("doc_signing", .text "ML-DSA-65 (Dilithium3)"), ("encryption", .text "AES-256-GCM")]) 200)

/-! ### AdminController -/

/-- `requireAdmin` once the user id is known: the id, or the status to answer. -/
def adminOf (userId : Bytes) : Visiting τ (Except Nat Int) := do
  let id ← managed (stoiOrThrow userId)
  let user ← UserRepository.findById id
  match user with
  | none => return .error 403
  | some user => if user.role = 1 then return .ok user.id else return .error 403

/-- `AdminController::requireAdmin`. -/
def requireAdmin (S : Site) (req : HttpRequest) : Visiting τ (Except Nat Int) :=
  match bearerToken req.authorization with
  | none => return .error 401
  | some token => do
      let userId ← managed (S.app.auth.verifyToken token)
      match userId with
      | none => return .error 401
      | some userId => adminOf userId

/-- The state of the TLS layer; the clock is read again for a certificate that is good. -/
def tlsLayer (S : Site) : Visiting τ TlsComponent := do
  let now : Int ← look .time
  if S.cert.isValid now then do
    let later : Int ← look .time
    return tlsComponent S.zone S.cert now later
  else return tlsComponent S.zone S.cert now now

/-- The report itself. -/
def report (S : Site) : Visiting τ HttpResponse := do
  let tls ← S.tlsLayer
  let now : Int ← look .time
  return PqcApi.health (strftime (Tm.gmtime now)) tls

/-- `health` on what `requireAdmin` returned. -/
def healthFor (S : Site) (gate : Except Nat Int) : Visiting τ HttpResponse :=
  match gate with
  | .error status =>
      .ret (errorResponse (if status = 403 then "Admin privileges required" else "Unauthorized")
        status)
  | .ok _ => S.report

/-- `AdminController::health`. -/
def adminHealth (S : Site) (req : HttpRequest) : Visiting τ HttpResponse := do
  let gate ← S.requireAdmin req
  S.healthFor gate

/-! ### DocumentController -/

/-- `DocumentController::publicKey`. -/
def publicKey (S : Site) (exported : Bool) : Action τ HttpResponse :=
  let pem := S.app.signer.exportPublicKeyPEM S.lib exported
  if pem = [] then return errorResponse "Public key unavailable" 500
  else jsonResponse (.object [("algorithm", .text "ML-DSA-65"), ("public_key_pem", .str pem)]) 200

/-! ### The site -/

/-- The program of each visit. -/
def endpoint (S : Site) : Visit → Visiting τ HttpResponse
  | .registerUser body => S.registerUser body
  | .login body => S.login body
  | .getProfile req => S.getProfile req
  | .logout req => managed (S.app.usersLogout req)
  | .check => check
  | .adminHealth req => S.adminHealth req
  | .sign req => managed (S.app.sign req)
  | .list req => managed (S.app.list req)
  | .download req id => managed (S.app.download req id)
  | .verify req id => managed (S.app.verify req id)
  | .remove req id => managed (S.app.remove req id)
  | .publicKey exported => managed (S.publicKey exported)
  | .verifyExternal allocs own req => .ret (S.app.verifyExternalUnder allocs own req)

/-! ### The server behind it -/

/-- The request of the server a visit comes to.  One that comes to none asks about the empty
token, which no command is needed for. -/
def back (S : Site) : Visit → Request
  | .registerUser body =>
      match credentials S.lib body with
      | none => .verifyToken []
      | some (username, password) => .registerUser username password
  | .login body =>
      match credentials S.lib body with
      | none => .verifyToken []
      | some (username, password) => .login username password
  | .getProfile req => .verifyToken ((bearerToken req.authorization).getD [])
  | .adminHealth req => .verifyToken ((bearerToken req.authorization).getD [])
  | .logout req => .usersLogout req
  | .sign req => .sign req
  | .list req => .list req
  | .download req id => .download req id
  | .verify req id => .verify req id
  | .remove req id => .remove req id
  | .check => .verifyToken []
  | .publicKey _ => .verifyToken []
  | .verifyExternal .. => .verifyToken []

/-- Go on with the result of a call of the right kind; the server returns no other. -/
def onAuth (f : AuthResult → Visiting τ HttpResponse) : Result → Visiting τ HttpResponse
  | .auth r => f r
  | _ => .throw (.runtime "no result of this call")

def onUser (f : Option Bytes → Visiting τ HttpResponse) : Result → Visiting τ HttpResponse
  | .user u => f u
  | _ => .throw (.runtime "no result of this call")

def onResponse : Result → Visiting τ HttpResponse
  | .response r => .ret r
  | _ => .throw (.runtime "no result of this call")

/-- Go on with what is returned; what is thrown is Drogon's. -/
def onReturn (f : Result → Visiting τ HttpResponse) : Except Exn Result → Visiting τ HttpResponse
  | .ok r => f r
  | .error e => .throw e

/-- The rest of a handler of `AuthController`, whose body must first be read. -/
def onBody (S : Site) (body : Bytes) (f : Bytes → AuthResult → Action τ HttpResponse)
    (o : Except Exn Result) : Visiting τ HttpResponse :=
  catchJson <|
    match credentials S.lib body with
    | none => .throw .json
    | some (username, _) => onReturn (onAuth fun r => managed (f username r)) o

/-- The user a token is let in as, and what is done for them. -/
def onToken (f : Option Bytes → Visiting τ HttpResponse) : Except Exn Result →
    Visiting τ HttpResponse :=
  onReturn (onUser f)

/-- What a visit does once the server has answered. -/
def finish (S : Site) : Visit → Except Exn Result → Visiting τ HttpResponse
  | .registerUser body => S.onBody body registered
  | .login body => S.onBody body fun _ => loggedIn
  | .getProfile _ => onToken fun userId =>
      match userId with
      | none => .ret (errorResponse "Unauthorized" 401)
      | some userId => S.profileOf userId
  | .adminHealth _ => onToken fun userId =>
      match userId with
      | none => S.healthFor (.error 401)
      | some userId => (adminOf userId).bind S.healthFor
  | .check => fun _ => check
  | .publicKey exported => fun _ => managed (S.publicKey exported)
  | .verifyExternal allocs own req => fun _ => .ret (S.app.verifyExternalUnder allocs own req)
  | _ => onReturn onResponse

/-! ### It is a front -/

omit [Field τ] [LinearOrder τ] [FloorRing τ] in
/-- What is done after the server's result is done after what it is made of. -/
theorem attempt_bind_ret {α : Type} (p : Action τ α) (g : α → Result)
    (f : Except Exn Result → Visiting τ HttpResponse) :
    Program.attempt (managed (p.bind fun a => .ret (g a))) f =
      Program.attempt (managed p) fun o => f (o.map g) := by
  induction p with
  | ret a => rfl
  | throw e => rfl
  | call c k ih =>
      exact congrArg (Program.call (S := (services τ).extend looks) (.inl c))
        (funext fun r => ih r)

omit [Field τ] [LinearOrder τ] [FloorRing τ] in
/-- A request that fails at once is one that asks about the empty token. -/
theorem attempt_ret_bind {α : Type} (p : Action τ α) (g : α → Result) (a : α) (h : p = .ret a)
    (f : Except Exn Result → Visiting τ HttpResponse) :
    Program.attempt (managed (p.bind fun a => .ret (g a))) f = f (.ok (g a)) := by
  rw [h]
  rfl

/-- The empty token costs no command. -/
theorem verifyToken_nil (A : AuthManager) : (A.verifyToken [] : Action τ _) = .ret none := by
  rw [AuthManager.verifyToken_eq]
  rfl

theorem endpoint_idle (S : Site) (f : Except Exn Result → Visiting τ HttpResponse) :
    Program.attempt (managed (S.app.program (.verifyToken []))) f = f (.ok (.user none)) :=
  attempt_ret_bind (S.app.auth.verifyToken []) .user none (verifyToken_nil _) f

/-- A handler that starts with the token goes on with the user it is let in as. -/
theorem onToken_eq (S : Site) (authorization : Bytes) (f : Option Bytes → Visiting τ HttpResponse) :
    (match bearerToken authorization with
      | none => f none
      | some token => (managed (S.app.auth.verifyToken token)).bind f) =
      Program.attempt (managed (S.app.program (.verifyToken ((bearerToken authorization).getD []))))
        (onToken f) := by
  cases bearerToken authorization with
  | none => exact (endpoint_idle S (onToken f)).symm
  | some token =>
      refine Eq.trans ?_ (attempt_bind_ret (S.app.auth.verifyToken token) .user (onToken f)).symm
      dsimp only
      rw [Program.bind_eq_attempt]
      refine congrArg _ (funext fun o => ?_)
      cases o <;> rfl

/-- The handlers of `AuthController` have the manager's call between reading the body and
answering. -/
theorem onBody_eq (S : Site) (body : Bytes) (call : Bytes → Bytes → Action τ AuthResult)
    (f : Bytes → AuthResult → Action τ HttpResponse) {request : Request}
    (hrequest : credentials S.lib body = none → request = .verifyToken [])
    (hcall : ∀ username password, credentials S.lib body = some (username, password) →
      S.app.program request = (call username password).bind fun r => .ret (.auth r)) :
    (catchJson <|
      match credentials S.lib body with
      | none => .throw .json
      | some (username, password) => do
          let result ← managed (call username password)
          managed (f username result)) =
      Program.attempt (managed (S.app.program request)) (S.onBody body f) := by
  unfold onBody
  cases hbody : credentials S.lib body with
  | none =>
      rw [hrequest hbody, endpoint_idle]
  | some c =>
      rw [hcall c.1 c.2 hbody, attempt_bind_ret]
      dsimp only
      unfold catchJson
      rw [Program.bind_eq, Program.bind_handle]
      refine congrArg _ (funext fun o => ?_)
      cases o <;> rfl

/-- **An endpoint is what a front runs.** -/
theorem endpoint_eq (S : Site) (v : Visit) :
    (S.endpoint v : Visiting τ HttpResponse) =
      Program.attempt (managed (S.app.program (S.back v))) (S.finish v) := by
  have respond : ∀ p : Action τ HttpResponse, managed p =
      Program.attempt (managed (p.bind fun r => .ret (.response r))) (onReturn onResponse) := by
    intro p
    rw [attempt_bind_ret]
    induction p with
    | ret a => rfl
    | throw e => rfl
    | call c k ih =>
        exact congrArg (Program.call (S := (services τ).extend looks) (.inl c))
          (funext fun r => ih r)
  cases v with
  | registerUser body =>
      refine S.onBody_eq body AuthManager.registerUser registered ?_ ?_
      · intro h
        simp only [back, h]
      · intro username password h
        simp only [back, h, App.program]
  | login body =>
      refine S.onBody_eq body S.app.auth.login (fun _ => loggedIn) ?_ ?_
      · intro h
        simp only [back, h]
      · intro username password h
        simp only [back, h, App.program]
  | getProfile req =>
      refine Eq.trans ?_ (S.onToken_eq req.authorization _)
      show S.getProfile req = _
      unfold getProfile extractAndVerifyToken
      cases bearerToken req.authorization <;> rfl
  | adminHealth req =>
      refine Eq.trans ?_ (S.onToken_eq req.authorization _)
      show S.adminHealth req = _
      unfold adminHealth requireAdmin
      cases bearerToken req.authorization with
      | none => rfl
      | some token =>
          refine (Program.bind_assoc _ _ _).trans (congrArg _ (funext fun userId => ?_))
          cases userId <;> rfl
  | check => exact (endpoint_idle S (S.finish .check)).symm
  | publicKey exported => exact (endpoint_idle S (S.finish (.publicKey exported))).symm
  | verifyExternal allocs own req =>
      exact (endpoint_idle S (S.finish (.verifyExternal allocs own req))).symm
  | logout req => exact respond _
  | sign req => exact respond _
  | list req => exact respond _
  | download req id => exact respond _
  | verify req id => exact respond _
  | remove req id => exact respond _

/-! ### What a visit does by itself is to read -/

section Reads

omit [Field τ] [LinearOrder τ] [FloorRing τ]

theorem managed_reads {α : Type} {p : Action τ α} (h : p.Done) : (managed p).OnlyReads := by
  cases p with
  | ret a => exact trivial
  | throw e => exact trivial
  | call c k => exact h.elim

theorem jsonResponse_done (j : Json) (status : Nat) :
    (jsonResponse j status : Action τ HttpResponse).Done := by
  unfold jsonResponse
  split <;> exact trivial

theorem stoiOrThrow_done (s : Bytes) : (stoiOrThrow s : Action τ Int).Done := by
  unfold stoiOrThrow
  split <;> exact trivial

theorem query_done {α : Type} (reply : Option α) : (query reply : Action τ α).Done := by
  cases reply <;> exact trivial

theorem registered_done (username : Bytes) (r : AuthResult) :
    (registered username r : Action τ HttpResponse).Done := by
  unfold registered
  split
  · exact jsonResponse_done _ _
  · exact trivial

theorem loggedIn_done (r : AuthResult) : (loggedIn r : Action τ HttpResponse).Done := by
  unfold loggedIn
  split
  · exact jsonResponse_done _ _
  · exact trivial

theorem catchJson_reads {p : Visiting τ HttpResponse} (h : p.OnlyReads) :
    (catchJson p).OnlyReads := by
  refine Program.Only.handle h fun e => ?_
  cases caught e <;> exact trivial

/-- A row is read, and what follows is done with it. -/
theorem findById_reads {α : Type} (id : Int) {f : Option User → Visiting τ α}
    (h : ∀ user, (f user).OnlyReads) : ((UserRepository.findById id).bind f).OnlyReads :=
  ⟨rfl, fun reply => Program.Only.bind (managed_reads (query_done reply)) h⟩

theorem adminOf_reads (userId : Bytes) : (adminOf userId : Visiting τ _).OnlyReads := by
  refine Program.Only.bind (managed_reads (stoiOrThrow_done userId)) fun id =>
    findById_reads id fun user => ?_
  cases user with
  | none => exact trivial
  | some user =>
      dsimp only
      split <;> exact trivial

theorem profileOf_reads (S : Site) (userId : Bytes) :
    (S.profileOf userId : Visiting τ _).OnlyReads := by
  refine Program.Only.bind (managed_reads (stoiOrThrow_done userId)) fun id =>
    findById_reads id fun user => ?_
  cases user with
  | none => exact trivial
  | some user => exact managed_reads (jsonResponse_done _ _)

theorem report_reads (S : Site) : (S.report : Visiting τ _).OnlyReads := by
  refine Program.Only.bind ⟨rfl, fun now => ?_⟩ fun tls => ⟨rfl, fun _ => trivial⟩
  show Program.OnlyReads (if S.cert.isValid now = true then _ else _)
  split
  · exact ⟨rfl, fun _ => trivial⟩
  · exact trivial

theorem healthFor_reads (S : Site) (gate : Except Nat Int) :
    (S.healthFor gate : Visiting τ _).OnlyReads := by
  cases gate with
  | error status => exact trivial
  | ok id => exact S.report_reads

theorem onReturn_reads {f : Result → Visiting τ HttpResponse} (h : ∀ r, (f r).OnlyReads)
    (o : Except Exn Result) : (onReturn f o).OnlyReads := by
  cases o with
  | error e => exact trivial
  | ok r => exact h r

theorem onToken_reads {f : Option Bytes → Visiting τ HttpResponse} (h : ∀ u, (f u).OnlyReads)
    (o : Except Exn Result) : (onToken f o).OnlyReads :=
  onReturn_reads (fun r => by cases r <;> first | exact h _ | exact trivial) o

theorem onBody_reads (S : Site) (body : Bytes) {f : Bytes → AuthResult → Action τ HttpResponse}
    (h : ∀ username r, (f username r).Done) (o : Except Exn Result) :
    (S.onBody body f o).OnlyReads := by
  refine catchJson_reads ?_
  cases credentials S.lib body with
  | none => exact trivial
  | some c =>
      refine onReturn_reads (fun r => ?_) o
      cases r <;> first | exact managed_reads (h _ _) | exact trivial

theorem finish_reads (S : Site) (v : Visit) (o : Except Exn Result) :
    (S.finish v o : Visiting τ HttpResponse).OnlyReads := by
  have respond : ∀ o, (onReturn onResponse o : Visiting τ HttpResponse).OnlyReads :=
    onReturn_reads fun r => by cases r <;> exact trivial
  cases v with
  | registerUser body => exact S.onBody_reads body registered_done o
  | login body => exact S.onBody_reads body (fun _ => loggedIn_done) o
  | getProfile req =>
      refine onToken_reads (fun u => ?_) o
      cases u with
      | none => exact trivial
      | some userId => exact S.profileOf_reads userId
  | adminHealth req =>
      refine onToken_reads (fun u => ?_) o
      cases u with
      | none => exact trivial
      | some userId => exact Program.Only.bind (adminOf_reads userId) S.healthFor_reads
  | check => exact managed_reads (jsonResponse_done _ _)
  | publicKey exported =>
      refine managed_reads ?_
      show Program.Done (if _ then _ else _)
      split
      · exact trivial
      · exact jsonResponse_done _ _
  | verifyExternal allocs own req => exact trivial
  | logout req => exact respond o
  | sign req => exact respond o
  | list req => exact respond o
  | download req id => exact respond o
  | verify req id => exact respond o
  | remove req id => exact respond o

end Reads

variable (τ) in
/-- The controllers in front of the server. -/
def front (S : Site) : Front (server τ S.app) looks where
  read := World.look
  Move := Operation
  move := World.operate
  Req := Visit
  Out := HttpResponse
  program := S.endpoint
  back := S.back
  finish := S.finish
  program_eq := S.endpoint_eq
  reads := S.finish_reads

end Site

variable (τ : Type) [Field τ] [LinearOrder τ] [FloorRing τ] in
/-- The site: all endpoints, with the services and the operators. -/
abbrev site (S : Site) : System ((services τ).extend looks) := (S.front τ).system

end PqcApi
