/-
How many commands a visit takes.

No endpoint asks the services more than six times (`Site.endpoint_atMost`).  It is read off the
handlers, one function at a time: a call takes what its parts take one after another, and of
two branches the longer one.
-/
import PqcApi.Concurrent.Waiting
import PqcApi.Site.Endpoints

namespace PqcApi

open Concurrent

section Parts

variable {τ α : Type}

theorem ask_atMost (c : Cmd) : (ask c : Action τ _).AtMost 1 :=
  fun _ => trivial

theorem look_atMost (c : Look) : (look c : Visiting τ _).AtMost 1 :=
  fun _ => trivial

theorem query_atMost (reply : Option α) : (query reply : Action τ α).AtMost 0 := by
  cases reply with
  | none => exact trivial
  | some a => exact trivial

theorem managed_atMost {p : Action τ α} {n : Nat} (h : p.AtMost n) : (managed p).AtMost n :=
  h.lift

theorem jsonResponse_atMost (j : Json) (status : Nat) :
    (jsonResponse j status : Action τ HttpResponse).AtMost 0 := by
  unfold jsonResponse
  split
  · exact trivial
  · exact trivial

theorem stoiOrThrow_atMost (s : Bytes) : (stoiOrThrow s : Action τ Int).AtMost 0 := by
  unfold stoiOrThrow
  split
  · exact trivial
  · exact trivial

theorem dumpJson_atMost (L : Lib) (j : Json) : (dumpJson L j : Action τ Bytes).AtMost 0 := by
  unfold dumpJson
  split
  · exact trivial
  · exact trivial

end Parts

/-! ### The repositories -/

section Repositories

variable {τ : Type}

theorem findByUsername_atMost (username : Bytes) :
    (UserRepository.findByUsername username : Action τ _).AtMost 1 := by
  refine (ask_atMost _).bind (n := 0) fun reply => ?_
  exact query_atMost reply

theorem saveUser_atMost (username hash : Bytes) :
    (UserRepository.save username hash : Action τ Bool).AtMost 1 := by
  refine (ask_atMost _).bind (n := 0) fun reply => ?_
  exact trivial

theorem findById_atMost (id : Int) : (UserRepository.findById id : Visiting τ _).AtMost 1 := by
  refine (look_atMost _).bind (n := 0) fun reply => ?_
  exact managed_atMost (query_atMost reply)

theorem storeKey_atMost (sessionId data : Bytes) :
    (SessionRepository.storeKey sessionId data : Action τ Bool).AtMost 1 := by
  refine (ask_atMost _).bind (n := 0) fun reply => ?_
  exact trivial

theorem getKey_atMost (sessionId : Bytes) :
    (SessionRepository.getKey sessionId : Action τ _).AtMost 1 := by
  refine (ask_atMost _).bind (n := 0) fun reply => ?_
  exact trivial

theorem invalidate_atMost (sessionId : Bytes) :
    (SessionRepository.invalidate sessionId : Action τ Bool).AtMost 1 := by
  refine (ask_atMost _).bind (n := 0) fun reply => ?_
  exact trivial

theorem saveDocument_atMost (userId : Int) (filename pdf sig sha : Bytes) :
    (DocumentRepository.save userId filename pdf sig sha : Action τ Int).AtMost 1 := by
  refine (ask_atMost _).bind (n := 0) fun reply => ?_
  exact trivial

theorem documentById_atMost (id : Int) :
    (DocumentRepository.findById id : Action τ _).AtMost 1 := by
  refine (ask_atMost _).bind (n := 0) fun reply => ?_
  exact query_atMost reply

theorem findByUserId_atMost (userId : Int) :
    (DocumentRepository.findByUserId userId : Action τ _).AtMost 1 := by
  refine (ask_atMost _).bind (n := 0) fun reply => ?_
  exact query_atMost reply

theorem getPdfData_atMost (id : Int) :
    (DocumentRepository.getPdfData id : Action τ _).AtMost 1 := by
  refine (ask_atMost _).bind (n := 0) fun reply => ?_
  exact query_atMost reply

theorem ownedBy_atMost (docId userId : Int) :
    (DocumentRepository.ownedBy docId userId : Action τ Bool).AtMost 1 := by
  refine (ask_atMost _).bind (n := 0) fun reply => ?_
  exact query_atMost reply

theorem deleteById_atMost (id : Int) :
    (DocumentRepository.deleteById id : Action τ Bool).AtMost 1 := by
  refine (ask_atMost _).bind (n := 0) fun reply => ?_
  exact trivial

end Repositories

variable {τ : Type} [Field τ] [LinearOrder τ] [FloorRing τ]

/-! ### The managers -/

namespace AuthManager

variable (A : AuthManager)

omit [Field τ] [LinearOrder τ] [FloorRing τ] in
theorem registerUser_atMost (username password : Bytes) :
    (registerUser username password : Action τ AuthResult).AtMost 3 := by
  have hhash : (hashPassword password : Action τ Bytes).AtMost 1 := by
    refine (ask_atMost _).bind (n := 0) fun hash => ?_
    split
    · exact trivial
    · exact trivial
  unfold registerUser
  split
  · exact .ret 3 _
  · refine (findByUsername_atMost username).bind (n := 2) fun existing => ?_
    split
    · exact .ret 2 _
    · refine hhash.bind (n := 1) fun hash => ?_
      refine (saveUser_atMost username hash).bind (n := 0) fun saved => ?_
      split
      · exact trivial
      · exact trivial

theorem parseToken_atMost (token : Bytes) : (A.parseToken token : Action τ _).AtMost 1 := by
  rw [parseToken_eq]
  split
  · exact .ret 1 _
  · exact fun _ => trivial

theorem verifyToken_atMost (token : Bytes) : (A.verifyToken token : Action τ _).AtMost 2 := by
  refine (A.parseToken_atMost token).bind (n := 1) fun parsed => ?_
  rcases parsed with _ | ⟨userId, sessionId⟩
  · exact .ret 1 _
  · refine (getKey_atMost sessionId).bind (n := 0) fun owner => ?_
    exact trivial

theorem logout_atMost (token : Bytes) : (A.logout token : Action τ Bool).AtMost 2 := by
  refine (A.parseToken_atMost token).bind (n := 1) fun parsed => ?_
  rcases parsed with _ | ⟨userId, sessionId⟩
  · exact .ret 1 _
  · refine (invalidate_atMost sessionId).bind (n := 0) fun deleted => ?_
    exact trivial

theorem buildToken_atMost (userId sessionId : Bytes) :
    (A.buildToken userId sessionId : Action τ Bytes).AtMost 1 := by
  refine (dumpJson_atMost _ _).bind (n := 1) fun header => ?_
  refine (ask_atMost _).bind (n := 0) fun now => ?_
  refine (dumpJson_atMost _ _).bind (n := 0) fun payload => ?_
  exact trivial

theorem login_atMost (username password : Bytes) :
    (A.login username password : Action τ AuthResult).AtMost 4 := by
  have hid : (generateSessionId : Action τ Bytes).AtMost 1 := by
    refine (ask_atMost _).bind (n := 0) fun buf => ?_
    exact trivial
  refine (findByUsername_atMost username).bind (n := 3) fun user => ?_
  cases user with
  | none => exact .ret 3 _
  | some user =>
      show Program.AtMost 3 (if _ then _ else _)
      split
      · refine hid.bind (n := 2) fun sessionId => ?_
        refine (A.buildToken_atMost _ _).bind (n := 1) fun token => ?_
        refine (storeKey_atMost _ _).bind (n := 0) fun stored => ?_
        exact trivial
      · exact .ret 3 _

end AuthManager

/-! ### The document handlers -/

namespace App

variable (P : App)

theorem usersLogout_atMost (req : HttpRequest) :
    (P.usersLogout req : Action τ HttpResponse).AtMost 2 := by
  unfold usersLogout
  split
  · exact .ret 2 _
  · refine (P.auth.logout_atMost _).bind (n := 0) fun ok => ?_
    split
    · exact jsonResponse_atMost _ _
    · exact trivial

/-- The token is two commands, and then comes what is done for its user. -/
theorem authenticated_atMost (req : HttpRequest) {body : Bytes → Action τ HttpResponse} {n : Nat}
    (h : ∀ userId, (body userId).AtMost n) : (P.authenticated req body).AtMost (2 + n) := by
  have hextract : (P.extractUserId req : Action τ _).AtMost 2 := by
    unfold extractUserId
    split
    · exact .ret 2 _
    · exact P.auth.verifyToken_atMost _
  refine hextract.bind fun userId => ?_
  cases userId with
  | none => exact .ret n _
  | some userId => exact h userId

omit [Field τ] [LinearOrder τ] [FloorRing τ] in
theorem signAs_atMost (req : HttpRequest) (userId : Bytes) :
    (P.signAs req userId : Action τ HttpResponse).AtMost 2 := by
  have hsign : ∀ data, (P.signer.sign data : Action τ Bytes).AtMost 1 := by
    intro data
    unfold DilithiumSigner.sign
    split
    · exact .throw 1 _
    · split
      · exact .throw 1 _
      · refine (ask_atMost _).bind (n := 0) fun signature => ?_
        split
        · exact trivial
        · exact trivial
  unfold signAs
  split
  · exact .ret 2 _
  · rename_i file _
    have hcaught := ((hsign file.content).bind (n := 0) (f := fun s => .ret (some s))
      fun _ => trivial).handle (n := 0) (f := fun _ => .ret none) fun _ => trivial
    refine hcaught.bind (n := 1) fun signature => ?_
    cases signature with
    | none => exact .ret 1 _
    | some signature =>
        refine (stoiOrThrow_atMost _).bind (n := 1) fun user => ?_
        refine (saveDocument_atMost _ _ _ _ _).bind (n := 0) fun docId => ?_
        split
        · exact trivial
        · exact jsonResponse_atMost _ _

omit [Field τ] [LinearOrder τ] [FloorRing τ] in
theorem listAs_atMost (userId : Bytes) :
    (P.listAs userId : Action τ HttpResponse).AtMost 1 := by
  refine (stoiOrThrow_atMost _).bind (n := 1) fun user => ?_
  refine (findByUserId_atMost user).bind (n := 0) fun docs => ?_
  exact jsonResponse_atMost _ _

omit [Field τ] [LinearOrder τ] [FloorRing τ] in
theorem readOwned_atMost (id user : Int) {found : Document → Bytes → Action τ HttpResponse}
    (h : ∀ doc pdf, (found doc pdf).AtMost 0) : (readOwned id user found).AtMost 3 := by
  refine (ownedBy_atMost id user).bind (n := 2) fun owned => ?_
  split
  · refine (documentById_atMost id).bind (n := 1) fun doc => ?_
    refine (getPdfData_atMost id).bind (n := 0) fun pdf => ?_
    split
    · exact h _ _
    · exact trivial
  · exact .ret 2 _

omit [Field τ] [LinearOrder τ] [FloorRing τ] in
theorem downloadAs_atMost (id : Int) (userId : Bytes) :
    (P.downloadAs id userId : Action τ HttpResponse).AtMost 3 := by
  refine (stoiOrThrow_atMost _).bind (n := 3) fun user => ?_
  exact readOwned_atMost id user fun _ _ => trivial

omit [Field τ] [LinearOrder τ] [FloorRing τ] in
theorem verifyAs_atMost (id : Int) (userId : Bytes) :
    (P.verifyAs id userId : Action τ HttpResponse).AtMost 3 := by
  refine (stoiOrThrow_atMost _).bind (n := 3) fun user => readOwned_atMost id user fun doc pdf => ?_
  split
  · exact trivial
  · exact jsonResponse_atMost _ _

omit [Field τ] [LinearOrder τ] [FloorRing τ] in
theorem removeAs_atMost (id : Int) (userId : Bytes) :
    (removeAs id userId : Action τ HttpResponse).AtMost 2 := by
  refine (stoiOrThrow_atMost _).bind (n := 2) fun user => ?_
  refine (ownedBy_atMost id user).bind (n := 1) fun owned => ?_
  split
  · refine (deleteById_atMost id).bind (n := 0) fun deleted => ?_
    split
    · exact jsonResponse_atMost _ _
    · exact trivial
  · exact .ret 1 _

end App

/-! ### The endpoints -/

namespace Site

variable (S : Site)

omit [Field τ] [LinearOrder τ] [FloorRing τ] in
theorem catchJson_atMost {p : Visiting τ HttpResponse} {n : Nat} (h : p.AtMost n) :
    (catchJson p).AtMost n :=
  h.handle (n := 0) fun e => by
    split
    · exact trivial
    · exact trivial

omit [Field τ] [LinearOrder τ] [FloorRing τ] in
theorem registerUser_atMost (body : Bytes) :
    (S.registerUser body : Visiting τ HttpResponse).AtMost 3 := by
  refine catchJson_atMost ?_
  split
  · exact .throw 3 _
  · refine (managed_atMost (AuthManager.registerUser_atMost _ _)).bind (n := 0) fun result => ?_
    refine managed_atMost ?_
    unfold registered
    split
    · exact jsonResponse_atMost _ _
    · exact trivial

theorem login_atMost (body : Bytes) : (S.login body : Visiting τ HttpResponse).AtMost 4 := by
  refine catchJson_atMost ?_
  split
  · exact .throw 4 _
  · refine (managed_atMost (S.app.auth.login_atMost _ _)).bind (n := 0) fun result => ?_
    refine managed_atMost ?_
    unfold loggedIn
    split
    · exact jsonResponse_atMost _ _
    · exact trivial

theorem getProfile_atMost (req : HttpRequest) :
    (S.getProfile req : Visiting τ HttpResponse).AtMost 3 := by
  have hextract : (S.extractAndVerifyToken req : Visiting τ _).AtMost 2 := by
    unfold extractAndVerifyToken
    split
    · exact .ret 2 _
    · exact managed_atMost (S.app.auth.verifyToken_atMost _)
  refine hextract.bind (n := 1) fun userId => ?_
  cases userId with
  | none => exact .ret 1 _
  | some userId =>
      refine (managed_atMost (stoiOrThrow_atMost userId)).bind (n := 1) fun id => ?_
      refine (findById_atMost id).bind (n := 0) fun user => ?_
      cases user with
      | none => exact trivial
      | some user => exact managed_atMost (jsonResponse_atMost _ _)

theorem requireAdmin_atMost (req : HttpRequest) :
    (S.requireAdmin req : Visiting τ _).AtMost 3 := by
  have hadmin : ∀ userId, (adminOf userId : Visiting τ _).AtMost 1 := by
    intro userId
    refine (managed_atMost (stoiOrThrow_atMost userId)).bind (n := 1) fun id => ?_
    refine (findById_atMost id).bind (n := 0) fun user => ?_
    cases user with
    | none => exact trivial
    | some user =>
        show Program.AtMost 0 (if _ then _ else _)
        split
        · exact trivial
        · exact trivial
  unfold requireAdmin
  split
  · exact .ret 3 _
  · refine (managed_atMost (S.app.auth.verifyToken_atMost _)).bind (n := 1) fun userId => ?_
    cases userId with
    | none => exact .ret 1 _
    | some userId => exact hadmin userId

omit [Field τ] [LinearOrder τ] [FloorRing τ] in
theorem report_atMost : (S.report : Visiting τ HttpResponse).AtMost 3 := by
  have htls : (S.tlsLayer : Visiting τ _).AtMost 2 := by
    refine (look_atMost _).bind (n := 1) fun now => ?_
    split
    · refine (look_atMost _).bind (n := 0) fun later => ?_
      exact trivial
    · exact .ret 1 _
  refine htls.bind (n := 1) fun tls => ?_
  refine (look_atMost _).bind (n := 0) fun now => ?_
  exact trivial

theorem adminHealth_atMost (req : HttpRequest) :
    (S.adminHealth req : Visiting τ HttpResponse).AtMost 6 := by
  refine (S.requireAdmin_atMost req).bind (n := 3) fun gate => ?_
  cases gate with
  | error status => exact .ret 3 _
  | ok id => exact S.report_atMost

/-- **No endpoint asks more than six times.** -/
theorem endpoint_atMost (v : Visit) : (S.endpoint v : Visiting τ HttpResponse).AtMost 6 := by
  have handler : ∀ {p : Action τ HttpResponse} {n : Nat}, p.AtMost n → n ≤ 6 →
      (managed p).AtMost 6 := fun h hn => (managed_atMost h).mono hn
  cases v with
  | registerUser body => exact (S.registerUser_atMost body).mono (by omega)
  | login body => exact (S.login_atMost body).mono (by omega)
  | getProfile req => exact (S.getProfile_atMost req).mono (by omega)
  | logout req => exact handler (S.app.usersLogout_atMost req) (by omega)
  | check => exact handler (jsonResponse_atMost _ _) (by omega)
  | adminHealth req => exact S.adminHealth_atMost req
  | sign req => exact handler (S.app.authenticated_atMost req (S.app.signAs_atMost req)) (by omega)
  | list req => exact handler (S.app.authenticated_atMost req S.app.listAs_atMost) (by omega)
  | download req id =>
      exact handler (S.app.authenticated_atMost req (S.app.downloadAs_atMost id)) (by omega)
  | verify req id =>
      exact handler (S.app.authenticated_atMost req (S.app.verifyAs_atMost id)) (by omega)
  | remove req id =>
      exact handler (S.app.authenticated_atMost req (App.removeAs_atMost id)) (by omega)
  | publicKey exported =>
      refine handler (n := 0) ?_ (by omega)
      show Program.AtMost 0 (if _ then _ else _)
      split
      · exact trivial
      · exact jsonResponse_atMost _ _
  | verifyExternal allocs own req => exact .ret 6 _

end Site

end PqcApi
