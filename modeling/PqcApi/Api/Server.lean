/-
The server: all its requests over all its services.

Every call and every HTTP request this development speaks of is a request of one
system, so a run may interleave any of them.  Two inversion lemmas say once what
can happen.  `exec_world` lists the ways a command changes the world, and
`program_within` says which of them a request may use; every invariant is derived
from these.
-/
import PqcApi.Api.Controllers

namespace PqcApi

open Concurrent

/-- A call on `AuthManager`, or an HTTP request. -/
inductive Request
  | registerUser (username password : Bytes)
  | login (username password : Bytes)
  | verifyToken (token : Bytes)
  | logout (token : Bytes)
  | usersLogout (req : HttpRequest)
  | sign (req : HttpRequest)
  | list (req : HttpRequest)
  | download (req : HttpRequest) (id : Int)
  | verify (req : HttpRequest) (id : Int)
  | remove (req : HttpRequest) (id : Int)

/-- What a request returns. -/
inductive Result
  | auth (r : AuthResult)
  | user (u : Option Bytes)
  | flag (b : Bool)
  | response (r : HttpResponse)

section Programs

variable {τ : Type} [Field τ] [LinearOrder τ] [FloorRing τ]

/-- The program of each request. -/
def App.program (P : App) : Request → Action τ Result
  | .registerUser u p => (AuthManager.registerUser u p).bind fun r => .ret (.auth r)
  | .login u p => (P.auth.login u p).bind fun r => .ret (.auth r)
  | .verifyToken t => (P.auth.verifyToken t).bind fun r => .ret (.user r)
  | .logout t => (P.auth.logout t).bind fun r => .ret (.flag r)
  | .usersLogout req => (P.usersLogout req).bind fun r => .ret (.response r)
  | .sign req => (P.sign req).bind fun r => .ret (.response r)
  | .list req => (P.list req).bind fun r => .ret (.response r)
  | .download req id => (P.download req id).bind fun r => .ret (.response r)
  | .verify req id => (P.verify req id).bind fun r => .ret (.response r)
  | .remove req id => (P.remove req id).bind fun r => .ret (.response r)

variable (τ) in
/-- The server, with its configuration and keys fixed. -/
abbrev server (P : App) : System (services τ) :=
  { machine τ P.lib with Req := Request, Out := Result, program := P.program }

variable (τ) in
/-- A command answered for one of its threads. -/
abbrev ServerEvent (P : App) : Type := Event (server τ P).toMachine

/-- What the services did at an event of a path. -/
theorem exec_of_mem {P : App} {α : Type} {p q : Action τ α} {log : List (ServerEvent τ P)}
    (hp : Path p log q) {e : ServerEvent τ P} (he : e ∈ log) {c : Cmd} {r : Reply τ c}
    (h : e.Is c r) : exec P.lib e.pre c e.choice = some (r, e.post) :=
  h.exec (hp.real e he)

/-- **How a token is read**: one look at the clock, if its signature verifies. -/
theorem parseToken_path {P : App} {α : Type} {token : Bytes}
    {f : Option (Bytes × Bytes) → Action τ α} {log : List (ServerEvent τ P)} {q : Action τ α}
    (h : Path ((P.auth.parseToken token).bind f) log q) {out : α} (hf : f none = .ret out) :
    (P.auth.payload token = none ∧ log = [] ∧ q = .ret out) ∨
    ∃ p, P.auth.payload token = some p ∧
      ((log = [] ∧ ∃ k, q = .call .now k) ∨
      ∃ e now, e.Is .now now ∧
        ((AuthManager.readPayload p (truncate now) = none ∧ log = [e] ∧ q = .ret out) ∨
        ∃ ids rest, AuthManager.readPayload p (truncate now) = some ids ∧ log = e :: rest ∧
          Path (f (some ids)) rest q)) := by
  rw [AuthManager.parseToken_eq] at h
  cases hpay : P.auth.payload token with
  | none =>
      rw [hpay] at h
      obtain ⟨hl, hq⟩ := path_ret.mp (hf ▸ h : Path (.ret out) log q)
      exact Or.inl ⟨rfl, hl, hq⟩
  | some p =>
      rw [hpay] at h
      refine Or.inr ⟨p, rfl, ?_⟩
      rcases path_call.mp h with ⟨hl, hq⟩ | ⟨e, now, rest, -, he, hl, hp⟩
      · exact Or.inl ⟨hl, _, hq⟩
      refine Or.inr ⟨e, now, he, ?_⟩
      cases hread : AuthManager.readPayload p (truncate (now : τ)) with
      | none =>
          simp only [hread, Program.ret_bind, hf] at hp
          obtain ⟨rfl, hq⟩ := path_ret.mp hp
          exact Or.inl ⟨rfl, hl, hq⟩
      | some ids =>
          simp only [hread, Program.ret_bind] at hp
          exact Or.inr ⟨ids, rest, rfl, hl, hp⟩

end Programs

/-! ### What a request can do -/

/-- A command that has no effect, or the given one. -/
def Cmd.Within (E : Effect) (c : Cmd) : Prop := c.effect = .none ∨ c.effect = E

/-- The only effect a request can have. -/
def Request.effect : Request → Effect
  | .registerUser .. => .addUser
  | .login .. => .store
  | .verifyToken _ => .none
  | .logout _ => .revoke
  | .usersLogout _ => .revoke
  | .sign _ => .addDocument
  | .list _ => .none
  | .download .. => .none
  | .verify .. => .none
  | .remove .. => .removeDocument

theorem Request.eq_login {r : Request} (h : r.effect = .store) : ∃ u p, r = .login u p := by
  cases r with
  | login u p => exact ⟨u, p, rfl⟩
  | _ => cases h

section Effects

variable {τ : Type} {E : Effect}

theorem ask_within {c : Cmd} (h : c.Within E) : (ask c : Action τ _).Only (Cmd.Within E) :=
  ⟨h, fun _ => trivial⟩

theorem query_within {α : Type} (reply : Option α) :
    (query reply : Action τ α).Only (Cmd.Within E) := by
  cases reply <;> exact trivial

theorem jsonResponse_within (j : Json) (status : Nat) :
    (jsonResponse j status : Action τ _).Only (Cmd.Within E) := by
  unfold jsonResponse
  split <;> exact trivial

theorem stoiOrThrow_within (s : Bytes) : (stoiOrThrow s : Action τ _).Only (Cmd.Within E) := by
  unfold stoiOrThrow
  split <;> exact trivial

theorem signer_within (s : DilithiumSigner) (data : Bytes) :
    (s.sign data : Action τ _).Only (Cmd.Within E) := by
  unfold DilithiumSigner.sign
  split
  · exact trivial
  · split
    · exact trivial
    · refine (ask_within (Or.inl rfl)).bind fun signature => ?_
      cases signature <;> exact trivial

theorem registerUser_within (username password : Bytes) :
    (AuthManager.registerUser username password : Action τ _).Only (Cmd.Within .addUser) := by
  rw [AuthManager.registerUser_eq]
  split
  · exact trivial
  · refine ⟨Or.inl rfl, fun reply => ?_⟩
    rcases reply with _ | (_ | user)
    · exact trivial
    · refine ⟨Or.inl rfl, fun hash => ?_⟩
      rcases hash with _ | hash
      · exact trivial
      · exact ⟨Or.inr rfl, fun _ => trivial⟩
    · exact trivial

variable [Field τ] [LinearOrder τ] [FloorRing τ]

theorem login_within (A : AuthManager) (username password : Bytes) :
    (A.login username password : Action τ _).Only (Cmd.Within .store) := by
  rw [AuthManager.login_eq]
  refine ⟨Or.inl rfl, fun reply => ?_⟩
  rcases reply with _ | (_ | user)
  · exact trivial
  · exact trivial
  · show Program.Only _ (if _ then _ else _)
    split
    · exact ⟨Or.inl rfl, fun _ => ⟨Or.inl rfl, fun _ => ⟨Or.inr rfl, fun _ => trivial⟩⟩⟩
    · exact trivial

theorem verifyToken_within (A : AuthManager) (token : Bytes) :
    (A.verifyToken token : Action τ _).Only (Cmd.Within E) := by
  rw [AuthManager.verifyToken_eq]
  cases A.payload token with
  | none => exact trivial
  | some p =>
      refine ⟨Or.inl rfl, fun now : τ => ?_⟩
      dsimp only
      cases AuthManager.readPayload p (truncate now) with
      | none => exact trivial
      | some ids => exact ⟨Or.inl rfl, fun _ => trivial⟩

theorem logout_within (A : AuthManager) (token : Bytes) :
    (A.logout token : Action τ _).Only (Cmd.Within .revoke) := by
  rw [AuthManager.logout_eq]
  cases A.payload token with
  | none => exact trivial
  | some p =>
      refine ⟨Or.inl rfl, fun now : τ => ?_⟩
      dsimp only
      cases AuthManager.readPayload p (truncate now) with
      | none => exact trivial
      | some ids => exact ⟨Or.inr rfl, fun _ => trivial⟩

namespace App

variable {P : App} {req : HttpRequest}

theorem authenticated_within {body : Bytes → Action τ HttpResponse}
    (h : ∀ u, (body u).Only (Cmd.Within E)) :
    (P.authenticated req body).Only (Cmd.Within E) := by
  refine Program.Only.bind ?_ fun userId => ?_
  · unfold extractUserId
    split
    · exact trivial
    · exact verifyToken_within _ _
  · cases userId with
    | none => exact trivial
    | some u => exact h u

omit [Field τ] [LinearOrder τ] [FloorRing τ] in
theorem signFile_within (file : FilePart) (userId : Bytes) :
    (P.signFile file userId : Action τ _).Only (Cmd.Within .addDocument) := by
  refine Program.Only.bind (Program.Only.handle (Program.Only.bind ?_ fun _ => trivial)
    fun _ => trivial) fun signature => ?_
  · exact signer_within _ _
  · cases signature with
    | none => exact trivial
    | some signature =>
        refine (stoiOrThrow_within _).bind fun user => Program.Only.bind
          ((ask_within (Or.inr rfl)).bind fun _ => trivial) fun docId => ?_
        split
        · exact trivial
        · exact jsonResponse_within _ _

omit [Field τ] [LinearOrder τ] [FloorRing τ] in
theorem signAs_within (userId : Bytes) :
    (P.signAs req userId : Action τ _).Only (Cmd.Within .addDocument) := by
  unfold signAs
  split
  · exact trivial
  · exact signFile_within _ _

omit [Field τ] [LinearOrder τ] [FloorRing τ] in
theorem readOwned_within {id user : Int} {found : Document → Bytes → Action τ HttpResponse}
    (h : ∀ d b, (found d b).Only (Cmd.Within E)) :
    (readOwned id user found).Only (Cmd.Within E) := by
  refine Program.Only.bind ((ask_within (Or.inl rfl)).bind query_within) fun owned => ?_
  split
  · refine Program.Only.bind ((ask_within (Or.inl rfl)).bind query_within) fun doc => ?_
    refine Program.Only.bind ((ask_within (Or.inl rfl)).bind query_within) fun pdf => ?_
    rcases doc with _ | doc
    · exact trivial
    · rcases pdf with _ | pdf
      · exact trivial
      · exact h doc pdf
  · exact trivial

/-- **A request issues only commands without effect and those of its own kind.** -/
theorem program_within (P : App) (r : Request) :
    (P.program r : Action τ Result).Only (Cmd.Within r.effect) := by
  cases r with
  | registerUser u p => exact (registerUser_within u p).bind fun _ => trivial
  | login u p => exact (login_within P.auth u p).bind fun _ => trivial
  | verifyToken t => exact (verifyToken_within P.auth t).bind fun _ => trivial
  | logout t => exact (logout_within P.auth t).bind fun _ => trivial
  | usersLogout req =>
      refine Program.Only.bind ?_ fun _ => trivial
      unfold usersLogout
      split
      · exact trivial
      · refine (logout_within P.auth _).bind fun ok => ?_
        split
        · exact jsonResponse_within _ _
        · exact trivial
  | sign req => exact (authenticated_within signAs_within).bind fun _ => trivial
  | list req =>
      refine (authenticated_within fun u => ?_).bind fun _ => trivial
      exact (stoiOrThrow_within u).bind fun user => Program.Only.bind
        ((ask_within (Or.inl rfl)).bind query_within) fun _ => jsonResponse_within _ _
  | download req id =>
      refine (authenticated_within fun u => ?_).bind fun _ => trivial
      exact (stoiOrThrow_within u).bind fun user => readOwned_within fun _ _ => trivial
  | verify req id =>
      refine (authenticated_within fun u => ?_).bind fun _ => trivial
      refine (stoiOrThrow_within u).bind fun user => readOwned_within fun doc pdf => ?_
      split
      · exact trivial
      · exact jsonResponse_within _ _
  | remove req id =>
      refine (authenticated_within fun u => ?_).bind fun _ => trivial
      refine (stoiOrThrow_within u).bind fun user => Program.Only.bind
        ((ask_within (Or.inl rfl)).bind query_within) fun owned => ?_
      split
      · refine Program.Only.bind ((ask_within (Or.inr rfl)).bind fun _ => trivial)
          fun deleted => ?_
        split
        · exact jsonResponse_within _ _
        · exact trivial
      · exact trivial

end App

end Effects

end PqcApi
