/-
What the controllers make of a result.

A login and a registration are answered as the manager says, if the JSON library takes the
texts.  The profile and the health report start with the row of the account.
-/
import PqcApi.Site.Endpoints

namespace PqcApi

open Concurrent

variable {τ : Type} {S : Site}

namespace Site

/-! ### What a visit makes of the result -/

section Finish

variable {body username password : Bytes}

theorem registeredResponse_dumpable (username : Bytes) :
    (registeredResponse username).dumpable = utf8 username := by
  have hkeys : utf8 (ascii "message") = true ∧ utf8 (ascii "User registered") = true ∧
      utf8 (ascii "username") = true := by decide
  obtain ⟨h₁, h₂, h₃⟩ := hkeys
  simp only [registeredResponse, Json.dumpable_object, List.all_cons, List.all_nil, Json.text,
    Json.dumpable, h₁, h₂, h₃, Bool.true_and, Bool.and_true]

theorem loggedInResponse_dumpable (token userId : Bytes) :
    (loggedInResponse token userId).dumpable = (utf8 token && utf8 userId) := by
  have hkeys : utf8 (ascii "token") = true ∧ utf8 (ascii "user_id") = true ∧
      utf8 (ascii "type") = true ∧ utf8 (ascii "Bearer") = true := by decide
  obtain ⟨h₁, h₂, h₃, h₄⟩ := hkeys
  simp only [loggedInResponse, Json.dumpable_object, List.all_cons, List.all_nil, Json.text,
    Json.dumpable, h₁, h₂, h₃, h₄, Bool.true_and, Bool.and_true]

theorem catchJson_jsonResponse (j : Json) (status : Nat) :
    catchJson (managed (jsonResponse j status) : Visiting τ HttpResponse) =
      .ret (if j.dumpable then ⟨status, .json j⟩ else errorResponse "Invalid JSON body" 400) := by
  unfold jsonResponse
  split <;> rfl

/-- How a login visit ends when the manager has returned. -/
theorem finish_login (hbody : credentials S.lib body = some (username, password)) (r : AuthResult) :
    (S.finish (.login body) (.ok (.auth r)) : Visiting τ HttpResponse) =
      .ret (if r.success then
          if utf8 r.token && utf8 r.userId then ⟨200, .json (loggedInResponse r.token r.userId)⟩
          else errorResponse "Invalid JSON body" 400
        else errorResponse r.error 401) := by
  show S.onBody body (fun _ => loggedIn) (.ok (.auth r)) = _
  unfold onBody
  rw [hbody]
  show catchJson (managed (loggedIn r)) = _
  unfold loggedIn
  by_cases hr : r.success = true
  · rw [if_pos hr, if_pos hr, catchJson_jsonResponse, loggedInResponse_dumpable]
  · rw [if_neg hr, if_neg hr]
    rfl

/-- How a registration ends when the manager has returned. -/
theorem finish_registerUser (hbody : credentials S.lib body = some (username, password))
    (r : AuthResult) :
    (S.finish (.registerUser body) (.ok (.auth r)) : Visiting τ HttpResponse) =
      .ret (if r.success then
          if utf8 username then ⟨201, .json (registeredResponse username)⟩
          else errorResponse "Invalid JSON body" 400
        else errorResponse r.error 400) := by
  show S.onBody body registered (.ok (.auth r)) = _
  unfold onBody
  rw [hbody]
  show catchJson (managed (registered username r)) = _
  unfold registered
  by_cases hr : r.success = true
  · rw [if_pos hr, if_pos hr, catchJson_jsonResponse, registeredResponse_dumpable]
  · rw [if_neg hr, if_neg hr]
    rfl

/-- What is thrown they throw on, but for what the JSON library throws. -/
theorem catchJson_throw (e : Exn) : catchJson (.throw e : Visiting τ HttpResponse) =
    if e = .json then .ret (errorResponse "Invalid JSON body" 400) else .throw e := by
  unfold catchJson Program.handle caught
  dsimp only
  by_cases he : e = .json
  · rw [if_pos he, if_pos he]
  · rw [if_neg he, if_neg he]

/-- Of anything but a result of the manager's call, these handlers make an error. -/
theorem onBody_other (f : Bytes → AuthResult → Action τ HttpResponse) {o : Except Exn Result}
    (h : credentials S.lib body = none ∨ ∀ r, o ≠ .ok (.auth r)) :
    (S.onBody body f o : Visiting τ HttpResponse) = .ret (errorResponse "Invalid JSON body" 400) ∨
      ∃ e, S.onBody body f o = .throw e := by
  have hthrow : ∀ e, catchJson (.throw e : Visiting τ HttpResponse) =
      .ret (errorResponse "Invalid JSON body" 400) ∨
      ∃ e', catchJson (.throw e : Visiting τ HttpResponse) = .throw e' := by
    intro e
    rw [catchJson_throw]
    by_cases he : e = .json
    · rw [if_pos he]
      exact Or.inl rfl
    · rw [if_neg he]
      exact Or.inr ⟨e, rfl⟩
  unfold onBody
  cases hbody : credentials S.lib body with
  | none => exact hthrow .json
  | some c =>
      rcases h with h | h
      · rw [hbody] at h
        cases h
      · rcases o with e | (r | u | b | r)
        · exact hthrow e
        · exact absurd rfl (h r)
        · exact hthrow _
        · exact hthrow _
        · exact hthrow _

end Finish

/-! ### The row of an account -/

section Row

/-- What starts with the row of the account is one statement, if the id is a number. -/
theorem ownRow_eq {α : Type} (userId : Bytes) (f : Option User → Visiting τ α) :
    ((managed (stoiOrThrow userId)).bind fun id => (UserRepository.findById id).bind f) =
      match stoi userId with
      | none => .throw .outOfRange
      | some id => .call (S := (services τ).extend looks) (.inr (.userById id))
          fun reply : Option (Option User) =>
            match reply with
            | none => .throw .query
            | some user => f user := by
  unfold stoiOrThrow
  cases stoi userId with
  | none => rfl
  | some id =>
      refine congrArg (Program.call (S := (services τ).extend looks) _) (funext fun reply => ?_)
      cases reply <;> rfl

/-- The report does not throw. -/
theorem report_returns {M : Machine ((services τ).extend looks)} {log : List (Event M)}
    {q : Visiting τ HttpResponse} (h : Path S.report log q) (hd : q.Done) : ∃ r, q = .ret r := by
  obtain ⟨-, now, log, -, -, -, h⟩ := (path_call_done hd).mp h
  change Path (Program.bind (if S.cert.isValid now = true then _ else _) _) log q at h
  split at h
  · obtain ⟨-, later, log, -, -, -, h⟩ := (path_call_done hd).mp h
    obtain ⟨-, time, log, -, -, -, h⟩ := (path_call_done hd).mp h
    exact ⟨_, (path_ret.mp h).2⟩
  · obtain ⟨-, time, log, -, -, -, h⟩ := (path_call_done hd).mp h
    exact ⟨_, (path_ret.mp h).2⟩

/-- What an administrator gets, and who else gets it not. -/
def healthOf (S : Site) : Option User → Visiting τ HttpResponse
  | none => .ret (errorResponse "Admin privileges required" 403)
  | some user =>
      if user.role = 1 then S.report else .ret (errorResponse "Admin privileges required" 403)

theorem adminOf_bind (S : Site) (userId : Bytes) :
    ((adminOf userId).bind S.healthFor : Visiting τ HttpResponse) =
      (managed (stoiOrThrow userId)).bind fun id =>
        (UserRepository.findById id).bind S.healthOf := by
  unfold adminOf
  rw [Program.bind_eq, Program.bind_assoc]
  refine congrArg _ (funext fun id => ?_)
  rw [Program.bind_eq, Program.bind_assoc]
  refine congrArg _ (funext fun user => ?_)
  cases user with
  | none => rfl
  | some user =>
      by_cases hrole : user.role = 1
      · simp only [healthOf, hrole, if_true]
        rfl
      · simp only [healthOf, hrole, if_false]
        rfl

/-- What a user gets. -/
def profileFor (S : Site) : Option User → Visiting τ HttpResponse
  | none => .ret (errorResponse "User not found" 404)
  | some user => managed (jsonResponse (profileResponse S.lib user) 200)

theorem profileOf_bind (S : Site) (userId : Bytes) :
    (S.profileOf userId : Visiting τ HttpResponse) =
      (managed (stoiOrThrow userId)).bind fun id =>
        (UserRepository.findById id).bind S.profileFor := by
  unfold profileOf
  rw [Program.bind_eq]
  refine congrArg _ (funext fun id => ?_)
  rw [Program.bind_eq]
  refine congrArg _ (funext fun user => ?_)
  cases user <;> rfl

end Row

end Site

end PqcApi
