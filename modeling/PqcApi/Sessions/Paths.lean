/-
What the threads of `login`, `verifyToken` and `logout` have done.

Every statement here is read off one path.  A thread whose log shows that it built
a token is an `Issued`, one that also stored the session is a `LoggedIn`, and a
thread that let a token pass is an `Accepted`; each carries the events it is made
of.  No other thread draws a session id or writes a session.
-/
import PqcApi.Api.Server

namespace PqcApi

open Concurrent

variable {τ : Type} [Field τ] [LinearOrder τ] [FloorRing τ] {P : App}

/-! ### login -/

/-- The program of a login once the token is built. -/
def storing (P : App) (user : User) (b : Bytes) (now : τ) : Action τ Result :=
  .call (S := services τ) (.setex (sessionKey (hex b)) SessionRepository.ttlSeconds
    (toDecimal user.id)) fun _ =>
      .ret (.auth ⟨true, toDecimal user.id, P.auth.issuedToken user b now, ""⟩)

/-- **How far a login can have come.** -/
theorem login_path {username password : Bytes} {log : List (ServerEvent τ P)}
    {q : Action τ Result} (h : Path (P.program (.login username password)) log q) :
    (log = [] ∧ ∃ k, q = .call (.userByName username) k) ∨
    (∃ e₁, log = [e₁] ∧
      ((e₁.Is (.userByName username) none ∧ q = .throw .query) ∨
       (∃ found : Option User, e₁.Is (.userByName username) (some found) ∧
        (∀ user, found = some user →
          P.auth.verifyPassword password user.passwordHash = false) ∧
        q = .ret (.auth (.failed "Invalid credentials"))) ∨
       (∃ user, e₁.Is (.userByName username) (some (some user)) ∧
        P.auth.verifyPassword password user.passwordHash = true ∧
        ∃ k, q = .call .randombytes k))) ∨
    (∃ e₁ e₂ user b, e₁.Is (.userByName username) (some (some user)) ∧
      P.auth.verifyPassword password user.passwordHash = true ∧ e₂.Is .randombytes b ∧
      ((log = [e₁, e₂] ∧ ∃ k, q = .call .now k) ∨
       (∃ e₃ T, e₃.Is .now T ∧
        ((log = [e₁, e₂, e₃] ∧ q = storing P user b T) ∨
         (∃ e₄ r, e₄.Is (.setex (sessionKey (hex b)) SessionRepository.ttlSeconds
            (toDecimal user.id)) r ∧ log = [e₁, e₂, e₃, e₄] ∧
          q = .ret (.auth ⟨true, toDecimal user.id, P.auth.issuedToken user b T, ""⟩)))))) := by
  rw [App.program, AuthManager.login_eq] at h
  rcases path_call.mp h with ⟨hl, hq⟩ | ⟨e₁, reply, rest₁, -, h₁, hl, hp₁⟩
  · exact Or.inl ⟨hl, _, hq⟩
  refine Or.inr ?_
  rcases reply with _ | (_ | user)
  · obtain ⟨rfl, hq⟩ := path_throw.mp hp₁
    exact Or.inl ⟨e₁, hl, Or.inl ⟨h₁, hq⟩⟩
  · obtain ⟨rfl, hq⟩ := path_ret.mp hp₁
    exact Or.inl ⟨e₁, hl, Or.inr (Or.inl ⟨none, h₁, by simp, hq⟩)⟩
  · by_cases hpw : P.auth.verifyPassword password user.passwordHash = true
    · simp only [hpw, if_true, Program.call_bind, Program.ret_bind] at hp₁
      rcases path_call.mp hp₁ with ⟨rfl, hq⟩ | ⟨e₂, b, rest₂, -, h₂, rfl, hp₂⟩
      · exact Or.inl ⟨e₁, hl, Or.inr (Or.inr ⟨user, h₁, hpw, _, hq⟩)⟩
      refine Or.inr ⟨e₁, e₂, user, b, h₁, hpw, h₂, ?_⟩
      rcases path_call.mp hp₂ with ⟨rfl, hq⟩ | ⟨e₃, T, rest₃, -, h₃, rfl, hp₃⟩
      · exact Or.inl ⟨hl, _, hq⟩
      refine Or.inr ⟨e₃, T, h₃, ?_⟩
      rcases path_call.mp hp₃ with ⟨rfl, hq⟩ | ⟨e₄, r, rest₄, -, h₄, rfl, hp₄⟩
      · exact Or.inl ⟨hl, hq⟩
      · obtain ⟨rfl, hq⟩ := path_ret.mp hp₄
        exact Or.inr ⟨e₄, r, h₄, hl, hq⟩
    · simp only [hpw] at hp₁
      obtain ⟨rfl, hq⟩ := path_ret.mp hp₁
      refine Or.inl ⟨e₁, hl, Or.inr (Or.inl ⟨some user, h₁, ?_, hq⟩)⟩
      intro user' huser
      rw [← Option.some.inj huser]
      simpa using hpw

/-- A thread that has built a token, with the events that show it. -/
structure Issued (th : Thread (server τ P)) where
  username : Bytes
  password : Bytes
  req : th.req = .login username password
  user : User
  drawn : Bytes
  time : τ
  found : ServerEvent τ P
  draw : ServerEvent τ P
  clock : ServerEvent τ P
  rest : List (ServerEvent τ P)
  log : th.log = found :: draw :: clock :: rest
  found_is : found.Is (.userByName username) (some (some user))
  draw_is : draw.Is .randombytes drawn
  clock_is : clock.Is .now time
  authenticated : P.auth.verifyPassword password user.passwordHash = true

namespace Issued

variable {th : Thread (server τ P)}

/-- The session id in the token. -/
def sessionId (l : Issued th) : Bytes := hex l.drawn

/-- The segments of the token. -/
def segments (l : Issued th) : AuthManager.Segments :=
  P.auth.segmentsAt (toDecimal l.user.id) l.sessionId l.time

def token (l : Issued th) : Bytes := P.auth.issuedToken l.user l.drawn l.time

/-- The libraries round-trip what was written for the token. -/
def Codec (l : Issued th) : Prop := P.auth.CodecAt (toDecimal l.user.id) l.sessionId l.time

/-- A thread issues one token. -/
theorem unique (l l' : Issued th) :
    l.user = l'.user ∧ l.drawn = l'.drawn ∧ l.time = l'.time := by
  have hlog := l.log.symm.trans l'.log
  simp only [List.cons.injEq] at hlog
  obtain ⟨hfound, hdraw, hclock, -⟩ := hlog
  have hname : l.username = l'.username := by
    have hreq := l.req.symm.trans l'.req
    exact (Request.login.inj hreq).1
  have huser := l'.found_is
  rw [← hfound, ← hname] at huser
  refine ⟨?_, ?_, ?_⟩
  · simpa using l.found_is.inj huser
  · exact l.draw_is.inj (hdraw ▸ l'.draw_is)
  · exact l.clock_is.inj (hclock ▸ l'.clock_is)

/-- The thread's token stays what it is. -/
def later (l : Issued th) {th' : Thread (server τ P)} (h : th.Continues th') : Issued th' :=
  { l with
    req := h.1.trans l.req
    rest := l.rest ++ th'.log.drop th.log.length
    log := by
      obtain ⟨-, ext, hl, -⟩ := h
      rw [hl, List.drop_left, l.log]
      rfl }

end Issued

/-- A thread that has issued a token and stored its session, as far as it can tell. -/
structure LoggedIn (th : Thread (server τ P)) extends Issued th where
  stored : ServerEvent τ P
  reply : Option RedisReply
  rest_eq : rest = [stored]
  stored_is : stored.Is (.setex (sessionKey (hex drawn)) SessionRepository.ttlSeconds
    (toDecimal user.id)) reply
  returned : th.rest = .ret (.auth ⟨true, toDecimal user.id, toIssued.token, ""⟩)

namespace LoggedIn

variable {th : Thread (server τ P)}

/-- The key the session is stored under. -/
def key (l : LoggedIn th) : Bytes := sessionKey l.sessionId

/-- What the login writes there. -/
def entry (l : LoggedIn th) : Entry :=
  ⟨toDecimal l.user.id, l.stored.pre.nowMs + 1000 * SessionRepository.ttlSeconds⟩

theorem log_eq (l : LoggedIn th) : th.log = [l.found, l.draw, l.clock, l.stored] := by
  rw [l.log, l.rest_eq]

theorem mem_stored (l : LoggedIn th) : l.stored ∈ th.log := by
  simp [l.log_eq]

theorem done (l : LoggedIn th) : th.rest.Done := by
  rw [l.returned]
  exact trivial

/-- What the `SETEX` left. -/
theorem post_eq (l : LoggedIn th) (hp : Path (P.program th.req) th.log th.rest) :
    l.stored.post = if l.stored.choice.ran then l.stored.pre.put l.key (some l.entry)
      else l.stored.pre :=
  exec_setex (exec_of_mem hp l.mem_stored l.stored_is)

end LoggedIn

section LoginThreads

variable {th : Thread (server τ P)} (hp : Path (P.program th.req) th.log th.rest)

include hp

/-- **Only a login that returns success writes a session**, and it does so last. -/
theorem loggedIn_of_store {e : ServerEvent τ P} (he : e ∈ th.log)
    (hc : e.cmd.effect = .store) : ∃ l : LoggedIn th, l.stored = e := by
  have hlogin : th.req.effect = .store := by
    rcases (Path.only hp (App.program_within P th.req)).1 e he with hnone | heff
    · rw [hc] at hnone
      cases hnone
    · rw [← heff, hc]
  obtain ⟨username, password, hreq⟩ := Request.eq_login hlogin
  have other : ∀ {c : Cmd} {r : Reply τ c}, c.effect = .none → ∀ d : ServerEvent τ P,
      d.Is c r → e ≠ d := by
    rintro c r hnone d hd rfl
    rw [hd.cmd_eq, hnone] at hc
    cases hc
  rw [hreq] at hp
  rcases login_path hp with ⟨hl, -⟩ | ⟨e₁, hl, hq⟩ | ⟨e₁, e₂, user, b, h₁, hpw, h₂, hq⟩
  · rw [hl] at he
    exact absurd he (by simp)
  · rw [hl, List.mem_singleton] at he
    rcases hq with ⟨h₁, -⟩ | ⟨_, h₁, -⟩ | ⟨_, h₁, -⟩ <;> exact absurd he (other rfl _ h₁)
  · rcases hq with ⟨hl, -⟩ | ⟨e₃, T, h₃, ⟨hl, -⟩ | ⟨e₄, r, h₄, hl, hq⟩⟩
    · rw [hl] at he
      simp [other rfl _ h₁, other rfl _ h₂] at he
    · rw [hl] at he
      simp [other rfl _ h₁, other rfl _ h₂, other rfl _ h₃] at he
    · have heq : e = e₄ := by
        rw [hl] at he
        simpa [other rfl _ h₁, other rfl _ h₂, other rfl _ h₃] using he
      refine ⟨⟨⟨username, password, hreq, user, b, T, e₁, e₂, e₃, [e₄], hl, h₁, h₂, h₃, hpw⟩,
        e₄, r, rfl, h₄, hq⟩, heq.symm⟩

/-- A login that returned success issued the token it returned and wrote its session. -/
theorem loggedIn_of_success {username password : Bytes} (hreq : th.req = .login username password)
    {r : AuthResult} (hret : th.rest = .ret (.auth r)) (hr : r.success = true) :
    ∃ l : LoggedIn th, r = ⟨true, toDecimal l.user.id, l.token, ""⟩ := by
  rw [hreq] at hp
  rcases login_path hp with ⟨-, _, hq⟩ | ⟨e₁, -, hq⟩ | ⟨e₁, e₂, user, b, h₁, hpw, h₂, hq⟩
  · rw [hret] at hq
    cases hq
  · rcases hq with ⟨-, hq⟩ | ⟨_, -, -, hq⟩ | ⟨_, -, -, _, hq⟩ <;> rw [hret] at hq <;> cases hq
    cases hr
  · rcases hq with ⟨-, _, hq⟩ | ⟨e₃, T, h₃, ⟨-, hq⟩ | ⟨e₄, r, h₄, hl, hq⟩⟩
    · rw [hret] at hq
      cases hq
    · rw [hret] at hq
      cases hq
    · refine ⟨⟨⟨username, password, hreq, user, b, T, e₁, e₂, e₃, [e₄], hl, h₁, h₂, h₃, hpw⟩,
        e₄, r, rfl, h₄, hq⟩, ?_⟩
      rw [hret] at hq
      cases hq
      rfl

end LoginThreads

/-! ### verifyToken -/

/-- A thread whose `verifyToken` has let a token pass. -/
structure Accepted (th : Thread (server τ P)) (token userId : Bytes) where
  payload : Json
  sessionId : Bytes
  time : τ
  clock : ServerEvent τ P
  looked : ServerEvent τ P
  log : th.log = [clock, looked]
  payload_eq : P.auth.payload token = some payload
  clock_is : clock.Is .now time
  read : AuthManager.readPayload payload (truncate time) = some (userId, sessionId)
  looked_is : looked.Is (.get (sessionKey sessionId)) (some (.string userId))

/-- **How far `verifyToken` can have come.** -/
theorem verifyToken_path {token : Bytes} {log : List (ServerEvent τ P)} {q : Action τ Result}
    (h : Path (P.program (.verifyToken token)) log q) :
    (P.auth.payload token = none ∧ log = [] ∧ q = .ret (.user none)) ∨
    ∃ p, P.auth.payload token = some p ∧
      ((log = [] ∧ ∃ k, q = .call .now k) ∨
      ∃ e₁ now, e₁.Is .now now ∧
        ((AuthManager.readPayload p (truncate now) = none ∧ log = [e₁] ∧
          q = .ret (.user none)) ∨
        ∃ userId sessionId,
          AuthManager.readPayload p (truncate now) = some (userId, sessionId) ∧
          ((log = [e₁] ∧ ∃ k, q = .call (.get (sessionKey sessionId)) k) ∨
          ∃ e₂ reply, e₂.Is (.get (sessionKey sessionId)) reply ∧ log = [e₁, e₂] ∧
            q = .ret (.user (if reply = some (.string userId) then some userId else none))))) := by
  change Path (Program.bind (Program.bind (P.auth.parseToken token) _) _) log q at h
  rw [Program.bind_assoc] at h
  rcases parseToken_path h rfl with hfail | ⟨p, hpay, hwait | ⟨e₁, now, h₁, hfail |
    ⟨⟨userId, sessionId⟩, rest, hread, rfl, hp⟩⟩⟩
  · exact Or.inl hfail
  · exact Or.inr ⟨p, hpay, Or.inl hwait⟩
  · exact Or.inr ⟨p, hpay, Or.inr ⟨e₁, now, h₁, Or.inl hfail⟩⟩
  refine Or.inr ⟨p, hpay, Or.inr ⟨e₁, now, h₁, Or.inr ⟨userId, sessionId, hread, ?_⟩⟩⟩
  rcases path_call.mp hp with ⟨rfl, hq⟩ | ⟨e₂, reply, rest₂, -, h₂, rfl, hp₂⟩
  · exact Or.inl ⟨rfl, _, hq⟩
  · obtain ⟨rfl, hq⟩ := path_ret.mp hp₂
    simp only [RedisClient.stringReply_eq_some] at hq
    exact Or.inr ⟨e₂, reply, h₂, rfl, hq⟩

theorem accepted_of_some {th : Thread (server τ P)} (hp : Path (P.program th.req) th.log th.rest)
    {token u : Bytes} (hreq : th.req = .verifyToken token)
    (hret : th.rest = .ret (.user (some u))) : Nonempty (Accepted th token u) := by
  rw [hreq] at hp
  rcases verifyToken_path hp with ⟨-, -, hq⟩ | ⟨p, hpay, ⟨-, _, hq⟩ | ⟨e₁, now, h₁, hrest⟩⟩
  · rw [hret] at hq
    cases hq
  · rw [hret] at hq
    cases hq
  · rcases hrest with ⟨-, -, hq⟩ | ⟨userId, sessionId, hread, ⟨-, _, hq⟩ | ⟨e₂, reply, h₂, hl, hq⟩⟩
    · rw [hret] at hq
      cases hq
    · rw [hret] at hq
      cases hq
    · rw [hret] at hq
      by_cases hr : reply = some (.string userId)
      · rw [if_pos hr] at hq
        cases hq
        exact ⟨⟨p, sessionId, now, e₁, e₂, hl, hpay, h₁, hread, hr ▸ h₂⟩⟩
      · rw [if_neg hr] at hq
        cases hq

/-! ### logout -/

/-- The token a request asks to revoke. -/
def Request.revokes : Request → Option Bytes
  | .logout token => some token
  | .usersLogout req => bearerToken req.authorization
  | _ => none

/-- What it answers, from what `AuthManager::logout` returned. -/
def Request.revoked : Request → Bool → Result
  | .usersLogout _, true => .response ⟨200, .json (.object [("message", .text "Logged out")])⟩
  | .usersLogout _, false => .response (errorResponse "Invalid or expired token" 401)
  | _, ok => .flag ok

/-- Both ways to log out are `AuthManager::logout`, answered each in its way. -/
theorem program_revokes {r : Request} {token : Bytes} (h : r.revokes = some token) :
    (P.program r : Action τ Result) = (P.auth.logout token).bind fun ok => .ret (r.revoked ok) := by
  cases r with
  | logout t =>
      rw [← Option.some.inj h]
      rfl
  | usersLogout req =>
      have hdump : (Json.object [("message", .text "Logged out")]).dumpable = true := by decide
      show (P.usersLogout req).bind _ = _
      rw [App.usersLogout, show bearerToken req.authorization = some token from h]
      show Program.bind (Program.bind _ _) _ = _
      rw [Program.bind_assoc]
      refine congrArg _ (funext fun ok => ?_)
      cases ok with
      | false => rfl
      | true =>
          simp only [jsonResponse, hdump, if_true]
          rfl
  | _ => cases h

/-- Without a token, a logout answers at once. -/
theorem program_revokes_none {r : Request} (h : r.effect = .revoke) (hnone : r.revokes = none) :
    ∃ out, (P.program r : Action τ Result) = .ret out := by
  cases r with
  | logout t => cases hnone
  | usersLogout req =>
      refine ⟨.response (errorResponse "Unauthorized" 401), ?_⟩
      show (P.usersLogout req).bind _ = _
      rw [App.usersLogout, show bearerToken req.authorization = none from hnone]
      rfl
  | _ => cases h

/-- **How far a logout can have come.** -/
theorem logout_path {r : Request} {token : Bytes} (hr : r.revokes = some token)
    {log : List (ServerEvent τ P)} {q : Action τ Result} (h : Path (P.program r) log q) :
    (P.auth.payload token = none ∧ log = [] ∧ q = .ret (r.revoked false)) ∨
    ∃ p, P.auth.payload token = some p ∧
      ((log = [] ∧ ∃ k, q = .call .now k) ∨
      ∃ e₁ now, e₁.Is .now now ∧
        ((AuthManager.readPayload p (truncate now) = none ∧ log = [e₁] ∧
          q = .ret (r.revoked false)) ∨
        ∃ userId sessionId,
          AuthManager.readPayload p (truncate now) = some (userId, sessionId) ∧
          ((log = [e₁] ∧ q = .call (.del (sessionKey sessionId)) fun _ => .ret (r.revoked true)) ∨
          ∃ e₂ reply, e₂.Is (.del (sessionKey sessionId)) reply ∧ log = [e₁, e₂] ∧
            q = .ret (r.revoked true)))) := by
  rw [program_revokes hr] at h
  change Path (Program.bind (Program.bind (P.auth.parseToken token) _) _) log q at h
  rw [Program.bind_assoc] at h
  rcases parseToken_path h rfl with hfail | ⟨p, hpay, hwait | ⟨e₁, now, h₁, hfail |
    ⟨⟨userId, sessionId⟩, rest, hread, rfl, hp⟩⟩⟩
  · exact Or.inl hfail
  · exact Or.inr ⟨p, hpay, Or.inl hwait⟩
  · exact Or.inr ⟨p, hpay, Or.inr ⟨e₁, now, h₁, Or.inl hfail⟩⟩
  refine Or.inr ⟨p, hpay, Or.inr ⟨e₁, now, h₁, Or.inr ⟨userId, sessionId, hread, ?_⟩⟩⟩
  rcases path_call.mp hp with ⟨rfl, hq⟩ | ⟨e₂, reply, rest₂, -, h₂, rfl, hp₂⟩
  · exact Or.inl ⟨rfl, hq⟩
  · obtain ⟨rfl, hq⟩ := path_ret.mp hp₂
    exact Or.inr ⟨e₂, reply, h₂, rfl, hq⟩

end PqcApi
