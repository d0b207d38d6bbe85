/-
A session in which nothing goes wrong.

A login with the right password returns success when every call it makes is answered,
its token passes as long as the session is there, and a logout removes it.  The
runs are given step by step for any `ok`, so that each set of assumptions on runs can
be seen to admit one.
-/
import PqcApi.Concurrent.Solo
import PqcApi.Sample
import PqcApi.Sessions.History

namespace PqcApi

open Concurrent

variable {τ : Type} [Field τ] [LinearOrder τ] [FloorRing τ] {P : App}

namespace Allows

variable {w : World τ} {ths : List (Thread (server τ P))} {req : Request}
  {events : List (ServerEvent τ P)}

/-- A request without a token, or with one that a login has signed, is no forgery. -/
theorem unforgeable (h : ∀ token seg, req.presents = some token →
    AuthManager.segments token = some seg → P.auth.Verifies seg →
    ∃ th ∈ ths, ∃ l : Issued th, l.segments.signingInput = seg.signingInput) :
    Allows Unforgeable w ths req events where
  start := by
    rintro r token seg ⟨⟩
    exact h token seg
  run := by rintro _ _ _ - _ _ _ ⟨⟩

/-- A request that draws nothing keeps ids fresh. -/
theorem freshIds (h : ∀ e ∈ events, ∀ b, e.choice ≠ .random b) :
    Allows FreshIds w ths req events where
  start := by rintro _ _ _ _ ⟨⟩
  run n e k hn := by
    intro i b th k' hstep
    exact absurd (Step.run.inj hstep).2 (h e (List.mem_of_getElem? hn) b)

end Allows

/-- The world a login leaves when its `SETEX` is executed. -/
def World.withSession (w : World τ) (user : User) (b : Bytes) : World τ :=
  w.put (sessionKey (hex b))
    (some ⟨toDecimal user.id, w.nowMs + 1000 * SessionRepository.ttlSeconds⟩)

/-- The session is there at once. -/
theorem live_withSession (w : World τ) (user : User) (b : Bytes) :
    (w.withSession user b).live (sessionKey (hex b)) = some (toDecimal user.id) := by
  have hle : w.nowMs ≤ w.nowMs + 1000 * SessionRepository.ttlSeconds := by
    rw [SessionRepository.ttlSeconds]
    omega
  rw [World.live, World.withSession, put_self]
  exact if_pos hle

/-- The events of a login: everything is done up to the `SETEX`, which gets an answer. -/
def loginEvents (P : App) (w : World τ) (username : Bytes) (user : User) (b : Bytes) (ch : Choice)
    (reply : Option RedisReply) (w' : World τ) : List (ServerEvent τ P) :=
  [⟨.userByName username, .done, w, some (some user), w⟩, ⟨.randombytes, .random b, w, b, w⟩,
    ⟨.now, .done, w, w.now, w⟩,
    ⟨.setex (sessionKey (hex b)) SessionRepository.ttlSeconds (toDecimal user.id), ch, w, reply,
      w'⟩]

/-- The thread of such a login when it has returned. -/
def loginThread (P : App) (w : World τ) (username password : Bytes) (user : User) (b : Bytes)
    (ch : Choice) (reply : Option RedisReply) (w' : World τ) : Thread (server τ P) :=
  ⟨.login username password,
    .ret (.auth ⟨true, toDecimal user.id, P.auth.issuedToken user b w.now, ""⟩),
    loginEvents P w username user b ch reply w'⟩

/-- The thread is a `LoggedIn`. -/
def loggedIn {w w' : World τ} {username password : Bytes} {user : User} {ch : Choice}
    {reply : Option RedisReply}
    (hpw : P.auth.verifyPassword password user.passwordHash = true) (b : Bytes) :
    LoggedIn (loginThread P w username password user b ch reply w') where
  username := username
  password := password
  req := rfl
  user := user
  drawn := b
  time := w.now
  found := _
  draw := _
  clock := _
  rest := _
  log := rfl
  found_is := ⟨_, _, _, rfl⟩
  draw_is := ⟨_, _, _, rfl⟩
  clock_is := ⟨_, _, _, rfl⟩
  authenticated := hpw
  stored := _
  reply := reply
  rest_eq := rfl
  stored_is := ⟨_, _, _, rfl⟩
  returned := rfl

section Login

variable {w w' : World τ} {ths : List (Thread (server τ P))} {username password : Bytes}
  {user : User} {b : Bytes} {ch : Choice} {reply : Option RedisReply}
  {ok : Config (server τ P) → Step (server τ P) → Prop}

/-- **A login with the right password returns success**, whatever Redis answers. -/
theorem reach_login (htext : (pgText username).isSome)
    (hfind : w.users.byName (cstr username) = some user)
    (hpw : P.auth.verifyPassword password user.passwordHash = true) (hb : b.length = 32)
    (hx : exec P.lib w (.setex (sessionKey (hex b)) SessionRepository.ttlSeconds
      (toDecimal user.id)) ch = some (reply, w'))
    (hok : Allows ok w ths (.login username password)
      (loginEvents P w username user b ch reply w')) :
    Reach ok ⟨w, ths⟩
      ⟨w', ths ++ [loginThread P w username password user b ch reply w']⟩ := by
  have hlookup : exec P.lib w (.userByName username) .done = some (some (some user), w) := by
    obtain ⟨t, ht⟩ := Option.isSome_iff_exists.mp htext
    simp only [exec, statement, ht, Option.map_some, pgText_eq_some ht, hfind]
  have hdraw : exec P.lib w .randombytes (.random b) = some (b, w) := by
    simp [exec, hb]
  have hpath : Path (P.program (.login username password))
      (loginEvents P w username user b ch reply w')
      (.ret (.auth ⟨true, toDecimal user.id, P.auth.issuedToken user b w.now, ""⟩)) := by
    rw [App.program, AuthManager.login_eq]
    refine ⟨_, _, _, _, hlookup, rfl, ?_⟩
    simp only [hpw, if_true]
    exact ⟨_, _, _, _, hdraw, rfl, _, _, _, _, rfl, rfl, _, _, _, _, hx, rfl, path_nil.mpr rfl⟩
  exact reach_solo hpath ⟨rfl, rfl, rfl, rfl, rfl⟩ hok

/-- Such a login keeps ids fresh if its own has not been drawn yet. -/
theorem freshIds_login (hths : ∀ th ∈ ths, ¬ Draws th b) (hch : ∀ b', ch ≠ .random b') :
    Allows FreshIds w ths (.login username password)
      (loginEvents P w username user b ch reply w') where
  start := by rintro _ _ _ _ ⟨⟩
  run n e k hn := by
    rintro i b' th k' hstep - - th' hth' d hd hcmd hchoice
    have hrand : e.choice = .random b' := (Step.run.inj hstep).2
    obtain ⟨rfl, rfl⟩ : n = 1 ∧ b' = b := by
      rcases n with _ | _ | _ | _ | n <;> simp [loginEvents] at hn <;> subst hn <;> simp_all
    rcases List.mem_append.mp hth' with hold | hnew
    · exact hths th' hold ⟨d, hd, hcmd, hchoice⟩
    · rw [List.mem_singleton.mp hnew] at hd
      rw [List.mem_singleton.mp hd] at hcmd
      cases hcmd

end Login

/-! ### Checking and revoking a token -/

section Token

variable {w : World τ} {ths : List (Thread (server τ P))} {token userId sessionId : Bytes}
    {p : Json}
  {ok : Config (server τ P) → Step (server τ P) → Prop}

/-- What a `verifyToken` comes to when it has looked for its session. -/
theorem path_verifyToken {ch : Choice} {reply : Option RedisReply} {w' : World τ}
    (hp : P.auth.payload token = some p)
    (hread : AuthManager.readPayload p (truncate w.now) = some (userId, sessionId))
    (hx : exec P.lib w (.get (sessionKey sessionId)) ch = some (reply, w')) :
    Path (P.program (.verifyToken token))
      ([⟨.now, .done, w, w.now, w⟩, ⟨.get (sessionKey sessionId), ch, w, reply, w'⟩] :
        List (ServerEvent τ P))
      (.ret (.user (if reply = some (.string userId) then some userId else none))) := by
  rw [App.program, AuthManager.verifyToken_eq, hp]
  refine ⟨_, _, w.now, _, rfl, rfl, ?_⟩
  simp only [hread]
  exact ⟨_, _, _, _, hx, rfl, path_nil.mpr rfl⟩

/-- The thread of a `verifyToken` whose calls are all answered. -/
def verifyThread (P : App) (w : World τ) (token userId sessionId : Bytes) : Thread (server τ P) :=
  ⟨.verifyToken token,
    .ret (.user (if some (w.getReply (sessionKey sessionId)) =
      some (.string userId) then some userId
      else none)),
    [⟨.now, .done, w, w.now, w⟩,
      ⟨.get (sessionKey sessionId), .done, w, some (w.getReply (sessionKey sessionId)), w⟩]⟩

theorem reach_verifyToken (hp : P.auth.payload token = some p)
    (hread : AuthManager.readPayload p (truncate w.now) = some (userId, sessionId))
    (hok : Allows ok w ths (.verifyToken token) (verifyThread P w token userId sessionId).log) :
    Reach ok ⟨w, ths⟩ ⟨w, ths ++ [verifyThread P w token userId sessionId]⟩ :=
  reach_solo (path_verifyToken hp hread rfl) ⟨rfl, rfl, rfl⟩ hok

/-- The thread of a `logout` that has read the clock and got an answer to its `DEL`. -/
def logoutThread (P : App) (w : World τ) (token sessionId : Bytes) (ch : Choice)
    (reply : Option RedisReply) (w' : World τ) : Thread (server τ P) :=
  ⟨.logout token, .ret (.flag true),
    [⟨.now, .done, w, w.now, w⟩, ⟨.del (sessionKey sessionId), ch, w, reply, w'⟩]⟩

theorem reach_logout {ch : Choice} {reply : Option RedisReply} {w' : World τ}
    (hp : P.auth.payload token = some p)
    (hread : AuthManager.readPayload p (truncate w.now) = some (userId, sessionId))
    (hx : exec P.lib w (.del (sessionKey sessionId)) ch = some (reply, w'))
    (hok : Allows ok w ths (.logout token) (logoutThread P w token sessionId ch reply w').log) :
    Reach ok ⟨w, ths⟩ ⟨w', ths ++ [logoutThread P w token sessionId ch reply w']⟩ := by
  have hpath : Path (P.program (.logout token)) (logoutThread P w token sessionId ch reply w').log
      (.ret (.flag true)) := by
    rw [App.program, AuthManager.logout_eq, hp]
    refine ⟨_, _, w.now, _, rfl, rfl, ?_⟩
    simp only [hread]
    exact ⟨_, _, _, _, hx, rfl, path_nil.mpr rfl⟩
  exact reach_solo hpath ⟨rfl, rfl, rfl⟩ hok

end Token

/-! ### The first account logs in -/

namespace Sample

/-- The world once it has. -/
def session : World ℚ := world.withSession user draw

def loginTh : Thread (server ℚ app) :=
  loginThread app world username password user draw .done (some .status) session

/-- Its events. -/
def events : List (ServerEvent ℚ app) :=
  loginEvents app world username user draw .done (some .status) session

theorem reach_session {ok : Config (server ℚ app) → Step (server ℚ app) → Prop}
    (hok : Allows ok world [] (.login username password) events) :
    Reach ok (Config.fresh world) ⟨session, [loginTh]⟩ :=
  reach_login username_text byName_username password_ok (by decide) rfl hok

theorem signed {t : Bytes} {s : AuthManager.Segments} (ht : t = token)
    (hs : AuthManager.segments t = some s) :
    ∃ th ∈ [loginTh], ∃ l : Issued th, l.segments.signingInput = s.signingInput := by
  rw [ht] at hs
  obtain rfl := Option.some.inj (segments_token.symm.trans hs)
  exact ⟨loginTh, by simp, (loggedIn password_ok draw).toIssued, rfl⟩

/-- Its token is checked, at time 0. -/
theorem reach_verify {ok : Config (server ℚ app) → Step (server ℚ app) → Prop} (w : World ℚ)
    (hw : w.now = 0) (ths : List (Thread (server ℚ app)))
    (hok : Allows ok w ths (.verifyToken token)
      (verifyThread app w token (toDecimal user.id) (hex draw)).log) :
    Reach ok ⟨w, ths⟩ ⟨w, ths ++ [verifyThread app w token (toDecimal user.id) (hex draw)]⟩ :=
  reach_verifyToken payload_token (by rw [hw]; exact readPayload_token) hok

/-- Its token is revoked, its `DEL` being answered in some way. -/
theorem reach_revoke {ok : Config (server ℚ app) → Step (server ℚ app) → Prop} (ch : Choice)
    (reply : Option RedisReply) (w' : World ℚ)
    (hx : exec lib session (.del (sessionKey (hex draw))) ch = some (reply, w'))
    (hok : Allows ok session [loginTh] (.logout token)
      (logoutThread app session token (hex draw) ch reply w').log) :
    Reach ok ⟨session, [loginTh]⟩
      ⟨w', [loginTh] ++ [logoutThread app session token (hex draw) ch reply w']⟩ :=
  reach_logout payload_token readPayload_token hx hok

/-- Its token is let in while the session is there. -/
theorem verify_session : (verifyThread app session token (toDecimal user.id) (hex draw)).rest =
    .ret (.user (some (toDecimal user.id))) := by
  have hreply : session.getReply (sessionKey (hex draw)) = .string (toDecimal user.id) :=
    getReply_eq_string.mpr (live_withSession _ _ _)
  rw [verifyThread, hreply]
  simp only [if_true]

end Sample

end PqcApi
