/-
What a login hands out.

`login` builds the token before it stores the session, and does not look at whether
the store took it.  So the token it returns is alive exactly when Redis executed the
`SETEX`, and did so before the token was past its expiry.  A login that does not
return success never writes.
-/
import PqcApi.Sessions.Progress

namespace PqcApi

open Concurrent

variable {τ : Type} [Field τ] [LinearOrder τ] [FloorRing τ] {P : App}

/-- `verifyToken` with Redis answering and no time passing. -/
theorem alone_verifyToken {token : Bytes} {p : Json} (hp : P.auth.payload token = some p)
    (w : World τ) :
    (machine τ P.lib).alone .done w (P.auth.verifyToken token) =
      some (.ret (match AuthManager.readPayload p (truncate w.now) with
        | none => none
        | some (userId, sessionId) =>
            if w.live (sessionKey sessionId) = some userId then some userId else none), w) := by
  rw [AuthManager.verifyToken_eq, hp]
  simp only [Machine.alone, exec, if_true]
  cases AuthManager.readPayload p (truncate w.now) with
  | none => rfl
  | some ids =>
      simp only [Machine.alone, exec, redisCommand, Option.some.injEq, getReply_eq_string]

/-- What a login that has ended owes.  If it returned success, the session store holds the
id of the user it found under the session id of the token it returned, and that token
checked at once is let in as that user.  If not, it has not touched the store. -/
structure KeepsPromise (th : Thread (server τ P)) : Prop where
  success : ∀ r, th.rest = .ret (.auth r) → r.success = true → ∃ l : LoggedIn th,
    r.userId = toDecimal l.user.id ∧ P.auth.sessionOf r.token = some l.sessionId ∧
    l.stored.post.live (sessionKey l.sessionId) = some r.userId ∧
    (machine τ P.lib).alone .done l.stored.post (P.auth.verifyToken r.token) =
      some (.ret (some r.userId), l.stored.post)
  failure : (∀ r, th.rest = .ret (.auth r) → r.success = false) →
    ∀ e ∈ th.log, e.post.redis = e.pre.redis

/-- The `SETEX` of a login, if it comes to one, is executed by Redis, at a second not later
than the expiry of the token it built. -/
def StoredInTime (th : Thread (server τ P)) : Prop :=
  ∀ e ∈ th.log, e.cmd.effect = .store → e.choice.ran = true ∧
    ∀ clock ∈ th.log, ∀ T, clock.Is .now T →
      truncate e.pre.now ≤ truncate (T + (tokenTtlSeconds : τ))

theorem LoggedIn.clock_time {th : Thread (server τ P)} (l : LoggedIn th) {d : ServerEvent τ P}
    (hd : d ∈ th.log) {T : τ} (h : d.Is .now T) : T = l.time := by
  rw [l.log_eq] at hd
  simp only [List.mem_cons, List.not_mem_nil, or_false] at hd
  rcases hd with rfl | rfl | rfl | rfl
  · cases h.cmd_eq.symm.trans l.found_is.cmd_eq
  · cases h.cmd_eq.symm.trans l.draw_is.cmd_eq
  · exact h.inj l.clock_is
  · cases h.cmd_eq.symm.trans l.stored_is.cmd_eq

theorem LoggedIn.stored_eq {th : Thread (server τ P)} (l l' : LoggedIn th) :
    l.stored = l'.stored := by
  have h := l.log_eq.symm.trans l'.log_eq
  simp only [List.cons.injEq, and_true] at h
  exact h.2.2.2

/-- The token of a login that returned, checked in the world its `SETEX` left. -/
theorem LoggedIn.alone_token {th : Thread (server τ P)} (l : LoggedIn th)
    (hcodec : l.toIssued.Codec) (w : World τ) :
    (machine τ P.lib).alone .done w (P.auth.verifyToken l.token) =
      some (.ret (if truncate (l.time + (tokenTtlSeconds : τ)) < truncate w.now then none
        else if w.live l.key = some (toDecimal l.user.id) then some (toDecimal l.user.id)
        else none), w) := by
  have hp : P.auth.payload l.token =
      some (AuthManager.payloadAt (toDecimal l.user.id) (hex l.drawn) l.time) :=
    hcodec.payload_eq
  rw [alone_verifyToken hp, AuthManager.payloadAt, AuthManager.readPayload_tokenPayload]
  by_cases hexp : truncate (l.time + (tokenTtlSeconds : τ)) < truncate w.now
  · simp only [if_pos hexp]
  · simp only [if_neg hexp]
    rfl

/-- A login that does not return success writes nothing to Redis. -/
theorem redis_eq_of_failure {th : Thread (server τ P)}
    (hp : Path (P.program th.req) th.log th.rest) {username password : Bytes}
    (hreq : th.req = .login username password)
    (hfail : ∀ r, th.rest = .ret (.auth r) → r.success = false) :
    ∀ e ∈ th.log, e.post = e.pre := by
  intro e he
  have hreal := hp.real e he
  rcases (Path.only hp (App.program_within P th.req)).1 e he with hnone | hstore
  · exact exec_none (L := P.lib) hreal hnone
  · rw [hreq] at hstore
    obtain ⟨l, -⟩ := loggedIn_of_store hp he hstore
    cases hfail _ l.returned

/-- **When a login keeps its promise.**  Session ids being fresh and the store holding no
session at first, a login that has ended keeps its promise exactly when its session
was stored in time. -/
theorem login_keepsPromise_iff {w : World τ} (hw : w.NoSessions) {c : Config (server τ P)}
    (hrun : Reach FreshIds (Config.fresh w) c) {i : Nat} {th : Thread (server τ P)}
    (hi : c.threads[i]? = some th) (hcodec : ∀ l : Issued th, l.Codec) {username password : Bytes}
    (hreq : th.req = .login username password) : KeepsPromise th ↔ StoredInTime th := by
  have hp := hrun.path_at hi
  constructor
  · intro h e he hstore
    obtain ⟨l, rfl⟩ := loggedIn_of_store hp he hstore
    obtain ⟨l', -, -, hlive, halone⟩ := h.success _ l.returned rfl
    have hkey : sessionKey l'.sessionId = l.key := by
      rw [LoggedIn.key, Issued.sessionId, Issued.sessionId, (l.toIssued.unique l'.toIssued).2.1]
    rw [l'.stored_eq l, hkey] at hlive
    rw [l'.stored_eq l, l.alone_token (hcodec _)] at halone
    have hpost := l.post_eq hp
    have hnow : l.stored.post.now = l.stored.pre.now :=
      exec_now (exec_of_mem hp l.mem_stored l.stored_is)
    refine ⟨?_, fun d hd T hT => ?_⟩
    · by_contra hran
      rw [hpost, if_neg hran, World.live, key_unused hrun hw (fun _ _ h => h) hi l] at hlive
      cases hlive
    · rw [l.clock_time hd hT, ← hnow]
      by_contra hlate
      rw [if_pos (not_le.mp hlate)] at halone
      cases halone
  · intro h
    refine ⟨fun r hret hr => ?_, fun hfail e he => by rw [redis_eq_of_failure hp hreq hfail e he]⟩
    obtain ⟨l, rfl⟩ := loggedIn_of_success hp hreq hret hr
    obtain ⟨hran, htime⟩ := h l.stored l.mem_stored (by rw [l.stored_is.cmd_eq]; rfl)
    have hpost := l.post_eq hp
    rw [if_pos hran] at hpost
    have hnow : l.stored.post.now = l.stored.pre.now := by
      rw [hpost]
      rfl
    have hlive : l.stored.post.live l.key = some (toDecimal l.user.id) := by
      rw [hpost]
      exact live_withSession l.stored.pre l.user l.drawn
    have hin : truncate l.stored.pre.now ≤ truncate (l.time + (tokenTtlSeconds : τ)) :=
      htime l.clock (by simp [l.log_eq]) l.time l.clock_is
    refine ⟨l, rfl, (hcodec l.toIssued).sessionOf_eq, hlive, ?_⟩
    rw [l.alone_token (hcodec _), hnow, if_neg (not_lt.mpr hin), if_pos hlive]

/-! ### A token stored, and one that was not -/

/-- The first account's login keeps its promise when Redis answers. -/
theorem login_keepsPromise_sample : KeepsPromise Sample.loginTh := by
  have hrun := Sample.reach_session (freshIds_login (by simp) (by simp))
  refine (login_keepsPromise_iff (P := Sample.app) (fun _ => rfl) hrun (i := 0) rfl
    (fun l => Sample.codec l.user.id l.drawn l.time) rfl).mpr ?_
  intro e he hstore
  obtain ⟨l, rfl⟩ := loggedIn_of_store
    (hrun.path (Config.fresh_sound Sample.world) Sample.loginTh (by simp)) he hstore
  have hlog : [l.found, l.draw, l.clock, l.stored] = Sample.events := l.log_eq.symm
  simp only [Sample.events, loginEvents, List.cons.injEq, and_true] at hlog
  refine ⟨by rw [hlog.2.2.2]; rfl, fun d hd T hT => ?_⟩
  have htime : l.time = 0 := by
    refine l.clock_is.inj ?_
    rw [hlog.2.2.1]
    exact ⟨_, _, _, rfl⟩
  rw [l.clock_time hd hT, htime, hlog.2.2.2]
  exact truncate_mono (by norm_num [tokenTtlSeconds, Sample.world])

/-- **A login that hands out a dead token.**  Redis refuses the `SETEX`; the login returns
success, the store is empty, and the token is not let in. -/
theorem login_refused :
    ∃ (c : Config (server ℚ Sample.app)) (th : Thread (server ℚ Sample.app)) (r : AuthResult),
      Reach (fun _ _ => True) (Config.fresh Sample.world) c ∧ c.threads[0]? = some th ∧
      th.req = .login Sample.username Sample.password ∧ th.rest = .ret (.auth r) ∧
      r.success = true ∧ (∀ key, c.world.redis key = none) ∧
      (machine ℚ Sample.lib).alone .done c.world (Sample.auth.verifyToken r.token) =
        some (.ret none, c.world) := by
  have hlogin : Reach (fun _ _ => True) (Config.fresh Sample.world) ⟨Sample.world, [] ++
      [loginThread Sample.app Sample.world Sample.username Sample.password Sample.user Sample.draw
        .refused (some .error) Sample.world]⟩ :=
    reach_login Sample.username_text Sample.byName_username Sample.password_ok (by decide) rfl
      .always
  refine ⟨_, _, _, hlogin, rfl, rfl, rfl, rfl, fun _ => rfl, ?_⟩
  have halone := alone_verifyToken (P := Sample.app) Sample.payload_token Sample.world
  rw [show truncate Sample.world.now = truncate (0 : ℚ) from rfl,
    Sample.readPayload_token] at halone
  exact halone

end PqcApi
