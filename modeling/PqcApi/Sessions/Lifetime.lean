/-
How long a session lives.

A token has two ends of life: its `exp`, in whole seconds, and the expiry of its Redis
key, in milliseconds and counted from the later moment at which the login stored it.
So the key outlives the token, and with fresh ids nothing but a logout of the
same session takes it away.
-/
import PqcApi.Sessions.Handout
import PqcApi.Sessions.Revocation

namespace PqcApi

open Concurrent

variable {τ : Type} [Field τ] [LinearOrder τ] [IsStrictOrderedRing τ] [FloorRing τ] {P : App}

/-- A command to Redis. -/
def Cmd.isRedis : Cmd → Bool
  | .setex .. => true
  | .get _ => true
  | .del _ => true
  | _ => false

/-- Redis does what it is asked, and drops a key only when it has expired. -/
def Steady (c : Config (server τ P)) (s : Step (server τ P)) : Prop :=
  (∀ i ch th cmd k, s = .run i ch → c.threads[i]? = some th → th.rest = .call cmd k →
    cmd.isRedis = true → ch = .done) ∧
  ∀ key, s = .move (.drop key) → c.world.live key = none

omit [IsStrictOrderedRing τ] in
/-- Only a logout of the session deletes its key. -/
theorem revokes_of_del {th : Thread (server τ P)} (hp : Path (P.program th.req) th.log th.rest)
    {e : ServerEvent τ P} (he : e ∈ th.log) {key : Bytes} (hc : e.cmd = .del key) :
    ∃ token sid, th.req.revokes = some token ∧ P.auth.sessionOf token = some sid ∧
      key = sessionKey sid := by
  have heff : th.req.effect = .revoke := by
    rcases (Path.only hp (App.program_within P th.req)).1 e he with hnone | heff
    · rw [hc] at hnone
      cases hnone
    · rw [← heff, hc]
      rfl
  have other : ∀ {c : Cmd} {r : Reply τ c}, (∀ k, c ≠ .del k) → ∀ d : ServerEvent τ P,
      d.Is c r → e ≠ d := by
    rintro c r hne d hd rfl
    exact hne key (hd.cmd_eq.symm.trans hc)
  cases htoken : th.req.revokes with
  | none =>
      -- a logout request without a token issues nothing
      obtain ⟨out, hprog⟩ : ∃ out, (P.program th.req : Action τ Result) = .ret out :=
        program_revokes_none heff htoken
      rw [hprog] at hp
      rw [(path_ret.mp hp).1] at he
      exact absurd he (by simp)
  | some token =>
      rcases logout_path htoken hp with ⟨-, hl, -⟩ | ⟨p, hpay, ⟨hl, -⟩ | ⟨e₁, now, h₁, hrest⟩⟩
      · rw [hl] at he
        exact absurd he (by simp)
      · rw [hl] at he
        exact absurd he (by simp)
      · rcases hrest with ⟨-, hl, -⟩ | ⟨userId, sid, hread, ⟨hl, -⟩ | ⟨e₂, reply, h₂, hl, -⟩⟩
        · rw [hl, List.mem_singleton] at he
          exact absurd he (other (by simp) e₁ h₁)
        · rw [hl, List.mem_singleton] at he
          exact absurd he (other (by simp) e₁ h₁)
        · rw [hl] at he
          have heq : e = e₂ := by simpa [other (by simp) e₁ h₁] using he
          refine ⟨token, sid, rfl, AuthManager.sessionOf_read hpay hread, ?_⟩
          rw [heq, h₂.cmd_eq] at hc
          exact (Cmd.del.inj hc).symm

/-- No logout has been called on a token with this key's session. -/
def NotRevoked (c : Config (server τ P)) (key : Bytes) : Prop :=
  ∀ th ∈ c.threads, ∀ token sid, th.req.revokes = some token →
    P.auth.sessionOf token = some sid → sessionKey sid ≠ key

omit [IsStrictOrderedRing τ] in
theorem NotRevoked.earlier {c c' : Config (server τ P)} {s : Step (server τ P)} {key : Bytes}
    (h : NotRevoked c' key) (hs : c.next s = some c') : NotRevoked c key := by
  intro th hth token sid hreq
  obtain ⟨i, hi⟩ := List.mem_iff_getElem?.mp hth
  obtain ⟨th', hi', hreq', -⟩ := Config.next_thread hs hi
  exact h th' (List.mem_of_getElem? hi') token sid (by rw [hreq']; exact hreq)

omit [IsStrictOrderedRing τ] in
theorem NotRevoked.before {ok : Config (server τ P) → Step (server τ P) → Prop}
    {a c : Config (server τ P)} {key : Bytes} (hac : Reach ok a c) (h : NotRevoked c key) :
    NotRevoked a key := by
  induction hac with
  | refl => exact h
  | tail _ _ hs ih => exact ih (h.earlier hs)

/-- The session of login `i` is in Redis, unless it has expired. -/
structure Kept (c : Config (server τ P)) (i : Nat) {th : Thread (server τ P)} (l : LoggedIn th) :
    Prop where
  thread : c.threads[i]? = some th
  entry : NotRevoked c l.key → c.world.redis l.key = some l.entry ∨
    l.entry.expireMs < c.world.nowMs

/-- **A step keeps a session.** -/
theorem Kept.next {w : World τ} {ok : Config (server τ P) → Step (server τ P) → Prop}
    (hsteady : ∀ c s, ok c s → Steady c s) (hfresh : ∀ c s, ok c s → FreshIds c s)
    {c c' : Config (server τ P)} (hrun : Reach ok (Config.fresh w) c) {s : Step (server τ P)}
    (hallowed : ok c s) (hs : c.next s = some c') {i : Nat} {th : Thread (server τ P)}
    {l : LoggedIn th} (h : Kept c i l) : Kept c' i l := by
  have hrun' := hrun.tail hallowed hs
  have hpaths := hrun'.path (Config.fresh_sound w)
  have hi' : c'.threads[i]? = some th := by
    obtain ⟨th', hth', hcont⟩ := Config.next_thread hs h.thread
    rw [hth', hcont.eq_of_done l.done]
  refine ⟨hi', fun hnot => ?_⟩
  have hms := nowMs_le (now_le_next hs)
  have same : c'.world.redis = c.world.redis → c'.world.redis l.key = some l.entry ∨
      l.entry.expireMs < c'.world.nowMs := by
    intro hr
    rcases h.entry (hnot.earlier hs) with hin | hexp
    · exact Or.inl (by rw [hr]; exact hin)
    · exact Or.inr (lt_of_lt_of_le hexp hms)
  have other : ∀ {key : Bytes} {e : Option Entry}, c'.world.redis = (c.world.put key e).redis →
      l.key ≠ key → c'.world.redis l.key = some l.entry ∨ l.entry.expireMs < c'.world.nowMs := by
    intro key e hr hne
    rcases h.entry (hnot.earlier hs) with hin | hexp
    · exact Or.inl (by rw [hr, put_other _ _ hne]; exact hin)
    · exact Or.inr (lt_of_lt_of_le hexp hms)
  rcases Config.next_cases hs with ⟨m, w', rfl, hm, rfl⟩ | ⟨r, -, rfl⟩ |
    ⟨j, ch, req, cmd, k, log, r, w', rfl, hj, hx, rfl⟩
  · rcases move_redis hm with ⟨d, -, -, rfl⟩ | ⟨key, rfl, rfl⟩ | ⟨hr, -⟩
    · exact same rfl
    · by_cases hkey : l.key = key
      · -- only an expired key is dropped
        refine Or.inr ?_
        have hdead := live_eq_none.mp ((hsteady _ _ hallowed).2 key rfl)
        rcases h.entry (hnot.earlier hs) with hin | hexp
        · exact lt_of_lt_of_le (hdead _ (hkey ▸ hin)) hms
        · exact lt_of_lt_of_le hexp hms
      · exact other rfl hkey
    · exact same hr
  · exact same rfl
  · have hlt : j < c.threads.length := (List.getElem?_eq_some_iff.mp hj).1
    have hth := List.getElem?_set_self (a := (⟨req, k r, log ++ [⟨cmd, ch, c.world, r, w'⟩]⟩ :
      Thread (server τ P))) hlt
    rcases exec_redis (L := P.lib) hx with hr | ⟨key, ttl, value, rfl, rfl⟩ | ⟨key, rfl, rfl⟩
    · exact same hr
    · refine other rfl fun hkey => ?_
      -- another login would have drawn the same id
      obtain ⟨l', hl'⟩ := loggedIn_of_store (hpaths _ (List.mem_of_getElem? hth))
        (List.mem_append_right log (List.mem_singleton_self _)) rfl
      have hcmd := l'.stored_is.cmd_eq
      rw [hl'] at hcmd
      have hdrawn : l'.drawn = l.drawn :=
        sessionKey_hex_inj ((hkey.trans (Cmd.setex.inj hcmd).1).symm)
      have hji : j = i := issued_unique hrun' hfresh hth hi' l'.toIssued l.toIssued hdrawn
      rw [hji, h.thread, Option.some.injEq] at hj
      have hdone := l.done
      rw [hj] at hdone
      exact hdone.elim
    · refine other rfl fun hkey => ?_
      obtain ⟨token, sid, hreq, hsid, hk⟩ := revokes_of_del (hpaths _ (List.mem_of_getElem? hth))
        (List.mem_append_right log (List.mem_singleton_self _)) rfl
      exact hnot _ (List.mem_of_getElem? hth) token sid hreq hsid (hk.symm.trans hkey.symm)

/-- When a login has returned, its session is kept. -/
theorem kept_of_loggedIn {w : World τ} {ok : Config (server τ P) → Step (server τ P) → Prop}
    (hsteady : ∀ c s, ok c s → Steady c s) (hfresh : ∀ c s, ok c s → FreshIds c s)
    {c : Config (server τ P)} (hrun : Reach ok (Config.fresh w) c) {i : Nat}
    {th : Thread (server τ P)} (hi : c.threads[i]? = some th) (l : LoggedIn th) : Kept c i l := by
  have hp := hrun.path_at hi
  obtain ⟨b, b', hm⟩ := hrun.moment [l.found, l.draw, l.clock] [] hi l.log_eq
    (by simp)
  obtain ⟨k, hb, hb'⟩ := hm.thread
  have hreach : Reach ok (Config.fresh w) b' := hm.reach.tail hm.allowed hm.next
  -- the login returned in this step
  obtain ⟨l₁, -⟩ := loggedIn_of_store (hreach.path_at hb') (e := l.stored) (by simp)
      (by rw [l.stored_is.cmd_eq]; rfl)
  have hb'th : b'.threads[i]? = some th :=
    hb'.trans ((hm.later.thread_done hb' l₁.done).symm.trans hi)
  have hran : l.stored.choice.ran = true := by
    rw [(hsteady _ _ hm.allowed).1 i _ _ _ k rfl hb rfl (by rw [l.stored_is.cmd_eq]; rfl)]
    rfl
  have hstart : Kept b' i l := by
    refine ⟨hb'th, fun _ => Or.inl ?_⟩
    rw [hm.post, l.post_eq hp, if_pos hran, put_self]
  have hkept : Kept c i l ∧ Reach ok (Config.fresh w) c :=
    hm.later.invariant (I := fun c => Kept c i l ∧ Reach ok (Config.fresh w) c)
      ⟨hstart, hreach⟩ fun hI hok hs =>
        ⟨hI.1.next hsteady hfresh hI.2 hok hs, hI.2.tail hok hs⟩
  exact hkept.1

/-- A kept session stays kept. -/
theorem Kept.later {w : World τ} {ok : Config (server τ P) → Step (server τ P) → Prop}
    (hsteady : ∀ c s, ok c s → Steady c s) (hfresh : ∀ c s, ok c s → FreshIds c s)
    {b c : Config (server τ P)} (hrun : Reach ok (Config.fresh w) b) (hbc : Reach ok b c) {i : Nat}
    {th : Thread (server τ P)} {l : LoggedIn th} (h : Kept b i l) : Kept c i l :=
  kept_of_loggedIn hsteady hfresh (hrun.trans hbc) (hbc.thread_done h.thread l.done) l

/-- The clock a login read for its token is not later than its `SETEX`. -/
theorem LoggedIn.time_le {w : World τ} {ok : Config (server τ P) → Step (server τ P) → Prop}
    {c : Config (server τ P)} (hrun : Reach ok (Config.fresh w) c) {i : Nat}
    {th : Thread (server τ P)} (hi : c.threads[i]? = some th) (l : LoggedIn th) :
    l.time ≤ l.stored.pre.now := by
  have hp := hrun.path_at hi
  have hasc := hrun.ascends (R := fun w w' : World τ => w.now ≤ w'.now) (fun _ => le_refl _)
    (fun _ _ _ => le_trans) (fun _ hs => now_le_next hs) (Nat.zero_le i) hi
  rw [l.log_eq] at hasc
  obtain ⟨-, -, -, -, -, hclock, hstored, -⟩ := hasc
  have hread := exec_of_mem hp (by simp [l.log_eq]) l.clock_is
  simp only [exec] at hread
  split at hread
  · rw [← (Prod.mk.inj (Option.some.inj hread)).1]
    exact le_trans hclock hstored
  · cases hread

/-- The key of a session outlives its token. -/
theorem LoggedIn.expire_le {th : Thread (server τ P)} (l : LoggedIn th) {g : World τ}
    (htime : l.time ≤ l.stored.pre.now) (hg : g.now < l.time + (tokenTtlSeconds : τ)) :
    g.nowMs ≤ l.entry.expireMs := by
  have hle : g.now * 1000 ≤ l.stored.pre.now * 1000 + ((3600000 : Int) : τ) := by
    have h3600 : (tokenTtlSeconds : τ) = 3600 := by norm_num [tokenTtlSeconds]
    have h3600000 : ((3600000 : Int) : τ) = 3600 * 1000 := by norm_num
    rw [h3600] at hg
    rw [h3600000]
    linarith
  have hfloor := Int.floor_le_floor hle
  rw [Int.floor_add_intCast] at hfloor
  exact hfloor

/-- What a lookup of the session finds before the token expires. -/
theorem looked_up {w : World τ} {ok : Config (server τ P) → Step (server τ P) → Prop}
    (hsteady : ∀ c s, ok c s → Steady c s) (hfresh : ∀ c s, ok c s → FreshIds c s)
    {b c : Config (server τ P)} (hrun : Reach ok (Config.fresh w) b) (hbc : Reach ok b c) {i : Nat}
    {th : Thread (server τ P)} (hi : b.threads[i]? = some th) (l : LoggedIn th) {j : Nat}
    {th' : Thread (server τ P)} (hj : b.threads.length ≤ j) (hth' : c.threads[j]? = some th')
    {e₁ e₂ : ServerEvent τ P} (hl : th'.log = [e₁, e₂]) {reply : Option RedisReply}
    (h₂ : e₂.Is (.get l.key) reply) (htime : e₂.pre.now < l.time + (tokenTtlSeconds : τ))
    (hnot : NotRevoked c l.key) : reply = some (.string (toDecimal l.user.id)) := by
  have hp := (hrun.trans hbc).path_at hth'
  obtain ⟨before, d, d', hm⟩ := hbc.moment_late hj hth' (e := e₂) (by simp [hl])
  obtain ⟨k, hd, -⟩ := hm.thread
  have hdc : Reach ok d c := ((Reach.refl d).tail hm.allowed hm.next).trans hm.later
  have hkept := (kept_of_loggedIn hsteady hfresh hrun hi l).later hsteady hfresh hrun hm.reach
  have halive := l.expire_le (l.time_le hrun hi) htime
  have hlive : e₂.pre.live l.key = some (toDecimal l.user.id) := by
    rw [← hm.pre] at halive ⊢
    rcases hkept.entry (hnot.before hdc) with hin | hexp
    · rw [World.live, hin]
      exact if_pos halive
    · exact absurd hexp (not_lt.mpr halive)
  have hdone : e₂.choice = .done :=
    (hsteady _ _ hm.allowed).1 j _ _ _ k rfl hd rfl (by rw [h₂.cmd_eq]; rfl)
  have hx := exec_of_mem hp (by simp [hl]) h₂
  rw [hdone] at hx
  simp only [exec, redisCommand, Option.some.injEq, Prod.mk.injEq] at hx
  rw [← hx.1, getReply_eq_string.mpr hlive]

/-- What becomes of a token that is checked after its login. -/
theorem lifetime_of_loggedIn {w : World τ} {b c : Config (server τ P)}
    (hrun : Reach (fun c s => Steady c s ∧ FreshIds c s) (Config.fresh w) b)
    (hbc : Reach (fun c s => Steady c s ∧ FreshIds c s) b c) {i : Nat} {th : Thread (server τ P)}
    (hi : b.threads[i]? = some th) (l : LoggedIn th) (hcodec : l.toIssued.Codec) {j : Nat}
    {th' : Thread (server τ P)} (hj : b.threads.length ≤ j) (hth' : c.threads[j]? = some th')
    (hreq : th'.req = .verifyToken l.token) :
    ((∀ e ∈ th'.log, e.pre.now < l.time + (tokenTtlSeconds : τ)) → NotRevoked c l.key →
      th'.rest = .ret (.user (some (toDecimal l.user.id))) ∨
      (th'.log.length < 2 ∧ ∃ c', c.next (.run j .done) = some c')) ∧
    (∀ e ∈ th'.log, ∀ now, e.Is .now now →
      truncate (l.time + (tokenTtlSeconds : τ)) < truncate now → th'.rest = .ret (.user none)) := by
  have hp := (hrun.trans hbc).path_at hth'
  have hpay : P.auth.payload l.token =
      some (AuthManager.payloadAt (toDecimal l.user.id) (hex l.drawn) l.time) :=
    hcodec.payload_eq
  have hp' := hp
  rw [hreq] at hp'
  rcases verifyToken_path hp' with ⟨hnone, -, -⟩ | ⟨p, hpay', ⟨hl, k, hq⟩ | ⟨e₁, now, h₁, hrest⟩⟩
  · rw [hpay] at hnone
    cases hnone
  · -- the clock has not been read yet
    refine ⟨fun _ _ => Or.inr ⟨by simp [hl], _, Config.next_run hth' hq (r := c.world.now) rfl⟩,
      fun e he => ?_⟩
    rw [hl] at he
    exact absurd he (by simp)
  · obtain rfl := Option.some.inj (hpay.symm.trans hpay')
    rw [AuthManager.payloadAt, AuthManager.readPayload_tokenPayload] at hrest
    by_cases hexp : truncate (l.time + (tokenTtlSeconds : τ)) < truncate now
    · -- the token is read as expired
      rcases hrest with ⟨-, hl, hq⟩ | ⟨_, _, hread, -⟩
      · refine ⟨fun htime => ?_, fun _ _ _ _ _ => hq⟩
        have hlt := htime e₁ (by simp [hl])
        rw [← exec_now_reply (exec_of_mem hp (by simp [hl]) h₁)] at hlt
        exact absurd (truncate_mono (le_of_lt hlt)) (not_le.mpr hexp)
      · rw [if_pos hexp] at hread
        cases hread
    · have hreads : ∀ e ∈ th'.log, ∀ n, e.Is .now n →
          truncate (l.time + (tokenTtlSeconds : τ)) < truncate n → e ≠ e₁ := by
        rintro e - n hn hlate rfl
        rw [hn.inj h₁] at hlate
        exact hexp hlate
      rcases hrest with ⟨hread, -⟩ | ⟨userId, sid, hread, hrest⟩
      · rw [if_neg hexp] at hread
        cases hread
      rw [if_neg hexp, Option.some.injEq, Prod.mk.injEq] at hread
      obtain ⟨rfl, rfl⟩ := hread
      rcases hrest with ⟨hl, k, hq⟩ | ⟨e₂, reply, h₂, hl, hq⟩
      · refine ⟨fun _ _ => Or.inr ⟨by simp [hl], _, Config.next_run hth' hq
          (r := some (c.world.getReply _)) rfl⟩, fun e he n hn hlate => ?_⟩
        exact absurd (List.mem_singleton.mp (hl ▸ he)) (hreads e he n hn hlate)
      · refine ⟨fun htime hnot => Or.inl ?_, fun e he n hn hlate => ?_⟩
        · -- the session is kept from the login's return to the lookup
          have hfind := looked_up (fun _ _ h => h.1) (fun _ _ h => h.2) hrun hbc hi l hj hth' hl h₂
            (htime e₂ (by simp [hl])) hnot
          rw [hq, if_pos hfind]
        · have hmem := he
          rw [hl] at hmem
          rcases List.mem_pair.mp hmem with heq | heq
          · exact absurd heq (hreads e he n hn hlate)
          · cases hn.cmd_eq.symm.trans (heq ▸ h₂.cmd_eq)

/-- **Sessions live their full time.**  In a run without Redis faults or evictions and
with fresh ids, take a login that had returned success in `b`, and a `verifyToken` on the
token it returned, started later.  If all its commands are issued before 3600 seconds have
passed since the token was built, and no logout has been called on a token with that session
id, it lets the token in as the login's user as soon as its commands are answered, which
they can be.  If the whole second it reads is past that of the expiry, it refuses. -/
theorem session_lifetime {w : World τ} {b c : Config (server τ P)}
    (hrun : Reach (fun c s => Steady c s ∧ FreshIds c s) (Config.fresh w) b)
    (hbc : Reach (fun c s => Steady c s ∧ FreshIds c s) b c) {i : Nat} {th : Thread (server τ P)}
    (hi : b.threads[i]? = some th) (hcodec : ∀ l : Issued th, l.Codec) {username password : Bytes}
    (hlogin : th.req = .login username password) {r : AuthResult} (hret : th.rest = .ret (.auth r))
    (hr : r.success = true) {j : Nat} {th' : Thread (server τ P)} (hj : b.threads.length ≤ j)
    (hth' : c.threads[j]? = some th') (hreq : th'.req = .verifyToken r.token) :
    ∃ l : LoggedIn th, r = ⟨true, toDecimal l.user.id, l.token, ""⟩ ∧
      ((∀ e ∈ th'.log, e.pre.now < l.time + (tokenTtlSeconds : τ)) → NotRevoked c l.key →
        th'.rest = .ret (.user (some r.userId)) ∨
        (th'.log.length < 2 ∧ ∃ c', c.next (.run j .done) = some c')) ∧
      (∀ e ∈ th'.log, ∀ now, e.Is .now now →
        truncate (l.time + (tokenTtlSeconds : τ)) < truncate now →
        th'.rest = .ret (.user none)) := by
  obtain ⟨l, rfl⟩ := loggedIn_of_success (hrun.path_at hi) hlogin hret hr
  exact ⟨l, rfl, lifetime_of_loggedIn hrun hbc hi l (hcodec _) hj hth' hreq⟩

/-! ### A session in its time -/

omit [IsStrictOrderedRing τ] in
theorem Allows.steady {w : World τ} {ths : List (Thread (server τ P))} {req : Request}
    {events : List (ServerEvent τ P)}
    (h : ∀ e ∈ events, e.cmd.isRedis = true → e.choice = .done) :
    Allows Steady w ths req events where
  start := ⟨by rintro _ _ _ _ _ ⟨⟩, by rintro _ ⟨⟩⟩
  run n e k hn := by
    refine ⟨?_, by rintro _ ⟨⟩⟩
    rintro i ch th cmd k' ⟨⟩ hth hrest hredis
    have hcmd := Allows.last_cmd hth hrest
    exact h e (List.mem_of_getElem? hn) (by rw [hcmd]; exact hredis)

/-- The first account's token, let in at the time it was issued. -/
theorem session_lifetime_sample :
    ∃ (c : Config (server ℚ Sample.app)) (th' : Thread (server ℚ Sample.app)),
      c.threads[1]? = some th' ∧ th'.req = .verifyToken Sample.token ∧
      th'.rest = .ret (.user (some (toDecimal Sample.user.id))) := by
  have hlogin := Sample.reach_session
    ((Allows.steady (by simp [Sample.events, loginEvents, Cmd.isRedis])).and
      (freshIds_login (by simp) (by simp)))
  have hverify := Sample.reach_verify Sample.session rfl [Sample.loginTh]
    ((Allows.steady (by simp [verifyThread])).and (Allows.freshIds (by simp [verifyThread])))
  obtain ⟨l, hr, hlife, -⟩ := session_lifetime (P := Sample.app) hlogin hverify (i := 0) rfl
    (fun l => Sample.codec l.user.id l.drawn l.time) rfl rfl rfl (j := 1) (le_refl _) rfl rfl
  have htime : l.time = 0 :=
    (l.toIssued.unique (loggedIn Sample.password_ok Sample.draw).toIssued).2.2
  have hsoon : ∀ e ∈ (verifyThread Sample.app Sample.session Sample.token
      (toDecimal Sample.user.id) (hex Sample.draw)).log,
      e.pre.now < l.time + ((tokenTtlSeconds : Int) : ℚ) := by
    have hnow : Sample.session.now < (0 : ℚ) + ((tokenTtlSeconds : Int) : ℚ) := by
      show (0 : ℚ) < _
      norm_num [tokenTtlSeconds]
    rw [htime]
    intro e he
    simp only [verifyThread, List.mem_cons, List.not_mem_nil, or_false] at he
    rcases he with rfl | rfl <;> exact hnow
  rcases hlife hsoon (by
    intro th hth token sid hreq
    simp only [List.mem_append, List.mem_singleton] at hth
    rcases hth with rfl | rfl <;> cases hreq) with hret | ⟨hlen, -⟩
  · exact ⟨⟨Sample.session, [Sample.loginTh] ++ [_]⟩, _, rfl, rfl, hret⟩
  · exact absurd hlen (by simp [verifyThread])

end PqcApi
