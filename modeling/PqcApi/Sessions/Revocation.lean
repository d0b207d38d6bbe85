/-
What a logout achieves.

`AuthManager::logout` does not look at what became of its `DEL`.  In a run in which
Redis executes every `DEL` of a session that is there, a logout that returned true
has ended the session for good: nothing but a `SETEX` of the same key could bring it
back.  When Redis refuses the `DEL`, the logout reports success all the same and the
token goes on being let in.
-/
import PqcApi.Sessions.Progress

namespace PqcApi

open Concurrent

variable {τ : Type} [Field τ] [LinearOrder τ] [IsStrictOrderedRing τ] [FloorRing τ] {P : App}

/-! ### Keys that hold nothing -/

omit [IsStrictOrderedRing τ] in
theorem live_eq_none {w : World τ} {key : Bytes} :
    w.live key = none ↔ ∀ e, w.redis key = some e → e.expireMs < w.nowMs := by
  unfold World.live
  cases h : w.redis key with
  | none => simp
  | some e => simp

theorem nowMs_le {w w' : World τ} (h : w.now ≤ w'.now) : w.nowMs ≤ w'.nowMs :=
  Int.floor_le_floor (by linarith)

omit [FloorRing τ] in
theorem now_le_move {w w' : World τ} {m : Move τ} (h : w.move m = some w') : w.now ≤ w'.now := by
  rcases move_redis h with ⟨d, -, hd, rfl⟩ | ⟨key, -, rfl⟩ | ⟨-, hnow⟩
  · exact le_add_of_nonneg_right hd
  · exact le_refl _
  · exact le_of_eq hnow.symm

/-- Time does not go back. -/
theorem now_le_next {c c' : Config (server τ P)} {s : Step (server τ P)} (hs : c.next s = some c') :
    c.world.now ≤ c'.world.now := by
  rcases Config.next_cases hs with ⟨m, w, -, hm, rfl⟩ | ⟨r, -, rfl⟩ |
    ⟨i, ch, req, cmd, k, log, r, w, -, -, hx, rfl⟩
  · exact now_le_move hm
  · exact le_refl _
  · exact le_of_eq (exec_now (L := P.lib) hx).symm

/-- Only a `SETEX` of the key puts something there. -/
theorem live_none_next {c c' : Config (server τ P)} {s : Step (server τ P)}
    (hs : c.next s = some c') {key : Bytes} (hdead : c.world.live key = none)
    (hset : ∀ i ch th ttl value k, s = .run i ch → c.threads[i]? = some th →
      th.rest ≠ .call (.setex key ttl value) k) :
    c'.world.live key = none := by
  have hms := nowMs_le (now_le_next hs)
  rw [live_eq_none] at hdead ⊢
  intro e he
  have keep : c.world.redis key = some e → e.expireMs < c'.world.nowMs :=
    fun h => lt_of_lt_of_le (hdead e h) hms
  have put : ∀ {k' : Bytes}, (c.world.put k' none).redis key = some e →
      e.expireMs < c'.world.nowMs := by
    intro k' h
    by_cases hkey : key = k'
    · rw [hkey, put_self] at h
      cases h
    · rw [put_other _ _ hkey] at h
      exact keep h
  rcases Config.next_cases hs with ⟨m, w, -, hm, rfl⟩ | ⟨r, -, rfl⟩ |
    ⟨i, ch, req, cmd, k, log, r, w, rfl, hi, hx, rfl⟩
  · rcases move_redis hm with ⟨d, -, -, rfl⟩ | ⟨k', -, rfl⟩ | ⟨hr, -⟩
    · exact keep he
    · exact put he
    · rw [hr] at he
      exact keep he
  · exact keep he
  · rcases exec_redis (L := P.lib) hx with hr | ⟨k', ttl, value, rfl, rfl⟩ | ⟨k', -, rfl⟩
    · rw [hr] at he
      exact keep he
    · by_cases hkey : key = k'
      · subst hkey
        exact absurd rfl (hset i ch _ ttl value k rfl hi)
      · rw [put_other _ _ hkey] at he
        exact keep he
    · exact put he

/-! ### Logging out -/

/-- Redis executes every `DEL` of a key that holds something. -/
def DelExecuted (c : Config (server τ P)) (s : Step (server τ P)) : Prop :=
  ∀ i ch th key k, s = .run i ch → c.threads[i]? = some th → th.rest = .call (.del key) k →
    c.world.live key ≠ none → ch.ran = true

/-- No login stores its session under a key that a logout has deleted. -/
def KeysNotReused (c : Config (server τ P)) (s : Step (server τ P)) : Prop :=
  ∀ i ch th key ttl value k, s = .run i ch → c.threads[i]? = some th →
    th.rest = .call (.setex key ttl value) k →
    ∀ th' ∈ c.threads, ∀ e ∈ th'.log, e.cmd ≠ .del key

/-- A key that a logout has deleted and that holds nothing. -/
structure Revoked (c : Config (server τ P)) (key : Bytes) : Prop where
  dead : c.world.live key = none
  deleted : ∃ (i : Nat) (th : Thread (server τ P)), c.threads[i]? = some th ∧
    ∃ e ∈ th.log, e.cmd = .del key

theorem Revoked.next {c c' : Config (server τ P)} {s : Step (server τ P)} {key : Bytes}
    (h : Revoked c key) (hok : KeysNotReused c s) (hs : c.next s = some c') : Revoked c' key := by
  obtain ⟨i, th, hi, e, he, hcmd⟩ := h.deleted
  refine ⟨live_none_next hs h.dead ?_, ?_⟩
  · intro j ch th' ttl value k hrun hj hrest
    exact hok j ch th' key ttl value k hrun hj hrest th (List.mem_of_getElem? hi) e he hcmd
  · obtain ⟨th', hi', -, ext, hlog, -⟩ := Config.next_thread hs hi
    exact ⟨i, th', hi', e, by rw [hlog]; exact List.mem_append_left _ he, hcmd⟩

/-- **Revoked sessions stay revoked.** -/
theorem Revoked.later {ok : Config (server τ P) → Step (server τ P) → Prop}
    (hok : ∀ c s, ok c s → KeysNotReused c s) {b c : Config (server τ P)} {key : Bytes}
    (h : Revoked b key) (hbc : Reach ok b c) : Revoked c key :=
  hbc.invariant (I := fun c => Revoked c key) h fun hb hs hn => hb.next (hok _ _ hs) hn

/-- A logout that returned true has revoked its session. -/
theorem revoked_of_logout {ok : Config (server τ P) → Step (server τ P) → Prop}
    (hdel : ∀ c s, ok c s → DelExecuted c s) (hkeys : ∀ c s, ok c s → KeysNotReused c s)
    {w : World τ} {c : Config (server τ P)} (hrun : Reach ok (Config.fresh w) c) {i : Nat}
    {th : Thread (server τ P)} {token : Bytes} (hi : c.threads[i]? = some th)
    (hreq : th.req.revokes = some token) (hret : th.rest = .ret (th.req.revoked true)) :
    ∃ sid, P.auth.sessionOf token = some sid ∧ Revoked c (sessionKey sid) := by
  have hp := hrun.path_at hi
  have hne : th.req.revoked true ≠ th.req.revoked false := by
    cases th.req <;> simp [Request.revoked, errorResponse]
  rcases logout_path hreq hp with ⟨-, -, hq⟩ | ⟨p, hpay, ⟨-, k, hq⟩ | ⟨e₁, now, -, hrest⟩⟩
  · rw [hret] at hq
    exact absurd (Program.ret.inj hq) hne
  · rw [hret] at hq
    cases hq
  · rcases hrest with ⟨-, -, hq⟩ | ⟨userId, sid, hread, ⟨-, hq⟩ | ⟨e₂, reply, h₂, hl, hq⟩⟩
    · rw [hret] at hq
      exact absurd (Program.ret.inj hq) hne
    · rw [hret] at hq
      cases hq
    · refine ⟨sid, AuthManager.sessionOf_read hpay hread, ?_⟩
      have hx := exec_del (exec_of_mem hp (by rw [hl]; simp) h₂)
      obtain ⟨ch, v, v', rfl⟩ := h₂
      obtain ⟨b, b', hm⟩ := hrun.moment [e₁] [] hi hl (by simp)
      obtain ⟨k, hb, hb'⟩ := hm.thread
      refine Revoked.later hkeys
        ⟨?_, i, _, hb', _, List.mem_append_right _ (List.mem_singleton_self _), rfl⟩ hm.later
      rw [hm.post, hx]
      by_cases hran : ch.ran = true
      · rw [if_pos hran, live_eq_none]
        intro e he
        rw [put_self] at he
        cases he
      · rw [if_neg hran]
        by_contra hlive
        refine hran (hdel _ _ hm.allowed i ch _ _ k rfl hb rfl ?_)
        rwa [hm.pre]

/-- **When a logout is effective.**  In a run in which Redis executes every `DEL` of a key
that holds something, and no login stores its session under a deleted key, a logout
that returned true leaves nothing under its session's key, and every `verifyToken`
started later on a token with that session id returns nothing. -/
theorem logout_effective {w : World τ} {b c : Config (server τ P)}
    (hrun : Reach (fun c s => DelExecuted c s ∧ KeysNotReused c s) (Config.fresh w) b)
    (hbc : Reach (fun c s => DelExecuted c s ∧ KeysNotReused c s) b c)
    {i : Nat} {th : Thread (server τ P)} {token sid : Bytes} (hi : b.threads[i]? = some th)
    (hreq : th.req.revokes = some token) (hret : th.rest = .ret (th.req.revoked true))
    (hsid : P.auth.sessionOf token = some sid) :
    b.world.live (sessionKey sid) = none ∧
    ∀ (j : Nat) (th' : Thread (server τ P)) (token' : Bytes), b.threads.length ≤ j →
      c.threads[j]? = some th' → th'.req = .verifyToken token' →
      P.auth.sessionOf token' = some sid → th'.rest.Done → th'.rest = .ret (.user none) := by
  obtain ⟨sid', hsid', hrev⟩ := revoked_of_logout (fun _ _ h => h.1) (fun _ _ h => h.2) hrun hi
    hreq hret
  obtain rfl := Option.some.inj (hsid.symm.trans hsid')
  refine ⟨hrev.dead, ?_⟩
  intro j th' token' hj hth' hreq' hsid'' hdone
  have hp := (hrun.trans hbc).path_at hth'
  have hp' := hp
  rw [hreq'] at hp
  rcases verifyToken_path hp with ⟨-, -, hq⟩ | ⟨p, hpay, ⟨-, k, hq⟩ | ⟨e₁, now, -, hrest⟩⟩
  · exact hq
  · rw [hq] at hdone
    exact hdone.elim
  · rcases hrest with ⟨-, -, hq⟩ | ⟨userId, sid', hread, ⟨-, k, hq⟩ | ⟨e₂, reply, h₂, hl, hq⟩⟩
    · exact hq
    · rw [hq] at hdone
      exact hdone.elim
    · -- the session was looked up after the logout had returned
      obtain rfl := Option.some.inj (hsid''.symm.trans (AuthManager.sessionOf_read hpay hread))
      obtain ⟨before, d, d', hm⟩ := hbc.moment_late hj hth' (e := e₂) (by simp [hl])
      have hdead := (hrev.later (fun _ _ h => h.2) hm.reach).dead
      rw [hm.pre] at hdead
      have hno : reply ≠ some (.string userId) := by
        rintro rfl
        rw [exec_get (exec_of_mem hp' (by rw [hl]; simp) h₂)] at hdead
        cases hdead
      rw [hq, if_neg hno]

/-! ### One session revoked, and one that was not -/

namespace Allows

variable {w : World τ} {ths : List (Thread (server τ P))} {req : Request}
  {events : List (ServerEvent τ P)}

omit [IsStrictOrderedRing τ] in
theorem delExecuted (h : ∀ e ∈ events, ∀ key, e.cmd = .del key → e.choice.ran = true) :
    Allows DelExecuted w ths req events where
  start := by rintro _ _ _ _ _ ⟨⟩
  run n e k hn := by
    rintro i ch th key k' ⟨⟩ hth hrest -
    have hcmd := Allows.last_cmd hth hrest
    exact h e (List.mem_of_getElem? hn) key hcmd

omit [IsStrictOrderedRing τ] in
theorem keysNotReused (h : ∀ e ∈ events, ∀ key ttl value, e.cmd = .setex key ttl value →
      (∀ th ∈ ths, ∀ d ∈ th.log, d.cmd ≠ .del key) ∧ ∀ d ∈ events, d.cmd ≠ .del key) :
    Allows KeysNotReused w ths req events where
  start := by rintro _ _ _ _ _ _ _ ⟨⟩
  run n e k hn := by
    rintro i ch th key ttl value k' ⟨⟩ hth hrest th' hth' d hd
    have hcmd := Allows.last_cmd hth hrest
    obtain ⟨hold, hown⟩ := h e (List.mem_of_getElem? hn) key ttl value hcmd
    rcases List.mem_append.mp hth' with hmem | hmem
    · exact hold th' hmem d hd
    · rw [List.mem_singleton.mp hmem] at hd
      exact hown d (List.mem_of_mem_take hd)

end Allows

/-- The first account logs in and out, and its token is refused. -/
theorem logout_effective_sample :
    ∃ (b c : Config (server ℚ Sample.app)) (th th' : Thread (server ℚ Sample.app)),
      b.threads[1]? = some th ∧ th.req = .logout Sample.token ∧ th.rest = .ret (.flag true) ∧
      c.threads[2]? = some th' ∧ th'.req = .verifyToken Sample.token ∧
      th'.rest = .ret (.user none) := by
  let key := sessionKey (hex Sample.draw)
  let ended := Sample.session.put key none
  let out := logoutThread Sample.app Sample.session Sample.token (hex Sample.draw) .done
    (some (.integer (if (Sample.session.live key).isSome then 1 else 0))) ended
  have hsid := AuthManager.sessionOf_read Sample.payload_token Sample.readPayload_token
  have hlogin := Sample.reach_session
    ((Allows.delExecuted (by simp [Sample.events, loginEvents, Choice.ran])).and
      (Allows.keysNotReused (by simp [Sample.events, loginEvents])))
  have hlogout := hlogin.trans (Sample.reach_revoke .done _ ended rfl
    ((Allows.delExecuted (by simp [logoutThread, Choice.ran])).and
      (Allows.keysNotReused (by simp [logoutThread]))))
  have hverify := Sample.reach_verify ended rfl ([Sample.loginTh] ++ [out])
    ((Allows.delExecuted (by simp [verifyThread])).and
      (Allows.keysNotReused (by simp [verifyThread])))
  obtain ⟨-, hnone⟩ := logout_effective (P := Sample.app) hlogout hverify (i := 1) rfl
    (show Request.revokes (.logout Sample.token) = some Sample.token from rfl) rfl hsid
  exact ⟨⟨ended, [Sample.loginTh] ++ [out]⟩, ⟨ended, [Sample.loginTh] ++ [out] ++ [_]⟩, out, _,
    rfl, rfl, rfl, rfl, rfl, hnone 2 _ Sample.token (le_refl _) rfl rfl hsid trivial⟩

/-- **A logout that reports success and revokes nothing.**  Redis refuses the `DEL`, as it
does while it cannot save its snapshot; `logout` returns true, and the token is let in. -/
theorem logout_refused :
    ∃ (b c : Config (server ℚ Sample.app)) (th th' : Thread (server ℚ Sample.app)),
      Reach (fun _ _ => True) (Config.fresh Sample.world) b ∧ Reach (fun _ _ => True) b c ∧
      b.threads[1]? = some th ∧ th.req = .logout Sample.token ∧ th.rest = .ret (.flag true) ∧
      b.threads.length = 2 ∧
      c.threads[2]? = some th' ∧ th'.req = .verifyToken Sample.token ∧
      th'.rest = .ret (.user (some (toDecimal Sample.user.id))) := by
  have hlogin := Sample.reach_session .always
  have hlogout := Sample.reach_revoke .refused (some .error) Sample.session rfl .always
  have hverify := Sample.reach_verify Sample.session rfl ([Sample.loginTh] ++ [logoutThread
    Sample.app Sample.session Sample.token (hex Sample.draw) .refused (some .error)
    Sample.session]) .always
  exact ⟨_, _, _, _, hlogin.trans hlogout, hverify, rfl, rfl, rfl, rfl, rfl, rfl,
    Sample.verify_session⟩

end PqcApi
