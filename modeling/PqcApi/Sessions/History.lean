/-
Where the sessions in Redis come from, and who draws which id.

Two invariants of every run.  Each entry under a session key was written by one login
that returned success, and is exactly what that login wrote.  If session ids are
fresh, no two threads draw the same one, so the login behind a key is the only one.
-/
import PqcApi.Sessions.Paths

namespace PqcApi

open Concurrent

variable {τ : Type} [Field τ] [LinearOrder τ] [FloorRing τ] {P : App}

/-! ### Assumptions on runs -/

/-- Redis holds no session. -/
def World.NoSessions (w : World τ) : Prop := ∀ sid, w.redis (sessionKey sid) = none

/-- Session ids are fresh: what a login draws has not been drawn before. -/
def FreshIds (c : Config (server τ P)) (s : Step (server τ P)) : Prop :=
  ∀ i b th k, s = .run i (.random b) → c.threads[i]? = some th → th.rest = .call .randombytes k →
    ∀ th' ∈ c.threads, ∀ e ∈ th'.log, e.cmd = .randombytes → e.choice ≠ .random b

/-- The token a request presents. -/
def Request.presents : Request → Option Bytes
  | .registerUser .. => none
  | .login .. => none
  | .verifyToken token => some token
  | .logout token => some token
  | .usersLogout req => bearerToken req.authorization
  | .sign req => bearerToken req.authorization
  | .list req => bearerToken req.authorization
  | .download req _ => bearerToken req.authorization
  | .verify req _ => bearerToken req.authorization
  | .remove req _ => bearerToken req.authorization

/-- Nobody but `buildToken` makes a MAC: whoever presents a token that verifies presents a
text that some login has signed. -/
def Unforgeable (c : Config (server τ P)) (s : Step (server τ P)) : Prop :=
  ∀ r token seg, s = .start r → r.presents = some token →
    AuthManager.segments token = some seg → P.auth.Verifies seg →
    ∃ th ∈ c.threads, ∃ l : Issued th, l.segments.signingInput = seg.signingInput

/-! ### Entries come from logins -/

/-- Some login that returned success wrote this entry under this key. -/
def StoredBy (c : Config (server τ P)) (key : Bytes) (e : Entry) : Prop :=
  ∃ (i : Nat) (th : Thread (server τ P)), c.threads[i]? = some th ∧ ∃ l : LoggedIn th,
    l.stored.choice.ran = true ∧ l.key = key ∧ l.entry = e

theorem StoredBy.later {ok : Config (server τ P) → Step (server τ P) → Prop}
    {a c : Config (server τ P)} {key : Bytes} {e : Entry} (h : StoredBy a key e)
    (hac : Reach ok a c) : StoredBy c key e := by
  obtain ⟨i, th, hth, l, hl⟩ := h
  exact ⟨i, th, hac.thread_done hth l.done, l, hl⟩

/-- **Every session in Redis is one a login wrote.** -/
theorem redis_storedBy {ok : Config (server τ P) → Step (server τ P) → Prop} {w : World τ}
    {c : Config (server τ P)} (h : Reach ok (Config.fresh w) c) (hw : w.NoSessions) :
    ∀ sid e, c.world.redis (sessionKey sid) = some e → StoredBy c (sessionKey sid) e := by
  induction h with
  | refl =>
      intro sid e he
      have hnone := hw sid
      rw [show (Config.fresh w : Config (server τ P)).world = w from rfl, hnone] at he
      cases he
  | @tail b c s hab hok hs ih =>
      intro sid e he
      have keep : b.world.redis (sessionKey sid) = some e → StoredBy c (sessionKey sid) e :=
        fun hb => (ih sid e hb).later ((Reach.refl b).tail hok hs)
      have hsound := (hab.tail hok hs).path (Config.fresh_sound w)
      rcases Config.next_cases hs with ⟨m, w', -, hm, rfl⟩ | ⟨r, -, rfl⟩ |
        ⟨i, ch, req, cmd, k, log, r, w', -, hi, hx, rfl⟩
      · rcases move_redis hm with ⟨d, -, -, rfl⟩ | ⟨key, -, rfl⟩ | ⟨hr, -⟩
        · exact keep he
        · by_cases hkey : sessionKey sid = key
          · rw [hkey, put_self] at he
            cases he
          · rw [put_other _ _ hkey] at he
            exact keep he
        · rw [hr] at he
          exact keep he
      · exact keep he
      · have hlt : i < b.threads.length := (List.getElem?_eq_some_iff.mp hi).1
        rcases exec_redis hx with hr | ⟨key, ttl, value, rfl, -⟩ | ⟨key, -, rfl⟩
        · rw [hr] at he
          exact keep he
        · rw [exec_setex (L := P.lib) hx] at he
          by_cases hran : ch.ran = true
          · rw [if_pos hran] at he
            by_cases hkey : sessionKey sid = key
            · -- the entry is the one just written
              have hth := List.getElem?_set_self (a := (⟨req, k r, log ++
                [⟨.setex key ttl value, ch, b.world, r, w'⟩]⟩ : Thread (server τ P))) hlt
              obtain ⟨l, hl⟩ := loggedIn_of_store (hsound _ (List.mem_of_getElem? hth))
                (e := ⟨.setex key ttl value, ch, b.world, r, w'⟩) (by simp) rfl
              have hcmd := l.stored_is.cmd_eq
              rw [hl] at hcmd
              obtain ⟨hk, httl, hv⟩ := Cmd.setex.inj hcmd
              refine ⟨i, _, hth, l, by rw [hl]; exact hran, (hkey.trans hk).symm, ?_⟩
              rw [hkey, put_self, Option.some.injEq] at he
              rw [← he, LoggedIn.entry, hl, ← hv, ← httl]
            · rw [put_other _ _ hkey] at he
              exact keep he
          · rw [if_neg hran] at he
            exact keep he
        · by_cases hkey : sessionKey sid = key
          · rw [hkey, put_self] at he
            cases he
          · rw [put_other _ _ hkey] at he
            exact keep he

/-! ### Session ids are drawn once -/

/-- Thread `th` has drawn `b` for a session id. -/
def Draws (th : Thread (server τ P)) (b : Bytes) : Prop :=
  ∃ e ∈ th.log, e.cmd = .randombytes ∧ e.choice = .random b

theorem Issued.draws {th : Thread (server τ P)} (l : Issued th)
    (hp : Path (P.program th.req) th.log th.rest) : Draws th l.drawn := by
  have hmem : l.draw ∈ th.log := by
    rw [l.log]
    simp
  refine ⟨l.draw, hmem, l.draw_is.cmd_eq, ?_⟩
  have hx := exec_of_mem hp hmem l.draw_is
  simp only [exec] at hx
  split at hx
  · rename_i b hb
    split at hx
    · rw [hb, (Prod.mk.inj (Option.some.inj hx)).1]
    · cases hx
  · cases hx

/-- A draw is an old one, or the step's. -/
theorem draws_next {c c' : Config (server τ P)} {s : Step (server τ P)} (hs : c.next s = some c')
    {i : Nat} {th : Thread (server τ P)} (hi : c'.threads[i]? = some th) {b : Bytes}
    (hb : Draws th b) :
    (∃ th₀, c.threads[i]? = some th₀ ∧ Draws th₀ b) ∨
    (∃ th₀ k, s = .run i (.random b) ∧ c.threads[i]? = some th₀ ∧
      th₀.rest = .call .randombytes k) := by
  rcases Config.thread_was hs hi with hold | ⟨r, -, -, rfl⟩ |
    ⟨ch, req, cmd, k, log, r, rfl, hi₀, -, rfl⟩
  · exact Or.inl ⟨th, hold, hb⟩
  · obtain ⟨e, he, -⟩ := hb
    cases he
  · obtain ⟨e, he, hcmd, hch⟩ := hb
    rcases List.mem_append.mp he with hold | hnew
    · exact Or.inl ⟨_, hi₀, e, hold, hcmd, hch⟩
    · rw [List.mem_singleton.mp hnew] at hcmd hch
      subst hcmd
      exact Or.inr ⟨_, k, by rw [← hch], hi₀, rfl⟩

/-- **Fresh ids are drawn by one thread each.** -/
theorem draws_unique {ok : Config (server τ P) → Step (server τ P) → Prop} {w : World τ}
    {c : Config (server τ P)} (h : Reach ok (Config.fresh w) c)
    (hok : ∀ c s, ok c s → FreshIds c s) {b : Bytes} :
    ∀ {i j : Nat} {th th' : Thread (server τ P)}, c.threads[i]? = some th →
      c.threads[j]? = some th' → Draws th b → Draws th' b → i = j := by
  induction h with
  | refl =>
      intro i j th th' hi
      simp [Config.fresh] at hi
  | @tail d c s hd hallowed hs ih =>
      have hfresh := hok _ _ hallowed
      intro i j th th' hi hj hb hb'
      rcases draws_next hs hi hb with ⟨t, hi₀, ht⟩ | ⟨t, k, hrun, hi₀, hk⟩
      · rcases draws_next hs hj hb' with ⟨t', hj₀, ht'⟩ | ⟨t', k', hrun', hj₀, hk'⟩
        · exact ih hi₀ hj₀ ht ht'
        · obtain ⟨e, he, hcmd, hch⟩ := ht
          exact absurd hch (hfresh j b t' k' hrun' hj₀ hk' t (List.mem_of_getElem? hi₀) e he hcmd)
      · rcases draws_next hs hj hb' with ⟨t', hj₀, e, he, hcmd, hch⟩ | ⟨t', k', hrun', -, -⟩
        · exact absurd hch (hfresh i b t k hrun hi₀ hk t' (List.mem_of_getElem? hj₀) e he hcmd)
        · rw [hrun] at hrun'
          cases hrun'
          rfl

/-- Two issued tokens with one session id are one token. -/
theorem issued_unique {ok : Config (server τ P) → Step (server τ P) → Prop} {w : World τ}
    {c : Config (server τ P)} (h : Reach ok (Config.fresh w) c)
    (hok : ∀ c s, ok c s → FreshIds c s) {i j : Nat} {th th' : Thread (server τ P)}
    (hi : c.threads[i]? = some th) (hj : c.threads[j]? = some th') (l : Issued th)
    (l' : Issued th') (hid : l.drawn = l'.drawn) : i = j := by
  have hpath := h.path (Config.fresh_sound w)
  have hd := l.draws (hpath th (List.mem_of_getElem? hi))
  have hd' := l'.draws (hpath th' (List.mem_of_getElem? hj))
  rw [← hid] at hd'
  exact draws_unique h hok hi hj hd hd'

/-- **Nobody has written to a login's key before it.** -/
theorem key_unused {ok : Config (server τ P) → Step (server τ P) → Prop} {w : World τ}
    {c : Config (server τ P)} (h : Reach ok (Config.fresh w) c) (hw : w.NoSessions)
    (hok : ∀ c s, ok c s → FreshIds c s) {i : Nat} {th : Thread (server τ P)}
    (hi : c.threads[i]? = some th) (l : LoggedIn th) : l.stored.pre.redis l.key = none := by
  obtain ⟨b, b', hm⟩ := h.moment [l.found, l.draw, l.clock] [] hi l.log_eq
    (by simp)
  obtain ⟨k, hb, -⟩ := hm.thread
  cases he : l.stored.pre.redis l.key with
  | none => rfl
  | some e =>
      rw [← hm.pre] at he
      obtain ⟨j, th', hj, l', -, hkey, -⟩ := redis_storedBy hm.reach hw l.sessionId e he
      let l₀ : Issued (⟨th.req, .call l.stored.cmd k, [l.found, l.draw, l.clock]⟩ :
        Thread (server τ P)) := { l.toIssued with rest := [], log := rfl }
      have hij : i = j := issued_unique hm.reach hok hb hj l₀ l'.toIssued
        (sessionKey_hex_inj hkey).symm
      rw [← hij, hb, Option.some.injEq] at hj
      have hdone := l'.done
      rw [← hj] at hdone
      exact hdone.elim

end PqcApi
