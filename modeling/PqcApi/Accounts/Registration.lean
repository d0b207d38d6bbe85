/-
Registering a name, with other requests in between.

`registerUser` looks the name up, hashes the password, and inserts.  The lookup and the
insert are two statements, and an insert that hits a conflict writes nothing and is no
error, so what its caller is told rests on the name being free when the insert runs.
Where that holds, and the column keeps the whole name, a registration that returned
success owns its row for good and is the only one of its name.
-/
import PqcApi.Concurrent.Linear
import PqcApi.Sessions.Progress

namespace PqcApi

open Concurrent

variable {τ : Type} [Field τ] [LinearOrder τ] [FloorRing τ] {P : App}

/-! ### What a registration has done -/

/-- **How far a registration can have come.** -/
theorem registerUser_path {username password : Bytes} {log : List (ServerEvent τ P)}
    {q : Action τ Result} (h : Path (P.program (.registerUser username password)) log q) :
    (log = [] ∧ ((∃ error, q = .ret (.auth (.failed error))) ∨
      ∃ k, q = .call (.userByName username) k)) ∨
    (∃ e₁, log = [e₁] ∧
      ((e₁.Is (.userByName username) none ∧ q = .throw .query) ∨
       (∃ user, e₁.Is (.userByName username) (some (some user)) ∧
        ∃ error, q = .ret (.auth (.failed error))) ∨
       (e₁.Is (.userByName username) (some none) ∧ ∃ k, q = .call (.pwhash password) k))) ∨
    (∃ e₁ e₂, e₁.Is (.userByName username) (some none) ∧
      ((log = [e₁, e₂] ∧ e₂.Is (.pwhash password) none ∧ ∃ x, q = .throw x) ∨
       (∃ hash, e₂.Is (.pwhash password) (some hash) ∧
        ((log = [e₁, e₂] ∧ ∃ k, q = .call (.insertUser username (cstr hash)) k) ∨
         (∃ e₃ saved, e₃.Is (.insertUser username (cstr hash)) saved ∧ log = [e₁, e₂, e₃] ∧
          q = .ret (.auth (if saved.isSome then ⟨true, username, [], ""⟩
            else .failed "Failed to save user"))))))) := by
  rw [App.program, AuthManager.registerUser_eq] at h
  by_cases hshort : username = [] ∨ password.length < 8
  · rw [if_pos hshort] at h
    obtain ⟨hl, hq⟩ := path_ret.mp h
    exact Or.inl ⟨hl, Or.inl ⟨_, hq⟩⟩
  · rw [if_neg hshort] at h
    rcases path_call.mp h with ⟨hl, hq⟩ | ⟨e₁, reply, rest₁, -, h₁, hl, hp₁⟩
    · exact Or.inl ⟨hl, Or.inr ⟨_, hq⟩⟩
    refine Or.inr ?_
    rcases reply with _ | (_ | user)
    · obtain ⟨rfl, hq⟩ := path_throw.mp hp₁
      exact Or.inl ⟨e₁, hl, Or.inl ⟨h₁, hq⟩⟩
    · rcases path_call.mp hp₁ with ⟨rfl, hq⟩ | ⟨e₂, hash, rest₂, -, h₂, rfl, hp₂⟩
      · exact Or.inl ⟨e₁, hl, Or.inr (Or.inr ⟨h₁, _, hq⟩)⟩
      refine Or.inr ⟨e₁, e₂, h₁, ?_⟩
      rcases hash with _ | hash
      · obtain ⟨rfl, hq⟩ := path_throw.mp hp₂
        exact Or.inl ⟨hl, h₂, _, hq⟩
      refine Or.inr ⟨hash, h₂, ?_⟩
      rcases path_call.mp hp₂ with ⟨rfl, hq⟩ | ⟨e₃, saved, rest₃, -, h₃, rfl, hp₃⟩
      · exact Or.inl ⟨hl, _, hq⟩
      · obtain ⟨rfl, hq⟩ := path_ret.mp hp₃
        exact Or.inr ⟨e₃, saved, h₃, hl, hq⟩
    · obtain ⟨rfl, hq⟩ := path_ret.mp hp₁
      exact Or.inl ⟨e₁, hl, Or.inr (Or.inl ⟨user, h₁, _, hq⟩)⟩

/-- A thread whose `INSERT` was answered without an error. -/
structure Registered (th : Thread (server τ P)) where
  username : Bytes
  password : Bytes
  req : th.req = .registerUser username password
  hash : Bytes
  looked : ServerEvent τ P
  hashed : ServerEvent τ P
  saved : ServerEvent τ P
  log : th.log = [looked, hashed, saved]
  looked_is : looked.Is (.userByName username) (some none)
  hashed_is : hashed.Is (.pwhash password) (some hash)
  saved_is : saved.Is (.insertUser username (cstr hash)) (some ())

namespace Registered

variable {th : Thread (server τ P)}

/-- The hash is one of the password. -/
theorem hash_eq (l : Registered th) (hp : Path (P.program th.req) th.log th.rest) :
    ∃ salt, l.hash = P.lib.pwhashStr salt l.password := by
  have hx := exec_of_mem hp (by rw [l.log]; simp) l.hashed_is
  obtain ⟨-, hnone | ⟨salt, -, hsome⟩⟩ := randomized_cases hx
  · exact absurd hnone (by simp)
  · exact ⟨salt, Option.some.inj hsome⟩

/-- It has returned success. -/
theorem returned (l : Registered th) (hp : Path (P.program th.req) th.log th.rest) :
    th.rest = .ret (.auth ⟨true, l.username, [], ""⟩) := by
  rw [l.req, l.log] at hp
  rcases registerUser_path hp with ⟨hl, -⟩ | ⟨e₁, hl, -⟩ | ⟨e₁, e₂, -, hq⟩
  · cases hl
  · cases hl
  · rcases hq with ⟨hl, -⟩ | ⟨hash, -, ⟨hl, -⟩ | ⟨e₃, saved, h₃, hl, hq⟩⟩
    · cases hl
    · cases hl
    · simp only [List.cons.injEq, and_true] at hl
      have hcmd := h₃.cmd_eq
      rw [← hl.2.2, l.saved_is.cmd_eq] at hcmd
      obtain ⟨-, hhash⟩ := Cmd.insertUser.inj hcmd
      rw [← hhash, ← hl.2.2] at h₃
      rw [hq, ← l.saved_is.inj h₃]
      rfl

/-- A thread that went on from here registered the same. -/
theorem of_log {th' : Thread (server τ P)} (l : Registered th) (hreq : th'.req = th.req)
    (hlog : th'.log = th.log) : ∃ l' : Registered th', l'.username = l.username :=
  ⟨{ l with req := hreq.trans l.req, log := hlog.trans l.log }, rfl⟩

end Registered

/-- **Success is an answered insert.** -/
theorem registered_of_success {th : Thread (server τ P)}
    (hp : Path (P.program th.req) th.log th.rest) {username password : Bytes}
    (hreq : th.req = .registerUser username password) {r : AuthResult}
    (hret : th.rest = .ret (.auth r)) (hr : r.success = true) :
    ∃ l : Registered th, l.username = username ∧ l.password = password := by
  rw [hreq] at hp
  rcases registerUser_path hp with ⟨-, ⟨_, hq⟩ | ⟨_, hq⟩⟩ | ⟨e₁, -, hq⟩ | ⟨e₁, e₂, h₁, hq⟩
  · rw [hret] at hq
    cases hq
    cases hr
  · rw [hret] at hq
    cases hq
  · rcases hq with ⟨-, hq⟩ | ⟨_, -, _, hq⟩ | ⟨-, _, hq⟩ <;> rw [hret] at hq <;> cases hq
    cases hr
  · rcases hq with ⟨-, -, _, hq⟩ | ⟨hash, h₂, ⟨-, _, hq⟩ | ⟨e₃, saved, h₃, hl, hq⟩⟩
    · rw [hret] at hq
      cases hq
    · rw [hret] at hq
      cases hq
    · rw [hret] at hq
      cases saved with
      | none =>
          cases hq
          cases hr
      | some done =>
          exact ⟨⟨username, password, hreq, hash, e₁, e₂, e₃, hl, h₁, h₂, h₃⟩, rfl, rfl⟩

/-! ### Rows of `users` -/

/-- **What a step does to the rows**: nothing, or an insert under a name that no row had. -/
theorem users_next {c c' : Config (server τ P)} {s : Step (server τ P)} (hs : c.next s = some c') :
    c'.world.users.rows = c.world.users.rows ∨
    ∃ i ch req name hash k log stored hash' row, s = .run i ch ∧
      c.threads[i]? = some ⟨req, .call (.insertUser name hash) k, log⟩ ∧
      c'.threads[i]? = some ⟨req, k (some ()), log ++
        [⟨.insertUser name hash, ch, c.world, some (), c'.world⟩]⟩ ∧
      varchar 64 (cstr name) = some stored ∧ (pgText hash).bind (varchar 256) = some hash' ∧
      c.world.users.byName stored = none ∧ row.username = stored ∧ row.passwordHash = hash' ∧
      c'.world.users.rows = c.world.users.rows ++ [row] := by
  rcases Config.next_cases hs with ⟨m, w, -, hm, rfl⟩ | ⟨r, -, rfl⟩ |
    ⟨i, ch, req, cmd, k, log, r, w, rfl, hi, hx, rfl⟩
  · exact Or.inl (move_users hm)
  · exact Or.inl rfl
  · rcases exec_users (L := P.lib) hx with hu | ⟨name, hash, rfl, hw⟩
    · exact Or.inl (by rw [hu])
    · obtain ⟨hash', users, -, stored, hstored, hhash, hins, rfl⟩ := withUser_some hw
      rcases UsersTable.insert_cases hins with ⟨hfree, hrows⟩ | ⟨-, hrows⟩
      · have hr : r = some () := by
          rcases exec_insertUser (L := P.lib) hx with ⟨hr, -⟩ | ⟨-, hsame⟩
          · exact hr
          · have hlen := congrArg (fun w : World τ => w.users.rows.length) hsame
            simp [hrows] at hlen
        subst hr
        refine Or.inr ⟨i, ch, req, name, hash, k, log, stored, hash', _, rfl, hi, ?_, hstored,
          hhash, hfree, rfl, rfl, hrows⟩
        exact List.getElem?_set_self (List.getElem?_eq_some_iff.mp hi).1
      · exact Or.inl hrows

/-- **Rows stay.** -/
theorem users_later {ok : Config (server τ P) → Step (server τ P) → Prop}
    {b c : Config (server τ P)} (h : Reach ok b c) {u : User} (hu : u ∈ b.world.users.rows) :
    u ∈ c.world.users.rows := by
  refine h.invariant (I := fun c : Config (server τ P) => u ∈ c.world.users.rows) hu ?_
  intro c c' s hc _ hs
  rcases users_next hs with hrows | ⟨i, ch, req, name, hash, k, log, stored, hash', row, -, -, -, -,
    -, -, -, -, hrows⟩
  · rw [hrows]
    exact hc
  · rw [hrows]
    exact List.mem_append_left _ hc

/-! ### Registering alone under a name -/

/-- The database takes this command as an `INSERT` under this name, of which it keeps so much. -/
def Takes (L : Lib) (w : World τ) (cmd : Cmd) (ch : Choice) (name stored : Bytes) : Prop :=
  ∃ hash w', cmd = .insertUser name hash ∧
    exec L w (.insertUser name hash) ch = some (some (), w') ∧ varchar 64 (cstr name) = some stored

/-- The column keeps the whole name of a row it takes. -/
def NamesUncut : Config (server τ P) → Step (server τ P) → Prop :=
  Under fun (w : World τ) cmd ch => ∀ name stored, Takes P.lib w cmd ch name stored →
    stored = cstr name

/-- No row has the name of one that is taken. -/
def NoConflict : Config (server τ P) → Step (server τ P) → Prop :=
  Under fun (w : World τ) cmd ch => ∀ name stored, Takes P.lib w cmd ch name stored →
    w.users.byName stored = none

section Runs

variable {ok : Config (server τ P) → Step (server τ P) → Prop} {w : World τ}
  {c : Config (server τ P)}

/-- The insert of a registration found its name free and wrote its row. -/
theorem Registered.wrote (hpw : P.lib.Pwhash) (huncut : ∀ c s, ok c s → NamesUncut c s)
    (hfree : ∀ c s, ok c s → NoConflict c s) {a b b' : Config (server τ P)} {i : Nat}
    {th : Thread (server τ P)} (hp : Path (P.program th.req) th.log th.rest) (l : Registered th)
    (hm : Moment ok a c i th.req [l.looked, l.hashed] l.saved b b') :
    b.world.users.byName (cstr l.username) = none ∧
    ∃ u ∈ b'.world.users.rows, u.username = cstr l.username ∧ u.passwordHash = l.hash := by
  have hx := exec_of_mem hp (by rw [l.log]; simp) l.saved_is
  obtain ⟨salt, hhash⟩ := l.hash_eq hp
  obtain ⟨k, hb, -⟩ := hm.thread_is l.saved_is
  rcases exec_insertUser hx with ⟨-, hw⟩ | ⟨hnone, -⟩
  · obtain ⟨hash', users, -, stored, hstored, hhash', hins, hpost⟩ := withUser_some hw
    rw [← hm.pre] at hx
    have htakes : Takes P.lib b.world (.insertUser l.username (cstr l.hash)) l.saved.choice
        l.username stored := ⟨_, _, rfl, hx, hstored⟩
    have hname := huncut _ _ hm.allowed _ _ k hb rfl _ _ htakes
    have hnone := hfree _ _ hm.allowed _ _ k hb rfl _ _ htakes
    have hsame : l.hash = hash' := by
      rw [hhash, hpw.stored] at hhash'
      rw [hhash]
      exact Option.some.inj hhash'
    rw [hm.pre] at hnone ⊢
    rw [hm.post, hpost]
    rcases UsersTable.insert_cases hins with ⟨-, hrows⟩ | ⟨hsome, -⟩
    · have hmem : ⟨l.saved.pre.users.seq + 1, stored, hash', l.saved.pre.nowUs, 0⟩ ∈
        users.rows := by
        rw [hrows]
        exact List.mem_append_right _ (List.mem_singleton_self _)
      exact ⟨hname ▸ hnone, _, hmem, hname, hsame.symm⟩
    · exact absurd hnone hsome
  · exact absurd hnone (by simp)

/-- **A registration owns its row.** -/
theorem Registered.row (hpw : P.lib.Pwhash) (huncut : ∀ c s, ok c s → NamesUncut c s)
    (hfree : ∀ c s, ok c s → NoConflict c s) (hrun : Reach ok (Config.fresh w) c) {i : Nat}
    {th : Thread (server τ P)} (hi : c.threads[i]? = some th) (l : Registered th) :
    ∃ u ∈ c.world.users.rows, u.username = cstr l.username ∧ u.passwordHash = l.hash := by
  have hp := hrun.path_at hi
  obtain ⟨b, b', hm⟩ := hrun.moment [l.looked, l.hashed] [] hi l.log (by simp)
  obtain ⟨-, u, hu, hrow⟩ := l.wrote hpw huncut hfree hp hm
  exact ⟨u, users_later hm.later hu, hrow⟩

/-- **A name is registered once.** -/
theorem Registered.unique (hpw : P.lib.Pwhash) (huncut : ∀ c s, ok c s → NamesUncut c s)
    (hfree : ∀ c s, ok c s → NoConflict c s) (hrun : Reach ok (Config.fresh w) c) {i j : Nat}
    {th th' : Thread (server τ P)} (hi : c.threads[i]? = some th) (hj : c.threads[j]? = some th')
    (l : Registered th) (l' : Registered th') (hname : cstr l.username = cstr l'.username) :
    i = j := by
  by_contra hij
  have hp := hrun.path_at hi
  have hp' := hrun.path_at hj
  obtain ⟨b, b', hm⟩ := hrun.moment [l.looked, l.hashed] [] hi l.log (by simp)
  obtain ⟨hnone, u, hu, huname, -⟩ := l.wrote hpw huncut hfree hp hm
  rcases hm.later.logged_or_moment hj [l'.looked, l'.hashed] [] l'.log with
    ⟨th₁, after, ext, hth₁, hreq, hlog, hafter⟩ | ⟨d, d', hm'⟩
  · -- the other one had inserted before
    obtain ⟨rfl, -⟩ := List.append_eq_nil_iff.mp hafter.symm
    rw [hm.other hij] at hth₁
    obtain ⟨l₁, hl₁⟩ := l'.of_log hreq (hlog.trans l'.log.symm)
    obtain ⟨v, hv, hvname, -⟩ := Registered.row hpw huncut hfree hm.reach hth₁ l₁
    have hfound := UsersTable.byName_of_mem hv
    rw [hvname, hl₁, ← hname, hnone] at hfound
    cases hfound
  · -- the other one inserted after
    obtain ⟨hnone', -⟩ := l'.wrote hpw huncut hfree hp' hm'
    have hfound := UsersTable.byName_of_mem (users_later hm'.reach hu)
    rw [huname, hname, hnone'] at hfound
    cases hfound

end Runs

/-! ### Logging in afterwards -/

/-- A login that finds a row accepting its password, and returns, returns success. -/
theorem login_of_row {th : Thread (server τ P)} (hp : Path (P.program th.req) th.log th.rest)
    {username password : Bytes} (hreq : th.req = .login username password)
    (hrow : ∀ e ∈ th.log, ∃ u, e.pre.users.byName (cstr username) = some u ∧
      P.auth.verifyPassword password u.passwordHash = true)
    {r : AuthResult} (hret : th.rest = .ret (.auth r)) : r.success = true := by
  have hp' := hp
  rw [hreq] at hp
  rcases login_path hp with ⟨-, _, hq⟩ | ⟨e₁, hl, hq⟩ | ⟨e₁, e₂, user, b, h₁, hpw, h₂, hq⟩
  · rw [hret] at hq
    cases hq
  · rcases hq with ⟨-, hq⟩ | ⟨found, h₁, hno, -⟩ | ⟨_, -, -, _, hq⟩
    · rw [hret] at hq
      cases hq
    · obtain ⟨u, hu, hverify⟩ := hrow e₁ (by rw [hl]; simp)
      have hfound := exec_userByName (exec_of_mem hp' (by rw [hl]; simp) h₁)
      rw [hu] at hfound
      rw [hno u hfound.symm] at hverify
      cases hverify
    · rw [hret] at hq
      cases hq
  · rcases hq with ⟨-, _, hq⟩ | ⟨e₃, T, h₃, ⟨-, hq⟩ | ⟨e₄, r', h₄, hl, hq⟩⟩
    · rw [hret] at hq
      cases hq
    · rw [hret] at hq
      cases hq
    · rw [hret] at hq
      cases hq
      rfl

/-- **When a registration is exclusive.**  In a run in which every row that is inserted keeps
its whole name and meets no row of that name, a registration that returned success is
the only one of its name, the row of that name carries a hash of its password, and
every login with the two that is started later and returns, returns success. -/
theorem registerUser_exclusive (hpw : P.lib.Pwhash) {w : World τ} {c : Config (server τ P)}
    (hrun : Reach (fun c s => NamesUncut c s ∧ NoConflict c s) (Config.fresh w) c) {i : Nat}
    {th : Thread (server τ P)} {username password : Bytes} {r : AuthResult}
    (hi : c.threads[i]? = some th) (hreq : th.req = .registerUser username password)
    (hret : th.rest = .ret (.auth r)) (hr : r.success = true) :
    (∀ j th' password' r', c.threads[j]? = some th' →
      th'.req = .registerUser username password' → th'.rest = .ret (.auth r') →
      r'.success = true → j = i) ∧
    (∃ u salt, c.world.users.byName (cstr username) = some u ∧
      u.passwordHash = P.lib.pwhashStr salt password ∧
      P.auth.verifyPassword password u.passwordHash = true) ∧
    ∀ d, Reach (fun c s => NamesUncut c s ∧ NoConflict c s) c d → ∀ j th' r',
      c.threads.length ≤ j → d.threads[j]? = some th' → th'.req = .login username password →
      th'.rest = .ret (.auth r') → r'.success = true := by
  have hp := hrun.path_at hi
  obtain ⟨l, rfl, rfl⟩ := registered_of_success hp hreq hret hr
  obtain ⟨salt, hhash⟩ := l.hash_eq hp
  obtain ⟨u, hu, hname, huhash⟩ := l.row hpw (fun _ _ h => h.1) (fun _ _ h => h.2) hrun hi
  have hverify : P.auth.verifyPassword l.password u.passwordHash = true := by
    rw [huhash, hhash, AuthManager.verifyPassword, hpw.cstr_eq]
    exact hpw.accepts salt l.password
  refine ⟨?_, ⟨u, salt, ?_, huhash.trans hhash, hverify⟩, ?_⟩
  · intro j th' password' r' hj hreq' hret' hr'
    have hp' := hrun.path_at hj
    obtain ⟨l', hname', -⟩ := registered_of_success hp' hreq' hret' hr'
    exact l'.unique hpw (fun _ _ h => h.1) (fun _ _ h => h.2) hrun hj hi l (by rw [hname'])
  · rw [← hname]
    exact UsersTable.byName_of_mem hu
  · intro d hcd j th' r' hj hth' hreq' hret'
    have hp' := (hrun.trans hcd).path_at hth'
    refine login_of_row hp' hreq' ?_ hret'
    intro e he
    obtain ⟨before, b, b', hm⟩ := hcd.moment_late hj hth' he
    have hub := users_later hm.reach hu
    rw [hm.pre] at hub
    exact ⟨u, by rw [← hname]; exact UsersTable.byName_of_mem hub, hverify⟩

/-! ### A name registered once, and one registered twice -/

/-- The events of a registration whose every call is answered. -/
def registerEvents (P : App) (w : World τ) (username password salt : Bytes) (w' : World τ) :
    List (ServerEvent τ P) :=
  [⟨.userByName username, .done, w, some none, w⟩,
    ⟨.pwhash password, .random salt, w, some (P.lib.pwhashStr salt password), w⟩,
    ⟨.insertUser username (cstr (P.lib.pwhashStr salt password)), .done, w, some (), w'⟩]

/-- The thread of such a registration when it has returned. -/
def registerThread (P : App) (w : World τ) (username password salt : Bytes) (w' : World τ) :
    Thread (server τ P) :=
  ⟨.registerUser username password, .ret (.auth ⟨true, username, [], ""⟩),
    registerEvents P w username password salt w'⟩

/-- **A free name can be registered.** -/
theorem path_registerUser {w w' : World τ} {username password salt : Bytes}
    (hlong : ¬ (username = [] ∨ password.length < 8)) (htext : (pgText username).isSome)
    (hfree : w.users.byName (cstr username) = none)
    (hw : w.withUser username (cstr (P.lib.pwhashStr salt password)) = some w') :
    Path (P.program (.registerUser username password))
      (registerEvents P w username password salt w') (.ret (.auth ⟨true, username, [], ""⟩)) := by
  have hlookup : exec P.lib w (.userByName username) .done = some (some none, w) := by
    obtain ⟨t, ht⟩ := Option.isSome_iff_exists.mp htext
    simp only [exec, statement, ht, Option.map_some, pgText_eq_some ht, hfree]
  have hinsert : exec P.lib w (.insertUser username (cstr (P.lib.pwhashStr salt password))) .done =
      some (some (), w') := by
    simp only [exec, hw, statement]
  rw [App.program, AuthManager.registerUser_eq, if_neg hlong]
  exact ⟨_, _, _, _, hlookup, rfl, _, _, _, _, rfl, rfl, _, _, _, _, hinsert, rfl, path_nil.mpr rfl⟩

/-- A name that is taken can not. -/
theorem path_registerUser_taken {w : World τ} {username password : Bytes} {user : User}
    (hlong : ¬ (username = [] ∨ password.length < 8)) (htext : (pgText username).isSome)
    (htaken : w.users.byName (cstr username) = some user) :
    Path (P.program (.registerUser username password))
      ([⟨.userByName username, .done, w, some (some user), w⟩] : List (ServerEvent τ P))
      (.ret (.auth (.failed "Username already exists"))) := by
  have hlookup : exec P.lib w (.userByName username) .done = some (some (some user), w) := by
    obtain ⟨t, ht⟩ := Option.isSome_iff_exists.mp htext
    simp only [exec, statement, ht, Option.map_some, pgText_eq_some ht, htaken]
  rw [App.program, AuthManager.registerUser_eq, if_neg hlong]
  exact ⟨_, _, _, _, hlookup, rfl, path_nil.mpr rfl⟩

/-- A registration that has the service to itself. -/
theorem reach_registerUser {w w' : World τ} (ths : List (Thread (server τ P)))
    {username password salt : Bytes} {ok : Config (server τ P) → Step (server τ P) → Prop}
    (hlong : ¬ (username = [] ∨ password.length < 8)) (htext : (pgText username).isSome)
    (hfree : w.users.byName (cstr username) = none)
    (hw : w.withUser username (cstr (P.lib.pwhashStr salt password)) = some w')
    (hok : Allows ok w ths (.registerUser username password)
      (registerEvents P w username password salt w')) :
    Reach ok ⟨w, ths⟩ ⟨w', ths ++ [registerThread P w username password salt w']⟩ :=
  reach_solo (path_registerUser hlong htext hfree hw) ⟨rfl, rfl, rfl, rfl⟩ hok

/-- Every name these events insert is kept whole and is free. -/
def Undisputed (L : Lib) (events : List (Event (machine τ L))) : Prop :=
  ∀ e ∈ events, ∀ name stored, Takes L e.pre e.cmd e.choice name stored →
    stored = cstr name ∧ e.pre.users.byName stored = none

theorem Undisputed.allows {events : List (ServerEvent τ P)} (h : Undisputed P.lib events)
    {w : World τ} {ths : List (Thread (server τ P))} {req : Request} :
    Allows (fun c s => NamesUncut c s ∧ NoConflict c s) w ths req events :=
  Allows.and (Allows.under fun e he name stored ht => (h e he name stored ht).1)
    (Allows.under fun e he name stored ht => (h e he name stored ht).2)

theorem Undisputed.resumes {events log : List (ServerEvent τ P)} (h : Undisputed P.lib events)
    {ths : List (Thread (server τ P))} {i : Nat} {req : Request} :
    Resumes (fun c s => NamesUncut c s ∧ NoConflict c s) ths i req log events :=
  Resumes.and (Resumes.under fun e he name stored ht => (h e he name stored ht).1)
    (Resumes.under fun e he name stored ht => (h e he name stored ht).2)

theorem undisputed_register {w w' : World τ} {username password salt : Bytes}
    (hname : varchar 64 (cstr username) = some (cstr username))
    (hfree : w.users.byName (cstr username) = none) :
    Undisputed P.lib (registerEvents P w username password salt w') := by
  rintro e he name stored ⟨hash, v, hcmd, -, hstored⟩
  simp only [registerEvents, List.mem_cons, List.not_mem_nil, or_false] at he
  rcases he with rfl | rfl | rfl <;> cases hcmd
  obtain rfl := Option.some.inj (hname.symm.trans hstored)
  exact ⟨rfl, hfree⟩

/-- **Two registrations of one name**, of which the second is started before the first inserts it,
and looks it up afterwards. -/
theorem reach_second {w w' : World τ} {username : Bytes} {row : User}
    (password password' salt : Bytes) (hlong : ¬ (username = [] ∨ password.length < 8))
    (hlong' : ¬ (username = [] ∨ password'.length < 8)) (htext : (pgText username).isSome)
    (hname : varchar 64 (cstr username) = some (cstr username))
    (hfree : w.users.byName (cstr username) = none)
    (hw : w.withUser username (cstr (P.lib.pwhashStr salt password)) = some w')
    (hrow : w'.users.byName (cstr username) = some row) :
    Reach (fun c s => NamesUncut c s ∧ NoConflict c s) (Config.fresh w)
      (⟨w', [registerThread P w username password salt w', ⟨.registerUser username password',
        .ret (.auth (.failed "Username already exists")),
        [⟨.userByName username, .done, w', some (some row), w'⟩]⟩]⟩ : Config (server τ P)) := by
  let lookup : ServerEvent τ P := ⟨.userByName username, .done, w, some none, w⟩
  let insert : List (ServerEvent τ P) :=
    [⟨.pwhash password, .random salt, w, some (P.lib.pwhashStr salt password), w⟩,
      ⟨.insertUser username (cstr (P.lib.pwhashStr salt password)), .done, w, some (), w'⟩]
  have hfine : Undisputed P.lib ([lookup] ++ insert) := undisputed_register hname hfree
  have hpath : Path (P.program (.registerUser username password)) ([lookup] ++ insert)
      (.ret (.auth ⟨true, username, [], ""⟩)) := path_registerUser hlong htext hfree hw
  obtain ⟨q, hlooked, hrest⟩ := hpath.split
  have hfirst : Reach (fun c s => NamesUncut c s ∧ NoConflict c s) (Config.fresh w)
      (⟨w, [] ++ [⟨.registerUser username password, q, [lookup]⟩]⟩ : Config (server τ P)) :=
    reach_solo hlooked ⟨rfl, rfl⟩
      (Undisputed.allows fun e he => hfine e (List.mem_append_left _ he))
  let first : Thread (server τ P) := ⟨.registerUser username password, q, [lookup]⟩
  let second : Thread (server τ P) :=
    ⟨.registerUser username password', P.program (.registerUser username password'), []⟩
  let served : Thread (server τ P) := registerThread P w username password salt w'
  have hstarted : Reach (fun c s => NamesUncut c s ∧ NoConflict c s) (Config.fresh w)
      ⟨w, [first, second]⟩ :=
    hfirst.tail (s := .start (Request.registerUser username password')) ⟨trivial, trivial⟩ rfl
  have hjoined : Joined w insert w' := ⟨rfl, rfl, rfl⟩
  have hinserted : Reach (fun c s => NamesUncut c s ∧ NoConflict c s) ⟨w, [first, second]⟩
      ⟨w', [served, second]⟩ :=
    reach_resumed (show [first, second][0]? = some first from rfl) hrest hjoined
      (Undisputed.resumes fun e he => hfine e (List.mem_append_right _ he))
  have htaken := path_registerUser_taken (P := P) hlong' htext hrow
  let asked : List (ServerEvent τ P) := [⟨.userByName username, .done, w', some (some row), w'⟩]
  have hasked : Joined w' asked w' := ⟨rfl, rfl⟩
  refine (hstarted.trans hinserted).trans (reach_resumed
    (show [served, second][1]? = some second from rfl) htaken hasked (Undisputed.resumes ?_))
  rintro e he name stored ⟨hash, v, hcmd, -⟩
  rw [List.mem_singleton.mp he] at hcmd
  cases hcmd

/-- **A name is registered by one of two.** -/
theorem registerUser_exclusive_sample :
    ∃ (c : Config (server ℚ Sample.app)) (th th' : Thread (server ℚ Sample.app)) (u : User)
      (r : AuthResult), c.threads = [th, th'] ∧
      th.req = .registerUser Sample.newcomer Sample.password ∧
      th.rest = .ret (.auth ⟨true, Sample.newcomer, [], ""⟩) ∧
      th'.req = .registerUser Sample.newcomer (ascii "password2") ∧ th'.rest = .ret (.auth r) ∧
      r.success = false ∧ c.world.users.byName (cstr Sample.newcomer) = some u ∧
      Sample.auth.verifyPassword Sample.password u.passwordHash = true := by
  obtain ⟨w', hw⟩ : ∃ w', Sample.world.withUser Sample.newcomer
      (cstr (Sample.lib.pwhashStr [] Sample.password)) = some w' := ⟨_, rfl⟩
  obtain ⟨row, hrow⟩ : ∃ row, w'.users.byName (cstr Sample.newcomer) = some row := by
    obtain rfl := Option.some.inj hw
    exact ⟨_, rfl⟩
  have hrun := reach_second (P := Sample.app) Sample.password (ascii "password2") [] (by decide)
    (by decide) (by decide) (by decide) (by decide) hw hrow
  obtain ⟨-, ⟨u, salt, hu, -, hverify⟩, -⟩ := registerUser_exclusive (P := Sample.app)
    Sample.pwhash hrun (i := 0) rfl rfl rfl rfl
  exact ⟨_, _, _, u, _, rfl, rfl, rfl, rfl, rfl, rfl, hu, hverify⟩

/-- Two registrations of one name, each looking it up before the other inserts. -/
def race : List (Step (server ℚ Sample.app)) :=
  [.start (.registerUser Sample.newcomer (ascii "password1")),
    .start (.registerUser Sample.newcomer (ascii "password2")),
    .run 0 .done, .run 1 .done, .run 0 (.random []), .run 1 (.random []), .run 0 .done,
      .run 1 .done]

/-- **Two registrations of one name that both succeed.**  The second insert hits the first
one's row and writes nothing, and its caller's password is not accepted. -/
theorem registerUser_race :
    ∃ (c : Config (server ℚ Sample.app)) (th th' : Thread (server ℚ Sample.app)) (u : User),
      Reach (fun _ _ => True) (Config.fresh Sample.world) c ∧ c.threads = [th, th'] ∧
      th.req = .registerUser Sample.newcomer (ascii "password1") ∧
      th.rest = .ret (.auth ⟨true, Sample.newcomer, [], ""⟩) ∧
      th'.req = .registerUser Sample.newcomer (ascii "password2") ∧
      th'.rest = .ret (.auth ⟨true, Sample.newcomer, [], ""⟩) ∧
      c.world.users.byName (cstr Sample.newcomer) = some u ∧
      Sample.auth.verifyPassword (ascii "password2") u.passwordHash = false := by
  have hrun : (Config.fresh Sample.world).steps race = some _ := rfl
  exact ⟨_, _, _, _, Reach.of_steps hrun, rfl, rfl, rfl, rfl, rfl, rfl, by decide +kernel⟩

end PqcApi
