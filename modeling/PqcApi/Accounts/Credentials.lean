/-
Which credentials a login takes, one call after another.

The store takes a name through C strings and a `VARCHAR(64)` column, so two different
names may stand for one row.  When every name is stored as it was given, and no login
uses a name that only its part before a NUL matches, the accounts are exactly the seed
account and what was registered with success.
-/
import PqcApi.Accounts.Registration

namespace PqcApi

open Concurrent

variable {τ : Type} [Field τ] [LinearOrder τ] [FloorRing τ] {P : App}

/-- The password of the first account. -/
def seedPassword : Bytes := ascii "paulsiv123"

/-- Argon2id accepts exactly the hashed password, among the passwords in `S`.  Hashes being
short, no function does so among all strings. -/
structure Lib.PwhashExact (L : Lib) (S : Bytes → Prop) : Prop extends L.Pwhash where
  exact : ∀ salt pw pw', S pw → S pw' → L.pwhashVerify (L.pwhashStr salt pw) pw' = true → pw' = pw
  seed : ∀ pw, S pw → (L.pwhashVerify UsersTable.seedHash pw = true ↔ pw = seedPassword)

/-! ### Sequential runs -/

/-- A PostgreSQL statement. -/
def Cmd.isSql : Cmd → Bool
  | .userByName _ | .insertUser .. | .insertDocument .. | .documentById _ | .documentsByUser _
  | .pdfData _ | .ownedBy .. | .deleteDocument _ => true
  | _ => false

/-- Calls one after another, without a database failure, with passwords from `S`. -/
structure Sequential (S : Bytes → Prop) (c : Config (server τ P)) (s : Step (server τ P)) :
    Prop where
  alone : OneAtATime c s
  answered : ∀ i ch th cmd k, s = .run i ch → c.threads[i]? = some th → th.rest = .call cmd k →
    cmd.isSql = true → ch = .done
  passwords : ∀ u p, s = .start (.registerUser u p) ∨ s = .start (.login u p) → S p

/-- Every name that is inserted is stored as it was given, and a login does not look a name
up whose part before a NUL is the name of an account. -/
structure NamesWhole (c : Config (server τ P)) (s : Step (server τ P)) : Prop where
  inserted : ∀ i ch th name hash k stored, s = .run i ch → c.threads[i]? = some th →
    th.rest = .call (.insertUser name hash) k → varchar 64 (cstr name) = some stored →
    stored = name
  looked : ∀ i ch th username password k, s = .run i ch → c.threads[i]? = some th →
    th.req = .login username password → th.rest = .call (.userByName username) k →
    cstr username = username ∨ c.world.users.byName (cstr username) = none

/-- A name stored as it was given has no NUL. -/
theorem cstr_eq_of_stored {name stored : Bytes} (h : varchar 64 (cstr name) = some stored)
    (heq : stored = name) : cstr name = name := by
  obtain ⟨spaces, hspaces, -⟩ := varchar_some h
  refine cstr_eq_self fun hz => zero_notMem_cstr name ?_
  rw [hspaces, heq]
  exact List.mem_append_left _ hz

theorem NamesWhole.uncut {c : Config (server τ P)} {s : Step (server τ P)} (h : NamesWhole c s) :
    NamesUncut c s := by
  cases s with
  | move m => exact trivial
  | start r => exact trivial
  | run i ch =>
      rintro th cmd k hi hrest name stored ⟨hash, w', rfl, -, hstored⟩
      have heq := h.inserted i ch th name hash k stored rfl hi hrest hstored
      rw [cstr_eq_of_stored hstored heq]
      exact heq

/-- Who is about to insert has found the name free and hashed the password. -/
theorem inserting {th : Thread (server τ P)} (hp : Path (P.program th.req) th.log th.rest)
    {name hash : Bytes} {k : Option Unit → Action τ Result}
    (hrest : th.rest = .call (.insertUser name hash) k) :
    ∃ password, th.req = .registerUser name password ∧ ∃ e₁ e₂ h, th.log = [e₁, e₂] ∧
      e₁.Is (.userByName name) (some none) ∧ e₂.Is (.pwhash password) (some h) ∧ hash = cstr h := by
  have hwithin := (Path.only hp (App.program_within P th.req)).2
  rw [hrest] at hwithin
  have heffect : th.req.effect = .addUser := by
    rcases hwithin.1 with hnone | heff
    · cases hnone
    · exact heff.symm
  cases hreq : th.req with
  | registerUser username password =>
      rw [hreq, hrest] at hp
      rcases registerUser_path hp with ⟨-, ⟨_, hq⟩ | ⟨_, hq⟩⟩ | ⟨e₁, -, hq⟩ | ⟨e₁, e₂, h₁, hq⟩
      · cases hq
      · cases (Program.call.inj hq).1
      · rcases hq with ⟨-, hq⟩ | ⟨_, -, _, hq⟩ | ⟨-, _, hq⟩
        · cases hq
        · cases hq
        · cases (Program.call.inj hq).1
      · rcases hq with ⟨-, -, _, hq⟩ | ⟨h, h₂, ⟨hl, _, hq⟩ | ⟨e₃, saved, h₃, hl, hq⟩⟩
        · cases hq
        · obtain ⟨rfl, rfl⟩ := Cmd.insertUser.inj (Program.call.inj hq).1
          exact ⟨password, rfl, e₁, e₂, h, hl, h₁, h₂, rfl⟩
        · cases hq
  | _ =>
      rw [hreq] at heffect
      cases heffect

/-- **A row more is a registration.**  The step that wrote it answered an insert. -/
theorem users_next_registered {c c' : Config (server τ P)} {s : Step (server τ P)}
    (hsound : c.Sound) (hs : c.next s = some c') :
    c'.world.users.rows = c.world.users.rows ∨
    ∃ i ch th th', ∃ l : Registered th', ∃ k stored row, s = .run i ch ∧
      c.threads[i]? = some th ∧ th.rest = .call (.insertUser l.username (cstr l.hash)) k ∧
      c'.threads[i]? = some th' ∧ varchar 64 (cstr l.username) = some stored ∧
      (pgText (cstr l.hash)).bind (varchar 256) = some row.passwordHash ∧ row.username = stored ∧
      c'.world.users.rows = c.world.users.rows ++ [row] := by
  rcases users_next hs with hsame | ⟨i, ch, req, name, hash, k, log, stored, hash', row, hrun, hi,
    hi',
    hstored, hhash, -, hname, rfl, hrows⟩
  · exact Or.inl hsame
  · obtain ⟨password, hreq, e₁, e₂, h, hlog, h₁, h₂, rfl⟩ :=
      inserting (hsound _ (List.mem_of_getElem? hi)) rfl
    dsimp only at hreq hlog
    subst hreq hlog
    exact Or.inr ⟨i, ch, _, _, ⟨name, password, rfl, h, e₁, e₂, _, rfl, h₁, h₂, ⟨_, _, _, rfl⟩⟩, k,
      stored, row, hrun, hi, rfl, hi', hstored, hhash, hname, hrows⟩

/-- While one registration is in service, the rows stay as they are. -/
theorem rows_while_busy {ok : Config (server τ P) → Step (server τ P) → Prop}
    (hok : ∀ c s, ok c s → OneAtATime c s) {w : World τ} {b c : Config (server τ P)}
    (hb : Reach ok (Config.fresh w) b) (hbc : Reach ok b c) {i : Nat} {th : Thread (server τ P)}
    (hi : i < b.threads.length) (hth : c.threads[i]? = some th) (hbusy : ¬ th.rest.Done) :
    c.world.users.rows = b.world.users.rows := by
  have hrows : c.world.users.rows = b.world.users.rows ∨
      ∃ th, c.threads[i]? = some th ∧ th.rest.Done := by
    clear hth hbusy
    induction hbc with
    | refl => exact Or.inl rfl
    | @tail d d' s hbd hs hn ih =>
        have hd := hb.trans hbd
        have hone := hd.oneBusy hok
        have stays : (∃ th, d.threads[i]? = some th ∧ th.rest.Done) →
            ∃ th, d'.threads[i]? = some th ∧ th.rest.Done := by
          intro ⟨th, hth, hdone⟩
          exact ⟨th, ((Reach.refl d).tail hs hn).thread_done hth hdone, hdone⟩
        rcases ih with hsame | hdone
        · rcases users_next_registered (hd.path (Config.fresh_sound w)) hn with hrows | ⟨j, ch, th,
            th', l, k, stored, row, -, hj, hrest, hj', -⟩
          · exact Or.inl (hrows.trans hsame)
          · refine Or.inr ?_
            have hi' : i < d.threads.length := Nat.lt_of_lt_of_le hi hbd.length_le
            by_cases hdone : (d.threads[i]).rest.Done
            · exact stays ⟨_, List.getElem?_eq_getElem hi', hdone⟩
            · have h₁ := hone i _ (List.getElem?_eq_getElem hi') hdone
              have h₂ := hone j th hj (by rw [hrest]; exact fun hd => hd)
              obtain rfl : i = j := by omega
              have hp := (hd.tail hs hn).path_at hj'
              exact ⟨th', hj', by rw [l.returned hp]; exact trivial⟩
        · exact Or.inr (stays hdone)
  rcases hrows with hsame | ⟨th', hth', hdone⟩
  · exact hsame
  · rw [hth] at hth'
    rw [Option.some.inj hth'] at hbusy
    exact absurd hdone hbusy

/-- **One call after another, no insert meets a row of its name**: the lookup before it found
the name free, and nothing has been written since. -/
theorem noConflict_of_sequential {ok : Config (server τ P) → Step (server τ P) → Prop}
    (hok : ∀ c s, ok c s → OneAtATime c s) {w : World τ} {c : Config (server τ P)}
    {s : Step (server τ P)} (hrun : Reach ok (Config.fresh w) c) (huncut : NamesUncut c s) :
    NoConflict c s := by
  cases s with
  | move m => exact trivial
  | start r => exact trivial
  | run i ch =>
  rintro th cmd k hi hrest name stored ⟨hash, w', rfl, hinsert, hstored⟩
  have hp := hrun.path_at hi
  obtain ⟨password, hreq, e₁, e₂, h, hlog, h₁, h₂, rfl⟩ := inserting hp hrest
  obtain ⟨b, b', hm⟩ := hrun.moment [] [e₂] hi hlog (by simp)
  have hx := exec_of_mem hp (by rw [hlog]; simp) h₁
  have hb' := (hm.reach.tail hm.allowed hm.next)
  obtain ⟨_, -, hthread⟩ := hm.thread_is h₁
  have hrows : c.world.users.rows = e₁.pre.users.rows := by
    have hlt := (List.getElem?_eq_some_iff.mp hthread).1
    rw [rows_while_busy hok hb' hm.later hlt hi (by rw [hrest]; exact fun hd => hd), hm.post,
      exec_none (L := P.lib) hx rfl]
  rw [huncut th _ k hi hrest name stored ⟨_, w', rfl, hinsert, hstored⟩,
    UsersTable.byName_congr hrows]
  exact exec_userByName hx

section Runs

variable {S : Bytes → Prop} {w : World τ} {c : Config (server τ P)}

/-- The runs of this module. -/
abbrev Served (S : Bytes → Prop) (c : Config (server τ P)) (s : Step (server τ P)) : Prop :=
  (Sequential S c s ∧ NamesWhole c s) ∧ NamesUncut c s ∧ NoConflict c s

theorem reach_served {b : Config (server τ P)}
    (hb : Reach (fun c s => Sequential S c s ∧ NamesWhole c s) (Config.fresh w) b)
    (hbc : Reach (fun c s => Sequential S c s ∧ NamesWhole c s) b c) : Reach (Served S) b c :=
  Reach.strengthen (fun hb hs => ⟨hs, hs.2.uncut,
    noConflict_of_sequential (fun _ _ h => h.1.alone) hb hs.2.uncut⟩) hb hbc

/-! ### What the rows are -/

/-- A row of the first account. -/
def IsSeed (u : User) : Prop := u.username = ascii "paulsiv" ∧ u.passwordHash = UsersTable.seedHash

/-- A row that a registration wrote, under exactly its name. -/
def WasRegistered (c : Config (server τ P)) (u : User) : Prop :=
  ∃ (i : Nat) (th : Thread (server τ P)), c.threads[i]? = some th ∧ ∃ l : Registered th,
    u.username = l.username ∧ u.passwordHash = l.hash

/-- Every row is the first account's or was registered. -/
def Accounted (c : Config (server τ P)) : Prop :=
  ∀ u ∈ c.world.users.rows, IsSeed u ∨ WasRegistered c u

theorem Accounted.next {c c' : Config (server τ P)} {s : Step (server τ P)} (h : Accounted c)
    (hpw : P.lib.Pwhash) (hsound : c.Sound) (hok : NamesWhole c s) (hs : c.next s = some c') :
    Accounted c' := by
  intro u hu
  have old : u ∈ c.world.users.rows → IsSeed u ∨ WasRegistered c' u := by
    intro hold
    rcases h u hold with hseed | ⟨i, th, hi, l, hu⟩
    · exact Or.inl hseed
    · have hp := hsound th (List.mem_of_getElem? hi)
      obtain ⟨th', hi', hcont⟩ := Config.next_thread hs hi
      rw [hcont.eq_of_done (by rw [l.returned hp]; exact trivial)] at hi'
      exact Or.inr ⟨i, th, hi', l, hu⟩
  rcases users_next_registered hsound hs with hrows | ⟨i, ch, th, th', l, k, stored, row, hrun, hi,
    hrest, hi', hstored, hhash, hname, hrows⟩
  · exact old (hrows ▸ hu)
  · rw [hrows] at hu
    rcases List.mem_append.mp hu with hold | hnew
    · exact old hold
    · obtain rfl := List.mem_singleton.mp hnew
      obtain ⟨salt, hsalt⟩ := l.hash_eq (hsound.next hs th' (List.mem_of_getElem? hi'))
      rw [hsalt, hpw.stored] at hhash
      refine Or.inr ⟨i, th', hi', l, ?_, ?_⟩
      · rw [hname]
        exact hok.inserted i ch th _ _ k stored hrun hi hrest hstored
      · rw [hsalt]
        exact (Option.some.inj hhash).symm

/-- **Every row has an account behind it.** -/
theorem accounted (hpw : P.lib.Pwhash) (hw : ∀ u ∈ w.users.rows, IsSeed u)
    (hrun : Reach (Served S) (Config.fresh w) c) : Accounted c := by
  have h0 : Accounted (Config.fresh w : Config (server τ P)) := fun u hu => Or.inl (hw u hu)
  refine (hrun.invariant (I := fun c => c.Sound ∧ Accounted c) ⟨Config.fresh_sound w, h0⟩ ?_).2
  intro b c s ⟨hsound, h⟩ hok hs
  exact ⟨hsound.next hs, h.next hpw hsound hok.1.2 hs⟩

/-- The password of a call comes from `S`. -/
theorem password_mem (hrun : Reach (Served S) (Config.fresh w) c) {i : Nat}
    {th : Thread (server τ P)} (hi : c.threads[i]? = some th) {u p : Bytes}
    (hreq : th.req = .registerUser u p ∨ th.req = .login u p) : S p := by
  obtain ⟨b, -, hok, -⟩ := hrun.started hi (Nat.zero_le _)
  refine hok.1.1.passwords u p ?_
  rcases hreq with hreq | hreq
  · exact Or.inl (congrArg _ hreq)
  · exact Or.inr (congrArg _ hreq)

/-! ### Logging in -/

omit [LinearOrder τ] [FloorRing τ] [Field τ] in
theorem verifyPassword_seedHash (hpw : P.lib.PwhashExact S) {password : Bytes} (hS : S password) :
    P.auth.verifyPassword password UsersTable.seedHash = true ↔ password = seedPassword := by
  have hcstr : cstr UsersTable.seedHash = UsersTable.seedHash := by decide +kernel
  rw [AuthManager.verifyPassword, hcstr]
  exact hpw.seed password hS

/-- A login that has ended, whose statements were answered, has returned. -/
theorem login_returns {th : Thread (server τ P)} (hp : Path (P.program th.req) th.log th.rest)
    {username password : Bytes} (hreq : th.req = .login username password)
    (htext : (pgText username).isSome)
    (hanswered : ∀ e ∈ th.log, e.cmd.isSql = true → e.choice = .done) (hdone : th.rest.Done) :
    ∃ r, th.rest = .ret (.auth r) := by
  have hp' := hp
  rw [hreq] at hp
  rcases login_path hp with ⟨-, _, hq⟩ | ⟨e₁, hl, hq⟩ | ⟨e₁, e₂, user, b, h₁, hpw, h₂, hq⟩
  · rw [hq] at hdone
    exact hdone.elim
  · rcases hq with ⟨h₁, -⟩ | ⟨_, -, -, hq⟩ | ⟨_, -, -, _, hq⟩
    · -- an answered lookup of a text finds a row or none
      have hmem : e₁ ∈ th.log := by rw [hl]; simp
      have hx := exec_of_mem hp' hmem h₁
      rw [hanswered e₁ hmem (by rw [h₁.cmd_eq]; rfl)] at hx
      obtain ⟨t, ht⟩ := Option.isSome_iff_exists.mp htext
      simp [exec, statement, ht] at hx
    · exact ⟨_, hq⟩
    · rw [hq] at hdone
      exact hdone.elim
  · rcases hq with ⟨-, _, hq⟩ | ⟨e₃, T, h₃, ⟨-, hq⟩ | ⟨e₄, r', h₄, hl, hq⟩⟩
    · rw [hq] at hdone
      exact hdone.elim
    · rw [hq] at hdone
      exact hdone.elim
    · exact ⟨_, hq⟩

/-- A login returns success if a row for it is there as long as it is in service. -/
theorem login_succeeds (hrun : Reach (Served S) (Config.fresh w) c) {j : Nat}
    {th : Thread (server τ P)} (hj : c.threads[j]? = some th) {username password : Bytes}
    (hreq : th.req = .login username password) (hdone : th.rest.Done)
    (htext : (pgText username).isSome)
    (hrow : ∀ b, Reach (Served S) (Config.fresh w) b → Reach (Served S) b c →
      (∃ th', b.threads[j]? = some th' ∧ ¬ th'.rest.Done) → ∃ u ∈ b.world.users.rows,
        u.username = cstr username ∧ P.auth.verifyPassword password u.passwordHash = true) :
    ∃ r, th.rest = .ret (.auth r) ∧ r.success = true := by
  have hp := hrun.path_at hj
  obtain ⟨r, hret⟩ := login_returns hp hreq htext (by
    intro e he hsql
    obtain ⟨before, b, b', hm⟩ := hrun.moment_at hj he
    obtain ⟨k, hb, -⟩ := hm.thread
    exact hm.allowed.1.1.answered j _ _ _ k rfl hb rfl hsql) hdone
  refine ⟨r, hret, login_of_row hp hreq ?_ hret⟩
  intro e he
  obtain ⟨before, b, b', hm⟩ := hrun.moment_at hj he
  obtain ⟨k, hb, -⟩ := hm.thread
  obtain ⟨u, hu, hname, hverify⟩ := hrow b hm.reach
    (((Reach.refl b).tail hm.allowed hm.next).trans hm.later) ⟨_, hb, fun hd => hd⟩
  rw [hm.pre] at hu
  exact ⟨u, by rw [← hname]; exact UsersTable.byName_of_mem hu, hverify⟩

/-- While request `j` is in service, an earlier one is as it will be. -/
theorem earlier_done {b : Config (server τ P)} (hb : Reach (Served S) (Config.fresh w) b)
    (hbc : Reach (Served S) b c) {i j : Nat} (hij : i ≠ j) {th th' : Thread (server τ P)}
    (hj : b.threads[j]? = some th)
    (hbusy : ¬ th.rest.Done) (hi : c.threads[i]? = some th') (hlt : i < b.threads.length) :
    b.threads[i]? = some th' ∧ i < j := by
  have hone := hb.oneBusy fun _ _ h => h.1.1.alone
  have hlast := hone j th hj hbusy
  have hdone : (b.threads[i]).rest.Done := by
    by_contra hbusy'
    have := hone i _ (List.getElem?_eq_getElem hlt) hbusy'
    omega
  have hsame := hbc.thread_done (List.getElem?_eq_getElem hlt) hdone
  rw [hi] at hsame
  exact ⟨by rw [hsame]; exact List.getElem?_eq_getElem hlt, by omega⟩

/-- **Who logs in has an account**: the first one, or one registered before under exactly this
name and password. -/
theorem account_of_login (hpw : P.lib.PwhashExact S) (hw : ∀ u ∈ w.users.rows, IsSeed u)
    (hrun : Reach (Served S) (Config.fresh w) c) {j : Nat} {th : Thread (server τ P)}
    (hj : c.threads[j]? = some th) {username password : Bytes}
    (hreq : th.req = .login username password) {r : AuthResult} (hret : th.rest = .ret (.auth r))
    (hr : r.success = true) :
    (username = ascii "paulsiv" ∧ password = seedPassword) ∨
    ∃ i th', i < j ∧ c.threads[i]? = some th' ∧
      ∃ l : Registered th', l.username = username ∧ l.password = password := by
  have hp := hrun.path_at hj
  have hS := password_mem hrun hj (Or.inr hreq)
  obtain ⟨l, -⟩ := loggedIn_of_success hp hreq hret hr
  obtain ⟨hu, hpass⟩ := Request.login.inj (l.req.symm.trans hreq)
  obtain ⟨b, b', hm⟩ := hrun.moment [] _ hj l.log (by simp)
  obtain ⟨k, hb, -⟩ := hm.thread_is l.found_is
  have hfound := exec_userByName (exec_of_mem hp (by rw [l.log]; simp) l.found_is)
  rw [← hm.pre, hu] at hfound
  have hauth := l.authenticated
  rw [hpass] at hauth
  obtain ⟨hmem, hname⟩ := UsersTable.byName_some hfound
  rw [hu] at hb
  have hwhole : cstr username = username := by
    rcases hm.allowed.1.2.looked j _ _ username password k rfl hb hreq rfl with h | hnone
    · exact h
    · rw [hfound] at hnone
      cases hnone
  rcases accounted hpw.toPwhash hw hm.reach l.user hmem with ⟨hseed, hhash⟩ |
    ⟨i, th', hi, l', hun, hh⟩
  · rw [hhash, verifyPassword_seedHash hpw hS] at hauth
    exact Or.inl ⟨by rw [← hwhole, ← hname, hseed], hauth⟩
  · refine Or.inr ?_
    have hp' := hm.reach.path_at hi
    have hdone : th'.rest.Done := by
      rw [l'.returned hp']
      exact trivial
    have hbc := ((Reach.refl b).tail hm.allowed hm.next).trans hm.later
    have hi' := hbc.thread_done hi hdone
    have hij : i ≠ j := by
      rintro rfl
      rw [hi] at hb
      rw [congrArg Thread.rest (Option.some.inj hb)] at hdone
      exact hdone
    obtain ⟨salt, hsalt⟩ := l'.hash_eq hp'
    rw [hh, hsalt, AuthManager.verifyPassword, hpw.cstr_eq] at hauth
    have hS' := password_mem hrun hi' (Or.inl l'.req)
    refine ⟨i, th', ?_, hi', l', by rw [← hun, hname, hwhole], (hpw.exact _ _ _ hS' hS hauth).symm⟩
    exact (earlier_done hm.reach hbc hij hb (fun hd => hd) hi'
      (List.getElem?_eq_some_iff.mp hi).1).2

/-- **An account logs in.** -/
theorem login_of_account (hpw : P.lib.PwhashExact S) {t : Int} (hw : w.users = UsersTable.seeded t)
    (hrun : Reach (Served S) (Config.fresh w) c) {j : Nat} {th : Thread (server τ P)}
    (hj : c.threads[j]? = some th) {username password : Bytes}
    (hreq : th.req = .login username password) (hdone : th.rest.Done)
    (haccount : (username = ascii "paulsiv" ∧ password = seedPassword) ∨
      ∃ i th', i < j ∧ c.threads[i]? = some th' ∧
        ∃ l : Registered th', l.username = username ∧ l.password = password) :
    ∃ r, th.rest = .ret (.auth r) ∧ r.success = true := by
  rcases haccount with ⟨rfl, rfl⟩ | ⟨i, th', hij, hi, l, rfl, rfl⟩
  · refine login_succeeds hrun hj hreq hdone (by decide) ?_
    intro b hb _ _
    have hmem : UsersTable.seedUser t ∈
        (Config.fresh w : Config (server τ P)).world.users.rows := by
      show UsersTable.seedUser t ∈ w.users.rows
      rw [hw]
      exact List.mem_singleton_self _
    refine ⟨UsersTable.seedUser t, users_later hb hmem,
      (by decide : ascii "paulsiv" = cstr (ascii "paulsiv")), ?_⟩
    exact (verifyPassword_seedHash hpw (password_mem hrun hj (Or.inr hreq))).mpr rfl
  · have hp := hrun.path_at hi
    have hlooked := exec_of_mem hp (by rw [l.log]; simp) l.looked_is
    have htext : (pgText l.username).isSome := by
      cases ht : pgText l.username with
      | some t => rfl
      | none =>
          simp only [exec, ht] at hlooked
          rcases statement_cases hlooked with ⟨hr, -⟩ | ⟨hr, -⟩ <;> cases hr
    refine login_succeeds hrun hj hreq hdone htext ?_
    rintro b hb hbc ⟨th₀, hth₀, hbusy⟩
    have hlast := (hb.oneBusy fun _ _ h => h.1.1.alone) j th₀ hth₀ hbusy
    obtain ⟨hi', -⟩ := earlier_done hb hbc (Nat.ne_of_lt hij) hth₀ hbusy hi (by omega)
    obtain ⟨u, hu, hname, hhash⟩ := l.row hpw.toPwhash (fun _ _ h => h.2.1)
        (fun _ _ h => h.2.2) hb hi'
    obtain ⟨salt, hsalt⟩ := l.hash_eq hp
    refine ⟨u, hu, hname, ?_⟩
    rw [hhash, hsalt, AuthManager.verifyPassword, hpw.cstr_eq]
    exact hpw.accepts salt l.password

/-- A registration that does not return success writes no row while it is in service. -/
theorem rows_of_failure (hrun : Reach (Served S) (Config.fresh w) c) {b : Config (server τ P)}
    (hb : Reach (Served S) (Config.fresh w) b) (hbc : Reach (Served S) b c)
    (hidle : ∀ th ∈ b.threads, th.rest.Done) {i : Nat} (hi : i = b.threads.length)
    (hlast : c.threads.length = i + 1) {th : Thread (server τ P)} (hth : c.threads[i]? = some th)
    (hfail : ∀ r, th.rest = .ret (.auth r) → r.success = false) :
    c.world.users.rows = b.world.users.rows := by
  have key : ∀ d, Reach (Served S) b d → d.world.users.rows = b.world.users.rows ∨
      ∃ j th, i ≤ j ∧ d.threads[j]? = some th ∧ Nonempty (Registered th) := by
    intro d hbd
    induction hbd with
    | refl => exact Or.inl rfl
    | @tail d d' s hbd hs hn ih =>
        have hd := hb.trans hbd
        have hsound := hd.path (Config.fresh_sound w)
        rcases ih with hsame | ⟨j, th, hij, hj, ⟨l⟩⟩
        · rcases users_next_registered hsound hn with hrows | ⟨j, ch, th, th', l, k, stored, row, -,
            hj, hrest, hj', -⟩
          · exact Or.inl (hrows.trans hsame)
          · refine Or.inr ⟨j, th', ?_, hj', ⟨l⟩⟩
            -- what was there before is done, and inserts nothing
            by_contra hlt
            have hold := List.getElem?_eq_getElem (l := b.threads) (i := j) (by omega)
            have hdone := hidle _ (List.mem_of_getElem? hold)
            rw [hbd.thread_done hold hdone, Option.some.injEq] at hj
            rw [hj, hrest] at hdone
            exact hdone
        · have hdone : th.rest.Done := by
            rw [l.returned (hsound th (List.mem_of_getElem? hj))]
            exact trivial
          exact Or.inr ⟨j, th, hij, ((Reach.refl d).tail hs hn).thread_done hj hdone, ⟨l⟩⟩
  rcases key c hbc with hsame | ⟨j, th', hij, hj, ⟨l⟩⟩
  · exact hsame
  · have hlt := (List.getElem?_eq_some_iff.mp hj).1
    obtain rfl : j = i := by omega
    obtain rfl := Option.some.inj (hth.symm.trans hj)
    have hret := l.returned (hrun.path_at hth)
    cases hfail _ hret

end Runs

/-- **When the accounts are exactly what was registered.**  In a sequential run from the seed
table in which every name that is inserted is stored as given, and no login looks up a name
whose part before a NUL is an account's, a login that has ended succeeded exactly if its
credentials are the first account's or those of an earlier registration that
returned success; and a registration that does not return success leaves the rows as they
were when it was called. -/
theorem accounts_exact {S : Bytes → Prop} (hpw : P.lib.PwhashExact S) {w : World τ} {t : Int}
    (hw : w.users = UsersTable.seeded t) {c : Config (server τ P)}
    (hrun : Reach (fun c s => Sequential S c s ∧ NamesWhole c s) (Config.fresh w) c) :
    (∀ (j : Nat) (th : Thread (server τ P)) (username password : Bytes), c.threads[j]? = some th →
      th.req = .login username password → th.rest.Done →
      ((∃ r, th.rest = .ret (.auth r) ∧ r.success = true) ↔
        (username = ascii "paulsiv" ∧ password = seedPassword) ∨
        ∃ (i : Nat) (th' : Thread (server τ P)) (r : AuthResult), i < j ∧
          c.threads[i]? = some th' ∧ th'.req = .registerUser username password ∧
          th'.rest = .ret (.auth r) ∧ r.success = true)) ∧
    ∀ (i : Nat) (th : Thread (server τ P)) (username password : Bytes), c.threads[i]? = some th →
      th.req = .registerUser username password →
      (∀ r, th.rest = .ret (.auth r) → r.success = false) →
      ∀ b, Reach (fun c s => Sequential S c s ∧ NamesWhole c s) (Config.fresh w) b →
        Reach (fun c s => Sequential S c s ∧ NamesWhole c s) b c →
        (∀ th ∈ b.threads, th.rest.Done) → b.threads.length = i → c.threads.length = i + 1 →
        c.world.users.rows = b.world.users.rows := by
  have hrun' := reach_served (Reach.refl _) hrun
  have hseed : ∀ u ∈ w.users.rows, IsSeed u := by
    intro u hu
    rw [hw] at hu
    rw [List.mem_singleton.mp hu]
    exact ⟨rfl, rfl⟩
  refine ⟨?_, ?_⟩
  · intro j th username password hj hreq hdone
    constructor
    · intro ⟨r, hret, hr⟩
      rcases account_of_login hpw hseed hrun' hj hreq hret hr with hfirst |
        ⟨i, th', hij, hi, l, rfl, rfl⟩
      · exact Or.inl hfirst
      · have hp := hrun.path_at hi
        exact Or.inr ⟨i, th', _, hij, hi, l.req, l.returned hp, rfl⟩
    · intro haccount
      refine login_of_account hpw hw hrun' hj hreq hdone ?_
      rcases haccount with hfirst | ⟨i, th', r, hij, hi, hreq', hret, hr⟩
      · exact Or.inl hfirst
      · have hp := hrun.path_at hi
        obtain ⟨l, hl⟩ := registered_of_success hp hreq' hret hr
        exact Or.inr ⟨i, th', hij, hi, l, hl⟩
  · intro i th username password hi hreq hfail b hb hbc hidle hlen hlast
    exact rows_of_failure hrun' (reach_served (Reach.refl _) hb) (reach_served hb hbc) hidle
      hlen.symm hlast hi hfail

/-! ### An account that was registered, and one that was not -/

namespace Allows

variable {w : World τ} {ths : List (Thread (server τ P))} {req : Request}
  {events : List (ServerEvent τ P)} {S : Bytes → Prop}

theorem sequential (hths : ∀ th ∈ ths, th.rest.Done)
    (hsql : ∀ e ∈ events, e.cmd.isSql = true → e.choice = .done)
    (hS : ∀ u p, req = .registerUser u p ∨ req = .login u p → S p) :
    Allows (Sequential S) w ths req events where
  start := by
    refine ⟨hths, ?_, ?_⟩
    · intro i ch th cmd k hs
      cases hs
    · intro u p hs
      exact hS u p (hs.imp Step.start.inj Step.start.inj)
  run n e k hn := by
    refine ⟨trivial, ?_, ?_⟩
    · intro i ch th cmd k' hs hth hrest hcmd
      cases hs
      exact hsql e (List.mem_of_getElem? hn) (by rw [Allows.last_cmd hth hrest]; exact hcmd)
    · intro u p hs
      rcases hs with hs | hs <;> cases hs

theorem namesWhole (hinsert : ∀ e ∈ events, ∀ name hash, e.cmd = .insertUser name hash →
      varchar 64 (cstr name) = some name) (hlook : ∀ u p, req = .login u p → cstr u = u) :
    Allows NamesWhole w ths req events where
  start := by
    refine ⟨?_, ?_⟩
    · intro i ch th name hash k stored hs
      cases hs
    · intro i ch th u p k hs
      cases hs
  run n e k hn := by
    refine ⟨?_, ?_⟩
    · intro i ch th name hash k' stored hs hth hrest hstored
      cases hs
      rw [hinsert e (List.mem_of_getElem? hn) name hash (Allows.last_cmd hth hrest)] at hstored
      exact (Option.some.inj hstored).symm
    · intro i ch th u p k' hs hth hreq hrest
      cases hs
      rw [List.getElem?_concat_length, Option.some.injEq] at hth
      rw [← hth] at hreq
      exact Or.inl (hlook u p hreq)

end Allows

namespace Sample

/-- The passwords the stand-in hash tells apart. -/
def Short (pw : Bytes) : Prop := pw.length ≤ 21

theorem pwhashExact : lib.PwhashExact Short where
  toPwhash := pwhash
  exact salt pw pw' h h' hverify := by
    have htake := (pwhashVerify_pwhashStr salt pw pw').mp hverify
    unfold Short at h h'
    rw [List.take_of_length_le (by rw [length_hex]; omega),
      List.take_of_length_le (by rw [length_hex]; omega)] at htake
    exact (hex_injective htake).symm
  seed pw _ := by
    rw [pwhashVerify_seedHash, decide_eq_true_iff]
    rfl

/-- A registration under `name`, and then a login under `name'`, as the store sees them. -/
theorem register_login (name name' : Bytes)
    {ok : Config (server ℚ app) → Step (server ℚ app) → Prop}
    {w' : World ℚ} {u : User} (hname : ¬ (name = [] ∨ password.length < 8))
    (htext : (pgText name).isSome) (hfree : world.users.byName (cstr name) = none)
    (hw : world.withUser name (cstr (lib.pwhashStr [] password)) = some w')
    (htext' : (pgText name').isSome) (hfind : w'.users.byName (cstr name') = some u)
    (hverify : auth.verifyPassword password u.passwordHash = true)
    (hok : Allows ok world [] (.registerUser name password)
      (registerEvents app world name password [] w'))
    (hok' : Allows ok w' [registerThread app world name password [] w'] (.login name' password)
      (loginEvents app w' name' u draw .done (some .status) (w'.withSession u draw))) :
    Reach ok (Config.fresh world) ⟨w'.withSession u draw,
      [registerThread app world name password [] w',
        loginThread app w' name' password u draw .done (some .status)
          (w'.withSession u draw)]⟩ := by
  have hregister := reach_registerUser (P := app) [] hname htext hfree hw hok
  have hx : exec app.lib w' (.setex (sessionKey (hex draw)) SessionRepository.ttlSeconds
      (toDecimal u.id)) .done = some (some .status, w'.withSession u draw) := rfl
  have hlogin := reach_login (P := app) htext' hfind hverify (b := draw) (by decide) hx hok'
  exact hregister.trans hlogin

end Sample

/-- A new account logs in. -/
theorem accounts_exact_sample :
    ∃ (c : Config (server ℚ Sample.app)) (th : Thread (server ℚ Sample.app)),
      Reach (fun c s => Sequential Sample.Short c s ∧ NamesWhole c s)
        (Config.fresh Sample.world) c ∧
      c.threads[1]? = some th ∧ th.req = .login Sample.newcomer Sample.password ∧
      ∃ r, th.rest = .ret (.auth r) ∧ r.success = true := by
  obtain ⟨w', u, hw, hfind, hverify⟩ : ∃ w' u, Sample.world.withUser Sample.newcomer
      (cstr (Sample.lib.pwhashStr [] Sample.password)) = some w' ∧
      w'.users.byName (cstr Sample.newcomer) = some u ∧
      Sample.auth.verifyPassword Sample.password u.passwordHash = true :=
    ⟨_, _, rfl, rfl, by decide +kernel⟩
  have hname : cstr Sample.newcomer = Sample.newcomer := by decide
  have hvarchar : varchar 64 (cstr Sample.newcomer) = some Sample.newcomer := by decide
  have hpassword : Sample.Short Sample.password := by
    show Sample.password.length ≤ 21
    decide
  have hrun := Sample.register_login Sample.newcomer Sample.newcomer
    (by decide) (by decide) (by decide) hw (by decide) hfind hverify
    ((Allows.sequential (by simp) (by simp [registerEvents, Cmd.isSql]) (by
      intro u p h
      rcases h with h | h <;> cases h
      exact hpassword)).and (Allows.namesWhole (by
        intro e he name hash heq
        simp only [registerEvents, List.mem_cons, List.not_mem_nil, or_false] at he
        rcases he with rfl | rfl | rfl <;> cases heq
        exact hvarchar) (by
        intro u p h
        cases h)))
    ((Allows.sequential (by simp [registerThread, Program.Done])
      (by simp [loginEvents, Cmd.isSql]) (by
      intro u p h
      rcases h with h | h <;> cases h
      exact hpassword)).and (Allows.namesWhole (by simp [loginEvents]) (by
        intro u p h
        cases h
        exact hname)))
  refine ⟨_, _, hrun, rfl, rfl, ?_⟩
  refine ((accounts_exact (P := Sample.app) Sample.pwhashExact (t := 0) rfl hrun).1 1 _
    Sample.newcomer Sample.password rfl rfl trivial).mpr (Or.inr ?_)
  exact ⟨0, _, _, Nat.zero_lt_one, rfl, rfl, rfl, rfl⟩

/-- **An account nobody registered.**  A registration under a name with a NUL takes the part
before it, and a login under that part succeeds. -/
theorem accounts_nul :
    ∃ (c : Config (server ℚ Sample.app)) (th th' : Thread (server ℚ Sample.app)) (r : AuthResult),
      Reach (Sequential Sample.Short) (Config.fresh Sample.world) c ∧
      Sample.lib.PwhashExact Sample.Short ∧ c.threads = [th, th'] ∧
      th.req = .registerUser (Sample.newcomer ++ [0, 120]) Sample.password ∧
      th'.req = .login Sample.newcomer Sample.password ∧
      th'.rest = .ret (.auth r) ∧ r.success = true := by
  obtain ⟨w', u, hw, hfind, hverify⟩ : ∃ w' u, Sample.world.withUser (Sample.newcomer ++ [0, 120])
      (cstr (Sample.lib.pwhashStr [] Sample.password)) = some w' ∧
      w'.users.byName (cstr Sample.newcomer) = some u ∧
      Sample.auth.verifyPassword Sample.password u.passwordHash = true :=
    ⟨_, _, rfl, rfl, by decide +kernel⟩
  have hpassword : Sample.Short Sample.password := by
    show Sample.password.length ≤ 21
    decide
  have hrun := Sample.register_login (Sample.newcomer ++ [0, 120])
    Sample.newcomer (by decide) (by decide) (by decide) hw (by decide) hfind hverify
    (Allows.sequential (by simp) (by simp [registerEvents, Cmd.isSql]) (by
      intro u p h
      rcases h with h | h <;> cases h
      exact hpassword))
    (Allows.sequential (by simp [registerThread, Program.Done])
      (by simp [loginEvents, Cmd.isSql]) (by
      intro u p h
      rcases h with h | h <;> cases h
      exact hpassword))
  exact ⟨_, _, _, _, hrun, Sample.pwhashExact, rfl, rfl, rfl, rfl, rfl⟩

end PqcApi
