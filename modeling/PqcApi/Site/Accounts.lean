/-
What an account is let see.

The profile and the health report start with the row of the account a token is let in as.  The
row is read at every visit, so what an operator does to it counts from then on; and as long
as no operator acts, rows only come, and come without privileges.
-/
import PqcApi.Site.Mediation

namespace PqcApi

open Concurrent

variable {τ : Type} [Field τ] [LinearOrder τ] [FloorRing τ]

/-! ### How the rows change -/

/-- No row of this id is an administrator's. -/
def World.Unprivileged (w : World τ) (id : Int) : Prop :=
  ∀ u ∈ w.users.rows, u.id = id → u.role ≠ 1

/-- A command leaves the rows of `users` as they are, or adds one, without privileges. -/
theorem exec_rows {L : Lib} {w w' : World τ} {c : Cmd} {ch : Choice} {r : Reply τ c}
    (h : exec L w c ch = some (r, w')) :
    w'.users.rows = w.users.rows ∨ ∃ row, w'.users.rows = w.users.rows ++ [row] ∧ row.role = 0 := by
  rcases exec_users h with hsame | ⟨name, hash, -, hw⟩
  · exact Or.inl (by rw [hsame])
  · obtain ⟨hash', users, -, stored, -, -, hins, rfl⟩ := withUser_some hw
    rcases UsersTable.insert_cases hins with ⟨-, hrows⟩ | ⟨-, hrows⟩
    · exact Or.inr ⟨_, hrows, rfl⟩
    · exact Or.inl hrows

namespace Site

variable {S : Site} {th : Thread (site τ S)} {th₀ : Thread (server τ S.app)}

/-- **What a step does to the rows of `users`.** -/
theorem next_rows {c c' : Config (site τ S)} {s : Step (site τ S)} (h : c.next s = some c') :
    c'.world.users.rows = c.world.users.rows ∨
    (∃ row, c'.world.users.rows = c.world.users.rows ++ [row] ∧ row.role = 0) ∨
    ∃ op, s = .move (.inr op) ∧ c.world.operate op = some c'.world := by
  rcases Config.next_cases h with ⟨m, w, rfl, hm, rfl⟩ | ⟨r, rfl, rfl⟩ |
    ⟨i, ch, req, cmd, k, log, r, w, rfl, hi, hx, rfl⟩
  · cases m with
    | inl m => exact Or.inl (move_users hm)
    | inr op => exact Or.inr (Or.inr ⟨op, rfl, hm⟩)
  · exact Or.inl rfl
  · cases cmd with
    | inl cmd =>
        rcases exec_rows (L := S.lib) (show exec S.lib c.world cmd ch = some (r, w) from hx) with
          hsame | hnew
        · exact Or.inl hsame
        · exact Or.inr (Or.inl hnew)
    | inr cmd =>
        obtain ⟨-, rfl⟩ := Front.exec_inr hx
        exact Or.inl rfl

/-- Undisturbed, rows only come. -/
theorem rows_next {c c' : Config (site τ S)} {s : Step (site τ S)} (h : c.next s = some c')
    (hu : (S.front τ).Undisturbed c s) : c.world.users.rows ⊆ c'.world.users.rows := by
  rcases next_rows h with hsame | ⟨row, hnew, -⟩ | ⟨op, rfl, -⟩
  · rw [hsame]
    exact List.Subset.refl _
  · rw [hnew]
    exact List.subset_append_left _ _
  · exact absurd rfl (hu op)

/-- Undisturbed, an administrator is one of the start. -/
theorem admins_of_start {ok : Config (site τ S) → Step (site τ S) → Prop} {w : World τ}
    {c : Config (site τ S)} (h : Reach ok (Config.fresh w) c)
    (hok : ∀ c s, ok c s → (S.front τ).Undisturbed c s) :
    ∀ u ∈ c.world.users.rows, u.role = 1 → u ∈ w.users.rows := by
  refine h.invariant (I := fun c : Config (site τ S) =>
    ∀ u ∈ c.world.users.rows, u.role = 1 → u ∈ w.users.rows) (fun u hu _ => hu) ?_
  intro b c s hb hs hn u hu hrole
  rcases next_rows hn with hsame | ⟨row, hnew, hrow⟩ | ⟨op, rfl, -⟩
  · rw [hsame] at hu
    exact hb u hu hrole
  · rw [hnew] at hu
    rcases List.mem_append.mp hu with hold | hu
    · exact hb u hold hrole
    · rw [List.mem_singleton.mp hu, hrow] at hrole
      cases hrole
  · exact absurd rfl (hok b _ hs op)

/-- What a thread has seen among the rows is there from then on. -/
theorem row_stays {w : World τ} {c : Config (site τ S)} (h : Reach Allowed (Config.fresh w) c)
    {i : Nat} (hi : c.threads[i]? = some th) {e : Event (site τ S).toMachine} (he : e ∈ th.log)
    {u : User} (hu : u ∈ e.pre.users.rows) : u ∈ c.world.users.rows := by
  have htrans : ∀ a b c : World τ, a.users.rows ⊆ b.users.rows → b.users.rows ⊆ c.users.rows →
      a.users.rows ⊆ c.users.rows := fun _ _ _ => List.Subset.trans
  have hasc := h.ascends (R := fun w w' : World τ => w.users.rows ⊆ w'.users.rows)
    (fun _ => List.Subset.refl _) htrans (fun hok hs => rows_next hs hok.undisturbed)
    (Nat.zero_le i) hi
  obtain ⟨-, hpre, hpost⟩ := hasc.mem htrans e he
  exact hpost (hpre hu)

/-! ### The row of an account -/

/-- A visit to one of the two, that has read the row of its account. -/
structure RowRead (th : Thread (site τ S)) (f : Option User → Visiting τ HttpResponse) where
  key : Bytes
  userId : Bytes
  id : Int
  user : Option User
  clock : Event (site τ S).toMachine
  looked : Event (site τ S).toMachine
  read : Event (site τ S).toMachine
  rest : List (Event (site τ S).toMachine)
  log : th.log = [clock, looked] ++ read :: rest
  clock_cmd : clock.cmd = .inl .now
  looked_is : Event.Is (S := (services τ).extend looks) looked (.inl (.get key))
    (some (.string userId))
  stoi_eq : stoi userId = some id
  read_is : Event.Is (S := (services τ).extend looks) read (.inr (.userById id)) (some user)
  own : ∀ e ∈ rest, e.cmd.isRight = true
  path : Path (f user) rest th.rest

/-- A visit that has found the session of its token. -/
structure SessionRead (th : Thread (site τ S)) where
  key : Bytes
  userId : Bytes
  clock : Event (site τ S).toMachine
  looked : Event (site τ S).toMachine
  rest : List (Event (site τ S).toMachine)
  log : th.log = clock :: looked :: rest
  clock_cmd : clock.cmd = .inl .now
  looked_is : Event.Is (S := (services τ).extend looks) looked (.inl (.get key))
    (some (.string userId))
  own : ∀ e ∈ rest, e.cmd.isRight = true

/-- The session of a visit that has read its row. -/
def RowRead.session {f : Option User → Visiting τ HttpResponse} (R : RowRead th f) :
    SessionRead th where
  key := R.key
  userId := R.userId
  clock := R.clock
  looked := R.looked
  rest := R.read :: R.rest
  log := R.log
  clock_cmd := R.clock_cmd
  looked_is := R.looked_is
  own e he := by
    rcases List.mem_cons.mp he with rfl | hrest
    · rw [R.read_is.cmd_eq]
      rfl
    · exact R.own e hrest

/-- The database has refused the look-up of the row.  The handler has thrown, and the client gets
status 500 from the framework and nothing of any account. -/
structure RowRefused (th : Thread (site τ S)) : Prop where
  rest : th.rest = .throw .query
  refused : ∃ e ∈ th.log, ∃ id,
    Event.Is (S := (services τ).extend looks) e (.inr (.userById id)) none

/-- **How such a visit ends**: refused, or with what it makes of the row it has read, or it has
thrown because the session names no number or because the row was refused. -/
theorem rowRead_of_done (hp : Path (S.endpoint th.req) th.log th.rest)
    {f : Option User → Visiting τ HttpResponse} {token : Bytes}
    (hback : S.back th.req = .verifyToken token)
    (hnone : S.finish th.req (.ok (.user none)) =
      (.ret (errorResponse "Unauthorized" 401) : Visiting τ HttpResponse))
    (hsome : ∀ userId, S.finish th.req (.ok (.user (some userId))) =
      (managed (stoiOrThrow userId)).bind fun id => (UserRepository.findById id).bind f)
    (hdone : th.rest.Done) :
    th.rest = .ret (errorResponse "Unauthorized" 401) ∨
    (∃ s : SessionRead th, stoi s.userId = none ∧ th.rest = .throw .outOfRange) ∨
    RowRefused th ∨ Nonempty (RowRead th f) := by
  obtain ⟨th₀, hb⟩ := Front.Behind.of_path (X := S.front τ) hp
  have hreq : th₀.req = .verifyToken token := (show th₀.req = S.back th.req from hb.req).trans hback
  rcases entered_verifyToken hb.path hreq with ⟨-, ⟨c, k, hwait⟩ | hrefused⟩ | ⟨a, ha, hret₀⟩
  · rw [(hb.waits hwait).2] at hdone
    exact hdone.elim
  · exact Or.inl (end_of hb (Program.outcome_ok.mpr hrefused) (by exact trivial) hnone)
  obtain ⟨own, hlog, hown, hpath⟩ := hb.goes_on (Program.outcome_ok.mpr hret₀)
  have hlog' : th.log = (S.front τ).event a.clock :: (S.front τ).event a.looked :: own := by
    rw [hlog, a.log, ha]
    rfl
  have hclock : ((S.front τ).event a.clock).cmd = .inl .now :=
    congrArg Sum.inl a.clock_is.cmd_eq
  have hlooked := Front.event_is (X := S.front τ) a.looked_is
  change Path (S.finish th.req (.ok (.user (some a.userId)))) own th.rest at hpath
  rw [hsome, ownRow_eq] at hpath
  refine Or.inr ?_
  cases hstoi : stoi a.userId with
  | none =>
      rw [hstoi] at hpath
      exact Or.inl ⟨⟨sessionKey a.sessionId, a.userId, _, _, own, hlog', hclock, hlooked, hown⟩,
        hstoi, (path_throw.mp hpath).2⟩
  | some id =>
      rw [hstoi] at hpath
      obtain ⟨e, reply, rest, -, he, rfl, hpath⟩ := (path_call_done hdone).mp hpath
      cases reply with
      | none =>
          exact Or.inr (Or.inl ⟨(path_throw.mp hpath).2, e, by rw [hlog']; simp, id, he⟩)
      | some user =>
          exact Or.inr (Or.inr ⟨⟨sessionKey a.sessionId, a.userId, id, user, _, _, e, rest, hlog',
            hclock, hlooked, hstoi, he, fun d hd => hown d (List.mem_cons_of_mem _ hd), hpath⟩⟩)

/-- What a look-up by id finds is the row of that id. -/
theorem look_userById {w : World τ} {id : Int} {ch : Choice} {user : Option User}
    (h : w.look (.userById id) ch = some (some user)) : user = w.users.byId id := by
  simp only [World.look, Option.map_eq_some_iff] at h
  obtain ⟨⟨reply, w'⟩, hs, rfl⟩ := h
  rcases statement_cases hs with ⟨hr, -⟩ | ⟨hr, -⟩
  · exact Option.some.inj hr
  · cases hr

section Read

variable {f : Option User → Visiting τ HttpResponse}

/-- The row it has read was the account's at that moment. -/
theorem RowRead.row (R : RowRead th f) (hp : Path (S.endpoint th.req) th.log th.rest) :
    R.user = R.read.pre.users.byId R.id := by
  have hreal := Path.real hp R.read (by rw [R.log]; simp)
  exact look_userById (Front.exec_inr (R.read_is.exec hreal)).1

end Read

/-- The row a login has found was there. -/
theorem Welcome.row (v : Welcome th) (hp : Path (S.endpoint th.req) th.log th.rest) :
    ∃ e ∈ th.log, v.user ∈ e.pre.users.rows := by
  obtain ⟨e, he, his⟩ := v.found
  have hx := his.exec (Path.real hp e he)
  have hfound := exec_userByName (L := S.lib)
    (show exec S.lib e.pre (.userByName v.username) e.choice = some (some (some v.user), e.post)
      from hx)
  exact ⟨e, he, (UsersTable.byName_some hfound).1⟩

/-- Its id is a number that `stoi` reads back. -/
theorem Welcome.stoi_id (v : Welcome th) (hp : Path (S.endpoint th.req) th.log th.rest) :
    stoi (toDecimal v.user.id) = some v.user.id := by
  obtain ⟨e, -, hrow⟩ := v.row hp
  have hid := e.pre.users.ids _ hrow
  have hseq := e.pre.users.seq_le.2
  rw [serialMax] at hseq
  exact stoi_toDecimal (le_of_lt hid.1) (by omega)

/-! ### While no operator acts -/

/-- **The session of a visit is the session of its login.** -/
theorem session_of_login {w : World τ} (hw : w.NoSessions) {c : Config (site τ S)}
    (hrun : Reach Allowed (Config.fresh w) c) (hcodec : Codec c) {i : Nat}
    (hi : c.threads[i]? = some th) {req : HttpRequest} (hv : th.req.guarded = some req)
    (hin : ¬ Refused th) (s : SessionRead th) :
    ∃ user ∈ c.world.users.rows, ActsFor c req user ∧ stoi s.userId = some user.id := by
  obtain ⟨th₀, hb⟩ := thread_behind hrun hi
  obtain ⟨a⟩ := (gate hb hv).resolve_left hin
  obtain ⟨b, b', user, hm, hacts, huser⟩ := login_of_entered hw hrun hcodec hi hv hb a
  have hbc : Reach Allowed b c := ((Reach.refl b).tail hm.allowed hm.next).trans hm.later
  obtain ⟨j, th', v, token, hj, rfl, htoken, hsame⟩ := hacts.later hbc
  -- it is the session that was looked up
  have hname : s.userId = toDecimal v.user.id := by
    obtain ⟨own, hlog, -⟩ := hb.log
    rw [a.log] at hlog
    have hevent : s.looked = (S.front τ).event a.looked :=
      (List.cons.inj (List.cons.inj (s.log.symm.trans hlog)).2).1
    have hlooked := Front.event_is (X := S.front τ) a.looked_is
    rw [← hevent] at hlooked
    have hkey := Cmd.get.inj (Sum.inl.inj (s.looked_is.cmd_eq.symm.trans hlooked.cmd_eq))
    rw [← hkey] at hlooked
    exact (RedisReply.string.inj (Option.some.inj (s.looked_is.inj hlooked))).trans huser
  obtain ⟨e, he, hrow⟩ := v.row (hrun.path_at hj)
  refine ⟨v.user, row_stays hrun hj he hrow, ⟨j, th', v, token, hj, rfl, htoken, hsame⟩, ?_⟩
  rw [hname]
  exact v.stoi_id (hrun.path_at hj)

/-- **The row of a visit is the row of its login.** -/
theorem row_of_login {w : World τ} (hw : w.NoSessions) {c : Config (site τ S)}
    (hrun : Reach Allowed (Config.fresh w) c) (hcodec : Codec c) {i : Nat}
    (hi : c.threads[i]? = some th) {req : HttpRequest} (hv : th.req.guarded = some req)
    {f : Option User → Visiting τ HttpResponse} (R : RowRead th f) :
    ∃ user, R.user = some user ∧ user ∈ c.world.users.rows ∧ ActsFor c req user := by
  -- the moment after the row is read
  obtain ⟨d, d', hm⟩ := hrun.moment _ _ hi R.log (by simp)
  obtain ⟨k, -, hd'⟩ := hm.thread
  have hrund : Reach Allowed (Config.fresh w) d' := hm.reach.tail hm.allowed hm.next
  have hcodecd : Codec d' := hcodec.before hrund hm.later
  have hin : ∀ q, ¬ Refused (S := S) (τ := τ) ⟨th.req, q, [R.clock, R.looked] ++ [R.read]⟩ := by
    intro q h
    rcases h.1 R.read (by simp) with hcmd | ⟨key, hcmd⟩ <;> rw [R.read_is.cmd_eq] at hcmd <;>
      cases hcmd
  obtain ⟨user, hrowd, hacts, hid⟩ := session_of_login hw hrund hcodecd hd' hv (hin _)
    ⟨R.key, R.userId, R.clock, R.looked, [R.read], rfl, R.clock_cmd, R.looked_is, by
      intro e he
      rw [List.mem_singleton.mp he, R.read_is.cmd_eq]
      rfl⟩
  have hread : R.read ∈ th.log := by
    rw [R.log]
    simp
  have hsame_world : R.read.post = R.read.pre :=
    (Front.exec_inr (R.read_is.exec (Path.real (hrun.path_at hi) R.read hread))).2
  rw [hm.post, hsame_world] at hrowd
  refine ⟨user, ?_, row_stays hrun hi hread hrowd, ActsFor.later hm.later hacts⟩
  have hsame : R.id = user.id := Option.some.inj (R.stoi_eq.symm.trans hid)
  rw [R.row (hrun.path_at hi), hsame, UsersTable.byId_of_mem hrowd]

/-- **What a visit shows is the row of its login**, unless the row was refused. -/
theorem shows_row_of_login {w : World τ} (hw : w.NoSessions) {c : Config (site τ S)}
    (hrun : Reach Allowed (Config.fresh w) c) (hcodec : Codec c) {i : Nat}
    (hi : c.threads[i]? = some th) {req : HttpRequest} (hv : th.req.guarded = some req)
    {f : Option User → Visiting τ HttpResponse} {token : Bytes}
    (hback : S.back th.req = .verifyToken token)
    (hnone : S.finish th.req (.ok (.user none)) =
      (.ret (errorResponse "Unauthorized" 401) : Visiting τ HttpResponse))
    (hsome : ∀ userId, S.finish th.req (.ok (.user (some userId))) =
      (managed (stoiOrThrow userId)).bind fun id => (UserRepository.findById id).bind f)
    (hdone : th.rest.Done) :
    th.rest = .ret (errorResponse "Unauthorized" 401) ∨ RowRefused th ∨
      ∃ user ∈ c.world.users.rows, ActsFor c req user ∧
        ∃ rest, Path (M := (site τ S).toMachine) (f (some user)) rest th.rest := by
  rcases rowRead_of_done (hrun.path_at hi) hback hnone hsome hdone with
    hunauthorized | ⟨s, hstoi, hthrow⟩ | hrefused | ⟨⟨R⟩⟩
  · exact Or.inl hunauthorized
  · have hin : ¬ Refused th := by
      rintro ⟨-, ⟨c, k, hwait⟩ | hret⟩
      · rw [hthrow] at hwait
        cases hwait
      · rw [hthrow] at hret
        cases hret
    obtain ⟨user, -, -, hid⟩ := session_of_login hw hrun hcodec hi hv hin s
    rw [hstoi] at hid
    cases hid
  · exact Or.inr (Or.inl hrefused)
  · obtain ⟨user, huser, hrow, hacts⟩ := row_of_login hw hrun hcodec hi hv R
    exact Or.inr (Or.inr ⟨user, hrow, hacts, R.rest, huser ▸ R.path⟩)

/-- **No escalation.**  While the accounts are left to the site, whoever gets the health report
has come with the token of a login to an account that was an administrator's at the start. -/
theorem no_escalation {w : World τ} (hw : w.NoSessions) {c : Config (site τ S)}
    (hrun : Reach Allowed (Config.fresh w) c) (hcodec : Codec c) {i : Nat}
    (hi : c.threads[i]? = some th) {req : HttpRequest} (hreq : th.req = .adminHealth req)
    (hdone : th.rest.Done) :
    th.rest = .ret (errorResponse "Unauthorized" 401) ∨
    th.rest = .ret (errorResponse "Admin privileges required" 403) ∨ RowRefused th ∨
      ∃ user ∈ w.users.rows, user.role = 1 ∧ ActsFor c req user ∧ ∃ r, th.rest = .ret r := by
  rcases shows_row_of_login hw hrun hcodec hi (by rw [hreq]; rfl) (by rw [hreq]; rfl)
    (by rw [hreq]; rfl) (fun userId => by rw [hreq]; exact adminOf_bind S userId) hdone with
    hunauthorized | hrefused | ⟨user, hrow, hacts, rest, hpath⟩
  · exact Or.inl hunauthorized
  · exact Or.inr (Or.inr (Or.inl hrefused))
  by_cases hrole : user.role = 1
  · rw [healthOf, if_pos hrole] at hpath
    exact Or.inr (Or.inr (Or.inr ⟨user, admins_of_start hrun (fun _ _ h => h.undisturbed) user hrow
      hrole, hrole, hacts, report_returns hpath hdone⟩))
  · rw [healthOf, if_neg hrole] at hpath
    exact Or.inr (Or.inl (path_ret.mp hpath).2)

end Site

/-- **The first account gets the report**: it has been an administrator's from the start. -/
theorem no_escalation_report : ∃ user ∈ Sample.world.users.rows, user.role = 1 ∧
    Site.ActsFor ⟨Sample.session, [Sample.welcomeTh, Sample.healthTh]⟩ (Sample.request none)
      user ∧ ∃ r, Sample.healthTh.rest = .ret r := by
  have hstatus := Site.reportOf_status Sample.controllers 0
  have hth : [Sample.welcomeTh, Sample.healthTh][1]? = some Sample.healthTh := rfl
  rcases Site.no_escalation (S := Sample.controllers) (fun _ => rfl) Sample.reach_reported
    (fun _ _ _ _ l => Sample.codec l.user.id l.drawn l.time) hth rfl trivial with h | h | h | h
  · rw [Program.ret.inj h] at hstatus
    simp [errorResponse] at hstatus
  · rw [Program.ret.inj h] at hstatus
    simp [errorResponse] at hstatus
  · cases h.rest
  · exact h

namespace Site

variable {S : Site} {th : Thread (site τ S)}

/-- **The profile is one's own.**  While the accounts are left to the site, a visit that is let
in sees the row of the account its token is a login's to, and never that it is missing.  Where
the row is refused or cannot be dumped, it sees none. -/
theorem profile_of_login {w : World τ} (hw : w.NoSessions) {c : Config (site τ S)}
    (hrun : Reach Allowed (Config.fresh w) c) (hcodec : Codec c) {i : Nat}
    (hi : c.threads[i]? = some th) {req : HttpRequest} (hreq : th.req = .getProfile req)
    (hdone : th.rest.Done) :
    th.rest = .ret (errorResponse "Unauthorized" 401) ∨ RowRefused th ∨
      ∃ user ∈ c.world.users.rows, ActsFor c req user ∧
        th.rest = if (profileResponse S.lib user).dumpable then
            .ret ⟨200, .json (profileResponse S.lib user)⟩
          else .throw .json := by
  rcases shows_row_of_login hw hrun hcodec hi (by rw [hreq]; rfl) (by rw [hreq]; rfl)
    (by rw [hreq]; rfl) (fun userId => by rw [hreq]; exact profileOf_bind S userId) hdone with
    hunauthorized | hrefused | ⟨user, hrow, hacts, rest, hpath⟩
  · exact Or.inl hunauthorized
  · exact Or.inr (Or.inl hrefused)
  refine Or.inr (Or.inr ⟨user, hrow, hacts, ?_⟩)
  change Path (managed (jsonResponse (profileResponse S.lib user) 200)) _ _ at hpath
  unfold jsonResponse at hpath
  by_cases hdump : (profileResponse S.lib user).dumpable = true
  · rw [if_pos hdump] at hpath ⊢
    exact (path_ret.mp hpath).2
  · rw [if_neg hdump] at hpath ⊢
    exact (path_throw.mp hpath).2

end Site

/-- **The first account sees its row.** -/
theorem profile_of_login_first : ∃ user ∈ Sample.session.users.rows,
    Site.ActsFor ⟨Sample.session, [Sample.welcomeTh, Sample.profileTh]⟩ (Sample.request none)
      user ∧
    Sample.profileTh.rest = .ret ⟨200, .json (Site.profileResponse Sample.lib user)⟩ := by
  have hth : [Sample.welcomeTh, Sample.profileTh][1]? = some Sample.profileTh := rfl
  rcases Site.profile_of_login (S := Sample.controllers) (fun _ => rfl) Sample.reach_profiled
    (fun _ _ _ _ l => Sample.codec l.user.id l.drawn l.time) hth rfl trivial with
    h | h | ⟨user, hrow, hacts, h⟩
  · have hstatus : (200 : Nat) = 401 := congrArg HttpResponse.status (Program.ret.inj h)
    cases hstatus
  · cases h.rest
  · refine ⟨user, hrow, hacts, ?_⟩
    by_cases hdump : (Site.profileResponse Sample.controllers.lib user).dumpable = true
    · rw [if_pos hdump] at h
      exact h
    · rw [if_neg hdump] at h
      cases h

namespace Site

variable {S : Site} {th : Thread (site τ S)}

/-! ### When operators act -/

/-- The step makes the account of this id an administrator's. -/
def Promotes (id : Int) (c : Config (site τ S)) (s : Step (site τ S)) : Prop :=
  ∃ username name row, s = .move (.inr (.setRole username 1)) ∧ pgText username = some name ∧
    row ∈ c.world.users.rows ∧ row.username = name ∧ row.id = id

/-- An account gets its privileges in no other way. -/
theorem unprivileged_next {c c' : Config (site τ S)} {s : Step (site τ S)} {id : Int}
    (hc : c.world.Unprivileged id) (hs : ¬ Promotes id c s) (h : c.next s = some c') :
    c'.world.Unprivileged id := by
  intro u hu hid
  rcases next_rows h with hsame | ⟨row, hnew, hrow⟩ | ⟨op, rfl, hop⟩
  · rw [hsame] at hu
    exact hc u hu hid
  · rw [hnew] at hu
    rcases List.mem_append.mp hu with hold | hu
    · exact hc u hold hid
    · rw [List.mem_singleton.mp hu, hrow]
      simp
  · cases op with
    | setRole username role =>
        obtain ⟨name, hname, hw⟩ := Option.map_eq_some_iff.mp hop
        rw [← hw] at hu
        obtain ⟨v, hv, rfl⟩ := List.mem_map.mp
          (show u ∈ c.world.users.rows.map (UsersTable.withRole name role) from hu)
        rw [UsersTable.withRole_id] at hid
        by_cases hvn : v.username = name
        · rw [UsersTable.withRole, if_pos hvn]
          show role ≠ 1
          rintro rfl
          exact hs ⟨username, name, v, rfl, hname, hv, hvn, hid⟩
        · rw [UsersTable.withRole, if_neg hvn]
          exact hc v hv hid
    | remove rid =>
        rw [← Option.some.inj (show some _ = some c'.world from hop)] at hu
        have hkept : u ∈ c.world.users.rows.filter fun u => u.id ≠ rid := hu
        exact hc u (List.mem_filter.mp hkept).1 hid

/-- The visit has found a session of the account of this id. -/
def SessionOf (th : Thread (site τ S)) (id : Int) : Prop :=
  ∃ e ∈ th.log, ∃ key userId,
    Event.Is (S := (services τ).extend looks) e (.inl (.get key)) (some (.string userId)) ∧
      stoi userId = some id

/-- A visit finds one session only. -/
theorem SessionRead.stoi_of_session (s : SessionRead th) {id : Int} (h : SessionOf th id) :
    stoi s.userId = some id := by
  obtain ⟨e, he, key, userId, hget, hstoi⟩ := h
  have hcmd := hget.cmd_eq
  rw [s.log] at he
  have hlooked : e = s.looked := by
    rcases List.mem_cons.mp he with rfl | he
    · rw [s.clock_cmd] at hcmd
      cases hcmd
    rcases List.mem_cons.mp he with hsecond | hlater
    · exact hsecond
    · have hright := s.own e hlater
      rw [hcmd] at hright
      cases hright
  rw [hlooked] at hget
  have hkey := Cmd.get.inj (Sum.inl.inj (s.looked_is.cmd_eq.symm.trans hget.cmd_eq))
  rw [← hkey] at hget
  rw [RedisReply.string.inj (Option.some.inj (s.looked_is.inj hget)), hstoi]

/-- And reads the row it names. -/
theorem RowRead.id_eq {f : Option User → Visiting τ HttpResponse} (R : RowRead th f) {id : Int}
    (h : SessionOf th id) : R.id = id :=
  Option.some.inj (R.stoi_eq.symm.trans (R.session.stoi_of_session h))

/-- **A demotion counts at once.**  From the moment an account is not an administrator's, by
whatever statement of an operator and with whatever sessions still alive, no visit for it that
has its row yet to read gets the health report, until an operator makes it one again. -/
theorem demotion_counts {ok : Config (site τ S) → Step (site τ S) → Prop} {w : World τ}
    {a c : Config (site τ S)} {id : Int} (ha : Reach ok (Config.fresh w) a)
    (hid : a.world.Unprivileged id) (hrun : Reach (fun c s => ¬ Promotes id c s) a c) {i : Nat}
    (hi : c.threads[i]? = some th) {req : HttpRequest} (hreq : th.req = .adminHealth req)
    (hses : SessionOf th id) (hyet : ∀ e ∈ a.logOf i, e.cmd ≠ .inr (.userById id))
    (hdone : th.rest.Done) :
    th.rest = .ret (errorResponse "Unauthorized" 401) ∨
    th.rest = .ret (errorResponse "Admin privileges required" 403) ∨ RowRefused th := by
  have hany : Reach (fun _ _ => True) (Config.fresh w) c :=
    (ha.mono fun _ _ _ => trivial).trans (hrun.mono fun _ _ _ => trivial)
  rcases rowRead_of_done (hany.path_at hi) (by rw [hreq]; rfl) (by rw [hreq]; rfl)
    (fun userId => by rw [hreq]; exact adminOf_bind S userId) hdone with
    hunauthorized | ⟨s, hstoi, -⟩ | hrefused | ⟨⟨R⟩⟩
  · exact Or.inl hunauthorized
  · rw [s.stoi_of_session hses] at hstoi
    cases hstoi
  · exact Or.inr (Or.inr hrefused)
  refine Or.inr (Or.inl ?_)
  have hrow := R.row (hany.path_at hi)
  rw [R.id_eq hses] at hrow
  -- the row is read after `a`
  obtain ⟨b, b', hm⟩ : ∃ b b', Moment (fun c s => ¬ Promotes id c s) a c i th.req
      [R.clock, R.looked] R.read b b' := by
    rcases hrun.logged_or_moment hi _ _ R.log with ⟨th', after, ext, hth', -, hlog, -⟩ | hm
    · have hcmd : R.read.cmd = .inr (.userById id) := by
        rw [R.read_is.cmd_eq, R.id_eq hses]
      have hmem : R.read ∈ a.logOf i := by
        simp only [Config.logOf, hth', hlog]
        simp
      exact absurd hcmd (hyet R.read hmem)
    · exact hm
  have hb : b.world.Unprivileged id :=
    hm.reach.invariant (I := fun c : Config (site τ S) => c.world.Unprivileged id) hid
      fun hc hs hn => unprivileged_next hc hs hn
  rw [← hm.pre] at hrow
  have hpath := R.path
  cases huser : R.user with
  | none =>
      rw [huser] at hpath
      exact (path_ret.mp hpath).2
  | some user =>
      rw [huser] at hrow
      obtain ⟨hmem, huid⟩ := UsersTable.byId_some hrow.symm
      rw [huser, healthOf, if_neg (hb user hmem huid)] at hpath
      exact (path_ret.mp hpath).2

end Site

/-- **An operator takes the privileges of the first account**, which has logged in before: its
next report is refused. -/
theorem demotion_counts_first :
    Sample.demoted.live (sessionKey (hex Sample.draw)) = some (toDecimal Sample.user.id) ∧
    (Sample.refusedTh.rest = .ret (errorResponse "Unauthorized" 401) ∨
      Sample.refusedTh.rest = .ret (errorResponse "Admin privileges required" 403) ∨
      Site.RowRefused Sample.refusedTh) := by
  have hlogin : Reach (fun _ _ => True) (Config.fresh Sample.world)
      (⟨Sample.session, [Sample.welcomeTh]⟩ : Config (site ℚ Sample.controllers)) :=
    Sample.reach_welcomed Allows.always
  have hdemoted : Reach (fun _ _ => True) (Config.fresh Sample.world)
      (⟨Sample.demoted, [Sample.welcomeTh]⟩ : Config (site ℚ Sample.controllers)) :=
    hlogin.tail (s := .move (.inr (.setRole Sample.username 0))) trivial rfl
  have hnot : Allows (fun c s => ¬ Site.Promotes Sample.user.id c s) Sample.demoted
      [Sample.welcomeTh] (.adminHealth (Sample.request none)) Sample.refusedTh.log := by
    refine ⟨?_, fun n e k hn => ?_⟩
    · rintro ⟨_, _, _, ⟨⟩, -⟩
    · rintro ⟨_, _, _, ⟨⟩, -⟩
  have hrefused : Reach (fun c s => ¬ Site.Promotes Sample.user.id c s)
      ⟨Sample.demoted, [Sample.welcomeTh]⟩
      ⟨Sample.demoted, [Sample.welcomeTh, Sample.refusedTh]⟩ := Sample.reach_refused hnot
  have hsession : Site.SessionOf Sample.refusedTh Sample.user.id :=
    ⟨_, List.mem_cons_of_mem _ (List.mem_cons_self ..), _, _,
      Front.event_is (X := Sample.controllers.front ℚ) ⟨_, _, _, rfl⟩, Sample.user_id⟩
  have hunprivileged : Sample.demoted.Unprivileged Sample.user.id := by
    intro u hu hid
    have hrows : Sample.demoted.users.rows = [Sample.demotedUser] := rfl
    rw [hrows, List.mem_singleton] at hu
    rw [hu]
    decide
  refine ⟨live_withSession Sample.world Sample.user Sample.draw, ?_⟩
  refine Site.demotion_counts hdemoted hunprivileged hrefused (i := 1) rfl rfl hsession ?_ trivial
  intro e he
  cases he

end PqcApi
