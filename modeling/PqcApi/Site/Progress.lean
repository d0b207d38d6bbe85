/-
Visits in which nothing goes wrong.

A login with the right password is answered with its token, and a visit whose session is
there gets to the row of its account.  The runs of the first account are given for any `ok`,
so that each set of assumptions on runs of the site can be seen to admit one.
-/
import PqcApi.Documents.Progress
import PqcApi.Site.Answers

namespace PqcApi

open Concurrent

variable {τ : Type} [Field τ] [LinearOrder τ] [FloorRing τ]

namespace Site

variable {S : Site} {ok : Config (site τ S) → Step (site τ S) → Prop} {w w' : World τ}
  {ths : List (Thread (site τ S))}

/-! ### Logging in -/

section Login

variable {body username password : Bytes} {user : User} {b : Bytes} {ch : Choice}
  {reply : Option RedisReply}

/-- The response to a login. -/
def welcomeResponse (S : Site) (w : World τ) (user : User) (b : Bytes) : HttpResponse :=
  ⟨200, .json (loggedInResponse (S.app.auth.issuedToken user b w.now) (toDecimal user.id))⟩

/-- What the services were asked for it. -/
def welcomeEvents (S : Site) (w : World τ) (username : Bytes) (user : User) (b : Bytes)
    (ch : Choice) (reply : Option RedisReply) (w' : World τ) :
    List (Event (site τ S).toMachine) :=
  (loginEvents S.app w username user b ch reply w').map (S.front τ).event

/-- Its thread. -/
def welcomeThread (S : Site) (w : World τ) (body username : Bytes) (user : User) (b : Bytes)
    (ch : Choice) (reply : Option RedisReply) (w' : World τ) : Thread (site τ S) :=
  ⟨.login body, .ret (S.welcomeResponse w user b), welcomeEvents S w username user b ch reply w'⟩

section Welcomed

variable (hcodec : S.app.auth.CodecAt (toDecimal user.id) (hex b) w.now)
  (hbody : credentials S.lib body = some (username, password))
  (htext : (pgText username).isSome) (hfind : w.users.byName (cstr username) = some user)
  (hpw : S.app.auth.verifyPassword password user.passwordHash = true) (hb : b.length = 32)
  (hx : exec S.lib w (.setex (sessionKey (hex b)) SessionRepository.ttlSeconds
    (toDecimal user.id)) ch = some (reply, w'))

include hcodec hbody htext hfind hpw hb hx

/-- The server's login behind it. -/
theorem behind_welcome :
    (S.front τ).Behind (welcomeThread S w body username user b ch reply w')
      (loginThread S.app w username password user b ch reply w') := by
  have hserver : Reach (fun _ _ => True) (Config.fresh w)
      ⟨w', [loginThread S.app w username password user b ch reply w']⟩ :=
    reach_login htext hfind hpw hb hx Allows.always
  have hpath : Path (S.app.program (.login username password))
      (loginEvents S.app w username user b ch reply w')
      (.ret (.auth ⟨true, toDecimal user.id, S.app.auth.issuedToken user b w.now, ""⟩)) :=
    hserver.path_at (i := 0) rfl
  have hback : S.back (.login body) = .login username password := by
    simp only [back, hbody]
  have hutf8 : (utf8 (S.app.auth.issuedToken user b w.now) && utf8 (toDecimal user.id)) = true := by
    rw [utf8_toDecimal, Bool.and_true]
    exact hcodec.utf8_token
  have hfinish : (S.finish (.login body) (.ok (.auth ⟨true, toDecimal user.id,
      S.app.auth.issuedToken user b w.now, ""⟩)) : Visiting τ HttpResponse) =
      .ret (S.welcomeResponse w user b) := by
    rw [finish_login hbody, if_pos rfl, if_pos hutf8]
    rfl
  rw [← hback] at hpath
  have h := Front.Behind.of_visit (X := S.front τ) (r := .login body) hpath rfl
    (path_nil.mpr hfinish)
  rw [List.append_nil] at h
  rw [loginThread, ← hback]
  exact h

/-- **A login with the right password is answered with its token**, whatever Redis answers. -/
theorem reach_welcome
    (hok : Allows ok w ths (.login body) (welcomeEvents S w username user b ch reply w')) :
    Reach ok ⟨w, ths⟩ ⟨w', ths ++ [welcomeThread S w body username user b ch reply w']⟩ :=
  reach_solo (behind_welcome hcodec hbody htext hfind hpw hb hx).path_front
    ⟨rfl, rfl, rfl, rfl, rfl⟩ hok

end Welcomed

end Login

/-! ### The row of one's account -/

section Row

variable {v : Visit} {token userId sessionId : Bytes} {p : Json} {id : Int}
  {f : Option User → Visiting τ HttpResponse}

/-- The look-ups of a visit that starts with the row. -/
def rowEvents (S : Site) (w : World τ) (userId sessionId : Bytes) (id : Int) :
    List (Event (site τ S).toMachine) :=
  (tokenEvents S.app w userId sessionId).map (S.front τ).event ++
    [⟨.inr (.userById id), Choice.done, w, some (w.users.byId id), w⟩]

/-- **A visit gets to the row of its account while its session is there.** -/
theorem path_row (hback : S.back v = .verifyToken token)
    (hfinish : S.finish v (.ok (.user (some userId))) =
      (managed (stoiOrThrow userId)).bind fun id => (UserRepository.findById id).bind f)
    (hp : S.app.auth.payload token = some p)
    (hread : AuthManager.readPayload p (truncate w.now) = some (userId, sessionId))
    (hlive : w.live (sessionKey sessionId) = some userId) (hid : stoi userId = some id)
    {own : List (Event (site τ S).toMachine)} {q : Visiting τ HttpResponse}
    (hrest : Path (f (w.users.byId id)) own q) :
    Path (S.endpoint v) (rowEvents S w userId sessionId id ++ own) q := by
  have hget : exec S.app.lib w (.get (sessionKey sessionId)) .done =
      some (some (.string userId), w) := by
    simp only [exec, redisCommand, getReply_eq_string.mpr hlive]
  have hpath : Path (S.app.program (.verifyToken token)) (tokenEvents S.app w userId sessionId)
      (.ret (.user (some userId))) := by
    have h := path_verifyToken hp hread hget
    rwa [if_pos rfl] at h
  have hrow : Path (S.finish v (.ok (.user (some userId))))
      (⟨.inr (.userById id), Choice.done, w, some (w.users.byId id), w⟩ :: own) q := by
    rw [hfinish, ownRow_eq, hid]
    exact ⟨_, _, _, _, rfl, rfl, hrest⟩
  rw [← hback] at hpath
  have h := Front.Behind.of_visit (X := S.front τ) (r := v) hpath rfl hrow
  rw [rowEvents, List.append_assoc]
  exact h.path_front

/-- The look-ups of a report on a certificate that is good. -/
def reportEvents (S : Site) (w : World τ) : List (Event (site τ S).toMachine) :=
  let asked : Event (site τ S).toMachine := ⟨.inr .time, Choice.done, w, (⌊w.now⌋ : Int), w⟩
  [asked, asked, asked]

/-- The report. -/
def reportOf (S : Site) (now : Int) : HttpResponse :=
  PqcApi.health (strftime (Tm.gmtime now)) (tlsComponent S.zone S.cert now now)

theorem reportOf_status (S : Site) (now : Int) :
    (S.reportOf now).status = 200 ∨ (S.reportOf now).status = 503 := by
  unfold reportOf PqcApi.health
  dsimp only
  split
  · exact Or.inr rfl
  · exact Or.inl rfl

theorem path_report (hvalid : S.cert.isValid ⌊w.now⌋ = true) :
    Path S.report (reportEvents S w) (.ret (S.reportOf ⌊w.now⌋)) := by
  refine ⟨_, _, (⌊w.now⌋ : Int), _, rfl, rfl, ?_⟩
  show Path (Program.bind (if S.cert.isValid ⌊w.now⌋ = true then _ else _) _) _ _
  rw [if_pos hvalid]
  exact ⟨_, _, (⌊w.now⌋ : Int), _, rfl, rfl, _, _, (⌊w.now⌋ : Int), _, rfl, rfl, path_nil.mpr rfl⟩

end Row

/-! ### Documents -/

/-- **A document visit is answered as the server answers it.** -/
theorem reach_respond {v : Visit} {events : List (ServerEvent τ S.app)} {r : HttpResponse}
    (hp : Path (S.app.program (S.back v)) events (.ret (.response r)))
    (hfinish : ∀ o, (S.finish v o : Visiting τ HttpResponse) = onReturn onResponse o)
    (hjoined : Joined w events w') (hok : Allows ok w ths v (events.map (S.front τ).event)) :
    Reach ok ⟨w, ths⟩ ⟨w', ths ++ [⟨v, .ret r, events.map (S.front τ).event⟩]⟩ := by
  have hb := Front.Behind.of_visit (X := S.front τ) (r := v) hp rfl (path_nil.mpr (hfinish _))
  rw [List.append_nil] at hb
  exact reach_solo hb.path_front (Front.joined_event hjoined) hok

end Site

/-! ### The first account visits -/

namespace Sample

/-- The controllers over the sample server, their certificate good until the end of June 2026. -/
def controllers : Site := ⟨app, .expiring ⟨126, 5, 30, 12, 0, 0⟩, fun _ => 0⟩

def loginFields : List (Bytes × Json) :=
  [(ascii "username", .str username), (ascii "password", .str password)]

def loginBody : Bytes := render (.obj loginFields)

theorem credentials_loginBody : credentials lib loginBody = some (username, password) := by
  have hparse : lib.jsonParse loginBody = some (.obj loginFields) := by
    have hne : loginFields ≠ [] := List.cons_ne_nil _ _
    refine parse_render hne fun f hf => ?_
    simp only [loginFields, List.mem_cons, List.not_mem_nil, or_false] at hf
    rcases hf with rfl | rfl
    · exact ⟨(by decide : (34 : UInt8) ∉ ascii "username"), (by decide : (34 : UInt8) ∉ username)⟩
    · exact ⟨(by decide : (34 : UInt8) ∉ ascii "password"), (by decide : (34 : UInt8) ∉ password)⟩
  unfold credentials
  rw [hparse]
  rfl

/-- The thread of its login. -/
def welcomeTh : Thread (site ℚ controllers) :=
  Site.welcomeThread controllers world loginBody username user draw .done (some .status) session

variable {ok : Config (site ℚ controllers) → Step (site ℚ controllers) → Prop}

theorem behind_welcomed : (controllers.front ℚ).Behind welcomeTh loginTh :=
  Site.behind_welcome (codec _ _ _) credentials_loginBody username_text byName_username password_ok
    (by decide) rfl

theorem reach_welcomed (hok : Allows ok world [] (.login loginBody) welcomeTh.log) :
    Reach ok (Config.fresh world) ⟨session, [welcomeTh]⟩ :=
  Site.reach_welcome (codec _ _ _) credentials_loginBody username_text byName_username password_ok
    (by decide) rfl hok

/-- What a visit of the account has asked for before its own part. -/
def lookedUp (w : World ℚ) : List (Event (site ℚ controllers).toMachine) :=
  Site.rowEvents controllers w (toDecimal user.id) (hex draw) user.id

/-- A visit of the account, which has asked for its row and then for `own`. -/
theorem reach_row {w : World ℚ} (hnow : w.now = 0)
    (hlive : w.live (sessionKey (hex draw)) = some (toDecimal user.id))
    {ths : List (Thread (site ℚ controllers))} (v : Visit)
    (hback : controllers.back v = .verifyToken token)
    {f : Option User → Visiting ℚ HttpResponse}
    (hfinish : ∀ userId, controllers.finish v (.ok (.user (some userId))) =
      (managed (stoiOrThrow userId)).bind fun id => (UserRepository.findById id).bind f)
    {own : List (Event (site ℚ controllers).toMachine)} {q : Visiting ℚ HttpResponse}
    (hrest : Path (f (w.users.byId user.id)) own q) (hjoined : Joined w (lookedUp w ++ own) w)
    (hok : Allows ok w ths v (lookedUp w ++ own)) :
    Reach ok ⟨w, ths⟩ ⟨w, ths ++ [⟨v, q, lookedUp w ++ own⟩]⟩ := by
  refine reach_solo (Site.path_row hback (hfinish _) payload_token ?_ hlive user_id hrest) hjoined
    hok
  rw [hnow]
  exact readPayload_token

/-- One that is answered once it has its row. -/
theorem reach_answered {w : World ℚ} (hnow : w.now = 0)
    (hlive : w.live (sessionKey (hex draw)) = some (toDecimal user.id))
    {ths : List (Thread (site ℚ controllers))} (v : Visit)
    (hback : controllers.back v = .verifyToken token)
    {f : Option User → Visiting ℚ HttpResponse}
    (hfinish : ∀ userId, controllers.finish v (.ok (.user (some userId))) =
      (managed (stoiOrThrow userId)).bind fun id => (UserRepository.findById id).bind f)
    {r : HttpResponse} (hr : f (w.users.byId user.id) = .ret r)
    (hok : Allows ok w ths v (lookedUp w)) :
    Reach ok ⟨w, ths⟩ ⟨w, ths ++ [⟨v, .ret r, lookedUp w⟩]⟩ := by
  rw [← List.append_nil (lookedUp w)] at hok ⊢
  exact reach_row hnow hlive v hback hfinish (path_nil.mpr hr) ⟨rfl, rfl, rfl, rfl⟩ hok

theorem back_request (body : Option MultiPart) :
    (Request.verifyToken ((bearerToken (request body).authorization).getD [])) =
      .verifyToken token := by
  rw [presented]
  rfl

/-- The thread of a look at its profile. -/
def profileTh : Thread (site ℚ controllers) :=
  ⟨.getProfile (request none), .ret ⟨200, .json (Site.profileResponse lib user)⟩, lookedUp session⟩

theorem reach_profile {ths : List (Thread (site ℚ controllers))}
    (hok : Allows ok session ths (.getProfile (request none)) profileTh.log) :
    Reach ok ⟨session, ths⟩ ⟨session, ths ++ [profileTh]⟩ := by
  have hrow : session.users.byId user.id = some user := by decide +kernel
  have hprofile : controllers.profileFor (session.users.byId user.id) =
      (.ret ⟨200, .json (Site.profileResponse lib user)⟩ : Visiting ℚ HttpResponse) := by
    rw [hrow]
    exact congrArg managed (if_pos (by decide +kernel))
  exact reach_answered rfl (live_withSession _ _ _) (.getProfile (request none))
    (back_request none) (Site.profileOf_bind controllers) hprofile hok

/-- The thread of a health report. -/
def healthTh : Thread (site ℚ controllers) :=
  ⟨.adminHealth (request none), .ret (controllers.reportOf 0),
    lookedUp session ++ Site.reportEvents controllers session⟩

theorem reach_health {ths : List (Thread (site ℚ controllers))}
    (hok : Allows ok session ths (.adminHealth (request none)) healthTh.log) :
    Reach ok ⟨session, ths⟩ ⟨session, ths ++ [healthTh]⟩ := by
  have hrow : session.users.byId user.id = some user := by decide +kernel
  have hfloor : ⌊session.now⌋ = 0 := Int.floor_zero
  have hvalid : controllers.cert.isValid ⌊session.now⌋ = true := by
    rw [hfloor]
    decide
  have hrest : Path (controllers.healthOf (session.users.byId user.id))
      (Site.reportEvents controllers session) (.ret (controllers.reportOf 0)) := by
    have hreport := Site.path_report (S := controllers) hvalid
    rw [hfloor] at hreport
    rw [hrow]
    exact hreport
  exact reach_row rfl (live_withSession _ _ _) (.adminHealth (request none)) (back_request none)
    (Site.adminOf_bind controllers) hrest ⟨rfl, rfl, rfl, rfl, rfl, rfl, rfl⟩ hok

/-- The world once an operator has taken its privileges. -/
def demoted : World ℚ := { session with users := session.users.setRole username 0 }

/-- Its row. -/
def demotedUser : User := { user with role := 0 }

/-- The thread of a health report that is refused then. -/
def refusedTh : Thread (site ℚ controllers) :=
  ⟨.adminHealth (request none), .ret (errorResponse "Admin privileges required" 403),
    lookedUp demoted⟩

theorem reach_refused {ths : List (Thread (site ℚ controllers))}
    (hok : Allows ok demoted ths (.adminHealth (request none)) refusedTh.log) :
    Reach ok ⟨demoted, ths⟩ ⟨demoted, ths ++ [refusedTh]⟩ := by
  have hrow : demoted.users.byId user.id = some demotedUser := by decide +kernel
  have hrefused : controllers.healthOf (demoted.users.byId user.id) =
      (.ret (errorResponse "Admin privileges required" 403) : Visiting ℚ HttpResponse) := by
    have hrole : ¬ demotedUser.role = 1 := by decide
    rw [hrow, Site.healthOf, if_neg hrole]
  have hlive : demoted.live (sessionKey (hex draw)) = some (toDecimal user.id) :=
    live_withSession world user draw
  exact reach_answered rfl hlive (.adminHealth (request none))
    (back_request none) (Site.adminOf_bind controllers) hrefused hok

end Sample

end PqcApi
