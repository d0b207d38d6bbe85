/-
Nobody acts without a login.

Of what a protected endpoint does before its token is let in, nothing but two look-ups can be
seen: the clock, and the session the token names.  Once it is let in, `session_origin` leads
to a visit to the login endpoint that was answered with this very token.
-/
import PqcApi.Documents.Paths
import PqcApi.Site.Refinement

namespace PqcApi

open Concurrent

variable {τ : Type} [Field τ] [LinearOrder τ] [FloorRing τ]

/-! ### Let in by the server -/

section Server

variable {P : App} {th : Thread (server τ P)}

/-- A thread whose token was let in, whatever it was let in for. -/
structure Entered (th : Thread (server τ P)) where
  token : Bytes
  payload : Json
  userId : Bytes
  sessionId : Bytes
  time : τ
  clock : ServerEvent τ P
  looked : ServerEvent τ P
  rest : List (ServerEvent τ P)
  log : th.log = clock :: looked :: rest
  presents : th.req.presents = some token
  payload_eq : P.auth.payload token = some payload
  clock_is : clock.Is .now time
  read : AuthManager.readPayload payload (truncate time) = some (userId, sessionId)
  looked_is : looked.Is (.get (sessionKey sessionId)) (some (.string userId))

/-- It has looked at the clock and at a session, and at nothing else. -/
def OnlyAsked (log : List (ServerEvent τ P)) : Prop :=
  ∀ e ∈ log, e.cmd = .now ∨ ∃ key, e.cmd = .get key

/-- A document request is let in, or it has only asked and waits or is refused. -/
theorem entered_guarded (hp : Path (P.program th.req) th.log th.rest) {header : HttpRequest}
    {body : Bytes → Action τ HttpResponse} (hg : P.guarded th.req = some (header, body))
    (hpres : th.req.presents = bearerToken header.authorization) :
    (OnlyAsked th.log ∧ ((∃ c k, th.rest = .call c k) ∨
      th.rest = .ret (.response (errorResponse "Unauthorized" 401)))) ∨
    Nonempty (Entered th) := by
  rcases guarded_path hp hg with h | ⟨l, -⟩
  · exact Or.inl h
  · have hheader : l.header = header :=
      (Prod.mk.inj (Option.some.inj (l.guarded.symm.trans hg))).1
    have htoken : th.req.presents = some l.token := by
      rw [hpres, ← hheader]
      exact l.presented
    exact Or.inr ⟨⟨l.token, l.payload, l.userId, l.sessionId, l.time, l.clock, l.looked, l.rest,
      l.log, htoken, l.payload_eq, l.clock_is, l.read, l.looked_is⟩⟩

/-- So is a token that is verified. -/
theorem entered_verifyToken (hp : Path (P.program th.req) th.log th.rest) {token : Bytes}
    (hreq : th.req = .verifyToken token) :
    (OnlyAsked th.log ∧ ((∃ c k, th.rest = .call c k) ∨ th.rest = .ret (.user none))) ∨
    ∃ a : Entered th, a.rest = [] ∧ th.rest = .ret (.user (some a.userId)) := by
  rw [hreq] at hp
  rcases verifyToken_path hp with ⟨-, hl, hq⟩ | ⟨p, hpay, ⟨hl, k, hq⟩ | ⟨e₁, now, h₁, hrest⟩⟩
  · exact Or.inl ⟨by simp [OnlyAsked, hl], Or.inr hq⟩
  · exact Or.inl ⟨by simp [OnlyAsked, hl], Or.inl ⟨_, _, hq⟩⟩
  · rcases hrest with ⟨-, hl, hq⟩ |
      ⟨userId, sessionId, hread, ⟨hl, k, hq⟩ | ⟨e₂, reply, h₂, hl, hq⟩⟩
    · exact Or.inl ⟨by simp [OnlyAsked, hl, h₁.cmd_eq], Or.inr hq⟩
    · exact Or.inl ⟨by simp [OnlyAsked, hl, h₁.cmd_eq], Or.inl ⟨_, _, hq⟩⟩
    · by_cases hr : reply = some (.string userId)
      · rw [if_pos hr] at hq
        refine Or.inr ⟨⟨token, p, userId, sessionId, now, e₁, e₂, [], hl, ?_, hpay, h₁, hread,
          hr ▸ h₂⟩, rfl, hq⟩
        rw [hreq]
        rfl
      · rw [if_neg hr] at hq
        exact Or.inl ⟨by simp [OnlyAsked, hl, h₁.cmd_eq, h₂.cmd_eq], Or.inr hq⟩

end Server

/-! ### Let in by the site -/

/-- The request of an endpoint that is for users only.  `logout` does not look the session
up, it only deletes it. -/
def Visit.guarded : Visit → Option HttpRequest
  | .getProfile req => some req
  | .adminHealth req => some req
  | .sign req => some req
  | .list req => some req
  | .download req _ => some req
  | .verify req _ => some req
  | .remove req _ => some req
  | _ => none

namespace Site

variable {S : Site} {th : Thread (site τ S)} {th₀ : Thread (server τ S.app)}

/-- The visit has looked at the clock and at a session and at nothing else, and it waits for an
answer or is refused. -/
def Refused (th : Thread (site τ S)) : Prop :=
  (∀ e ∈ th.log, e.cmd = .inl .now ∨ ∃ key, e.cmd = .inl (.get key)) ∧
    ((∃ c k, th.rest = .call c k) ∨ th.rest = .ret (errorResponse "Unauthorized" 401))

/-- What the visit has asked the server has asked for it. -/
theorem onlyAsked_front {l : List (ServerEvent τ S.app)} (h : OnlyAsked l)
    (hlog : th.log = l.map (S.front τ).event) :
    ∀ e ∈ th.log, e.cmd = .inl .now ∨ ∃ key, e.cmd = .inl (.get key) := by
  intro e he
  rw [hlog] at he
  obtain ⟨e₀, he₀, rfl⟩ := List.mem_map.mp he
  rcases h e₀ he₀ with hcmd | ⟨key, hcmd⟩
  · exact Or.inl (congrArg Sum.inl hcmd)
  · exact Or.inr ⟨key, congrArg Sum.inl hcmd⟩

/-- A visit behind which nothing is let in is refused. -/
theorem refused_of_asked (hb : (S.front τ).Behind th th₀) (h : OnlyAsked th₀.log)
    {r : Result} (hrest : (∃ c k, th₀.rest = .call c k) ∨ th₀.rest = .ret r)
    (hr : S.finish th.req (.ok r) =
      (.ret (errorResponse "Unauthorized" 401) : Visiting τ HttpResponse)) : Refused th := by
  rcases hrest with ⟨c, k, hwait⟩ | hret
  · obtain ⟨hlog, hq⟩ := hb.waits hwait
    exact ⟨onlyAsked_front h hlog, Or.inl ⟨_, _, hq⟩⟩
  · obtain ⟨hlog, hq⟩ := hb.ends (Program.outcome_ok.mpr hret)
      (show (S.finish th.req (.ok r) : Visiting τ HttpResponse).Done by rw [hr]; exact trivial)
    exact ⟨onlyAsked_front h hlog, Or.inr (hq.trans hr)⟩

/-- **The gate.**  A protected visit is refused, or the server has let its token in. -/
theorem gate (hb : (S.front τ).Behind th th₀) {req : HttpRequest}
    (hv : th.req.guarded = some req) : Refused th ∨ Nonempty (Entered th₀) := by
  have hpath := hb.path
  have token : ∀ {req : HttpRequest}, S.back th.req =
      .verifyToken ((bearerToken req.authorization).getD []) →
      (S.finish th.req (.ok (.user none)) =
        (.ret (errorResponse "Unauthorized" 401) : Visiting τ HttpResponse)) →
      Refused th ∨ Nonempty (Entered th₀) := by
    intro req hback hfin
    rcases entered_verifyToken hpath (hb.req.trans hback) with ⟨hasked, hrest⟩ | ⟨a, -⟩
    · exact Or.inl (refused_of_asked hb hasked hrest hfin)
    · exact Or.inr ⟨a⟩
  have document : ∀ {r : Request} {header : HttpRequest} {body : Bytes → Action τ HttpResponse},
      S.back th.req = r → S.app.guarded r = some (header, body) →
      r.presents = bearerToken header.authorization →
      (S.finish th.req (.ok (.response (errorResponse "Unauthorized" 401))) =
        (.ret (errorResponse "Unauthorized" 401) : Visiting τ HttpResponse)) →
      Refused th ∨ Nonempty (Entered th₀) := by
    rintro r header body rfl hg hpres hfin
    have hreq : th₀.req = S.back th.req := hb.req
    rcases entered_guarded hpath (hreq ▸ hg) (hreq ▸ hpres) with ⟨hasked, hrest⟩ | ha
    · exact Or.inl (refused_of_asked hb hasked hrest hfin)
    · exact Or.inr ha
  cases hreq : th.req with
  | getProfile r => exact token (by rw [hreq]; rfl) (by rw [hreq]; rfl)
  | adminHealth r => exact token (by rw [hreq]; rfl) (by rw [hreq]; rfl)
  | sign r => exact document (congrArg S.back hreq) rfl rfl (by rw [hreq]; rfl)
  | list r => exact document (congrArg S.back hreq) rfl rfl (by rw [hreq]; rfl)
  | download r id => exact document (congrArg S.back hreq) rfl rfl (by rw [hreq]; rfl)
  | verify r id => exact document (congrArg S.back hreq) rfl rfl (by rw [hreq]; rfl)
  | remove r id => exact document (congrArg S.back hreq) rfl rfl (by rw [hreq]; rfl)
  | _ =>
      rw [hreq] at hv
      cases hv

/-- The token of a protected visit that was let in came with it. -/
theorem bearer_of_entered (hb : (S.front τ).Behind th th₀) {req : HttpRequest}
    (hv : th.req.guarded = some req) (a : Entered th₀) :
    bearerToken req.authorization = some a.token := by
  have hpres : (S.back th.req).presents = some a.token := by
    rw [← show th₀.req = S.back th.req from hb.req]
    exact a.presents
  obtain ⟨seg, hseg, -⟩ := AuthManager.payload_some a.payload_eq
  have hguarded : th.req.presents = bearerToken req.authorization := by
    cases hreq : th.req <;> rw [hreq] at hv <;> cases hv <;> rfl
  rcases presents_back hpres with h | h
  · rw [← hguarded]
    exact h
  · rw [h] at hseg
    cases segments_nil.symm.trans hseg

/-! ### The login behind a visit -/

/-- A visit to the login endpoint that was answered with a token, once the password that came
with it was the one of an account. -/
structure Welcome (th : Thread (site τ S)) where
  body : Bytes
  username : Bytes
  password : Bytes
  user : User
  token : Bytes
  req : th.req = .login body
  credentials : credentials S.lib body = some (username, password)
  found : ∃ e ∈ th.log, Event.Is (S := (services τ).extend looks) e (.inl (.userByName username))
    (some (some user))
  authenticated : S.app.auth.verifyPassword password user.passwordHash = true
  answered : th.rest = .ret ⟨200, .json (loggedInResponse token (toDecimal user.id))⟩

/-- Two tokens that differ in their signatures at most. -/
def SameText (token token' : Bytes) : Prop :=
  ∃ s s', AuthManager.segments token = some s ∧ AuthManager.segments token' = some s' ∧
    s.header = s'.header ∧ s.payload = s'.payload

/-- **The visit of a login.**  Where the server has logged someone in, the endpoint has
answered so. -/
theorem welcome_of_loggedIn (hb : (S.front τ).Behind th th₀) (l : LoggedIn th₀)
    (hcodec : l.toIssued.Codec) : ∃ v : Welcome th, v.user = l.user ∧ v.token = l.token := by
  have hback : S.back th.req = .login l.username l.password :=
    (show th₀.req = S.back th.req from hb.req).symm.trans l.req
  obtain ⟨body, hreq, hbody⟩ : ∃ body, th.req = .login body ∧
      credentials S.lib body = some (l.username, l.password) := by
    cases hreq : th.req with
    | login body =>
        rw [hreq] at hback
        simp only [back] at hback
        cases hc : credentials S.lib body with
        | none =>
            rw [hc] at hback
            cases hback
        | some c =>
            rw [hc] at hback
            obtain ⟨h₁, h₂⟩ := Request.login.inj hback
            exact ⟨body, rfl, by rw [hc, ← h₁, ← h₂]⟩
    | registerUser body =>
        rw [hreq] at hback
        simp only [back] at hback
        cases hc : credentials S.lib body <;> rw [hc] at hback <;> cases hback
    | _ =>
        rw [hreq] at hback
        cases hback
  have hutf8 : (utf8 l.token && utf8 (toDecimal l.user.id)) = true := by
    rw [utf8_toDecimal, Bool.and_true]
    exact hcodec.utf8_token
  have hfinish : (S.finish th.req (.ok (.auth ⟨true, toDecimal l.user.id, l.token, ""⟩)) :
      Visiting τ HttpResponse) =
      .ret ⟨200, .json (loggedInResponse l.token (toDecimal l.user.id))⟩ := by
    rw [hreq, finish_login hbody, if_pos rfl, if_pos hutf8]
  have hend := end_of hb (Program.outcome_ok.mpr l.returned) (by exact trivial) hfinish
  obtain ⟨own, hlog, -⟩ := hb.log
  have hfound : (S.front τ).event l.found ∈ th.log := by
    rw [hlog, l.log]
    simp
  exact ⟨⟨body, l.username, l.password, l.user, l.token, hreq, hbody,
    ⟨_, hfound, Front.event_is l.found_is⟩, l.authenticated, hend⟩, rfl, rfl⟩

/-- A visit with this header has come with the token of a login to this account. -/
def ActsFor (c : Config (site τ S)) (req : HttpRequest) (user : User) : Prop :=
  ∃ (j : Nat) (th : Thread (site τ S)) (v : Welcome th) (token : Bytes),
    c.threads[j]? = some th ∧ v.user = user ∧ bearerToken req.authorization = some token ∧
      SameText token v.token

/-- A login that was answered stays so. -/
theorem ActsFor.later {ok : Config (site τ S) → Step (site τ S) → Prop} {b c : Config (site τ S)}
    (hbc : Reach ok b c) {req : HttpRequest} {user : User} (h : ActsFor b req user) :
    ActsFor c req user := by
  obtain ⟨j, th, v, token, hj, huser, htoken, hsame⟩ := h
  have hdone : th.rest.Done := by
    rw [v.answered]
    exact trivial
  exact ⟨j, th, v, token, hbc.thread_done hj hdone, huser, htoken, hsame⟩

/-- The libraries round-trip the tokens that the logins behind these visits have issued. -/
def Codec (c : Config (site τ S)) : Prop :=
  ∀ th ∈ c.threads, ∀ th₀, (S.front τ).Behind th th₀ → ∀ l : Issued th₀, l.Codec

theorem codec_behind {c : Config (site τ S)} (h : Codec c) {c₀ : Config (server τ S.app)}
    (hproj : (S.front τ).Projects c c₀) : ∀ th₀ ∈ c₀.threads, ∀ l : Issued th₀, l.Codec := by
  intro th₀ hmem l
  obtain ⟨j, hj⟩ := List.mem_iff_getElem?.mp hmem
  obtain ⟨th, hth, hb⟩ := hproj.front hj
  exact h th (List.mem_of_getElem? hth) th₀ hb l

/-- Tokens that are round-tripped later were so before. -/
theorem Codec.before {w : World τ} {b c : Config (site τ S)} (h : Codec c)
    (hrun : Reach Allowed (Config.fresh w) b) (hbc : Reach Allowed b c) : Codec b := by
  intro th hmem th₀ hb l
  obtain ⟨j, hj⟩ := List.mem_iff_getElem?.mp hmem
  obtain ⟨b₀, -, hprojb⟩ := run_behind hrun
  obtain ⟨th₀', hj₀, hb'⟩ := hprojb.thread j th hj
  obtain rfl := hb'.unique hb
  obtain ⟨c₀, hbc₀, hprojc⟩ := hprojb.reach (hbc.mono fun _ _ => Allowed.behind)
  obtain ⟨th₁, hth₁, hcont⟩ := hbc₀.thread hj₀
  exact codec_behind h hprojc th₁ (List.mem_of_getElem? hth₁) (l.later hcont)

/-- **The login of a token that is let in.**  When its session was looked up, a visit to the
login endpoint had been answered with it. -/
theorem login_of_entered {w : World τ} (hw : w.NoSessions) {c : Config (site τ S)}
    (hrun : Reach Allowed (Config.fresh w) c) (hcodec : Codec c) {i : Nat}
    (hi : c.threads[i]? = some th) {req : HttpRequest} (hv : th.req.guarded = some req)
    (hb : (S.front τ).Behind th th₀) (a : Entered th₀) :
    ∃ (b b' : Config (site τ S)) (user : User),
      Moment Allowed (Config.fresh w) c i th.req [(S.front τ).event a.clock]
        ((S.front τ).event a.looked) b b' ∧
      ActsFor b req user ∧ a.userId = toDecimal user.id := by
  obtain ⟨own, hlog, -⟩ := hb.log
  have hlog' : th.log = [(S.front τ).event a.clock] ++ (S.front τ).event a.looked ::
      (a.rest.map (S.front τ).event ++ own) := by
    rw [hlog, a.log]
    rfl
  -- the moment the session is looked up
  obtain ⟨b, b', hm⟩ := hrun.moment _ _ hi hlog' (by simp)
  have hbc : Reach Allowed b c := ((Reach.refl b).tail hm.allowed hm.next).trans hm.later
  obtain ⟨b₀, hrunb, hprojb⟩ := run_behind hm.reach
  have hcodecb := codec_behind (hcodec.before hm.reach hbc) hprojb
  obtain ⟨k, hbi, -⟩ := hm.thread
  obtain ⟨tb, htb, hbb⟩ := hprojb.thread i _ hbi
  have hpres : tb.req.presents = some a.token := by
    have hreq : tb.req = th₀.req := hbb.req.trans hb.req.symm
    rw [hreq]
    exact a.presents
  have hlive := exec_get (exec_of_mem hb.path (by rw [a.log]; simp) a.looked_is)
  obtain ⟨e, he⟩ : ∃ e, a.looked.pre.redis (sessionKey a.sessionId) = some e := by
    unfold World.live at hlive
    split at hlive
    · exact ⟨_, ‹_›⟩
    · cases hlive
  have hworld : b₀.world = a.looked.pre := hprojb.world.trans hm.pre
  rw [← hworld] at he
  obtain ⟨j, th', l, hj, ⟨seg, hseg, hheader, hpayload⟩, hu, -, -⟩ :=
    session_origin hw hrunb hcodecb htb hpres a.payload_eq a.read he
  -- and the visit of its login
  obtain ⟨tj, htj, hbj⟩ := hprojb.front hj
  have hcodecl : l.toIssued.Codec := hcodecb th' (List.mem_of_getElem? hj) l.toIssued
  obtain ⟨v, huser, htoken⟩ := welcome_of_loggedIn hbj l hcodecl
  refine ⟨b, b', l.user, hm, ⟨j, tj, v, a.token, htj, huser, bearer_of_entered hb hv a, seg,
    l.segments, hseg, ?_, hheader, hpayload⟩, hu⟩
  rw [htoken]
  exact hcodecl.segments_eq

/-- **Nobody acts without a login.**  A protected visit has asked for the time and for a session
only and waits or is refused with 401; or it has come with a token that a visit to the login
endpoint had been answered with before the session was looked up, and it acts for the account
whose password came with that visit. -/
theorem mediation {w : World τ} (hw : w.NoSessions) {c : Config (site τ S)}
    (hrun : Reach Allowed (Config.fresh w) c) (hcodec : Codec c) {i : Nat}
    (hi : c.threads[i]? = some th) {req : HttpRequest} (hv : th.req.guarded = some req) :
    Refused th ∨ ∃ (b b' : Config (site τ S)) (user : User) (key : Bytes)
      (clock looked : Event (site τ S).toMachine) (rest : List (Event (site τ S).toMachine)),
      th.log = clock :: looked :: rest ∧
      Event.Is (S := (services τ).extend looks) looked (.inl (.get key))
        (some (.string (toDecimal user.id))) ∧
      Moment Allowed (Config.fresh w) c i th.req [clock] looked b b' ∧ ActsFor b req user := by
  obtain ⟨th₀, hb⟩ := thread_behind hrun hi
  rcases gate hb hv with hrefused | ⟨⟨a⟩⟩
  · exact Or.inl hrefused
  obtain ⟨b, b', user, hm, hacts, huser⟩ := login_of_entered hw hrun hcodec hi hv hb a
  obtain ⟨own, hlog, -⟩ := hb.log
  rw [a.log] at hlog
  have hlooked := Front.event_is (X := S.front τ) a.looked_is
  rw [huser] at hlooked
  exact Or.inr ⟨b, b', user, _, _, _, _, hlog, hlooked, hm, hacts⟩

end Site

/-- **The first account looks at its profile**, with the token of its login. -/
theorem mediation_profile : ∃ (b b' : Config (site ℚ Sample.controllers)) (user : User)
    (key : Bytes) (clock looked : Event (site ℚ Sample.controllers).toMachine)
    (rest : List (Event (site ℚ Sample.controllers).toMachine)),
    Sample.profileTh.log = clock :: looked :: rest ∧
      Event.Is (S := (services ℚ).extend looks) looked (.inl (.get key))
        (some (.string (toDecimal user.id))) ∧
      Moment Site.Allowed (Config.fresh Sample.world)
        ⟨Sample.session, [Sample.welcomeTh, Sample.profileTh]⟩ 1 Sample.profileTh.req [clock]
        looked b b' ∧
      Site.ActsFor b (Sample.request none) user := by
  have hth : [Sample.welcomeTh, Sample.profileTh][1]? = some Sample.profileTh := rfl
  rcases Site.mediation (S := Sample.controllers) (fun _ => rfl) Sample.reach_profiled
    (fun _ _ _ _ l => Sample.codec l.user.id l.drawn l.time) hth rfl with
    ⟨-, ⟨c, k, hwait⟩ | hrefused⟩ | hlogin
  · cases hwait
  · cases hrefused
  · exact hlogin

end PqcApi
