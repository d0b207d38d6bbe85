/-
The server inside the site.

A run of the site that no operator disturbs is a run of the server.  Here the assumptions on
runs of the server are restated for the site, and it is shown how the answer of an endpoint
follows from what the server's request returned: a document or a logout is answered as the
server answers it, a registration with 201 and a login with 200 when the manager returned
success and only then.
-/
import PqcApi.Sessions.Origin
import PqcApi.Site.Progress

namespace PqcApi

open Concurrent

variable {τ : Type} [Field τ] [LinearOrder τ] [FloorRing τ] {S : Site}

/-! ### Assumptions on runs of the site -/

/-- The token a visit presents. -/
def Visit.presents : Visit → Option Bytes
  | .getProfile req => bearerToken req.authorization
  | .logout req => bearerToken req.authorization
  | .adminHealth req => bearerToken req.authorization
  | .sign req => bearerToken req.authorization
  | .list req => bearerToken req.authorization
  | .download req _ => bearerToken req.authorization
  | .verify req _ => bearerToken req.authorization
  | .remove req _ => bearerToken req.authorization
  | _ => none

namespace Site

/-- Whoever presents a token that verifies presents a text that some login has signed. -/
def Unforgeable (c : Config (site τ S)) (s : Step (site τ S)) : Prop :=
  ∀ v token seg, s = .start v → Visit.presents v = some token →
    AuthManager.segments token = some seg → S.app.auth.Verifies seg →
    ∃ th ∈ c.threads, ∃ th₀, (S.front τ).Behind th th₀ ∧
      ∃ l : Issued th₀, l.segments.signingInput = seg.signingInput

/-- What a login draws has not been drawn before. -/
def FreshIds (c : Config (site τ S)) (s : Step (site τ S)) : Prop :=
  ∀ i b th k, s = .run i (.random b) → c.threads[i]? = some th →
    th.rest = .call (S := (services τ).extend looks) (.inl .randombytes) k →
    ∀ th' ∈ c.threads, ∀ e ∈ th'.log, e.cmd = .inl .randombytes → e.choice ≠ .random b

/-- A step of a run in which the accounts are left to the site. -/
structure Allowed (c : Config (site τ S)) (s : Step (site τ S)) : Prop where
  undisturbed : (S.front τ).Undisturbed c s
  unforgeable : Unforgeable c s
  fresh : FreshIds c s

theorem segments_nil : AuthManager.segments [] = none := rfl

/-- A token the server is asked about is one the visit presents, or empty. -/
theorem presents_back {v : Visit} {token : Bytes} (h : (S.back v).presents = some token) :
    v.presents = some token ∨ token = [] := by
  have idle : ∀ {token : Bytes}, (Request.verifyToken []).presents = some token → token = [] :=
    fun h => (Option.some.inj h).symm
  have asked : ∀ req : HttpRequest,
      (Request.verifyToken ((bearerToken req.authorization).getD [])).presents = some token →
      bearerToken req.authorization = some token ∨ token = [] := by
    intro req h
    cases hb : bearerToken req.authorization with
    | none =>
        rw [hb] at h
        exact Or.inr (idle h)
    | some t =>
        rw [hb] at h
        exact Or.inl h
  cases v with
  | registerUser body =>
      simp only [back] at h
      cases hb : credentials S.lib body with
      | none =>
          rw [hb] at h
          exact Or.inr (idle h)
      | some c =>
          rw [hb] at h
          cases h
  | login body =>
      simp only [back] at h
      cases hb : credentials S.lib body with
      | none =>
          rw [hb] at h
          exact Or.inr (idle h)
      | some c =>
          rw [hb] at h
          cases h
  | getProfile req => exact asked req h
  | adminHealth req => exact asked req h
  | check => exact Or.inr (idle h)
  | publicKey exported => exact Or.inr (idle h)
  | verifyExternal allocs own req => exact Or.inr (idle h)
  | logout req => exact Or.inl h
  | sign req => exact Or.inl h
  | list req => exact Or.inl h
  | download req id => exact Or.inl h
  | verify req id => exact Or.inl h
  | remove req id => exact Or.inl h

/-- **The assumptions carry over** to the run of the server. -/
theorem Allowed.behind {c : Config (site τ S)} {s : Step (site τ S)} (h : Allowed c s) :
    (S.front τ).Allows (fun c s => PqcApi.Unforgeable c s ∧ PqcApi.FreshIds c s) c s := by
  refine ⟨h.undisturbed, fun c₀ s₀ hproj hs₀ => ⟨?_, ?_⟩⟩
  · rintro r token seg rfl htoken hseg hv
    cases s with
    | move m => cases m <;> cases hs₀
    | run i ch => cases hs₀
    | start v =>
        obtain rfl : S.back v = r := Step.start.inj (Option.some.inj hs₀)
        rcases presents_back htoken with hpres | rfl
        · obtain ⟨th, hmem, th₀, hb, l, hl⟩ := h.unforgeable v token seg rfl hpres hseg hv
          obtain ⟨j, hj⟩ := List.mem_iff_getElem?.mp hmem
          obtain ⟨th₁, hj₁, hb₁⟩ := hproj.thread j th hj
          obtain rfl := hb₁.unique hb
          exact ⟨th₁, List.mem_of_getElem? hj₁, l, hl⟩
        · cases segments_nil.symm.trans hseg
  · rintro i b th₀ k rfl hi hrest th₀' hmem e he hcmd
    cases s with
    | move m => cases m <;> cases hs₀
    | start v => cases hs₀
    | run i' ch =>
        obtain ⟨rfl, rfl⟩ := Step.run.inj (Option.some.inj hs₀)
        obtain ⟨th, hi', hb⟩ := hproj.front hi
        obtain ⟨j, hj⟩ := List.mem_iff_getElem?.mp hmem
        obtain ⟨th', hj', hb'⟩ := hproj.front hj
        obtain ⟨own, hlog, -⟩ := hb'.log
        have hmem' : (S.front τ).event e ∈ th'.log := by
          rw [hlog]
          exact List.mem_append_left _ (List.mem_map_of_mem he)
        exact h.fresh i' b th _ rfl hi' (hb.waits hrest).2 th' (List.mem_of_getElem? hj') _ hmem'
          (congrArg Sum.inl hcmd)

/-- The run of the server behind a run of the site. -/
theorem run_behind {w : World τ} {c : Config (site τ S)}
    (h : Reach Allowed (Config.fresh w) c) :
    ∃ c₀, Reach (fun c s => PqcApi.Unforgeable c s ∧ PqcApi.FreshIds c s) (Config.fresh w) c₀ ∧
      (S.front τ).Projects c c₀ :=
  (Front.Projects.fresh w).reach (h.mono fun _ _ => Allowed.behind)

/-- Every thread has one behind it, operators or not. -/
theorem thread_behind {ok : Config (site τ S) → Step (site τ S) → Prop} {w : World τ}
    {c : Config (site τ S)} (h : Reach ok (Config.fresh w) c) {i : Nat} {th : Thread (site τ S)}
    (hi : c.threads[i]? = some th) : ∃ th₀, (S.front τ).Behind th th₀ :=
  Front.Behind.of_path (h.path_at hi)

/-! ### Runs that are allowed -/

section Allows

variable {w : World τ} {ths : List (Thread (site τ S))} {v : Visit}
  {events : List (Event (site τ S).toMachine)}

/-- No visit is an operator's. -/
theorem allows_undisturbed : Allows (S.front τ).Undisturbed w ths v events where
  start := by rintro m ⟨⟩
  run := by rintro n e k - m ⟨⟩

/-- A visit with no token, or one that a login has signed, is allowed if it draws nothing that
was drawn before. -/
theorem allows_visit (hsigned : ∀ token seg, v.presents = some token →
      AuthManager.segments token = some seg → S.app.auth.Verifies seg →
      ∃ th ∈ ths, ∃ th₀, (S.front τ).Behind th th₀ ∧
        ∃ l : Issued th₀, l.segments.signingInput = seg.signingInput)
    (hdrawn : ∀ n e b, events[n]? = some e → e.choice = .random b →
      ∀ d, (d ∈ events.take n ∨ ∃ th ∈ ths, d ∈ th.log) → d.cmd = .inl .randombytes →
        d.choice ≠ .random b) : Allows Allowed w ths v events := by
  have hundisturbed : Allows (S.front τ).Undisturbed w ths v events := allows_undisturbed
  refine ⟨⟨hundisturbed.start, ?_, ?_⟩, fun n e k hn => ⟨hundisturbed.run n e k hn, ?_, ?_⟩⟩
  · rintro v token seg ⟨⟩
    exact hsigned token seg
  · rintro _ _ _ _ ⟨⟩
  · rintro _ _ _ ⟨⟩
  · rintro i b th k' hstep - - th' hth' d hd
    have hchoice : e.choice = .random b := (Step.run.inj hstep).2
    refine hdrawn n e b hn hchoice d ?_
    rcases List.mem_append.mp hth' with hold | hnew
    · exact Or.inr ⟨th', hold, hd⟩
    · rw [List.mem_singleton.mp hnew] at hd
      exact Or.inl hd

end Allows

/-! ### The refinement -/

/-- How the end of a visit goes with the end of the request behind it.  What is thrown is thrown
on, but for the JSON library's exception where it is caught. -/
def Agrees (S : Site) : Visit → Visiting τ HttpResponse → Action τ Result → Prop
  | .registerUser body, q, q₀ =>
      ((∃ r, q = .ret r ∧ r.status = 201) ↔ ∃ username password a,
        credentials S.lib body = some (username, password) ∧ utf8 username = true ∧
          q₀ = .ret (.auth a) ∧ a.success = true) ∧
      ∀ e, q = .throw e ↔ q₀ = .throw e ∧ e ≠ .json
  | .login body, q, q₀ =>
      ((∃ r, q = .ret r ∧ r.status = 200) ↔ ∃ username password a,
        credentials S.lib body = some (username, password) ∧
          (utf8 a.token = true ∧ utf8 a.userId = true) ∧ q₀ = .ret (.auth a) ∧ a.success = true) ∧
      ∀ e, q = .throw e ↔ q₀ = .throw e ∧ e ≠ .json
  | .getProfile _, q, q₀ =>
      (q₀ = .ret (.user none) → q = .ret (errorResponse "Unauthorized" 401)) ∧
      ∀ e, q₀ = .throw e → q = .throw e
  | .adminHealth _, q, q₀ =>
      (q₀ = .ret (.user none) → q = .ret (errorResponse "Unauthorized" 401)) ∧
      ∀ e, q₀ = .throw e → q = .throw e
  | .check, q, _ => ∃ r, q = .ret r ∧ r.status = 200
  | .publicKey exported, q, _ => q = managed (S.publicKey exported)
  | .verifyExternal allocs own req, q, _ => q = .ret (S.app.verifyExternalUnder allocs own req)
  | _, q, q₀ =>
      (∀ r, q = .ret r ↔ q₀ = .ret (.response r)) ∧ ∀ e, q = .throw e ↔ q₀ = .throw e

section Behind

variable {th : Thread (site τ S)} {th₀ : Thread (server τ S.app)}

/-- The end of a visit whose rest has no more commands. -/
theorem end_of (hb : (S.front τ).Behind th th₀) {o : Except Exn Result}
    (ho : th₀.rest.outcome = some o) {q : Visiting τ HttpResponse} (hd : q.Done)
    (hq : S.finish th.req o = q) : th.rest = q := by
  obtain rfl := hq
  exact (hb.ends ho hd).2

/-- The answer of the server is the answer of the site. -/
theorem agrees_respond (hb : (S.front τ).Behind th th₀)
    (hfinish : ∀ o, (S.finish th.req o : Visiting τ HttpResponse) = onReturn onResponse o)
    (r : HttpResponse) : th.rest = .ret r ↔ th₀.rest = .ret (.response r) := by
  constructor
  · intro h
    obtain ⟨o, ho⟩ := Program.outcome_of_done (hb.done (by rw [h]; exact trivial))
    have hdone : (onReturn onResponse o : Visiting τ HttpResponse).Done := by
      rcases o with e | (a | u | b | r) <;> exact trivial
    have hend := end_of hb ho hdone (hfinish o)
    rw [h] at hend
    rcases o with e | (a | u | b | r')
    · cases hend
    · cases hend
    · cases hend
    · cases hend
    · cases hend
      exact Program.outcome_ok.mp ho
  · intro h
    exact end_of hb (Program.outcome_ok.mpr h) trivial (hfinish _)

/-- And so is what it throws. -/
theorem agrees_throw (hb : (S.front τ).Behind th th₀)
    (hfinish : ∀ o, (S.finish th.req o : Visiting τ HttpResponse) = onReturn onResponse o)
    (hprogram : ∃ p : Action τ HttpResponse,
      S.app.program (S.back th.req) = p.bind fun r => .ret (.response r)) (e : Exn) :
    th.rest = .throw e ↔ th₀.rest = .throw e := by
  constructor
  · intro h
    obtain ⟨o, ho⟩ := Program.outcome_of_done (hb.done (by rw [h]; exact trivial))
    cases o with
    | error e' =>
        have hend := end_of hb ho (by exact trivial) (hfinish (.error e'))
        rw [h] at hend
        rw [Program.throw.inj hend]
        exact Program.outcome_error.mp ho
    | ok x =>
        have hret := Program.outcome_ok.mp ho
        obtain ⟨p, hp⟩ := hprogram
        have hpath := hb.path
        rw [hret, show th₀.req = S.back th.req from hb.req] at hpath
        change Path (S.app.program (S.back th.req)) _ _ at hpath
        rw [hp] at hpath
        obtain ⟨r, rfl⟩ := hpath.ret_of_bind
        have hend := (agrees_respond hb hfinish r).mpr hret
        rw [h] at hend
        cases hend
  · intro h
    exact end_of hb (Program.outcome_error.mpr h) trivial (hfinish _)

/-- So is an answer of `AuthController` what it makes of what the manager returned. -/
theorem agrees_auth (hb : (S.front τ).Behind th th₀) (body : Bytes)
    (f : Bytes → AuthResult → Action τ HttpResponse) (status : Nat) (ok : Bytes → AuthResult → Bool)
    (hfinish : ∀ o, (S.finish th.req o : Visiting τ HttpResponse) = S.onBody body f o)
    (hstatus : status ≠ 400)
    (hok : ∀ username password r, credentials S.lib body = some (username, password) →
      ∃ response, S.onBody body f (.ok (.auth r)) = (.ret response : Visiting τ HttpResponse) ∧
        (response.status = status ↔ ok username r = true ∧ r.success = true)) :
    (∃ r, th.rest = .ret r ∧ r.status = status) ↔ ∃ username password a,
      credentials S.lib body = some (username, password) ∧ ok username a = true ∧
        th₀.rest = .ret (.auth a) ∧ a.success = true := by
  constructor
  · rintro ⟨r, hr, hs⟩
    obtain ⟨o, ho⟩ := Program.outcome_of_done (hb.done (by rw [hr]; exact trivial))
    have other : (credentials S.lib body = none ∨ ∀ a, o ≠ .ok (.auth a)) → False := by
      intro h
      rcases onBody_other (τ := τ) f h with hq | ⟨e, hq⟩
      · have hend := end_of hb ho (by rw [hq]; exact trivial) (hfinish o)
        rw [hr, hq] at hend
        cases hend
        exact hstatus hs.symm
      · have hend := end_of hb ho (by rw [hq]; exact trivial) (hfinish o)
        rw [hr, hq] at hend
        cases hend
    cases hbody : credentials S.lib body with
    | none => exact (other (Or.inl hbody)).elim
    | some c =>
        by_cases hauth : ∃ a, o = .ok (.auth a)
        · obtain ⟨a, rfl⟩ := hauth
          obtain ⟨response, hq, hiff⟩ := hok c.1 c.2 a hbody
          have hend := end_of hb ho (by rw [hq]; exact trivial) (hfinish _)
          rw [hr, hq] at hend
          cases hend
          obtain ⟨hok, hsuccess⟩ := hiff.mp hs
          exact ⟨c.1, c.2, a, rfl, hok, Program.outcome_ok.mp ho, hsuccess⟩
        · exact (other (Or.inr fun a h => hauth ⟨a, h⟩)).elim
  · rintro ⟨username, password, a, hbody, hgood, hrest, hsuccess⟩
    obtain ⟨response, hq, hiff⟩ := hok username password a hbody
    refine ⟨response, ?_, hiff.mpr ⟨hgood, hsuccess⟩⟩
    have hend := end_of hb (Program.outcome_ok.mpr hrest) (by rw [hq]; exact trivial) (hfinish _)
    exact hend.trans hq

/-- What `AuthController` throws the manager has thrown. -/
theorem agrees_auth_throw (hb : (S.front τ).Behind th th₀) (body : Bytes)
    (f : Bytes → AuthResult → Action τ HttpResponse)
    (hfinish : ∀ o, (S.finish th.req o : Visiting τ HttpResponse) = S.onBody body f o)
    (hidle : credentials S.lib body = none → th₀.rest = .ret (.user none))
    (hcall : ∀ c, credentials S.lib body = some c → ∃ p : Action τ AuthResult,
      S.app.program (S.back th.req) = p.bind fun r => .ret (.auth r))
    (hret : ∀ c r, credentials S.lib body = some c →
      ∃ response, S.onBody body f (.ok (.auth r)) = (.ret response : Visiting τ HttpResponse))
    (e : Exn) : th.rest = .throw e ↔ th₀.rest = .throw e ∧ e ≠ .json := by
  cases hbody : credentials S.lib body with
  | none =>
      have hrest := hidle hbody
      have hend := end_of hb (Program.outcome_ok.mpr hrest)
        (q := .ret (errorResponse "Invalid JSON body" 400)) trivial (by
          rw [hfinish, onBody, hbody]
          exact catchJson_throw .json)
      rw [hrest, hend]
      constructor
      · intro h
        cases h
      · rintro ⟨h, -⟩
        cases h
  | some c =>
      have herror : ∀ e, (S.finish th.req (.error e) : Visiting τ HttpResponse) =
          if e = .json then .ret (errorResponse "Invalid JSON body" 400) else .throw e := by
        intro e
        rw [hfinish, onBody, hbody]
        exact catchJson_throw e
      constructor
      · intro h
        obtain ⟨o, ho⟩ := Program.outcome_of_done (hb.done (by rw [h]; exact trivial))
        cases o with
        | error e' =>
            by_cases he : e' = .json
            · have hend := end_of hb ho (by exact trivial) ((herror e').trans (if_pos he))
              rw [h] at hend
              cases hend
            · have hend := end_of hb ho (by exact trivial) ((herror e').trans (if_neg he))
              rw [h] at hend
              rw [Program.throw.inj hend]
              exact ⟨Program.outcome_error.mp ho, he⟩
        | ok x =>
            obtain ⟨p, hp⟩ := hcall c hbody
            have hpath := hb.path
            rw [Program.outcome_ok.mp ho, show th₀.req = S.back th.req from hb.req] at hpath
            change Path (S.app.program (S.back th.req)) _ _ at hpath
            rw [hp] at hpath
            obtain ⟨r, rfl⟩ := hpath.ret_of_bind
            obtain ⟨response, hresponse⟩ := hret c r hbody
            have hend := end_of hb ho (by exact trivial) ((hfinish _).trans hresponse)
            rw [h] at hend
            cases hend
      · rintro ⟨h, he⟩
        exact end_of hb (Program.outcome_error.mpr h) trivial ((herror e).trans (if_neg he))

/-- **One visit.**  The end of a visit is what its endpoint makes of the end of the request. -/
theorem agrees (hb : (S.front τ).Behind th th₀) : S.Agrees th.req th.rest th₀.rest := by
  have idle : ∀ {v : Visit}, th.req = v → S.back v = .verifyToken [] →
      th₀.rest.outcome = some (.ok (.user none)) := by
    intro v hv hback
    have hp := hb.path
    rw [hb.req, show (S.front τ).back th.req = S.back th.req from rfl, hv, hback] at hp
    have hprogram : (S.app.program (.verifyToken []) : Action τ Result) = .ret (.user none) := by
      show Program.bind (S.app.auth.verifyToken []) (fun u => .ret (Result.user u)) = _
      rw [verifyToken_nil]
      exact rfl
    change Path (S.app.program (.verifyToken [])) _ _ at hp
    rw [hprogram] at hp
    rw [(path_ret.mp hp).2]
    rfl
  have token : ∀ {f : Option Bytes → Visiting τ HttpResponse},
      (∀ o, S.finish th.req o = onToken f o) →
      f none = .ret (errorResponse "Unauthorized" 401) →
      (th₀.rest = .ret (.user none) → th.rest = .ret (errorResponse "Unauthorized" 401)) ∧
      ∀ e, th₀.rest = .throw e → th.rest = .throw e := by
    intro f hfinish hf
    refine ⟨fun hrest => ?_, fun e hrest => ?_⟩
    · exact end_of hb (Program.outcome_ok.mpr hrest) trivial ((hfinish _).trans hf)
    · exact end_of hb (Program.outcome_error.mpr hrest) trivial (hfinish _)
  have respond : (∀ o, (S.finish th.req o : Visiting τ HttpResponse) = onReturn onResponse o) →
      (∃ p : Action τ HttpResponse,
        S.app.program (S.back th.req) = p.bind fun r => .ret (.response r)) →
      (∀ r, th.rest = .ret r ↔ th₀.rest = .ret (.response r)) ∧
        ∀ e, th.rest = .throw e ↔ th₀.rest = .throw e := fun hfinish hprogram =>
    ⟨agrees_respond hb hfinish, agrees_throw hb hfinish hprogram⟩
  cases hv : th.req with
  | registerUser body =>
      refine ⟨?_, agrees_auth_throw hb body registered (fun o => by rw [hv]; rfl) ?_ ?_ ?_⟩
      · refine agrees_auth hb body registered 201 (fun username _ => utf8 username)
          (fun o => by rw [hv]; rfl) (by decide) ?_
        intro username password r hbody
        refine ⟨_, finish_registerUser hbody r, ?_⟩
        by_cases hr : r.success = true
        · by_cases hu : utf8 username = true
          · simp [hr, hu]
          · simp [hr, hu, errorResponse]
        · simp [hr, errorResponse]
      · intro hbody
        exact Program.outcome_ok.mp (idle hv (by simp only [back, hbody]))
      · intro c hbody
        exact ⟨_, by rw [hv]; simp only [back, hbody]; rfl⟩
      · intro c r hbody
        exact ⟨_, finish_registerUser hbody r⟩
  | login body =>
      refine ⟨?_, agrees_auth_throw hb body (fun _ => loggedIn) (fun o => by rw [hv]; rfl) ?_ ?_ ?_⟩
      · have key := agrees_auth hb body (fun _ => loggedIn) 200
          (fun _ a => utf8 a.token && utf8 a.userId) (fun o => by rw [hv]; rfl) (by decide) ?_
        · simp only [Bool.and_eq_true] at key
          exact key
        · intro username password r hbody
          refine ⟨_, finish_login hbody r, ?_⟩
          by_cases hr : r.success = true
          · by_cases hu : (utf8 r.token && utf8 r.userId) = true
            · simp [hr, hu]
            · simp [hr, hu, errorResponse]
          · simp [hr, errorResponse]
      · intro hbody
        exact Program.outcome_ok.mp (idle hv (by simp only [back, hbody]))
      · intro c hbody
        exact ⟨_, by rw [hv]; simp only [back, hbody]; rfl⟩
      · intro c r hbody
        exact ⟨_, finish_login hbody r⟩
  | getProfile req => exact token (fun o => by rw [hv]; rfl) rfl
  | adminHealth req => exact token (fun o => by rw [hv]; rfl) rfl
  | check =>
      have hend := end_of hb (idle hv rfl) trivial (q := .ret ⟨200, _⟩) (by rw [hv]; rfl)
      exact ⟨_, hend, rfl⟩
  | publicKey exported =>
      refine end_of hb (idle hv rfl) ?_ (by rw [hv]; rfl)
      show Program.Done (managed (S.publicKey exported))
      unfold publicKey
      dsimp only
      split
      · exact trivial
      · unfold jsonResponse
        split <;> exact trivial
  | verifyExternal allocs own req => exact end_of hb (idle hv rfl) trivial (by rw [hv]; rfl)
  | logout req => exact respond (fun o => by rw [hv]; rfl) ⟨_, by rw [hv]; rfl⟩
  | sign req => exact respond (fun o => by rw [hv]; rfl) ⟨_, by rw [hv]; rfl⟩
  | list req => exact respond (fun o => by rw [hv]; rfl) ⟨_, by rw [hv]; rfl⟩
  | download req id => exact respond (fun o => by rw [hv]; rfl) ⟨_, by rw [hv]; rfl⟩
  | verify req id => exact respond (fun o => by rw [hv]; rfl) ⟨_, by rw [hv]; rfl⟩
  | remove req id => exact respond (fun o => by rw [hv]; rfl) ⟨_, by rw [hv]; rfl⟩

end Behind

/-- **The server inside the site.**  Whatever the endpoints are asked in whatever order, as long
as the accounts are left to the site there is a run of the server with the same world and the
same requests, in which every visit ends as the request behind it does. -/
theorem site_runs_server {w : World τ} {c : Config (site τ S)}
    (h : Reach (S.front τ).Undisturbed (Config.fresh w) c) :
    ∃ c₀ : Config (server τ S.app), Reach (fun _ _ => True) (Config.fresh w) c₀ ∧
      c₀.world = c.world ∧ c₀.threads.length = c.threads.length ∧
      ∀ (i : Nat) th, c.threads[i]? = some th → ∃ th₀, c₀.threads[i]? = some th₀ ∧
        th₀.req = S.back th.req ∧ S.Agrees th.req th.rest th₀.rest := by
  have hallowed : Reach ((S.front τ).Allows fun _ _ => True) (Config.fresh w) c :=
    h.mono fun c s hu => ⟨hu, fun _ _ _ _ => trivial⟩
  obtain ⟨c₀, hrun, hproj⟩ := (Front.Projects.fresh (X := S.front τ) w).reach hallowed
  refine ⟨c₀, hrun, hproj.world, hproj.length, fun i th hi => ?_⟩
  obtain ⟨th₀, hi₀, hb⟩ := hproj.thread i th hi
  exact ⟨th₀, hi₀, hb.req, agrees hb⟩

end Site

namespace Sample

/-- **The first account looks at its profile.** -/
theorem site_runs_server_profile :
    ∃ c₀ : Config (server ℚ app), Reach (fun _ _ => True) (Config.fresh world) c₀ ∧
      c₀.world = session ∧ c₀.threads.length = 2 ∧
      ∀ (i : Nat) th, [welcomeTh, profileTh][i]? = some th → ∃ th₀, c₀.threads[i]? = some th₀ ∧
        th₀.req = controllers.back th.req ∧ controllers.Agrees th.req th.rest th₀.rest := by
  have hlogin : Reach (controllers.front ℚ).Undisturbed (Config.fresh world)
      ⟨session, [welcomeTh]⟩ := reach_welcomed Site.allows_undisturbed
  have hprofile : Reach (controllers.front ℚ).Undisturbed ⟨session, [welcomeTh]⟩
      ⟨session, [welcomeTh, profileTh]⟩ := reach_profile Site.allows_undisturbed
  obtain ⟨c₀, hrun, hworld, hlength, hthreads⟩ := Site.site_runs_server (hlogin.trans hprofile)
  exact ⟨c₀, hrun, hworld, hlength, hthreads⟩

/-- Its login is allowed. -/
theorem allows_welcome : Allows Site.Allowed world [] (.login loginBody) welcomeTh.log := by
  refine Site.allows_visit (fun token seg h => by cases h) ?_
  intro n e b hn hchoice d hd hcmd
  rcases hd with hd | ⟨th, hth, -⟩
  · obtain rfl : n = 1 := by
      rcases n with _ | _ | _ | _ | n
      · cases hn
        cases hchoice
      · rfl
      · cases hn
        cases hchoice
      · cases hn
        cases hchoice
      · cases hn
    rw [List.mem_singleton.mp (show d ∈ [_] from hd)] at hcmd
    cases hcmd
  · cases hth

/-- So is a visit with its token, which draws nothing. -/
theorem allows_token {w : World ℚ} {v : Visit}
    {events : List (Event (site ℚ controllers).toMachine)} (htoken : v.presents = some token)
    (hdraws : ∀ e ∈ events, e.choice = .done) :
    Allows Site.Allowed w [welcomeTh] v events := by
  refine Site.allows_visit ?_ ?_
  · intro t seg hpres hseg hv
    obtain rfl := Option.some.inj (htoken.symm.trans hpres)
    obtain ⟨th, hmem, l, hl⟩ := signed rfl hseg
    rw [List.mem_singleton] at hmem
    subst hmem
    exact ⟨welcomeTh, List.mem_singleton_self _, loginTh, behind_welcomed, l, hl⟩
  · intro n e b hn hchoice
    rw [hdraws e (List.mem_of_getElem? hn)] at hchoice
    cases hchoice

/-- It looks at its profile. -/
theorem reach_profiled :
    Reach Site.Allowed (Config.fresh world) ⟨session, [welcomeTh, profileTh]⟩ := by
  have hprofile : Reach Site.Allowed ⟨session, [welcomeTh]⟩ ⟨session, [welcomeTh, profileTh]⟩ :=
    reach_profile (allows_token (presented none) (by simp [profileTh, lookedUp, Site.rowEvents,
      tokenEvents, Front.event]))
  exact (reach_welcomed allows_welcome).trans hprofile

/-- It asks for the health report. -/
theorem reach_reported :
    Reach Site.Allowed (Config.fresh world) ⟨session, [welcomeTh, healthTh]⟩ := by
  have hhealth : Reach Site.Allowed ⟨session, [welcomeTh]⟩ ⟨session, [welcomeTh, healthTh]⟩ :=
    reach_health (allows_token (presented none) (by simp [healthTh, lookedUp, Site.rowEvents,
      Site.reportEvents, tokenEvents, Front.event]))
  exact (reach_welcomed allows_welcome).trans hhealth

end Sample

end PqcApi
