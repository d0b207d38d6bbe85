/-
What the dashboard says of a document.

`openVerify` asks the server to verify a document of the list and shows one of three panels.  The
server tests whose document it is, reads the row and then its PDF, in three statements, and other
requests run in between.  Nevertheless the panel is about one row of the account: ids are not
given out again, so what the last statement reads belongs to the row of the first.
-/
import PqcApi.Pages.Dashboard
import PqcApi.Pages.Panels

namespace PqcApi

open Concurrent Html

/-! ### The window -/

namespace Dashboard

/-- The holes of its panels. -/
inductive Slot
  | message
  | algorithm
  | hash
  deriving DecidableEq

/-- What it says. -/
inductive Verdict
  | error
  | valid
  | invalid
  deriving DecidableEq

def Verdict.panel : Verdict → Panel Slot
  | .error => PqcApi.panel "verify-result invalid" "" "\n      " "warning" "Error" "error" "Error"
      [.hole .message]
  | .valid => PqcApi.panel "verify-result valid" "\n      " "\n      " "checkmark" "Valid" "success"
      "Signature Valid" ([.hole .algorithm] ++ lit " · " ++ [.hole .hash])
  | .invalid => PqcApi.panel "verify-result invalid" "\n      " "\n      " "cross" "Invalid" "error"
      "Invalid Signature" [.hole .algorithm]

theorem Verdict.legible (v : Verdict) : v.panel.legible = true := by
  cases v <;> decide +kernel

/-- What stands in the holes. -/
def inSlot (B : Browser) (data : Json) : Slot → JsString
  | .message => B.stringOr (data.member "error") "Unknown error"
  | .algorithm => B.string (data.member "algorithm")
  | .hash => trunc B (data.member "sha256") 20

/-- The branches of `openVerify`. -/
def verdict (B : Browser) (ok : Bool) (data : Json) : Verdict :=
  if !ok then .error
  else if B.truthy (data.member "valid") then .valid
  else .invalid

/-- What is there until the answer is. -/
def spinner : String :=
  "<div style=\"text-align:center;padding:1rem;color:var(--muted)\"><span class=\"spinner\" " ++
  "style=\"border-color:rgba(0,0,0,.15);border-top-color:var(--primary)\"></span> Verifying…</div>"

/-- `openVerify`: the class and the HTML it gives to the window.  Where the answer is no JSON it
comes to no end, and the window keeps what was there. -/
def openVerify (B : Browser) (answer : Option (Bool × Json)) : String × JsString :=
  match answer with
  | none => ("verify-result", units spinner)
  | some (ok, data) =>
      let p := (verdict B ok data).panel
      (p.className, p.html (inSlot B data))

/-- The window says this, with this line of detail. -/
structure Says (B : Browser) (answer : Option (Bool × Json)) (v : Verdict) (line : JsString) :
    Prop where
  className : (openVerify B answer).1 = v.panel.className
  reads : v.panel.Reads B line (openVerify B answer).2

theorem Verdict.label_inj {v v' : Verdict} (h : units v.panel.label = units v'.panel.label) :
    v = v' := by
  revert h
  cases v <;> cases v' <;> decide

/-- It says one thing. -/
theorem Says.unique {B : Browser} {answer : Option (Bool × Json)} {v v' : Verdict}
    {line line' : JsString} (h : Says B answer v line) (h' : Says B answer v' line') :
    v = v' ∧ line = line' := by
  obtain ⟨hlabel, hline⟩ := h.reads.unique h'.reads
  exact ⟨Verdict.label_inj hlabel, hline⟩

/-- Before the answer is there it says nothing. -/
theorem says_nothing {B : Browser} {v : Verdict} {line : JsString} : ¬ Says B none v line := by
  have hclass : "verify-result" ≠ v.panel.className := by
    cases v <;> decide
  exact fun h => hclass h.className

theorem says_of_answer {B : Browser} (hrefs : Resolves B.refs entities) (ok : Bool) (data : Json) :
    Says B (some (ok, data)) (verdict B ok data)
      ((verdict B ok data).panel.detail (inSlot B data)) :=
  ⟨rfl, reads_html hrefs (Verdict.legible _) (inSlot B data)⟩

/-- Of an error the window tells the message. -/
theorem says_error {B : Browser} (hrefs : Resolves B.refs entities) (message : String)
    {status : Nat} (hstatus : 300 ≤ status) : Says B (apiAnswer (errorResponse message status))
      .error (B.stringOr (some (.text message)) "Unknown error") := by
  have hbad : ¬ (200 ≤ status ∧ status < 300) := by omega
  have hanswer : apiAnswer (errorResponse message status) =
      some (false, .object [("error", .text message)]) := by
    simp [apiAnswer, errorResponse, Json.object, hbad]
  have hmember : (Json.object [("error", .text message)]).member "error" =
      some (.text message) := by
    rw [Json.member_object (by simp)]
    simp
  have htold := says_of_answer hrefs false (.object [("error", .text message)])
  have hline : (verdict B false (.object [("error", .text message)])).panel.detail
      (inSlot B (.object [("error", .text message)])) =
        B.stringOr (some (.text message)) "Unknown error" := by
    rw [← hmember]
    exact plain_fill_hole _ _
  rw [hline] at htold
  rw [hanswer]
  exact htold

theorem member_verified (id : Int) (d : Document) (valid : Bool) :
    (App.verifiedResponse id d valid).member "valid" = some (.bool valid) ∧
    (App.verifiedResponse id d valid).member "algorithm" = some (.text "ML-DSA-65") ∧
    (App.verifiedResponse id d valid).member "sha256" = some (.str d.sha256Hash) := by
  have hkeys : (["doc_id", "valid", "algorithm", "filename", "sha256"].map ascii).Nodup := by decide
  simp only [List.map_cons, List.map_nil] at hkeys
  have hmember : ∀ key, (App.verifiedResponse id d valid).member key = _ :=
    fun key => Json.member_object hkeys
  simp only [hmember]
  simp +decide

/-- The line of a verified row. -/
def verifiedLine (B : Browser) (d : Document) (valid : Bool) : JsString :=
  if valid then B.text (ascii "ML-DSA-65") ++ units " · " ++ trunc B (some (.str d.sha256Hash)) 20
  else B.text (ascii "ML-DSA-65")

/-- Of a row that was verified it tells the verdict, and of a valid one the hash. -/
theorem says_verified {B : Browser} (hrefs : Resolves B.refs entities) (id : Int) (d : Document)
    (valid : Bool) : Says B (apiAnswer ⟨200, .json (App.verifiedResponse id d valid)⟩)
      (if valid then .valid else .invalid) (verifiedLine B d valid) := by
  obtain ⟨hvalid, halgorithm, hhash⟩ := member_verified id d valid
  have htold := says_of_answer hrefs true (App.verifiedResponse id d valid)
  have hverdict : verdict B true (App.verifiedResponse id d valid) =
      if valid then .valid else .invalid := by
    rw [verdict, hvalid]
    rfl
  have hslot : inSlot B (App.verifiedResponse id d valid) .algorithm =
      B.text (ascii "ML-DSA-65") := by
    rw [inSlot, halgorithm]
    rfl
  have hdetail : (if valid then Verdict.valid else .invalid).panel.detail
      (inSlot B (App.verifiedResponse id d valid)) = verifiedLine B d valid := by
    cases valid with
    | false => exact (plain_fill_hole _ _).trans hslot
    | true =>
        have hline : Verdict.valid.panel.line =
            [Sym.hole Slot.algorithm] ++ lit " · " ++ [Sym.hole Slot.hash] := rfl
        show Verdict.valid.panel.detail _ = _
        rw [Panel.detail, hline, plain_fill_append, plain_fill_append, plain_fill_hole,
          plain_fill_hole, plain_fill_lit, hslot, inSlot, hhash]
        rfl
  rw [hverdict, hdetail] at htold
  exact htold

end Dashboard

/-! ### The row it is about -/

variable {τ : Type} [Field τ] [LinearOrder τ] [FloorRing τ]

namespace App

/-- What `verify` answers when it has found a row and a PDF. -/
def verified (P : App) (id : Int) (d : Document) (pdf : Bytes) : HttpResponse :=
  match P.signer.verify P.lib .ok (base64Decode P.lib pdf) (base64Decode P.lib d.signature) with
  | .error _ => errorResponse "Verification error" 500
  | .ok valid => ⟨200, .json (verifiedResponse id d valid)⟩

theorem verified_of_judge {P : App} {id : Int} {d : Document} {pdf : Bytes}
    {log : List (ServerEvent τ P)} {q : Action τ Result}
    (h : Path (answer (P.judge id d pdf)) log q) :
    q = .ret (.response (P.verified id d pdf)) ∨ q = .throw .json := by
  unfold judge at h
  unfold verified
  cases hverify : P.signer.verify P.lib .ok (base64Decode P.lib pdf)
      (base64Decode P.lib d.signature) with
  | error e =>
      rw [hverify] at h
      exact Or.inl (path_ret.mp h).2
  | ok valid =>
      rw [hverify] at h
      rw [answer_jsonResponse h]
      by_cases hdump : (verifiedResponse id d valid).dumpable = true
      · rw [if_pos hdump]
        exact Or.inl rfl
      · rw [if_neg hdump]
        exact Or.inr rfl

end App

section Answered

variable {P : App} {th : Thread (server τ P)} {id : Int} {header : HttpRequest} {r : HttpResponse}
  (hp : Path (P.program th.req) th.log th.rest)

include hp

/-- A verification is refused, or finds nothing, or has thrown, or is of what its three statements
have found. -/
theorem verified_of_answer (hreq : th.req = .verify header id) (hdone : th.rest.Done) :
    th.rest = .ret (.response (errorResponse "Unauthorized" 401)) ∨
    th.rest = .ret (.response (errorResponse "Not found" 404)) ∨
    (th.rest = .throw .outOfRange ∨ th.rest = .throw .query) ∨ th.rest = .throw .json ∨
    ∃ (user : Int) (l : Authenticated th user) (e₁ e₂ e₃ : ServerEvent τ P)
      (rest : List (ServerEvent τ P)) (d : Document) (pdf : Bytes),
      l.rest = e₁ :: e₂ :: e₃ :: rest ∧ e₁.Is (.ownedBy id user) (some true) ∧
      e₂.Is (.documentById id) (some (some d)) ∧ e₃.Is (.pdfData id) (some (some pdf)) ∧
      th.rest = .ret (.response (P.verified id d pdf)) := by
  have hg : P.guarded th.req = some (header, (P.verifyAs id : Bytes → Action τ _)) := by
    rw [hreq]
    rfl
  have broken : ∀ {p : Prop}, th.rest = .throw .query →
      (th.rest = .throw .outOfRange ∨ th.rest = .throw .query) ∨ p := fun h => Or.inl (Or.inr h)
  rcases guarded_path hp hg with ⟨-, ⟨c, k, hwait⟩ | hrefused⟩ | ⟨l, hbody⟩
  · rw [hwait] at hdone
    exact hdone.elim
  · exact Or.inl hrefused
  have hpath := l.path
  rw [hbody, App.verifyAs_eq] at hpath
  refine Or.inr ?_
  cases huser : stoi l.userId with
  | none =>
      rw [huser] at hpath
      exact Or.inr (Or.inl (Or.inl (path_throw.mp hpath).2))
  | some user =>
      rw [huser] at hpath
      dsimp only at hpath
      rw [App.readOwned_eq] at hpath
      obtain ⟨e₁, owned, rest₁, -, h₁, hlog₁, hpath⟩ := (path_call_done hdone).mp hpath
      rcases owned with _ | (_ | _)
      · exact Or.inr (broken (path_throw.mp hpath).2)
      · exact Or.inl (path_ret.mp hpath).2
      obtain ⟨e₂, doc, rest₂, -, h₂, hlog₂, hpath⟩ := (path_call_done hdone).mp hpath
      rcases doc with _ | doc
      · exact Or.inr (broken (path_throw.mp hpath).2)
      obtain ⟨e₃, pdf, rest₃, -, h₃, hlog₃, hpath⟩ := (path_call_done hdone).mp hpath
      rcases pdf with _ | pdf
      · exact Or.inr (broken (path_throw.mp hpath).2)
      rcases doc with _ | d
      · exact Or.inl (path_ret.mp hpath).2
      rcases pdf with _ | pdf
      · exact Or.inl (path_ret.mp hpath).2
      refine Or.inr (Or.inr ?_)
      rcases App.verified_of_judge hpath with hjudged | hthrown
      · refine Or.inr ⟨user, ⟨l, huser⟩, e₁, e₂, e₃, rest₃, d, pdf, ?_, h₁, h₂, h₃, hjudged⟩
        rw [hlog₁, hlog₂, hlog₃]
      · exact Or.inl hthrown

end Answered

namespace Dashboard

/-- What there is to say of a row. -/
def judged (P : App) (d : Document) : Verdict :=
  match P.signer.verify P.lib .ok (base64Decode P.lib d.pdfData) (base64Decode P.lib d.signature)
    with
  | .error _ => .error
  | .ok true => .valid
  | .ok false => .invalid

/-- And in which line. -/
def judgedLine (B : Browser) (P : App) (d : Document) : JsString :=
  match P.signer.verify P.lib .ok (base64Decode P.lib d.pdfData) (base64Decode P.lib d.signature)
    with
  | .error _ => B.stringOr (some (.text "Verification error")) "Unknown error"
  | .ok valid => verifiedLine B d valid

theorem says_judged_row {B : Browser} (hrefs : Resolves B.refs entities) (P : App) (id : Int)
    (d : Document) :
    Says B (apiAnswer (P.verified id d d.pdfData)) (judged P d) (judgedLine B P d) := by
  unfold App.verified judged judgedLine
  cases P.signer.verify P.lib .ok (base64Decode P.lib d.pdfData)
    (base64Decode P.lib d.signature) with
  | error e => exact says_error hrefs "Verification error" (by decide)
  | ok valid =>
      have htold := says_verified hrefs id d valid
      cases valid with
      | false => exact htold
      | true => exact htold

end Dashboard

namespace Site

open Dashboard

variable {S : Site} {th : Thread (site τ S)} {ok : Config (site τ S) → Step (site τ S) → Prop}
  {w : World τ}

/-- **A verification is of one row.**  Whatever runs in between, a visit that is not refused and
has not thrown is about a row the account had when it was asked for its owner. -/
theorem verified_of_visit {c : Config (site τ S)} (hrun : Reach ok (Config.fresh w) c) {i : Nat}
    (hi : c.threads[i]? = some th) {req : HttpRequest} {id : Int} (hreq : th.req = .verify req id)
    (hdone : th.rest.Done) :
    Withheld th.rest ∨ th.rest = .throw .json ∨ ∃ user, SessionOf th user ∧ ∃ e ∈ th.log,
      Event.Is (S := (services τ).extend looks) e (.inl (.ownedBy id user)) (some true) ∧
      ∃ d ∈ e.pre.own user, d.id = id ∧ th.rest = .ret (S.app.verified id d d.pdfData) := by
  obtain ⟨th₀, hth⟩ := thread_behind hrun hi
  have hreq₀ : th₀.req = .verify req id :=
    (show th₀.req = S.back th.req from hth.req).trans (congrArg S.back hreq)
  have hagrees := agrees hth
  rw [hreq] at hagrees
  rcases verified_of_answer hth.path hreq₀ (hth.done hdone) with
    hrefused | hmissing | hbroken | hthrown |
    ⟨user, l, e₁, e₂, e₃, rest, d, pdf, hlog, h₁, h₂, h₃, hr⟩
  · exact Or.inl (Or.inl ((hagrees.1 _).mpr hrefused))
  · exact Or.inl (Or.inr (Or.inl ((hagrees.1 _).mpr hmissing)))
  · exact Or.inl (Or.inr (Or.inr (broken_of_behind hagrees hbroken)))
  · exact Or.inr (Or.inl ((hagrees.2 _).mpr hthrown))
  have hlog₀ : th₀.log = l.clock :: l.looked :: e₁ :: e₂ :: e₃ :: rest := by
    rw [l.log, hlog]
  have hsession : SessionOf th user :=
    ⟨_, mem_of_behind hth (by rw [hlog₀]; simp), _, _, Front.event_is l.looked_is, l.user_eq⟩
  -- the three statements, in the order of their worlds
  have hasc := hrun.ascends (R := DocsLe) DocsLe.refl DocsLe.trans (fun _ hs => docsLe_site hs)
    (Nat.zero_le i) hi
  obtain ⟨own, hown, -⟩ := hth.log
  rw [hown, hlog₀] at hasc
  obtain ⟨-, -, -, -, -, hle₁, hle₂, hle₂', hle₃, -⟩ := hasc
  have hseen₂ : DocsLe e₁.pre e₂.pre := hle₁.trans _ _ _ hle₂
  have hseen₃ : DocsLe e₁.pre e₃.pre := hseen₂.trans _ _ _ (hle₂'.trans _ _ _ hle₃)
  -- what they have found
  have hx₁ := exec_of_mem hth.path (by rw [hlog₀]; simp) h₁
  have hx₂ := exec_of_mem hth.path (by rw [hlog₀]; simp) h₂
  have hx₃ := exec_of_mem hth.path (by rw [hlog₀]; simp) h₃
  obtain ⟨d₀, hd₀, hid, huser⟩ := (exec_ownedBy hx₁).mp rfl
  obtain rfl : d = d₀ := hseen₂.byId hd₀ hid (exec_documentById hx₂).symm
  obtain ⟨d₃, hd₃, rfl⟩ := Option.map_eq_some_iff.mp (exec_pdfData hx₃).symm
  obtain rfl : d₃ = d := hseen₃.byId hd₀ hid hd₃
  exact Or.inr (Or.inr ⟨user, hsession, _, mem_of_behind hth (by rw [hlog₀]; simp),
    Front.event_is h₁, d₃, List.mem_filter.mpr ⟨hd₀, by simpa using huser⟩, hid,
    (hagrees.1 _).mpr hr⟩)

/-- **The dashboard says what is so.**  In every run, whatever is changed or deleted in between:
what the window says of a verification is that nobody is logged in, that the document was not
found, or of one row the account had when it was asked for its owner, whether the signature in it
is one for the PDF in it.  Where the visit has thrown, the window says nothing. -/
theorem window_verdict {c : Config (site τ S)} (hrun : Reach ok (Config.fresh w) c) {i : Nat}
    (hi : c.threads[i]? = some th) {req : HttpRequest} {id : Int} (hreq : th.req = .verify req id)
    (hdone : th.rest.Done) {B : Browser} (hrefs : Resolves B.refs Dashboard.entities) :
    (∃ message ∈ ["Unauthorized", "Not found"], Says B (visitAnswer th.rest) .error
      (B.stringOr (some (.text message)) "Unknown error")) ∨
    ((Broken th.rest ∨ th.rest = .throw .json) ∧ ∀ v line, ¬ Says B (visitAnswer th.rest) v line) ∨
    ∃ user, SessionOf th user ∧ ∃ e ∈ th.log,
      Event.Is (S := (services τ).extend looks) e (.inl (.ownedBy id user)) (some true) ∧
      ∃ d ∈ e.pre.own user, d.id = id ∧ ∀ v line,
        Says B (visitAnswer th.rest) v line ↔ v = judged S.app d ∧ line = judgedLine B S.app d := by
  have hthrown : ∀ e, th.rest = .throw e → ∀ v line, ¬ Says B (visitAnswer th.rest) v line := by
    intro e h v line
    rw [h]
    exact says_nothing
  rcases verified_of_visit hrun hi hreq hdone with
    (hrefused | hmissing | hbroken) | hjson | ⟨user, hsession, e, he, howned, d, hd, hid, hr⟩
  · rw [hrefused]
    exact Or.inl ⟨_, by simp, says_error hrefs "Unauthorized" (by decide)⟩
  · rw [hmissing]
    exact Or.inl ⟨_, by simp, says_error hrefs "Not found" (by decide)⟩
  · exact Or.inr (Or.inl ⟨Or.inl hbroken, hbroken.elim (hthrown _) (hthrown _)⟩)
  · exact Or.inr (Or.inl ⟨Or.inr hjson, hthrown _ hjson⟩)
  refine Or.inr (Or.inr ⟨user, hsession, e, he, howned, d, hd, hid, fun v line => ?_⟩)
  have htold := says_judged_row hrefs S.app id d
  rw [hr]
  constructor
  · intro h
    exact h.unique htold
  · rintro ⟨rfl, rfl⟩
    exact htold

end Site

/-! ### The first account verifies -/

/-- **A row is verified**, when nothing fails. -/
theorem path_verify {P : App} {w : World τ} {d : Document} (hd : d ∈ w.docs.rows) {userId : Bytes}
    (huser : stoi userId = some d.userId) {valid : Bool}
    (hverify : P.signer.verify P.lib .ok (base64Decode P.lib d.pdfData)
      (base64Decode P.lib d.signature) = .ok valid)
    (hname : utf8 d.filename = true) (hsha : utf8 d.sha256Hash = true) :
    Path (App.answer (P.verifyAs d.id userId)) (readEvents P w d)
      (.ret (.response ⟨200, .json (App.verifiedResponse d.id d valid)⟩)) := by
  have howned := exec_ownedBy_of_mem (L := P.lib) hd
  have hrow : exec P.lib w (.documentById d.id) .done = some (some (some d), w) := by
    simp only [exec, statement, DocsTable.byId_of_mem hd]
  have hpdf : exec P.lib w (.pdfData d.id) .done = some (some (some d.pdfData), w) := by
    simp only [exec, statement, DocsTable.byId_of_mem hd, Option.map_some]
  simp only [App.verifyAs_eq, huser, App.readOwned_eq]
  refine ⟨_, _, _, _, howned, rfl, _, _, _, _, hrow, rfl, _, _, _, _, hpdf, rfl, path_nil.mpr ?_⟩
  show App.answer (P.judge d.id d d.pdfData) = _
  unfold App.judge
  rw [hverify]
  dsimp only
  rw [jsonResponse_eq (verifiedResponse_dumpable hname hsha)]
  rfl

namespace Sample

/-- The row of the first account. -/
def row : Document := ⟨1, user.id, ascii "a.pdf", [], [], [], 0⟩

theorem reach_verified : ∃ (th : Thread (site ℚ controllers)) (valid : Bool),
    th.req = .verify (request none) 1 ∧
      th.rest = .ret ⟨200, .json (App.verifiedResponse 1 row valid)⟩ ∧
      Reach (fun _ _ => True) (Config.fresh before) ⟨before, [th]⟩ := by
  have hrow : row ∈ before.docs.rows := List.mem_singleton_self row
  have hverify := DilithiumSigner.verify_of_publicPart (L := lib) keyPair.verifying .ok
    (base64Decode lib row.pdfData) (base64Decode lib row.signature)
  have hvisit := path_letIn (P := app) (w := before) (r := .verify (request none) 1) rfl
    (presented none) payload_token readPayload_token (live_sessionWith _)
    (path_verify (P := app) hrow user_id hverify (by decide) (by decide))
  exact ⟨_, _, rfl, rfl, Site.reach_respond (S := controllers) (v := .verify (request none) 1)
    hvisit (fun _ => rfl) ⟨rfl, rfl, rfl, rfl, rfl, rfl⟩ Allows.always⟩

end Sample

/-- **The first account looks at its document.** -/
theorem window_verdict_first : ∃ (th : Thread (site ℚ Sample.controllers)) (r : HttpResponse),
    th.req = .verify (Sample.request none) 1 ∧ th.rest = .ret r ∧ r.status = 200 ∧
    ∃ user, Site.SessionOf th user ∧ ∃ e ∈ th.log,
      Event.Is (S := (services ℚ).extend looks) e (.inl (.ownedBy 1 user)) (some true) ∧
      ∃ d ∈ e.pre.own user, d.id = 1 ∧ ∀ v line,
        Dashboard.Says Sample.browser (visitAnswer th.rest) v line ↔
          v = Dashboard.judged Sample.app d ∧
          line = Dashboard.judgedLine Sample.browser Sample.app d := by
  obtain ⟨th, valid, hreq, hret, hrun⟩ := Sample.reach_verified
  have hrefs : Resolves Sample.browser.refs Dashboard.entities :=
    resolves_decode reversible_dashboard
  have htold := Dashboard.says_verified hrefs 1 Sample.row valid
  rcases Site.window_verdict hrun (i := 0) rfl hreq (by rw [hret]; exact trivial) hrefs with
    ⟨message, -, herror⟩ | ⟨(h | h) | h, -⟩ | h
  · rw [hret] at herror
    have hverdict := (htold.unique herror).1
    cases valid <;> cases hverdict
  · cases hret.symm.trans h
  · cases hret.symm.trans h
  · cases hret.symm.trans h
  · exact ⟨th, _, hreq, hret, rfl, h⟩

end PqcApi
