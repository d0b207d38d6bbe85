/-
What the verification page says.

The listener of the form sends the document and the two texts, and shows one of four panels.  The
server decides whose key was submitted by comparing texts and reports it in a field beside
`valid`; the page puts the two together.  What comes out is judged here against what there is to
say of a submission: the page says "Signature Valid" exactly of a signature under the server's
own key, and whatever the server has signed it says it of.
-/
import PqcApi.Api.Clients
import PqcApi.Documents.OwnKey
import PqcApi.Pages.Dashboard
import PqcApi.Pages.Panels

namespace PqcApi

open Concurrent Html

namespace Verify

/-- The holes of its panels. -/
inductive Slot
  | message
  | algorithm
  deriving DecidableEq

/-- What the page says. -/
inductive Verdict
  | error
  | valid
  | stranger
  | invalid
  deriving DecidableEq

def Verdict.panel : Verdict → Panel Slot
  | .error => PqcApi.panel "verify-result invalid" "" "\n        " "warning" "Error" "error" "Error"
      [.hole .message]
  | .valid => PqcApi.panel "verify-result valid" "\n        " "\n        " "checkmark" "Valid"
      "success" "Signature Valid" (.hole .algorithm :: lit " · signed by this server")
  | .stranger => PqcApi.panel "verify-result invalid" "\n        " "\n        " "warning" "Warning"
      "error" "Not Signed by This Server" (.hole .algorithm ::
        lit " · signature matches the submitted key, which is not this server's key")
  | .invalid => PqcApi.panel "verify-result invalid" "\n        " "\n        " "cross" "Invalid"
      "error" "Invalid Signature" [.hole .algorithm]

theorem legible_panel (v : Verdict) : v.panel.legible = true := by
  cases v <;> decide +kernel

theorem label_inj {v v' : Verdict} (h : units v.panel.label = units v'.panel.label) : v = v' := by
  revert h
  cases v <;> cases v' <;> decide

/-- What is shown in the holes. -/
def shown (B : Browser) (data : Json) : Slot → JsString
  | .message => B.stringOr (data.member "error") "Verification failed"
  | .algorithm => B.stringOr (data.member "algorithm") "ML-DSA-65"

/-- The branches of the listener on an answer. -/
def verdict (B : Browser) (ok : Bool) (data : Json) : Verdict :=
  if !ok then .error
  else if B.truthy (data.member "valid") && B.truthy (data.member "server_key") then .valid
  else if B.truthy (data.member "valid") then .stranger
  else .invalid

/-- What comes of a submitted form. -/
inductive Submitted
  /-- Something is missing, and nothing is sent. -/
  | toast (message : String)
  | shows (className : String) (html : JsString)
  /-- The answer cannot be read. -/
  | stuck

/-- The listener of the form, with the file that was selected and the two texts as they stand in
the form: `Api.verifyExternal` trims them once more. -/
def submit (B : Browser) (send : HttpRequest → HttpResponse) (file : Option (Bytes × Bytes))
    (signature publicKey : List Char) : Submitted :=
  match file with
  | none => .toast "Please select a PDF"
  | some (fileName, pdf) =>
      let sig := Page.trim signature
      let key := Page.trim publicKey
      if sig = [] then .toast "Please paste the signature"
      else if key = [] then .toast "Please enter the public key"
      else
        match apiAnswer (send (Page.verifyRequest fileName pdf sig key)) with
        | none => .stuck
        | some (ok, data) =>
            let p := (verdict B ok data).panel
            .shows p.className (p.html (shown B data))

/-- The page says this, with this line of detail. -/
def Submitted.Says (B : Browser) (s : Submitted) (v : Verdict) (line : JsString) : Prop :=
  ∃ html, s = .shows v.panel.className html ∧ v.panel.Reads B line html

/-- It says one thing. -/
theorem Submitted.Says.unique {B : Browser} {s : Submitted} {v v' : Verdict}
    {line line' : JsString} (h : s.Says B v line) (h' : s.Says B v' line') :
    v = v' ∧ line = line' := by
  obtain ⟨html, hs, hreads⟩ := h
  obtain ⟨html', hs', hreads'⟩ := h'
  have hsame := hs.symm.trans hs'
  injection hsame with _ hhtml
  subst hhtml
  obtain ⟨hlabel, hline⟩ := hreads.unique hreads'
  exact ⟨label_inj hlabel, hline⟩

/-- Of any answer that can be read the page says what its listener has found. -/
theorem submit_verdict {B : Browser} (hrefs : Resolves B.refs entities)
    {send : HttpRequest → HttpResponse} (fileName pdf : Bytes) {signature publicKey : List Char}
    (hsignature : Page.trim signature ≠ []) (hkey : Page.trim publicKey ≠ []) {ok : Bool}
    {data : Json} (hanswer : apiAnswer (send (Page.verifyRequest fileName pdf
      (Page.trim signature) (Page.trim publicKey))) = some (ok, data)) :
    (submit B send (some (fileName, pdf)) signature publicKey).Says B (verdict B ok data)
      ((verdict B ok data).panel.detail (shown B data)) := by
  have hsubmit : submit B send (some (fileName, pdf)) signature publicKey =
      .shows (verdict B ok data).panel.className
        ((verdict B ok data).panel.html (shown B data)) := by
    simp only [submit, if_neg hsignature, if_neg hkey, hanswer]
  exact ⟨_, hsubmit, reads_html hrefs (legible_panel _) (shown B data)⟩

/-! ### What there is to say -/

/-- The verdict on a submission: whether it can be judged at all, whether the signature is one
under the key that came with it, and whether that is the server's own key. -/
def judged (P : App) (pdf signature publicKey : Bytes) : Verdict :=
  if pdf = [] ∨ base64Decode P.lib signature = [] then .error
  else
    match P.lib.pemReadPubkey publicKey with
    | none => .error
    | some key =>
        if DilithiumSigner.isMlDsa65 P.lib key then
          if DilithiumSigner.digestVerify P.lib .ok key (base64Decode P.lib signature) pdf then
            if P.signer.publicPart = some key then .valid else .stranger
          else .invalid
        else .error

theorem verdict_errorResponse (B : Browser) (message : String) {status : Nat}
    (hstatus : 300 ≤ status) : ∃ data, apiAnswer (errorResponse message status) =
      some (false, data) ∧ verdict B false data = .error := by
  have hbad : ¬ (200 ≤ status ∧ status < 300) := by omega
  exact ⟨.object [("error", .text message)], by simp [apiAnswer, errorResponse, Json.object, hbad],
    rfl⟩

theorem verdict_externalResponse (B : Browser) (valid own : Bool) :
    apiAnswer ⟨200, .json (App.externalResponse valid own)⟩ =
      some (true, App.externalResponse valid own) ∧
    verdict B true (App.externalResponse valid own) =
      if valid && own then .valid else if valid then .stranger else .invalid := by
  have hkeys : (["valid", "algorithm", "server_key"].map ascii).Nodup := by decide
  simp only [List.map_cons, List.map_nil] at hkeys
  have hmember : ∀ key, (App.externalResponse valid own).member key = _ :=
    fun key => Json.member_object hkeys
  refine ⟨rfl, ?_⟩
  simp only [verdict, hmember]
  simp +decide [Browser.truthy]

section Own

variable {L : Lib} {signer : DilithiumSigner} {own : DilithiumSigner.OwnKeyOutcome} {pem : Bytes}
  {key : PubKey}

/-- Which key is the server's own is decided by texts, and rightly, unless neither is written. -/
theorem publicPart_of_own
    (hL : L.PemExports fun key => L.pemReadPubkey pem = some key ∨ signer.publicPart = some key)
    (hwritten : ¬ NeitherWritten L signer own pem) (h : signer.isOwnPublicKey L own pem = true) :
    ∃ key, L.pemReadPubkey pem = some key ∧ signer.publicPart = some key := by
  obtain ⟨hsome, hbio, key, hkey, htexts⟩ := DilithiumSigner.isOwnPublicKey_true h
  refine ⟨key, hkey, ?_⟩
  by_contra hother
  rcases DilithiumSigner.publicPart_of_export_eq hL (Or.inl hkey) (fun _ => Or.inr) htexts with
    hpublic | ⟨hsubmitted, hexport⟩
  · exact hother hpublic
  · exact hwritten ⟨hsome, hbio, key, hkey, hother, hsubmitted, hexport⟩

theorem own_iff
    (hL : L.PemExports fun key => L.pemReadPubkey pem = some key ∨ signer.publicPart = some key)
    (hkey : L.pemReadPubkey pem = some key) :
    signer.isOwnPublicKey L .ok pem = true ↔ signer.publicPart = some key := by
  constructor
  · intro htrue
    have hwritten : ¬ NeitherWritten L signer .ok pem := by
      rintro ⟨-, -, -, -, -, hsubmitted, -⟩
      cases hsubmitted
    obtain ⟨key', hkey', hpublic⟩ := publicPart_of_own hL hwritten htrue
    rwa [Option.some.inj (hkey.symm.trans hkey')]
  · intro hpublic
    exact DilithiumSigner.isOwnPublicKey_of_publicPart hpublic hkey

/-- What is accepted although something failed is accepted when nothing fails. -/
theorem accepts_of_verifyWithPEM {o : DilithiumSigner.Allocs} {data signature : Bytes}
    (hkey : L.pemReadPubkey pem = some key)
    (h : DilithiumSigner.verifyWithPEM L o data signature pem = .ok true) :
    DilithiumSigner.isMlDsa65 L key = true ∧
      DilithiumSigner.digestVerify L .ok key signature data = true := by
  unfold DilithiumSigner.verifyWithPEM at h
  by_cases hbio : o.bio = true
  · rw [if_pos hbio, hkey] at h
    dsimp only at h
    by_cases htype : DilithiumSigner.isMlDsa65 L key = true
    · rw [if_pos htype] at h
      have haccepts := Except.ok.inj h
      simp only [DilithiumSigner.digestVerify, Bool.and_eq_true] at haccepts
      obtain ⟨⟨-, hinit⟩, haccepts⟩ := haccepts
      exact ⟨htype, by rw [DilithiumSigner.digestVerify, hinit, haccepts]; rfl⟩
    · rw [if_neg htype] at h
      cases h
  · rw [if_neg hbio] at h
    cases h

end Own

/-- The text of a field as the server reads it. -/
abbrev fieldText (s : List Char) : Bytes := Page.utf8Encode (Page.crlf (Page.trim s))

/-- The listener finds in the server's answer what there is to say. -/
theorem answer_judged {P : App} (B : Browser) (fileName pdf : Bytes)
    (signature publicKey : List Char)
    (hL : P.lib.PemExports fun key => P.lib.pemReadPubkey (fieldText publicKey) = some key ∨
      P.signer.publicPart = some key) : ∃ ok data,
    apiAnswer (P.verifyExternal (Page.verifyRequest fileName pdf signature publicKey)) =
      some (ok, data) ∧
    verdict B ok data = judged P pdf (fieldText signature) (fieldText publicKey) := by
  rw [App.verifyExternal_under]
  have hrefused : ∀ (message : String) (status : Nat), 300 ≤ status →
      P.verifyExternalUnder .ok .ok (Page.verifyRequest fileName pdf signature publicKey) =
        errorResponse message status →
      judged P pdf (fieldText signature) (fieldText publicKey) = .error → ∃ ok data,
        apiAnswer (P.verifyExternalUnder .ok .ok
          (Page.verifyRequest fileName pdf signature publicKey)) = some (ok, data) ∧
        verdict B ok data = judged P pdf (fieldText signature) (fieldText publicKey) := by
    intro message status hstatus hanswer hjudged
    obtain ⟨data, hdata, hverdict⟩ := verdict_errorResponse B message hstatus
    exact ⟨false, data, by rw [hanswer, hdata], by rw [hverdict, hjudged]⟩
  by_cases hpdf : pdf = []
  · subst hpdf
    exact hrefused "Missing pdf field" 400 (by decide) rfl (if_pos (Or.inl rfl))
  have hsub := submission_page hpdf fileName signature publicKey
  by_cases hdecoded : base64Decode P.lib (fieldText signature) = []
  · refine hrefused "Invalid base64 signature" 400 (by decide) ?_ (if_pos (Or.inr hdecoded))
    simp only [App.verifyExternalUnder, hsub, if_pos hdecoded]
  have hread : judged P pdf (fieldText signature) (fieldText publicKey) = _ :=
    if_neg (not_or.mpr ⟨hpdf, hdecoded⟩)
  cases hpem : P.lib.pemReadPubkey (fieldText publicKey) with
  | none =>
      refine hrefused "Invalid PEM public key" 400 (by decide) ?_ (by rw [hread, hpem])
      have hfails : DilithiumSigner.verifyWithPEM P.lib .ok pdf
          (base64Decode P.lib (fieldText signature)) (fieldText publicKey) =
            .error (.invalidArgument "Invalid PEM public key") := by
        rw [DilithiumSigner.verifyWithPEM,
          if_pos (show DilithiumSigner.Allocs.ok.bio = true from rfl), hpem]
      simp only [App.verifyExternalUnder, hsub, if_neg hdecoded, hfails]
  | some key =>
      have hwith := DilithiumSigner.verifyWithPEM_eq hpem pdf
        (base64Decode P.lib (fieldText signature))
      rw [hpem] at hread
      by_cases htype : DilithiumSigner.isMlDsa65 P.lib key = true
      · rw [if_pos htype] at hwith
        dsimp only at hread
        rw [if_pos htype] at hread
        have hanswer : P.verifyExternalUnder .ok .ok _ = _ :=
          verifyExternalUnder_eq hsub hdecoded hwith
        obtain ⟨hdata, hverdict⟩ := verdict_externalResponse B
          (DilithiumSigner.digestVerify P.lib .ok key (base64Decode P.lib (fieldText signature))
            pdf) (P.signer.isOwnPublicKey P.lib .ok (fieldText publicKey))
        refine ⟨true, _, by rw [hanswer, hdata], ?_⟩
        rw [hverdict, hread]
        by_cases haccepts : DilithiumSigner.digestVerify P.lib .ok key
            (base64Decode P.lib (fieldText signature)) pdf = true
        · by_cases hown : P.signer.publicPart = some key
          · rw [(own_iff hL hpem).mpr hown, haccepts]
            simp [hown]
          · have hother := Bool.eq_false_iff.mpr fun h => hown ((own_iff hL hpem).mp h)
            rw [hother, haccepts]
            simp [hown]
        · rw [Bool.not_eq_true] at haccepts
          simp [haccepts]
      · rw [if_neg htype] at hwith
        dsimp only at hread
        rw [if_neg htype] at hread
        refine hrefused "Public key must be ML-DSA-65" 400 (by decide) ?_ hread
        simp only [App.verifyExternalUnder, hsub, if_neg hdecoded, hwith]

/-- Whatever fails in the server, it is not taken for valid what is not, unless both writers fail
on two different keys. -/
theorem judged_of_valid {P : App} {B : Browser} {o : DilithiumSigner.Allocs}
    {own : DilithiumSigner.OwnKeyOutcome} {fileName pdf : Bytes} {signature publicKey : List Char}
    (hL : P.lib.PemExports fun key => P.lib.pemReadPubkey (fieldText publicKey) = some key ∨
      P.signer.publicPart = some key)
    (hwritten : ¬ NeitherWritten P.lib P.signer own (fieldText publicKey)) {ok : Bool} {data : Json}
    (hanswer : apiAnswer (P.verifyExternalUnder o own
      (Page.verifyRequest fileName pdf signature publicKey)) = some (ok, data))
    (hvalid : verdict B ok data = .valid) :
    judged P pdf (fieldText signature) (fieldText publicKey) = .valid := by
  -- an error is not taken for anything else
  have hrefused : ∀ (message : String) (status : Nat), 300 ≤ status →
      P.verifyExternalUnder o own (Page.verifyRequest fileName pdf signature publicKey) ≠
        errorResponse message status := by
    intro message status hstatus heq
    obtain ⟨data', hdata, hverdict⟩ := verdict_errorResponse B message hstatus
    rw [heq, hdata] at hanswer
    obtain ⟨rfl, rfl⟩ := Prod.mk.inj (Option.some.inj hanswer)
    rw [hverdict] at hvalid
    cases hvalid
  by_cases hpdf : pdf = []
  · subst hpdf
    exact absurd rfl (hrefused "Missing pdf field" 400 (by decide))
  have hsub := submission_page hpdf fileName signature publicKey
  by_cases hdecoded : base64Decode P.lib (fieldText signature) = []
  · refine absurd ?_ (hrefused "Invalid base64 signature" 400 (by decide))
    simp only [App.verifyExternalUnder, hsub, if_pos hdecoded]
  cases hwith : DilithiumSigner.verifyWithPEM P.lib o pdf
      (base64Decode P.lib (fieldText signature)) (fieldText publicKey) with
  | error e =>
      cases e with
      | invalidArgument what =>
          refine absurd ?_ (hrefused what 400 (by decide))
          simp only [App.verifyExternalUnder, hsub, if_neg hdecoded, hwith]
      | _ =>
          refine absurd ?_ (hrefused "Verification error" 500 (by decide))
          simp only [App.verifyExternalUnder, hsub, if_neg hdecoded, hwith]
  | ok valid =>
      have hext : P.verifyExternalUnder o own _ = _ :=
        verifyExternalUnder_eq hsub hdecoded hwith
      obtain ⟨hdata, hverdict⟩ := verdict_externalResponse B valid
        (P.signer.isOwnPublicKey P.lib own (fieldText publicKey))
      rw [hext, hdata] at hanswer
      obtain ⟨rfl, rfl⟩ := Prod.mk.inj (Option.some.inj hanswer)
      rw [hverdict] at hvalid
      have hboth : valid = true ∧
          P.signer.isOwnPublicKey P.lib own (fieldText publicKey) = true := by
        rw [← Bool.and_eq_true]
        by_contra hnot
        rw [if_neg hnot] at hvalid
        split at hvalid <;> cases hvalid
      obtain ⟨rfl, hown⟩ := hboth
      obtain ⟨key, hpem, hpublic⟩ := publicPart_of_own hL hwritten hown
      obtain ⟨htype, haccepts⟩ := accepts_of_verifyWithPEM hpem hwith
      rw [judged, if_neg (not_or.mpr ⟨hpdf, hdecoded⟩), hpem]
      dsimp only
      rw [if_pos htype, if_pos haccepts, if_pos hpublic]

/-- What was trimmed is not trimmed any further. -/
theorem trim_trim (s : List Char) : Page.trim (Page.trim s) = Page.trim s := by
  unfold Page.trim
  have hkeep : ((s.dropWhile Page.isSpace).rdropWhile Page.isSpace).dropWhile Page.isSpace =
      (s.dropWhile Page.isSpace).rdropWhile Page.isSpace := by
    have hhead := List.dropWhile_eq_self_iff.mp (List.dropWhile_idempotent Page.isSpace s)
    rw [List.dropWhile_eq_self_iff]
    intro hlength
    have hfirst := List.rdropWhile_prefix Page.isSpace (s.dropWhile Page.isSpace)
    rw [hfirst.getElem]
    exact hhead (lt_of_lt_of_le hlength hfirst.length_le)
  rw [hkeep, List.rdropWhile_idempotent]

theorem fieldText_trim (s : List Char) : fieldText (Page.trim s) = fieldText s := by
  rw [fieldText, trim_trim]

/-- A text of bytes that are characters of their own. -/
def latin (s : Bytes) : List Char := s.map fun b => Char.ofNat b.toNat

/-- Printable ASCII without blanks is sent as it is. -/
theorem fieldText_latin {s : Bytes} (h : ∀ b ∈ s, 32 < b ∧ b < 127) : fieldText (latin s) = s := by
  have hchar : ∀ b : UInt8, 32 < b ∧ b < 127 → Page.isSpace (Char.ofNat b.toNat) = false ∧
      Char.ofNat b.toNat ≠ '\r' ∧ Char.ofNat b.toNat ≠ '\n' ∧
      String.utf8EncodeChar (Char.ofNat b.toNat) = [b] := by
    have hall : ∀ n < 256, 32 < UInt8.ofNat n ∧ UInt8.ofNat n < 127 →
        Page.isSpace (Char.ofNat (UInt8.ofNat n).toNat) = false ∧
        Char.ofNat (UInt8.ofNat n).toNat ≠ '\r' ∧ Char.ofNat (UInt8.ofNat n).toNat ≠ '\n' ∧
        String.utf8EncodeChar (Char.ofNat (UInt8.ofNat n).toNat) = [UInt8.ofNat n] := by
      decide +kernel
    intro b hb
    have hb' := hall b.toNat b.toNat_lt
    rw [UInt8.ofNat_toNat] at hb'
    exact hb' hb
  have hmem : ∀ c ∈ latin s, Page.isSpace c = false ∧ c ≠ '\r' ∧ c ≠ '\n' := by
    intro c hc
    obtain ⟨b, hb, rfl⟩ := List.mem_map.mp hc
    obtain ⟨hspace, hcr, hlf, -⟩ := hchar b (h b hb)
    exact ⟨hspace, hcr, hlf⟩
  have htrim : Page.trim (latin s) = latin s := by
    have hdrop : (latin s).dropWhile Page.isSpace = latin s := by
      rw [List.dropWhile_eq_self_iff]
      intro hlength
      rw [(hmem _ (List.getElem_mem hlength)).1]
      exact Bool.false_ne_true
    rw [Page.trim, hdrop, List.rdropWhile_eq_self_iff]
    intro hne
    rw [(hmem _ (List.getLast_mem hne)).1]
    exact Bool.false_ne_true
  rw [fieldText, htrim, Page.crlf_eq_self (fun hc => (hmem _ hc).2.1 rfl)
    (fun hc => (hmem _ hc).2.2 rfl), Page.utf8Encode, latin, List.flatMap_map]
  have hone : s.flatMap (fun b => String.utf8EncodeChar (Char.ofNat b.toNat)) =
      s.flatMap fun b => [b] := by
    rw [List.flatMap_def, List.flatMap_def,
      List.map_congr_left fun b hb => (hchar b (h b hb)).2.2.2]
  rw [hone, List.flatMap_singleton']

/-- So is base64. -/
theorem fieldText_encode (s : Bytes) : fieldText (latin (Base64.encode s)) = Base64.encode s := by
  have hsymbol : ∀ n < 64, 32 < Base64.symbol n ∧ Base64.symbol n < 127 := by decide
  refine fieldText_latin fun b hb => ?_
  rcases (Base64.encode_wellFormed s).alphabet hb with rfl | ⟨n, hn, rfl⟩
  · decide
  · exact hsymbol n hn

theorem trim_encode {s : Bytes} (hs : s ≠ []) : Page.trim (latin (Base64.encode s)) ≠ [] := by
  intro hnil
  have htext := fieldText_encode s
  rw [fieldText, hnil] at htext
  have hlength := Base64.length_encode_eq s
  rw [← htext] at hlength
  have hpos := List.length_pos_of_ne_nil hs
  have hzero : (Page.utf8Encode (Page.crlf [])).length = 0 := rfl
  omega

/-- **The verification page says what is so.**  Whatever document and whatever texts are
submitted: when nothing fails, the page says "Signature Valid" exactly of a signature for the
document under the server's own key, and of everything else it says what is the matter; and
whatever fails, it says "Signature Valid" of nothing else, unless both writers fail on two
different keys. -/
theorem says_judged {P : App} {B : Browser} (hrefs : Resolves B.refs entities)
    (fileName pdf : Bytes) {signature publicKey : List Char}
    (hsignature : Page.trim signature ≠ []) (hkey : Page.trim publicKey ≠ [])
    (hL : P.lib.PemExports fun key => P.lib.pemReadPubkey (fieldText publicKey) = some key ∨
      P.signer.publicPart = some key) :
    (∀ v, (∃ line, (submit B P.verifyExternal (some (fileName, pdf)) signature publicKey).Says B
      v line) ↔ v = judged P pdf (fieldText signature) (fieldText publicKey)) ∧
    ∀ o own, ¬ NeitherWritten P.lib P.signer own (fieldText publicKey) →
      (∃ line, (submit B (P.verifyExternalUnder o own) (some (fileName, pdf)) signature
        publicKey).Says B .valid line) →
      judged P pdf (fieldText signature) (fieldText publicKey) = .valid := by
  refine ⟨fun v => ?_, fun o own hwritten => ?_⟩
  · obtain ⟨ok, data, hanswer, hverdict⟩ := answer_judged B fileName pdf
      (Page.trim signature) (Page.trim publicKey) (by rw [fieldText_trim]; exact hL)
    have htold := submit_verdict hrefs fileName pdf hsignature hkey hanswer
    rw [hverdict, fieldText_trim, fieldText_trim] at htold
    constructor
    · rintro ⟨line, hv⟩
      exact (hv.unique htold).1
    · rintro rfl
      exact ⟨_, htold⟩
  · rintro ⟨line, hv⟩
    cases hanswer : apiAnswer (P.verifyExternalUnder o own (Page.verifyRequest fileName pdf
        (Page.trim signature) (Page.trim publicKey))) with
    | none =>
        obtain ⟨html, hshows, -⟩ := hv
        simp only [submit, if_neg hsignature, if_neg hkey, hanswer] at hshows
        cases hshows
    | some answer =>
        obtain ⟨ok, data⟩ := answer
        have htold := submit_verdict hrefs fileName pdf hsignature hkey hanswer
        have hjudged := judged_of_valid (by rw [fieldText_trim]; exact hL)
          (by rw [fieldText_trim]; exact hwritten) hanswer (hv.unique htold).1.symm
        rwa [fieldText_trim, fieldText_trim] at hjudged

end Verify

/-! ### A key with its line breaks -/

namespace Sample

/-- The stand-in with a reader of PEM that takes lines with either ending. -/
def pageLib : Lib := { lib with pemReadPubkey := fun s => lib.pemReadPubkey (s.filter (· ≠ 13)) }

def pageAuth : AuthManager := ⟨pageLib, auth.secretKey⟩

/-- A key whose text is short. -/
def shortKey : PKey := ⟨⟨"ML-DSA-65", [8]⟩, some [9]⟩

/-- The server with both. -/
def pageApp : App := ⟨pageAuth, (DilithiumSigner.fresh.loadPrivateKey (.key shortKey true)).2⟩

theorem shortKey_members : pageApp.signer.signingKey = some shortKey ∧
    pageApp.signer.publicPart = some shortKey.pub :=
  DilithiumSigner.members_of_alloc [] shortKey

theorem signs_page : pageApp.lib.Signs shortKey :=
  ⟨(signs shortKey).accepts, (signs shortKey).encodes⟩

theorem base64Ok_page (s : Bytes) : pageApp.lib.Base64Ok s :=
  ⟨(base64Ok s).write, (base64Ok s).read⟩

/-- The PEM text of the key, as it stands in the form. -/
def keyText : List Char := Verify.latin (lib.pemWritePubkey shortKey.pub)

theorem trim_keyText : Page.trim keyText ≠ [] := by
  decide +kernel

theorem pemReadPubkey_keyText :
    pageApp.lib.pemReadPubkey (Verify.fieldText keyText) = some shortKey.pub := by
  decide +kernel

theorem isMlDsa65_page : DilithiumSigner.isMlDsa65 pageApp.lib shortKey.pub = true := by
  have htype : lib.isA shortKey.pub "ML-DSA-65" = true := by decide
  exact Bool.or_eq_true_iff.mpr (Or.inr htype)

end Sample

/-- A signature of the server's, under its own key. -/
theorem says_judged_own : ∃ line, (Verify.submit Sample.browser Sample.pageApp.verifyExternal
    (some (ascii "document.pdf", Sample.pdf))
    (Verify.latin (Base64.encode (Sample.signature Sample.shortKey.pub Sample.pdf)))
    Sample.keyText).Says Sample.browser .valid line := by
  have hrefs : Resolves Sample.browser.refs Verify.entities :=
    resolves_decode reversible_dashboard
  have hpublic := Sample.shortKey_members.2
  obtain ⟨hinit, hverify⟩ := Sample.signs_page.accepts [] Sample.pdf _ rfl
  obtain ⟨hne, hread⟩ := Sample.signs_page.encodes [] Sample.pdf _ rfl
  have hexports : Sample.lib.PemExports fun key =>
      Sample.pageApp.lib.pemReadPubkey (Verify.fieldText Sample.keyText) = some key ∨
        Sample.pageApp.signer.publicPart = some key := by
    refine Sample.pemExports fun key hkey => ?_
    have hown : some key = some Sample.shortKey.pub := by
      rcases hkey with hread | hown
      · exact hread.symm.trans Sample.pemReadPubkey_keyText
      · exact hown.symm.trans hpublic
    rw [Option.some.inj hown]
    rfl
  refine ((Verify.says_judged hrefs (ascii "document.pdf") Sample.pdf (Verify.trim_encode hne)
    Sample.trim_keyText ⟨hexports.nonempty, hexports.injective⟩).1 .valid).mpr ?_
  have haccepts : DilithiumSigner.digestVerify Sample.pageApp.lib .ok Sample.shortKey.pub
      (Sample.signature Sample.shortKey.pub Sample.pdf) Sample.pdf = true := by
    rw [DilithiumSigner.digestVerify, hinit, hverify]
    rfl
  have hdecode : base64Decode Sample.pageApp.lib (Verify.fieldText
      (Verify.latin (Base64.encode (Sample.signature Sample.shortKey.pub Sample.pdf)))) =
        Sample.signature Sample.shortKey.pub Sample.pdf := by
    rw [Verify.fieldText_encode]
    exact hread
  rw [Verify.judged, hdecode, if_neg (not_or.mpr ⟨by decide, hne⟩), Sample.pemReadPubkey_keyText]
  dsimp only
  rw [if_pos Sample.isMlDsa65_page, if_pos haccepts, if_pos hpublic]

namespace Site

open Verify

variable {τ : Type} [Field τ] [LinearOrder τ] [FloorRing τ] {S : Site} {th : Thread (site τ S)}
  {ok : Config (site τ S) → Step (site τ S) → Prop} {w : World τ}

/-- What an answered sign visit has signed, and with what. -/
theorem issued_of_visit {c : Config (site τ S)} (hrun : Reach ok (Config.fresh w) c) {i : Nat}
    (hi : c.threads[i]? = some th) {req : HttpRequest} (hreq : th.req = .sign req) {body : Body}
    (hret : th.rest = .ret ⟨201, body⟩) : ∃ file key r signature n, App.upload req = .ok file ∧
      S.app.signer.signingKey = some key ∧
      S.lib.digestSign key r file.content = some signature ∧
      body = .json (App.signedResponse n (App.storedName file) (sha256Hex S.lib file.content)
        (base64Encode S.lib signature)) := by
  obtain ⟨th₀, hth⟩ := thread_behind hrun hi
  have hreq₀ : th₀.req = .sign req :=
    (show th₀.req = S.back th.req from hth.req).trans (congrArg S.back hreq)
  have hret₀ := (agrees_respond hth (fun o => by rw [hreq]; rfl) _).mp hret
  rcases sign_path hth.path hreq₀ with ⟨-, hsilent⟩ | ⟨⟨l⟩⟩
  · exact absurd hret₀ (hsilent body)
  obtain ⟨n, -, hbody⟩ := l.body_eq hret₀
  obtain ⟨r, hr⟩ := l.signature_eq hth.path
  have hheader : l.header = req := Request.sign.inj (l.request.symm.trans hreq₀)
  exact ⟨l.file, l.key, r, l.signature, n, hheader ▸ l.uploaded, l.key_eq, hr, hbody⟩

/-- **What the server has signed its page calls valid.**  In every run of the site, whoever has
had a document signed and submits it with the signature of the answer, under any text of the
server's own key, is told "Signature Valid". -/
theorem issued_says_valid {c : Config (site τ S)} (hrun : Reach ok (Config.fresh w) c) {i : Nat}
    (hi : c.threads[i]? = some th) {req : HttpRequest} (hreq : th.req = .sign req) {j : Json}
    (hret : th.rest = .ret ⟨201, .json j⟩) {key : PKey}
    (hsigning : S.app.signer.signingKey = some key)
    (hverifying : S.app.signer.publicPart = some key.pub) (hsigns : S.lib.Signs key)
    (hbase : ∀ r data signature, S.lib.digestSign key r data = some signature →
      S.lib.Base64Ok signature)
    (htype : DilithiumSigner.isMlDsa65 S.lib key.pub = true) {B : Browser}
    (hrefs : Resolves B.refs Verify.entities) {publicKey : List Char}
    (hkey : Page.trim publicKey ≠ [])
    (hpem : S.lib.pemReadPubkey (fieldText publicKey) = some key.pub) (fileName : Bytes) :
    ∃ file signature line, App.upload req = .ok file ∧
      j.field "signature" = some (.str signature) ∧
      (submit B S.app.verifyExternal (some (fileName, file.content)) (latin signature)
        publicKey).Says B .valid line := by
  obtain ⟨file, key', r, signature, n, hup, hkey', hsigned, hbody⟩ :=
    issued_of_visit hrun hi hreq hret
  obtain rfl : key = key' := Option.some.inj (hsigning.symm.trans hkey')
  obtain ⟨hinit, hverify⟩ := hsigns.accepts r _ _ hsigned
  obtain ⟨hne, -⟩ := hsigns.encodes r _ _ hsigned
  have hfield : j.field "signature" = some (.str (base64Encode S.lib signature)) := by
    rw [Body.json.inj hbody, signedResponse_signature]
  have haccepts : DilithiumSigner.digestVerify S.lib .ok key.pub signature file.content = true := by
    rw [DilithiumSigner.digestVerify, hinit, hverify]
    rfl
  have hwrite : base64Encode S.lib signature = Base64.encode signature :=
    (hbase r _ _ hsigned).write
  have htext : fieldText (Page.trim (latin (base64Encode S.lib signature))) =
      Base64.encode signature := by
    rw [fieldText_trim, hwrite, fieldText_encode]
  have hdecode : base64Decode S.lib
      (fieldText (Page.trim (latin (base64Encode S.lib signature)))) = signature := by
    rw [htext]
    exact (hbase r _ _ hsigned).read
  have hpem' : S.lib.pemReadPubkey (fieldText (Page.trim publicKey)) = some key.pub := by
    rw [fieldText_trim]
    exact hpem
  have hsignature : Page.trim (latin (base64Encode S.lib signature)) ≠ [] := by
    rw [hwrite]
    exact trim_encode hne
  have hanswer := verifyExternal_page hverifying htype (upload_ne_nil hup) hne haccepts hdecode
    hpem' fileName
  obtain ⟨hdata, hverdict⟩ := verdict_externalResponse B true true
  have htold := submit_verdict hrefs fileName file.content hsignature hkey
    ((congrArg apiAnswer hanswer).trans hdata)
  rw [hverdict] at htold
  exact ⟨file, _, _, hup, hfield, htold⟩

end Site

namespace Sample

/-- The controllers with that signer. -/
def pageSite : Site := { controllers with app := pageApp }

theorem codec_page (id : Int) (b : Bytes) (now : ℚ) :
    pageAuth.CodecAt (toDecimal id) (hex b) now where
  header := base64Ok_page _
  payload := base64Ok_page _
  digest := base64Ok_page _
  json := (codec id b now).json

/-- The token of a login of the first account. -/
def pageToken : Bytes := pageAuth.issuedToken user draw (0 : ℚ)

theorem payload_pageToken : pageAuth.payload pageToken =
    some (AuthManager.payloadAt (toDecimal user.id) (hex draw) (0 : ℚ)) :=
  (codec_page user.id draw 0).payload_eq

/-- With it the document is uploaded. -/
def signRequest : HttpRequest :=
  ⟨ascii "Bearer " ++ pageToken, some ⟨[⟨ascii "pdf", ascii "a.pdf", pdf⟩], []⟩⟩

theorem upload_signRequest : App.upload signRequest = .ok ⟨ascii "pdf", ascii "a.pdf", pdf⟩ := by
  have hpdf : pdf ≠ [] ∧ looksLikePdf pdf = true := by decide
  simp only [App.upload, signRequest, if_neg hpdf.1, if_pos hpdf.2]

theorem base64Encode_page (s : Bytes) : base64Encode pageApp.lib s = base64Encode lib s := by
  simp only [base64Encode, App.lib, pageApp, pageAuth, pageLib]

theorem sha256Hex_page (m : Bytes) : sha256Hex pageApp.lib m = sha256Hex lib m := by
  simp only [sha256Hex, App.lib, pageApp, pageAuth, pageLib]

/-- The store takes the document under any signature. -/
theorem stored_signed (sig : Bytes) : ∃ docs, (sessionWith .empty).withDocument user.id
    (ascii "a.pdf") (base64Encode pageApp.lib pdf) (base64Encode pageApp.lib sig)
      (sha256Hex pageApp.lib pdf) = some (sessionWith docs) := by
  have hname : (pgText (ascii "a.pdf")).bind (varchar 255) = some (ascii "a.pdf") := by decide
  have htext : ∀ s, pgText (base64Encode lib s) = some (base64Encode lib s) := fun s =>
    pgText_of_ascii fun _ hb => Base64.encode_ascii hb
  obtain ⟨docs, hinsert⟩ : ∃ docs, DocsTable.empty.insert user.id (ascii "a.pdf")
      (base64Encode lib pdf) (base64Encode lib sig) (sha256Hex lib pdf)
        (sessionWith .empty).nowUs = some docs := by
    unfold DocsTable.insert
    rw [dif_pos (by decide)]
    exact ⟨_, rfl⟩
  rw [base64Encode_page, base64Encode_page, sha256Hex_page]
  exact ⟨docs, withDocument_eq hname (htext _) (htext _) (storesDocuments.sha_stored pdf)
    (by decide) hinsert⟩

/-- What is answered can be written. -/
theorem dumpable_signed (n : Int) (sig : Bytes) : (App.signedResponse n
    (App.storedName ⟨ascii "pdf", ascii "a.pdf", pdf⟩) (sha256Hex pageApp.lib pdf)
      (base64Encode pageApp.lib sig)).dumpable = true := by
  have hsig : utf8 (base64Encode lib sig) = true :=
    utf8_of_ascii fun b hb => (Base64.encode_ascii hb).2
  have hsha : utf8 (sha256Hex lib pdf) = true := utf8_hex _
  have hname : utf8 (App.storedName ⟨ascii "pdf", ascii "a.pdf", pdf⟩) = true := by decide
  rw [signedResponse_dumpable, base64Encode_page, sha256Hex_page, hname, hsha, hsig]
  rfl

/-- The first account has the document signed. -/
theorem reach_signed : ∃ (c : Config (site ℚ pageSite)) (th : Thread (site ℚ pageSite)) (j : Json),
    Reach (fun _ _ => True) (Config.fresh (sessionWith .empty)) c ∧ c.threads[0]? = some th ∧
      th.req = .sign signRequest ∧ th.rest = .ret ⟨201, .json j⟩ := by
  obtain ⟨sig, hsign⟩ : ∃ sig, pageApp.lib.digestSign shortKey [] pdf = some sig := ⟨_, rfl⟩
  obtain ⟨docs, hins⟩ := stored_signed sig
  have hbody := path_stored (P := pageApp) (w := sessionWith .empty) upload_signRequest
    shortKey_members.1 hsign user_id hins
  rw [jsonResponse_eq (dumpable_signed _ sig)] at hbody
  have hvisit := path_letIn (P := pageApp) (w := sessionWith .empty) (r := .sign signRequest) rfl
    (bearerToken_bearer pageToken) payload_pageToken readPayload_token (live_sessionWith _) hbody
  exact ⟨_, _, _, Site.reach_respond (S := pageSite) (v := .sign signRequest) hvisit (fun _ => rfl)
    ⟨rfl, rfl, rfl, rfl, rfl⟩ Allows.always, rfl, rfl, rfl⟩

end Sample

/-- **The first account verifies what it had signed.** -/
theorem issued_says_valid_first : ∃ file signature line,
    App.upload Sample.signRequest = .ok file ∧
    (Verify.submit Sample.browser Sample.pageApp.verifyExternal
      (some (ascii "a.pdf", file.content)) (Verify.latin signature) Sample.keyText).Says
        Sample.browser .valid line := by
  obtain ⟨c, th, j, hrun, hi, hreq, hret⟩ := Sample.reach_signed
  have hrefs : Resolves Sample.browser.refs Verify.entities :=
    resolves_decode reversible_dashboard
  obtain ⟨file, signature, line, hup, -, htold⟩ := Site.issued_says_valid hrun hi hreq hret
    Sample.shortKey_members.1 Sample.shortKey_members.2 Sample.signs_page
    (fun _ _ _ _ => Sample.base64Ok_page _)
    Sample.isMlDsa65_page hrefs Sample.trim_keyText Sample.pemReadPubkey_keyText (ascii "a.pdf")
  exact ⟨file, signature, line, hup, htold⟩

end PqcApi
