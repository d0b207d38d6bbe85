/-
The two clients of the public verification endpoint.

The benchmark harness and the web page each build a multipart request, and `verifyExternal`
reads it.  Drogon hands parts with a file name to `getFiles()` and the others to
`getParameters()`.  The page puts every field where the server looks for it; the harness names
the document `file` and sends all three fields as files, so the server never sees one, and the
benchmark counts the refusals as successes.
-/
import Mathlib.Data.List.DropRight
import PqcApi.Documents.External

namespace PqcApi

open Concurrent

/-! ### Multipart bodies -/

/-- One part: its field name, its file name if it carries one, and its content. -/
structure Part where
  name : Bytes
  fileName : Option Bytes
  content : Bytes

/-- What Drogon's `MultiPartParser` makes of the parts. -/
def MultiPart.parse (parts : List Part) : MultiPart where
  files := parts.filterMap fun p => p.fileName.map fun f => ⟨p.name, f, p.content⟩
  parameters := (parts.filter fun p => p.fileName.isNone).map fun p => (p.name, p.content)

/-! ### The benchmark harness -/

namespace Harness

/-- `multipart.Writer.CreateFormFile`, and what is written into the part. -/
def createFormFile (name fileName : String) (data : Bytes) : Part :=
  ⟨ascii name, some (ascii fileName), data⟩

/-- The request `verifyPDF` sends, with the header `do` sets for a client that is logged in. -/
def verifyRequest (authorization pdfBytes signatureB64 pubKeyPEM : Bytes) : HttpRequest :=
  ⟨authorization, some (.parse
    [createFormFile "file" "document.pdf" pdfBytes,
      createFormFile "signature" "signature.txt" signatureB64,
      createFormFile "public_key" "pubkey.pem" pubKeyPEM])⟩

/-- How one request went: how long it took, and the error of `http.Client.Do`. -/
structure Delivery where
  elapsed : Int
  err : Option String

/-- What `json.NewDecoder` finds under a key of the body. -/
def bodyField (resp : HttpResponse) (key : String) : Option Json :=
  match resp.body with
  | .json j => j.field key
  | .file .. => none

/-- `result[key].(string)`, empty when it is no string. -/
def stringField (resp : HttpResponse) (key : String) : Bytes :=
  match bodyField resp key with
  | some (.str s) => s
  | _ => []

/-- `result["status"] == "VALID" || result["valid"] == true`. -/
def isValid (resp : HttpResponse) : Bool :=
  stringField resp "status" = ascii "VALID" ||
    match bodyField resp "valid" with
    | some (.bool b) => b
    | _ => false

/-- What `verifyPDF` returns. -/
structure Verified where
  valid : Bool
  elapsed : Int
  err : Option String

/-- `verifyPDF`, which looks at the body only. -/
def verifyPDF (P : App) (authorization : Bytes) (d : Delivery)
    (pdfBytes signatureB64 pubKeyPEM : Bytes) : Verified :=
  match d.err with
  | some err => ⟨false, d.elapsed, some err⟩
  | none =>
      let resp := P.verifyExternal (verifyRequest authorization pdfBytes signatureB64 pubKeyPEM)
      ⟨isValid resp, d.elapsed, none⟩

/-- `Result`: the times of what succeeded, how many failed, and for a handshake the bytes of
one. -/
structure Result where
  name : String
  samples : List Int
  failures : Nat
  handshakeBytesSent : Int
  handshakeBytesRecv : Int
  deriving DecidableEq

/-- `&Result{Name: name}`. -/
def Result.named (name : String) : Result :=
  ⟨name, [], 0, 0, 0⟩

/-- `Result.Record`. -/
def Result.record (r : Result) (d : Int) (err : Option String) : Result :=
  match err with
  | some _ => { r with failures := r.failures + 1 }
  | none => { r with samples := r.samples ++ [d] }

/-- `getPublicKeyPEM`, of what `do` returned. -/
def getPublicKeyPEM (published : Except String HttpResponse) : Except String Bytes :=
  match published with
  | .error err => .error err
  | .ok resp =>
      let pem := stringField resp "public_key_pem"
      if pem = [] then .error "no public_key_pem in response" else .ok pem

/-- How the requests of a benchmark went: the one that signs, the one for the public key, and
one for each iteration. -/
structure Trips where
  signed : Except String HttpResponse
  published : Except String HttpResponse
  iterations : List Delivery

/-- `benchmarkVerify`. -/
def benchmarkVerify (P : App) (authorization : Bytes) (t : Trips) (pdfBytes : Bytes) : Result :=
  let result := Result.named "POST /api/documents/verify (ML-DSA)"
  match t.signed with
  | .error _ => { result with failures := t.iterations.length }
  | .ok resp =>
      let signatureB64 := stringField resp "signature"
      if signatureB64 = [] then { result with failures := t.iterations.length }
      else
        match getPublicKeyPEM t.published with
        | .error _ => { result with failures := t.iterations.length }
        | .ok pubKeyPEM =>
            t.iterations.foldl (fun result d =>
              let v := verifyPDF P authorization d pdfBytes signatureB64 pubKeyPEM
              result.record v.elapsed v.err) result

/-- The benchmark comes to its loop with this signature and this public key. -/
structure Trips.Obtain (t : Trips) (signatureB64 pubKeyPEM : Bytes) : Prop where
  signed : ∃ resp, t.signed = .ok resp ∧ stringField resp "signature" = signatureB64
  nonempty : signatureB64 ≠ []
  published : getPublicKeyPEM t.published = .ok pubKeyPEM

end Harness

/-! ### The web page -/

namespace Page

/-- `WhiteSpace` and `LineTerminator` of ECMAScript. -/
def isSpace (c : Char) : Bool :=
  (9 ≤ c.val && c.val ≤ 13) || c.val == 0x20 || c.val == 0xA0 || c.val == 0x1680 ||
    (0x2000 ≤ c.val && c.val ≤ 0x200A) || c.val == 0x2028 || c.val == 0x2029 ||
    c.val == 0x202F || c.val == 0x205F || c.val == 0x3000 || c.val == 0xFEFF

/-- `String.prototype.trim`. -/
def trim (s : List Char) : List Char := (s.dropWhile isSpace).rdropWhile isSpace

/-- A form encodes every line break of a string value as CR LF. -/
def crlf : List Char → List Char
  | [] => []
  | '\r' :: '\n' :: rest => '\r' :: '\n' :: crlf rest
  | '\r' :: rest => '\r' :: '\n' :: crlf rest
  | '\n' :: rest => '\r' :: '\n' :: crlf rest
  | c :: rest => c :: crlf rest

/-- The UTF-8 bytes of a text. -/
def utf8Encode (s : List Char) : Bytes := s.flatMap String.utf8EncodeChar

/-- `FormData.append` of a file. -/
def appendFile (name : String) (fileName content : Bytes) : Part :=
  ⟨ascii name, some fileName, content⟩

/-- `FormData.append` of a string. -/
def appendText (name : String) (value : List Char) : Part :=
  ⟨ascii name, none, utf8Encode (crlf value)⟩

/-- The request `Api.verifyExternal` sends. -/
def verifyRequest (fileName file : Bytes) (signature publicKey : List Char) : HttpRequest :=
  ⟨[], some (.parse
    [appendFile "pdf" fileName file,
      appendText "signature" (trim signature),
      appendText "public_key" (trim publicKey)])⟩

end Page

/-! ### What the server reads -/

/-- The server finds no `pdf` among what the harness sends. -/
theorem submission_harness (authorization pdf signature publicKey : Bytes) :
    App.submission (Harness.verifyRequest authorization pdf signature publicKey) =
      .error (errorResponse "Missing pdf field" 400) := rfl

/-- What the page sends is read as it was trimmed, its line breaks as CR LF. -/
theorem submits_page (fileName pdf : Bytes) (signature publicKey : List Char) :
    Submits (Page.verifyRequest fileName pdf signature publicKey) pdf
      (Page.utf8Encode (Page.crlf (Page.trim signature)))
      (Page.utf8Encode (Page.crlf (Page.trim publicKey))) :=
  ⟨_, rfl, rfl, rfl, rfl⟩

theorem submission_page {pdf : Bytes} (hpdf : pdf ≠ []) (fileName : Bytes)
    (signature publicKey : List Char) :
    App.submission (Page.verifyRequest fileName pdf signature publicKey) =
      .ok ⟨pdf, Page.utf8Encode (Page.crlf (Page.trim signature)),
        Page.utf8Encode (Page.crlf (Page.trim publicKey))⟩ := by
  obtain ⟨b, rest, rfl⟩ := List.exists_cons_of_ne_nil hpdf
  rfl

/-- A text without line breaks is encoded as it is. -/
theorem Page.crlf_eq_self : ∀ {s : List Char}, '\r' ∉ s → '\n' ∉ s → Page.crlf s = s := by
  intro s
  induction s with
  | nil => intro _ _; rfl
  | cons c rest ih =>
      intro hcr hlf
      have hc : c ≠ '\r' := fun h => hcr (by simp [h])
      have hc' : c ≠ '\n' := fun h => hlf (by simp [h])
      have hrest := ih (fun h => hcr (List.mem_cons_of_mem c h))
        (fun h => hlf (List.mem_cons_of_mem c h))
      rw [Page.crlf]
      · rw [hrest]
      · intro r h
        exact absurd h hc
      · exact hc
      · exact hc'

/-- The server sees in the page's request whatever base64 and the PEM reader make of its two
texts. -/
theorem verifyExternal_page {P : App} {pdf signature : Bytes} {key : PubKey}
    (hpublic : P.signer.publicPart = some key)
    (htype : DilithiumSigner.isMlDsa65 P.lib key = true) (hpdf : pdf ≠ []) (hne : signature ≠ [])
    (haccepts : DilithiumSigner.digestVerify P.lib .ok key signature pdf = true)
    {signatureText publicKey : List Char}
    (hsignature : base64Decode P.lib (Page.utf8Encode (Page.crlf (Page.trim signatureText))) =
      signature)
    (hpem : P.lib.pemReadPubkey (Page.utf8Encode (Page.crlf (Page.trim publicKey))) = some key)
    (fileName : Bytes) :
    P.verifyExternal (Page.verifyRequest fileName pdf signatureText publicKey) =
      ⟨200, .json (App.externalResponse true true)⟩ := by
  have hvalid : DilithiumSigner.verifyWithPEM P.lib .ok pdf signature
      (Page.utf8Encode (Page.crlf (Page.trim publicKey))) = .ok true := by
    rw [DilithiumSigner.verifyWithPEM_eq hpem, if_pos htype, haccepts]
  rw [verifyExternal_eq (submits_page fileName pdf signatureText publicKey) hpdf
    (by rw [hsignature]; exact hne) (by rw [hsignature]; exact hvalid),
    DilithiumSigner.isOwnPublicKey_of_publicPart hpublic hpem]

/-! ### What the harness makes of the answer -/

namespace Harness

theorem verifyExternal_harness (P : App) (authorization pdf signature publicKey : Bytes) :
    P.verifyExternal (verifyRequest authorization pdf signature publicKey) =
      errorResponse "Missing pdf field" 400 := by
  rw [App.verifyExternal_under, App.verifyExternalUnder, submission_harness]

/-- An error response says nothing about validity. -/
theorem isValid_errorResponse (message : String) (status : Nat) :
    isValid (errorResponse message status) = false := by
  have hmissing : ∀ key : String, ascii "error" ≠ ascii key →
      bodyField (errorResponse message status) key = some .null := by
    intro key hkey
    show Json.field (.obj [(ascii "error", .text message)]) key = some .null
    rw [Json.field, List.find?_cons_of_neg (by simpa using hkey), List.find?_nil]
  rw [isValid, stringField, hmissing "status" (by decide), hmissing "valid" (by decide)]
  rfl

theorem verifyPDF_valid (P : App) (authorization : Bytes) (d : Delivery)
    (pdf signature publicKey : Bytes) :
    (verifyPDF P authorization d pdf signature publicKey).valid = false := by
  unfold verifyPDF
  cases d.err with
  | some err => rfl
  | none =>
      dsimp only
      rw [verifyExternal_harness, isValid_errorResponse]

theorem verifyPDF_record (P : App) (authorization : Bytes) (d : Delivery)
    (pdf signature publicKey : Bytes) (result : Result) :
    let v := verifyPDF P authorization d pdf signature publicKey
    result.record v.elapsed v.err = result.record d.elapsed d.err := by
  unfold verifyPDF
  cases d.err <;> rfl

/-- A loop of `Record` keeps the times of what was delivered and counts the rest. -/
theorem record_foldl (iterations : List Delivery) : ∀ result : Result,
    iterations.foldl (fun r d => r.record d.elapsed d.err) result =
      { result with
        samples := result.samples ++
          (iterations.filter fun d => d.err.isNone).map Delivery.elapsed
        failures := result.failures + iterations.countP fun d => d.err.isSome } := by
  induction iterations with
  | nil => intro result; simp
  | cons d rest ih =>
      intro result
      rw [List.foldl_cons, ih]
      cases hd : d.err with
      | none => simp [Result.record, hd]
      | some err =>
          simp [Result.record, hd]
          omega

/-- In its loop the benchmark records whatever was delivered. -/
theorem benchmarkVerify_obtain {t : Trips} {signature publicKey : Bytes}
    (h : t.Obtain signature publicKey) (P : App) (authorization pdf : Bytes) :
    benchmarkVerify P authorization t pdf =
      { Result.named "POST /api/documents/verify (ML-DSA)" with
        samples := (t.iterations.filter fun d => d.err.isNone).map Delivery.elapsed
        failures := t.iterations.countP fun d => d.err.isSome } := by
  obtain ⟨resp, hsigned, rfl⟩ := h.signed
  simp only [benchmarkVerify, hsigned, if_neg h.nonempty, h.published, verifyPDF_record]
  rw [record_foldl, Result.named, List.nil_append, Nat.zero_add]

end Harness

/-! ### Clients and server -/

variable (τ : Type) [Field τ] [LinearOrder τ] [FloorRing τ]

/-- A sign request for this document was answered with this signature, and the public key is
the one the server exports. -/
structure Obtained (P : App) (pdf signature publicKey : Bytes) : Prop where
  signed : ∃ (header : HttpRequest) (file : FilePart) (log : List (ServerEvent τ P)) (j : Json),
    App.upload header = .ok file ∧ file.content = pdf ∧
      Path (P.program (.sign header)) log (.ret (.response ⟨201, .json j⟩)) ∧
      j.field "signature" = some (.str signature)
  exported : publicKey = P.signer.exportPublicKeyPEM P.lib true

/-- Both clients send what the server reads, what was obtained from the server is answered as
valid, and the benchmark times no more than the valid answers. -/
structure ClientsAgree (P : App) (authorization fileName pdf : Bytes)
    (signature publicKey : List Char) : Prop where
  harness : App.submission (Harness.verifyRequest authorization pdf (Page.utf8Encode signature)
      (Page.utf8Encode publicKey)) =
    .ok ⟨pdf, Page.utf8Encode signature, Page.utf8Encode publicKey⟩
  page : App.submission (Page.verifyRequest fileName pdf signature publicKey) =
    .ok ⟨pdf, Page.utf8Encode (Page.trim signature), Page.utf8Encode (Page.trim publicKey)⟩
  answered : Obtained τ P pdf (Page.utf8Encode signature) (Page.utf8Encode publicKey) →
    ∀ req ∈ [Harness.verifyRequest authorization pdf (Page.utf8Encode signature)
        (Page.utf8Encode publicKey), Page.verifyRequest fileName pdf signature publicKey],
      ∃ own, P.verifyExternal req = ⟨200, .json (App.externalResponse true own)⟩
  timed : ∀ t : Harness.Trips,
    t.Obtain (Page.utf8Encode signature) (Page.utf8Encode publicKey) →
    (Harness.benchmarkVerify P authorization t pdf).samples.length ≤
      t.iterations.countP fun d => (Harness.verifyPDF P authorization d pdf
        (Page.utf8Encode signature) (Page.utf8Encode publicKey)).valid

/-- **The harness and the server never agree.**  Whatever is to be verified, the harness is
told that a field is missing, calls that invalid without an error, and its benchmark records
every such answer as a success. -/
theorem clients_never_agree (P : App) (authorization fileName pdf : Bytes)
    (signature publicKey : List Char) :
    ¬ ClientsAgree τ P authorization fileName pdf signature publicKey ∧
    P.verifyExternal (Harness.verifyRequest authorization pdf (Page.utf8Encode signature)
      (Page.utf8Encode publicKey)) = errorResponse "Missing pdf field" 400 ∧
    ∀ t : Harness.Trips, t.Obtain (Page.utf8Encode signature) (Page.utf8Encode publicKey) →
      (Harness.benchmarkVerify P authorization t pdf).samples =
        (t.iterations.filter fun d => d.err.isNone).map Harness.Delivery.elapsed ∧
      ∀ d ∈ t.iterations, (Harness.verifyPDF P authorization d pdf (Page.utf8Encode signature)
        (Page.utf8Encode publicKey)).valid = false := by
  refine ⟨?_, Harness.verifyExternal_harness _ _ _ _ _, ?_⟩
  · intro h
    cases (submission_harness _ _ _ _).symm.trans h.harness
  · intro t ht
    refine ⟨congrArg Harness.Result.samples (Harness.benchmarkVerify_obtain ht P _ _), ?_⟩
    intro d _
    exact Harness.verifyPDF_valid _ _ _ _ _ _

/-- **A refusal is timed.**  The server refuses the one request of the loop, and the benchmark
has one sample and no failure. -/
theorem benchmark_times_refusal :
    let resp (key value : String) : HttpResponse := ⟨200, .json (.object [(key, .text value)])⟩
    let t : Harness.Trips := ⟨.ok (resp "signature" "c2ln"), .ok (resp "public_key_pem" "key"),
      [⟨1500, none⟩]⟩
    ¬ ClientsAgree ℚ Sample.app [] (ascii "document.pdf") Sample.pdf "c2ln".toList "key".toList ∧
    (Sample.app.verifyExternal
      (Harness.verifyRequest [] Sample.pdf (ascii "c2ln") (ascii "key"))).status = 400 ∧
    Harness.benchmarkVerify Sample.app [] t Sample.pdf =
      ⟨"POST /api/documents/verify (ML-DSA)", [1500], 0, 0, 0⟩ := by
  intro resp t
  refine ⟨?_, ?_, ?_⟩
  · intro h
    cases (submission_harness _ _ _ _).symm.trans h.harness
  · rw [Harness.verifyExternal_harness]
    rfl
  · have ht : t.Obtain (ascii "c2ln") (ascii "key") := ⟨⟨_, rfl, by decide⟩, by decide, by decide⟩
    rw [Harness.benchmarkVerify_obtain ht]
    rfl

end PqcApi
