/-
The HTTP handlers of `Controllers.cpp`: documents, external verification, logout.

A request comes with what Drogon has parsed of it.  A handler returns its response;
one that throws is answered by Drogon with status 500, so `throw` in a program here
is that answer.
-/
import PqcApi.Auth.AuthManager
import PqcApi.Crypto.DilithiumSigner

namespace PqcApi

open Concurrent

/-! ### Requests and responses -/

/-- A file part of a multipart body. -/
structure FilePart where
  itemName : Bytes
  fileName : Bytes
  content : Bytes

/-- A parsed multipart body: `getFiles()` and `getParameters()`. -/
structure MultiPart where
  files : List FilePart
  parameters : List (Bytes × Bytes)

/-- A request: its `Authorization` header, empty when absent, and its body if that parses
as multipart. -/
structure HttpRequest where
  authorization : Bytes
  multipart : Option MultiPart

/-- A response body: a JSON text, or a file with its `Content-Disposition`. -/
inductive Body
  | json (j : Json)
  | file (contentDisposition content : Bytes)

structure HttpResponse where
  status : Nat
  body : Body

/-- `jsonResponse`; `dump` throws on a string that is not UTF-8. -/
def jsonResponse {τ : Type} (j : Json) (status : Nat) : Action τ HttpResponse :=
  if j.dumpable then .ret ⟨status, .json j⟩ else .throw .json

/-- `errorResponse`; every message is an ASCII constant, so nothing is thrown. -/
def errorResponse (message : String) (status : Nat) : HttpResponse :=
  ⟨status, .json (.object [("error", .text message)])⟩

/-- What the handlers hold: the managers, and the signer, whose keys no handler changes. -/
structure App where
  auth : AuthManager
  signer : DilithiumSigner

namespace App

/-- The libraries the handlers call. -/
abbrev lib (P : App) : Lib := P.auth.lib

end App

/-! ### Binary helpers -/

def base64Encode (L : Lib) (data : Bytes) : Bytes := L.b64Write data

def base64Decode (L : Lib) (encoded : Bytes) : Bytes := L.b64Read encoded

def sha256Hex (L : Lib) (data : Bytes) : Bytes := hex (L.sha256 data)

/-- `std::isalnum` in the C locale. -/
def isAlnum (c : UInt8) : Bool :=
  (48 ≤ c && c ≤ 57) || (65 ≤ c && c ≤ 90) || (97 ≤ c && c ≤ 122)

/-- `%X` of a four-bit value. -/
def hexUpper (n : Nat) : UInt8 := if n < 10 then UInt8.ofNat (48 + n) else UInt8.ofNat (55 + n)

/-- A byte the quoted fallback must not hold. -/
def unsafeByte (c : UInt8) : Bool := c < 0x20 || c ≥ 0x7f || c == 34 || c == 92

def contentDisposition (filename : Bytes) : Bytes :=
  let fallback := filename.map fun c => if unsafeByte c then 95 else c
  let encoded := filename.flatMap fun c =>
    if isAlnum c || c == 46 || c == 45 || c == 95 then [c]
    else [37, hexUpper (c.toNat / 16), hexUpper (c.toNat % 16)]
  let named := if fallback = [] then (ascii "document.pdf", ascii "document.pdf")
    else (fallback, encoded)
  ascii "attachment; filename=\"" ++ named.1 ++ ascii "\"; filename*=UTF-8''" ++ named.2

/-- `s.find(pattern) != npos`. -/
def contains (pattern s : Bytes) : Bool := s.tails.any pattern.isPrefixOf

/-- The check on an upload: the PDF marker near the start, the end marker near the end. -/
def looksLikePdf (content : Bytes) : Bool :=
  let head := content.take 1024
  let tail := if content.length > 1024 then content.drop (content.length - 1024) else content
  contains (ascii "%PDF-") head && contains (ascii "%%EOF") tail

/-- `std::stoi`, which throws on what is no `int`. -/
def stoiOrThrow {τ : Type} (s : Bytes) : Action τ Int :=
  match stoi s with
  | some n => .ret n
  | none => .throw .outOfRange

/-- The token of a `Bearer` header. -/
def bearerToken (authorization : Bytes) : Option Bytes :=
  if (ascii "Bearer ").isPrefixOf authorization then some (authorization.drop 7) else none

namespace App

variable {τ : Type} [Field τ] [LinearOrder τ] [FloorRing τ]

/-! ### UserController -/

/-- `UserController::logout`. -/
def usersLogout (P : App) (req : HttpRequest) : Action τ HttpResponse :=
  match bearerToken req.authorization with
  | none => return errorResponse "Unauthorized" 401
  | some token => do
      let ok ← P.auth.logout token
      if ok then jsonResponse (.object [("message", .text "Logged out")]) 200
      else return errorResponse "Invalid or expired token" 401

/-! ### DocumentController -/

/-- `extractUserId`. -/
def extractUserId (P : App) (req : HttpRequest) : Action τ (Option Bytes) :=
  match bearerToken req.authorization with
  | none => .ret none
  | some token => P.auth.verifyToken token

/-- The part every document handler starts with. -/
def authenticated (P : App) (req : HttpRequest) (body : Bytes → Action τ HttpResponse) :
    Action τ HttpResponse := do
  let userId ← P.extractUserId req
  match userId with
  | none => return errorResponse "Unauthorized" 401
  | some userId => body userId

/-- The checks of `sign` on the upload: its first file, or the response that refuses it. -/
def upload (req : HttpRequest) : Except HttpResponse FilePart :=
  match req.multipart with
  | none => .error (errorResponse "Invalid multipart request" 400)
  | some m =>
      match m.files with
      | [] => .error (errorResponse "No file uploaded" 400)
      | file :: _ =>
          if file.content = [] then .error (errorResponse "Empty file" 400)
          else if looksLikePdf file.content then .ok file
          else .error
            (errorResponse "Unsupported file type: only PDF documents can be signed" 415)

/-- The name a document is stored under. -/
def storedName (file : FilePart) : Bytes :=
  if file.fileName = [] then ascii "document.pdf" else file.fileName

/-- What `sign` answers when the row is stored. -/
def signedResponse (docId : Int) (filename sha256 sig : Bytes) : Json :=
  .object [("doc_id", .int docId), ("filename", .str filename), ("sha256", .str sha256),
    ("signature", .str sig), ("algorithm", .text "ML-DSA-65")]

/-- `sign` from the checked file on. -/
def signFile (P : App) (file : FilePart) (userId : Bytes) : Action τ HttpResponse := do
  let signature : Option Bytes ←
    ((P.signer.sign file.content).bind fun s => .ret (some s)).handle fun _ => .ret none
  match signature with
  | none => return errorResponse "Signing failed" 500
  | some signature =>
      let user ← stoiOrThrow userId
      let docId ← DocumentRepository.save user (storedName file)
        (base64Encode P.lib file.content) (base64Encode P.lib signature)
        (sha256Hex P.lib file.content)
      if docId < 0 then return errorResponse "Failed to persist document" 500
      else
        jsonResponse (signedResponse docId (storedName file) (sha256Hex P.lib file.content)
          (base64Encode P.lib signature)) 201

/-- `sign` once the user is known. -/
def signAs (P : App) (req : HttpRequest) (userId : Bytes) : Action τ HttpResponse :=
  match upload req with
  | .error response => return response
  | .ok file => P.signFile file userId

/-- `DocumentController::sign`. -/
def sign (P : App) (req : HttpRequest) : Action τ HttpResponse :=
  P.authenticated req (P.signAs req)

/-- One row as `list` shows it. -/
def listed (L : Lib) (d : Document) : Json :=
  .object [("id", .int d.id), ("filename", .str d.filename), ("sha256", .str d.sha256Hash),
    ("signed_at", .str (L.timestampText d.signedAt))]

/-- `list` once the user is known. -/
def listAs (P : App) (userId : Bytes) : Action τ HttpResponse := do
  let user ← stoiOrThrow userId
  let docs ← DocumentRepository.findByUserId user
  jsonResponse (.object [("documents", .arr (docs.map (listed P.lib)))]) 200

/-- `DocumentController::list`. -/
def list (P : App) (req : HttpRequest) : Action τ HttpResponse :=
  P.authenticated req P.listAs

/-- The reads of `download` and `verify`: the owner test, the row, and its PDF. -/
def readOwned (id user : Int) (found : Document → Bytes → Action τ HttpResponse) :
    Action τ HttpResponse := do
  let owned ← DocumentRepository.ownedBy id user
  if owned then
    let doc ← DocumentRepository.findById id
    let pdf ← DocumentRepository.getPdfData id
    match doc, pdf with
    | some doc, some pdf => found doc pdf
    | _, _ => return errorResponse "Not found" 404
  else return errorResponse "Not found" 404

/-- `download` once the user is known. -/
def downloadAs (P : App) (id : Int) (userId : Bytes) : Action τ HttpResponse := do
  let user ← stoiOrThrow userId
  readOwned id user fun doc pdf =>
    return ⟨200, .file (contentDisposition doc.filename) (base64Decode P.lib pdf)⟩

/-- `DocumentController::download`. -/
def download (P : App) (req : HttpRequest) (id : Int) : Action τ HttpResponse :=
  P.authenticated req (P.downloadAs id)

/-- What `verify` answers about a row and whether its signature is valid. -/
def verifiedResponse (id : Int) (doc : Document) (valid : Bool) : Json :=
  .object [("doc_id", .int id), ("valid", .bool valid), ("algorithm", .text "ML-DSA-65"),
    ("filename", .str doc.filename), ("sha256", .str doc.sha256Hash)]

/-- `verify` once the user is known. -/
def verifyAs (P : App) (id : Int) (userId : Bytes) : Action τ HttpResponse := do
  let user ← stoiOrThrow userId
  readOwned id user fun doc pdf =>
    match P.signer.verify P.lib .ok (base64Decode P.lib pdf) (base64Decode P.lib doc.signature) with
    | .error _ => return errorResponse "Verification error" 500
    | .ok valid => jsonResponse (verifiedResponse id doc valid) 200

/-- `DocumentController::verify`. -/
def verify (P : App) (req : HttpRequest) (id : Int) : Action τ HttpResponse :=
  P.authenticated req (P.verifyAs id)

/-- What `remove` answers when the row is gone. -/
def removedResponse (id : Int) : Json := .object [("deleted", .bool true), ("doc_id", .int id)]

/-- `remove` once the user is known. -/
def removeAs (id : Int) (userId : Bytes) : Action τ HttpResponse := do
  let user ← stoiOrThrow userId
  let owned ← DocumentRepository.ownedBy id user
  if owned then
    let deleted ← DocumentRepository.deleteById id
    if deleted then jsonResponse (removedResponse id) 200
    else return errorResponse "Failed to delete document" 500
  else return errorResponse "Not found" 404

/-- `DocumentController::remove`. -/
def remove (P : App) (req : HttpRequest) (id : Int) : Action τ HttpResponse :=
  P.authenticated req (removeAs id)

/-- The value of the first parameter of this name. -/
def parameter (m : MultiPart) (name : String) : Option Bytes :=
  (m.parameters.find? fun p => p.1 = ascii name).map Prod.snd

/-- What `verifyExternal` answers when it has verified. -/
def externalResponse (valid serverKey : Bool) : Json :=
  .object [("valid", .bool valid), ("algorithm", .text "ML-DSA-65"),
    ("server_key", .bool serverKey)]

/-- `DocumentController::verifyExternal`, which calls no service. -/
def verifyExternal (P : App) (req : HttpRequest) : HttpResponse :=
  match req.multipart with
  | none => errorResponse "Expected multipart/form-data" 400
  | some m =>
      match (m.files.find? fun f => f.itemName = ascii "pdf").map FilePart.content with
      | none => errorResponse "Missing pdf field" 400
      | some [] => errorResponse "Missing pdf field" 400
      | some pdf =>
          match parameter m "signature", parameter m "public_key" with
          | none, _ => errorResponse "Missing signature field" 400
          | _, none => errorResponse "Missing public_key field" 400
          | some sig, some key =>
              let signature := base64Decode P.lib sig
              if signature = [] then errorResponse "Invalid base64 signature" 400
              else
                match DilithiumSigner.verifyWithPEM P.lib .ok pdf signature key with
                | .error (.invalidArgument what) => errorResponse what 400
                | .error _ => errorResponse "Verification error" 500
                | .ok valid =>
                    ⟨200, .json (externalResponse valid (P.signer.isOwnPublicKey P.lib .ok key))⟩

/-- What `verifyExternal` reads of a request. -/
structure Submission where
  pdf : Bytes
  signature : Bytes
  publicKey : Bytes
  deriving DecidableEq

/-- The fields of a submission, or the response that refuses it. -/
def submission (req : HttpRequest) : Except HttpResponse Submission :=
  match req.multipart with
  | none => .error (errorResponse "Expected multipart/form-data" 400)
  | some m =>
      match (m.files.find? fun f => f.itemName = ascii "pdf").map FilePart.content with
      | none => .error (errorResponse "Missing pdf field" 400)
      | some [] => .error (errorResponse "Missing pdf field" 400)
      | some pdf =>
          match parameter m "signature", parameter m "public_key" with
          | none, _ => .error (errorResponse "Missing signature field" 400)
          | _, none => .error (errorResponse "Missing public_key field" 400)
          | some signature, some publicKey => .ok ⟨pdf, signature, publicKey⟩

/-- `verifyExternal`, whatever fails inside `verifyWithPEM` and `isOwnPublicKey`. -/
def verifyExternalUnder (P : App) (o : DilithiumSigner.Allocs) (own : DilithiumSigner.OwnKeyOutcome)
    (req : HttpRequest) : HttpResponse :=
  match submission req with
  | .error response => response
  | .ok sub =>
      let signature := base64Decode P.lib sub.signature
      if signature = [] then errorResponse "Invalid base64 signature" 400
      else
        match DilithiumSigner.verifyWithPEM P.lib o sub.pdf signature sub.publicKey with
        | .error (.invalidArgument what) => errorResponse what 400
        | .error _ => errorResponse "Verification error" 500
        | .ok valid =>
            ⟨200, .json (externalResponse valid (P.signer.isOwnPublicKey P.lib own sub.publicKey))⟩

omit [Field τ] [LinearOrder τ] [FloorRing τ] in
/-- `verifyExternal` is the case in which nothing fails. -/
theorem verifyExternal_under (P : App) (req : HttpRequest) :
    P.verifyExternal req = P.verifyExternalUnder .ok .ok req := by
  unfold verifyExternal verifyExternalUnder submission
  cases req.multipart with
  | none => rfl
  | some m =>
      dsimp only
      split
      · rfl
      · rfl
      · split <;> rfl

end App

end PqcApi
