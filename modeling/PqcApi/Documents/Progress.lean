/-
Document requests in which nothing goes wrong.

With a session stored under the token's key, a document request is let in and comes to
its handler's own part.  The runs of the first account's requests start from the world its
login leaves.
-/
import PqcApi.Documents.Paths
import PqcApi.Sessions.Progress

namespace PqcApi

open Concurrent

variable {τ : Type} [Field τ] [LinearOrder τ] [FloorRing τ] {P : App}

theorem bearerToken_bearer (token : Bytes) :
    bearerToken (ascii "Bearer " ++ token) = some token := by
  have hprefix : (ascii "Bearer ").isPrefixOf (ascii "Bearer " ++ token) = true :=
    List.isPrefixOf_iff_prefix.mpr (List.prefix_append _ _)
  rw [bearerToken, if_pos hprefix]
  exact congrArg some (List.drop_left' (by decide))

/-- The two commands about the token. -/
def tokenEvents (P : App) (w : World τ) (userId sessionId : Bytes) : List (ServerEvent τ P) :=
  [⟨.now, .done, w, w.now, w⟩,
    ⟨.get (sessionKey sessionId), .done, w, some (.string userId), w⟩]

/-- **A document request is let in while its session is there.** -/
theorem path_letIn {w : World τ} {r : Request} {header : HttpRequest}
    {body : Bytes → Action τ HttpResponse} (hg : P.guarded r = some (header, body))
    {token userId sessionId : Bytes} {p : Json}
    (htoken : bearerToken header.authorization = some token)
    (hp : P.auth.payload token = some p)
    (hread : AuthManager.readPayload p (truncate w.now) = some (userId, sessionId))
    (hlive : w.live (sessionKey sessionId) = some userId) {events : List (ServerEvent τ P)}
    {q : Action τ Result} (hrest : Path (App.answer (body userId)) events q) :
    Path (P.program r) (tokenEvents P w userId sessionId ++ events) q := by
  have hget : exec P.lib w (.get (sessionKey sessionId)) .done =
      some (some (.string userId), w) := by
    simp only [exec, redisCommand, getReply_eq_string.mpr hlive]
  rw [App.program_guarded hg, App.answer, App.authenticated_eq, htoken, Option.bind_some, hp]
  refine ⟨_, _, w.now, _, rfl, rfl, ?_⟩
  simp only [hread]
  refine ⟨_, _, _, _, hget, rfl, ?_⟩
  simp only [if_true]
  exact hrest

/-- The thread that got there is authenticated as the user of the token. -/
theorem authenticated {w : World τ} {r : Request} {header : HttpRequest}
    {body : Bytes → Action τ HttpResponse} (hg : P.guarded r = some (header, body))
    {token userId sessionId : Bytes} {p : Json}
    (htoken : bearerToken header.authorization = some token)
    (hp : P.auth.payload token = some p)
    (hread : AuthManager.readPayload p (truncate w.now) = some (userId, sessionId))
    {user : Int} (huser : stoi userId = some user) {events : List (ServerEvent τ P)}
    {q : Action τ Result} (hrest : Path (App.answer (body userId)) events q) :
    ∃ l : Authenticated
      (⟨r, q, tokenEvents P w userId sessionId ++ events⟩ : Thread (server τ P)) user,
      l.userId = userId :=
  ⟨{ header := header
     body := body
     guarded := hg
     token := token
     payload := p
     userId := userId
     sessionId := sessionId
     time := w.now
     clock := _
     looked := _
     rest := events
     log := rfl
     presented := htoken
     payload_eq := hp
     clock_is := ⟨_, _, _, rfl⟩
     read := hread
     looked_is := ⟨_, _, _, rfl⟩
     path := hrest
     user_eq := huser }, rfl⟩

/-- The two commands of the handler's own part when a document is stored. -/
def signEvents (P : App) (w w' : World τ) (key : PKey) (user : Int) (file : FilePart)
    (r signature : Bytes) : List (ServerEvent τ P) :=
  [⟨.digestSign key file.content, .random r, w, some signature, w⟩,
    ⟨.insertDocument user (App.storedName file) (base64Encode P.lib file.content)
      (base64Encode P.lib signature) (sha256Hex P.lib file.content), .done, w, some w'.docs.seq,
        w'⟩]

/-- **An upload is stored**, and then the answer is written. -/
theorem path_stored {w w' : World τ} {header : HttpRequest} {file : FilePart}
    (hup : App.upload header = .ok file) {key : PKey} (hkey : P.signer.signingKey = some key)
    {r signature : Bytes} (hsign : P.lib.digestSign key r file.content = some signature)
    {userId : Bytes} {user : Int} (huser : stoi userId = some user)
    (hins : w.withDocument user (App.storedName file) (base64Encode P.lib file.content)
      (base64Encode P.lib signature) (sha256Hex P.lib file.content) = some w') :
    Path (App.answer (P.signAs header userId)) (signEvents P w w' key user file r signature)
      (App.answer (jsonResponse (App.signedResponse w'.docs.seq (App.storedName file)
        (sha256Hex P.lib file.content) (base64Encode P.lib signature)) 201)) := by
  have hsigned : exec P.lib w (.digestSign key file.content) (.random r) =
      some (some signature, w) := by
    simp only [exec, randomized, hsign]
  have hsaved : exec P.lib w (.insertDocument user (App.storedName file)
      (base64Encode P.lib file.content) (base64Encode P.lib signature)
      (sha256Hex P.lib file.content)) .done = some (some w'.docs.seq, w') := by
    simp only [exec, hins, statement]
  have hpos : ¬ w'.docs.seq < 0 := not_lt.mpr w'.docs.seq_le.1
  unfold App.signAs
  rw [hup]
  simp only [App.signFile_eq, hkey, huser]
  refine ⟨_, _, _, _, hsigned, rfl, _, _, _, _, hsaved, rfl, path_nil.mpr ?_⟩
  simp only [Option.getD_some, if_neg hpos]
  rfl

/-- The three reads of a row. -/
def readEvents (P : App) (w : World τ) (d : Document) : List (ServerEvent τ P) :=
  [⟨.ownedBy d.id d.userId, .done, w, some true, w⟩,
    ⟨.documentById d.id, .done, w, some (some d), w⟩,
      ⟨.pdfData d.id, .done, w, some (some d.pdfData), w⟩]

/-- **A row is downloaded.** -/
theorem path_download {w : World τ} {d : Document} (hd : d ∈ w.docs.rows) {userId : Bytes}
    (huser : stoi userId = some d.userId) :
    Path (App.answer (P.downloadAs d.id userId)) (readEvents P w d) (.ret (.response
      ⟨200, .file (contentDisposition d.filename) (base64Decode P.lib d.pdfData)⟩)) := by
  have howned : exec P.lib w (.ownedBy d.id d.userId) .done = some (some true, w) := by
    have hany : (w.docs.rows.any fun e => e.id = d.id ∧ e.userId = d.userId) = true :=
      List.any_eq_true.mpr ⟨d, hd, by simp⟩
    simp only [exec, statement, hany]
  have hrow : exec P.lib w (.documentById d.id) .done = some (some (some d), w) := by
    simp only [exec, statement, DocsTable.byId_of_mem hd]
  have hpdf : exec P.lib w (.pdfData d.id) .done = some (some (some d.pdfData), w) := by
    simp only [exec, statement, DocsTable.byId_of_mem hd, Option.map_some]
  simp only [App.downloadAs_eq, huser, App.readOwned_eq]
  exact ⟨_, _, _, _, howned, rfl, _, _, _, _, hrow, rfl, _, _, _, _, hpdf, rfl, path_nil.mpr rfl⟩

namespace Sample

/-- A request of the first account. -/
def request (body : Option MultiPart) : HttpRequest := ⟨ascii "Bearer " ++ token, body⟩

theorem presented (body : Option MultiPart) :
    bearerToken (request body).authorization = some token :=
  bearerToken_bearer token

theorem user_id : stoi (toDecimal user.id) = some user.id :=
  stoi_toDecimal (by decide) (by decide)

/-- The session of the first account, over other documents. -/
def sessionWith (docs : DocsTable) : World ℚ := { session with docs := docs }

theorem live_sessionWith (docs : DocsTable) :
    (sessionWith docs).live (sessionKey (hex draw)) = some (toDecimal user.id) :=
  live_withSession world user draw

/-- It uploads the document under a name. -/
def uploads (name : Bytes) : HttpRequest := request (some ⟨[⟨ascii "pdf", name, pdf⟩], []⟩)

theorem upload_uploads (name : Bytes) :
    App.upload (uploads name) = .ok ⟨ascii "pdf", name, pdf⟩ := by
  have hpdf : pdf ≠ [] ∧ looksLikePdf pdf = true := by decide
  simp only [App.upload, uploads, request, if_neg hpdf.1, if_pos hpdf.2]

end Sample

end PqcApi
