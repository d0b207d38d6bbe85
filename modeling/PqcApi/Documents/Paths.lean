/-
The document handlers, one command after another.

All five start with the owner of the token.  What they do then is unfolded once into
the statements they issue, and a thread that got that far is an `Authenticated`: its log
is two commands about the token and the path of the handler's own part.
-/
import PqcApi.Api.Server

namespace PqcApi

open Concurrent

namespace App

/-! ### The handlers, one statement after another -/

section Handlers

variable {τ : Type} (P : App)

theorem signFile_eq (file : FilePart) (userId : Bytes) :
    (P.signFile file userId : Action τ HttpResponse) =
      match P.signer.signingKey with
      | none => .ret (errorResponse "Signing failed" 500)
      | some key => .call (S := services τ) (.digestSign key file.content)
          fun signature : Option Bytes =>
            match signature with
            | none => .ret (errorResponse "Signing failed" 500)
            | some signature =>
                match stoi userId with
                | none => .throw .outOfRange
                | some user => .call (S := services τ) (.insertDocument user (storedName file)
                    (base64Encode P.lib file.content) (base64Encode P.lib signature)
                    (sha256Hex P.lib file.content)) fun reply : Option Int =>
                      if reply.getD (-1) < 0 then
                        .ret (errorResponse "Failed to persist document" 500)
                      else jsonResponse (signedResponse (reply.getD (-1)) (storedName file)
                        (sha256Hex P.lib file.content) (base64Encode P.lib signature)) 201 := by
  unfold signFile DilithiumSigner.signingKey DilithiumSigner.sign
  cases P.signer.privateKey with
  | none => rfl
  | some p =>
      show Program.bind (Program.handle (Program.bind (match P.signer.heap.deref p with
        | none => _ | some key => _) _) _) _ =
          match P.signer.heap.deref p with | none => _ | some key => _
      cases P.signer.heap.deref p with
      | none => rfl
      | some key =>
          refine congrArg (Program.call (S := services τ) _) (funext fun signature => ?_)
          cases signature with
          | none => rfl
          | some signature =>
              show (stoiOrThrow userId).bind _ = _
              unfold stoiOrThrow
              cases stoi userId <;> rfl

theorem listAs_eq (userId : Bytes) :
    (P.listAs userId : Action τ HttpResponse) =
      match stoi userId with
      | none => .throw .outOfRange
      | some user => .call (S := services τ) (.documentsByUser user)
          fun reply : Option (List Document) =>
            match reply with
            | none => .throw .query
            | some docs => jsonResponse (.object [("documents", .arr (docs.map (listed P.lib)))])
                200 := by
  show (stoiOrThrow userId).bind _ = _
  unfold stoiOrThrow
  cases stoi userId with
  | none => rfl
  | some user =>
      refine congrArg (Program.call (S := services τ) _) (funext fun reply => ?_)
      cases reply <;> rfl

/-- What a read does with what it has found. -/
def shown (found : Document → Bytes → Action τ HttpResponse) :
    Option Document → Option Bytes → Action τ HttpResponse
  | some doc, some pdf => found doc pdf
  | _, _ => .ret (errorResponse "Not found" 404)

theorem readOwned_eq (id user : Int) (found : Document → Bytes → Action τ HttpResponse) :
    readOwned id user found =
      .call (S := services τ) (.ownedBy id user) fun owned : Option Bool =>
        match owned with
        | none => .throw .query
        | some false => .ret (errorResponse "Not found" 404)
        | some true => .call (S := services τ) (.documentById id)
            fun doc : Option (Option Document) =>
              match doc with
              | none => .throw .query
              | some doc => .call (S := services τ) (.pdfData id) fun pdf : Option (Option Bytes) =>
                  match pdf with
                  | none => .throw .query
                  | some pdf => shown found doc pdf := by
  refine congrArg (Program.call (S := services τ) _) (funext fun owned => ?_)
  rcases owned with _ | (_ | _)
  · rfl
  · rfl
  · refine congrArg (Program.call (S := services τ) _) (funext fun doc => ?_)
    rcases doc with _ | doc
    · rfl
    · refine congrArg (Program.call (S := services τ) _) (funext fun pdf => ?_)
      rcases pdf with _ | pdf
      · rfl
      · rcases doc with _ | doc <;> rcases pdf with _ | pdf <;> rfl

theorem downloadAs_eq (id : Int) (userId : Bytes) :
    (P.downloadAs id userId : Action τ HttpResponse) =
      match stoi userId with
      | none => .throw .outOfRange
      | some user => readOwned id user fun doc pdf =>
          .ret ⟨200, .file (contentDisposition doc.filename) (base64Decode P.lib pdf)⟩ := by
  show (stoiOrThrow userId).bind _ = _
  unfold stoiOrThrow
  cases stoi userId <;> rfl

/-- What `verify` does with the row and its PDF. -/
def judge (id : Int) (doc : Document) (pdf : Bytes) : Action τ HttpResponse :=
  match P.signer.verify P.lib .ok (base64Decode P.lib pdf) (base64Decode P.lib doc.signature) with
  | .error _ => .ret (errorResponse "Verification error" 500)
  | .ok valid => jsonResponse (verifiedResponse id doc valid) 200

theorem verifyAs_eq (id : Int) (userId : Bytes) :
    (P.verifyAs id userId : Action τ HttpResponse) =
      match stoi userId with
      | none => .throw .outOfRange
      | some user => readOwned id user (P.judge id) := by
  show (stoiOrThrow userId).bind _ = _
  unfold stoiOrThrow
  cases stoi userId <;> rfl

theorem removeAs_eq (id : Int) (userId : Bytes) :
    (removeAs id userId : Action τ HttpResponse) =
      match stoi userId with
      | none => .throw .outOfRange
      | some user => .call (S := services τ) (.ownedBy id user) fun owned : Option Bool =>
          match owned with
          | none => .throw .query
          | some false => .ret (errorResponse "Not found" 404)
          | some true => .call (S := services τ) (.deleteDocument id) fun deleted : Option Bool =>
              if deleted.getD false then jsonResponse (removedResponse id) 200
              else .ret (errorResponse "Failed to delete document" 500) := by
  show (stoiOrThrow userId).bind _ = _
  unfold stoiOrThrow
  cases stoi userId with
  | none => rfl
  | some user =>
      refine congrArg (Program.call (S := services τ) _) (funext fun owned => ?_)
      rcases owned with _ | (_ | _)
      · rfl
      · rfl
      · refine congrArg (Program.call (S := services τ) _) (funext fun deleted => ?_)
        rcases deleted with _ | (_ | _) <;> rfl

end Handlers

/-! ### The part they share -/

variable {τ : Type} [Field τ] [LinearOrder τ] [FloorRing τ] {P : App}

/-- The request of a document handler, and what it does once the user is known. -/
def guarded (P : App) : Request → Option (HttpRequest × (Bytes → Action τ HttpResponse))
  | .sign req => some (req, P.signAs req)
  | .list req => some (req, P.listAs)
  | .download req id => some (req, P.downloadAs id)
  | .verify req id => some (req, P.verifyAs id)
  | .remove req id => some (req, removeAs id)
  | _ => none

/-- A response is the result of a request. -/
def answer (p : Action τ HttpResponse) : Action τ Result := p.bind fun r => .ret (.response r)

theorem program_guarded {r : Request} {req : HttpRequest} {body : Bytes → Action τ HttpResponse}
    (h : P.guarded r = some (req, body)) : P.program r = answer (P.authenticated req body) := by
  cases r <;> cases h <;> rfl

/-- Whose request it is, from the token alone. -/
theorem authenticated_eq (req : HttpRequest) (body : Bytes → Action τ HttpResponse) :
    P.authenticated req body =
      match (bearerToken req.authorization).bind P.auth.payload with
      | none => .ret (errorResponse "Unauthorized" 401)
      | some p => .call (S := services τ) .now fun now : τ =>
          match AuthManager.readPayload p (truncate now) with
          | none => .ret (errorResponse "Unauthorized" 401)
          | some (userId, sessionId) => .call (S := services τ) (.get (sessionKey sessionId))
              fun reply : Option RedisReply =>
                if reply = some (.string userId) then body userId
                else .ret (errorResponse "Unauthorized" 401) := by
  unfold authenticated extractUserId
  cases bearerToken req.authorization with
  | none => rfl
  | some token =>
      simp only [AuthManager.verifyToken_eq, Option.bind_some]
      cases P.auth.payload token with
      | none => rfl
      | some p =>
          refine congrArg (Program.call (S := services τ) _) (funext fun now : τ => ?_)
          dsimp only
          cases AuthManager.readPayload p (truncate now) with
          | none => rfl
          | some ids =>
              refine congrArg (Program.call (S := services τ) _) (funext fun reply => ?_)
              show Program.bind (.ret (if reply = some (.string ids.1) then _ else _)) _ = _
              split <;> rfl

end App

variable {τ : Type} [Field τ] [LinearOrder τ] [FloorRing τ] {P : App}

/-- A thread of a document request whose token was let in. -/
structure LetIn (th : Thread (server τ P)) where
  header : HttpRequest
  body : Bytes → Action τ HttpResponse
  guarded : P.guarded th.req = some (header, body)
  token : Bytes
  payload : Json
  userId : Bytes
  sessionId : Bytes
  time : τ
  clock : ServerEvent τ P
  looked : ServerEvent τ P
  rest : List (ServerEvent τ P)
  log : th.log = clock :: looked :: rest
  presented : bearerToken header.authorization = some token
  payload_eq : P.auth.payload token = some payload
  clock_is : clock.Is .now time
  read : AuthManager.readPayload payload (truncate time) = some (userId, sessionId)
  looked_is : looked.Is (.get (sessionKey sessionId)) (some (.string userId))
  path : Path (App.answer (body userId)) rest th.rest

section LetIn

variable {th : Thread (server τ P)} (l : LetIn th)

/-- Behind the token check stands the handler of the request. -/
theorem LetIn.body_eq {header : HttpRequest} {body : Bytes → Action τ HttpResponse}
    (hg : P.guarded th.req = some (header, body)) : l.body = body :=
  (Prod.mk.inj (Option.some.inj (l.guarded.symm.trans hg))).2

theorem LetIn.mem_log {e : ServerEvent τ P} (he : e ∈ l.rest) : e ∈ th.log := by
  rw [l.log]
  exact List.mem_cons_of_mem _ (List.mem_cons_of_mem _ he)

end LetIn

/-- It was let in as this user. -/
structure Authenticated (th : Thread (server τ P)) (user : Int) extends LetIn th where
  user_eq : stoi userId = some user

/-- **How a document request starts**: it is let in, or it has asked about its token only. -/
theorem guarded_path {th : Thread (server τ P)} (hp : Path (P.program th.req) th.log th.rest)
    {header : HttpRequest} {body : Bytes → Action τ HttpResponse}
    (hg : P.guarded th.req = some (header, body)) :
    ((∀ e ∈ th.log, e.cmd = .now ∨ ∃ key, e.cmd = .get key) ∧
      ((∃ c k, th.rest = .call c k) ∨
        th.rest = .ret (.response (errorResponse "Unauthorized" 401)))) ∨
    ∃ l : LetIn th, l.body = body := by
  rw [App.program_guarded hg, App.answer, App.authenticated, App.extractUserId] at hp
  cases htoken : bearerToken header.authorization with
  | none =>
      rw [htoken] at hp
      obtain ⟨hl, hq⟩ := path_ret.mp hp
      exact Or.inl ⟨by simp [hl], Or.inr hq⟩
  | some token =>
      rw [htoken] at hp
      change Path (Program.bind (Program.bind (Program.bind (P.auth.parseToken token) _) _) _)
        th.log th.rest at hp
      rw [Program.bind_assoc, Program.bind_assoc] at hp
      rcases parseToken_path hp rfl with ⟨-, hl, hq⟩ | ⟨p, hpay, ⟨hl, k, hq⟩ | ⟨e₁, now, h₁,
        ⟨-, hl, hq⟩ | ⟨⟨userId, sessionId⟩, rest₁, hread, hl, hp₁⟩⟩⟩
      · exact Or.inl ⟨by simp [hl], Or.inr hq⟩
      · exact Or.inl ⟨by simp [hl], Or.inl ⟨_, _, hq⟩⟩
      · exact Or.inl ⟨by simp [hl, h₁.cmd_eq], Or.inr hq⟩
      rcases path_call.mp hp₁ with ⟨rfl, hq⟩ | ⟨e₂, reply, rest₂, -, h₂, rfl, hp₂⟩
      · exact Or.inl ⟨by simp [hl, h₁.cmd_eq], Or.inl ⟨_, _, hq⟩⟩
      simp only [RedisClient.stringReply_eq_some, Program.ret_bind, Program.pure_eq] at hp₂
      by_cases hreply : reply = some (.string userId)
      · rw [if_pos hreply] at hp₂
        exact Or.inr ⟨⟨header, body, hg, token, p, userId, sessionId, now, e₁, e₂, rest₂, hl,
          htoken, hpay, h₁, hread, hreply ▸ h₂, hp₂⟩, rfl⟩
      · rw [if_neg hreply] at hp₂
        obtain ⟨rfl, hq⟩ := path_ret.mp hp₂
        exact Or.inl ⟨by simp [hl, h₁.cmd_eq, h₂.cmd_eq], Or.inr hq⟩

end PqcApi
