/-
How the document handlers end.

A sign request either has not touched the database, and then it has not answered 201, or it
has asked for its insert, and then its log is four commands.  A delete is the last command
of a remove request.  The reads answer with the row if it is there at each of their
statements.
-/
import PqcApi.Documents.Isolation

namespace PqcApi

open Concurrent

variable {τ : Type} [Field τ] [LinearOrder τ] [FloorRing τ] {P : App}

theorem Request.eq_sign {r : Request} (h : r.effect = .addDocument) :
    ∃ header, r = .sign header := by
  cases r with
  | sign header => exact ⟨header, rfl⟩
  | _ => cases h

theorem Request.eq_remove {r : Request} (h : r.effect = .removeDocument) :
    ∃ header id, r = .remove header id := by
  cases r with
  | remove header id => exact ⟨header, id, rfl⟩
  | _ => cases h

/-- A command with an effect in a log is of the request's kind. -/
theorem effect_of_mem {th : Thread (server τ P)} (hp : Path (P.program th.req) th.log th.rest)
    {e : ServerEvent τ P} (he : e ∈ th.log) (hne : e.cmd.effect ≠ .none) :
    th.req.effect = e.cmd.effect := by
  rcases (Path.only hp (App.program_within P th.req)).1 e he with hnone | heff
  · exact absurd hnone hne
  · exact heff.symm

/-- A command with an effect belongs to the handler's own part. -/
theorem LetIn.mem_rest {th : Thread (server τ P)} (l : LetIn th) {e : ServerEvent τ P}
    (he : e ∈ th.log) (hne : e.cmd.effect ≠ .none) : e ∈ l.rest := by
  rw [l.log] at he
  rcases List.mem_cons.mp he with rfl | he
  · rw [l.clock_is.cmd_eq] at hne
    exact absurd rfl hne
  rcases List.mem_cons.mp he with rfl | he
  · rw [l.looked_is.cmd_eq] at hne
    exact absurd rfl hne
  exact he

/-! ### Responses -/

theorem signedResponse_dumpable (id : Int) (filename sha sig : Bytes) :
    (App.signedResponse id filename sha sig).dumpable =
    (utf8 filename && utf8 sha && utf8 sig) := by
  have hkeys : utf8 (ascii "doc_id") = true ∧ utf8 (ascii "filename") = true ∧
      utf8 (ascii "sha256") = true ∧ utf8 (ascii "signature") = true ∧
      utf8 (ascii "algorithm") = true ∧ utf8 (ascii "ML-DSA-65") = true := by decide
  obtain ⟨h₁, h₂, h₃, h₄, h₅, h₆⟩ := hkeys
  simp only [App.signedResponse, Json.dumpable_object, List.all_cons, List.all_nil, Json.text,
    Json.dumpable, h₁, h₂, h₃, h₄, h₅, h₆, Bool.true_and, Bool.and_true, Bool.and_assoc]

/-- Its fields in key order. -/
theorem signedResponse_fields (id : Int) (filename sha sig : Bytes) :
    App.signedResponse id filename sha sig =
      .obj [(ascii "algorithm", .text "ML-DSA-65"), (ascii "doc_id", .int id),
        (ascii "filename", .str filename), (ascii "sha256", .str sha),
        (ascii "signature", .str sig)] := by
  have h₁ : ¬ ascii "signature" < ascii "algorithm" := by decide
  have h₂ : ¬ ascii "sha256" < ascii "algorithm" ∧ ascii "sha256" < ascii "signature" := by decide
  have h₃ : ¬ ascii "filename" < ascii "algorithm" ∧ ascii "filename" < ascii "sha256" := by decide
  have h₄ : ¬ ascii "doc_id" < ascii "algorithm" ∧ ascii "doc_id" < ascii "filename" := by decide
  simp only [App.signedResponse, Json.object, List.foldr_cons, List.foldr_nil, Json.insertField,
    h₁, h₂, h₃, h₄, if_false, if_true]

/-- A signed response tells the document's id. -/
theorem signedResponse_id {id id' : Int} {filename filename' sha sha' sig sig' : Bytes}
    (h : App.signedResponse id filename sha sig = App.signedResponse id' filename' sha' sig') :
    id = id' := by
  rw [signedResponse_fields, signedResponse_fields] at h
  injection h with hfields
  have htail := (List.cons.inj hfields).2
  have hid := congrArg Prod.snd (List.cons.inj htail).1
  injection hid

/-- It carries the signature. -/
theorem signedResponse_signature (id : Int) (filename sha sig : Bytes) :
    (App.signedResponse id filename sha sig).field "signature" = some (.str sig) := by
  have hne : ascii "algorithm" ≠ ascii "signature" ∧ ascii "doc_id" ≠ ascii "signature" ∧
      ascii "filename" ≠ ascii "signature" ∧ ascii "sha256" ≠ ascii "signature" := by decide
  rw [signedResponse_fields]
  simp only [Json.field, List.find?_cons, hne, decide_false, decide_true]

theorem removedResponse_dumpable (id : Int) : (App.removedResponse id).dumpable = true := by
  have hkeys : utf8 (ascii "deleted") = true ∧ utf8 (ascii "doc_id") = true := by decide
  simp only [App.removedResponse, Json.dumpable_object, List.all_cons, List.all_nil,
    Json.dumpable, hkeys, Bool.and_true]

omit [Field τ] [LinearOrder τ] [FloorRing τ] in
theorem jsonResponse_eq {j : Json} (h : j.dumpable = true) (status : Nat) :
    (jsonResponse j status : Action τ HttpResponse) = .ret ⟨status, .json j⟩ := by
  rw [jsonResponse, if_pos h]

/-- The checks on an upload refuse with 400 or 415. -/
theorem upload_refused {header : HttpRequest} {r : HttpResponse}
    (h : App.upload header = .error r) :
    r.status = 400 ∨ r.status = 415 := by
  unfold App.upload at h
  repeat' split at h
  all_goals
    cases h
    try decide

omit [Field τ] [LinearOrder τ] [FloorRing τ] in
theorem jsonResponse_done (j : Json) (status : Nat) :
    (App.answer (jsonResponse j status) : Action τ Result).Done := by
  unfold jsonResponse
  split <;> exact trivial

/-! ### How far a handler has come -/

section Progress

variable {log : List (ServerEvent τ P)} {q : Action τ Result} {userId : Bytes} {user id : Int}

/-- An upload behind the token check. -/
inductive Signing (req : HttpRequest) (userId : Bytes) (log : List (ServerEvent τ P))
    (q : Action τ Result) : Prop
  | refused (r : HttpResponse) (hup : App.upload req = .error r) (hlog : log = [])
      (hq : q = .ret (.response r))
  | keyless (hkey : P.signer.signingKey = none) (hlog : log = [])
      (hq : q = .ret (.response (errorResponse "Signing failed" 500)))
  | asked (hlog : log = []) (hq : ¬ q.Done)
  | failed (e : ServerEvent τ P) (key : PKey) (data : Bytes) (h : e.Is (.digestSign key data) none)
      (hlog : log = [e]) (hq : q = .ret (.response (errorResponse "Signing failed" 500)))
  | nobody (e : ServerEvent τ P) (key : PKey) (data signature : Bytes)
      (h : e.Is (.digestSign key data) (some signature)) (huser : stoi userId = none)
      (hlog : log = [e]) (hq : q = .throw .outOfRange)
  | signed (e : ServerEvent τ P) (key : PKey) (data signature : Bytes)
      (h : e.Is (.digestSign key data) (some signature)) (hlog : log = [e]) (hq : ¬ q.Done)
  | stored (file : FilePart) (key : PKey) (user : Int) (signature : Bytes) (reply : Option Int)
      (e₁ e₂ : ServerEvent τ P) (hup : App.upload req = .ok file)
      (hkey : P.signer.signingKey = some key) (huser : stoi userId = some user)
      (h₁ : e₁.Is (.digestSign key file.content) (some signature))
      (h₂ : e₂.Is (.insertDocument user (App.storedName file) (base64Encode P.lib file.content)
        (base64Encode P.lib signature) (sha256Hex P.lib file.content)) reply)
      (hlog : log = [e₁, e₂])
      (hq : q = App.answer (if reply.getD (-1) < 0 then
          .ret (errorResponse "Failed to persist document" 500)
        else jsonResponse (App.signedResponse (reply.getD (-1)) (App.storedName file)
          (sha256Hex P.lib file.content) (base64Encode P.lib signature)) 201))

theorem signAs_path {req : HttpRequest} (hp : Path (App.answer (P.signAs req userId)) log q) :
    Signing req userId log q := by
  unfold App.signAs at hp
  cases hup : App.upload req with
  | error response =>
      rw [hup] at hp
      obtain ⟨hl, hq⟩ := path_ret.mp hp
      exact .refused response hup hl hq
  | ok file =>
      rw [hup] at hp
      dsimp only at hp
      rw [App.signFile_eq] at hp
      cases hkey : P.signer.signingKey with
      | none =>
          rw [hkey] at hp
          obtain ⟨hl, hq⟩ := path_ret.mp hp
          exact .keyless hkey hl hq
      | some key =>
          rw [hkey] at hp
          rcases path_call.mp hp with ⟨hl, rfl⟩ | ⟨e₁, signature, rest₁, -, h₁, hl, hp₁⟩
          · exact .asked hl fun h => h
          rcases signature with _ | signature
          · obtain ⟨rfl, hq⟩ := path_ret.mp hp₁
            exact .failed e₁ key file.content h₁ hl hq
          dsimp only at hp₁
          cases huser : stoi userId with
          | none =>
              rw [huser] at hp₁
              obtain ⟨rfl, hq⟩ := path_throw.mp hp₁
              exact .nobody e₁ key file.content signature h₁ huser hl hq
          | some user =>
              rw [huser] at hp₁
              rcases path_call.mp hp₁ with ⟨rfl, rfl⟩ | ⟨e₂, reply, rest₂, -, h₂, rfl, hp₂⟩
              · exact .signed e₁ key file.content signature h₁ hl fun h => h
              have hdone : (App.answer (if Option.getD reply (-1) < 0 then
                  .ret (errorResponse "Failed to persist document" 500)
                else jsonResponse (App.signedResponse (Option.getD reply (-1)) (App.storedName file)
                  (sha256Hex P.lib file.content) (base64Encode P.lib signature)) 201) :
                  Action τ Result).Done := by
                split
                · exact trivial
                · exact jsonResponse_done _ _
              obtain ⟨rfl, hq⟩ := Path.done hdone hp₂
              exact .stored file key user signature reply e₁ e₂ hup hkey huser h₁ h₂ hl hq

/-- The reads of `download` and `verify`. -/
inductive Reading (id user : Int) (found : Document → Bytes → Action τ HttpResponse)
    (log : List (ServerEvent τ P)) (q : Action τ Result) : Prop
  | waiting (hlog : ∀ e ∈ log, e.cmd.effect = .none) (hq : ¬ q.Done)
  | threw (e : ServerEvent τ P) (hlast : log.getLast? = some e) (hcmd : e.cmd.onDocuments = true)
      (h : e.choice = .threw)
  | missing (e : ServerEvent τ P) (h : e.Is (.ownedBy id user) (some false)) (hlog : log = [e])
      (hq : q = .ret (.response (errorResponse "Not found" 404)))
  | read (e₁ e₂ e₃ : ServerEvent τ P) (rest : List (ServerEvent τ P)) (doc : Option Document)
      (pdf : Option Bytes) (h₁ : e₁.Is (.ownedBy id user) (some true))
      (h₂ : e₂.Is (.documentById id) (some doc)) (h₃ : e₃.Is (.pdfData id) (some pdf))
      (hlog : log = e₁ :: e₂ :: e₃ :: rest)
      (hp : Path (App.answer (App.shown found doc pdf)) rest q)

theorem readOwned_path {found : Document → Bytes → Action τ HttpResponse}
    (hp : Path (App.answer (App.readOwned id user found)) log q) :
    Reading id user found log q := by
  have hreal := hp.real
  rw [App.readOwned_eq] at hp
  rcases path_call.mp hp with ⟨rfl, rfl⟩ | ⟨e₁, owned, rest₁, -, h₁, rfl, hp₁⟩
  · exact .waiting (by simp) fun h => h
  have hx₁ : exec P.lib e₁.pre (.ownedBy id user) e₁.choice = some (owned, e₁.post) :=
    h₁.exec (hreal e₁ (by simp))
  rcases owned with _ | (_ | _)
  · obtain ⟨rfl, -⟩ := path_throw.mp hp₁
    exact .threw e₁ rfl (by rw [h₁.cmd_eq]; rfl) (statement_threw hx₁)
  · obtain ⟨rfl, hq⟩ := path_ret.mp hp₁
    exact .missing e₁ h₁ rfl hq
  rcases path_call.mp hp₁ with ⟨rfl, rfl⟩ | ⟨e₂, doc, rest₂, -, h₂, rfl, hp₂⟩
  · exact .waiting (by simp [h₁.cmd_eq, Cmd.effect]) fun h => h
  have hx₂ : exec P.lib e₂.pre (.documentById id) e₂.choice = some (doc, e₂.post) :=
    h₂.exec (hreal e₂ (by simp))
  rcases doc with _ | doc
  · obtain ⟨rfl, -⟩ := path_throw.mp hp₂
    exact .threw e₂ rfl (by rw [h₂.cmd_eq]; rfl) (statement_threw hx₂)
  rcases path_call.mp hp₂ with ⟨rfl, rfl⟩ | ⟨e₃, pdf, rest₃, -, h₃, rfl, hp₃⟩
  · exact .waiting (by simp [h₁.cmd_eq, h₂.cmd_eq, Cmd.effect]) fun h => h
  have hx₃ : exec P.lib e₃.pre (.pdfData id) e₃.choice = some (pdf, e₃.post) :=
    h₃.exec (hreal e₃ (by simp))
  rcases pdf with _ | pdf
  · obtain ⟨rfl, -⟩ := path_throw.mp hp₃
    exact .threw e₃ rfl (by rw [h₃.cmd_eq]; rfl) (statement_threw hx₃)
  · exact .read e₁ e₂ e₃ rest₃ doc pdf h₁ h₂ h₃ rfl hp₃

/-- A remove of a known user. -/
inductive Removing (id user : Int) (log : List (ServerEvent τ P)) (q : Action τ Result) : Prop
  | waiting (hlog : ∀ e ∈ log, e.cmd.effect = .none) (hq : ¬ q.Done)
  | threw (e : ServerEvent τ P) (hcmd : e.cmd = .ownedBy id user) (h : e.choice = .threw)
      (hlog : log = [e])
  | missing (e : ServerEvent τ P) (h : e.Is (.ownedBy id user) (some false)) (hlog : log = [e])
      (hq : q = .ret (.response (errorResponse "Not found" 404)))
  | deleted (e₁ e₂ : ServerEvent τ P) (deleted : Option Bool)
      (h₁ : e₁.Is (.ownedBy id user) (some true)) (h₂ : e₂.Is (.deleteDocument id) deleted)
      (hlog : log = [e₁, e₂])
      (hq : q = .ret (.response (if deleted.getD false then
          ⟨200, .json (App.removedResponse id)⟩
        else errorResponse "Failed to delete document" 500)))

omit [Field τ] [LinearOrder τ] [FloorRing τ] in
theorem removeAs_end (id : Int) (deleted : Option Bool) :
    (App.answer (if deleted.getD false then jsonResponse (App.removedResponse id) 200
      else .ret (errorResponse "Failed to delete document" 500)) : Action τ Result) =
    .ret (.response (if deleted.getD false then ⟨200, .json (App.removedResponse id)⟩
      else errorResponse "Failed to delete document" 500)) := by
  rw [jsonResponse_eq (removedResponse_dumpable id)]
  split <;> rfl

theorem removeAs_path (huser : stoi userId = some user)
    (hp : Path (App.answer (App.removeAs id userId)) log q) : Removing id user log q := by
  have hreal := hp.real
  rw [App.removeAs_eq, huser] at hp
  rcases path_call.mp hp with ⟨rfl, rfl⟩ | ⟨e₁, owned, rest₁, -, h₁, rfl, hp₁⟩
  · exact .waiting (by simp) fun h => h
  have hx₁ : exec P.lib e₁.pre (.ownedBy id user) e₁.choice = some (owned, e₁.post) :=
    h₁.exec (hreal e₁ (by simp))
  rcases owned with _ | (_ | _)
  · obtain ⟨rfl, -⟩ := path_throw.mp hp₁
    exact .threw e₁ h₁.cmd_eq (statement_threw hx₁) rfl
  · obtain ⟨rfl, hq⟩ := path_ret.mp hp₁
    exact .missing e₁ h₁ rfl hq
  rcases path_call.mp hp₁ with ⟨rfl, rfl⟩ | ⟨e₂, deleted, rest₂, -, h₂, rfl, hp₂⟩
  · exact .waiting (by simp [h₁.cmd_eq, Cmd.effect]) fun h => h
  change Path (App.answer (if Option.getD deleted false then _ else _)) rest₂ q at hp₂
  rw [removeAs_end] at hp₂
  obtain ⟨rfl, hq⟩ := path_ret.mp hp₂
  exact .deleted e₁ e₂ deleted h₁ h₂ rfl hq

end Progress

/-! ### Signing -/

/-- The thread is a sign request whose insert has been answered. -/
structure Stored (th : Thread (server τ P)) where
  header : HttpRequest
  request : th.req = .sign header
  file : FilePart
  uploaded : App.upload header = .ok file
  user : Int
  owner : Authenticated th user
  key : PKey
  key_eq : P.signer.signingKey = some key
  signature : Bytes
  signed : ServerEvent τ P
  signed_is : signed.Is (.digestSign key file.content) (some signature)
  reply : Option Int
  saved : ServerEvent τ P
  saved_is : saved.Is (.insertDocument user (App.storedName file)
    (base64Encode P.lib file.content) (base64Encode P.lib signature)
    (sha256Hex P.lib file.content)) reply
  log : owner.rest = [signed, saved]
  rest_eq : th.rest = App.answer (if reply.getD (-1) < 0 then
      .ret (errorResponse "Failed to persist document" 500)
    else jsonResponse (App.signedResponse (reply.getD (-1)) (App.storedName file)
      (sha256Hex P.lib file.content) (base64Encode P.lib signature)) 201)

/-- The thread has changed nothing and has not answered 201. -/
def Silent (th : Thread (server τ P)) : Prop :=
  (∀ e ∈ th.log, e.cmd.effect = .none) ∧ ∀ body, th.rest ≠ .ret (.response ⟨201, body⟩)

theorem LetIn.silent {th : Thread (server τ P)} (l : LetIn th)
    (hrest : ∀ e ∈ l.rest, e.cmd.effect = .none)
    (hend : ∀ body, th.rest ≠ .ret (.response ⟨201, body⟩)) : Silent th := by
  refine ⟨?_, hend⟩
  intro e he
  by_contra hne
  exact hne (hrest e (l.mem_rest he hne))

/-- **How a sign request goes.** -/
theorem sign_path {th : Thread (server τ P)} (hp : Path (P.program th.req) th.log th.rest)
    {header : HttpRequest} (hreq : th.req = .sign header) : Silent th ∨ Nonempty (Stored th) := by
  have hg : App.guarded P th.req = some (header, (P.signAs header : Bytes → Action τ _)) := by
    rw [hreq]
    rfl
  rcases guarded_path hp hg with ⟨hall, hend⟩ | ⟨l, hbody⟩
  · refine Or.inl ⟨?_, ?_⟩
    · intro e he
      rcases hall e he with hcmd | ⟨key, hcmd⟩
      · rw [hcmd]
        rfl
      · rw [hcmd]
        rfl
    · rcases hend with ⟨c, k, hq⟩ | hq
      · simp [hq]
      · simp [hq, errorResponse]
  have hpath := l.path
  rw [hbody] at hpath
  cases signAs_path hpath with
  | refused response hup hlog hq =>
      refine Or.inl (l.silent (by simp [hlog]) ?_)
      intro body h
      rw [hq] at h
      have hresp := Result.response.inj (Program.ret.inj h)
      rcases upload_refused hup with hstatus | hstatus <;> rw [hresp] at hstatus <;> cases hstatus
  | keyless hkey hlog hq =>
      exact Or.inl (l.silent (by simp [hlog]) (by simp [hq, errorResponse]))
  | asked hlog hq =>
      exact Or.inl (l.silent (by simp [hlog]) fun body h => hq (by rw [h]; exact trivial))
  | failed e key data h hlog hq =>
      exact Or.inl (l.silent (by simp [hlog, h.cmd_eq, Cmd.effect]) (by simp [hq, errorResponse]))
  | nobody e key data signature h huser hlog hq =>
      exact Or.inl (l.silent (by simp [hlog, h.cmd_eq, Cmd.effect]) (by simp [hq]))
  | signed e key data signature h hlog hq =>
      exact Or.inl (l.silent (by simp [hlog, h.cmd_eq, Cmd.effect])
        fun body h => hq (by rw [h]; exact trivial))
  | stored file key user signature reply e₁ e₂ hup hkey huser h₁ h₂ hlog hq =>
      exact Or.inr ⟨⟨header, hreq, file, hup, user, ⟨l, huser⟩, key, hkey, signature, e₁, h₁, reply,
        e₂, h₂, hlog, hq⟩⟩

/-- The one command of a stored document's request that has an effect. -/
theorem Stored.eq_saved {th : Thread (server τ P)} (l : Stored th) {e : ServerEvent τ P}
    (he : e ∈ th.log) (hne : e.cmd.effect ≠ .none) : e = l.saved := by
  have hmem := l.owner.mem_rest he hne
  rw [l.log] at hmem
  rcases List.mem_pair.mp hmem with rfl | rfl
  · rw [l.signed_is.cmd_eq] at hne
    exact absurd rfl hne
  · rfl

theorem Stored.log_eq {th : Thread (server τ P)} (l : Stored th) :
    th.log = [l.owner.clock, l.owner.looked, l.signed, l.saved] := by
  rw [l.owner.log, l.log]

/-- The signature is one of the signer's key. -/
theorem Stored.signature_eq {th : Thread (server τ P)} (l : Stored th)
    (hp : Path (P.program th.req) th.log th.rest) :
    ∃ r, P.lib.digestSign l.key r l.file.content = some l.signature := by
  have hsigned := exec_of_mem hp (by rw [l.log_eq]; simp) l.signed_is
  rcases (randomized_cases hsigned).2 with hnone | ⟨r, -, hr⟩
  · cases hnone
  · exact ⟨r, hr.symm⟩

/-- What a 201 says of a stored document. -/
theorem Stored.body_eq {th : Thread (server τ P)} (l : Stored th) {body : Body}
    (hans : th.rest = .ret (.response ⟨201, body⟩)) :
    ∃ n, l.reply = some n ∧ body = .json (App.signedResponse n (App.storedName l.file)
      (sha256Hex P.lib l.file.content) (base64Encode P.lib l.signature)) := by
  have hrest := l.rest_eq
  rw [hans] at hrest
  by_cases hneg : l.reply.getD (-1) < 0
  · rw [if_pos hneg] at hrest
    cases hrest
  · rw [if_neg hneg] at hrest
    unfold jsonResponse at hrest
    split at hrest
    · have hbody := congrArg HttpResponse.body (Result.response.inj (Program.ret.inj hrest))
      cases hreply : l.reply with
      | none =>
          rw [hreply] at hneg
          exact absurd (by decide) hneg
      | some n =>
          rw [hreply, Option.getD_some] at hbody
          exact ⟨n, rfl, hbody⟩
    · cases hrest

/-! ### Removing -/

/-- **A delete is the end of a remove request**, which answers 200 if a row was deleted. -/
theorem remove_of_mem {th : Thread (server τ P)} (hp : Path (P.program th.req) th.log th.rest)
    {e : ServerEvent τ P} (he : e ∈ th.log) {id : Int} {reply : Option Bool}
    (hx : e.Is (.deleteDocument id) reply) :
    ∃ header, th.req = .remove header id ∧
      (reply = some true → th.rest = .ret (.response ⟨200, .json (App.removedResponse id)⟩)) := by
  have hne : e.cmd.effect ≠ .none := by
    rw [hx.cmd_eq]
    intro h
    cases h
  obtain ⟨header, id', hreq⟩ := Request.eq_remove (r := th.req) (by
    rw [effect_of_mem hp he hne, hx.cmd_eq]
    rfl)
  have hg : App.guarded P th.req = some (header, (App.removeAs id' : Bytes → Action τ _)) := by
    rw [hreq]
    rfl
  rcases guarded_path hp hg with ⟨hall, -⟩ | ⟨l, hbody⟩
  · rcases hall e he with hcmd | ⟨key, hcmd⟩
    · rw [hcmd] at hne
      exact absurd rfl hne
    · rw [hcmd] at hne
      exact absurd rfl hne
  have hmem := l.mem_rest he hne
  have hpath := l.path
  rw [hbody] at hpath
  cases huser : stoi l.userId with
  | none =>
      rw [App.removeAs_eq, huser] at hpath
      rw [(path_throw.mp hpath).1] at hmem
      cases hmem
  | some user =>
      cases removeAs_path huser hpath with
      | waiting hlog _ => exact absurd (hlog e hmem) hne
      | threw e₁ hcmd _ hlog =>
          obtain rfl : e = e₁ := by simpa [hlog] using hmem
          rw [hcmd] at hne
          exact absurd rfl hne
      | missing e₁ h hlog _ =>
          obtain rfl : e = e₁ := by simpa [hlog] using hmem
          rw [h.cmd_eq] at hne
          exact absurd rfl hne
      | deleted e₁ e₂ deleted h₁ h₂ hlog hq =>
          rw [hlog] at hmem
          rcases List.mem_pair.mp hmem with rfl | rfl
          · rw [h₁.cmd_eq] at hne
            exact absurd rfl hne
          obtain rfl : id' = id := Cmd.deleteDocument.inj (h₂.cmd_eq.symm.trans hx.cmd_eq)
          obtain rfl : deleted = reply := h₂.inj hx
          refine ⟨header, hreq, ?_⟩
          rintro rfl
          exact hq

/-! ### Reading -/

/-- A read whose document is there at every statement comes to what is done with it. -/
theorem readOwned_shows {id user : Int} {found : Document → Bytes → Action τ HttpResponse}
    {log : List (ServerEvent τ P)} {q : Action τ Result} {d : Document}
    (hp : Path (App.answer (App.readOwned id user found)) log q) (hdone : q.Done)
    (hserved : ∀ e ∈ log, e.choice ≠ .threw) (hrow : ∀ e ∈ log, d ∈ e.pre.docs.rows)
    (hid : d.id = id) (huser : d.userId = user) :
    ∃ rest : List (ServerEvent τ P), Path (App.answer (found d d.pdfData)) rest q := by
  cases readOwned_path hp with
  | waiting _ hq => exact absurd hdone hq
  | threw e hlast _ h => exact absurd h (hserved e (List.mem_of_getLast? hlast))
  | missing e h hlog _ =>
      have he : e ∈ log := by simp [hlog]
      have hfound := (exec_ownedBy (exec_of_mem hp he h)).mpr ⟨d, hrow e he, hid, huser⟩
      cases hfound
  | read e₁ e₂ e₃ rest doc pdf h₁ h₂ h₃ hlog hrest =>
      have he₂ : e₂ ∈ log := by simp [hlog]
      have he₃ : e₃ ∈ log := by simp [hlog]
      have hdoc := exec_documentById (exec_of_mem hp he₂ h₂)
      have hpdf := exec_pdfData (exec_of_mem hp he₃ h₃)
      rw [← hid, DocsTable.byId_of_mem (hrow e₂ he₂)] at hdoc
      rw [← hid, DocsTable.byId_of_mem (hrow e₃ he₃)] at hpdf
      rw [hdoc, hpdf] at hrest
      exact ⟨rest, hrest⟩

theorem listed_dumpable {L : Lib} {d : Document} (hname : utf8 d.filename = true)
    (hsha : utf8 d.sha256Hash = true) (htime : utf8 (L.timestampText d.signedAt) = true) :
    (App.listed L d).dumpable = true := by
  have hkeys : utf8 (ascii "id") = true ∧ utf8 (ascii "filename") = true ∧
      utf8 (ascii "sha256") = true ∧ utf8 (ascii "signed_at") = true := by decide
  simp only [App.listed, Json.dumpable_object, List.all_cons, List.all_nil, Json.dumpable, hkeys,
    hname, hsha, htime, Bool.and_true]

theorem verifiedResponse_dumpable {id : Int} {d : Document} {valid : Bool}
    (hname : utf8 d.filename = true) (hsha : utf8 d.sha256Hash = true) :
    (App.verifiedResponse id d valid).dumpable = true := by
  have hkeys : utf8 (ascii "doc_id") = true ∧ utf8 (ascii "valid") = true ∧
      utf8 (ascii "algorithm") = true ∧ utf8 (ascii "ML-DSA-65") = true ∧
      utf8 (ascii "filename") = true ∧ utf8 (ascii "sha256") = true := by decide
  simp only [App.verifiedResponse, Json.dumpable_object, List.all_cons, List.all_nil, Json.text,
    Json.dumpable, hkeys, hname, hsha, Bool.and_true]

/-- A list whose rows can be dumped answers with the user's rows. -/
theorem listAs_path {userId : Bytes} {user : Int} (huser : stoi userId = some user)
    {log : List (ServerEvent τ P)} {q : Action τ Result}
    (hp : Path (App.answer (P.listAs userId)) log q) (hdone : q.Done)
    (hserved : ∀ e ∈ log, e.choice ≠ .threw)
    (hdump : ∀ e ∈ log, ∀ d ∈ e.pre.docs.rows, (App.listed P.lib d).dumpable = true) :
    ∃ e ∈ log, ∃ docs : List Document, docs.Perm (e.pre.own user) ∧
      q = .ret (.response ⟨200, .json (.object [("documents",
        .arr (docs.map (App.listed P.lib)))])⟩) := by
  simp only [App.listAs_eq, huser] at hp
  rcases path_call.mp hp with ⟨-, hq⟩ | ⟨e, docs, rest, hx, he, rfl, hp₁⟩
  · rw [hq] at hdone
    exact hdone.elim
  have hx : exec P.lib e.pre (.documentsByUser user) e.choice = some (docs, e.post) := he.exec hx
  rcases docs with _ | docs
  · exact absurd (statement_threw hx) (hserved e (by simp))
  have hperm := exec_documentsByUser hx
  have hall : (Json.object [("documents", .arr (docs.map (App.listed P.lib)))]).dumpable =
      true := by
    have hkey : utf8 (ascii "documents") = true := by decide
    rw [Json.dumpable_object, List.all_cons, List.all_nil, hkey, Bool.true_and, Bool.and_true]
    show Json.dumpableItems _ = true
    rw [Json.dumpableItems_eq_all, List.all_map, List.all_eq_true]
    intro d hd
    exact hdump e (by simp) d (List.mem_filter.mp (hperm.subset hd)).1
  dsimp only at hp₁
  rw [jsonResponse_eq hall] at hp₁
  exact ⟨e, by simp, docs, hperm, (path_ret.mp hp₁).2⟩

end PqcApi
