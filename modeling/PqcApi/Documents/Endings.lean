/-
How document requests end.

A handler answers 500 where the signer or an insert has failed, and otherwise not, as long as
no delete finds its row gone and no name is stored that cannot be dumped.  The removes of one
document then agree on who has removed it.
-/
import PqcApi.Documents.Door
import PqcApi.Documents.Store

namespace PqcApi

open Concurrent

variable {τ : Type} [Field τ] [LinearOrder τ] [FloorRing τ] {P : App}

/-! ### Status 500 -/

/-- The client gets status 500: the handler answers so, or it throws and the framework does. -/
def Is500 (q : Action τ Result) : Prop :=
  (∃ body, q = .ret (.response ⟨500, body⟩)) ∨ ∃ e, q = .throw e

/-- The signing routine has failed, or the database has refused an insert. -/
def Failed (e : DeskEvent τ P) : Prop :=
  (∃ key data, e.Is (.digestSign key data) none) ∨
    ∃ user filename pdf sig sha, e.Is (.insertDocument user filename pdf sig sha) none

/-- The signer has no key to sign with, or none to verify with. -/
def DilithiumSigner.Keyless (s : DilithiumSigner) : Prop :=
  s.signingKey = none ∨ s.publicPart = none

omit [Field τ] [LinearOrder τ] [FloorRing τ] in
theorem is500_ret {r : HttpResponse} : Is500 (.ret (.response r) : Action τ Result) ↔
    r.status = 500 := by
  constructor
  · rintro (⟨body, h⟩ | ⟨e, h⟩)
    · rw [Result.response.inj (Program.ret.inj h)]
    · cases h
  · intro h
    exact Or.inl ⟨r.body, by rw [← h]⟩

omit [Field τ] [LinearOrder τ] [FloorRing τ] in
theorem Is500.done {q : Action τ Result} (h : Is500 q) : q.Done := by
  rcases h with ⟨body, rfl⟩ | ⟨e, rfl⟩ <;> exact trivial

section Ends

variable {userId : Bytes} {user : Int} {log : List (DeskEvent τ P)} {q : Action τ Result}

/-- An upload fails only where the signer or the insert does. -/
theorem signAs_ends (hL : P.lib.StoresDocuments) (hu : stoi userId = some user) {req : HttpRequest}
    (hp : Path (App.answer (P.signAs req userId)) log q)
    (hcalm : ∀ e ∈ log, Calm e.pre e.cmd e.choice) (hq : Is500 q) :
    P.signer.Keyless ∨ ∃ e ∈ log, Failed e := by
  cases signAs_path hp with
  | refused response hup _ hend =>
      rw [hend, is500_ret] at hq
      rcases upload_refused hup with hstatus | hstatus <;> rw [hstatus] at hq <;> cases hq
  | keyless hkey _ _ => exact Or.inl (Or.inl hkey)
  | asked _ hbusy => exact absurd hq.done hbusy
  | failed e key data h hlog _ => exact Or.inr ⟨e, by simp [hlog], Or.inl ⟨key, data, h⟩⟩
  | nobody _ _ _ _ _ huser _ _ =>
      rw [hu] at huser
      cases huser
  | signed _ _ _ _ _ _ hbusy => exact absurd hq.done hbusy
  | stored file key _ signature reply e₁ e₂ _ _ _ h₁ h₂ hlog hend =>
      have he₁ : e₁ ∈ log := by simp [hlog]
      have he₂ : e₂ ∈ log := by simp [hlog]
      rcases reply with _ | n
      · exact Or.inr ⟨e₂, he₂, Or.inr ⟨_, _, _, _, _, h₂⟩⟩
      -- the row is stored, and what is said of it can be dumped
      obtain ⟨-, hn, -, hstored⟩ := exec_insertDocument_some (exec_of_mem hp he₂ h₂)
      have hname := (hcalm e₂ he₂).name _ _ _ _ _ h₂.cmd_eq hstored
      have hsig : utf8 (base64Encode P.lib signature) = true := by
        rcases (randomized_cases (exec_of_mem hp he₁ h₁)).2 with hnone | ⟨r, -, hr⟩
        · cases hnone
        · exact (hL.base64 _ (hL.signature _ _ _ _ hr.symm)).utf8
      have hdump : (App.signedResponse n (App.storedName file) (sha256Hex P.lib file.content)
          (base64Encode P.lib signature)).dumpable = true := by
        rw [signedResponse_dumpable, hname, sha256Hex, utf8_hex, hsig]
        rfl
      have hpos : ¬ n < 0 := by
        have := e₂.pre.docs.seq_le.1
        omega
      rw [Option.getD_some, if_neg hpos, jsonResponse_eq hdump] at hend
      rw [hend] at hq
      cases is500_ret.mp hq

/-- A list does not fail. -/
theorem listAs_ends (hL : P.lib.StoresDocuments) (hu : stoi userId = some user)
    (hp : Path (App.answer (P.listAs userId)) log q)
    (hcalm : ∀ e ∈ log, Calm e.pre e.cmd e.choice) (hrows : ∀ e ∈ log, e.pre.Dumpable) :
    ¬ Is500 q := by
  intro hq
  have hserved : ∀ e ∈ log, e.choice ≠ .threw := by
    have honly : (App.answer (P.listAs userId : Action τ _)).Only fun cmd : Cmd =>
        cmd.onDocuments = true := by
      rw [App.listAs_eq, hu]
      refine ⟨rfl, fun reply => ?_⟩
      rcases reply with _ | docs
      · exact trivial
      · dsimp only
        unfold jsonResponse
        split <;> exact trivial
    intro e he
    exact (hcalm e he).answered ((Path.only hp honly).1 e he)
  obtain ⟨e, -, docs, -, hend⟩ := listAs_path hu hp hq.done hserved fun e he d hd =>
    listed_dumpable (hrows e he d hd).1 (hrows e he d hd).2 (hL.timestamp _)
  rw [hend, is500_ret] at hq
  cases hq

/-- The reads fail only in what is done with the row, which is one that was there. -/
theorem readOwned_ends {id : Int} {found : Document → Bytes → Action τ HttpResponse}
    (hfound : ∀ (e : DeskEvent τ P) d pdf rest, e ∈ log → d ∈ e.pre.docs.rows →
      Path (App.answer (found d pdf)) (M := (desk τ P).toMachine) rest q → ¬ Is500 q)
    (hp : Path (App.answer (App.readOwned id user found)) log q)
    (hcalm : ∀ e ∈ log, Calm e.pre e.cmd e.choice) : ¬ Is500 q := by
  intro hq
  cases readOwned_path hp with
  | waiting _ hbusy => exact hbusy hq.done
  | threw e hlast hcmd h => exact (hcalm e (List.mem_of_getLast? hlast)).answered hcmd h
  | missing e h _ hend =>
      rw [hend, is500_ret] at hq
      cases hq
  | read e₁ e₂ e₃ rest doc pdf h₁ h₂ h₃ hlog hrest =>
      have he₂ : e₂ ∈ log := by simp [hlog]
      have hmissing : Path (App.answer (.ret (errorResponse "Not found" 404) :
          Action τ HttpResponse)) rest q → False := by
        intro hp
        rw [(path_ret.mp hp).2, is500_ret] at hq
        cases hq
      rcases doc with _ | doc
      · exact hmissing hrest
      rcases pdf with _ | pdf
      · exact hmissing hrest
      have hd := (DocsTable.byId_some (exec_documentById (exec_of_mem hp he₂ h₂)).symm).1
      exact hfound e₂ doc pdf rest he₂ hd hrest hq

/-- A remove that ends answers 200 for a row it has deleted, or that it found none. -/
theorem removeAs_ends (hu : stoi userId = some user) {id : Int}
    (hp : Path (App.answer (App.removeAs id userId)) log q)
    (hanswered : ∀ e ∈ log, NoThrow e.pre e.cmd e.choice)
    (hthere : ∀ e ∈ log, e.cmd = .deleteDocument id → (e.pre.docs.byId id).isSome)
    (hdone : q.Done) :
    (q = .ret (.response ⟨200, .json (App.removedResponse id)⟩) ∧
      ∃ e ∈ log, e.Is (.deleteDocument id) (some true)) ∨
    (q = .ret (.response (errorResponse "Not found" 404)) ∧
      ∃ e ∈ log, e.Is (.ownedBy id user) (some false)) := by
  cases removeAs_path hu hp with
  | waiting _ hbusy => exact absurd hdone hbusy
  | threw e hcmd h hlog =>
      exact absurd h (hanswered e (by simp [hlog]) (by rw [hcmd]; rfl))
  | missing e h hlog hend => exact Or.inr ⟨hend, e, by simp [hlog], h⟩
  | deleted e₁ e₂ deleted _ h₂ hlog hend =>
      have he₂ : e₂ ∈ log := by simp [hlog]
      have hx₂ := exec_of_mem hp he₂ h₂
      rcases exec_deleteDocument hx₂ with ⟨hreply, -⟩ | ⟨hreply, -⟩
      · rw [hthere e₂ he₂ h₂.cmd_eq] at hreply
        rw [hreply, Option.getD_some, if_pos rfl] at hend
        exact Or.inl ⟨hend, e₂, he₂, hreply ▸ h₂⟩
      · rw [hreply] at hx₂
        exact absurd (statement_threw hx₂) (hanswered e₂ he₂ (by rw [h₂.cmd_eq]; rfl))

/-- **What 500 means**: the signer has no key, or a statement or a signature has failed. -/
theorem serve_ends (hL : P.lib.StoresDocuments) (hu : stoi userId = some user) {call : DocumentCall}
    (hp : Path (App.answer (P.serve userId call)) log q)
    (hcalm : ∀ e ∈ log, Calm e.pre e.cmd e.choice) (hrows : ∀ e ∈ log, e.pre.Dumpable)
    (hq : Is500 q) : P.signer.Keyless ∨ ∃ e ∈ log, Failed e := by
  cases call with
  | sign req => exact signAs_ends hL hu hp hcalm hq
  | list => exact absurd hq (listAs_ends hL hu hp hcalm hrows)
  | download id =>
      have hp : Path (App.answer (P.downloadAs id userId)) log q := hp
      rw [App.downloadAs_eq, hu] at hp
      refine absurd hq (readOwned_ends ?_ hp hcalm)
      intro e d pdf rest _ _ hp hq
      rw [(path_ret.mp hp).2, is500_ret] at hq
      cases hq
  | verify id =>
      have hp : Path (App.answer (P.verifyAs id userId)) log q := hp
      rw [App.verifyAs_eq, hu] at hp
      cases hkey : P.signer.publicPart with
      | none => exact Or.inl (Or.inr hkey)
      | some key =>
          refine absurd hq (readOwned_ends ?_ hp hcalm)
          intro e d pdf rest he hd hp hq
          obtain ⟨hname, hsha⟩ := hrows e he d hd
          rw [App.judge, DilithiumSigner.verify_of_publicPart hkey] at hp
          dsimp only at hp
          rw [jsonResponse_eq (verifiedResponse_dumpable hname hsha)] at hp
          rw [(path_ret.mp hp).2, is500_ret] at hq
          cases hq
  | remove id =>
      rcases removeAs_ends hu hp (fun e he => (hcalm e he).answered)
        (fun e he => (hcalm e he).there id) hq.done with ⟨rfl, -⟩ | ⟨rfl, -⟩
      · rw [is500_ret] at hq
        cases hq
      · rw [is500_ret] at hq
        cases hq

end Ends

/-! ### Deletes -/

/-- The id is past, and has no row. -/
def World.Gone (id : Int) (w : World τ) : Prop := id ≤ w.docs.seq ∧ w.docs.byId id = none

omit [Field τ] [LinearOrder τ] [FloorRing τ] in
theorem World.Gone.later {id : Int} {w w' : World τ} (h : w.Gone id) (hle : DocsLe w w') :
    w'.Gone id := by
  refine ⟨le_trans h.1 hle.1, ?_⟩
  by_contra hne
  obtain ⟨d, hd⟩ := Option.ne_none_iff_exists'.mp hne
  obtain ⟨hmem, hid⟩ := DocsTable.byId_some hd
  rcases hle.2 d hmem with hold | hlt
  · exact DocsTable.byId_none h.2 d hold hid
  · have hpast := h.1
    omega

/-- A delete that finds its row is the end of it. -/
theorem gone_of_delete {w w' : World τ} {id : Int} {ch : Choice} {L : Lib}
    (h : exec L w (.deleteDocument id) ch = some (some true, w')) : ¬ w.Gone id ∧ w'.Gone id := by
  rcases exec_deleteDocument h with ⟨hfound, rfl⟩ | ⟨hnone, -⟩
  · obtain ⟨d, hd⟩ := Option.isSome_iff_exists.mp (Option.some.inj hfound).symm
    obtain ⟨hmem, rfl⟩ := DocsTable.byId_some hd
    refine ⟨?_, (w.docs.ids d hmem).2, ?_⟩
    · rintro ⟨-, hnone⟩
      rw [hnone] at hd
      cases hd
    · by_contra hne
      obtain ⟨d', hd'⟩ := Option.ne_none_iff_exists'.mp hne
      obtain ⟨hmem', hid⟩ := DocsTable.byId_some hd'
      exact (DocsTable.mem_delete.mp hmem').2 hid
  · cases hnone

section Deletes

variable {who : Nat → Bytes} {w : World τ} {c : Config (server τ P)} {i : Nat}
  {th : Thread (server τ P)}

/-- The handler's own part of a request that has ended. -/
theorem Admitted.served (hc : Admitted who c) (hi : c.threads[i]? = some th) (hdone : th.rest.Done)
    {call : DocumentCall} (hcall : th.req.call = some call) :
    ∃ (user : Int) (log : List (DeskEvent τ P)), stoi (who i) = some user ∧
      (∀ e ∈ log, e ∈ th.log) ∧
      Path (App.answer (P.serve (who i) call)) log th.rest := by
  obtain ⟨-, hdoor, hpast⟩ := hc i th hi
  have hlen : 2 ≤ th.log.length := by
    by_contra hlt
    exact hdoor (Nat.not_le.mp hlt) hdone
  obtain ⟨user, l, hwho⟩ := hpast hlen
  obtain ⟨header, hg⟩ := guarded_call (τ := τ) (P := P) hcall
  have hpath := l.path
  rw [l.body_eq hg, hwho] at hpath
  exact ⟨user, l.rest, hwho ▸ l.user_eq, fun e he => l.mem_log he, hpath⟩

/-- How a remove ends in a run where no delete is late. -/
theorem removed_or_missing (hrun : Reach (Under Calm) (Config.fresh w) c) (hc : Admitted who c)
    (hi : c.threads[i]? = some th) {header : HttpRequest} {id : Int}
    (hreq : th.req = .remove header id) (hdone : th.rest.Done) :
    (th.rest = .ret (.response ⟨200, .json (App.removedResponse id)⟩) ∧
      ∃ e ∈ th.log, e.Is (.deleteDocument id) (some true)) ∨
    (th.rest = .ret (.response (errorResponse "Not found" 404)) ∧
      ∃ user, stoi (who i) = some user ∧ ∃ e ∈ th.log, e.Is (.ownedBy id user) (some false)) := by
  have hcall : th.req.call = some (.remove id) := by
    rw [hreq]
    rfl
  obtain ⟨user, log, huser, hlog, hp⟩ := hc.served hi hdone hcall
  have hcalm := hrun.under hi
  rcases removeAs_ends huser hp (fun e he => (hcalm e (hlog e he)).answered)
    (fun e he => (hcalm e (hlog e he)).there id) hdone with ⟨hq, e, he, hx⟩ | ⟨hq, e, he, hx⟩
  · exact Or.inl ⟨hq, e, hlog e he, hx⟩
  · exact Or.inr ⟨hq, user, huser, e, hlog e he, hx⟩

/-- **A row is deleted once.** -/
theorem removed_once (hrun : Reach (Under Calm) (Config.fresh w) c) (hc : Admitted who c) {j : Nat}
    {th' : Thread (server τ P)} (hi : c.threads[i]? = some th) (hj : c.threads[j]? = some th')
    {header header' : HttpRequest} {id : Int} (hreq : th.req = .remove header id)
    (hreq' : th'.req = .remove header' id)
    (hq : th.rest = .ret (.response ⟨200, .json (App.removedResponse id)⟩))
    (hq' : th'.rest = .ret (.response ⟨200, .json (App.removedResponse id)⟩)) : i = j := by
  have hdeleted : ∀ {i : Nat} {th : Thread (server τ P)} {header : HttpRequest},
      c.threads[i]? = some th → th.req = .remove header id →
      th.rest = .ret (.response ⟨200, .json (App.removedResponse id)⟩) →
      ∃ e ∈ th.log, e.pre.Gone id < True ∧ True ≤ e.post.Gone id := by
    intro i th header hi hreq hq
    rcases removed_or_missing hrun hc hi hreq (by rw [hq]; exact trivial) with
      ⟨-, e, he, hx⟩ | ⟨hmissing, -⟩
    · have hp := hrun.path_at hi
      obtain ⟨hpre, hpost⟩ := gone_of_delete (exec_of_mem hp he hx)
      exact ⟨e, he, lt_iff_le_not_ge.mpr ⟨fun _ => trivial, fun h => hpre (h trivial)⟩,
        fun _ => hpost⟩
    · rw [hmissing] at hq
      cases hq
  obtain ⟨e, he, hgone⟩ := hdeleted hi hreq hq
  obtain ⟨e', he', hgone'⟩ := hdeleted hj hreq' hq'
  exact hrun.once (f := World.Gone id) (fun _ hs h => h.later (docsLe_next hs)) hi hj he he' hgone
    hgone'

/-- **A row is deleted** once its owner has asked for it, by one request or another. -/
theorem removed_of_owner {b : Config (server τ P)} (hb : Reach (Under Calm) (Config.fresh w) b)
    (hbc : Reach (Under Calm) b c) (hc : Admitted who c) {d : Document} (hd : d ∈ b.world.docs.rows)
    (hi : c.threads[i]? = some th) (hlate : b.threads.length ≤ i) {header : HttpRequest}
    (hreq : th.req = .remove header d.id) (huser : stoi (who i) = some d.userId)
    (hdone : th.rest.Done) : Removed c d.id := by
  by_contra hnone
  have hsound := hb.path (Config.fresh_sound w)
  rcases removed_or_missing (hb.trans hbc) hc hi hreq hdone with ⟨hq, -⟩ |
    ⟨-, user, huser', e, he, hx⟩
  · exact hnone ⟨i, header, th, hi, hreq, hq⟩
  · rw [huser, Option.some.injEq] at huser'
    subst huser'
    have hrow := row_seen hsound hbc hd hnone hlate hi e he
    have hp := (hb.trans hbc).path_at hi
    have hfound := (exec_ownedBy (exec_of_mem hp he hx)).mpr ⟨d, hrow, rfl, rfl⟩
    cases hfound

/-- What the removes of a document come to together: each answers 200 or 404, no two of them
200, and one of them 200 if its owner has asked for it while it was there. -/
structure RemovesAgree (who : Nat → Bytes) (past : List (Config (server τ P)))
    (c : Config (server τ P)) (id : Int) : Prop where
  answers : ∀ (i : Nat) (th : Thread (server τ P)) (header : HttpRequest),
    c.threads[i]? = some th → th.req = .remove header id → th.rest.Done →
    th.rest = .ret (.response ⟨200, .json (App.removedResponse id)⟩) ∨
      th.rest = .ret (.response (errorResponse "Not found" 404))
  once : ∀ (i j : Nat) (th th' : Thread (server τ P)) (header header' : HttpRequest),
    c.threads[i]? = some th → c.threads[j]? = some th' → th.req = .remove header id →
    th'.req = .remove header' id →
    th.rest = .ret (.response ⟨200, .json (App.removedResponse id)⟩) →
    th'.rest = .ret (.response ⟨200, .json (App.removedResponse id)⟩) → i = j
  owner : ∀ b ∈ past, ∀ d ∈ b.world.docs.rows, d.id = id →
    ∀ (i : Nat) (th : Thread (server τ P)) (header : HttpRequest), b.threads.length ≤ i →
    c.threads[i]? = some th → th.req = .remove header id → stoi (who i) = some d.userId →
    th.rest.Done → Removed c id

theorem removes_agree {past : List (Config (server τ P))}
    (hrun : Visits (Under Calm) (Config.fresh w) past c) (hc : Admitted who c) (id : Int) :
    RemovesAgree who past c id where
  answers i th header hi hreq hdone :=
    (removed_or_missing hrun.reach hc hi hreq hdone).imp And.left And.left
  once i j th th' header header' hi hj hreq hreq' hq hq' :=
    removed_once hrun.reach hc hi hj hreq hreq' hq hq'
  owner b hb d hd hid i th header hlate hi hreq huser hdone := by
    subst hid
    obtain ⟨hfirst, hlast⟩ := hrun.between b hb
    exact removed_of_owner hfirst hlast hc hd hi hlate hreq huser hdone

end Deletes

end PqcApi
