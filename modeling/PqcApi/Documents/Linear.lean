/-
Document requests are linearizable, but for a delete that comes too late.

At the desk every request takes effect at its last statement, as long as no delete finds that
another request's has been quicker.  That delete answers 500 where a request served later
answers 404, and nothing has failed.
-/
import PqcApi.Documents.Endings

namespace PqcApi

open Concurrent

variable {τ : Type} [Field τ] [LinearOrder τ] [FloorRing τ] {P : App}

/-! ### The same answers in some order -/

/-- The request `th'` of the desk is the `i`-th of the server, with its answer if it has one. -/
def AnswersAs (who : Nat → Bytes) (c : Config (server τ P)) (i : Nat) (th' : Thread (desk τ P)) :
    Prop :=
  ∃ th call, c.threads[i]? = some th ∧ th.req.call = some call ∧ th'.req = (who i, call) ∧
    (th.rest.Done → th'.rest = th.rest)

/-- `order` lists requests of the run, all that have ended among them, and one that had ended
before another began ahead of it.  Served one after another in this order they get the answers
of the run and leave its world. -/
structure Linearized (who : Nat → Bytes) (w : World τ) (past : List (Config (server τ P)))
    (c : Config (server τ P)) (order : List Nat) (served : List (Thread (desk τ P))) : Prop where
  nodup : order.Nodup
  finished : ∀ (i : Nat) (th : Thread (server τ P)), c.threads[i]? = some th → th.rest.Done →
    i ∈ order
  realTime : ∀ b ∈ past, ∀ (i : Nat) (th : Thread (server τ P)), b.threads[i]? = some th →
    th.rest.Done → ∀ j ∈ order, b.threads.length ≤ j → [i, j].Sublist order
  answers : List.Forall₂ (AnswersAs who c) order served
  sequential : Reach (Y := desk τ P) (fun b s => OneAtATime b s ∧ Under NoThrow b s)
    (Config.fresh w) ⟨c.world, served⟩

/-- The answer of a request among those served. -/
theorem Linearized.answer {who : Nat → Bytes} {w : World τ} {past : List (Config (server τ P))}
    {c : Config (server τ P)} {order : List Nat} {served : List (Thread (desk τ P))}
    (h : Linearized who w past c order served) {i : Nat} (hi : i ∈ order) :
    ∃ th' ∈ served, AnswersAs who c i th' := by
  have hanswers := h.answers
  clear h
  induction hanswers with
  | nil => cases hi
  | cons hhead _ ih =>
      rcases List.mem_cons.mp hi with rfl | hmem
      · exact ⟨_, List.mem_cons_self, hhead⟩
      · obtain ⟨th', hth', hans⟩ := ih hmem
        exact ⟨th', List.mem_cons_of_mem _ hth', hans⟩

/-- **Every calm run is linearized** by what the desk sees of it. -/
theorem calm_linearized {w : World τ} {past : List (Config (server τ P))} {c : Config (server τ P)}
    (hrun : Visits (Under Calm) (Config.fresh w) past c) {who : Nat → Bytes} (hc : Admitted who c) :
    ∃ order served, Linearized who w past c order served := by
  obtain ⟨past', d, hd, hseen, hpast⟩ := desk_sees hrun hc
  obtain ⟨order, served, hcalm⟩ := linearizable (desk_commits w) hd
  have h : Linearizes (Y := desk τ P) NoThrow w past' d order served :=
    hcalm.mono fun _ _ _ hch => hch.answered
  refine ⟨order, served, h.nodup, ?_, ?_, h.answers.imp ?_, hseen.world ▸ h.sequential⟩
  · intro i th hi hdone
    obtain ⟨th', hth', hrest⟩ := hseen.ended hc hi hdone
    exact (h.finished i).mpr ⟨th', hth', hrest ▸ hdone⟩
  · intro b hb i th hi hdone j hj hle
    obtain ⟨hfirst, hlast⟩ := hrun.between b hb
    obtain ⟨b', hb', hsee⟩ := hpast b hb
    obtain ⟨th', hth', hrest⟩ :=
      hsee.ended (hc.earlier (hfirst.path (Config.fresh_sound w)) hlast) hi hdone
    exact h.realTime b' hb' i th' hth' (hrest ▸ hdone) j hj (hsee.length ▸ hle)
  · rintro i served ⟨th', hth', -, hreq, hrest⟩
    have hlt : i < c.threads.length := hseen.length ▸ (List.getElem?_eq_some_iff.mp hth').1
    have hi := List.getElem?_eq_getElem hlt
    obtain ⟨th₁, hth₁, ⟨call, hcall, hasked⟩, -⟩ := hseen.threads i _ hi
    obtain rfl := Option.some.inj (hth₁.symm.trans hth')
    refine ⟨_, call, hi, hcall, hreq.trans hasked, ?_⟩
    intro hdone
    obtain ⟨th₂, hth₂, hsame⟩ := hseen.ended hc hi hdone
    obtain rfl := Option.some.inj (hth₂.symm.trans hth')
    exact hrest.trans hsame

/-- **Document requests are linearizable**, in every run in which no statement throws, no delete
is issued for a row that is gone and no name is stored that cannot be dumped.  Some order of
the requests that keeps those apart that did not overlap gives the same answers and the same
world when they are served one after another; the removes of one document agree; and 500 is
answered only if the signer has no key or has failed, or the database has refused an insert. -/
theorem requests_linearizable (hL : P.lib.StoresDocuments) {w : World τ} (hw : w.Dumpable)
    {past : List (Config (server τ P))} {c : Config (server τ P)}
    (hrun : Visits (Under Calm) (Config.fresh w) past c) {who : Nat → Bytes} (hc : Admitted who c) :
    (∃ order served, Linearized who w past c order served) ∧
    (∀ id, RemovesAgree who past c id) ∧
    ∀ (i : Nat) (th : Thread (server τ P)), c.threads[i]? = some th → Is500 th.rest →
      P.signer.Keyless ∨ ∃ e ∈ th.log, Failed e := by
  refine ⟨calm_linearized hrun hc, removes_agree hrun hc, ?_⟩
  intro i th hi hq
  obtain ⟨call, hcall⟩ := Option.isSome_iff_exists.mp (hc i th hi).1
  obtain ⟨user, log, huser, hlog, hp⟩ := hc.served hi hq.done hcall
  have hcalm := hrun.reach.under hi
  have hrows := dumpable_of_mem hw hrun.reach hi
  rcases serve_ends hL huser hp (fun e he => hcalm e (hlog e he))
    (fun e he => hrows e (hlog e he)) hq with hkey | ⟨e, he, hfailed⟩
  · exact Or.inl hkey
  · exact Or.inr ⟨e, hlog e he, hfailed⟩

/-! ### A late delete -/

/-- **In a sequential run** no remove is late. -/
theorem sequential_remove {w : World τ} {d : Config (desk τ P)}
    (hrun : Reach (fun b s => OneAtATime b s ∧ Under NoThrow b s) (Config.fresh w) d) {i : Nat}
    {th : Thread (desk τ P)} (hi : d.threads[i]? = some th) {userId : Bytes} {id user : Int}
    (hreq : th.req = (userId, .remove id)) (hu : stoi userId = some user) : ¬ Is500 th.rest := by
  intro hq
  have hp := hrun.path_at hi
  rw [hreq] at hp
  have hp : Path (App.answer (App.removeAs id userId)) th.log th.rest := hp
  have hanswered := (hrun.mono fun _ _ h => h.2).under hi
  have hthere : ∀ e ∈ th.log, e.cmd = .deleteDocument id → (e.pre.docs.byId id).isSome := by
    obtain ⟨v, hlinked, -⟩ := hrun.linked (R := fun v v' : World τ => v'.docs.rows = v.docs.rows)
      (fun _ _ h => h.1) (fun _ => rfl) (fun _ _ _ h h' => h'.trans h)
      (fun _ _ _ h => (move_docs h).1) i th hi
    rw [App.removeAs_eq, hu] at hp
    rcases path_call.mp hp with ⟨-, hrest⟩ | ⟨e₁, owned, rest₁, hr₁, h₁, hl₁, hp₁⟩
    · rw [hrest] at hq
      exact hq.done.elim
    have hfirst : ∀ e, e = e₁ → e.cmd ≠ .deleteDocument id := by
      rintro e rfl hcmd
      cases h₁.cmd_eq.symm.trans hcmd
    rw [hl₁] at hlinked ⊢
    rcases owned with _ | (_ | _)
    · obtain ⟨rfl, -⟩ := path_throw.mp hp₁
      exact fun e he hcmd => absurd hcmd (hfirst e (List.mem_singleton.mp he))
    · obtain ⟨rfl, -⟩ := path_ret.mp hp₁
      exact fun e he hcmd => absurd hcmd (hfirst e (List.mem_singleton.mp he))
    rcases path_call.mp hp₁ with ⟨-, hrest⟩ | ⟨e₂, deleted, rest₂, -, -, rfl, hp₂⟩
    · rw [hrest] at hq
      exact hq.done.elim
    have hdone : (App.answer (if Option.getD deleted false then
        jsonResponse (App.removedResponse id) 200
      else .ret (errorResponse "Failed to delete document" 500)) : Action τ Result).Done := by
      split
      · exact jsonResponse_done _ _
      · exact trivial
    obtain ⟨rfl, -⟩ := Path.done hdone hp₂
    -- the row of the owner test is still there
    have hx₁ : exec P.lib e₁.pre (.ownedBy id user) e₁.choice = some (some true, e₁.post) :=
      h₁.exec hr₁
    obtain ⟨row, hrow, rfl, -⟩ := (exec_ownedBy hx₁).mp rfl
    have hsame : e₂.pre.docs.rows = e₁.pre.docs.rows := hlinked.1.trans (by rw [exec_none hx₁ rfl])
    intro e he hcmd
    rcases List.mem_pair.mp he with rfl | rfl
    · exact absurd hcmd (hfirst _ rfl)
    · rw [DocsTable.byId_of_mem (hsame ▸ hrow)]
      rfl
  rcases removeAs_ends hu hp hanswered hthere hq.done with ⟨hend, -⟩ | ⟨hend, -⟩
  · rw [hend, is500_ret] at hq
    cases hq
  · rw [hend, is500_ret] at hq
    cases hq

namespace Sample

/-- One document, of the first account. -/
def mine : DocsTable where
  rows := [⟨1, user.id, ascii "a.pdf", [], [], [], 0⟩]
  seq := 1
  seq_le := one_le_serialMax
  ids := by simp
  idsNodup := by simp

/-- Its owner's session, and the row there. -/
def before : World ℚ := sessionWith mine

/-- The row gone. -/
def after : World ℚ := { before with docs := mine.delete 1 }

/-- The owner removes it. -/
def removal : Request := .remove (request none) 1

def userText : Bytes := toDecimal user.id

/-- The owner test finds the row. -/
def owned : ServerEvent ℚ app := ⟨.ownedBy 1 user.id, .done, before, some true, before⟩

/-- Or no longer. -/
def missing : ServerEvent ℚ app := ⟨.ownedBy 1 user.id, .done, after, some false, after⟩

/-- The delete finds it too, or comes too late. -/
def deleted : ServerEvent ℚ app := ⟨.deleteDocument 1, .done, before, some true, after⟩

def late : ServerEvent ℚ app :=
  ⟨.deleteDocument 1, .done, after, some false, { after with docs := after.docs.delete 1 }⟩

/-- A remove between its two statements. -/
def halfway : Action ℚ Result :=
  .call (S := services ℚ) (.deleteDocument 1) fun reply : Option Bool => App.answer
    (if reply.getD false then jsonResponse (App.removedResponse 1) 200
    else .ret (errorResponse "Failed to delete document" 500))

theorem path_halfway : Path (App.answer (App.removeAs 1 userText)) [owned] halfway := by
  rw [App.removeAs_eq, show stoi userText = some user.id from user_id]
  exact ⟨_, _, some true, _, rfl, rfl, path_nil.mpr rfl⟩

theorem path_deleted : Path (M := (server ℚ app).toMachine) halfway [deleted]
    (.ret (.response ⟨200, .json (App.removedResponse 1)⟩)) := by
  refine ⟨_, _, some true, _, rfl, rfl, path_nil.mpr ?_⟩
  dsimp only
  rw [Option.getD_some, if_pos rfl, jsonResponse_eq (removedResponse_dumpable 1)]
  rfl

theorem path_missing : Path (App.answer (App.removeAs 1 userText)) [missing]
    (.ret (.response (errorResponse "Not found" 404))) := by
  rw [App.removeAs_eq, show stoi userText = some user.id from user_id]
  exact ⟨_, _, some false, _, rfl, rfl, path_nil.mpr rfl⟩

theorem path_late : Path (M := (server ℚ app).toMachine) halfway [late]
    (.ret (.response (errorResponse "Failed to delete document" 500))) :=
  ⟨_, _, some false, _, rfl, rfl, path_nil.mpr rfl⟩

/-- The log of a remove. -/
def removeLog (events : List (ServerEvent ℚ app)) : List (ServerEvent ℚ app) :=
  tokenEvents app before userText (hex draw) ++ events

theorem path_remove {events : List (ServerEvent ℚ app)} {q : Action ℚ Result}
    (h : Path (App.answer (App.removeAs 1 userText)) events q) :
    Path (app.program removal) (removeLog events) q :=
  path_letIn (P := app) (w := before) (r := removal) rfl (presented none) payload_token
    readPayload_token (live_sessionWith _) h

theorem admitted_remove {events : List (ServerEvent ℚ app)} {q : Action ℚ Result}
    (h : Path (App.answer (App.removeAs 1 userText)) events q) :
    ∃ l : Authenticated (⟨removal, q, removeLog events⟩ : Thread (server ℚ app)) user.id,
      l.userId = userText :=
  authenticated (P := app) (w := before) (r := removal) rfl (presented none) payload_token
    readPayload_token user_id h

/-- The token is checked calmly. -/
theorem calm_removeLog {events : List (ServerEvent ℚ app)}
    (h : ∀ e ∈ events, Calm e.pre e.cmd e.choice) :
    ∀ e ∈ removeLog events, Calm e.pre e.cmd e.choice := by
  intro e he
  rcases List.mem_append.mp he with htoken | hmem
  · rcases List.mem_pair.mp htoken with rfl | rfl <;> exact Calm.read rfl
  · exact h e hmem

/-- So is the delete that finds its row. -/
theorem calm_deleted : Calm deleted.pre deleted.cmd deleted.choice := by
  refine ⟨fun _ h => (by cases h), ?_, fun _ _ _ _ _ h => (by cases h)⟩
  intro id h
  obtain rfl := Cmd.deleteDocument.inj h
  decide

/-- Every statement of it was done. -/
theorem removeLog_done {events : List (ServerEvent ℚ app)} (h : ∀ e ∈ events, e.choice = .done) :
    ∀ e ∈ removeLog events, e.choice = .done := by
  intro e he
  rcases List.mem_append.mp he with htoken | hmem
  · rcases List.mem_pair.mp htoken with rfl | rfl <;> rfl
  · exact h e hmem

/-- A remove that has found the document its own. -/
def slow : Thread (server ℚ app) := ⟨removal, halfway, removeLog [owned]⟩

theorem reach_slow {fine : World ℚ → Cmd → Choice → Prop}
    (h : ∀ e ∈ slow.log, fine e.pre e.cmd e.choice) :
    Reach (Under fine) (Config.fresh before) (⟨before, [slow]⟩ : Config (server ℚ app)) :=
  reach_solo (path_remove path_halfway) ⟨rfl, rfl, rfl, rfl⟩ (Allows.under h)

/-- Two removes are document requests of the first account. -/
theorem admitted_two {w : World ℚ} {events events' : List (ServerEvent ℚ app)}
    {q q' : Action ℚ Result} (h : Path (App.answer (App.removeAs 1 userText)) events q)
    (h' : Path (App.answer (App.removeAs 1 userText)) events' q') :
    Admitted (fun _ => userText) (⟨w, [⟨removal, q, removeLog events⟩,
      ⟨removal, q', removeLog events'⟩]⟩ : Config (server ℚ app)) := by
  have hin : ∀ log : List (ServerEvent ℚ app), ¬ (removeLog log).length < 2 := by
    intro log
    simp [removeLog, tokenEvents]
  intro i th hi
  rcases List.mem_pair.mp (List.mem_of_getElem? hi) with rfl | rfl
  · exact ⟨rfl, fun hlen => absurd hlen (hin events), fun _ => ⟨user.id, admitted_remove h⟩⟩
  · exact ⟨rfl, fun hlen => absurd hlen (hin events'), fun _ => ⟨user.id, admitted_remove h'⟩⟩

theorem before_dumpable : before.Dumpable := by
  intro d hd
  rw [List.mem_singleton.mp hd]
  exact ⟨by decide, by decide⟩

theorem not_keyless : ¬ signer.Keyless := by
  rintro (hsign | hverify)
  · cases keyPair.signing.symm.trans hsign
  · cases keyPair.verifying.symm.trans hverify

end Sample

/-- **Two removes of one document** are under way when the first deletes it; the second finds it
gone. -/
theorem requests_linearizable_sample :
    ∃ (past : List (Config (server ℚ Sample.app))) (b c : Config (server ℚ Sample.app))
      (th th' : Thread (server ℚ Sample.app)),
      Visits (Under Calm) (Config.fresh Sample.before) past c ∧ b ∈ past ∧
      b.threads.length = 2 ∧ (∀ t ∈ b.threads, ¬ t.rest.Done) ∧ c.threads = [th, th'] ∧
      th.req = .remove (Sample.request none) 1 ∧ th'.req = .remove (Sample.request none) 1 ∧
      th.rest = .ret (.response ⟨200, .json (App.removedResponse 1)⟩) ∧
      th'.rest = .ret (.response (errorResponse "Not found" 404)) ∧
      (∃ order served,
        Linearized (fun _ => Sample.userText) Sample.before past c order served) ∧
      Removed c 1 := by
  let asking : Action ℚ Result := App.answer (App.removeAs 1 Sample.userText)
  let early : Thread (server ℚ Sample.app) := ⟨Sample.removal, asking, Sample.removeLog []⟩
  let th : Thread (server ℚ Sample.app) := ⟨Sample.removal,
    .ret (.response ⟨200, .json (App.removedResponse 1)⟩),
    Sample.removeLog [Sample.owned] ++ [Sample.deleted]⟩
  let th' : Thread (server ℚ Sample.app) := ⟨Sample.removal,
    .ret (.response (errorResponse "Not found" 404)), Sample.removeLog [] ++ [Sample.missing]⟩
  let b : Config (server ℚ Sample.app) := ⟨Sample.before, [Sample.slow, early]⟩
  let c : Config (server ℚ Sample.app) := ⟨Sample.after, [th, th']⟩
  -- both are let in, and the first has found the document its own
  have hslow : Reach (Under Calm) (Config.fresh Sample.before) ⟨Sample.before, [Sample.slow]⟩ :=
    Sample.reach_slow (Sample.calm_removeLog (List.forall_mem_singleton.mpr (Calm.read rfl)))
  have hearly : Reach (Under Calm) ⟨Sample.before, [Sample.slow]⟩ b :=
    reach_solo (Sample.path_remove (path_nil.mpr rfl)) ⟨rfl, rfl, rfl⟩
      (Allows.under (Sample.calm_removeLog (by simp)))
  -- it deletes it, and the second looks for it
  have hdeleted : Reach (Under Calm) b ⟨Sample.after, [th, early]⟩ :=
    reach_resumed (show [Sample.slow, early][0]? = some Sample.slow from rfl) Sample.path_deleted
      ⟨rfl, rfl⟩ (Resumes.under (List.forall_mem_singleton.mpr Sample.calm_deleted))
  have hmissing : Reach (Under Calm) ⟨Sample.after, [th, early]⟩ c :=
    reach_resumed (show [th, early][1]? = some early from rfl) Sample.path_missing
      ⟨rfl, rfl⟩ (Resumes.under (List.forall_mem_singleton.mpr (Calm.read rfl)))
  obtain ⟨past₁, hpast₁⟩ := (hslow.trans hearly).visits
  obtain ⟨past, hrun, hsub⟩ := hpast₁.extend (hdeleted.trans hmissing)
  have hc : Admitted (fun _ => Sample.userText) c :=
    Sample.admitted_two (Sample.path_halfway.trans Sample.path_deleted) Sample.path_missing
  obtain ⟨horder, hagree, -⟩ := requests_linearizable (P := Sample.app) Sample.storesDocuments
    Sample.before_dumpable hrun hc
  refine ⟨past, b, c, th, th', hrun, hsub hpast₁.last_mem, rfl, ?_, rfl, rfl, rfl, rfl, rfl,
    horder, ?_⟩
  · intro t ht
    rcases List.mem_pair.mp ht with rfl | rfl
    · exact id
    · show ¬ asking.Done
      simp only [asking, App.removeAs_eq, show stoi Sample.userText = some Sample.user.id from
        Sample.user_id]
      exact id
  · exact (hagree 1).owner _ hrun.first_mem _ (List.mem_singleton_self _) rfl 0 th
      (Sample.request none) (Nat.zero_le _) rfl rfl Sample.user_id trivial

/-- **A late delete.**  Two removes of one document have found it theirs; the second to delete it
answers 500, with no statement refused, and no sequential run has that answer. -/
theorem remove_late :
    ∃ (past : List (Config (server ℚ Sample.app))) (c : Config (server ℚ Sample.app))
      (who : Nat → Bytes) (th : Thread (server ℚ Sample.app)), Sample.lib.StoresDocuments ∧
      Sample.before.Dumpable ∧ Visits (Under NoThrow) (Config.fresh Sample.before) past c ∧
      Admitted who c ∧ c.threads[0]? = some th ∧ th.req = .remove (Sample.request none) 1 ∧
      th.rest = .ret (.response (errorResponse "Failed to delete document" 500)) ∧
      ¬ Sample.signer.Keyless ∧ (∀ e ∈ th.log, ¬ Failed e) ∧
      ¬ ∃ order served, Linearized who Sample.before past c order served := by
  let quick : Thread (server ℚ Sample.app) := ⟨Sample.removal,
    .ret (.response ⟨200, .json (App.removedResponse 1)⟩),
    Sample.removeLog [Sample.owned, Sample.deleted]⟩
  let th : Thread (server ℚ Sample.app) := ⟨Sample.removal,
    .ret (.response (errorResponse "Failed to delete document" 500)),
    Sample.removeLog [Sample.owned] ++ [Sample.late]⟩
  let c : Config (server ℚ Sample.app) := ⟨Sample.late.post, [th, quick]⟩
  have hanswered : ∀ {events : List (ServerEvent ℚ Sample.app)}, (∀ e ∈ events, e.choice = .done) →
      ∀ e ∈ Sample.removeLog events, NoThrow e.pre e.cmd e.choice := by
    intro events h e he _ hthrew
    rw [Sample.removeLog_done h e he] at hthrew
    cases hthrew
  have hfirst : Reach (Under NoThrow) (Config.fresh Sample.before)
      ⟨Sample.before, [Sample.slow]⟩ :=
    Sample.reach_slow (hanswered (by simp [Sample.owned]))
  have hsecond : Reach (Under NoThrow) ⟨Sample.before, [Sample.slow]⟩
      (⟨Sample.after, [Sample.slow, quick]⟩ : Config (server ℚ Sample.app)) :=
    reach_solo (Sample.path_remove (Sample.path_halfway.trans Sample.path_deleted))
      ⟨rfl, rfl, rfl, rfl, rfl⟩ (Allows.under (hanswered (by simp [Sample.owned, Sample.deleted])))
  have hreach : Reach (Under NoThrow) (Config.fresh Sample.before) c := by
    refine (hfirst.trans hsecond).tail (s := .run 0 .done) ?_ rfl
    intro _ cmd k _ _ _ h
    cases h
  obtain ⟨past, hrun⟩ := hreach.visits
  have hc : Admitted (fun _ => Sample.userText) c :=
    Sample.admitted_two (Sample.path_halfway.trans Sample.path_late)
      (Sample.path_halfway.trans Sample.path_deleted)
  refine ⟨past, c, _, th, Sample.storesDocuments, Sample.before_dumpable, hrun, hc, rfl, rfl, rfl,
    Sample.not_keyless, ?_, ?_⟩
  · intro e he hfailed
    have hcmd : ∀ e ∈ th.log, e.cmd ∈ [Cmd.now, .get (sessionKey (hex Sample.draw)),
        .ownedBy 1 Sample.user.id, .deleteDocument 1] := by
      intro e he
      simp only [th, Sample.removeLog, tokenEvents, Sample.owned, Sample.late, List.mem_append,
        List.mem_cons, List.not_mem_nil, or_false] at he
      rcases he with ((rfl | rfl) | rfl) | rfl <;> simp
    have hmem := hcmd e he
    rcases hfailed with ⟨key, data, hx⟩ | ⟨user, filename, pdf, sig, sha, hx⟩
    · rw [hx.cmd_eq] at hmem
      simp at hmem
    · rw [hx.cmd_eq] at hmem
      simp at hmem
  · rintro ⟨order, served, h⟩
    obtain ⟨th', hmem, th₀, call, hth₀, hcall, hreq, hrest⟩ :=
      h.answer (h.finished 0 th rfl trivial)
    obtain ⟨n, hth'⟩ := List.getElem?_of_mem hmem
    obtain rfl : th = th₀ := Option.some.inj hth₀
    obtain rfl : DocumentCall.remove 1 = call := Option.some.inj hcall
    refine sequential_remove h.sequential hth' hreq Sample.user_id ?_
    rw [hrest trivial, is500_ret]
    rfl

end PqcApi
