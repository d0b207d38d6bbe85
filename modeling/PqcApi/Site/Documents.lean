/-
A document over its whole life.

Ids only grow, and no statement gives one out again, an operator's included.  So once a visit
to remove a document has been answered 200, no later visit is told anything of it.  And since
time does not go back, a list shows what has been signed last first.
-/
import PqcApi.Documents.Linear
import PqcApi.Sessions.Revocation
import PqcApi.Site.Accounts

namespace PqcApi

open Concurrent

variable {τ : Type} [Field τ] [LinearOrder τ] [FloorRing τ]

/-! ### How document requests are answered -/

/-- The body of a list. -/
def App.listing (L : Lib) (docs : List Document) : Json :=
  .object [("documents", .arr (docs.map (App.listed L)))]

/-- The end of a handler that answers with JSON: a text that is not UTF-8 makes it throw. -/
theorem answer_jsonResponse {P : App} {j : Json} {status : Nat} {log : List (ServerEvent τ P)}
    {q : Action τ Result} (h : Path (App.answer (jsonResponse j status)) log q) :
    q = if j.dumpable then .ret (.response ⟨status, .json j⟩) else .throw .json := by
  unfold jsonResponse at h
  by_cases hdump : j.dumpable = true
  · rw [if_pos hdump] at h ⊢
    exact (path_ret.mp h).2
  · rw [if_neg hdump] at h ⊢
    exact (path_throw.mp h).2

section Answered

variable {P : App} {th : Thread (server τ P)} {id : Int} {header : HttpRequest} {r : HttpResponse}
  (hp : Path (P.program th.req) th.log th.rest)

include hp

/-- A remove that is answered 200 has deleted the row. -/
theorem deleted_of_answer (hreq : th.req = .remove header id)
    (hret : th.rest = .ret (.response ⟨200, .json (App.removedResponse id)⟩)) :
    ∃ e ∈ th.log, e.Is (.deleteDocument id) (some true) := by
  have hg : P.guarded th.req = some (header, (App.removeAs id : Bytes → Action τ _)) := by
    rw [hreq]
    rfl
  rcases guarded_path hp hg with ⟨-, ⟨c, k, hwait⟩ | hrefused⟩ | ⟨l, hbody⟩
  · rw [hret] at hwait
    cases hwait
  · rw [hret] at hrefused
    cases hrefused
  have hpath := l.path
  rw [hbody, App.removeAs_eq, hret] at hpath
  cases huser : stoi l.userId with
  | none =>
      rw [huser] at hpath
      cases (path_throw.mp hpath).2
  | some user =>
      rw [huser] at hpath
      obtain ⟨e₁, owned, rest₁, -, -, hlog, hpath⟩ := path_call_ret.mp hpath
      rcases owned with _ | (_ | _)
      · cases (path_throw.mp hpath).2
      · cases (path_ret.mp hpath).2
      obtain ⟨e₂, deleted, rest₂, -, h₂, hrest, hpath⟩ := path_call_ret.mp hpath
      refine ⟨e₂, l.mem_log (by rw [hlog, hrest]; simp), ?_⟩
      change Path (App.answer (if Option.getD deleted false then _ else _)) rest₂ _ at hpath
      rw [removeAs_end] at hpath
      rcases deleted with _ | (_ | _)
      · cases (path_ret.mp hpath).2
      · cases (path_ret.mp hpath).2
      · exact h₂

/-- A visit to a document that is gone is refused, or finds nothing, or has thrown. -/
theorem missing_of_gone (hgone : ∀ e ∈ th.log, e.pre.Gone id) (hdoc : th.req.document = some id)
    (hdone : th.rest.Done) :
    th.rest = .ret (.response (errorResponse "Unauthorized" 401)) ∨
    th.rest = .ret (.response (errorResponse "Not found" 404)) ∨
    th.rest = .throw .outOfRange ∨ th.rest = .throw .query := by
  obtain ⟨header, body, hg, hnobody⟩ : ∃ header body,
      P.guarded th.req = some (header, (body : Bytes → Action τ HttpResponse)) ∧
      ∀ userId, stoi userId = none → App.answer (body userId) = .throw .outOfRange := by
    cases hreq : th.req with
    | download header id =>
        refine ⟨header, P.downloadAs id, rfl, fun userId hnone => ?_⟩
        rw [App.downloadAs_eq, hnone]
        rfl
    | verify header id =>
        refine ⟨header, P.verifyAs id, rfl, fun userId hnone => ?_⟩
        rw [App.verifyAs_eq, hnone]
        rfl
    | remove header id =>
        refine ⟨header, App.removeAs id, rfl, fun userId hnone => ?_⟩
        rw [App.removeAs_eq, hnone]
        rfl
    | _ =>
        rw [hreq] at hdoc
        cases hdoc
  rcases guarded_path hp hg with ⟨-, ⟨c, k, hwait⟩ | hrefused⟩ | ⟨l, hbody⟩
  · rw [hwait] at hdone
    exact hdone.elim
  · exact Or.inl hrefused
  have hpath := l.path
  rw [hbody] at hpath
  refine Or.inr ?_
  cases huser : stoi l.userId with
  | none =>
      rw [hnobody _ huser] at hpath
      exact Or.inr (Or.inl (path_throw.mp hpath).2)
  | some user =>
      obtain ⟨k, hask, hnone, hfalse⟩ := owner_test_first hg hdoc huser
      rw [hask] at hpath
      obtain ⟨e, owned, rest, -, he, hlog, hpath⟩ := (path_call_done hdone).mp hpath
      have hmem : e ∈ th.log := l.mem_log (by rw [hlog]; simp)
      rcases owned with _ | (_ | _)
      · rw [hnone] at hpath
        exact Or.inr (Or.inr (path_throw.mp hpath).2)
      · rw [hfalse] at hpath
        exact Or.inl (path_ret.mp hpath).2
      · obtain ⟨d, hd, hid, -⟩ := (exec_ownedBy (exec_of_mem hp hmem he)).mp rfl
        exact absurd hid (DocsTable.byId_none (hgone e hmem).2 d hd)

/-- A list is refused, or it is what one statement has found for the user, or it has thrown. -/
theorem listed_of_answer (hreq : th.req = .list header) (hdone : th.rest.Done) :
    th.rest = .ret (.response (errorResponse "Unauthorized" 401)) ∨
    (th.rest = .throw .outOfRange ∨ th.rest = .throw .query) ∨
    ∃ (user : Int) (_ : Authenticated th user) (e : ServerEvent τ P) (docs : List Document),
      e ∈ th.log ∧ e.Is (.documentsByUser user) (some docs) ∧
      th.rest = if (App.listing P.lib docs).dumpable then
          .ret (.response ⟨200, .json (App.listing P.lib docs)⟩)
        else .throw .json := by
  have hg : P.guarded th.req = some (header, (P.listAs : Bytes → Action τ _)) := by
    rw [hreq]
    rfl
  rcases guarded_path hp hg with ⟨-, ⟨c, k, hwait⟩ | hrefused⟩ | ⟨l, hbody⟩
  · rw [hwait] at hdone
    exact hdone.elim
  · exact Or.inl hrefused
  have hpath := l.path
  rw [hbody, App.listAs_eq] at hpath
  refine Or.inr ?_
  cases huser : stoi l.userId with
  | none =>
      rw [huser] at hpath
      exact Or.inl (Or.inl (path_throw.mp hpath).2)
  | some user =>
      rw [huser] at hpath
      obtain ⟨e, reply, rest, -, he, hlog, hpath⟩ := (path_call_done hdone).mp hpath
      rcases reply with _ | docs
      · exact Or.inl (Or.inr (path_throw.mp hpath).2)
      refine Or.inr ⟨user, ⟨l, huser⟩, e, docs, l.mem_log (by rw [hlog]; simp), he, ?_⟩
      change Path (App.answer (jsonResponse (App.listing P.lib docs) 200)) rest _ at hpath
      exact answer_jsonResponse hpath

/-- A new document has an id that was not used up before. -/
theorem fresh_of_gone (hgone : ∀ e ∈ th.log, e.pre.Gone id) (hreq : th.req = .sign header)
    {body : Body} (hret : th.rest = .ret (.response ⟨201, body⟩)) :
    ∃ n filename sha sig, body = .json (App.signedResponse n filename sha sig) ∧ id < n := by
  rcases sign_path hp hreq with ⟨-, hsilent⟩ | ⟨⟨l⟩⟩
  · exact absurd hret (hsilent body)
  obtain ⟨n, hreply, hbody⟩ := l.body_eq hret
  have hmem : l.saved ∈ th.log := by
    rw [l.log_eq]
    simp
  have hx := exec_of_mem hp hmem l.saved_is
  rw [hreply] at hx
  obtain ⟨-, hn, -⟩ := exec_insertDocument_some hx
  have hpast := (hgone l.saved hmem).1
  exact ⟨n, _, _, _, hbody, by omega⟩

end Answered

namespace Site

variable {S : Site} {th : Thread (site τ S)} {ok : Config (site τ S) → Step (site τ S) → Prop}
  {w : World τ}

/-! ### Deleted -/

/-- **No step of the site gives an id out again.** -/
theorem docsLe_site {c c' : Config (site τ S)} {s : Step (site τ S)} (h : c.next s = some c') :
    DocsLe c.world c'.world := by
  rcases Config.next_cases h with ⟨m, w, rfl, hm, rfl⟩ | ⟨r, rfl, rfl⟩ |
    ⟨i, ch, req, cmd, k, log, r, w, rfl, hi, hx, rfl⟩
  · cases m with
    | inl m => exact docsLe_move hm
    | inr op =>
        cases op with
        | setRole username role =>
            obtain ⟨name, -, rfl⟩ := Option.map_eq_some_iff.mp hm
            exact DocsLe.refl _
        | remove id =>
            obtain rfl := Option.some.inj hm
            exact ⟨le_refl _, fun d hd => Or.inl (List.mem_filter.mp hd).1⟩
  · exact DocsLe.refl _
  · cases cmd with
    | inl cmd => exact docsLe_exec (show exec S.lib c.world cmd ch = some (r, w) from hx)
    | inr cmd =>
        obtain ⟨-, rfl⟩ := Front.exec_inr hx
        exact DocsLe.refl _

/-- A visit to remove this document has been answered 200. -/
def Removed (c : Config (site τ S)) (id : Int) : Prop :=
  ∃ (j : Nat) (th : Thread (site τ S)) (req : HttpRequest), c.threads[j]? = some th ∧
    th.req = .remove req id ∧ th.rest = .ret ⟨200, .json (App.removedResponse id)⟩

/-- What the server has done for a visit the visit has logged. -/
theorem mem_of_behind {th₀ : Thread (server τ S.app)} (hb : (S.front τ).Behind th th₀)
    {e : ServerEvent τ S.app} (he : e ∈ th₀.log) : (S.front τ).event e ∈ th.log := by
  obtain ⟨own, hlog, -⟩ := hb.log
  rw [hlog]
  exact List.mem_append_left _ (List.mem_map_of_mem he)

/-- From then on the document is gone. -/
theorem gone_of_removed {b : Config (site τ S)} (hb : Reach ok (Config.fresh w) b) {id : Int}
    (h : Removed b id) : b.world.Gone id := by
  obtain ⟨j, th, req, hj, hreq, hret⟩ := h
  obtain ⟨th₀, hth⟩ := thread_behind hb hj
  have hreq₀ : th₀.req = .remove req id :=
    (show th₀.req = S.back th.req from hth.req).trans (congrArg S.back hreq)
  have hret₀ := (agrees_respond hth (fun o => by rw [hreq]; rfl) _).mp hret
  obtain ⟨e, he, hdel⟩ := deleted_of_answer hth.path hreq₀ hret₀
  have hgone := (gone_of_delete (exec_of_mem hth.path he hdel)).2
  have hasc := hb.ascends (R := DocsLe) DocsLe.refl DocsLe.trans (fun _ hs => docsLe_site hs)
    (Nat.zero_le j) hj
  exact hgone.later (hasc.mem DocsLe.trans _ (mem_of_behind hth he)).2.2

/-- What a visit that comes later sees of it. -/
theorem gone_behind {b c : Config (site τ S)} (hbc : Reach ok b c) {id : Int}
    (hgone : b.world.Gone id) {i : Nat} (hi : c.threads[i]? = some th)
    (hlate : b.threads.length ≤ i) {th₀ : Thread (server τ S.app)}
    (hth : (S.front τ).Behind th th₀) : ∀ e ∈ th₀.log, e.pre.Gone id := by
  intro e he
  have hasc := hbc.ascends (R := DocsLe) DocsLe.refl DocsLe.trans (fun _ hs => docsLe_site hs)
    hlate hi
  exact hgone.later (hasc.mem DocsLe.trans _ (mem_of_behind hth he)).1

/-- The handler has thrown, because the session names no number or the database has refused a
statement.  The client gets status 500 from the framework, and nothing that is stored. -/
def Broken (q : Visiting τ HttpResponse) : Prop :=
  q = .throw .outOfRange ∨ q = .throw .query

/-- Nothing of a document: nobody is logged in, or it is not found, or the handler has thrown. -/
def Withheld (q : Visiting τ HttpResponse) : Prop :=
  q = .ret (errorResponse "Unauthorized" 401) ∨ q = .ret (errorResponse "Not found" 404) ∨ Broken q

/-- What a visit comes to says nothing of this document. -/
structure Forgets (S : Site) (id : Int) (v : Visit) (q : Visiting τ HttpResponse) : Prop where
  download : ∀ req, v = .download req id → Withheld q
  verify : ∀ req, v = .verify req id → Withheld q
  remove : ∀ req, v = .remove req id → Withheld q
  list : ∀ req, v = .list req → q = .ret (errorResponse "Unauthorized" 401) ∨ Broken q ∨
    ∃ docs : List Document, (∀ d ∈ docs, d.id ≠ id) ∧
      q = if (App.listing S.lib docs).dumpable then .ret ⟨200, .json (App.listing S.lib docs)⟩
        else .throw .json
  sign : ∀ req, v = .sign req → ∀ body, q = .ret ⟨201, body⟩ →
    ∃ n filename sha sig, body = .json (App.signedResponse n filename sha sig) ∧ id < n

section Ends

variable {th₀ : Thread (server τ S.app)}
  (hagrees : (∀ r, th.rest = .ret r ↔ th₀.rest = .ret (.response r)) ∧
    ∀ e, th.rest = .throw e ↔ th₀.rest = .throw e)

include hagrees

/-- What has thrown behind has thrown. -/
theorem broken_of_behind (h : th₀.rest = .throw .outOfRange ∨ th₀.rest = .throw .query) :
    Broken th.rest :=
  h.imp (hagrees.2 _).mpr (hagrees.2 _).mpr

/-- What was answered with JSON behind was answered with it. -/
theorem json_of_behind {j : Json} (h : th₀.rest = if j.dumpable then
      .ret (.response ⟨200, .json j⟩) else .throw .json) :
    th.rest = if j.dumpable then .ret ⟨200, .json j⟩ else .throw .json := by
  by_cases hdump : j.dumpable = true
  · rw [if_pos hdump] at h ⊢
    exact (hagrees.1 _).mpr h
  · rw [if_neg hdump] at h ⊢
    exact (hagrees.2 _).mpr h

end Ends

/-- **What is deleted stays deleted.**  Once a visit to remove a document has been answered 200,
whatever fails and whatever operators do, no visit that comes later is told anything of it, and
no new document gets its id. -/
theorem deletion_final {b c : Config (site τ S)} (hb : Reach ok (Config.fresh w) b)
    (hbc : Reach ok b c) {id : Int} (hremoved : Removed b id) {i : Nat}
    (hi : c.threads[i]? = some th) (hlate : b.threads.length ≤ i) (hdone : th.rest.Done) :
    S.Forgets id th.req th.rest := by
  obtain ⟨th₀, hth⟩ := thread_behind (hb.trans hbc) hi
  have hgone := gone_behind hbc (gone_of_removed hb hremoved) hi hlate hth
  have hback : th₀.req = S.back th.req := hth.req
  have hagrees := agrees hth
  have hdone₀ := hth.done hdone
  have missing : (S.back th.req).document = some id →
      ((∀ r, th.rest = .ret r ↔ th₀.rest = .ret (.response r)) ∧
        ∀ e, th.rest = .throw e ↔ th₀.rest = .throw e) → Withheld th.rest := by
    intro hdoc hsame
    rcases missing_of_gone hth.path hgone (hback ▸ hdoc) hdone₀ with h | h | h
    · exact Or.inl ((hsame.1 _).mpr h)
    · exact Or.inr (Or.inl ((hsame.1 _).mpr h))
    · exact Or.inr (Or.inr (broken_of_behind hsame h))
  refine ⟨fun req h => ?_, fun req h => ?_, fun req h => ?_, fun req h => ?_,
    fun req h body hr => ?_⟩
  · rw [h] at hagrees
    exact missing (by rw [h]; rfl) hagrees
  · rw [h] at hagrees
    exact missing (by rw [h]; rfl) hagrees
  · rw [h] at hagrees
    exact missing (by rw [h]; rfl) hagrees
  · rw [h] at hagrees
    have hreq : th₀.req = .list req := hback.trans (congrArg S.back h)
    rcases listed_of_answer hth.path hreq hdone₀ with
      hrefused | hbroken | ⟨user, -, e, docs, he, hasked, hrest⟩
    · exact Or.inl ((hagrees.1 _).mpr hrefused)
    · exact Or.inr (Or.inl (broken_of_behind hagrees hbroken))
    refine Or.inr (Or.inr ⟨docs, fun d hd => ?_, json_of_behind hagrees hrest⟩)
    have hrow := (exec_documentsByUser (exec_of_mem hth.path he hasked)).subset hd
    exact DocsTable.byId_none (hgone e he).2 d (List.mem_filter.mp hrow).1
  · rw [h] at hagrees
    have hreq : th₀.req = .sign req := hback.trans (congrArg S.back h)
    exact fresh_of_gone hth.path hgone hreq ((hagrees.1 _).mp hr)

end Site

/-- **The first account removes its document** and then asks for it. -/
theorem deletion_final_first : ∃ (c : Config (site ℚ Sample.controllers))
    (th : Thread (site ℚ Sample.controllers)), c.threads[1]? = some th ∧
      th.req = .download (Sample.request none) 1 ∧ th.rest.Done ∧ Site.Withheld th.rest := by
  let removal : Thread (site ℚ Sample.controllers) := ⟨.remove (Sample.request none) 1,
    .ret ⟨200, .json (App.removedResponse 1)⟩,
    (Sample.removeLog [Sample.owned, Sample.deleted]).map (Sample.controllers.front ℚ).event⟩
  let th : Thread (site ℚ Sample.controllers) := ⟨.download (Sample.request none) 1,
    .ret (errorResponse "Not found" 404),
    (tokenEvents Sample.app Sample.after Sample.userText (hex Sample.draw) ++
      [Sample.missing]).map
      (Sample.controllers.front ℚ).event⟩
  have hremove : Reach (fun _ _ => True) (Config.fresh Sample.before) ⟨Sample.after, [removal]⟩ :=
    Site.reach_respond (Sample.path_remove (Sample.path_halfway.trans Sample.path_deleted))
      (fun _ => rfl) ⟨rfl, rfl, rfl, rfl, rfl⟩ Allows.always
  have hmissing : Path (App.answer (Sample.app.downloadAs 1 Sample.userText)) [Sample.missing]
      (.ret (.response (errorResponse "Not found" 404))) := by
    rw [App.downloadAs_eq, show stoi Sample.userText = some Sample.user.id from Sample.user_id]
    dsimp only
    rw [App.readOwned_eq]
    exact ⟨_, _, some false, _, rfl, rfl, path_nil.mpr rfl⟩
  have hdownload : Reach (fun _ _ => True) ⟨Sample.after, [removal]⟩
      ⟨Sample.after, [removal, th]⟩ :=
    Site.reach_respond (path_letIn (P := Sample.app) (w := Sample.after)
      (r := .download (Sample.request none) 1) rfl (Sample.presented none) Sample.payload_token
      Sample.readPayload_token (Sample.live_sessionWith _) hmissing)
      (fun _ => rfl) ⟨rfl, rfl, rfl, rfl⟩ Allows.always
  refine ⟨⟨Sample.after, [removal, th]⟩, th, rfl, rfl, trivial, ?_⟩
  have hforgets := Site.deletion_final hremove hdownload
    ⟨0, removal, Sample.request none, rfl, rfl, rfl⟩ (i := 1) rfl (le_refl 1) trivial
  exact hforgets.download _ rfl

/-! ### Listed -/

section Chronicle

variable [IsStrictOrderedRing τ] {w w' : World τ}

/-- The rows stand in the order in which they were signed, none of them later than now. -/
structure World.Chronicle (w : World τ) : Prop where
  order : w.docs.rows.Pairwise fun d e => d.id < e.id ∧ d.signedAt ≤ e.signedAt
  past : ∀ d ∈ w.docs.rows, d.signedAt ≤ w.nowUs

theorem nowUs_le (h : w.now ≤ w'.now) : w.nowUs ≤ w'.nowUs :=
  Int.floor_le_floor (by linarith)

/-- Rows may go and time may pass. -/
theorem World.Chronicle.sublist (h : w.Chronicle) (hrows : w'.docs.rows.Sublist w.docs.rows)
    (hnow : w.now ≤ w'.now) : w'.Chronicle where
  order := h.order.sublist hrows
  past d hd := le_trans (h.past d (hrows.subset hd)) (nowUs_le hnow)

/-- A command keeps the order. -/
theorem World.Chronicle.after (h : w.Chronicle) {L : Lib} {cmd : Cmd} {ch : Choice}
    {r : Reply τ cmd} (hx : exec L w cmd ch = some (r, w')) : w'.Chronicle := by
  have hnow : w'.now = w.now := exec_now hx
  rcases exec_docs hx with hsame | ⟨_, _, _, _, _, -, hins⟩ | ⟨id, -, rfl⟩
  · exact h.sublist (by rw [hsame]) (le_of_eq hnow.symm)
  · obtain ⟨name, stored, -, -, -, hrows⟩ := withDocument_rows hins
    have hus : w'.nowUs = w.nowUs := by rw [World.nowUs, World.nowUs, hnow]
    refine ⟨?_, fun d hd => ?_⟩
    · rw [hrows, List.pairwise_append]
      refine ⟨h.order, List.pairwise_singleton _ _, fun d hd e he => ?_⟩
      rw [List.mem_singleton.mp he]
      exact ⟨by have := (w.docs.ids d hd).2; show d.id < w.docs.seq + 1; omega, h.past d hd⟩
    · rw [hus]
      rw [hrows] at hd
      rcases List.mem_append.mp hd with hold | hnew
      · exact h.past d hold
      · rw [List.mem_singleton.mp hnew]
  · exact h.sublist List.filter_sublist (le_refl _)

omit [IsStrictOrderedRing τ] in
/-- Of two rows the one that was signed later has the larger id. -/
theorem World.Chronicle.id_lt (h : w.Chronicle) {d e : Document} (hd : d ∈ w.docs.rows)
    (he : e ∈ w.docs.rows) (hlt : e.signedAt < d.signedAt) : e.id < d.id := by
  obtain ⟨i, hi, rfl⟩ := List.getElem_of_mem hd
  obtain ⟨j, hj, rfl⟩ := List.getElem_of_mem he
  rcases lt_trichotomy i j with hij | rfl | hji
  · have hle := (List.pairwise_iff_getElem.mp h.order i j hi hj hij).2
    omega
  · omega
  · exact (List.pairwise_iff_getElem.mp h.order j i hj hi hji).1

/-- The later first; what was signed in the same microsecond in any order. -/
def Newer (d e : Document) : Prop :=
  e.signedAt ≤ d.signedAt ∧ (e.signedAt < d.signedAt → e.id < d.id)

omit [IsStrictOrderedRing τ] in
/-- What `ORDER BY signed_at DESC` gives. -/
theorem World.Chronicle.newest_first (h : w.Chronicle) {L : Lib} {user : Int}
    {docs : List Document} {ch : Choice}
    (hx : exec L w (.documentsByUser user) ch = some (some docs, w')) : docs.Pairwise Newer := by
  have hperm := exec_documentsByUser hx
  simp only [exec] at hx
  have hsorted : docs.Pairwise fun d e => e.signedAt ≤ d.signedAt := by
    rcases statement_cases hx with ⟨hr, -⟩ | ⟨hr, -⟩
    · rw [Option.some.inj hr]
      refine (List.pairwise_mergeSort ?_ ?_ _).imp fun hle => of_decide_eq_true hle
      · intro a b c hab hbc
        have hba := of_decide_eq_true hab
        have hcb := of_decide_eq_true hbc
        exact decide_eq_true (le_trans hcb hba)
      · intro a b
        rcases le_total b.signedAt a.signedAt with hle | hle
        · simp [hle]
        · simp [hle]
    · cases hr
  refine hsorted.imp_of_mem fun hd he hle => ⟨hle, h.id_lt ?_ ?_⟩
  · exact (List.mem_filter.mp (hperm.subset hd)).1
  · exact (List.mem_filter.mp (hperm.subset he)).1

end Chronicle

namespace Site

variable [IsStrictOrderedRing τ] {S : Site} {th : Thread (site τ S)}
  {ok : Config (site τ S) → Step (site τ S) → Prop} {w : World τ}

/-- **Every step of the site keeps the order.** -/
theorem chronicle_next {c c' : Config (site τ S)} {s : Step (site τ S)} (hc : c.world.Chronicle)
    (h : c.next s = some c') : c'.world.Chronicle := by
  rcases Config.next_cases h with ⟨m, w, rfl, hm, rfl⟩ | ⟨r, rfl, rfl⟩ |
    ⟨i, ch, req, cmd, k, log, r, w, rfl, hi, hx, rfl⟩
  · cases m with
    | inl m => exact hc.sublist (by rw [(move_docs hm).1]) (now_le_move hm)
    | inr op =>
        cases op with
        | setRole username role =>
            obtain ⟨name, -, rfl⟩ := Option.map_eq_some_iff.mp hm
            exact hc.sublist (List.Sublist.refl _) (le_refl _)
        | remove id =>
            obtain rfl := Option.some.inj hm
            exact hc.sublist List.filter_sublist (le_refl _)
  · exact hc
  · cases cmd with
    | inl cmd => exact hc.after (show exec S.lib c.world cmd ch = some (r, w) from hx)
    | inr cmd =>
        obtain ⟨-, rfl⟩ := Front.exec_inr hx
        exact hc

end Site

namespace Site

variable {S : Site} {th : Thread (site τ S)} {ok : Config (site τ S) → Step (site τ S) → Prop}
  {w : World τ}

/-- A list visit that is not refused shows what the store has found for the user of its session. -/
theorem listed_of_visit {c : Config (site τ S)} (hrun : Reach ok (Config.fresh w) c) {i : Nat}
    (hi : c.threads[i]? = some th) {req : HttpRequest} (hreq : th.req = .list req)
    (hdone : th.rest.Done) :
    th.rest = .ret (errorResponse "Unauthorized" 401) ∨ Broken th.rest ∨
    ∃ user, SessionOf th user ∧ ∃ e ∈ th.log, ∃ docs : List Document,
      Event.Is (S := (services τ).extend looks) e (.inl (.documentsByUser user)) (some docs) ∧
      exec S.lib e.pre (.documentsByUser user) e.choice = some (some docs, e.post) ∧
      th.rest = if (App.listing S.lib docs).dumpable then .ret ⟨200, .json (App.listing S.lib docs)⟩
        else .throw .json := by
  obtain ⟨th₀, hth⟩ := thread_behind hrun hi
  have hreq₀ : th₀.req = .list req :=
    (show th₀.req = S.back th.req from hth.req).trans (congrArg S.back hreq)
  have hagrees := agrees hth
  rw [hreq] at hagrees
  rcases listed_of_answer hth.path hreq₀ (hth.done hdone) with
    hrefused | hbroken | ⟨user, l, e, docs, he, hasked, hrest⟩
  · exact Or.inl ((hagrees.1 _).mpr hrefused)
  · exact Or.inr (Or.inl (broken_of_behind hagrees hbroken))
  have hlooked : l.looked ∈ th₀.log := by
    rw [l.log]
    simp
  have hsession : SessionOf th user :=
    ⟨_, mem_of_behind hth hlooked, _, _, Front.event_is l.looked_is, l.user_eq⟩
  exact Or.inr (Or.inr ⟨user, hsession, _, mem_of_behind hth he, docs, Front.event_is hasked,
    exec_of_mem hth.path he hasked, json_of_behind hagrees hrest⟩)

variable [IsStrictOrderedRing τ]

/-- **A list is a moment, the newest first.**  Whatever fails and whatever operators do, a list
visit is refused or has thrown, or it shows exactly the rows the user of its session had when the
database listed them, in the order in which they were signed, the last one first. -/
theorem list_newest_first (hw : w.Chronicle) {c : Config (site τ S)}
    (hrun : Reach ok (Config.fresh w) c) {i : Nat} (hi : c.threads[i]? = some th)
    {req : HttpRequest} (hreq : th.req = .list req) (hdone : th.rest.Done) :
    th.rest = .ret (errorResponse "Unauthorized" 401) ∨ Broken th.rest ∨
    ∃ user, SessionOf th user ∧ ∃ e ∈ th.log, ∃ docs : List Document,
      Event.Is (S := (services τ).extend looks) e (.inl (.documentsByUser user)) (some docs) ∧
      docs.Perm (e.pre.own user) ∧ docs.Pairwise Newer ∧
      th.rest = if (App.listing S.lib docs).dumpable then .ret ⟨200, .json (App.listing S.lib docs)⟩
        else .throw .json := by
  rcases listed_of_visit hrun hi hreq hdone with
    hrefused | hbroken | ⟨user, hsession, e, hmem, docs, hasked, hx, hrest⟩
  · exact Or.inl hrefused
  · exact Or.inr (Or.inl hbroken)
  -- the moment it is asked
  obtain ⟨before, b, b', hm⟩ := hrun.moment_at hi hmem
  have hchronicle : e.pre.Chronicle := by
    have h := hm.reach.invariant (I := fun c : Config (site τ S) => c.world.Chronicle) hw
      fun hc _ hs => chronicle_next hc hs
    rw [hm.pre] at h
    exact h
  exact Or.inr (Or.inr ⟨user, hsession, e, hmem, docs, hasked, exec_documentsByUser hx,
    hchronicle.newest_first hx, hrest⟩)

end Site

/-- The answer to the first account when it lists its documents. -/
def Sample.listResponse : HttpResponse :=
  ⟨200, .json (App.listing Sample.lib Sample.mine.rows)⟩

theorem Sample.reach_listed : ∃ th : Thread (site ℚ Sample.controllers),
    th.req = .list (Sample.request none) ∧ th.rest = .ret Sample.listResponse ∧
      Reach (fun _ _ => True) (Config.fresh Sample.before) ⟨Sample.before, [th]⟩ := by
  let docs := Sample.mine.rows
  let listed : ServerEvent ℚ Sample.app :=
    ⟨.documentsByUser Sample.user.id, .done, Sample.before, some docs, Sample.before⟩
  let th : Thread (site ℚ Sample.controllers) := ⟨.list (Sample.request none),
    .ret Sample.listResponse,
    (tokenEvents Sample.app Sample.before Sample.userText (hex Sample.draw) ++ [listed]).map
      (Sample.controllers.front ℚ).event⟩
  have hlist : Path (App.answer (Sample.app.listAs Sample.userText)) [listed]
      (.ret (.response Sample.listResponse)) := by
    rw [App.listAs_eq, show stoi Sample.userText = some Sample.user.id from Sample.user_id]
    have hfound : exec Sample.lib Sample.before (.documentsByUser Sample.user.id) .done =
        some (some docs, Sample.before) := by
      have hown : (Sample.before.docs.rows.filter fun d => d.userId = Sample.user.id) = docs := rfl
      simp only [exec, hown]
      rw [show docs = [_] from rfl, List.mergeSort_singleton]
      rfl
    refine ⟨.done, Sample.before, some docs, Sample.before, hfound, rfl, path_nil.mpr ?_⟩
    dsimp only
    rw [jsonResponse_eq (by decide +kernel)]
    rfl
  exact ⟨th, rfl, rfl, Site.reach_respond (path_letIn (P := Sample.app) (w := Sample.before)
    (r := .list (Sample.request none)) rfl (Sample.presented none) Sample.payload_token
    Sample.readPayload_token (Sample.live_sessionWith _) hlist)
    (fun _ => rfl) ⟨rfl, rfl, rfl, rfl⟩ Allows.always⟩

/-- **The first account lists its documents.** -/
theorem list_newest_first_first : ∃ th : Thread (site ℚ Sample.controllers),
    th.req = .list (Sample.request none) ∧ th.rest = .ret Sample.listResponse ∧
    ∃ user, Site.SessionOf th user ∧ ∃ e ∈ th.log, ∃ docs : List Document,
      Event.Is (S := (services ℚ).extend looks) e (.inl (.documentsByUser user)) (some docs) ∧
      docs.Perm (e.pre.own user) ∧ docs.Pairwise Newer ∧
      Sample.listResponse = ⟨200, .json (App.listing Sample.lib docs)⟩ := by
  obtain ⟨th, hreq, hret, hrun⟩ := Sample.reach_listed
  have hbefore : Sample.before.Chronicle :=
    ⟨List.pairwise_singleton _ _, fun d hd => by rw [List.mem_singleton.mp hd]; decide +kernel⟩
  rcases Site.list_newest_first hbefore hrun (i := 0) rfl hreq (by rw [hret]; exact trivial) with
    h | (h | h) | ⟨user, hsession, e, hmem, docs, hasked, hperm, hnewer, h⟩
  · have hstatus : (200 : Nat) = 401 :=
      congrArg HttpResponse.status (Program.ret.inj (hret.symm.trans h))
    cases hstatus
  · cases hret.symm.trans h
  · cases hret.symm.trans h
  · refine ⟨th, hreq, hret, user, hsession, e, hmem, docs, hasked, hperm, hnewer, ?_⟩
    by_cases hdump : (App.listing Sample.controllers.lib docs).dumpable = true
    · rw [if_pos hdump] at h
      exact Program.ret.inj (hret.symm.trans h)
    · rw [if_neg hdump] at h
      cases hret.symm.trans h

end PqcApi
