/-
Each user has the documents to itself.

The owner test of a handler is one statement, and the reads and the delete that follow it
name the document by its id alone.  They stay with the owner's rows because an id names
one row for ever: ids are not reused, and no statement changes a row's owner.  So every
statement of an authenticated request does, and answers, what it would in a database
that holds its user's rows only.
-/
import PqcApi.Documents.Progress

namespace PqcApi

open Concurrent

variable {τ : Type}

/-! ### A world with one user's documents -/

/-- The world without the documents of other users. -/
def World.only (user : Int) (w : World τ) : World τ :=
  { w with docs := w.docs.keep fun d => d.userId = user }

/-- The documents of a user. -/
def World.own (user : Int) (w : World τ) : List Document :=
  w.docs.rows.filter fun d => d.userId = user

/-- The documents of all others. -/
def World.others (user : Int) (w : World τ) : List Document :=
  w.docs.rows.filter fun d => d.userId ≠ user

/-- The statement is about `documents`. -/
def Cmd.onDocuments : Cmd → Bool
  | .insertDocument .. | .documentById _ | .documentsByUser _ | .pdfData _ | .ownedBy ..
  | .deleteDocument _ => true
  | _ => false

/-- The statement names this user, or an id under which no other user has a row. -/
def Cmd.Own (user : Int) (w : World τ) : Cmd → Prop
  | .insertDocument u .. => u = user
  | .documentsByUser u => u = user
  | .ownedBy _ u => u = user
  | .documentById id | .pdfData id | .deleteDocument id =>
      ∀ d, w.docs.byId id = some d → d.userId = user
  | _ => True

variable [Field τ] [LinearOrder τ] [FloorRing τ] {L : Lib}

/-- A command that is not about documents does not see them. -/
theorem exec_docs_irrelevant {w : World τ} {c : Cmd} {ch : Choice} (hc : c.onDocuments = false)
    (t : DocsTable) :
    exec L { w with docs := t } c ch =
      (exec L w c ch).map fun a => (a.1, { a.2 with docs := t }) := by
  cases c with
  | now =>
      simp only [exec]
      split <;> rfl
  | randombytes =>
      simp only [exec]
      split
      · split <;> rfl
      · rfl
  | pwhash pw => cases ch <;> rfl
  | digestSign key data => cases ch <;> rfl
  | setex key ttl value =>
      cases ch with
      | lost ran => cases ran <;> rfl
      | _ => rfl
  | get key =>
      cases ch with
      | lost ran => cases ran <;> rfl
      | _ => rfl
  | del key =>
      cases ch with
      | lost ran => cases ran <;> rfl
      | _ => rfl
  | userByName name => cases ch <;> rfl
  | insertUser name hash =>
      have hins : World.withUser { w with docs := t } name hash =
          (w.withUser name hash).map fun w' => { w' with docs := t } := by
        simp only [World.withUser, Option.bind_eq_bind, Option.map_bind, Function.comp_def,
          Option.pure_def, Option.map_some]
        rfl
      simp only [exec, hins]
      cases w.withUser name hash <;> cases ch <;> rfl
  | insertDocument | documentById | documentsByUser | pdfData | ownedBy | deleteDocument => cases hc

omit [Field τ] [LinearOrder τ] [FloorRing τ] in
/-- A statement that answers the same and leaves the user's part of the same. -/
theorem statement_only {α : Type} {user : Int} {w ran w' : World τ} {reply r : Option α}
    {ch : Choice} (h : statement w reply ran ch = some (r, w')) :
    statement (w.only user) reply (ran.only user) ch = some (r, w'.only user) := by
  unfold statement at h ⊢
  split at h
  · obtain ⟨rfl, rfl⟩ := Prod.mk.inj (Option.some.inj h)
    rfl
  · obtain ⟨rfl, rfl⟩ := Prod.mk.inj (Option.some.inj h)
    rfl
  · cases h

/-- Inserting a row of the user needs to know no other rows. -/
theorem withDocument_only (w : World τ) (user : Int) (filename pdf sig sha : Bytes) :
    (w.only user).withDocument user filename pdf sig sha =
      (w.withDocument user filename pdf sig sha).map (World.only user) := by
  simp only [World.withDocument, Option.bind_eq_bind, Option.map_bind, Function.comp_def]
  refine congrArg _ (funext fun name => congrArg _ (funext fun p => congrArg _ (funext fun g =>
    congrArg _ (funext fun s => congrArg _
      (funext fun name' => congrArg _ (funext fun s' => ?_))))))
  by_cases hmem : user ∈ w.users.rows.map User.id
  · rw [if_pos hmem, if_pos (show user ∈ (w.only user).users.rows.map User.id from hmem)]
    show ((w.docs.keep _).insert user name' p g s' w.nowUs).bind _ = _
    rw [DocsTable.keep_insert (by simp)]
    cases w.docs.insert user name' p g s' w.nowUs <;> rfl
  · rw [if_neg hmem, if_neg (show ¬ user ∈ (w.only user).users.rows.map User.id from hmem)]
    rfl

section Reads

variable {user id : Int} {w : World τ}

omit [Field τ] [LinearOrder τ] [FloorRing τ]

theorem only_byId (hown : ∀ d, w.docs.byId id = some d → d.userId = user) :
    (w.only user).docs.byId id = w.docs.byId id :=
  DocsTable.byId_keep fun d hd => by simpa using hown d hd

theorem only_rowsOf :
    ((w.only user).docs.rows.filter fun d => d.userId = user) =
      w.docs.rows.filter fun d => d.userId = user := by
  show (w.docs.rows.filter _).filter _ = _
  rw [List.filter_filter]
  simp

theorem only_owns :
    ((w.only user).docs.rows.any fun d => d.id = id ∧ d.userId = user) =
      w.docs.rows.any fun d => d.id = id ∧ d.userId = user := by
  show (w.docs.rows.filter _).any _ = _
  rw [List.any_filter]
  refine congrArg _ (funext fun d => ?_)
  by_cases hu : d.userId = user <;> simp [hu]

end Reads

omit [Field τ] [LinearOrder τ] [FloorRing τ] in
theorem others_delete {user : Int} {w : World τ} {id : Int}
    (hown : ∀ d, w.docs.byId id = some d → d.userId = user) :
    ({ w with docs := w.docs.delete id } : World τ).others user = w.others user := by
  show (w.docs.rows.filter _).filter _ = w.docs.rows.filter _
  rw [List.filter_filter]
  refine List.filter_congr fun d hd => ?_
  by_cases hid : d.id = id
  · have hu := hown d (hid ▸ DocsTable.byId_of_mem hd)
    simp [hu]
  · simp [hid]

/-- **A statement of a user does on its rows what it does on all.**  What it answers and
leaves are as if no other documents were there, and it leaves those as they are. -/
theorem exec_only {user : Int} {w w' : World τ} {c : Cmd} {ch : Choice} {r : Reply τ c}
    (hown : c.Own user w) (h : exec L w c ch = some (r, w')) :
    exec L (w.only user) c ch = some (r, w'.only user) ∧ w'.others user = w.others user := by
  by_cases hc : c.onDocuments = true
  · cases c with
    | insertDocument u filename pdf sig sha =>
        obtain rfl : u = user := hown
        simp only [exec, withDocument_only] at h ⊢
        cases hw : w.withDocument u filename pdf sig sha with
        | none =>
            rw [hw] at h
            refine ⟨statement_only h, ?_⟩
            rcases statement_cases h with ⟨-, rfl⟩ | ⟨-, rfl⟩ <;> rfl
        | some w₁ =>
            rw [hw] at h
            refine ⟨statement_only h, ?_⟩
            rcases statement_cases h with ⟨-, rfl⟩ | ⟨-, rfl⟩
            · obtain ⟨_, _, -, -, -, hrows⟩ := withDocument_rows hw
              rw [World.others, hrows, List.filter_append]
              simp [World.others]
            · rfl
    | documentById id =>
        obtain rfl := exec_none h rfl
        simp only [exec, only_byId hown] at h ⊢
        exact ⟨statement_only h, trivial⟩
    | documentsByUser u =>
        obtain rfl : u = user := hown
        obtain rfl := exec_none h rfl
        simp only [exec, only_rowsOf] at h ⊢
        exact ⟨statement_only h, trivial⟩
    | pdfData id =>
        obtain rfl := exec_none h rfl
        simp only [exec, only_byId hown] at h ⊢
        exact ⟨statement_only h, trivial⟩
    | ownedBy id u =>
        obtain rfl : u = user := hown
        obtain rfl := exec_none h rfl
        simp only [exec, only_owns] at h ⊢
        exact ⟨statement_only h, trivial⟩
    | deleteDocument id =>
        have hran : ({ w.only user with docs := (w.only user).docs.delete id } : World τ) =
            ({ w with docs := w.docs.delete id } : World τ).only user := by
          show ({ w with docs := (w.docs.keep _).delete id } : World τ) = _
          rw [DocsTable.keep_delete]
          rfl
        simp only [exec, only_byId hown, hran] at h ⊢
        refine ⟨statement_only h, ?_⟩
        rcases statement_cases h with ⟨-, rfl⟩ | ⟨-, rfl⟩
        · exact others_delete hown
        · rfl
    | _ => cases hc
  · have hdocs : w'.docs = w.docs := by
      rcases exec_docs h with hsame | ⟨_, _, _, _, _, rfl, -⟩ | ⟨_, rfl, -⟩
      · exact hsame
      · exact absurd rfl hc
      · exact absurd rfl hc
    refine ⟨?_, by unfold World.others; rw [hdocs]⟩
    unfold World.only
    rw [exec_docs_irrelevant (Bool.not_eq_true _ ▸ hc), h, hdocs]
    rfl

/-! ### Rows over time -/

/-- `w'` comes after `w`: the sequence has not gone back, and a row is one of `w` or has a
later id. -/
def DocsLe (w w' : World τ) : Prop :=
  w.docs.seq ≤ w'.docs.seq ∧ ∀ d ∈ w'.docs.rows, d ∈ w.docs.rows ∨ w.docs.seq < d.id

omit [Field τ] [LinearOrder τ] [FloorRing τ] in
theorem DocsLe.refl (w : World τ) : DocsLe w w := ⟨le_refl _, fun _ hd => Or.inl hd⟩

omit [Field τ] [LinearOrder τ] [FloorRing τ] in
theorem DocsLe.trans (a b c : World τ) (hab : DocsLe a b) (hbc : DocsLe b c) : DocsLe a c := by
  refine ⟨le_trans hab.1 hbc.1, ?_⟩
  intro d hd
  rcases hbc.2 d hd with hb | hlt
  · exact hab.2 d hb
  · exact Or.inr (lt_of_le_of_lt hab.1 hlt)

omit [Field τ] [LinearOrder τ] [FloorRing τ] in
/-- What an id of the past finds now it found then. -/
theorem DocsLe.byId {w w' : World τ} (h : DocsLe w w') {id : Int} {d₀ d : Document}
    (h₀ : d₀ ∈ w.docs.rows) (hid : d₀.id = id) (hd : w'.docs.byId id = some d) : d = d₀ := by
  obtain ⟨hmem, hid'⟩ := DocsTable.byId_some hd
  rcases h.2 d hmem with hold | hlt
  · exact DocsTable.eq_of_id hold h₀ (hid'.trans hid.symm)
  · have hle := (w.docs.ids d₀ h₀).2
    omega

omit [Field τ] [LinearOrder τ] [FloorRing τ] in
/-- A row that was there and is there was there in between. -/
theorem DocsLe.mem_of_mem {w v w' : World τ} (h : DocsLe v w') (hfirst : DocsLe w v)
    {d : Document} (hd : d ∈ w.docs.rows) (hd' : d ∈ w'.docs.rows) : d ∈ v.docs.rows := by
  rcases h.2 d hd' with hmem | hlt
  · exact hmem
  · have hle := (w.docs.ids d hd).2
    have hseq := hfirst.1
    omega

/-- **Ids are not reused** by a command. -/
theorem docsLe_exec {w w' : World τ} {cmd : Cmd} {ch : Choice} {r : Reply τ cmd}
    (h : exec L w cmd ch = some (r, w')) : DocsLe w w' := by
  rcases exec_docs h with hsame | ⟨_, _, _, _, _, rfl, hw⟩ | ⟨id, rfl, rfl⟩
  · exact ⟨le_of_eq (by rw [hsame]), fun d hd => Or.inl (by rw [← hsame]; exact hd)⟩
  · obtain ⟨_, _, -, -, hseq, hrows⟩ := withDocument_rows hw
    refine ⟨by omega, ?_⟩
    intro d hd
    rw [hrows] at hd
    rcases List.mem_append.mp hd with hold | hnew
    · exact Or.inl hold
    · refine Or.inr ?_
      rw [List.mem_singleton.mp hnew]
      show w.docs.seq < w.docs.seq + 1
      omega
  · refine ⟨le_refl _, ?_⟩
    intro d hd
    exact Or.inl (DocsTable.mem_delete.mp hd).1

omit [FloorRing τ] in
theorem docsLe_move {w w' : World τ} {m : Move τ} (h : w.move m = some w') : DocsLe w w' := by
  obtain ⟨hrows, hseq⟩ := move_docs h
  exact ⟨hseq, fun d hd => Or.inl (hrows ▸ hd)⟩

variable {P : App}

/-- Nor by the server. -/
theorem docsLe_next {c c' : Config (server τ P)} {s : Step (server τ P)} (hs : c.next s = some c') :
    DocsLe c.world c'.world := by
  rcases Config.next_cases hs with ⟨m, w, -, hm, rfl⟩ | ⟨r, -, rfl⟩ |
    ⟨i, ch, req, cmd, k, log, r, w, -, -, hx, rfl⟩
  · exact docsLe_move hm
  · exact DocsLe.refl _
  · exact docsLe_exec (L := P.lib) hx

/-! ### The owner test comes first -/

/-- A handler may read or delete a document by its id once the owner test on it has passed. -/
def ownership (τ : Type) (user : Int) : Discipline (services τ) where
  State := Option Int
  may s
    | .insertDocument u .. => u = user
    | .documentsByUser u => u = user
    | .ownedBy _ u => u = user
    | .documentById id | .pdfData id | .deleteDocument id => s = some id
    | _ => True
  learn s
    | .ownedBy id _ => fun owned : Option Bool => if owned = some true then some id else s
    | _ => fun _ => s

/-- An id that may be read has passed the owner test. -/
theorem ownership_after {user id : Int} : ∀ {log : List (ServerEvent τ P)} {s : Option Int},
    (ownership τ user).after s log = some id →
    s = some id ∨ ∃ e ∈ log, ∃ u, e.Is (.ownedBy id u) (some true) := by
  intro log
  induction log with
  | nil =>
      intro s h
      exact Or.inl h
  | cons e log ih =>
      intro s h
      rcases ih h with hstate | ⟨d, hd, hown⟩
      · obtain ⟨cmd, ch, w, reply, w'⟩ := e
        cases cmd with
        | ownedBy id' u =>
            by_cases hreply : reply = some true
            · subst hreply
              obtain rfl := Option.some.inj hstate
              exact Or.inr ⟨_, List.mem_cons_self, u, ch, w, w', rfl⟩
            · exact Or.inl ((if_neg hreply).symm.trans hstate)
        | _ => exact Or.inl hstate
      · exact Or.inr ⟨d, List.mem_cons_of_mem _ hd, hown⟩

section Handlers

variable {D : Discipline (services τ)} {s : D.State} {user : Int}

omit [Field τ] [LinearOrder τ] [FloorRing τ] in
theorem jsonResponse_follows (j : Json) (status : Nat) :
    (App.answer (jsonResponse j status : Action τ _)).Follows D s := by
  unfold jsonResponse
  split <;> exact trivial

omit [Field τ] [LinearOrder τ] [FloorRing τ] in
theorem signAs_follows (req : HttpRequest) {userId : Bytes} (hu : stoi userId = some user) :
    (App.answer (P.signAs req userId : Action τ _)).Follows (ownership τ user) none := by
  unfold App.signAs
  cases App.upload req with
  | error response => exact trivial
  | ok file =>
      simp only [App.signFile_eq, hu]
      cases P.signer.signingKey with
      | none => exact trivial
      | some key =>
          refine ⟨trivial, fun signature => ?_⟩
          cases signature with
          | none => exact trivial
          | some signature =>
              refine ⟨rfl, fun reply : Option Int => ?_⟩
              show Program.Follows _ _ (App.answer (if _ then _ else _))
              split
              · exact trivial
              · exact jsonResponse_follows _ _

omit [Field τ] [LinearOrder τ] [FloorRing τ] in
theorem listAs_follows {userId : Bytes} (hu : stoi userId = some user) :
    (App.answer (P.listAs userId : Action τ _)).Follows (ownership τ user) none := by
  simp only [App.listAs_eq, hu]
  refine ⟨rfl, fun docs => ?_⟩
  cases docs with
  | none => exact trivial
  | some docs => exact jsonResponse_follows _ _

omit [Field τ] [LinearOrder τ] [FloorRing τ] in
theorem readOwned_follows (id : Int) {found : Document → Bytes → Action τ HttpResponse}
    (hfound : ∀ d b, (App.answer (found d b)).Follows (ownership τ user) (some id)) :
    (App.answer (App.readOwned id user found)).Follows (ownership τ user) none := by
  rw [App.readOwned_eq]
  refine ⟨rfl, fun owned => ?_⟩
  rcases owned with _ | (_ | _)
  · exact trivial
  · exact trivial
  · refine ⟨rfl, fun doc => ?_⟩
    rcases doc with _ | doc
    · exact trivial
    · refine ⟨rfl, fun pdf => ?_⟩
      rcases pdf with _ | pdf
      · exact trivial
      · rcases doc with _ | doc
        · exact trivial
        · rcases pdf with _ | pdf
          · exact trivial
          · exact hfound doc pdf

omit [Field τ] [LinearOrder τ] [FloorRing τ] in
theorem removeAs_follows (id : Int) {userId : Bytes} (hu : stoi userId = some user) :
    (App.answer (App.removeAs id userId : Action τ _)).Follows (ownership τ user) none := by
  simp only [App.removeAs_eq, hu]
  refine ⟨rfl, fun owned => ?_⟩
  rcases owned with _ | (_ | _)
  · exact trivial
  · exact trivial
  · refine ⟨rfl, fun deleted : Option Bool => ?_⟩
    show Program.Follows _ _ (App.answer (if _ then _ else _))
    split
    · exact jsonResponse_follows _ _
    · exact trivial

omit [Field τ] [LinearOrder τ] [FloorRing τ] in
/-- **Every handler tests the owner first.** -/
theorem body_follows {r : Request} {req : HttpRequest} {body : Bytes → Action τ HttpResponse}
    (hg : P.guarded r = some (req, body)) {userId : Bytes} (hu : stoi userId = some user) :
    (App.answer (body userId)).Follows (ownership τ user) none := by
  cases r with
  | sign req =>
      cases hg
      exact signAs_follows _ hu
  | list req =>
      cases hg
      exact listAs_follows hu
  | download req id =>
      cases hg
      simp only [App.downloadAs_eq, hu]
      exact readOwned_follows id fun d b => trivial
  | verify req id =>
      cases hg
      simp only [App.verifyAs_eq, hu]
      refine readOwned_follows id fun d b => ?_
      unfold App.judge
      split
      · exact trivial
      · exact jsonResponse_follows _ _
  | remove req id =>
      cases hg
      exact removeAs_follows id hu
  | _ => cases hg

end Handlers

/-! ### Isolation -/

section Runs

variable {ok : Config (server τ P) → Step (server τ P) → Prop} {w : World τ}
  {c : Config (server τ P)} {i : Nat} {th : Thread (server τ P)} {user : Int}

/-- The handler of an authenticated request keeps to the owner test. -/
theorem may_of_rest (l : Authenticated th user) {before later : List (ServerEvent τ P)}
    {e : ServerEvent τ P} (hsplit : l.rest = before ++ e :: later) :
    (ownership τ user).may ((ownership τ user).after none before) e.cmd := by
  have hpath := l.path
  rw [hsplit] at hpath
  exact hpath.follows (body_follows l.guarded l.user_eq)

/-- An id that has passed the owner test has no row of another user when it is used. -/
theorem owner_of_tested (hrun : Reach ok (Config.fresh w) c) (hi : c.threads[i]? = some th)
    (l : Authenticated th user) {before later : List (ServerEvent τ P)} {e : ServerEvent τ P}
    (hsplit : l.rest = before ++ e :: later) {id : Int}
    (htested : (ownership τ user).after none before = some id) {d : Document}
    (hd : e.pre.docs.byId id = some d) : d.userId = user := by
  rcases ownership_after htested with hnone | ⟨e₀, he₀, u, hown⟩
  · cases hnone
  obtain ⟨first, second, hfirst⟩ := List.append_of_mem he₀
  have hrest : l.rest = first ++ e₀ :: (second ++ e :: later) := by
    rw [hsplit, hfirst]
    simp
  have hmay := may_of_rest l hrest
  rw [hown.cmd_eq] at hmay
  obtain rfl : u = user := hmay
  have hx := exec_of_mem (hrun.path_at hi) (by rw [l.log, hsplit]; simp [he₀]) hown
  obtain ⟨d₀, hd₀, hid₀, huser₀⟩ := (exec_ownedBy hx).mp rfl
  -- the row that the test found is the one that is there now
  have hlog : th.log = (l.clock :: l.looked :: before) ++ e :: later := by
    rw [l.log, hsplit]
    rfl
  have hasc := hrun.ascends DocsLe.refl DocsLe.trans (fun _ hs => docsLe_next hs) (Nat.zero_le i) hi
  rw [hlog] at hasc
  have hle := (hasc.ordered DocsLe.trans).2 e₀ (by simp [he₀])
  rw [exec_none (L := P.lib) hx rfl] at hle
  rw [hle.byId hd₀ hid₀ hd]
  exact huser₀

/-- **Every statement of an authenticated request is its user's.** -/
theorem own_of_mem (hrun : Reach ok (Config.fresh w) c) (hi : c.threads[i]? = some th)
    (l : Authenticated th user) {e : ServerEvent τ P} (he : e ∈ th.log) : e.cmd.Own user e.pre := by
  rw [l.log] at he
  rcases List.mem_cons.mp he with rfl | he
  · rw [l.clock_is.cmd_eq]
    exact trivial
  rcases List.mem_cons.mp he with rfl | he
  · rw [l.looked_is.cmd_eq]
    exact trivial
  obtain ⟨before, later, hsplit⟩ := List.append_of_mem he
  have hmay := may_of_rest l hsplit
  cases hcmd : e.cmd with
  | insertDocument u filename pdf sig sha =>
      rw [hcmd] at hmay
      exact hmay
  | documentsByUser u =>
      rw [hcmd] at hmay
      exact hmay
  | ownedBy id u =>
      rw [hcmd] at hmay
      exact hmay
  | documentById id =>
      rw [hcmd] at hmay
      exact fun d hd => owner_of_tested hrun hi l hsplit hmay hd
  | pdfData id =>
      rw [hcmd] at hmay
      exact fun d hd => owner_of_tested hrun hi l hsplit hmay hd
  | deleteDocument id =>
      rw [hcmd] at hmay
      exact fun d hd => owner_of_tested hrun hi l hsplit hmay hd
  | _ => exact trivial

end Runs

/-! ### What an answer depends on -/

omit [Field τ] [LinearOrder τ] [FloorRing τ] in
theorem statement_reply {α : Type} {w ran v w' ran' v' : World τ} {reply r r' : Option α}
    {ch : Choice} (h : statement w reply ran ch = some (r, v))
    (h' : statement w' reply ran' ch = some (r', v')) : r = r' := by
  unfold statement at h h'
  cases ch with
  | done =>
      have hr := (Prod.mk.inj (Option.some.inj h)).1
      exact hr.symm.trans (Prod.mk.inj (Option.some.inj h')).1
  | threw =>
      have hr := (Prod.mk.inj (Option.some.inj h)).1
      exact hr.symm.trans (Prod.mk.inj (Option.some.inj h')).1
  | _ => cases h

/-- The user's rows before and after a statement determine what it answers. -/
theorem reply_of_own {w v w' v' : World τ} {user : Int} {c : Cmd} {ch : Choice} {r r' : Reply τ c}
    (hc : c.onDocuments = true) (h : exec L (w.only user) c ch = some (r, v.only user))
    (h' : exec L (w'.only user) c ch = some (r', v'.only user))
    (hbefore : w.own user = w'.own user) (hafter : v.own user = v'.own user) : r = r' := by
  have hrows : (w.only user).docs.rows = (w'.only user).docs.rows := hbefore
  cases c with
  | insertDocument u filename pdf sig sha =>
      have hrows' : (v.only user).docs.rows = (v'.only user).docs.rows := hafter
      rcases exec_insertDocument h with ⟨rfl, hw⟩ | ⟨rfl, hw⟩ <;>
        rcases exec_insertDocument h' with ⟨rfl, hw'⟩ | ⟨rfl, hw'⟩
      · obtain ⟨_, _, -, -, hseq, hadd⟩ := withDocument_rows hw
        obtain ⟨_, _, -, -, hseq', hadd'⟩ := withDocument_rows hw'
        rw [hadd, hadd', hrows] at hrows'
        have hid := congrArg Document.id (List.cons.inj (List.append_cancel_left hrows')).1
        rw [hseq, hseq']
        exact congrArg some hid
      · obtain ⟨_, _, -, -, -, hadd⟩ := withDocument_rows hw
        rw [hw', hadd, hrows] at hrows'
        simpa using congrArg List.length hrows'
      · obtain ⟨_, _, -, -, -, hadd⟩ := withDocument_rows hw'
        rw [hw, hadd, hrows] at hrows'
        simpa using congrArg List.length hrows'
      · rfl
  | documentById id =>
      simp only [exec, DocsTable.byId_congr hrows] at h h'
      exact statement_reply h h'
  | documentsByUser u =>
      simp only [exec, hrows] at h h'
      exact statement_reply h h'
  | pdfData id =>
      simp only [exec, DocsTable.byId_congr hrows] at h h'
      exact statement_reply h h'
  | ownedBy id u =>
      simp only [exec, hrows] at h h'
      exact statement_reply h h'
  | deleteDocument id =>
      simp only [exec, DocsTable.byId_congr hrows] at h h'
      exact statement_reply h h'
  | _ => cases hc

/-- Two events that look the same to a user: the services other than the documents answer the
same, PostgreSQL fails or not at both, and the user's rows are the same before and after. -/
structure Agree (user : Int) (e e' : ServerEvent τ P) : Prop where
  services : e.cmd.onDocuments = false → ∀ c r r', e.Is c r → e'.Is c r' → r = r'
  outcome : e.cmd.onDocuments = true → e.choice = e'.choice
  before : e.pre.own user = e'.pre.own user
  after : e.post.own user = e'.post.own user

/-- The document a request names. -/
def Request.document : Request → Option Int
  | .download _ id => some id
  | .verify _ id => some id
  | .remove _ id => some id
  | _ => none

omit [Field τ] [LinearOrder τ] [FloorRing τ] in
/-- A handler that names a document starts with its owner test, and takes its word. -/
theorem owner_test_first {r : Request} {req : HttpRequest} {body : Bytes → Action τ HttpResponse}
    (hg : P.guarded r = some (req, body)) {id user : Int} (hid : r.document = some id)
    {userId : Bytes} (hu : stoi userId = some user) :
    ∃ k : Option Bool → Action τ Result,
      App.answer (body userId) = .call (S := services τ) (.ownedBy id user) k ∧
      k none = .throw .query ∧ k (some false) =
        .ret (.response (errorResponse "Not found" 404)) := by
  cases r with
  | download req id' =>
      cases hg
      cases hid
      simp only [App.downloadAs_eq, hu, App.readOwned_eq]
      exact ⟨_, rfl, rfl, rfl⟩
  | verify req id' =>
      cases hg
      cases hid
      simp only [App.verifyAs_eq, hu, App.readOwned_eq]
      exact ⟨_, rfl, rfl, rfl⟩
  | remove req id' =>
      cases hg
      cases hid
      simp only [App.removeAs_eq, hu]
      exact ⟨_, rfl, rfl, rfl⟩
  | _ => cases hid

/-- **Users are isolated.**  In any run, every statement of a request authenticated as a user
answers and leaves of that user's rows what it would if no other rows were there, and
leaves the others' rows as they are; two such requests that ask the same and see the same
rows of their user come to the same, whatever else the tables hold; and a document that is
not the user's at the owner test is not found. -/
theorem documents_isolated {w : World τ} {c : Config (server τ P)}
    (hrun : Reach (fun _ _ => True) (Config.fresh w) c) {i : Nat} {th : Thread (server τ P)}
    (hi : c.threads[i]? = some th) {user : Int} (l : Authenticated th user) :
    (∀ e ∈ th.log, exec P.lib (e.pre.only user) e.cmd e.choice = some (e.reply, e.post.only user) ∧
      e.post.others user = e.pre.others user) ∧
    (∀ (w' : World τ) (c' : Config (server τ P)) (j : Nat) (th' : Thread (server τ P)),
      Reach (fun _ _ => True) (Config.fresh w') c' → c'.threads[j]? = some th' →
      Nonempty (Authenticated th' user) → th'.req = th.req →
      List.Forall₂ (Agree user) th.log th'.log → th'.rest = th.rest) ∧
    ∀ id, th.req.document = some id → th.rest.Done →
      (∀ e ∈ th.log, e.cmd = .ownedBy id user → ∀ d ∈ e.pre.own user, d.id ≠ id) →
      th.rest = .ret (.response (errorResponse "Not found" 404)) ∨ th.rest = .throw .query := by
  have hp := hrun.path_at hi
  have hown : ∀ e ∈ th.log, exec P.lib (e.pre.only user) e.cmd e.choice =
      some (e.reply, e.post.only user) ∧ e.post.others user = e.pre.others user := by
    intro e he
    exact exec_only (own_of_mem hrun hi l he) (hp.real e he)
  refine ⟨hown, ?_, ?_⟩
  · intro w' c' j th' hrun' hj ⟨l'⟩ hreq hagree
    have hp' := hrun'.path_at hj
    rw [hreq] at hp'
    refine (Path.determined hp hp' hagree ?_).symm
    intro e he e' he' h cmd r r' hr hr'
    by_cases hdocs : e.cmd.onDocuments = true
    · have hx := (hown e he).1
      have hx' := (exec_only (own_of_mem hrun' hj l' he') (hp'.real e' he')).1
      have hchoice := h.outcome hdocs
      have hbefore := h.before
      have hafter := h.after
      obtain ⟨ch, v, v', rfl⟩ := hr
      obtain ⟨ch', u, u', rfl⟩ := hr'
      obtain rfl : ch = ch' := hchoice
      exact reply_of_own hdocs hx hx' hbefore hafter
    · exact h.services (by simpa using hdocs) cmd r r' hr hr'
  · intro id hid hdone hnone
    obtain ⟨k, hcall, hthrow, hfalse⟩ := owner_test_first l.guarded hid l.user_eq
    have hpath := l.path
    rw [hcall] at hpath
    rcases path_call.mp hpath with ⟨-, hq⟩ | ⟨e, reply, rest, -, he, hl, hp₁⟩
    · rw [hq] at hdone
      exact hdone.elim
    · have hmem : e ∈ th.log := by
        rw [l.log, hl]
        simp
      rcases reply with _ | (_ | _)
      · rw [hthrow] at hp₁
        exact Or.inr (path_throw.mp hp₁).2
      · rw [hfalse] at hp₁
        exact Or.inl (path_ret.mp hp₁).2
      · obtain ⟨d, hd, hdid, hduser⟩ := (exec_ownedBy (exec_of_mem hp hmem he)).mp rfl
        refine absurd hdid (hnone e hmem he.cmd_eq d ?_)
        exact List.mem_filter.mpr ⟨hd, by simpa using hduser⟩

/-! ### A document of somebody else -/

/-- One document, of user 2. -/
def Sample.foreign : DocsTable where
  rows := [⟨1, 2, ascii "a.pdf", [], [], [], 0⟩]
  seq := 1
  seq_le := one_le_serialMax
  ids := by simp
  idsNodup := by simp

/-- The first account asks for a document that is there and not its own. -/
theorem documents_isolated_sample :
    ∃ (c : Config (server ℚ Sample.app)) (th : Thread (server ℚ Sample.app)) (d : Document),
      c.threads[0]? = some th ∧ th.req = .download (Sample.request none) 1 ∧
      d ∈ c.world.docs.rows ∧ d.id = 1 ∧
      th.rest = .ret (.response (errorResponse "Not found" 404)) := by
  let w := Sample.sessionWith Sample.foreign
  let owner : ServerEvent ℚ Sample.app := ⟨.ownedBy 1 Sample.user.id, .done, w, some false, w⟩
  let th : Thread (server ℚ Sample.app) := ⟨.download (Sample.request none) 1,
    .ret (.response (errorResponse "Not found" 404)),
    tokenEvents Sample.app w (toDecimal Sample.user.id) (hex Sample.draw) ++ [owner]⟩
  have hg : App.guarded Sample.app th.req =
      some (Sample.request none, (Sample.app.downloadAs 1 : Bytes → Action ℚ _)) := rfl
  have hbody : Path (App.answer (Sample.app.downloadAs 1 (toDecimal Sample.user.id))) [owner]
      (.ret (.response (errorResponse "Not found" 404))) := by
    simp only [App.downloadAs_eq, Sample.user_id, App.readOwned_eq]
    exact ⟨_, _, some false, _, rfl, rfl, path_nil.mpr rfl⟩
  have hpath := path_letIn (P := Sample.app) (w := w) hg (Sample.presented none)
    Sample.payload_token Sample.readPayload_token (Sample.live_sessionWith _) hbody
  have hrun : Reach (fun _ _ => True) (Config.fresh w) ⟨w, [] ++ [th]⟩ :=
    reach_solo hpath ⟨rfl, rfl, rfl, rfl⟩ .always
  obtain ⟨l, -⟩ : ∃ l : Authenticated th Sample.user.id, l.userId = toDecimal Sample.user.id :=
    authenticated (P := Sample.app) (w := w) hg (Sample.presented none) Sample.payload_token
      Sample.readPayload_token Sample.user_id hbody
  have hnone : ∀ e ∈ th.log, e.cmd = .ownedBy 1 Sample.user.id →
      ∀ d ∈ e.pre.own Sample.user.id, d.id ≠ 1 := by
    have hown : w.own Sample.user.id = [] := by decide
    intro e he _ d hd
    have hpre : e.pre = w := by
      simp only [th, tokenEvents, List.mem_append, List.mem_cons, List.not_mem_nil, or_false] at he
      rcases he with (rfl | rfl) | rfl <;> rfl
    rw [hpre, hown] at hd
    cases hd
  have hfound := (documents_isolated (P := Sample.app) hrun (i := 0) rfl l).2.2 1 rfl trivial hnone
  refine ⟨⟨w, [] ++ [th]⟩, th, ⟨1, 2, ascii "a.pdf", [], [], [], 0⟩, rfl, rfl,
    List.mem_singleton_self _, rfl, ?_⟩
  exact hfound.resolve_right fun h => by cases h

end PqcApi
