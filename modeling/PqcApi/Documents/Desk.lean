/-
Document requests once their user is known.

The desk is the server without its door: every request comes with the user its token was
checked for, and what is left of it are the statements on `documents`.  A request has its
effect, if any, at its last statement, and ids are not reused, so what its earlier statements
saw of a row is still so if the row is still there.  A delete is the exception: it does not
ask whether its row is still there, and `Calm` is where it need not ask.
-/
import PqcApi.Concurrent.Linear
import PqcApi.Documents.Handlers

namespace PqcApi

open Concurrent

/-- What a document request asks for. -/
inductive DocumentCall
  | sign (req : HttpRequest)
  | list
  | download (id : Int)
  | verify (id : Int)
  | remove (id : Int)

/-- What a handler does for a known user. -/
def App.serve {τ : Type} (P : App) (userId : Bytes) : DocumentCall → Action τ HttpResponse
  | .sign req => P.signAs req userId
  | .list => P.listAs userId
  | .download id => P.downloadAs id userId
  | .verify id => P.verifyAs id userId
  | .remove id => App.removeAs id userId

variable {τ : Type} [Field τ] [LinearOrder τ] [FloorRing τ] {P : App}

variable (τ) in
/-- The document requests of known users, with their statements interleaved. -/
abbrev desk (P : App) : System (services τ) :=
  { machine τ P.lib with
    Req := Bytes × DocumentCall, Out := Result,
    program := fun r => App.answer (P.serve r.1 r.2) }

variable (τ) in
/-- A statement answered for one of them. -/
abbrev DeskEvent (P : App) : Type := Event (desk τ P).toMachine

/-- The call a request of the server makes. -/
def Request.call : Request → Option DocumentCall
  | .sign req => some (.sign req)
  | .list _ => some .list
  | .download _ id => some (.download id)
  | .verify _ id => some (.verify id)
  | .remove _ id => some (.remove id)
  | _ => none

omit [Field τ] [LinearOrder τ] [FloorRing τ] in
/-- Past the door, a request of the server is one of the desk. -/
theorem guarded_call {r : Request} {call : DocumentCall} (h : r.call = some call) :
    ∃ header, P.guarded r = some (header,
      (fun userId => P.serve userId call : Bytes → Action τ _)) := by
  cases r <;> cases h <;> exact ⟨_, rfl⟩

/-! ### Statements -/

/-- No statement throws because the database has failed. -/
def NoThrow (_w : World τ) (cmd : Cmd) (ch : Choice) : Prop := cmd.onDocuments = true → ch ≠ .threw

/-- Nor does a delete come too late for its row, nor is a name stored that cannot be dumped. -/
structure Calm (w : World τ) (cmd : Cmd) (ch : Choice) : Prop where
  answered : NoThrow w cmd ch
  there : ∀ id, cmd = .deleteDocument id → (w.docs.byId id).isSome
  name : ∀ user filename pdf sig sha, cmd = .insertDocument user filename pdf sig sha →
    (w.withDocument user filename pdf sig sha).isSome → utf8 filename = true

/-- A command without effect need only be answered. -/
theorem Calm.of_effect {w : World τ} {cmd : Cmd} {ch : Choice} (h : cmd.effect = .none)
    (hch : NoThrow w cmd ch) : Calm w cmd ch := by
  refine ⟨hch, ?_, ?_⟩
  · intro id hcmd
    rw [hcmd] at h
    cases h
  · intro user filename pdf sig sha hcmd
    rw [hcmd] at h
    cases h

theorem Calm.read {w : World τ} {cmd : Cmd} (h : cmd.effect = .none) : Calm w cmd .done := by
  refine Calm.of_effect h fun _ hch => ?_
  cases hch

/-- Random bytes are drawn without a look at the world. -/
theorem exec_digestSign_anywhere {w w' : World τ} {key : PKey} {data : Bytes} {ch : Choice}
    {r : Option Bytes} {L : Lib} (h : exec L w (.digestSign key data) ch = some (r, w'))
    (v : World τ) : exec L v (.digestSign key data) ch = some (r, v) := by
  simp only [exec, randomized] at h ⊢
  split at h
  · rw [(Prod.mk.inj (Option.some.inj h)).1]
  · rw [(Prod.mk.inj (Option.some.inj h)).1]
  · cases h

/-- The owner test on a row that is there. -/
theorem exec_ownedBy_of_mem {w : World τ} {d : Document} {L : Lib} (hd : d ∈ w.docs.rows) :
    exec L w (.ownedBy d.id d.userId) .done = some (some true, w) := by
  have hany : (w.docs.rows.any fun e => e.id = d.id ∧ e.userId = d.userId) = true :=
    List.any_eq_true.mpr ⟨d, hd, by simp⟩
  simp only [exec, statement, hany]

/-- The owner test on an id without a row. -/
theorem exec_ownedBy_of_none {w : World τ} {id user : Int} {L : Lib}
    (h : w.docs.byId id = none) :
    exec L w (.ownedBy id user) .done = some (some false, w) := by
  have hany : (w.docs.rows.any fun e => e.id = id ∧ e.userId = user) = false := by
    rw [List.any_eq_false]
    intro d hd
    simpa using fun hid => absurd hid (DocsTable.byId_none h d hd)
  simp only [exec, statement, hany]

/-! ### Serving alone -/

/-- Served alone from `w`, a program comes to `q` and the world `w'`, and all is calm. -/
def Alone (p : Action τ Result) (w : World τ) (q : Action τ Result) (w' : World τ) : Prop :=
  ∃ events : List (DeskEvent τ P), Path p events q ∧ Joined (Y := desk τ P) w events w' ∧
    ∀ e ∈ events, Calm e.pre e.cmd e.choice

theorem Alone.refl (p : Action τ Result) (w : World τ) : Alone (P := P) p w p w :=
  ⟨[], path_nil.mpr rfl, rfl, by simp⟩

/-- One statement first. -/
theorem Alone.step {w v w' : World τ} {cmd : Cmd} {k : Reply τ cmd → Action τ Result} {ch : Choice}
    {r : Reply τ cmd} {q : Action τ Result} (hx : exec P.lib w cmd ch = some (r, v))
    (hch : Calm w cmd ch) (h : Alone (P := P) (k r) v q w') :
    Alone (P := P) (.call (S := services τ) cmd k) w q w' := by
  obtain ⟨events, hpath, hjoined, hall⟩ := h
  refine ⟨⟨cmd, ch, w, r, v⟩ :: events, ⟨ch, w, r, v, hx, rfl, hpath⟩, ⟨rfl, hjoined⟩, ?_⟩
  intro e he
  rcases List.mem_cons.mp he with rfl | hmem
  · exact hch
  · exact hall e hmem

/-- The answer to a command leaves the request at work and the world as it was, or it ends the
request, which served alone from this world comes to the same. -/
def Commits (p : Action τ Result) (w : World τ) (q : Action τ Result) (w' : World τ) : Prop :=
  (¬ q.Done ∧ w' = w) ∨ (q.Done ∧ Alone (P := P) p w q w')

/-- A first command that ends the request. -/
theorem commits_first {w w' : World τ} {cmd : Cmd} {k : Reply τ cmd → Action τ Result}
    {ch : Choice} {r : Reply τ cmd} (hx : exec P.lib w cmd ch = some (r, w'))
    (hch : Calm w cmd ch) (hdone : (k r).Done) :
    Commits (P := P) (.call (S := services τ) cmd k) w (k r) w' :=
  Or.inr ⟨hdone, Alone.step hx hch (Alone.refl _ _)⟩

section Commits

variable {log : List (DeskEvent τ P)} {cmd : Cmd} {k : Reply τ cmd → Action τ Result}
  {w₀ w w' : World τ} {ch : Choice} {r : Reply τ cmd} {userId : Bytes}

/-- The only command of a request that has ended. -/
theorem commits_only {p : Action τ Result} {e : DeskEvent τ P} (hp : Path p log (.call cmd k))
    (hx : exec P.lib w cmd ch = some (r, w')) (hch : Calm w cmd ch)
    (hlog : log ++ [⟨cmd, ch, w, r, w'⟩] = [e]) (hdone : (k r).Done) :
    Commits (P := P) p w (k r) w' := by
  obtain ⟨rfl, -⟩ := List.append_singleton_inj.mp (show log ++ [_] = [] ++ [e] from hlog)
  rw [path_nil.mp hp]
  exact commits_first hx hch hdone

/-- An upload takes effect at its insert; its signature may as well be made then. -/
theorem signAs_commits {req : HttpRequest}
    (hp : Path (App.answer (P.signAs req userId)) log (.call cmd k))
    (hx : exec P.lib w cmd ch = some (r, w')) (hch : Calm w cmd ch) :
    Commits (P := P) (App.answer (P.signAs req userId)) w (k r) w' := by
  cases signAs_path (hp.snoc hx) with
  | refused _ _ hlog _ => simp at hlog
  | keyless _ hlog _ => simp at hlog
  | asked hlog _ => simp at hlog
  | failed e key data h hlog hq => exact commits_only hp hx hch hlog (by rw [hq]; exact trivial)
  | nobody e key data signature h _ hlog hq =>
      exact commits_only hp hx hch hlog (by rw [hq]; exact trivial)
  | signed e key data signature h hlog hq =>
      obtain ⟨-, rfl⟩ := List.append_singleton_inj.mp (show log ++ [_] = [] ++ [e] from hlog)
      obtain rfl : cmd = .digestSign key data := h.cmd_eq
      exact Or.inl ⟨hq, exec_none hx rfl⟩
  | stored file key user signature reply e₁ e₂ hup hkey huser h₁ h₂ hlog hq =>
      obtain ⟨rfl, rfl⟩ := List.append_singleton_inj.mp (show log ++ [_] = [e₁] ++ [e₂] from hlog)
      refine Or.inr ⟨?_, ?_⟩
      · rw [hq]
        split
        · exact trivial
        · exact jsonResponse_done _ _
      have hsigned := exec_digestSign_anywhere (h₁.exec (hp.real e₁ List.mem_cons_self)) w
      obtain ⟨_, _, _, heq⟩ := h₂
      cases heq
      unfold App.signAs
      rw [hup]
      dsimp only
      rw [App.signFile_eq, hkey]
      refine Alone.step hsigned (Calm.of_effect rfl fun h => by cases h) ?_
      dsimp only
      rw [huser, hq]
      exact Alone.step hx hch (Alone.refl _ _)

/-- A list is one statement. -/
theorem listAs_commits (hp : Path (App.answer (P.listAs userId)) log (.call cmd k))
    (hx : exec P.lib w cmd ch = some (r, w')) (hch : Calm w cmd ch) :
    Commits (P := P) (App.answer (P.listAs userId)) w (k r) w' := by
  rw [App.listAs_eq] at hp ⊢
  cases huser : stoi userId with
  | none =>
      rw [huser] at hp
      cases (path_throw.mp hp).2
  | some user =>
      rw [huser] at hp
      dsimp only at hp ⊢
      rcases path_call.mp hp with ⟨-, hq⟩ | ⟨e, reply, rest, -, -, -, hp₁⟩
      · cases hq
        rcases r with _ | docs
        · exact commits_first hx hch trivial
        · exact commits_first hx hch (jsonResponse_done _ _)
      · rcases reply with _ | docs
        · cases (path_throw.mp hp₁).2
        · exact (Path.stays_done (jsonResponse_done _ _) hp₁).elim

/-- The reads of `download` and `verify` take effect at the last of them: the row that passed
the owner test is the one they have read, or it is gone and so it would be not found. -/
theorem readOwned_commits {id user : Int} {found : Document → Bytes → Action τ HttpResponse}
    (hfound : ∀ d pdf, (App.answer (found d pdf)).Done)
    (hp : Path (App.answer (App.readOwned id user found)) log (.call cmd k))
    (hasc : Ascends (Y := desk τ P) DocsLe w₀ log w) (hx : exec P.lib w cmd ch = some (r, w'))
    (hch : Calm w cmd ch) :
    Commits (P := P) (App.answer (App.readOwned id user found)) w (k r) w' := by
  cases readOwned_path (hp.snoc hx) with
  | waiting hlog hq => exact Or.inl ⟨hq, exec_none hx (hlog ⟨cmd, ch, w, r, w'⟩ (by simp))⟩
  | threw e hlast hcmd h =>
      obtain rfl : (⟨cmd, ch, w, r, w'⟩ : DeskEvent τ P) = e := by simpa using hlast
      exact absurd h (hch.answered hcmd)
  | missing e h hlog hq => exact commits_only hp hx hch hlog (by rw [hq]; exact trivial)
  | read e₁ e₂ e₃ rest doc pdf h₁ h₂ h₃ hlog hrest =>
      have hdone : (App.answer (App.shown found doc pdf)).Done := by
        rcases doc with _ | doc
        · exact trivial
        · rcases pdf with _ | pdf
          · exact trivial
          · exact hfound doc pdf
      obtain ⟨rfl, hq⟩ := Path.done hdone hrest
      obtain ⟨rfl, rfl⟩ := List.append_singleton_inj.mp
        (show log ++ [_] = [e₁, e₂] ++ [e₃] from hlog)
      obtain ⟨d, hd, rfl, rfl⟩ := (exec_ownedBy (exec_of_mem hp (by simp) h₁)).mp rfl
      obtain ⟨-, hle₁, hle₂, hle₃, hasc₂⟩ := hasc
      have hseen : DocsLe e₁.pre e₂.pre := hle₁.trans _ _ _ hle₂
      have hlast : DocsLe e₂.pre w := hle₃.trans _ _ _ (hasc₂.le DocsLe.trans)
      obtain ⟨_, _, _, heq⟩ := h₃
      cases heq
      obtain rfl := exec_none hx rfl
      have hpdf := exec_pdfData hx
      refine Or.inr ⟨by rw [hq]; exact hdone, ?_⟩
      rw [App.readOwned_eq, hq]
      cases hnow : w'.docs.byId d.id with
      | none =>
          rw [hnow, Option.map_none] at hpdf
          obtain rfl := hpdf
          refine Alone.step (exec_ownedBy_of_none hnow) (Calm.read rfl) ?_
          rcases doc with _ | doc <;> exact Alone.refl _ _
      | some d' =>
          obtain rfl : d' = d := (hseen.trans _ _ _ hlast).byId hd rfl hnow
          have hmem := (DocsTable.byId_some hnow).1
          have hthen : e₂.pre.docs.byId d'.id = some d' :=
            DocsTable.byId_of_mem (hlast.mem_of_mem hseen hd hmem)
          obtain rfl : doc = some d' :=
            (exec_documentById (exec_of_mem hp (by simp) h₂)).trans hthen
          have hread : exec P.lib w' (.documentById d'.id) .done = some (some (some d'), w') := by
            simp only [exec, statement, hnow]
          refine Alone.step (exec_ownedBy_of_mem hmem) (Calm.read rfl) ?_
          refine Alone.step hread (Calm.read rfl) ?_
          exact Alone.step hx hch (Alone.refl _ _)

/-- A remove takes effect at its delete: the row is there, and it is the one of the owner test. -/
theorem removeAs_commits {id : Int}
    (hp : Path (App.answer (App.removeAs id userId)) log (.call cmd k))
    (hasc : Ascends (Y := desk τ P) DocsLe w₀ log w) (hx : exec P.lib w cmd ch = some (r, w'))
    (hch : Calm w cmd ch) :
    Commits (P := P) (App.answer (App.removeAs id userId)) w (k r) w' := by
  cases huser : stoi userId with
  | none =>
      rw [App.removeAs_eq, huser] at hp
      cases (path_throw.mp hp).2
  | some user =>
      cases removeAs_path huser (hp.snoc hx) with
      | waiting hlog hq => exact Or.inl ⟨hq, exec_none hx (hlog ⟨cmd, ch, w, r, w'⟩ (by simp))⟩
      | threw e hcmd h hlog =>
          obtain ⟨-, rfl⟩ := List.append_singleton_inj.mp (show log ++ [_] = [] ++ [e] from hlog)
          obtain rfl : cmd = .ownedBy id user := hcmd
          exact absurd h (hch.answered rfl)
      | missing e h hlog hq => exact commits_only hp hx hch hlog (by rw [hq]; exact trivial)
      | deleted e₁ e₂ deleted h₁ h₂ hlog hq =>
          obtain ⟨rfl, rfl⟩ := List.append_singleton_inj.mp
            (show log ++ [_] = [e₁] ++ [e₂] from hlog)
          obtain ⟨d, hd, rfl, rfl⟩ := (exec_ownedBy (exec_of_mem hp (by simp) h₁)).mp rfl
          obtain ⟨-, hle₁, hasc₁⟩ := hasc
          have hseen : DocsLe e₁.pre w := hle₁.trans _ _ _ (hasc₁.le DocsLe.trans)
          obtain ⟨_, _, _, heq⟩ := h₂
          cases heq
          obtain ⟨d', hnow⟩ := Option.isSome_iff_exists.mp (hch.there d.id rfl)
          obtain rfl : d' = d := hseen.byId hd rfl hnow
          refine Or.inr ⟨by rw [hq]; exact trivial, ?_⟩
          rw [App.removeAs_eq, huser, hq]
          refine Alone.step (exec_ownedBy_of_mem (DocsTable.byId_some hnow).1) (Calm.read rfl) ?_
          refine Alone.step hx hch ?_
          rw [← removeAs_end]
          exact Alone.refl _ _

end Commits

/-! ### The desk -/

/-- Documents over a run of the desk. -/
theorem docsLe_desk {c c' : Config (desk τ P)} {s : Step (desk τ P)} (hs : c.next s = some c') :
    DocsLe c.world c'.world := by
  rcases Config.next_cases hs with ⟨m, w, -, hm, rfl⟩ | ⟨r, -, rfl⟩ |
    ⟨i, ch, req, cmd, k, log, r, w, -, -, hx, rfl⟩
  · exact docsLe_move hm
  · exact DocsLe.refl _
  · exact docsLe_exec (L := P.lib) hx

/-- **Every request takes effect at its last statement.** -/
theorem desk_commits (w : World τ) : CommitsLast (Y := desk τ P) (Under Calm) Calm w := by
  intro c i req cmd k log ch r w' hrun hi hok hx
  have hp := hrun.path_at hi
  have hasc := hrun.ascends DocsLe.refl DocsLe.trans (fun _ hs => docsLe_desk hs) (Nat.zero_le i) hi
  have hch : Calm c.world cmd ch := hok _ cmd k hi rfl
  obtain ⟨userId, call⟩ := req
  show Commits (P := P) (App.answer (P.serve userId call)) c.world (k r) w'
  cases call with
  | sign req => exact signAs_commits hp hx hch
  | list => exact listAs_commits hp hx hch
  | download id =>
      have hp : Path (App.answer (P.downloadAs id userId)) log (.call cmd k) := hp
      show Commits (App.answer (P.downloadAs id userId)) c.world (k r) w'
      rw [App.downloadAs_eq] at hp ⊢
      cases huser : stoi userId with
      | none =>
          rw [huser] at hp
          cases (path_throw.mp hp).2
      | some user =>
          rw [huser] at hp
          exact readOwned_commits (fun _ _ => trivial) hp hasc hx hch
  | verify id =>
      have hp : Path (App.answer (P.verifyAs id userId)) log (.call cmd k) := hp
      show Commits (App.answer (P.verifyAs id userId)) c.world (k r) w'
      rw [App.verifyAs_eq] at hp ⊢
      cases huser : stoi userId with
      | none =>
          rw [huser] at hp
          cases (path_throw.mp hp).2
      | some user =>
          rw [huser] at hp
          refine readOwned_commits (fun doc pdf => ?_) hp hasc hx hch
          unfold App.judge
          split
          · exact trivial
          · exact jsonResponse_done _ _
  | remove id => exact removeAs_commits hp hasc hx hch

end PqcApi
