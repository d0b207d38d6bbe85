/-
Programs that talk to a shared world one command at a time.

A `Program` is a tree: it returns, it throws, or it issues one command and goes
on with the reply.  A machine says what a command does to the world once the
environment has made its choice about it, be it a value drawn at random or the
way a remote call fails.  `Path` is the only semantics used afterwards: it says
which record of answered commands leads a program from where it starts to what
is left of it, so a fact about a function is a fact about its paths.

Nothing here knows what the commands are.
-/
import Mathlib.Logic.Basic
import Mathlib.Data.List.Forall2

namespace Concurrent

/-- The commands a program may issue, the reply to each, and what it may throw. -/
structure Signature where
  Cmd : Type
  Reply : Cmd → Type
  Exn : Type

/-- A program over a signature. -/
inductive Program (S : Signature) (α : Type) : Type
  | ret (a : α)
  | throw (e : S.Exn)
  | call (c : S.Cmd) (k : S.Reply c → Program S α)

namespace Program

variable {S : Signature} {α β γ : Type}

/-- Sequencing: a thrown exception skips what follows. -/
def bind : Program S α → (α → Program S β) → Program S β
  | .ret a, f => f a
  | .throw e, _ => .throw e
  | .call c k, f => .call c fun r => (k r).bind f

/-- `try`/`catch` around a whole program. -/
def handle : Program S α → (S.Exn → Program S α) → Program S α
  | .ret a, _ => .ret a
  | .throw e, h => h e
  | .call c k, h => .call c fun r => (k r).handle h

/-- Issue one command and return its reply. -/
def perform (c : S.Cmd) : Program S (S.Reply c) := .call c .ret

instance : Monad (Program S) where
  pure := .ret
  bind := bind

@[simp] theorem pure_eq (a : α) : (pure a : Program S α) = .ret a := rfl

@[simp] theorem bind_eq (p : Program S α) (f : α → Program S β) : p >>= f = p.bind f := rfl

@[simp] theorem ret_bind (a : α) (f : α → Program S β) : (ret a).bind f = f a := rfl

@[simp] theorem call_bind (c : S.Cmd) (k : S.Reply c → Program S α) (f : α → Program S β) :
    (call c k).bind f = .call c fun r => (k r).bind f := rfl

theorem bind_assoc (p : Program S α) (f : α → Program S β) (g : β → Program S γ) :
    (p.bind f).bind g = p.bind fun a => (f a).bind g := by
  induction p with
  | ret a => rfl
  | throw e => rfl
  | call c k ih =>
      simp only [call_bind]
      exact congrArg (call c) (funext fun r => ih r)

/-- Nothing is left to run: the program has returned or thrown. -/
def Done : Program S α → Prop
  | .ret _ => True
  | .throw _ => True
  | .call _ _ => False

/-- Every command the program may issue, whatever the replies, satisfies `P`. -/
def Only (P : S.Cmd → Prop) : Program S α → Prop
  | .ret _ => True
  | .throw _ => True
  | .call c k => P c ∧ ∀ r, (k r).Only P

theorem Only.bind {P : S.Cmd → Prop} {p : Program S α} {f : α → Program S β}
    (hp : p.Only P) (hf : ∀ a, (f a).Only P) : (p.bind f).Only P := by
  induction p with
  | ret a => exact hf a
  | throw e => exact trivial
  | call c k ih => exact ⟨hp.1, fun r => ih r (hp.2 r)⟩

theorem Only.handle {P : S.Cmd → Prop} {p : Program S α} {h : S.Exn → Program S α}
    (hp : p.Only P) (hh : ∀ e, (h e).Only P) : (p.handle h).Only P := by
  induction p with
  | ret a => exact trivial
  | throw e => exact hh e
  | call c k ih => exact ⟨hp.1, fun r => ih r (hp.2 r)⟩

end Program

/-! ### Machines -/

/-- What commands do to the world.  `Choice` is what the environment decides about
one command; `Move` is what it does to the world on its own. -/
structure Machine (S : Signature) where
  World : Type
  Choice : Type
  Move : Type
  exec : World → (c : S.Cmd) → Choice → Option (S.Reply c × World)
  move : World → Move → Option World

/-- One answered command, with the world before and after it. -/
structure Event {S : Signature} (M : Machine S) where
  cmd : S.Cmd
  choice : M.Choice
  pre : M.World
  reply : S.Reply cmd
  post : M.World

variable {S : Signature} {M : Machine S} {α β : Type}

/-- The machine really answers the command this way. -/
def Event.Real (e : Event M) : Prop :=
  M.exec e.pre e.cmd e.choice = some (e.reply, e.post)

/-- The program run alone, every command under the same choice: what it comes to, and the
world it leaves.  `none` if the machine has no answer under that choice. -/
def Machine.alone (M : Machine S) (ch : M.Choice) :
    M.World → Program S α → Option (Program S α × M.World)
  | w, .ret a => some (.ret a, w)
  | w, .throw e => some (.throw e, w)
  | w, .call c k =>
      match M.exec w c ch with
      | some (r, w') => M.alone ch w' (k r)
      | none => none

/-- The event is the answer `r` to the command `c`. -/
def Event.Is (e : Event M) (c : S.Cmd) (r : S.Reply c) : Prop :=
  ∃ ch w w', e = ⟨c, ch, w, r, w'⟩

theorem Event.Is.cmd_eq {e : Event M} {c : S.Cmd} {r : S.Reply c} (h : e.Is c r) : e.cmd = c := by
  obtain ⟨ch, w, w', rfl⟩ := h
  rfl

theorem Event.Is.inj {e : Event M} {c : S.Cmd} {r r' : S.Reply c} (h : e.Is c r)
    (h' : e.Is c r') : r = r' := by
  obtain ⟨ch, w, w', rfl⟩ := h
  obtain ⟨ch', v, v', he⟩ := h'
  simp only [Event.mk.injEq, heq_eq_eq, true_and] at he
  exact he.2.2.1

/-- What the machine did at an event that is an answer to `c`. -/
theorem Event.Is.exec {e : Event M} {c : S.Cmd} {r : S.Reply c} (h : e.Is c r) (hreal : e.Real) :
    M.exec e.pre c e.choice = some (r, e.post) := by
  obtain ⟨ch, w, w', rfl⟩ := h
  exact hreal

/-! ### Paths -/

/-- `Path p log q`: once its commands are answered as `log` records, `p` has `q`
left to run. -/
def Path : Program S α → List (Event M) → Program S α → Prop
  | p, [], q => p = q
  | .call c k, e :: log, q =>
      ∃ ch w r w', M.exec w c ch = some (r, w') ∧ e = ⟨c, ch, w, r, w'⟩ ∧ Path (k r) log q
  | .ret _, _ :: _, _ => False
  | .throw _, _ :: _, _ => False

@[simp] theorem path_nil {p q : Program S α} : Path p ([] : List (Event M)) q ↔ p = q := by
  cases p <;> exact Iff.rfl

@[simp] theorem path_ret {a : α} {log : List (Event M)} {q : Program S α} :
    Path (.ret a) log q ↔ log = [] ∧ q = .ret a := by
  cases log with
  | nil => simp [eq_comm]
  | cons e log => simp [Path]

@[simp] theorem path_throw {x : S.Exn} {log : List (Event M)} {q : Program S α} :
    Path (.throw x) log q ↔ log = [] ∧ q = .throw x := by
  cases log with
  | nil => simp [eq_comm]
  | cons e log => simp [Path]

/-- A program that issues a command has either not got its answer yet, or goes on
with the reply. -/
theorem path_call {c : S.Cmd} {k : S.Reply c → Program S α} {log : List (Event M)}
    {q : Program S α} :
    Path (.call c k) log q ↔ (log = [] ∧ q = .call c k) ∨
      ∃ e r rest, e.Real ∧ e.Is c r ∧ log = e :: rest ∧ Path (k r) rest q := by
  cases log with
  | nil =>
      constructor
      · intro h
        exact Or.inl ⟨rfl, (path_nil.mp h).symm⟩
      · rintro (⟨-, rfl⟩ | ⟨e, r, rest, -, -, hl, -⟩)
        · exact path_nil.mpr rfl
        · exact absurd hl (by simp)
  | cons e log =>
      constructor
      · rintro ⟨ch, w, r, w', hx, rfl, hp⟩
        exact Or.inr ⟨⟨c, ch, w, r, w'⟩, r, log, hx, ⟨ch, w, w', rfl⟩, rfl, hp⟩
      · rintro (⟨h, -⟩ | ⟨e', r, rest, hreal, ⟨ch, w, w', rfl⟩, hl, hp⟩)
        · exact absurd h (by simp)
        · obtain ⟨rfl, rfl⟩ := List.cons.inj hl
          exact ⟨ch, w, r, w', hreal, rfl, hp⟩

/-- A program that has returned went through its first command. -/
theorem path_call_ret {c : S.Cmd} {k : S.Reply c → Program S α} {log : List (Event M)} {a : α} :
    Path (.call c k) log (.ret a) ↔
      ∃ e r rest, e.Real ∧ e.Is c r ∧ log = e :: rest ∧ Path (k r) rest (.ret a) := by
  rw [path_call]
  simp

/-- So it does if it has come to its end. -/
theorem path_call_done {c : S.Cmd} {k : S.Reply c → Program S α} {log : List (Event M)}
    {q : Program S α} (hd : q.Done) :
    Path (.call c k) log q ↔
      ∃ e r rest, e.Real ∧ e.Is c r ∧ log = e :: rest ∧ Path (k r) rest q := by
  rw [path_call]
  refine ⟨fun h => h.resolve_left ?_, Or.inr⟩
  rintro ⟨-, rfl⟩
  exact hd

/-- What a program returns after another is made of what that one returned. -/
theorem Path.ret_of_bind {p : Program S β} {g : β → α} {a : α} :
    ∀ {log : List (Event M)}, Path (p.bind fun b => .ret (g b)) log (.ret a) → ∃ b, a = g b := by
  induction p with
  | ret b =>
      intro log h
      exact ⟨b, Program.ret.inj (path_ret.mp h).2⟩
  | throw e =>
      intro log h
      cases (path_throw.mp h).2
  | call c k ih =>
      intro log h
      obtain ⟨-, r, rest, -, -, -, hrest⟩ := path_call_ret.mp h
      exact ih r hrest

/-- One more answered command extends the path. -/
theorem Path.snoc {c : S.Cmd} {k : S.Reply c → Program S α} {ch : M.Choice} {w w' : M.World}
    {r : S.Reply c} :
    ∀ {log : List (Event M)} {p : Program S α}, Path p log (.call c k) →
      M.exec w c ch = some (r, w') → Path p (log ++ [⟨c, ch, w, r, w'⟩]) (k r) := by
  intro log
  induction log with
  | nil =>
      intro p hp hx
      rw [path_nil] at hp
      subst hp
      exact ⟨ch, w, r, w', hx, rfl, by simp⟩
  | cons e log ih =>
      intro p hp hx
      cases p with
      | ret a => exact hp.elim
      | throw x => exact hp.elim
      | call c' k' =>
          obtain ⟨ch', v, r', v', hx', he, hrest⟩ := hp
          exact ⟨ch', v, r', v', hx', he, ih hrest hx⟩

/-- Every event on a path is one the machine performed. -/
theorem Path.real : ∀ {log : List (Event M)} {p q : Program S α}, Path p log q →
    ∀ e ∈ log, e.Real := by
  intro log
  induction log with
  | nil => intro p q _ e he; simp at he
  | cons e log ih =>
      intro p q hp e' he'
      cases p with
      | ret a => exact hp.elim
      | throw x => exact hp.elim
      | call c k =>
          obtain ⟨ch, w, r, w', hx, rfl, hrest⟩ := hp
          rcases List.mem_cons.mp he' with rfl | hmem
          · exact hx
          · exact ih hrest e' hmem

/-- Two paths compose. -/
theorem Path.trans : ∀ {l₁ l₂ : List (Event M)} {p q r : Program S α},
    Path p l₁ q → Path q l₂ r → Path p (l₁ ++ l₂) r := by
  intro l₁
  induction l₁ with
  | nil =>
      intro l₂ p q r hp hq
      rw [path_nil] at hp
      subst hp
      exact hq
  | cons e l₁ ih =>
      intro l₂ p q r hp hq
      cases p with
      | ret a => exact hp.elim
      | throw x => exact hp.elim
      | call c k =>
          obtain ⟨ch, w, x, w', hx, he, hrest⟩ := hp
          exact ⟨ch, w, x, w', hx, he, ih hrest hq⟩

/-- A path can be left anywhere and gone on from there. -/
theorem Path.split : ∀ {l₁ l₂ : List (Event M)} {p r : Program S α}, Path p (l₁ ++ l₂) r →
    ∃ q, Path p l₁ q ∧ Path q l₂ r := by
  intro l₁
  induction l₁ with
  | nil =>
      intro l₂ p r h
      exact ⟨p, path_nil.mpr rfl, h⟩
  | cons e l₁ ih =>
      intro l₂ p r h
      cases p with
      | ret a => exact h.elim
      | throw x => exact h.elim
      | call c k =>
          obtain ⟨ch, w, reply, w', hx, he, hrest⟩ := h
          obtain ⟨q, hq, hr⟩ := ih hrest
          exact ⟨q, ⟨ch, w, reply, w', hx, he, hq⟩, hr⟩

/-- A program that is done has nowhere to go. -/
theorem Path.done {p q : Program S α} {log : List (Event M)} (hd : p.Done) (h : Path p log q) :
    log = [] ∧ q = p := by
  cases p with
  | ret a => exact path_ret.mp h
  | throw x => exact path_throw.mp h
  | call c k => exact hd.elim

/-- So what is left of it is done. -/
theorem Path.stays_done {p q : Program S α} {log : List (Event M)} (hd : p.Done)
    (h : Path p log q) :
    q.Done := by
  rw [(Path.done hd h).2]
  exact hd

/-- What a program may issue is all its paths hold. -/
theorem Path.only {P : S.Cmd → Prop} :
    ∀ {log : List (Event M)} {p q : Program S α}, Path p log q → p.Only P →
      (∀ e ∈ log, P e.cmd) ∧ q.Only P := by
  intro log
  induction log with
  | nil =>
      intro p q h hp
      rw [path_nil] at h
      subst h
      exact ⟨by simp, hp⟩
  | cons e log ih =>
      intro p q h hp
      cases p with
      | ret a => exact h.elim
      | throw x => exact h.elim
      | call c k =>
          obtain ⟨ch, w, r, w', -, rfl, hrest⟩ := h
          obtain ⟨hall, hq⟩ := ih hrest (hp.2 r)
          refine ⟨?_, hq⟩
          intro e' he'
          rcases List.mem_cons.mp he' with rfl | hmem
          · exact hp.1
          · exact hall e' hmem

/-- Two paths of one program whose answers agree lead to the same place. -/
theorem Path.determined {R : Event M → Event M → Prop} : ∀ {log log' : List (Event M)}
    {p q q' : Program S α}, Path p log q → Path p log' q' → List.Forall₂ R log log' →
    (∀ e ∈ log, ∀ e' ∈ log', R e e' → ∀ c r r', e.Is c r → e'.Is c r' → r = r') → q = q' := by
  intro log
  induction log with
  | nil =>
      intro log' p q q' h h' hsame _
      rw [List.forall₂_nil_left_iff] at hsame
      subst hsame
      rw [path_nil] at h h'
      exact h.symm.trans h'
  | cons e log ih =>
      intro log' p q q' h h' hsame hR
      obtain ⟨e', log', hhead, htail, rfl⟩ := List.forall₂_cons_left_iff.mp hsame
      cases p with
      | ret a => exact h.elim
      | throw x => exact h.elim
      | call c k =>
          obtain ⟨ch, w, r, w', -, rfl, hrest⟩ := h
          obtain ⟨ch', v, r', v', -, rfl, hrest'⟩ := h'
          obtain rfl : r = r' := hR _ List.mem_cons_self _ List.mem_cons_self hhead c r r'
            ⟨ch, w, w', rfl⟩ ⟨ch', v, v', rfl⟩
          exact ih hrest hrest' htail fun d hd d' hd' =>
            hR d (List.mem_cons_of_mem _ hd) d' (List.mem_cons_of_mem _ hd')

/-! ### Disciplines -/

/-- What a program may issue, depending on the answers it has got: a state, the commands
allowed in it, and what an answer makes of it. -/
structure Discipline (S : Signature) where
  State : Type
  may : State → S.Cmd → Prop
  learn : State → (c : S.Cmd) → S.Reply c → State

/-- From state `s` on, every command the program may issue is allowed when it is issued. -/
def Program.Follows (D : Discipline S) : D.State → Program S α → Prop
  | _, .ret _ => True
  | _, .throw _ => True
  | s, .call c k => D.may s c ∧ ∀ r, (k r).Follows D (D.learn s c r)

/-- The state after the answers of a log. -/
def Discipline.after (D : Discipline S) : D.State → List (Event M) → D.State
  | s, [] => s
  | s, e :: log => D.after (D.learn s e.cmd e.reply) log

/-- **What a disciplined program has issued was allowed when it was issued.** -/
theorem Path.follows {D : Discipline S} : ∀ {before after : List (Event M)} {e : Event M}
    {p q : Program S α} {s : D.State}, Path p (before ++ e :: after) q → p.Follows D s →
    D.may (D.after s before) e.cmd := by
  intro before
  induction before with
  | nil =>
      intro after e p q s h hp
      cases p with
      | ret a => exact h.elim
      | throw x => exact h.elim
      | call c k =>
          obtain ⟨ch, w, r, w', -, rfl, -⟩ := h
          exact hp.1
  | cons d before ih =>
      intro after e p q s h hp
      cases p with
      | ret a => exact h.elim
      | throw x => exact h.elim
      | call c k =>
          obtain ⟨ch, w, r, w', -, rfl, hrest⟩ := h
          exact ih hrest (hp.2 r)

end Concurrent
