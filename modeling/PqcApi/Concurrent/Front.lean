/-
A front put before a system.

A front serves requests of its own.  For each it lets the system behind it serve one
request, command by command in the same thread, and then goes on with what that request
returned or threw, by commands that only read the world.

`Front.Projects.reach` is what this is for.  As long as nobody else touches the world, a run
of the front is a run of the system behind it, in which the reads of the front are no steps
at all.  So what has been proved of the runs of that system holds behind the front, and each
thread of the one is found again in the other.
-/
import PqcApi.Concurrent.Solo

namespace Concurrent

/-- Commands that only read, and what each of them answers. -/
structure Reads where
  Cmd : Type
  Reply : Cmd → Type

/-- A signature with more commands. -/
abbrev Signature.extend (S : Signature) (E : Reads) : Signature :=
  ⟨S.Cmd ⊕ E.Cmd, Sum.elim S.Reply E.Reply, S.Exn⟩

namespace Program

variable {S : Signature} {E : Reads} {α β γ : Type}

/-- The same program, where there are more commands. -/
def lift : Program S α → Program (S.extend E) α
  | .ret a => .ret a
  | .throw e => .throw e
  | .call c k => .call (S := S.extend E) (.inl c) fun r => (k r).lift

/-- Go on with what a program returns or throws. -/
def attempt : Program S α → (Except S.Exn α → Program S β) → Program S β
  | .ret a, f => f (.ok a)
  | .throw e, f => f (.error e)
  | .call c k, f => .call c fun r => (k r).attempt f

/-- What a program that is done has come to. -/
def outcome : Program S α → Option (Except S.Exn α)
  | .ret a => some (.ok a)
  | .throw e => some (.error e)
  | .call _ _ => none

theorem outcome_ok {p : Program S α} {a : α} : p.outcome = some (.ok a) ↔ p = .ret a := by
  cases p <;> simp [outcome]

theorem outcome_error {p : Program S α} {e : S.Exn} :
    p.outcome = some (.error e) ↔ p = .throw e := by
  cases p <;> simp [outcome]

theorem outcome_of_done {p : Program S α} (h : p.Done) : ∃ o, p.outcome = some o := by
  cases p with
  | ret a => exact ⟨_, rfl⟩
  | throw e => exact ⟨_, rfl⟩
  | call c k => exact h.elim

/-- It issues none but the added commands. -/
def OnlyReads (p : Program (S.extend E) α) : Prop :=
  p.Only fun c : S.Cmd ⊕ E.Cmd => c.isRight = true

theorem attempt_lift {p : Program S α} {o : Except S.Exn α} (h : p.outcome = some o)
    (f : Except S.Exn α → Program (S.extend E) β) : attempt (lift p) f = f o := by
  cases o with
  | ok a =>
      rw [outcome_ok.mp h]
      rfl
  | error e =>
      rw [outcome_error.mp h]
      rfl

/-- Sequencing is going on with what is returned, and only that. -/
theorem bind_eq_attempt (p : Program S α) (f : α → Program S β) :
    p.bind f = p.attempt fun o => match o with | .ok a => f a | .error e => .throw e := by
  induction p with
  | ret a => rfl
  | throw e => rfl
  | call c k ih => exact congrArg (call c) (funext fun r => ih r)

/-- A handler around a sequence handles what either part throws. -/
theorem bind_handle (p : Program S α) (f : α → Program S β) (h : S.Exn → Program S β) :
    (p.bind f).handle h =
      p.attempt fun o => match o with | .ok a => (f a).handle h | .error e => h e := by
  induction p with
  | ret a => rfl
  | throw e => rfl
  | call c k ih => exact congrArg (call c) (funext fun r => ih r)

end Program

/-! ### Fronts -/

variable {S : Signature} {E : Reads} {Y : System S}

/-- What a front adds to the system behind it.  `back` is the request it has served there,
`finish` what it does with the outcome, and `program` all that runs. -/
structure Front (Y : System S) (E : Reads) where
  read : Y.World → (c : E.Cmd) → Y.Choice → Option (E.Reply c)
  Move : Type
  move : Y.World → Move → Option Y.World
  Req : Type
  Out : Type
  program : Req → Program (S.extend E) Out
  back : Req → Y.Req
  finish : Req → Except S.Exn Y.Out → Program (S.extend E) Out
  program_eq : ∀ r, program r = Program.attempt (Program.lift (Y.program (back r))) (finish r)
  reads : ∀ r o, (finish r o).OnlyReads

namespace Front

variable {X : Front Y E}

/-- The commands of the system behind do what they do there; the others only answer. -/
def exec (X : Front Y E) (w : Y.World) :
    (c : (S.extend E).Cmd) → Y.Choice → Option ((S.extend E).Reply c × Y.World)
  | .inl c, ch => Y.exec w c ch
  | .inr c, ch => (X.read w c ch).map fun r => (r, w)

/-- The front with the system behind it.  Its moves are those of that system, and what others
do to the world. -/
abbrev system (X : Front Y E) : System (S.extend E) where
  World := Y.World
  Choice := Y.Choice
  Move := Y.Move ⊕ X.Move
  exec := X.exec
  move := fun w => Sum.elim (Y.move w) (X.move w)
  Req := X.Req
  Out := X.Out
  program := X.program

theorem exec_inr {w w' : Y.World} {c : E.Cmd} {ch : Y.Choice} {r : E.Reply c}
    (h : X.exec w (.inr c) ch = some (r, w')) : X.read w c ch = some r ∧ w' = w := by
  obtain ⟨r', hr', heq⟩ := Option.map_eq_some_iff.mp (show (X.read w c ch).map _ = _ from h)
  obtain ⟨hr, hw⟩ := Prod.mk.inj heq
  exact ⟨hr ▸ hr', hw.symm⟩

/-- An event of the system behind, as an event of the front. -/
def event (X : Front Y E) (e : Event Y.toMachine) : Event X.system.toMachine :=
  ⟨.inl e.cmd, e.choice, e.pre, e.reply, e.post⟩

theorem event_injective : Function.Injective X.event := by
  rintro ⟨c, ch, w, r, w'⟩ ⟨c', ch', v, r', v'⟩ h
  cases h
  rfl

theorem event_is {e : Event Y.toMachine} {c : S.Cmd} {r : S.Reply c} (h : e.Is c r) :
    Event.Is (S := S.extend E) (X.event e) (.inl c) r := by
  obtain ⟨ch, w, w', rfl⟩ := h
  exact ⟨ch, w, w', rfl⟩

theorem joined_event {w' : Y.World} : ∀ {log : List (Event Y.toMachine)} {w : Y.World},
    Joined w log w' → Joined (Y := X.system) w (log.map X.event) w' := by
  intro log
  induction log with
  | nil => intro w h; exact h
  | cons e log ih => intro w h; exact ⟨h.1, ih h.2⟩

/-- A command of the front's own. -/
def Own (e : Event X.system.toMachine) : Prop := e.cmd.isRight = true

theorem not_own_event (e : Event Y.toMachine) : ¬ Own (X.event e) := by
  intro h
  cases h

/-! ### The thread behind a thread -/

/-- `th₀` is the part of `th` that the system behind serves. -/
structure Behind (X : Front Y E) (th : Thread X.system) (th₀ : Thread Y) : Prop where
  req : th₀.req = X.back th.req
  path : Path (Y.program th₀.req) th₀.log th₀.rest
  log : ∃ own, th.log = th₀.log.map X.event ++ own ∧ (∀ e ∈ own, Own e) ∧
    Path (Program.attempt (Program.lift th₀.rest) (X.finish th.req)) own th.rest

/-- A path through both parts is one through the first and then one through the second. -/
theorem split_path {f : Except S.Exn Y.Out → Program (S.extend E) X.Out}
    (hf : ∀ o, (f o).OnlyReads) {q : Program (S.extend E) X.Out} :
    ∀ {log : List (Event X.system.toMachine)} {p : Program S Y.Out},
      Path (Program.attempt (Program.lift p) f) log q →
      ∃ log₀ p₀ own, log = log₀.map X.event ++ own ∧ (∀ e ∈ own, Own e) ∧ Path p log₀ p₀ ∧
        Path (Program.attempt (Program.lift p₀) f) own q := by
  intro log
  induction log with
  | nil =>
      intro p h
      exact ⟨[], p, [], rfl, by simp, path_nil.mpr rfl, h⟩
  | cons e log ih =>
      intro p h
      cases p with
      | ret a =>
          exact ⟨[], .ret a, e :: log, rfl, (Path.only h (hf (.ok a))).1, path_nil.mpr rfl, h⟩
      | throw x =>
          exact ⟨[], .throw x, e :: log, rfl, (Path.only h (hf (.error x))).1, path_nil.mpr rfl, h⟩
      | call c k =>
          obtain ⟨ch, w, r, w', hx, rfl, hrest⟩ := h
          obtain ⟨log₀, p₀, own, rfl, hown, hp, hq⟩ := ih hrest
          exact ⟨⟨c, ch, w, r, w'⟩ :: log₀, p₀, own, rfl, hown, ⟨ch, w, r, w', hx, rfl, hp⟩, hq⟩

/-- And the other way round. -/
theorem join_path {f : Except S.Exn Y.Out → Program (S.extend E) X.Out} :
    ∀ {log : List (Event Y.toMachine)} {p q : Program S Y.Out}, Path p log q →
      Path (Program.attempt (Program.lift p) f) (log.map X.event)
        (Program.attempt (Program.lift q) f) := by
  intro log
  induction log with
  | nil =>
      intro p q h
      rw [path_nil.mp h]
      exact path_nil.mpr rfl
  | cons e log ih =>
      intro p q h
      cases p with
      | ret a => exact h.elim
      | throw x => exact h.elim
      | call c k =>
          obtain ⟨ch, w, r, w', hx, rfl, hrest⟩ := h
          exact ⟨ch, w, r, w', hx, rfl, ih hrest⟩

/-- **A request from its start to its end**: the one behind, and what the front does after. -/
theorem Behind.of_visit {r : X.Req} {log : List (Event Y.toMachine)} {q₀ : Program S Y.Out}
    (hp : Path (Y.program (X.back r)) log q₀) {o : Except S.Exn Y.Out} (ho : q₀.outcome = some o)
    {own : List (Event X.system.toMachine)} {q : Program (S.extend E) X.Out}
    (hq : Path (X.finish r o) own q) :
    X.Behind ⟨r, q, log.map X.event ++ own⟩ ⟨X.back r, q₀, log⟩ := by
  refine ⟨rfl, hp, own, rfl, (Path.only hq (X.reads r o)).1, ?_⟩
  rw [Program.attempt_lift ho]
  exact hq

/-- A thread with one behind it stands where its log says it does. -/
theorem Behind.path_front {th : Thread X.system} {th₀ : Thread Y} (h : X.Behind th th₀) :
    Path (X.program th.req) th.log th.rest := by
  obtain ⟨own, hlog, -, hq⟩ := h.log
  have hp := h.path
  rw [h.req] at hp
  rw [hlog, X.program_eq]
  exact (join_path hp).trans hq

/-- **Every thread has one behind it**, whatever others do to the world. -/
theorem Behind.of_path {th : Thread X.system} (h : Path (X.program th.req) th.log th.rest) :
    ∃ th₀, X.Behind th th₀ := by
  rw [X.program_eq] at h
  obtain ⟨log₀, p₀, own, hlog, hown, hp, hq⟩ := split_path (X.reads th.req) h
  exact ⟨⟨X.back th.req, p₀, log₀⟩, rfl, hp, own, hlog, hown, hq⟩

/-- A log splits into the part behind and the front's own in one way. -/
theorem split_unique {l l' : List (Event Y.toMachine)} {own own' : List (Event X.system.toMachine)}
    (h : l.map X.event ++ own = l'.map X.event ++ own') (hown : ∀ e ∈ own, Own e)
    (hown' : ∀ e ∈ own', Own e) : l = l' := by
  induction l generalizing l' with
  | nil =>
      cases l' with
      | nil => rfl
      | cons e l' =>
          refine absurd (hown (X.event e) ?_) (not_own_event e)
          rw [show own = _ from h]
          simp
  | cons e l ih =>
      cases l' with
      | nil =>
          refine absurd (hown' (X.event e) ?_) (not_own_event e)
          rw [show own' = _ from h.symm]
          simp
      | cons e' l' =>
          obtain ⟨hhead, htail⟩ := List.cons.inj h
          rw [event_injective hhead, ih htail]

/-- **There is one thread behind a thread.** -/
theorem Behind.unique {th : Thread X.system} {a b : Thread Y} (ha : X.Behind th a)
    (hb : X.Behind th b) : a = b := by
  obtain ⟨own, hlog, hown, -⟩ := ha.log
  obtain ⟨own', hlog', hown', -⟩ := hb.log
  have hreq : a.req = b.req := ha.req.trans hb.req.symm
  have hsame : a.log = b.log := split_unique (hlog.symm.trans hlog') hown hown'
  have hpath := hb.path
  rw [← hreq, ← hsame] at hpath
  have hrest : a.rest = b.rest := by
    refine Path.determined (R := Eq) ha.path hpath (List.forall₂_same.mpr fun _ _ => rfl) ?_
    rintro e - _ - rfl c r r' h h'
    exact h.inj h'
  cases a
  cases b
  simp only at hreq hsame hrest
  subst hreq hsame hrest
  rfl

section Behind

variable {th : Thread X.system} {th₀ : Thread Y} (h : X.Behind th th₀)

include h

/-- While the request behind waits for an answer, so does the front's. -/
theorem Behind.waits {c : S.Cmd} {k : S.Reply c → Program S Y.Out} (hrest : th₀.rest = .call c k) :
    th.log = th₀.log.map X.event ∧ th.rest = .call (S := S.extend E) (.inl c) fun r =>
      Program.attempt (Program.lift (k r)) (X.finish th.req) := by
  obtain ⟨own, hlog, hown, hp⟩ := h.log
  rw [hrest] at hp
  rcases path_call.mp hp with ⟨rfl, hq⟩ | ⟨e, r, rest, -, he, rfl, -⟩
  · exact ⟨by rw [hlog, List.append_nil], hq⟩
  · have hright : e.cmd.isRight = true := hown e (by simp)
    rw [he.cmd_eq] at hright
    cases hright

/-- So the request behind is done when the front's is. -/
theorem Behind.done (hd : th.rest.Done) : th₀.rest.Done := by
  cases hrest : th₀.rest with
  | ret a => exact trivial
  | throw e => exact trivial
  | call c k =>
      rw [(h.waits hrest).2] at hd
      exact hd

/-- Once the request behind is done, the front goes on with what it came to. -/
theorem Behind.goes_on {o : Except S.Exn Y.Out} (hrest : th₀.rest.outcome = some o) :
    ∃ own, th.log = th₀.log.map X.event ++ own ∧ (∀ e ∈ own, Own e) ∧
      Path (X.finish th.req o) own th.rest := by
  obtain ⟨own, hlog, hown, hp⟩ := h.log
  rw [Program.attempt_lift hrest] at hp
  exact ⟨own, hlog, hown, hp⟩

/-- If there is nothing left to read, that is its end. -/
theorem Behind.ends {o : Except S.Exn Y.Out} (hrest : th₀.rest.outcome = some o)
    (hd : (X.finish th.req o).Done) :
    th.log = th₀.log.map X.event ∧ th.rest = X.finish th.req o := by
  obtain ⟨own, hlog, -, hp⟩ := h.goes_on hrest
  obtain ⟨rfl, hq⟩ := hp.done hd
  exact ⟨by rw [hlog, List.append_nil], hq⟩

/-- An answer to the request behind moves both threads on. -/
theorem Behind.answered {c : S.Cmd} {k : S.Reply c → Program S Y.Out} (hrest : th₀.rest = .call c k)
    {ch : Y.Choice} {w w' : Y.World} {r : S.Reply c} (hx : Y.exec w c ch = some (r, w')) :
    X.Behind ⟨th.req, Program.attempt (Program.lift (k r)) (X.finish th.req),
      th.log ++ [⟨.inl c, ch, w, r, w'⟩]⟩ ⟨th₀.req, k r, th₀.log ++ [⟨c, ch, w, r, w'⟩]⟩ := by
  refine ⟨h.req, (hrest ▸ h.path).snoc hx, [], ?_, by simp, path_nil.mpr rfl⟩
  show th.log ++ _ = _
  rw [(h.waits hrest).1, List.map_append, List.append_nil]
  rfl

/-- An answer to a read of the front moves its thread only. -/
theorem Behind.reads {c : E.Cmd} {k : E.Reply c → Program (S.extend E) X.Out}
    (hrest : th.rest = .call (S := S.extend E) (.inr c) k) {ch : Y.Choice} {w : Y.World}
    {r : E.Reply c} (hx : X.exec w (.inr c) ch = some (r, w)) :
    X.Behind ⟨th.req, k r, th.log ++ [⟨.inr c, ch, w, r, w⟩]⟩ th₀ := by
  obtain ⟨own, hlog, hown, hp⟩ := h.log
  refine ⟨h.req, h.path, own ++ [⟨.inr c, ch, w, r, w⟩], ?_, ?_, ?_⟩
  · show th.log ++ _ = _
    rw [hlog, List.append_assoc]
  · intro e he
    rcases List.mem_append.mp he with hold | hnew
    · exact hown e hold
    · rw [List.mem_singleton.mp hnew]
      exact rfl
  · rw [hrest] at hp
    exact hp.snoc (M := X.system.toMachine) hx

/-- Once the request behind is done, the front only reads. -/
theorem Behind.reads_of_done (hd : th₀.rest.Done) : th.rest.OnlyReads := by
  obtain ⟨o, ho⟩ := Program.outcome_of_done hd
  obtain ⟨own, -, -, hp⟩ := h.goes_on ho
  exact (Path.only hp (X.reads _ _)).2

end Behind

/-! ### The run behind a run -/

/-- `c₀` is the configuration of the system behind when the front's is `c`. -/
structure Projects (X : Front Y E) (c : Config X.system) (c₀ : Config Y) : Prop where
  world : c₀.world = c.world
  length : c₀.threads.length = c.threads.length
  thread : ∀ (i : Nat) th, c.threads[i]? = some th →
    ∃ th₀, c₀.threads[i]? = some th₀ ∧ X.Behind th th₀

theorem Projects.fresh (w : Y.World) :
    X.Projects (Config.fresh w : Config X.system) (Config.fresh w) := by
  refine ⟨rfl, rfl, fun i th hi => ?_⟩
  simp [Config.fresh] at hi

/-- A thread behind has its thread in front. -/
theorem Projects.front {c : Config X.system} {c₀ : Config Y} (h : X.Projects c c₀) {i : Nat}
    {th₀ : Thread Y} (hi : c₀.threads[i]? = some th₀) :
    ∃ th, c.threads[i]? = some th ∧ X.Behind th th₀ := by
  have hlt := (List.getElem?_eq_some_iff.mp hi).1
  rw [h.length] at hlt
  obtain ⟨th₁, hi₁, hb⟩ := h.thread i _ (List.getElem?_eq_getElem hlt)
  rw [hi, Option.some.injEq] at hi₁
  subst hi₁
  exact ⟨_, List.getElem?_eq_getElem hlt, hb⟩

/-- The step of the system behind when the front takes this one and it is not one of its
own. -/
def stepBack (X : Front Y E) : Step X.system → Option (Step Y)
  | .move (.inl m) => some (.move m)
  | .move (.inr _) => none
  | .start r => some (.start (X.back r))
  | .run i ch => some (.run i ch)

/-- Nobody else touches the world. -/
def Undisturbed (X : Front Y E) (_ : Config X.system) (s : Step X.system) : Prop :=
  ∀ m, s ≠ .move (.inr m)

theorem Projects.set {c : Config X.system} {c₀ : Config Y} (h : X.Projects c c₀) {i : Nat}
    {th : Thread X.system} {th₀ : Thread Y} {w : Y.World}
    (hb : i < c.threads.length → X.Behind th th₀) :
    X.Projects ⟨w, c.threads.set i th⟩ ⟨w, c₀.threads.set i th₀⟩ := by
  refine ⟨rfl, by simp [h.length], fun j t hj => ?_⟩
  by_cases hij : i = j
  · subst hij
    have hlt : i < c.threads.length := by
      simpa using (List.getElem?_eq_some_iff.mp hj).1
    rw [List.getElem?_set_self hlt, Option.some.injEq] at hj
    subst hj
    exact ⟨th₀, List.getElem?_set_self (by rw [h.length]; exact hlt), hb hlt⟩
  · rw [List.getElem?_set_ne hij] at hj
    obtain ⟨t₀, hj₀, ht⟩ := h.thread j t hj
    exact ⟨t₀, by rw [List.getElem?_set_ne hij]; exact hj₀, ht⟩

/-- **One step.**  A step of the front is a step of the system behind, or a read during which
that one stands still. -/
theorem Projects.next {c c' : Config X.system} {c₀ : Config Y} (h : X.Projects c c₀)
    {s : Step X.system} (hs : c.next s = some c') (hu : X.Undisturbed c s) :
    X.Projects c' c₀ ∨
      ∃ s₀ c₀', X.stepBack s = some s₀ ∧ c₀.next s₀ = some c₀' ∧ X.Projects c' c₀' := by
  rcases Config.next_cases hs with ⟨m, w, rfl, hm, rfl⟩ | ⟨r, rfl, rfl⟩ |
    ⟨i, ch, req, cmd, k, log, r, w, rfl, hi, hx, rfl⟩
  · cases m with
    | inl m =>
        have hm' : Y.move c₀.world m = some w := by
          rw [h.world]
          exact hm
        refine Or.inr ⟨.move m, ⟨w, c₀.threads⟩, rfl, ?_, rfl, h.length, h.thread⟩
        simp only [Config.next, hm', Option.map_some]
    | inr m => exact absurd rfl (hu m)
  · refine Or.inr ⟨.start (X.back r), _, rfl, rfl, h.world, by simp [h.length], fun j t hj => ?_⟩
    by_cases hlt : j < c.threads.length
    · rw [List.getElem?_append_left hlt] at hj
      obtain ⟨t₀, hj₀, ht⟩ := h.thread j t hj
      exact ⟨t₀, by rw [List.getElem?_append_left (by rw [h.length]; exact hlt)]; exact hj₀, ht⟩
    · have hlen := (List.getElem?_eq_some_iff.mp hj).1
      rw [List.length_append, List.length_singleton] at hlen
      obtain rfl : j = c.threads.length := by omega
      rw [List.getElem?_concat_length, Option.some.injEq] at hj
      subst hj
      refine ⟨_, by rw [← h.length, List.getElem?_concat_length], rfl, path_nil.mpr rfl, [], rfl,
        by simp, ?_⟩
      exact path_nil.mpr (X.program_eq r).symm
  · obtain ⟨th₀, hi₀, hb⟩ := h.thread i _ hi
    by_cases hd : th₀.rest.Done
    · -- the front reads, and the system behind stands still
      have hright : cmd.isRight = true := (hb.reads_of_done hd).1
      cases cmd with
      | inl c => cases hright
      | inr cmd =>
          obtain ⟨hread, rfl⟩ := exec_inr hx
          have hset : c₀.threads.set i th₀ = c₀.threads := by
            obtain ⟨hlt, rfl⟩ := List.getElem?_eq_some_iff.mp hi₀
            exact List.set_getElem_self hlt
          have hproj : X.Projects ⟨c.world, _⟩ ⟨c.world, c₀.threads.set i th₀⟩ :=
            h.set fun _ => hb.reads rfl hx
          rw [hset] at hproj
          exact Or.inl ⟨h.world, hproj.length, hproj.thread⟩
    · obtain ⟨cmd₀, k₀, hrest⟩ : ∃ cmd₀ k₀, th₀.rest = .call cmd₀ k₀ := by
        cases hrest : th₀.rest with
        | ret a => exact absurd (by rw [hrest]; exact trivial) hd
        | throw e => exact absurd (by rw [hrest]; exact trivial) hd
        | call cmd₀ k₀ => exact ⟨cmd₀, k₀, rfl⟩
      have hwaits : (.call cmd k : Program (S.extend E) X.Out) = .call (S := S.extend E)
          (.inl cmd₀) fun r => Program.attempt (Program.lift (k₀ r)) (X.finish req) :=
        (hb.waits hrest).2
      cases hwaits
      have hx₀ : Y.exec c₀.world cmd₀ ch = some (r, w) := by
        rw [h.world]
        exact hx
      refine Or.inr ⟨.run i ch, _, rfl, Config.next_run hi₀ hrest hx₀, ?_⟩
      rw [h.world]
      exact h.set fun _ => hb.answered hrest hx

/-- What a step of the front must satisfy for the step behind to satisfy `ok`. -/
def Allows (X : Front Y E) (ok : Config Y → Step Y → Prop) (c : Config X.system)
    (s : Step X.system) : Prop :=
  X.Undisturbed c s ∧ ∀ c₀ s₀, X.Projects c c₀ → X.stepBack s = some s₀ → ok c₀ s₀

/-- **Whole runs.**  An undisturbed run of the front is a run of the system behind it. -/
theorem Projects.reach {ok : Config Y → Step Y → Prop} {a c : Config X.system} {a₀ : Config Y}
    (ha : X.Projects a a₀) (h : Reach (X.Allows ok) a c) :
    ∃ c₀, Reach ok a₀ c₀ ∧ X.Projects c c₀ := by
  induction h with
  | refl => exact ⟨a₀, .refl a₀, ha⟩
  | tail _ hok hs ih =>
      obtain ⟨b₀, hab, hb⟩ := ih
      rcases hb.next hs hok.1 with hc | ⟨s₀, c₀, hs₀, hnext, hc⟩
      · exact ⟨b₀, hab, hc⟩
      · exact ⟨c₀, hab.tail (hok.2 b₀ s₀ hb hs₀) hnext, hc⟩

end Front

end Concurrent
