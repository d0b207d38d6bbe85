/-
Requests served concurrently over one shared world.

Each request runs its own program in a thread of its own.  A step of the system
lets one thread issue its next command, starts a request, or lets the environment
move.  Every interleaving of commands is some sequence of steps, and a sequential
run is one in which no request starts before the others are done, so one notion
of run serves both kinds of statement.

A thread keeps the log of its answered commands.  Three facts about logs carry the
rest.  `Reach.path`: a thread's log is a path of its request's program, so what a
function can do is read off its text once.  `Reach.moment`: every logged command
was a step of the run, so what holds of every configuration holds whenever a command
was issued.  `Reach.since` adds that for any preorder on worlds that the steps
respect, a thread's commands saw worlds that grow along it.
-/
import Mathlib.Order.Basic
import PqcApi.Concurrent.Program

namespace Concurrent

/-- A machine, and the requests it serves with the program of each. -/
structure System (S : Signature) extends Machine S where
  Req : Type
  Out : Type
  program : Req → Program S Out

variable {S : Signature} {Y : System S}

/-- One request being served: what is left to run, and the commands answered so far. -/
structure Thread (Y : System S) where
  req : Y.Req
  rest : Program S Y.Out
  log : List (Event Y.toMachine)

/-- The shared world and every request ever started, oldest first. -/
structure Config (Y : System S) where
  world : Y.World
  threads : List (Thread Y)

/-- A step of the whole system. -/
inductive Step (Y : System S)
  | move (m : Y.Move)
  | start (r : Y.Req)
  | run (i : Nat) (ch : Y.Choice)

/-- Let thread `i` issue its next command. -/
def Config.advance (c : Config Y) (i : Nat) (ch : Y.Choice) : Option (Config Y) :=
  match c.threads[i]? with
  | some ⟨req, .call cmd k, log⟩ =>
      (Y.exec c.world cmd ch).map fun a =>
        ⟨a.2, c.threads.set i ⟨req, k a.1, log ++ [⟨cmd, ch, c.world, a.1, a.2⟩]⟩⟩
  | _ => none

/-- What a step leads to, if it can be taken. -/
def Config.next (c : Config Y) : Step Y → Option (Config Y)
  | .move m => (Y.move c.world m).map fun w => ⟨w, c.threads⟩
  | .start r => some ⟨c.world, c.threads ++ [⟨r, Y.program r, []⟩]⟩
  | .run i ch => c.advance i ch

/-- Take the steps one after another. -/
def Config.steps (c : Config Y) : List (Step Y) → Option (Config Y)
  | [] => some c
  | s :: rest => (c.next s).bind fun c' => c'.steps rest

/-- Everything a step can do. -/
theorem Config.next_cases {c c' : Config Y} {s : Step Y} (h : c.next s = some c') :
    (∃ m w, s = .move m ∧ Y.move c.world m = some w ∧ c' = ⟨w, c.threads⟩) ∨
    (∃ r, s = .start r ∧ c' = ⟨c.world, c.threads ++ [⟨r, Y.program r, []⟩]⟩) ∨
    (∃ i ch req cmd k log r w, s = .run i ch ∧
      c.threads[i]? = some ⟨req, .call cmd k, log⟩ ∧
      Y.exec c.world cmd ch = some (r, w) ∧
      c' = ⟨w, c.threads.set i ⟨req, k r, log ++ [⟨cmd, ch, c.world, r, w⟩]⟩⟩) := by
  cases s with
  | move m =>
      simp only [next, Option.map_eq_some_iff] at h
      obtain ⟨w, hw, rfl⟩ := h
      exact Or.inl ⟨m, w, rfl, hw, rfl⟩
  | start r =>
      simp only [next, Option.some.injEq] at h
      exact Or.inr (Or.inl ⟨r, rfl, h.symm⟩)
  | run i ch =>
      simp only [next, advance] at h
      split at h
      · rename_i req cmd k log hth
        simp only [Option.map_eq_some_iff] at h
        obtain ⟨⟨r, w⟩, hx, rfl⟩ := h
        exact Or.inr (Or.inr ⟨i, ch, req, cmd, k, log, r, w, rfl, hth, hx, rfl⟩)
      · simp at h

/-- A thread after a step was there before it, or has just been started, or just been answered. -/
theorem Config.thread_was {c c' : Config Y} {s : Step Y} (h : c.next s = some c') {i : Nat}
    {th : Thread Y} (hth : c'.threads[i]? = some th) :
    c.threads[i]? = some th ∨
    (∃ r, s = .start r ∧ i = c.threads.length ∧ th = ⟨r, Y.program r, []⟩) ∨
    (∃ ch req cmd k log r, s = .run i ch ∧ c.threads[i]? = some ⟨req, .call cmd k, log⟩ ∧
      Y.exec c.world cmd ch = some (r, c'.world) ∧
      th = ⟨req, k r, log ++ [⟨cmd, ch, c.world, r, c'.world⟩]⟩) := by
  rcases Config.next_cases h with ⟨m, w, -, -, rfl⟩ | ⟨r, rfl, rfl⟩ |
    ⟨j, ch, req, cmd, k, log, r, w, rfl, hj, hx, rfl⟩
  · exact Or.inl hth
  · by_cases hi : i < c.threads.length
    · rw [List.getElem?_append_left hi] at hth
      exact Or.inl hth
    · have hlt := (List.getElem?_eq_some_iff.mp hth).1
      rw [List.length_append, List.length_singleton] at hlt
      obtain rfl : i = c.threads.length := by omega
      rw [List.getElem?_concat_length, Option.some.injEq] at hth
      exact Or.inr (Or.inl ⟨r, rfl, rfl, hth.symm⟩)
  · by_cases hij : j = i
    · subst hij
      rw [List.getElem?_set_self (List.getElem?_eq_some_iff.mp hj).1, Option.some.injEq] at hth
      exact Or.inr (Or.inr ⟨ch, req, cmd, k, log, r, rfl, hj, hx, hth.symm⟩)
    · rw [List.getElem?_set_ne hij] at hth
      exact Or.inl hth

/-- A command the machine has an answer to can be answered. -/
theorem Config.next_run {c : Config Y} {i : Nat} {th : Thread Y} {cmd : S.Cmd}
    {k : S.Reply cmd → Program S Y.Out} {ch : Y.Choice} {r : S.Reply cmd} {w : Y.World}
    (hth : c.threads[i]? = some th) (hrest : th.rest = .call cmd k)
    (hx : Y.exec c.world cmd ch = some (r, w)) :
    c.next (.run i ch) =
      some ⟨w, c.threads.set i ⟨th.req, k r, th.log ++ [⟨cmd, ch, c.world, r, w⟩]⟩⟩ := by
  obtain ⟨req, rest, log⟩ := th
  obtain rfl : rest = .call cmd k := hrest
  simp only [next, advance, hth, hx, Option.map_some]

/-! ### Runs -/

/-- `Reach ok c c'`: some run whose steps all satisfy `ok` leads from `c` to `c'`. -/
inductive Reach (ok : Config Y → Step Y → Prop) : Config Y → Config Y → Prop
  | refl (c : Config Y) : Reach ok c c
  | tail {a b c : Config Y} {s : Step Y} (h : Reach ok a b) (hok : ok b s)
      (hs : b.next s = some c) : Reach ok a c

namespace Reach

variable {ok ok' : Config Y → Step Y → Prop} {a b c : Config Y}

theorem trans (hab : Reach ok a b) (hbc : Reach ok b c) : Reach ok a c := by
  induction hbc with
  | refl => exact hab
  | tail _ hok hs ih => exact ih.tail hok hs

theorem mono (hle : ∀ c s, ok c s → ok' c s) (h : Reach ok a b) : Reach ok' a b := by
  induction h with
  | refl => exact refl a
  | tail _ hok hs ih => exact ih.tail (hle _ _ hok) hs

/-- **The invariant rule.**  What every allowed step keeps holds after every run. -/
theorem invariant {I : Config Y → Prop} (h0 : I a)
    (hstep : ∀ {b c s}, I b → ok b s → b.next s = some c → I c) (h : Reach ok a c) : I c := by
  induction h with
  | refl => exact h0
  | tail _ hok hs ih => exact hstep ih hok hs

/-- What has happened since `a` may show that the steps of a run satisfy more. -/
theorem strengthen (hok : ∀ {b s}, Reach ok a b → ok b s → ok' b s) (hab : Reach ok a b)
    (h : Reach ok b c) : Reach ok' b c := by
  induction h with
  | refl => exact refl b
  | tail hbd hs hn ih => exact ih.tail (hok (hab.trans hbd) hs) hn

/-- The steps of a list form a run. -/
theorem of_steps : ∀ {l : List (Step Y)} {a c : Config Y}, a.steps l = some c →
    Reach (fun _ _ => True) a c := by
  intro l
  induction l with
  | nil =>
      intro a c h
      simp only [Config.steps, Option.some.injEq] at h
      subst h
      exact refl a
  | cons s l ih =>
      intro a c h
      simp only [Config.steps, Option.bind_eq_some_iff] at h
      obtain ⟨b, hb, hc⟩ := h
      exact ((refl a).tail trivial hb).trans (ih hc)

end Reach

/-- A configuration in which nothing has been asked yet. -/
def Config.fresh (w : Y.World) : Config Y := ⟨w, []⟩

/-! ### A thread's log is a path of its program -/

/-- Every thread stands where its log says it does. -/
def Config.Sound (c : Config Y) : Prop :=
  ∀ th ∈ c.threads, Path (Y.program th.req) th.log th.rest

theorem Config.Sound.next {c c' : Config Y} {s : Step Y} (hc : c.Sound)
    (h : c.next s = some c') : c'.Sound := by
  rcases Config.next_cases h with ⟨m, w, -, -, rfl⟩ | ⟨r, -, rfl⟩ |
    ⟨i, ch, req, cmd, k, log, r, w, -, hth, hx, rfl⟩
  · exact hc
  · intro th hmem
    rcases List.mem_append.mp hmem with hold | hnew
    · exact hc th hold
    · rw [List.mem_singleton.mp hnew]
      exact path_nil.mpr rfl
  · intro th hmem
    rcases List.mem_or_eq_of_mem_set hmem with hold | rfl
    · exact hc th hold
    · exact (hc _ (List.mem_of_getElem? hth)).snoc hx

theorem Config.fresh_sound (w : Y.World) : (Config.fresh w : Config Y).Sound := by
  intro th hmem
  simp [Config.fresh] at hmem

/-- **Paths.**  After any run, a thread's log is a path of its request's program. -/
theorem Reach.path {ok : Config Y → Step Y → Prop} {a c : Config Y} (h : Reach ok a c)
    (ha : a.Sound) : ∀ th ∈ c.threads, Path (Y.program th.req) th.log th.rest :=
  h.invariant (I := Config.Sound) ha fun hb _ hs => hb.next hs

theorem Reach.path_at {ok : Config Y → Step Y → Prop} {w : Y.World} {c : Config Y}
    (h : Reach ok (Config.fresh w) c) {i : Nat} {th : Thread Y} (hi : c.threads[i]? = some th) :
    Path (Y.program th.req) th.log th.rest :=
  h.path (Config.fresh_sound w) th (List.mem_of_getElem? hi)

/-! ### Threads only go on -/

/-- `th'` is `th` at a later time. -/
def Thread.Continues (th th' : Thread Y) : Prop :=
  th'.req = th.req ∧ ∃ ext, th'.log = th.log ++ ext ∧ Path th.rest ext th'.rest

theorem Thread.Continues.refl (th : Thread Y) : th.Continues th :=
  ⟨rfl, [], by simp, path_nil.mpr rfl⟩

theorem Thread.Continues.trans {a b c : Thread Y} (hab : a.Continues b) (hbc : b.Continues c) :
    a.Continues c := by
  obtain ⟨hreq, l₁, hl₁, hp₁⟩ := hab
  obtain ⟨hreq', l₂, hl₂, hp₂⟩ := hbc
  exact ⟨hreq'.trans hreq, l₁ ++ l₂, by rw [hl₂, hl₁, List.append_assoc], hp₁.trans hp₂⟩

/-- A thread that is done stays as it is. -/
theorem Thread.Continues.eq_of_done {a b : Thread Y} (h : a.Continues b) (hd : a.rest.Done) :
    b = a := by
  obtain ⟨hreq, ext, hl, hp⟩ := h
  obtain ⟨rfl, hrest⟩ := hp.done hd
  cases a
  cases b
  simp_all

theorem Config.next_thread {c c' : Config Y} {s : Step Y} (h : c.next s = some c') {i : Nat}
    {th : Thread Y} (hth : c.threads[i]? = some th) :
    ∃ th', c'.threads[i]? = some th' ∧ th.Continues th' := by
  have hi : i < c.threads.length := (List.getElem?_eq_some_iff.mp hth).1
  rcases Config.next_cases h with ⟨m, w, -, -, rfl⟩ | ⟨r, -, rfl⟩ |
    ⟨j, ch, req, cmd, k, log, r, w, -, hj, hx, rfl⟩
  · exact ⟨th, hth, .refl th⟩
  · refine ⟨th, ?_, .refl th⟩
    rw [List.getElem?_append_left hi]
    exact hth
  · by_cases hij : j = i
    · subst hij
      rw [hth, Option.some.injEq] at hj
      subst hj
      refine ⟨_, List.getElem?_set_self hi, rfl, [⟨cmd, ch, c.world, r, w⟩], rfl, ?_⟩
      exact ⟨ch, c.world, r, w, hx, rfl, path_nil.mpr rfl⟩
    · exact ⟨th, by rw [List.getElem?_set_ne hij]; exact hth, .refl th⟩

/-- **Threads persist.**  A thread of an earlier configuration is there later on. -/
theorem Reach.thread {ok : Config Y → Step Y → Prop} {a c : Config Y} (h : Reach ok a c)
    {i : Nat} {th : Thread Y} (hth : a.threads[i]? = some th) :
    ∃ th', c.threads[i]? = some th' ∧ th.Continues th' := by
  induction h with
  | refl => exact ⟨th, hth, .refl th⟩
  | tail _ _ hs ih =>
      obtain ⟨th₁, hth₁, h₁⟩ := ih
      obtain ⟨th₂, hth₂, h₂⟩ := Config.next_thread hs hth₁
      exact ⟨th₂, hth₂, h₁.trans h₂⟩

/-- A thread that is done no step changes. -/
theorem Config.next_thread_done {c c' : Config Y} {s : Step Y} (h : c.next s = some c') {i : Nat}
    {th : Thread Y} (hth : c.threads[i]? = some th) (hd : th.rest.Done) :
    c'.threads[i]? = some th := by
  obtain ⟨th', hth', hcont⟩ := Config.next_thread h hth
  rw [hth', hcont.eq_of_done hd]

/-- A thread that was done is unchanged later on. -/
theorem Reach.thread_done {ok : Config Y → Step Y → Prop} {a c : Config Y} (h : Reach ok a c)
    {i : Nat} {th : Thread Y} (hth : a.threads[i]? = some th) (hd : th.rest.Done) :
    c.threads[i]? = some th := by
  obtain ⟨th', hth', hcont⟩ := h.thread hth
  rw [hth', hcont.eq_of_done hd]

/-! ### Every step of a thread was a step of the run -/

theorem Config.length_le_next {c c' : Config Y} {s : Step Y} (h : c.next s = some c') :
    c.threads.length ≤ c'.threads.length := by
  rcases Config.next_cases h with ⟨m, w, -, -, rfl⟩ | ⟨r, -, rfl⟩ |
    ⟨i, ch, req, cmd, k, log, r, w, -, -, -, rfl⟩
  · exact Nat.le_refl _
  · simp
  · simp

theorem Reach.length_le {ok : Config Y → Step Y → Prop} {a c : Config Y} (h : Reach ok a c) :
    a.threads.length ≤ c.threads.length := by
  induction h with
  | refl => exact Nat.le_refl _
  | tail _ _ hs ih => exact Nat.le_trans ih (Config.length_le_next hs)

/-- What thread `i` had logged in a configuration; nothing before it was started. -/
def Config.logOf (c : Config Y) (i : Nat) : List (Event Y.toMachine) :=
  match c.threads[i]? with
  | some th => th.log
  | none => []

theorem Config.logOf_late {c : Config Y} {i : Nat} (h : c.threads.length ≤ i) :
    c.logOf i = [] := by
  rw [Config.logOf, List.getElem?_eq_none h]

@[simp] theorem Config.logOf_fresh (w : Y.World) (i : Nat) :
    (Config.fresh w : Config Y).logOf i = [] :=
  Config.logOf_late (Nat.zero_le i)

/-- The world in which an event of thread `i` happened: a configuration of the run in which
the thread stood before its command, having logged `before`, and the one after it. -/
structure Moment (ok : Config Y → Step Y → Prop) (a c : Config Y) (i : Nat) (req : Y.Req)
    (before : List (Event Y.toMachine)) (e : Event Y.toMachine) (b b' : Config Y) : Prop where
  reach : Reach ok a b
  allowed : ok b (.run i e.choice)
  next : b.next (.run i e.choice) = some b'
  later : Reach ok b' c
  thread : ∃ k, b.threads[i]? = some ⟨req, .call e.cmd k, before⟩ ∧
    b'.threads[i]? = some ⟨req, k e.reply, before ++ [e]⟩
  pre : b.world = e.pre
  post : b'.world = e.post

/-- The thread before and after an answer `r` to the command `cmd`. -/
theorem Moment.thread_is {ok : Config Y → Step Y → Prop} {a c b b' : Config Y} {i : Nat}
    {req : Y.Req} {before : List (Event Y.toMachine)} {e : Event Y.toMachine}
    (hm : Moment ok a c i req before e b b') {cmd : S.Cmd} {r : S.Reply cmd} (he : e.Is cmd r) :
    ∃ k, b.threads[i]? = some ⟨req, .call cmd k, before⟩ ∧
      b'.threads[i]? = some ⟨req, k r, before ++ [e]⟩ := by
  obtain ⟨ch, w, w', rfl⟩ := he
  exact hm.thread

/-- The other threads stand still meanwhile. -/
theorem Moment.other {ok : Config Y → Step Y → Prop} {a c b b' : Config Y} {i j : Nat}
    {req : Y.Req} {before : List (Event Y.toMachine)} {e : Event Y.toMachine}
    (hm : Moment ok a c i req before e b b') (hij : i ≠ j) :
    b'.threads[j]? = b.threads[j]? := by
  rcases Config.next_cases hm.next with ⟨m, w, hs, -⟩ | ⟨r, hs, -⟩ |
    ⟨i', ch, req, cmd, k, log, r, w, hs, -, -, heq⟩
  · cases hs
  · cases hs
  · obtain ⟨rfl, -⟩ := Step.run.inj hs
    rw [heq, List.getElem?_set_ne hij]

/-- **Moments.**  Every command a thread has logged since `a` was a step of the run. -/
theorem Reach.moment {ok : Config Y → Step Y → Prop} {a c : Config Y} (h : Reach ok a c)
    {i : Nat} {e : Event Y.toMachine} :
    ∀ (before after : List (Event Y.toMachine)) {th : Thread Y}, c.threads[i]? = some th →
      th.log = before ++ e :: after → (a.logOf i).length ≤ before.length →
      ∃ b b', Moment ok a c i th.req before e b b' := by
  induction h with
  | refl =>
      intro before after th hth hlog hnew
      simp only [Config.logOf, hth, hlog, List.length_append, List.length_cons] at hnew
      omega
  | @tail b c s hab hok hs ih =>
      have extend : ∀ (before after : List (Event Y.toMachine)) (th : Thread Y),
          b.threads[i]? = some th → th.log = before ++ e :: after →
          (a.logOf i).length ≤ before.length →
          ∃ d d', Moment ok a c i th.req before e d d' := by
        intro before after th hth hlog hnew
        obtain ⟨d, d', hm⟩ := ih before after hth hlog hnew
        exact ⟨d, d', { hm with later := hm.later.tail hok hs }⟩
      intro before after th hth hlog hnew
      rcases Config.thread_was hs hth with hold | ⟨r, -, -, rfl⟩ |
        ⟨ch, req, cmd, k, log, r, rfl, hi, hx, rfl⟩
      · exact extend before after th hold hlog hnew
      · simp at hlog
      · rcases List.eq_nil_or_concat after with rfl | ⟨after, last, rfl⟩
        · -- the event is the one just logged
          obtain ⟨rfl, he⟩ := List.append_inj' hlog rfl
          obtain rfl := (List.cons.inj he).1
          exact ⟨b, c, hab, hok, hs, .refl _, ⟨k, hi, hth⟩, rfl, rfl⟩
        · have hlog' : log ++ [⟨cmd, ch, b.world, r, c.world⟩] =
            (before ++ e :: after) ++ [last] := by
            simpa using hlog
          exact extend before after ⟨req, .call cmd k, log⟩ hi (List.append_inj' hlog' rfl).1 hnew

/-- So was every command of a request that came later. -/
theorem Reach.moment_late {ok : Config Y → Step Y → Prop} {a c : Config Y} (h : Reach ok a c)
    {i : Nat} (hlate : a.threads.length ≤ i) {th : Thread Y} (hi : c.threads[i]? = some th)
    {e : Event Y.toMachine} (he : e ∈ th.log) :
    ∃ before b b', Moment ok a c i th.req before e b b' := by
  obtain ⟨before, after, hlog⟩ := List.append_of_mem he
  exact ⟨before, h.moment before after hi hlog (by simp [Config.logOf_late hlate])⟩

/-- So was every command of a run that began with no requests. -/
theorem Reach.moment_at {ok : Config Y → Step Y → Prop} {w : Y.World} {c : Config Y}
    (h : Reach ok (Config.fresh w) c) {i : Nat} {th : Thread Y} (hi : c.threads[i]? = some th)
    {e : Event Y.toMachine} (he : e ∈ th.log) :
    ∃ before b b', Moment ok (Config.fresh w) c i th.req before e b b' :=
  h.moment_late (Nat.zero_le i) hi he

/-- What a thread has logged at the end of a run it had logged in the middle, or logged
after. -/
theorem Reach.logged_or_moment {ok : Config Y → Step Y → Prop} {d c : Config Y}
    (h : Reach ok d c) {i : Nat} {th : Thread Y} (hth : c.threads[i]? = some th)
    (before after : List (Event Y.toMachine)) {e : Event Y.toMachine}
    (hlog : th.log = before ++ e :: after) :
    (∃ th' after' ext, d.threads[i]? = some th' ∧ th'.req = th.req ∧
      th'.log = before ++ e :: after' ∧ after = after' ++ ext) ∨
    ∃ b b', Moment ok d c i th.req before e b b' := by
  by_cases hnew : (d.logOf i).length ≤ before.length
  · exact Or.inr (h.moment before after hth hlog hnew)
  · cases hd : d.threads[i]? with
    | none => exact absurd (by simp [Config.logOf, hd]) hnew
    | some th' =>
        obtain ⟨th₁, hth₁, hreq, ext, hext, -⟩ := h.thread hd
        obtain rfl : th = th₁ := Option.some.inj (hth.symm.trans hth₁)
        rw [hlog] at hext
        rcases List.append_eq_append_iff.mp hext with ⟨l, hl, hrest⟩ | ⟨l, hl, -⟩
        · cases l with
          | nil => exact absurd (by simp [Config.logOf, hd, hl]) hnew
          | cons e' after' =>
              obtain ⟨rfl, hafter⟩ := List.cons.inj hrest
              exact Or.inl ⟨th', after', ext, rfl, hreq.symm, hl, hafter⟩
        · exact absurd (by simp [Config.logOf, hd, hl]) hnew

/-- **Starts.**  A thread that was not there in `a` was started on the way. -/
theorem Reach.started {ok : Config Y → Step Y → Prop} {a c : Config Y} (h : Reach ok a c)
    {i : Nat} {th : Thread Y} (hth : c.threads[i]? = some th) (hnew : a.threads.length ≤ i) :
    ∃ b, Reach ok a b ∧ ok b (.start th.req) ∧ b.threads.length = i ∧ Reach ok b c := by
  induction h generalizing th with
  | refl =>
      have := (List.getElem?_eq_some_iff.mp hth).1
      omega
  | @tail b c s hab hok hs ih =>
      rcases Config.thread_was hs hth with hold | ⟨r, rfl, hi, rfl⟩ |
        ⟨ch, req, cmd, k, log, r, -, hi, -, rfl⟩
      · obtain ⟨d, had, hd, hlen, hdb⟩ := ih hold
        exact ⟨d, had, hd, hlen, hdb.tail hok hs⟩
      · exact ⟨b, hab, hok, hi.symm, (Reach.refl b).tail hok hs⟩
      · obtain ⟨d, had, hd, hlen, hdb⟩ := ih hi
        exact ⟨d, had, hd, hlen, hdb.tail hok hs⟩

/-! ### Worlds along a run

`R` is a preorder on worlds that every allowed step respects.  Then the world of
a configuration is below that of every later one, and the commands a thread has
issued since saw worlds in between, in order.
-/

/-- From `w` through the events of the log to `w'`, worlds only grow. -/
def Ascends (R : Y.World → Y.World → Prop) : Y.World → List (Event Y.toMachine) → Y.World → Prop
  | w, [], w' => R w w'
  | w, e :: log, w' => R w e.pre ∧ R e.pre e.post ∧ Ascends R e.post log w'

section Ascends

variable {R : Y.World → Y.World → Prop}

theorem Ascends.right (htrans : ∀ a b c, R a b → R b c → R a c) :
    ∀ {log : List (Event Y.toMachine)} {w w' w'' : Y.World}, Ascends R w log w' → R w' w'' →
      Ascends R w log w'' := by
  intro log
  induction log with
  | nil => intro w w' w'' h hr; exact htrans _ _ _ h hr
  | cons e log ih => intro w w' w'' h hr; exact ⟨h.1, h.2.1, ih h.2.2 hr⟩

theorem Ascends.snoc (hrefl : ∀ w, R w w) :
    ∀ {log : List (Event Y.toMachine)} {w : Y.World} {e : Event Y.toMachine},
      Ascends R w log e.pre → R e.pre e.post → Ascends R w (log ++ [e]) e.post := by
  intro log
  induction log with
  | nil => intro w e h he; exact ⟨h, he, hrefl _⟩
  | cons d log ih => intro w e h he; exact ⟨h.1, h.2.1, ih h.2.2 he⟩

theorem Ascends.le (htrans : ∀ a b c, R a b → R b c → R a c) :
    ∀ {log : List (Event Y.toMachine)} {w w' : Y.World}, Ascends R w log w' → R w w' := by
  intro log
  induction log with
  | nil => intro w w' h; exact h
  | cons e log ih => intro w w' h; exact htrans _ _ _ h.1 (htrans _ _ _ h.2.1 (ih h.2.2))

/-- Earlier events of an ascending log are below later ones. -/
theorem Ascends.ordered (htrans : ∀ a b c, R a b → R b c → R a c) :
    ∀ {before after : List (Event Y.toMachine)} {e : Event Y.toMachine} {w w' : Y.World},
      Ascends R w (before ++ e :: after) w' → R w e.pre ∧ ∀ d ∈ before, R d.post e.pre := by
  intro before
  induction before with
  | nil => intro after e w w' h; exact ⟨h.1, by simp⟩
  | cons d before ih =>
      intro after e w w' h
      obtain ⟨hle, hall⟩ := ih h.2.2
      refine ⟨htrans _ _ _ h.1 (htrans _ _ _ h.2.1 hle), ?_⟩
      intro d' hd'
      rcases List.mem_cons.mp hd' with rfl | hmem
      · exact hle
      · exact hall d' hmem

/-- Every event of an ascending log lies between its ends. -/
theorem Ascends.mem (htrans : ∀ a b c, R a b → R b c → R a c) :
    ∀ {log : List (Event Y.toMachine)} {w w' : Y.World}, Ascends R w log w' →
      ∀ e ∈ log, R w e.pre ∧ R e.pre e.post ∧ R e.post w' := by
  intro log
  induction log with
  | nil => intro w w' _ e he; simp at he
  | cons d log ih =>
      intro w w' h e he
      rcases List.mem_cons.mp he with rfl | hmem
      · exact ⟨h.1, h.2.1, h.2.2.le htrans⟩
      · obtain ⟨h₁, h₂, h₃⟩ := ih h.2.2 e hmem
        exact ⟨htrans _ _ _ h.1 (htrans _ _ _ h.2.1 h₁), h₂, h₃⟩

end Ascends

/-- **Worlds only grow.**  Since an earlier configuration `a`, every thread's commands
saw worlds that ascend from that of `a` to that of `c`. -/
theorem Reach.since {ok : Config Y → Step Y → Prop} {R : Y.World → Y.World → Prop}
    {a c : Config Y} (h : Reach ok a c) (hrefl : ∀ w, R w w)
    (htrans : ∀ a b c, R a b → R b c → R a c)
    (hstep : ∀ {b c s}, ok b s → b.next s = some c → R b.world c.world) :
    R a.world c.world ∧ ∀ i th, c.threads[i]? = some th →
      ∃ ext, th.log = a.logOf i ++ ext ∧ Ascends R a.world ext c.world := by
  induction h with
  | refl =>
      refine ⟨hrefl _, fun i th hth => ⟨[], ?_, hrefl _⟩⟩
      simp [Config.logOf, hth]
  | @tail b c s hab hok hs ih =>
      obtain ⟨hle, hall⟩ := ih
      have hbc : R b.world c.world := hstep hok hs
      refine ⟨htrans _ _ _ hle hbc, ?_⟩
      intro i th hth
      rcases Config.thread_was hs hth with hold | ⟨r, -, hi, rfl⟩ |
        ⟨ch, req, cmd, k, log, r, -, hi, -, rfl⟩
      · obtain ⟨ext, hl, hasc⟩ := hall i th hold
        exact ⟨ext, hl, hasc.right htrans hbc⟩
      · -- the new thread has logged nothing
        have hnone : a.threads[i]? = none := by
          rw [List.getElem?_eq_none_iff, hi]
          exact hab.length_le
        exact ⟨[], by simp [Config.logOf, hnone], htrans _ _ _ hle hbc⟩
      · obtain ⟨ext, hl, hasc⟩ := hall i _ hi
        refine ⟨ext ++ [⟨cmd, ch, b.world, r, c.world⟩], ?_, Ascends.snoc hrefl hasc hbc⟩
        simp only at hl
        simp [hl]

/-- A request that came later has seen nothing but worlds after that. -/
theorem Reach.ascends {ok : Config Y → Step Y → Prop} {R : Y.World → Y.World → Prop}
    {a c : Config Y} (h : Reach ok a c) (hrefl : ∀ w, R w w)
    (htrans : ∀ a b c, R a b → R b c → R a c)
    (hstep : ∀ {b c s}, ok b s → b.next s = some c → R b.world c.world) {i : Nat}
    (hlate : a.threads.length ≤ i) {th : Thread Y} (hi : c.threads[i]? = some th) :
    Ascends R a.world th.log c.world := by
  obtain ⟨ext, hlog, hasc⟩ := (h.since hrefl htrans hstep).2 i th hi
  rw [Config.logOf_late hlate, List.nil_append] at hlog
  rw [hlog]
  exact hasc

/-- **Thresholds are passed once.**  Of a quantity that no step lowers, no two threads log
the event at which it comes up to `n`. -/
theorem Reach.once {ok : Config Y → Step Y → Prop} {α : Type} [Preorder α] {f : Y.World → α}
    {w : Y.World} {c : Config Y} (h : Reach ok (Config.fresh w) c)
    (hstep : ∀ {b c s}, ok b s → b.next s = some c → f b.world ≤ f c.world) {i j : Nat}
    {th th' : Thread Y} (hi : c.threads[i]? = some th) (hj : c.threads[j]? = some th')
    {e e' : Event Y.toMachine} (he : e ∈ th.log) (he' : e' ∈ th'.log) {n : α}
    (hn : f e.pre < n ∧ n ≤ f e.post) (hn' : f e'.pre < n ∧ n ≤ f e'.post) : i = j := by
  by_contra hij
  have hrefl : ∀ v : Y.World, f v ≤ f v := fun v => le_refl _
  have htrans : ∀ u v v' : Y.World, f u ≤ f v → f v ≤ f v' → f u ≤ f v' :=
    fun _ _ _ => le_trans
  obtain ⟨before, b, b', hm⟩ := h.moment_at hi he
  obtain ⟨before', after', hlog'⟩ := List.append_of_mem he'
  rcases hm.later.logged_or_moment hj before' after' hlog' with
    ⟨th₁, after₁, ext, hth₁, -, hlog₁, -⟩ | ⟨d, d', hm'⟩
  · -- `e'` came first
    rw [hm.other hij] at hth₁
    have hasc := hm.reach.ascends hrefl htrans hstep (Nat.zero_le j) hth₁
    have hle := (hasc.mem htrans e' (by rw [hlog₁]; simp)).2.2
    rw [hm.pre] at hle
    exact absurd (lt_of_le_of_lt (le_trans hn'.2 hle) hn.1) (lt_irrefl n)
  · -- `e` came first
    have hle := (hm'.reach.since hrefl htrans hstep).1
    rw [hm.post, hm'.pre] at hle
    exact absurd (lt_of_le_of_lt (le_trans hn.2 hle) hn'.1) (lt_irrefl n)

/-! ### Sequential runs -/

/-- A request starts only when every earlier one is done. -/
def OneAtATime (c : Config Y) : Step Y → Prop
  | .start _ => ∀ th ∈ c.threads, th.rest.Done
  | _ => True

/-- Only the last request may be in service. -/
def Config.OneBusy (c : Config Y) : Prop :=
  ∀ i th, c.threads[i]? = some th → ¬ th.rest.Done → i + 1 = c.threads.length

theorem Config.fresh_oneBusy (w : Y.World) : (Config.fresh w : Config Y).OneBusy := by
  intro i th hth
  simp [Config.fresh] at hth

theorem Config.OneBusy.next {c c' : Config Y} {s : Step Y} (hc : c.OneBusy)
    (hok : OneAtATime c s) (h : c.next s = some c') : c'.OneBusy := by
  rcases Config.next_cases h with ⟨m, w, -, -, rfl⟩ | ⟨r, rfl, rfl⟩ |
    ⟨j, ch, req, cmd, k, log, r, w, -, hj, -, rfl⟩
  · exact hc
  · intro i th hth hbusy
    by_cases hi : i < c.threads.length
    · rw [List.getElem?_append_left hi] at hth
      exact absurd (hok th (List.mem_of_getElem? hth)) hbusy
    · have hlt := (List.getElem?_eq_some_iff.mp hth).1
      simp only [List.length_append, List.length_singleton] at hlt ⊢
      omega
  · intro i th hth hbusy
    rw [List.length_set]
    by_cases hij : j = i
    · subst hij
      exact hc j _ hj fun hd => hd
    · rw [List.getElem?_set_ne hij] at hth
      exact hc i th hth hbusy

/-- In a sequential run only the last request is ever in service. -/
theorem Reach.oneBusy {ok : Config Y → Step Y → Prop} {w : Y.World} {c : Config Y}
    (h : Reach ok (Config.fresh w) c) (hok : ∀ c s, ok c s → OneAtATime c s) : c.OneBusy :=
  h.invariant (I := Config.OneBusy) (Config.fresh_oneBusy w) fun hb hs hn => hb.next (hok _ _ hs) hn

end Concurrent
