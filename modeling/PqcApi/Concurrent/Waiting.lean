/-
Clients that wait for a connection.

As long as a client has not been answered, a client or the service can go on
(`Wired.Sound.goes_on`), and together they execute at most six statements for a command
(`Wired.Run.statements_le`).  So once no more requests come, all of them are answered after a
number of statements that is known beforehand.

The other way round, a run of the system in which every reply arrives is a run of the clients
(`Wired.realizes`).
-/
import Mathlib.Algebra.Group.Action.Defs
import PqcApi.Concurrent.Atomic
import PqcApi.Concurrent.Front
import PqcApi.Concurrent.Pool

namespace Concurrent

variable {S : Signature} {Y : System S} {V : Service Y} {c c' : Wired V} {a a' a₀ : Config Y}
  {ok : Config Y → Step Y → Prop}

namespace Wired

/-! ### Nobody waits for ever -/

/-- The services and the environment have an answer to everything. -/
structure Answering (V : Service Y) : Prop where
  serve : ∀ w cmd, V.remote cmd = true → ∃ ch r, V.serve w cmd ch = some r
  own : ∀ w cmd, V.remote cmd = false → ∃ ch r, Y.exec w cmd ch = some r

theorem next_call {i : Nat} {stage : Stage V.Wire} {st : Standing Y} {cmd : S.Cmd}
    {k : S.Reply cmd → Program S Y.Out} (hi : c.At i stage st cmd k) (s : Stmt) :
    c.next (.call i s) = c.statement i st cmd k stage s := by
  obtain ⟨hcl, hrest⟩ := hi
  obtain ⟨req, rest, answers⟩ := st
  obtain rfl : rest = .call cmd k := hrest
  simp only [next, hcl]

/-- **Somebody goes on**, as long as a client has not been answered. -/
theorem Sound.goes_on (hanswers : Answering V) (h : Sound ok a₀ c) {i : Nat} {cl : Client V}
    (hi : c.clients[i]? = some cl) (hbusy : ¬ cl.rest.Done) :
    ∃ s d, c.next s = some d ∧ s.statements = 1 := by
  have goes : ∀ s : Act Y, (c.next s).isSome → s.statements = 1 →
      ∃ s d, c.next s = some d ∧ s.statements = 1 := by
    intro s hs hone
    obtain ⟨d, hd⟩ := Option.isSome_iff_exists.mp hs
    exact ⟨s, d, hd, hone⟩
  obtain ⟨ends, hstands, -⟩ := h.backed
  cases hstands with
  | free hfree =>
      obtain ⟨⟨req, rest, answers⟩, stage⟩ := cl
      have hout : stage = .out := by
        by_contra hstage
        have hholder := h.exclusive i _ hi hstage
        rw [hfree] at hholder
        cases hholder
      subst hout
      cases rest with
      | ret a => exact absurd trivial hbusy
      | throw e => exact absurd trivial hbusy
      | call cmd k =>
          by_cases hremote : V.remote cmd = true
          · exact goes (.call i .lock) (by simp [Wired.next, hi, statement, hremote, hfree]) rfl
          · obtain ⟨ch, r, hx⟩ := hanswers.own c.world cmd (by simpa using hremote)
            exact goes (.own i ch) (by simp [Wired.next, hi, hremote, hx]) rfl
  | @locked j _ _ _ hl =>
      exact goes (.call j .append) (by rw [next_call hl.stands]; rfl) rfl
  | @unsent j _ _ _ hl hline =>
      exact goes (.call j .write) (by rw [next_call hl.stands]; simp [statement, hline]) rfl
  | @sent j st cmd k hl hline =>
      obtain ⟨ch, r, hx⟩ := hanswers.serve c.world cmd hl.remote
      exact goes (.serve ch) (by simp [Wired.next, hline, hx]) rfl
  | @replied j _ _ _ m hl hreply =>
      exact goes (.call j .read)
        (by rw [next_call hl.stands]; simp [statement, takeReply, hreply]) rfl
  | @broken j _ _ _ stage hl hstage hnone herr =>
      rcases hstage with rfl | rfl
      · exact goes (.call j .write)
          (by rw [next_call hl.stands]; simp [statement, hnone, herr]) rfl
      · exact goes (.call j .read)
          (by rw [next_call hl.stands]; simp [statement, hnone, herr]) rfl
  | @told j _ _ _ m hl =>
      exact goes (.call j .unlock) (by rw [next_call hl.stands]; rfl) rfl

end Wired

/-! ### How long a request takes -/

/-- No path of the program has more than `n` commands. -/
def Program.AtMost {α : Type} : Nat → Program S α → Prop
  | _, .ret _ => True
  | _, .throw _ => True
  | 0, .call _ _ => False
  | n + 1, .call _ k => ∀ r, (k r).AtMost n

namespace Program.AtMost

variable {α β : Type} {m n : Nat} {p : Program S α}

@[simp] theorem ret (n : Nat) (a : α) : AtMost n (.ret a : Program S α) := by
  cases n <;> exact trivial

@[simp] theorem throw (n : Nat) (e : S.Exn) : AtMost n (.throw e : Program S α) := by
  cases n <;> exact trivial

theorem mono (h : p.AtMost m) (hmn : m ≤ n) : p.AtMost n := by
  induction p generalizing m n with
  | ret a => exact ret n a
  | throw e => exact throw n e
  | call c k ih =>
      cases m with
      | zero => exact h.elim
      | succ m =>
          obtain ⟨n, rfl⟩ : ∃ l, n = l + 1 := ⟨n - 1, by omega⟩
          intro r
          exact ih r (h r) (by omega)

/-- A program and what comes after it. -/
theorem bind {f : α → Program S β} (h : p.AtMost m) (hf : ∀ a, (f a).AtMost n) :
    (p.bind f).AtMost (m + n) := by
  induction p generalizing m with
  | ret a => exact (hf a).mono (Nat.le_add_left n m)
  | throw e => exact throw (m + n) e
  | call c k ih =>
      cases m with
      | zero => exact h.elim
      | succ m =>
          rw [Nat.add_right_comm]
          intro r
          exact ih r (h r)

/-- A program and its handler. -/
theorem handle {f : S.Exn → Program S α} (h : p.AtMost m) (hf : ∀ e, (f e).AtMost n) :
    (p.handle f).AtMost (m + n) := by
  induction p generalizing m with
  | ret a => exact ret (m + n) a
  | throw e => exact (hf e).mono (Nat.le_add_left n m)
  | call c k ih =>
      cases m with
      | zero => exact h.elim
      | succ m =>
          rw [Nat.add_right_comm]
          intro r
          exact ih r (h r)

/-- There being more commands does not make it longer. -/
theorem lift {E : Reads} (h : p.AtMost n) : (Program.lift p : Program (S.extend E) α).AtMost n := by
  induction p generalizing n with
  | ret a => exact ret n a
  | throw e => exact throw (S := S.extend E) n e
  | call c k ih =>
      cases n with
      | zero => exact h.elim
      | succ n =>
          intro r
          exact ih r (h r)

end Program.AtMost

theorem Path.length_le {M : Machine S} {α : Type} : ∀ {log : List (Event M)} {p q : Program S α}
    {n : Nat}, Path p log q → p.AtMost n →
    log.length ≤ n ∧ ((∃ cmd k, q = .call cmd k) → log.length < n) := by
  intro log
  induction log with
  | nil =>
      intro p q n h hp
      rw [path_nil] at h
      subst h
      refine ⟨Nat.zero_le n, ?_⟩
      rintro ⟨cmd, k, rfl⟩
      cases n with
      | zero => exact hp.elim
      | succ n => exact Nat.succ_pos n
  | cons e log ih =>
      intro p q n h hp
      cases p with
      | ret a => exact h.elim
      | throw x => exact h.elim
      | call cmd k =>
          obtain ⟨ch, w, r, w', -, -, hrest⟩ := h
          cases n with
          | zero => exact hp.elim
          | succ n =>
              obtain ⟨hle, hlt⟩ := ih hrest (hp r)
              exact ⟨Nat.succ_le_succ hle, fun hq => Nat.succ_lt_succ (hlt hq)⟩

/-- The statements of a call that are over; what is in the output buffer will be run. -/
def Stage.spent {Wire : Type} : Stage Wire → Nat
  | .out => 0
  | .locked => 1
  | .asked => 3
  | .waiting => 4
  | .told _ => 5

theorem Stage.spent_le {Wire : Type} (stage : Stage Wire) : stage.spent ≤ 5 := by
  cases stage <;> simp [spent]

def Client.spent (cl : Client V) : Nat :=
  6 * cl.answers.length + cl.stage.spent

namespace Wired

/-- The statements the clients have executed or have asked for. -/
def spent (c : Wired V) : Nat :=
  (c.clients.map Client.spent).sum

/-- What the service has still to run. -/
def queued (c : Wired V) : Nat :=
  c.line.obuf.length + c.line.requests.length

theorem spent_put {i : Nat} {st : Standing Y} {stage : Stage V.Wire}
    (hi : c.clients[i]? = some ⟨st, stage⟩) (st' : Standing Y) (stage' : Stage V.Wire) :
    (c.put i st' stage').spent + (6 * st.answers.length + stage.spent) =
      c.spent + (6 * st'.answers.length + stage'.spent) :=
  Pool.sum_set Client.spent hi

theorem reading_spent {Wire : Type} {stage : Stage Wire}
    (h : stage = .asked ∨ stage = .waiting) : stage.spent < 5 := by
  rcases h with rfl | rfl
  · simp [Stage.spent]
  · simp [Stage.spent]

/-- Every statement is one of six for a command that has been answered or is in the lock. -/
theorem Change.spends {s : Act Y} (h : c.Change s c') :
    s.statements + c'.queued + c.spent ≤ c.queued + c'.spent := by
  cases h with
  | move => simp [queued, spent, Act.statements]
  | start => simp [queued, spent, Act.statements, Client.spent, Stage.spent]
  | @own i ch st cmd k r w hi =>
      have hput := spent_put hi.1 ⟨st.req, k r, st.answers ++ [⟨cmd, r⟩]⟩ .out
      simp only [List.length_append, List.length_singleton] at hput
      simp only [spent, queued, Act.statements, put] at *
      omega
  | @lock i st _ _ hi =>
      have hput := spent_put hi.1 st .locked
      simp only [spent, queued, Act.statements, put, Stage.spent] at *
      omega
  | @append i st _ _ hi =>
      have hput := spent_put hi.1 st .asked
      simp only [spent, queued, Act.statements, put, Stage.spent, List.length_append,
        List.length_singleton] at *
      omega
  | @write i st _ _ hi =>
      have hput := spent_put hi.1 st .waiting
      simp only [spent, queued, Act.statements, put, Stage.spent, List.length_append,
        List.length_nil] at *
      omega
  | @read i st _ _ stage m rest hi hstage hsome =>
      have hput := spent_put hi.1 st (.told (some m))
      have hreading := reading_spent hstage
      simp only [spent, queued, Act.statements, put, Stage.spent] at *
      omega
  | @giveUp i st _ _ stage s hi hstage hnone herr =>
      have hput := spent_put hi.1 st (.told none)
      have hreading := reading_spent hstage
      simp only [spent, queued, Act.statements, put, Stage.spent] at *
      omega
  | @unlock i st cmd k m hi =>
      have hput := spent_put hi.1
        ⟨st.req, k (V.reading cmd m), st.answers ++ [⟨cmd, V.reading cmd m⟩]⟩ .out
      simp only [List.length_append, List.length_singleton] at hput
      simp only [spent, queued, Act.statements, put, Stage.spent] at *
      omega
  | serve hreq hx =>
      simp only [spent, queued, Act.statements, hreq, List.length_cons]
      omega
  | fail kept => simp [queued, spent, Act.statements]

theorem Run.spends {okW : Wired V → Act Y → Prop} {n : Nat} (h : Run okW c n c') :
    n + c'.queued + c.spent ≤ c.queued + c'.spent := by
  induction h with
  | refl => omega
  | tail _ _ hs ih =>
      have hstep := (change_of_next hs).spends
      omega

/-- Who is in a call is at a command. -/
theorem Sound.in_call (h : Sound ok a₀ c) {i : Nat} {cl : Client V} (hi : c.clients[i]? = some cl)
    (hstage : cl.stage ≠ .out) : ∃ cmd k, cl.rest = .call cmd k := by
  have hholder := h.exclusive i cl hi hstage
  obtain ⟨ends, hstands, -⟩ := h.backed
  rcases hstands.holder with ⟨hfree, -⟩ | ⟨j, stage, st, cmd, k, -, hj⟩
  · rw [hfree] at hholder
    cases hholder
  · obtain rfl : j = i := Option.some.inj (hj.holder.symm.trans hholder)
    obtain rfl := Option.some.inj (hj.stands.1.symm.trans hi)
    exact ⟨cmd, k, hj.stands.2⟩

/-- A client has been answered as often as its program asks at most, and less often while it is
in a call. -/
theorem Sound.client_spent (hok : a₀.Sound) {N : Nat} (hN : ∀ r, (Y.program r).AtMost N)
    (h : Sound ok a₀ c) {i : Nat} {cl : Client V} (hi : c.clients[i]? = some cl) :
    cl.spent ≤ 6 * N := by
  have hin := h.in_call hi
  obtain ⟨ends, hstands, hbacked⟩ := h.backed
  obtain ⟨p, hp⟩ : ∃ p, p ∈ ends := by
    cases hstands <;> exact ⟨_, List.mem_cons_self⟩
  obtain ⟨a, ha, hf⟩ := hbacked p hp
  obtain ⟨th, hth, hst⟩ := hf.client hi
  obtain ⟨hle, hlt⟩ := Path.length_le (ha.path hok th (List.mem_of_getElem? hth)) (hN th.req)
  obtain ⟨⟨req, rest, answers⟩, stage⟩ := cl
  have hcount : answers.length ≤ N ∧ ((∃ cmd k, rest = .call cmd k) → answers.length < N) := by
    rcases hst with hst | ⟨m, hst⟩
    · obtain ⟨-, rfl, rfl⟩ := Standing.mk.inj hst
      rw [List.length_map]
      exact ⟨hle, hlt⟩
    · cases rest with
      | call cmd k =>
          have hlen := congrArg (fun st : Standing Y => st.answers.length) hst
          simp only [Thread.standing, Standing.hear, List.length_map, List.length_append,
            List.length_singleton] at hlen
          exact ⟨by omega, fun _ => by omega⟩
      | ret r =>
          obtain ⟨-, -, rfl⟩ := Standing.mk.inj hst
          rw [List.length_map]
          exact ⟨hle, by simp⟩
      | throw e =>
          obtain ⟨-, -, rfl⟩ := Standing.mk.inj hst
          rw [List.length_map]
          exact ⟨hle, by simp⟩
  by_cases hout : stage = .out
  · subst hout
    simp only [Client.spent, Stage.spent]
    omega
  · have hless := hcount.2 (hin hout)
    have hspent := Stage.spent_le stage
    simp only [Client.spent]
    omega

theorem Run.mono {okW okW' : Wired V → Act Y → Prop} (hle : ∀ c s, okW c s → okW' c s) {n : Nat}
    (h : Run okW c n c') : Run okW' c n c' := by
  induction h with
  | refl => exact .refl
  | tail _ hok hs ih => exact ih.tail (hle _ _ hok) hs

/-- Of a run of the system that may be any, nothing is asked. -/
theorem allows_true (a : Config Y) (c : Wired V) (s : Act Y) :
    V.Allows (fun _ _ => True) a c s := by
  intro _ _ _ _
  cases s <;> exact trivial

/-- **Nobody takes long.**  The clients and the service together execute at most six statements
for a command. -/
theorem Run.statements_le (hok : V.Lenient ok) (ha : a.Sound) {N n : Nat}
    (hN : ∀ r, (Y.program r).AtMost N) (h : Run (V.Allows ok a) (Wired.of V a) n c) :
    n ≤ 6 * N * c.clients.length := by
  have hsound := h.sound hok
  have hspends := h.spends
  have hstart : (Wired.of V a).queued = 0 := rfl
  have hsum : c.spent ≤ (c.clients.map fun _ => 6 * N).sum :=
    List.sum_le_sum fun cl hcl => by
      obtain ⟨i, hi⟩ := List.mem_iff_getElem?.mp hcl
      exact hsound.client_spent ha hN hi
  rw [List.map_const', List.sum_replicate, smul_eq_mul, Nat.mul_comm] at hsum
  omega

end Wired

/-! ### Runs in which the replies arrive -/

/-- The reply to a command for the service arrives. -/
def Service.Arrives (V : Service Y) (a : Config Y) (s : Step Y) : Prop :=
  ∀ i ch th cmd k, s = .run i ch → a.threads[i]? = some th → th.rest = .call cmd k →
    V.remote cmd = true → ∃ r, V.serve a.world cmd ch = some r

namespace Wired

variable {okW : Wired V → Act Y → Prop}

theorem Run.trans {b : Wired V} {m n : Nat} (h : Run okW b m c) (h' : Run okW c n c') :
    Run okW b (m + n) c' := by
  induction h' with
  | refl => exact h
  | tail _ hok hs ih =>
      rw [← Nat.add_assoc]
      exact ih.tail hok hs

section Call

variable {i : Nat} {st : Standing Y} {cmd : S.Cmd} {k : S.Reply cmd → Program S Y.Out}

/-- Who stood at the command stands at it in any stage of its call. -/
theorem At.put_stage {stage₀ : Stage V.Wire} (hi : c.At i stage₀ st cmd k) (stage : Stage V.Wire)
    (w : Y.World) (holder : Option Nat) (l : Connection V) :
    (⟨w, c.clients.set i ⟨st, stage⟩, holder, l⟩ : Wired V).At i stage st cmd k :=
  ⟨put_self hi.1, hi.2⟩

/-- A command is sent over a connection that nobody uses. -/
theorem Run.sent (hok : ∀ c s, okW c s) (hfree : c.holder = none)
    (hline : c.line = ⟨[], [], [], false⟩) (hi : c.At i .out st cmd k)
    (hremote : V.remote cmd = true) :
    Run okW c 3 ⟨c.world, c.clients.set i ⟨st, .waiting⟩, some i, ⟨[], [cmd], [], false⟩⟩ := by
  have hlock : c.next (.call i .lock) =
      some ⟨c.world, c.clients.set i ⟨st, .locked⟩, some i, ⟨[], [], [], false⟩⟩ := by
    rw [next_call hi]
    simp [statement, hremote, hfree, hline, put]
  have happend : (⟨c.world, c.clients.set i ⟨st, .locked⟩, some i, ⟨[], [], [], false⟩⟩ :
      Wired V).next (.call i .append) =
      some ⟨c.world, c.clients.set i ⟨st, .asked⟩, some i, ⟨[cmd], [], [], false⟩⟩ := by
    rw [next_call (hi.put_stage _ _ _ _)]
    simp [statement, put]
  have hwrite : (⟨c.world, c.clients.set i ⟨st, .asked⟩, some i, ⟨[cmd], [], [], false⟩⟩ :
      Wired V).next (.call i .write) =
      some ⟨c.world, c.clients.set i ⟨st, .waiting⟩, some i, ⟨[], [cmd], [], false⟩⟩ := by
    rw [next_call (hi.put_stage _ _ _ _)]
    simp [statement, put]
  exact ((Run.refl.tail (hok _ _) hlock).tail (hok _ _) happend).tail (hok _ _) hwrite

/-- It is run, and its reply is on its way. -/
theorem Run.served (hok : ∀ c s, okW c s) (hfree : c.holder = none)
    (hline : c.line = ⟨[], [], [], false⟩) {ch : Y.Choice} {m : V.Wire} {w : Y.World}
    (hi : c.At i .out st cmd k) (hremote : V.remote cmd = true)
    (hx : V.serve c.world cmd ch = some (m, w)) :
    Run okW c 4 ⟨w, c.clients.set i ⟨st, .waiting⟩, some i, ⟨[], [], [m], false⟩⟩ := by
  have hserve : (⟨c.world, c.clients.set i ⟨st, .waiting⟩, some i, ⟨[], [cmd], [], false⟩⟩ :
      Wired V).next (.serve ch) =
      some ⟨w, c.clients.set i ⟨st, .waiting⟩, some i, ⟨[], [], [m], false⟩⟩ := by
    simp [Wired.next, hx]
  exact (Run.sent hok hfree hline hi hremote).tail (hok _ _) hserve

/-- A call on a connection that nobody uses. -/
theorem Run.call (hok : ∀ c s, okW c s) (hfree : c.holder = none)
    (hline : c.line = ⟨[], [], [], false⟩) {ch : Y.Choice} {m : V.Wire} {w : Y.World}
    (hi : c.At i .out st cmd k) (hremote : V.remote cmd = true)
    (hx : V.serve c.world cmd ch = some (m, w)) :
    Run okW c 6 { c.put i ⟨st.req, k (V.reading cmd (some m)),
      st.answers ++ [⟨cmd, V.reading cmd (some m)⟩]⟩ .out with world := w } := by
  have hserved := Run.served hok hfree hline hi hremote hx
  have hread : (⟨w, c.clients.set i ⟨st, .waiting⟩, some i, ⟨[], [], [m], false⟩⟩ :
      Wired V).next (.call i .read) =
      some ⟨w, c.clients.set i ⟨st, .told (some m)⟩, some i, ⟨[], [], [], false⟩⟩ := by
    rw [next_call (hi.put_stage _ _ _ _)]
    simp [statement, takeReply, put]
  have hunlock : (⟨w, c.clients.set i ⟨st, .told (some m)⟩, some i, ⟨[], [], [], false⟩⟩ :
      Wired V).next (.call i .unlock) =
      some { c.put i ⟨st.req, k (V.reading cmd (some m)),
        st.answers ++ [⟨cmd, V.reading cmd (some m)⟩]⟩ .out with world := w } := by
    rw [next_call (hi.put_stage _ _ _ _)]
    simp [statement, put, hfree, hline]
  exact (hserved.tail (hok _ _) hread).tail (hok _ _) hunlock

/-- One whose command is run, but the connection fails before the reply arrives. -/
theorem Run.lost (hok : ∀ c s, okW c s) (hfree : c.holder = none)
    (hline : c.line = ⟨[], [], [], false⟩) {ch : Y.Choice} {m : V.Wire} {w : Y.World}
    (hi : c.At i .out st cmd k) (hremote : V.remote cmd = true)
    (hx : V.serve c.world cmd ch = some (m, w)) :
    Run okW c 6 ⟨w, c.clients.set i ⟨⟨st.req, k (V.reading cmd none),
      st.answers ++ [⟨cmd, V.reading cmd none⟩]⟩, .out⟩, none, ⟨[], [], [], true⟩⟩ := by
  have hserved := Run.served hok hfree hline hi hremote hx
  have hfail : (⟨w, c.clients.set i ⟨st, .waiting⟩, some i, ⟨[], [], [m], false⟩⟩ :
      Wired V).next (.fail 0) =
      some ⟨w, c.clients.set i ⟨st, .waiting⟩, some i, ⟨[], [], [], true⟩⟩ := rfl
  have hread : (⟨w, c.clients.set i ⟨st, .waiting⟩, some i, ⟨[], [], [], true⟩⟩ :
      Wired V).next (.call i .read) =
      some ⟨w, c.clients.set i ⟨st, .told none⟩, some i, ⟨[], [], [], true⟩⟩ := by
    rw [next_call (hi.put_stage _ _ _ _)]
    simp [statement, put]
  have hunlock : (⟨w, c.clients.set i ⟨st, .told none⟩, some i, ⟨[], [], [], true⟩⟩ :
      Wired V).next (.call i .unlock) = some ⟨w, c.clients.set i ⟨⟨st.req, k (V.reading cmd none),
        st.answers ++ [⟨cmd, V.reading cmd none⟩]⟩, .out⟩, none, ⟨[], [], [], true⟩⟩ := by
    rw [next_call (hi.put_stage _ _ _ _)]
    simp [statement, put]
  exact ((hserved.tail (hok _ _) hfail).tail (hok _ _) hread).tail (hok _ _) hunlock

/-- One on a connection that has failed. -/
theorem Run.dead (hok : ∀ c s, okW c s) (hfree : c.holder = none)
    (hline : c.line = ⟨[], [], [], true⟩) (hi : c.At i .out st cmd k)
    (hremote : V.remote cmd = true) :
    Run okW c 4 ⟨c.world, c.clients.set i ⟨⟨st.req, k (V.reading cmd none),
      st.answers ++ [⟨cmd, V.reading cmd none⟩]⟩, .out⟩, none, ⟨[cmd], [], [], true⟩⟩ := by
  have hlock : c.next (.call i .lock) =
      some ⟨c.world, c.clients.set i ⟨st, .locked⟩, some i, ⟨[], [], [], true⟩⟩ := by
    rw [next_call hi]
    simp [statement, hremote, hfree, hline, put]
  have happend : (⟨c.world, c.clients.set i ⟨st, .locked⟩, some i, ⟨[], [], [], true⟩⟩ :
      Wired V).next (.call i .append) =
      some ⟨c.world, c.clients.set i ⟨st, .asked⟩, some i, ⟨[cmd], [], [], true⟩⟩ := by
    rw [next_call (hi.put_stage _ _ _ _)]
    simp [statement, put]
  have hwrite : (⟨c.world, c.clients.set i ⟨st, .asked⟩, some i, ⟨[cmd], [], [], true⟩⟩ :
      Wired V).next (.call i .write) =
      some ⟨c.world, c.clients.set i ⟨st, .told none⟩, some i, ⟨[cmd], [], [], true⟩⟩ := by
    rw [next_call (hi.put_stage _ _ _ _)]
    simp [statement, put]
  have hunlock : (⟨c.world, c.clients.set i ⟨st, .told none⟩, some i, ⟨[cmd], [], [], true⟩⟩ :
      Wired V).next (.call i .unlock) =
      some ⟨c.world, c.clients.set i ⟨⟨st.req, k (V.reading cmd none),
        st.answers ++ [⟨cmd, V.reading cmd none⟩]⟩, .out⟩, none, ⟨[cmd], [], [], true⟩⟩ := by
    rw [next_call (hi.put_stage _ _ _ _)]
    simp [statement, put]
  exact (((Run.refl.tail (hok _ _) hlock).tail (hok _ _) happend).tail (hok _ _) hwrite).tail
    (hok _ _) hunlock

end Call

theorem of_set {i : Nat} {th : Thread Y} {w : Y.World} :
    Wired.of V (⟨w, a.threads.set i th⟩ : Config Y) =
      { (Wired.of V a).put i th.standing .out with world := w } := by
  simp [Wired.of, put, List.map_set]

/-- **Nothing is missing.**  A run of the system in which every reply arrives is a run of the
clients. -/
theorem realizes (hok : ∀ c s, okW c s) (h : Reach V.Arrives a a') :
    ∃ n, Run okW (Wired.of V a) n (Wired.of V a') := by
  induction h with
  | refl => exact ⟨0, .refl⟩
  | @tail b d s _ harrives hs ih =>
      obtain ⟨n, hrun⟩ := ih
      rcases Config.next_cases hs with ⟨m, w, rfl, hm, rfl⟩ | ⟨r, rfl, rfl⟩ |
        ⟨i, ch, req, cmd, k, log, r, w, rfl, hth, hx, rfl⟩
      · have hmove : (Wired.of V b).next (.move m) = some (Wired.of V ⟨w, b.threads⟩) := by
          simp [Wired.next, Wired.of, hm]
        exact ⟨_, hrun.tail (hok _ _) hmove⟩
      · have hstart : (Wired.of V b).next (.start r) =
            some (Wired.of V ⟨b.world, b.threads ++ [⟨r, Y.program r, []⟩]⟩) := by
          simp [Wired.next, Wired.of, Thread.standing]
        exact ⟨_, hrun.tail (hok _ _) hstart⟩
      · have hat : (Wired.of V b).At i .out (Thread.standing ⟨req, .call cmd k, log⟩) cmd k :=
          ⟨by simp [Wired.of, hth], rfl⟩
        have hnow : ∀ r', (Thread.standing (⟨req, k r', log ++ [⟨cmd, ch, b.world, r', w⟩]⟩ :
            Thread Y)) = ⟨req, k r', log.map Event.answer ++ [⟨cmd, r'⟩]⟩ := by
          intro r'
          simp [Thread.standing, Event.answer]
        rw [of_set, hnow]
        by_cases hremote : V.remote cmd = true
        · obtain ⟨⟨m, v⟩, hserve⟩ := harrives i ch _ cmd k rfl hth rfl hremote
          have hanswer := V.answered hremote hserve
          rw [hx] at hanswer
          obtain ⟨rfl, rfl⟩ := Prod.mk.inj (Option.some.inj hanswer)
          exact ⟨_, hrun.trans (Run.call hok rfl rfl hat hremote hserve)⟩
        · have hown : (Wired.of V b).next (.own i ch) = some { (Wired.of V b).put i
              ⟨req, k r, log.map Event.answer ++ [⟨cmd, r⟩]⟩ .out with world := w } := by
            simp [Wired.next, Wired.of, hth, Thread.standing, hremote, hx]
          exact ⟨_, hrun.tail (hok _ _) hown⟩

end Wired

end Concurrent
