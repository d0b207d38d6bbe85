/-
Workers between two channels.

One goroutine puts jobs into a buffered channel, closes it and ranges over the results.
Workers range over the jobs, and put what comes of each into a second buffered channel.  A
closer waits for the workers and closes that channel.  Statements of all of them interleave in
any order.

The claim is that this neither loses anything nor hangs.  Nothing is sent on a closed channel
and no channel is closed twice (`never_panics`), somebody can go on until the results are all
collected (`goes_on`), every statement spends one of a number of statements that is fixed at
the start (`statements`), and what has been collected at the end is what the jobs came to
(`all_collected`, `all_done`).

Jobs and results are counted as multisets: where a job is, nobody asks, only that it is
somewhere once.
-/
import Mathlib.Algebra.BigOperators.Group.List.Basic
import Mathlib.Algebra.Order.BigOperators.Group.List
import Mathlib.Algebra.Order.Group.Multiset
import Mathlib.Algebra.Order.Group.Nat
import Mathlib.Tactic.Abel

namespace Concurrent

/-! ### Channels -/

/-- What a statement comes to: it waits, it ends the process, or it is done. -/
inductive Turn (σ : Type)
  | waits
  | panics
  | goes (next : σ)

namespace Turn

variable {σ ρ : Type}

def map (f : σ → ρ) : Turn σ → Turn ρ
  | waits => waits
  | panics => panics
  | goes s => goes (f s)

theorem map_eq_goes {f : σ → ρ} {t : Turn σ} {r : ρ} :
    t.map f = .goes r ↔ ∃ s, t = .goes s ∧ f s = r := by
  cases t <;> simp [map]

theorem map_eq_panics {f : σ → ρ} {t : Turn σ} : t.map f = .panics ↔ t = .panics := by
  cases t <;> simp [map]

end Turn

/-- A buffered channel, what was sent first in front. -/
structure Channel (α : Type) where
  cap : Nat
  buffer : List α
  closed : Bool

namespace Channel

variable {α : Type} {c c' : Channel α}

/-- `make(chan α, cap)`. -/
def make (cap : Nat) : Channel α :=
  ⟨cap, [], false⟩

def send (c : Channel α) (a : α) : Turn (Channel α) :=
  if c.closed then .panics
  else if c.buffer.length < c.cap then .goes { c with buffer := c.buffer ++ [a] }
  else .waits

def close (c : Channel α) : Turn (Channel α) :=
  if c.closed then .panics else .goes { c with closed := true }

/-- One round of `range`: the next value, or nothing once the channel is closed and empty. -/
def receive (c : Channel α) : Turn (Option α × Channel α) :=
  match c.buffer with
  | a :: rest => .goes (some a, { c with buffer := rest })
  | [] => if c.closed then .goes (none, c) else .waits

theorem send_goes {a : α} (h : c.send a = .goes c') :
    c.closed = false ∧ c' = { c with buffer := c.buffer ++ [a] } := by
  unfold send at h
  split at h
  · cases h
  · split at h
    · exact ⟨by simpa using ‹¬c.closed = true›, (Turn.goes.inj h).symm⟩
    · cases h

theorem send_room {a : α} (hopen : c.closed = false) (hroom : c.buffer.length < c.cap) :
    c.send a = .goes { c with buffer := c.buffer ++ [a] } := by
  simp [send, hopen, hroom]

theorem send_panics {a : α} (h : c.send a = .panics) : c.closed = true := by
  by_contra hopen
  simp only [send, if_neg hopen] at h
  split at h <;> cases h

theorem close_goes (h : c.close = .goes c') :
    c.closed = false ∧ c' = { c with closed := true } := by
  unfold close at h
  split at h
  · cases h
  · exact ⟨by simpa using ‹¬c.closed = true›, (Turn.goes.inj h).symm⟩

theorem close_panics (h : c.close = .panics) : c.closed = true := by
  by_contra hopen
  simp [close, hopen] at h

/-- A round of `range` takes what is in front, or ends with the channel. -/
theorem receive_goes {o : Option α} (h : c.receive = .goes (o, c')) :
    (∃ a rest, o = some a ∧ c.buffer = a :: rest ∧ c' = { c with buffer := rest }) ∨
      o = none ∧ c' = c ∧ c.buffer = [] ∧ c.closed = true := by
  unfold receive at h
  split at h
  · rename_i a rest hbuffer
    obtain ⟨rfl, rfl⟩ := Prod.mk.inj (Turn.goes.inj h)
    exact Or.inl ⟨a, rest, rfl, hbuffer, rfl⟩
  · rename_i hbuffer
    split at h
    · obtain ⟨rfl, rfl⟩ := Prod.mk.inj (Turn.goes.inj h)
      exact Or.inr ⟨rfl, rfl, hbuffer, ‹_›⟩
    · cases h

theorem receive_panics (h : c.receive = .panics) : False := by
  unfold receive at h
  split at h
  · cases h
  · split at h <;> cases h

/-- Only an empty channel that is open makes its reader wait. -/
theorem receive_ready (h : c.buffer ≠ [] ∨ c.closed = true) : ∃ r, c.receive = .goes r := by
  unfold receive
  cases hbuffer : c.buffer with
  | cons a rest => exact ⟨_, rfl⟩
  | nil =>
      have hclosed : c.closed = true := h.resolve_left fun hne => hne hbuffer
      exact ⟨_, if_pos hclosed⟩

end Channel

/-! ### Goroutines -/

/-- A worker: before the next round of its `range`, at work on a job, with a result to send,
after its loop, and gone. -/
inductive Worker (Job Res : Type)
  | idle
  | busy (j : Job)
  | done (r : Res)
  | leaving
  | gone

/-- The goroutine that has the jobs: how many it has still to send, the loop being over, and
where it is after that. -/
inductive Feeder (Job : Type)
  | feeding (rest : List Job)
  | spawning
  | collecting
  | returned

/-- The closer: not started yet, in `Wait`, about to close the results, and gone. -/
inductive Closer
  | unborn
  | waiting
  | closing
  | gone

structure Pool (Job Res : Type) where
  feeder : Feeder Job
  closer : Closer
  workers : List (Worker Job Res)
  /-- the counter of the `WaitGroup` -/
  running : Nat
  jobs : Channel Job
  out : Channel Res
  collected : List Res

/-- Whose statement is next, and for a worker at work what its job comes to. -/
inductive Move (Res : Type)
  | feeder
  | closer
  | worker (i : Nat)
  | finish (i : Nat) (r : Res)

namespace Pool

variable {Job Res : Type} {p p' p₀ : Pool Job Res} {m : Move Res}

/-- The workers are there, with the counter at their number, before the first job is sent. -/
def start (jobs : List Job) (workers jobsCap outCap : Nat) : Pool Job Res where
  feeder := .feeding jobs
  closer := .unborn
  workers := List.replicate workers .idle
  running := workers
  jobs := .make jobsCap
  out := .make outCap
  collected := []

def nextFeeder (p : Pool Job Res) : Turn (Pool Job Res) :=
  match p.feeder with
  | .feeding (j :: rest) =>
      (p.jobs.send j).map fun jobs => { p with jobs := jobs, feeder := .feeding rest }
  | .feeding [] => p.jobs.close.map fun jobs => { p with jobs := jobs, feeder := .spawning }
  | .spawning => .goes { p with closer := .waiting, feeder := .collecting }
  | .collecting => p.out.receive.map fun
      | (some r, out) => { p with out := out, collected := p.collected ++ [r] }
      | (none, out) => { p with out := out, feeder := .returned }
  | .returned => .waits

def nextCloser (p : Pool Job Res) : Turn (Pool Job Res) :=
  match p.closer with
  | .unborn => .waits
  | .waiting => if p.running = 0 then .goes { p with closer := .closing } else .waits
  | .closing => p.out.close.map fun out => { p with out := out, closer := .gone }
  | .gone => .waits

def nextWorker (p : Pool Job Res) (i : Nat) : Turn (Pool Job Res) :=
  match p.workers[i]? with
  | some .idle => p.jobs.receive.map fun
      | (some j, jobs) => { p with jobs := jobs, workers := p.workers.set i (.busy j) }
      | (none, jobs) => { p with jobs := jobs, workers := p.workers.set i .leaving }
  | some (.done r) =>
      (p.out.send r).map fun out => { p with out := out, workers := p.workers.set i .idle }
  -- `Done` panics where the counter would become negative
  | some .leaving =>
      if p.running = 0 then .panics
      else .goes { p with running := p.running - 1, workers := p.workers.set i .gone }
  | _ => .waits

/-- One statement. -/
def next (p : Pool Job Res) : Move Res → Turn (Pool Job Res)
  | .feeder => p.nextFeeder
  | .closer => p.nextCloser
  | .worker i => p.nextWorker i
  | .finish i r =>
      match p.workers[i]? with
      | some (.busy _) => .goes { p with workers := p.workers.set i (.done r) }
      | _ => .waits

/-- The job a statement gets done, and what it comes to. -/
def gets (p : Pool Job Res) : Move Res → List (Job × Res)
  | .finish i r =>
      match p.workers[i]? with
      | some (.busy j) => [(j, r)]
      | _ => []
  | _ => []

/-- A run of so many statements, and the jobs they got done. -/
inductive Run (p₀ : Pool Job Res) : Nat → List (Job × Res) → Pool Job Res → Prop
  | here : Run p₀ 0 [] p₀
  | step {n log p p'} {m : Move Res} (h : Run p₀ n log p) (hm : p.next m = .goes p') :
      Run p₀ (n + 1) (log ++ p.gets m) p'

/-- What a schedule comes to: the jobs it got done, and where it ends. -/
def play (p : Pool Job Res) : List (Move Res) → Turn (List (Job × Res) × Pool Job Res)
  | [] => .goes ([], p)
  | m :: ms =>
      match p.next m with
      | .waits => .waits
      | .panics => .panics
      | .goes p' => (p'.play ms).map fun (done, q) => (p.gets m ++ done, q)

/-- A schedule that goes through is a run. -/
theorem Run.play (ms : List (Move Res)) : ∀ {n : Nat} {log done : List (Job × Res)}
    {p q : Pool Job Res}, Run p₀ n log p → p.play ms = .goes (done, q) →
      Run p₀ (n + ms.length) (log ++ done) q := by
  induction ms with
  | nil =>
      intro n log done p q hrun hplay
      obtain ⟨rfl, rfl⟩ := Prod.mk.inj (Turn.goes.inj hplay)
      simpa using hrun
  | cons m ms ih =>
      intro n log done p q hrun hplay
      unfold Pool.play at hplay
      split at hplay
      · cases hplay
      · cases hplay
      · rename_i p' hm
        obtain ⟨⟨rest, q'⟩, hrest, hq⟩ := Turn.map_eq_goes.mp hplay
        obtain ⟨rfl, rfl⟩ := Prod.mk.inj hq
        have hgone := ih (hrun.step hm) hrest
        rw [List.append_assoc] at hgone
        rw [List.length_cons, Nat.add_comm ms.length, ← Nat.add_assoc]
        exact hgone

/-! ### What one statement does -/

/-- All that a statement can have done. -/
inductive Step (p : Pool Job Res) : List (Job × Res) → Pool Job Res → Prop
  | feed {j rest} (at_ : p.feeder = .feeding (j :: rest)) (hopen : p.jobs.closed = false) :
      Step p [] { p with
        jobs := { p.jobs with buffer := p.jobs.buffer ++ [j] }, feeder := .feeding rest }
  | shut (at_ : p.feeder = .feeding []) (hopen : p.jobs.closed = false) :
      Step p [] { p with jobs := { p.jobs with closed := true }, feeder := .spawning }
  | spawn (at_ : p.feeder = .spawning) :
      Step p [] { p with closer := .waiting, feeder := .collecting }
  | collect {r rest} (at_ : p.feeder = .collecting) (hout : p.out.buffer = r :: rest) :
      Step p [] { p with
        out := { p.out with buffer := rest }, collected := p.collected ++ [r] }
  | finish (at_ : p.feeder = .collecting) (hout : p.out.buffer = []) (hclosed : p.out.closed) :
      Step p [] { p with feeder := .returned }
  | waited (at_ : p.closer = .waiting) (hrunning : p.running = 0) :
      Step p [] { p with closer := .closing }
  | close (at_ : p.closer = .closing) (hopen : p.out.closed = false) :
      Step p [] { p with out := { p.out with closed := true }, closer := .gone }
  | take {i j rest} (at_ : p.workers[i]? = some .idle) (hjobs : p.jobs.buffer = j :: rest) :
      Step p [] { p with
        jobs := { p.jobs with buffer := rest }, workers := p.workers.set i (.busy j) }
  | leave {i} (at_ : p.workers[i]? = some .idle) (hjobs : p.jobs.buffer = [])
      (hclosed : p.jobs.closed) : Step p [] { p with workers := p.workers.set i .leaving }
  | work {i j r} (at_ : p.workers[i]? = some (.busy j)) :
      Step p [(j, r)] { p with workers := p.workers.set i (.done r) }
  | hand {i r} (at_ : p.workers[i]? = some (.done r)) (hopen : p.out.closed = false) :
      Step p [] { p with
        out := { p.out with buffer := p.out.buffer ++ [r] }, workers := p.workers.set i .idle }
  | quit {i} (at_ : p.workers[i]? = some .leaving) (hrunning : p.running ≠ 0) :
      Step p [] { p with running := p.running - 1, workers := p.workers.set i .gone }

theorem step_feeder (h : p.nextFeeder = .goes p') : Step p [] p' := by
  unfold nextFeeder at h
  split at h
  · rename_i j rest at_
    obtain ⟨jobs, hsend, rfl⟩ := Turn.map_eq_goes.mp h
    obtain ⟨hopen, rfl⟩ := Channel.send_goes hsend
    exact .feed at_ hopen
  · rename_i at_
    obtain ⟨jobs, hclose, rfl⟩ := Turn.map_eq_goes.mp h
    obtain ⟨hopen, rfl⟩ := Channel.close_goes hclose
    exact .shut at_ hopen
  · rw [← Turn.goes.inj h]
    exact .spawn ‹_›
  · rename_i at_
    obtain ⟨⟨o, out⟩, hreceive, rfl⟩ := Turn.map_eq_goes.mp h
    rcases Channel.receive_goes hreceive with ⟨r, rest, rfl, hout, rfl⟩ | ⟨rfl, rfl, hout, hclosed⟩
    · exact .collect at_ hout
    · exact .finish at_ hout hclosed
  · cases h

theorem step_closer (h : p.nextCloser = .goes p') : Step p [] p' := by
  unfold nextCloser at h
  split at h
  · cases h
  · split at h
    · rw [← Turn.goes.inj h]
      exact .waited ‹_› ‹_›
    · cases h
  · rename_i at_
    obtain ⟨out, hclose, rfl⟩ := Turn.map_eq_goes.mp h
    obtain ⟨hopen, rfl⟩ := Channel.close_goes hclose
    exact .close at_ hopen
  · cases h

theorem step_worker {i : Nat} (h : p.nextWorker i = .goes p') : Step p [] p' := by
  unfold nextWorker at h
  split at h
  · rename_i at_
    obtain ⟨⟨o, jobs⟩, hreceive, rfl⟩ := Turn.map_eq_goes.mp h
    rcases Channel.receive_goes hreceive with
      ⟨j, rest, rfl, hjobs, rfl⟩ | ⟨rfl, rfl, hjobs, hclosed⟩
    · exact .take at_ hjobs
    · exact .leave at_ hjobs hclosed
  · rename_i r at_
    obtain ⟨out, hsend, rfl⟩ := Turn.map_eq_goes.mp h
    obtain ⟨hopen, rfl⟩ := Channel.send_goes hsend
    exact .hand at_ hopen
  · rename_i at_
    split at h
    · cases h
    · rw [← Turn.goes.inj h]
      exact .quit at_ ‹_›
  · cases h

theorem step_of_next (h : p.next m = .goes p') : Step p (p.gets m) p' := by
  cases m with
  | feeder => exact step_feeder h
  | closer => exact step_closer h
  | worker i => exact step_worker h
  | finish i r =>
      simp only [next] at h
      split at h
      · rename_i j at_
        rw [← Turn.goes.inj h, gets, at_]
        exact .work at_
      · cases h

/-! ### Sums over the workers -/

/-- What replacing one worker does to a sum over them. -/
theorem sum_set {α M : Type} [AddCommMonoid M] (f : α → M) {a b : α} :
    ∀ {ws : List α} {i : Nat}, ws[i]? = some a →
      ((ws.set i b).map f).sum + f a = (ws.map f).sum + f b := by
  intro ws
  induction ws with
  | nil => simp
  | cons w ws ih =>
      intro i hi
      cases i with
      | zero =>
          have hw : w = a := by simpa using hi
          simp only [List.set_cons_zero, List.map_cons, List.sum_cons, hw]
          abel
      | succ i =>
          have hrest := ih (i := i) (by simpa using hi)
          simp only [List.set_cons_succ, List.map_cons, List.sum_cons]
          rw [add_assoc, hrest, add_assoc]

/-- One worker is in the sum. -/
theorem le_sum {α : Type} (f : α → Nat) {a : α} {ws : List α} (h : a ∈ ws) :
    f a ≤ (ws.map f).sum :=
  List.single_le_sum (fun _ _ => Nat.zero_le _) _ (List.mem_map_of_mem h)

end Pool

namespace Worker

variable {Job Res : Type}

/-- The job a worker is at. -/
def taken : Worker Job Res → Multiset Job
  | busy j => {j}
  | _ => 0

/-- The result it has not sent. -/
def held : Worker Job Res → Multiset Res
  | done r => {r}
  | _ => 0

/-- One while it counts in the `WaitGroup`. -/
def present : Worker Job Res → Nat
  | gone => 0
  | _ => 1

/-- It has found the jobs closed and taken. -/
def ended : Worker Job Res → Bool
  | leaving | gone => true
  | _ => false

/-- The statements it has before it, without those of further jobs; one of a job is counted
with the result to collect. -/
def toGo : Worker Job Res → Nat
  | idle => 2
  | busy _ => 5
  | done _ => 4
  | leaving => 1
  | gone => 0

end Worker

namespace Feeder

variable {Job : Type}

/-- The jobs it has not sent. -/
def ahead : Feeder Job → List Job
  | feeding rest => rest
  | _ => []

/-- It has closed the jobs. -/
def fed : Feeder Job → Bool
  | feeding _ => false
  | _ => true

/-- It has started the closer. -/
def spawned : Feeder Job → Bool
  | feeding _ | spawning => false
  | _ => true

/-- The statements it has before it, with the five of each job. -/
def toGo : Feeder Job → Nat
  | feeding rest => 5 * rest.length + 3
  | spawning => 2
  | collecting => 1
  | returned => 0

end Feeder

def Closer.toGo : Closer → Nat
  | unborn | waiting => 2
  | closing => 1
  | gone => 0

namespace Pool

variable {Job Res : Type} {p p' p₀ : Pool Job Res} {m : Move Res}

/-- The statements a pool has before it. -/
def toGo (p : Pool Job Res) : Nat :=
  p.feeder.toGo + p.closer.toGo + (p.workers.map Worker.toGo).sum + 4 * p.jobs.buffer.length +
    p.out.buffer.length

/-! ### The invariant -/

/-- What is true of a pool that was given these jobs, once it has got these done. -/
structure Sound (given : List Job) (log : List (Job × Res)) (p : Pool Job Res) : Prop where
  jobs : (p.feeder.ahead : Multiset Job) + p.jobs.buffer + (p.workers.map Worker.taken).sum +
    (log.map Prod.fst : List Job) = given
  results : (p.collected : Multiset Res) + p.out.buffer + (p.workers.map Worker.held).sum =
    (log.map Prod.snd : List Res)
  running : p.running = (p.workers.map Worker.present).sum
  jobs_closed : p.jobs.closed = p.feeder.fed
  unborn : p.closer = .unborn ↔ p.feeder.spawned = false
  early : p.feeder.spawned = false → p.collected = []
  ended : ∀ w ∈ p.workers, w.ended = true → p.jobs.closed = true ∧ p.jobs.buffer = []
  waited : p.closer = .closing ∨ p.closer = .gone → p.running = 0
  out_closed : p.out.closed = true ↔ p.closer = .gone
  returned : p.feeder = .returned → p.out.closed = true ∧ p.out.buffer = []

theorem sound_start (jobs : List Job) (workers jobsCap outCap : Nat) :
    Sound jobs [] (start jobs workers jobsCap outCap : Pool Job Res) where
  jobs := by simp [start, Channel.make, Feeder.ahead, Worker.taken, List.sum_replicate]
  results := by simp [start, Channel.make, Worker.held, List.sum_replicate]
  running := by simp [start, Worker.present]
  jobs_closed := rfl
  unborn := by simp [start, Feeder.spawned]
  early _ := rfl
  ended w hw hended := by
    rw [List.eq_of_mem_replicate hw] at hended
    cases hended
  waited h := by simp [start] at h
  out_closed := by simp [start, Channel.make]
  returned h := by simp [start] at h

/-- What replacing a worker does to what the workers have. -/
theorem replaced {ws : List (Worker Job Res)} {i : Nat} {a : Worker Job Res}
    (h : ws[i]? = some a) (b : Worker Job Res) :
    ((ws.set i b).map Worker.taken).sum + a.taken = (ws.map Worker.taken).sum + b.taken ∧
    ((ws.set i b).map Worker.held).sum + a.held = (ws.map Worker.held).sum + b.held ∧
    ((ws.set i b).map Worker.present).sum + a.present =
      (ws.map Worker.present).sum + b.present :=
  ⟨sum_set _ h, sum_set _ h, sum_set _ h⟩

/-- Of the workers after a replacement, those have ended that had before, or the new one has. -/
theorem Sound.ended_set {given : List Job} {log : List (Job × Res)} (h : Sound given log p)
    {i : Nat} {b : Worker Job Res}
    (hb : b.ended = true → p.jobs.closed = true ∧ p.jobs.buffer = []) :
    ∀ w ∈ p.workers.set i b, w.ended = true → p.jobs.closed = true ∧ p.jobs.buffer = [] := by
  intro w hw hended
  rcases List.mem_or_eq_of_mem_set hw with hold | rfl
  · exact h.ended w hold hended
  · exact hb hended

/-- Every statement keeps it. -/
theorem Step.sound {given : List Job} {log done : List (Job × Res)} (h : Sound given log p)
    (hs : Step p done p') : Sound given (log ++ done) p' := by
  have hjobs := h.jobs
  have hresults := h.results
  have hunborn := h.unborn
  cases hs with
  | @feed j rest at_ hopen =>
      rw [List.append_nil]
      rw [at_] at hjobs hunborn
      refine { h with jobs := ?_, jobs_closed := hopen, unborn := hunborn, early := fun _ => ?_,
                      ended := fun w hw hended => ?_, returned := fun hret => ?_ }
      · rw [← hjobs]
        simp only [Feeder.ahead, ← Multiset.coe_add, ← Multiset.cons_coe, ← Multiset.singleton_add,
          Multiset.coe_nil]
        abel
      · exact h.early (by rw [at_]; rfl)
      · rw [(h.ended w hw hended).1] at hopen
        cases hopen
      · cases hret
  | shut at_ hopen =>
      rw [List.append_nil]
      rw [at_] at hjobs hunborn
      refine { h with jobs := hjobs, jobs_closed := rfl, unborn := hunborn, early := fun _ => ?_,
                      ended := fun w hw hended => ?_, returned := fun hret => ?_ }
      · exact h.early (by rw [at_]; rfl)
      · exact ⟨rfl, (h.ended w hw hended).2⟩
      · cases hret
  | spawn at_ =>
      rw [List.append_nil]
      have hborn := hunborn.mpr (by rw [at_]; rfl)
      rw [at_] at hjobs
      refine { h with jobs := hjobs, jobs_closed := ?_, unborn := ?_, early := fun hs => ?_,
                      waited := fun hc => ?_, out_closed := ?_, returned := fun hret => ?_ }
      · rw [h.jobs_closed, at_]
        rfl
      · simp [Feeder.spawned]
      · cases hs
      · simp at hc
      · rw [h.out_closed, hborn]
        simp
      · cases hret
  | @collect r rest at_ hout =>
      rw [List.append_nil]
      refine { h with results := ?_, early := fun hs => ?_, returned := fun hret => ?_ }
      · rw [← hresults, hout]
        simp only [← Multiset.coe_add, ← Multiset.cons_coe, ← Multiset.singleton_add,
          Multiset.coe_nil]
        abel
      · rw [show p.feeder = _ from at_] at hs
        cases hs
      · exact absurd (at_.symm.trans hret) (by simp)
  | finish at_ hout hclosed =>
      rw [List.append_nil]
      rw [at_] at hjobs hunborn
      refine { h with jobs := hjobs, jobs_closed := ?_, unborn := hunborn, early := fun hs => ?_,
                      returned := fun _ => ⟨hclosed, hout⟩ }
      · rw [h.jobs_closed, at_]
        rfl
      · cases hs
  | waited at_ hrunning =>
      rw [List.append_nil]
      refine { h with unborn := ?_, waited := fun _ => hrunning, out_closed := ?_ }
      · rw [← hunborn, at_]
        simp
      · rw [h.out_closed, at_]
        simp
  | close at_ hopen =>
      rw [List.append_nil]
      refine { h with unborn := ?_, waited := fun _ => h.waited (Or.inl at_), out_closed := ?_,
                      returned := fun hret => ⟨rfl, (h.returned hret).2⟩ }
      · rw [← hunborn, at_]
        simp
      · simp
  | @take i j rest at_ hbuffer =>
      rw [List.append_nil]
      obtain ⟨htaken, hheld, hpresent⟩ := replaced at_ (.busy j)
      simp only [Worker.taken, Worker.held, Worker.present, add_zero] at htaken hheld hpresent
      refine { h with jobs := ?_, results := ?_, running := ?_, ended := fun w hw hended => ?_ }
      · rw [← hjobs, hbuffer, htaken]
        simp only [← Multiset.cons_coe, ← Multiset.singleton_add]
        abel
      · rw [hheld, hresults]
      · exact h.running.trans (Nat.add_right_cancel hpresent).symm
      · have hempty := h.ended_set (i := i) (b := .busy j) (fun hb => by cases hb) w hw hended
        rw [hbuffer] at hempty
        cases hempty.2
  | @leave i at_ hbuffer hclosed =>
      rw [List.append_nil]
      obtain ⟨htaken, hheld, hpresent⟩ := replaced at_ (.leaving)
      simp only [Worker.taken, Worker.held, Worker.present, add_zero] at htaken hheld hpresent
      refine { h with jobs := ?_, results := ?_, running := ?_, ended := ?_ }
      · rw [htaken, hjobs]
      · rw [hheld, hresults]
      · exact h.running.trans (Nat.add_right_cancel hpresent).symm
      · exact h.ended_set fun _ => ⟨hclosed, hbuffer⟩
  | @work i j r at_ =>
      obtain ⟨htaken, hheld, hpresent⟩ := replaced at_ (.done r)
      simp only [Worker.taken, Worker.held, Worker.present, add_zero] at htaken hheld hpresent
      refine { h with jobs := ?_, results := ?_, running := ?_, ended := ?_ }
      · rw [← hjobs, ← htaken, List.map_append, ← Multiset.coe_add]
        simp only [List.map_cons, List.map_nil, Multiset.coe_singleton]
        abel
      · rw [hheld, List.map_append, ← Multiset.coe_add, ← hresults]
        simp only [List.map_cons, List.map_nil, Multiset.coe_singleton]
        abel
      · exact h.running.trans (Nat.add_right_cancel hpresent).symm
      · exact h.ended_set fun hb => by cases hb
  | @hand i r at_ hopen =>
      rw [List.append_nil]
      obtain ⟨htaken, hheld, hpresent⟩ := replaced at_ (.idle)
      simp only [Worker.taken, Worker.held, Worker.present, add_zero] at htaken hheld hpresent
      refine { h with jobs := ?_, results := ?_, running := ?_, ended := ?_,
                      returned := fun hret => ?_ }
      · rw [htaken, hjobs]
      · rw [← hresults, ← hheld, ← Multiset.coe_add, Multiset.coe_singleton]
        abel
      · exact h.running.trans (Nat.add_right_cancel hpresent).symm
      · exact h.ended_set fun hb => by cases hb
      · exact absurd (h.returned hret).1 (by simp [hopen])
  | @quit i at_ hrunning =>
      rw [List.append_nil]
      obtain ⟨htaken, hheld, hpresent⟩ := replaced at_ (.gone)
      simp only [Worker.taken, Worker.held, Worker.present, add_zero] at htaken hheld hpresent
      refine { h with
        jobs := ?_, results := ?_, running := ?_, ended := ?_, waited := fun hc => ?_ }
      · rw [htaken, hjobs]
      · rw [hheld, hresults]
      · exact Nat.sub_eq_of_eq_add (h.running.trans hpresent.symm)
      · exact h.ended_set fun _ => h.ended _ (List.mem_of_getElem? at_) rfl
      · exact absurd (h.waited hc) hrunning

/-- Capacities stay, and so does the number of workers. -/
theorem Step.shape {log : List (Job × Res)} (hs : Step p log p') :
    p'.jobs.cap = p.jobs.cap ∧ p'.out.cap = p.out.cap ∧ p'.workers.length = p.workers.length := by
  cases hs <;> simp

/-! ### No panic -/

/-- While a worker counts, the results are open. -/
theorem Sound.out_open {given : List Job} {log : List (Job × Res)} (h : Sound given log p)
    {w : Worker Job Res} (hw : w ∈ p.workers) (hpresent : 0 < w.present) :
    p.running ≠ 0 ∧ p.out.closed = false := by
  have hle := le_sum Worker.present hw
  have hrunning : p.running ≠ 0 := by
    rw [h.running]
    omega
  refine ⟨hrunning, ?_⟩
  by_contra hclosed
  exact hrunning (h.waited (Or.inr (h.out_closed.mp (by simpa using hclosed))))

theorem Sound.never_panics {given : List Job} {log : List (Job × Res)} (h : Sound given log p)
    (m : Move Res) : p.next m ≠ .panics := by
  intro hpanics
  cases m with
  | feeder =>
      simp only [next, nextFeeder] at hpanics
      split at hpanics
      · have hclosed := Channel.send_panics (Turn.map_eq_panics.mp hpanics)
        rw [h.jobs_closed, ‹p.feeder = _›] at hclosed
        cases hclosed
      · have hclosed := Channel.close_panics (Turn.map_eq_panics.mp hpanics)
        rw [h.jobs_closed, ‹p.feeder = _›] at hclosed
        cases hclosed
      · cases hpanics
      · exact Channel.receive_panics (Turn.map_eq_panics.mp hpanics)
      · cases hpanics
  | closer =>
      simp only [next, nextCloser] at hpanics
      split at hpanics
      · cases hpanics
      · split at hpanics <;> cases hpanics
      · rename_i at_
        have hclosed := Channel.close_panics (Turn.map_eq_panics.mp hpanics)
        rw [h.out_closed, at_] at hclosed
        cases hclosed
      · cases hpanics
  | worker i =>
      simp only [next, nextWorker] at hpanics
      split at hpanics
      · exact Channel.receive_panics (Turn.map_eq_panics.mp hpanics)
      · rename_i r at_
        have hclosed := Channel.send_panics (Turn.map_eq_panics.mp hpanics)
        rw [(h.out_open (List.mem_of_getElem? at_) Nat.one_pos).2] at hclosed
        cases hclosed
      · rename_i at_
        rw [if_neg (h.out_open (List.mem_of_getElem? at_) Nat.one_pos).1] at hpanics
        cases hpanics
      · cases hpanics
  | finish i r =>
      simp only [next] at hpanics
      split at hpanics <;> cases hpanics

/-! ### No deadlock -/

/-- One while a worker has a job or its result. -/
def load : Worker Job Res → Nat
  | .busy _ | .done _ => 1
  | _ => 0

theorem card_workers (ws : List (Worker Job Res)) :
    Multiset.card (ws.map Worker.taken).sum + Multiset.card (ws.map Worker.held).sum =
      (ws.map load).sum := by
  induction ws with
  | nil => rfl
  | cons w ws ih =>
      have hw : Multiset.card w.taken + Multiset.card w.held = load w := by
        cases w <;> simp [Worker.taken, Worker.held, load]
      simp only [List.map_cons, List.sum_cons, Multiset.card_add]
      omega

/-- Every job is somewhere. -/
theorem Sound.count {given : List Job} {log : List (Job × Res)} (h : Sound given log p) :
    p.feeder.ahead.length + p.jobs.buffer.length + (p.workers.map load).sum +
      p.out.buffer.length + p.collected.length = given.length := by
  have hjobs := congrArg Multiset.card h.jobs
  have hresults := congrArg Multiset.card h.results
  have hworkers := card_workers p.workers
  simp only [Multiset.card_add, Multiset.coe_card, List.length_map] at hjobs hresults
  omega

/-- Room for the jobs: a worker, buffers, and no more jobs than the channels and the workers
together can hold. -/
structure Fits (given : List Job) (workers jobsCap outCap : Nat) : Prop where
  someone : 0 < workers
  buffers : given ≠ [] → 0 < jobsCap ∧ 0 < outCap
  room : given.length ≤ jobsCap + workers + outCap

/-- A worker waits only for a job or for room for its result. -/
theorem Sound.worker_goes_on {given : List Job} {log : List (Job × Res)} (h : Sound given log p)
    (r : Res) {i : Nat} {w : Worker Job Res} (hi : p.workers[i]? = some w) (hgone : w ≠ .gone)
    (hidle : w = .idle → p.jobs.buffer ≠ [] ∨ p.jobs.closed = true)
    (hdone : ∀ r, w = .done r → p.out.buffer.length < p.out.cap) :
    ∃ m p', p.next m = .goes p' := by
  have hmem := List.mem_of_getElem? hi
  cases w with
  | idle =>
      obtain ⟨⟨o, jobs⟩, hreceive⟩ := Channel.receive_ready (hidle rfl)
      refine ⟨.worker i, ?_⟩
      simp only [next, nextWorker, hi, hreceive]
      exact ⟨_, rfl⟩
  | busy j =>
      refine ⟨.finish i r, ?_⟩
      simp only [next, hi]
      exact ⟨_, rfl⟩
  | done r =>
      have hsend := Channel.send_room (a := r) (h.out_open hmem Nat.one_pos).2 (hdone r rfl)
      refine ⟨.worker i, ?_⟩
      simp only [next, nextWorker, hi, hsend]
      exact ⟨_, rfl⟩
  | leaving =>
      refine ⟨.worker i, ?_⟩
      simp only [next, nextWorker, hi, if_neg (h.out_open hmem Nat.one_pos).1]
      exact ⟨_, rfl⟩
  | gone => exact absurd rfl hgone

/-- With the jobs full, somebody takes one or has room for a result. -/
theorem Sound.feeding_goes_on {given : List Job} {log : List (Job × Res)} (h : Sound given log p)
    (hfits : Fits given p.workers.length p.jobs.cap p.out.cap) (r : Res) {j : Job}
    {rest : List Job} (hfeeder : p.feeder = .feeding (j :: rest)) :
    ∃ m p', p.next m = .goes p' := by
  have hopen : p.jobs.closed = false := by rw [h.jobs_closed, hfeeder]; rfl
  have hcollected : p.collected = [] := h.early (by rw [hfeeder]; rfl)
  have hcount := h.count
  rw [hfeeder, hcollected] at hcount
  simp only [Feeder.ahead, List.length_cons, List.length_nil] at hcount
  by_cases hroom : p.jobs.buffer.length < p.jobs.cap
  · refine ⟨.feeder, ?_⟩
    simp only [next, nextFeeder, hfeeder, Channel.send_room hopen hroom]
    exact ⟨_, rfl⟩
  obtain ⟨hjobs, hout⟩ := hfits.buffers (by rintro rfl; simp at hcount)
  have hbuffer : p.jobs.buffer ≠ [] := by
    intro hnil
    rw [hnil] at hroom
    exact hroom hjobs
  by_cases hall : ∀ w ∈ p.workers, load w = 1 ∧ p.out.cap ≤ p.out.buffer.length
  · -- all of them have a result and there is no room: more jobs than fit
    exfalso
    have hload : (p.workers.map load).sum = p.workers.length := by
      rw [List.map_congr_left fun w hw => (hall w hw).1]
      simp
    have hfull := (hall _ (List.getElem_mem hfits.someone)).2
    have hmax := hfits.room
    omega
  · push Not at hall
    obtain ⟨w, hw, hfree⟩ := hall
    obtain ⟨i, hi, rfl⟩ := List.mem_iff_getElem.mp hw
    have hended : (p.workers[i]).ended = false := by
      by_contra hended
      rw [(h.ended _ hw (by simpa using hended)).1] at hopen
      cases hopen
    refine h.worker_goes_on r (List.getElem?_eq_getElem hi) ?_ (fun _ => Or.inl hbuffer) ?_
    · intro hgone
      rw [hgone] at hended
      cases hended
    · intro r' hdone
      exact hfree (by rw [hdone]; rfl)

/-- With nothing to collect, a worker or the closer goes on. -/
theorem Sound.collecting_goes_on {given : List Job} {log : List (Job × Res)}
    (h : Sound given log p) (hfits : Fits given p.workers.length p.jobs.cap p.out.cap) (r : Res)
    (hfeeder : p.feeder = .collecting) : ∃ m p', p.next m = .goes p' := by
  have hclosed : p.jobs.closed = true := by rw [h.jobs_closed, hfeeder]; rfl
  by_cases hready : p.out.buffer ≠ [] ∨ p.out.closed = true
  · obtain ⟨⟨o, out⟩, hreceive⟩ := Channel.receive_ready hready
    refine ⟨.feeder, ?_⟩
    simp only [next, nextFeeder, hfeeder, hreceive]
    exact ⟨_, rfl⟩
  push Not at hready
  obtain ⟨hempty, hopen⟩ := hready
  by_cases hall : ∀ w ∈ p.workers, w = .gone
  · have hrunning : p.running = 0 := by
      have hnone : ∀ w ∈ p.workers, w.present = 0 := fun w hw => by rw [hall w hw]; rfl
      rw [h.running, List.map_congr_left hnone]
      simp
    refine ⟨.closer, ?_⟩
    cases hcloser : p.closer with
    | unborn =>
        have hspawned := h.unborn.mp hcloser
        rw [hfeeder] at hspawned
        cases hspawned
    | waiting =>
        simp only [next, nextCloser, hcloser, if_pos hrunning]
        exact ⟨_, rfl⟩
    | closing =>
        simp only [next, nextCloser, hcloser, Channel.close, if_neg hopen]
        exact ⟨_, rfl⟩
    | gone => exact absurd (h.out_closed.mpr hcloser) hopen
  · push Not at hall
    obtain ⟨w, hw, hgone⟩ := hall
    obtain ⟨i, hi, rfl⟩ := List.mem_iff_getElem.mp hw
    refine h.worker_goes_on r (List.getElem?_eq_getElem hi) hgone (fun _ => Or.inr hclosed) ?_
    intro r' hdone
    have hload := le_sum load hw
    rw [hdone] at hload
    have hcount := h.count
    have hgiven : given ≠ [] := by
      rintro rfl
      simp only [List.length_nil] at hcount
      simp only [load] at hload
      omega
    rw [hempty]
    exact (hfits.buffers hgiven).2

/-- Until all is collected, somebody can go on, whatever the jobs come to. -/
theorem Sound.goes_on {given : List Job} {log : List (Job × Res)} (h : Sound given log p)
    (hfits : Fits given p.workers.length p.jobs.cap p.out.cap) (r : Res)
    (hreturned : p.feeder ≠ .returned) : ∃ m p', p.next m = .goes p' := by
  cases hfeeder : p.feeder with
  | feeding rest =>
      cases rest with
      | cons j rest => exact h.feeding_goes_on hfits r hfeeder
      | nil =>
          have hopen : p.jobs.closed = false := by rw [h.jobs_closed, hfeeder]; rfl
          refine ⟨.feeder, ?_⟩
          simp only [next, nextFeeder, hfeeder, Channel.close, hopen]
          exact ⟨_, rfl⟩
  | spawning =>
      refine ⟨.feeder, ?_⟩
      simp only [next, nextFeeder, hfeeder]
      exact ⟨_, rfl⟩
  | collecting => exact h.collecting_goes_on hfits r hfeeder
  | returned => exact absurd hfeeder hreturned

/-! ### No statement too many -/

theorem Step.spends {given : List Job} {log done : List (Job × Res)} (h : Sound given log p)
    (hs : Step p done p') : p.toGo = p'.toGo + 1 := by
  cases hs with
  | feed at_ hopen =>
      simp only [toGo, at_, Feeder.toGo, List.length_cons, List.length_append, List.length_nil]
      omega
  | shut at_ hopen =>
      simp only [toGo, at_, Feeder.toGo, List.length_nil]
      omega
  | spawn at_ =>
      have hborn := h.unborn.mpr (by rw [at_]; rfl)
      simp only [toGo, at_, hborn, Feeder.toGo, Closer.toGo]
      omega
  | collect at_ hout =>
      simp only [toGo, hout, List.length_cons]
      omega
  | finish at_ hout hclosed =>
      simp only [toGo, at_, Feeder.toGo]
      omega
  | waited at_ hrunning =>
      simp only [toGo, at_, Closer.toGo]
      omega
  | close at_ hopen =>
      simp only [toGo, at_, Closer.toGo]
      omega
  | @take i j rest at_ hjobs =>
      have hset := sum_set Worker.toGo (b := .busy j) at_
      simp only [toGo, hjobs, List.length_cons]
      simp only [Worker.toGo] at hset
      omega
  | @leave i at_ hjobs hclosed =>
      have hset := sum_set Worker.toGo (b := .leaving) at_
      simp only [toGo]
      simp only [Worker.toGo] at hset
      omega
  | @work i j r at_ =>
      have hset := sum_set Worker.toGo (b := .done r) at_
      simp only [toGo]
      simp only [Worker.toGo] at hset
      omega
  | @hand i r at_ hopen =>
      have hset := sum_set Worker.toGo (b := .idle) at_
      simp only [toGo, List.length_append, List.length_cons, List.length_nil]
      simp only [Worker.toGo] at hset
      omega
  | @quit i at_ hrunning =>
      have hset := sum_set Worker.toGo (b := .gone) at_
      simp only [toGo]
      simp only [Worker.toGo] at hset
      omega

/-! ### The end -/

/-- Once all is collected nobody is left, and nothing. -/
theorem Sound.over_at_end {given : List Job} {log : List (Job × Res)} (h : Sound given log p)
    (hreturned : p.feeder = .returned) :
    p.closer = .gone ∧ (∀ w ∈ p.workers, w = .gone) ∧ p.out.buffer = [] ∧
      (0 < p.workers.length → p.jobs.buffer = []) := by
  obtain ⟨hclosed, hout⟩ := h.returned hreturned
  have hcloser := h.out_closed.mp hclosed
  have hgone : ∀ w ∈ p.workers, w = .gone := by
    intro w hw
    have hle := le_sum Worker.present hw
    rw [← h.running, h.waited (Or.inr hcloser)] at hle
    cases w <;> simp [Worker.present] at hle ⊢
  refine ⟨hcloser, hgone, hout, fun hsomeone => ?_⟩
  have hmem := List.getElem_mem hsomeone
  exact (h.ended _ hmem (by rw [hgone _ hmem]; rfl)).2

theorem Sound.toGo_at_end {given : List Job} {log : List (Job × Res)} (h : Sound given log p)
    (hsomeone : 0 < p.workers.length) (hreturned : p.feeder = .returned) : p.toGo = 0 := by
  obtain ⟨hcloser, hgone, hout, hjobs⟩ := h.over_at_end hreturned
  have hnone : ∀ w ∈ p.workers, w.toGo = 0 := fun w hw => by rw [hgone w hw]; rfl
  rw [toGo, hreturned, hcloser, hout, hjobs hsomeone, List.map_congr_left hnone]
  simp [Feeder.toGo, Closer.toGo]

/-- What was collected is what the jobs came to. -/
theorem Sound.all_collected {given : List Job} {log : List (Job × Res)} (h : Sound given log p)
    (hreturned : p.feeder = .returned) : p.collected.Perm (log.map Prod.snd) := by
  obtain ⟨-, hgone, hout, -⟩ := h.over_at_end hreturned
  have hnone : ∀ w ∈ p.workers, w.held = 0 := fun w hw => by rw [hgone w hw]; rfl
  have hresults := h.results
  rw [hout, List.map_congr_left hnone] at hresults
  exact Multiset.coe_eq_coe.mp (by simpa [List.sum_replicate] using hresults)

/-- Every job was done once. -/
theorem Sound.all_done {given : List Job} {log : List (Job × Res)} (h : Sound given log p)
    (hsomeone : 0 < p.workers.length) (hreturned : p.feeder = .returned) :
    (log.map Prod.fst).Perm given := by
  obtain ⟨-, hgone, -, hbuffer⟩ := h.over_at_end hreturned
  have hnone : ∀ w ∈ p.workers, w.taken = 0 := fun w hw => by rw [hgone w hw]; rfl
  have hjobs := h.jobs
  rw [hreturned, hbuffer hsomeone, List.map_congr_left hnone] at hjobs
  exact Multiset.coe_eq_coe.mp (by simpa [Feeder.ahead, List.sum_replicate] using hjobs)

/-! ### Runs -/

section Runs

variable {given : List Job} {workers jobsCap outCap n : Nat} {log : List (Job × Res)}

theorem Run.sound (h : Run (start given workers jobsCap outCap) n log p) :
    Sound given log p ∧ p.jobs.cap = jobsCap ∧ p.out.cap = outCap ∧
      p.workers.length = workers := by
  induction h with
  | here => exact ⟨sound_start given workers jobsCap outCap, rfl, rfl, List.length_replicate⟩
  | step _ hm ih =>
      obtain ⟨hsound, hjobs, hout, hworkers⟩ := ih
      have hs := step_of_next hm
      obtain ⟨hjobs', hout', hworkers'⟩ := hs.shape
      exact ⟨hs.sound hsound, hjobs'.trans hjobs, hout'.trans hout, hworkers'.trans hworkers⟩

/-- The statements done and the statements to go are always the same number together. -/
theorem Run.statements (h : Run (start given workers jobsCap outCap) n log p) :
    n + p.toGo = 5 * given.length + 2 * workers + 5 := by
  induction h with
  | here =>
      simp only [toGo, start, Channel.make, Feeder.toGo, Closer.toGo, List.map_replicate,
        List.length_nil, Worker.toGo, List.sum_replicate_nat]
      omega
  | step h hm ih =>
      have hspent := (step_of_next hm).spends h.sound.1
      omega

end Runs

end Pool

end Concurrent
