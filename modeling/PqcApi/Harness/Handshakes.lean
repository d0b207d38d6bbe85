/-
The handshake benchmark of the harness.

`runHandshakes` lets workers measure handshakes and collects what they measured, and
`benchmarkHandshakeInterleaved` has it measure both key exchanges in turns.  A handshake is
whatever the network makes of it: its sample or its error is a parameter of the run.  So are
the counters that are read around each batch.
-/
import PqcApi.Api.Clients
import PqcApi.Concurrent.Pool

namespace PqcApi.Harness

open Concurrent

/-! ### runHandshakes -/

/-- `handshakeSample`. -/
structure HandshakeSample where
  elapsed : Int
  bytesSent : Int
  bytesRecv : Int
  deriving DecidableEq, Inhabited

/-- `res`: what `measureHandshake` returned. -/
structure Res where
  sample : HandshakeSample
  err : Option String
  deriving DecidableEq, Inhabited

/-- What `runHandshakes` returns. -/
structure Batch where
  samples : List Int
  failures : Nat
  firstErr : Option String
  lastSent : Int
  lastRecv : Int
  deriving DecidableEq

def Batch.empty : Batch :=
  ⟨[], 0, none, 0, 0⟩

/-- One round of the loop over `out`. -/
def Batch.collect (b : Batch) (r : Res) : Batch :=
  match r.err with
  | some err =>
      { b with
        failures := b.failures + 1
        firstErr := if b.firstErr = none then some err else b.firstErr }
  | none =>
      { b with
        samples := b.samples ++ [r.sample.elapsed]
        lastSent := r.sample.bytesSent
        lastRecv := r.sample.bytesRecv }

/-- `concurrency` after the check at the top. -/
def workersOf (concurrency : Int) : Nat :=
  (if concurrency < 1 then 1 else concurrency).toNat

/-- `runHandshakes`, up to the statement after its `go` statements: `make` panics for a negative
size. -/
def runHandshakes (iterations concurrency : Int) : Turn (Pool Unit Res) :=
  if iterations < 0 then .panics
  else .goes (.start (List.replicate iterations.toNat ()) (workersOf concurrency) iterations.toNat
    iterations.toNat)

/-- What it returns once its loop is over. -/
def batchOf (p : Pool Unit Res) : Batch :=
  p.collected.foldl Batch.collect .empty

/-- The batch gives account of these handshakes. -/
structure Batch.Of (measured : List Res) (b : Batch) : Prop where
  samples : b.samples.Perm ((measured.filter fun r => r.err = none).map fun r => r.sample.elapsed)
  failures : b.failures = measured.countP fun r => r.err ≠ none
  noErr : b.firstErr = none ↔ b.failures = 0
  firstErr : ∀ err, b.firstErr = some err → ∃ r ∈ measured, r.err = some err
  last : (b.samples = [] ∧ b.lastSent = 0 ∧ b.lastRecv = 0) ∨
    ∃ r ∈ measured, r.err = none ∧ b.lastSent = r.sample.bytesSent ∧
      b.lastRecv = r.sample.bytesRecv

theorem Batch.of_empty : Batch.Of [] .empty where
  samples := .refl _
  failures := rfl
  noErr := by simp [empty]
  firstErr err h := by cases h
  last := Or.inl ⟨rfl, rfl, rfl⟩

theorem Batch.Of.collect {measured : List Res} {b : Batch} (h : b.Of measured) (r : Res) :
    (b.collect r).Of (measured ++ [r]) := by
  have hlast : (b.samples = [] ∧ b.lastSent = 0 ∧ b.lastRecv = 0) ∨
      ∃ r' ∈ measured ++ [r], r'.err = none ∧ b.lastSent = r'.sample.bytesSent ∧
        b.lastRecv = r'.sample.bytesRecv := by
    refine h.last.imp_right ?_
    intro ⟨r', hmem, hr'⟩
    exact ⟨r', List.mem_append_left _ hmem, hr'⟩
  cases herr : r.err with
  | none =>
      simp only [Batch.collect, herr]
      refine ⟨?_, ?_, h.noErr, ?_, Or.inr ⟨r, by simp, herr, rfl, rfl⟩⟩
      · simpa [herr] using h.samples.append_right [r.sample.elapsed]
      · simpa [herr] using h.failures
      · intro err hfirst
        obtain ⟨r', hmem, hr'⟩ := h.firstErr err hfirst
        exact ⟨r', List.mem_append_left _ hmem, hr'⟩
  | some err =>
      simp only [Batch.collect, herr]
      refine ⟨?_, ?_, ?_, ?_, hlast⟩
      · simpa [herr] using h.samples
      · simpa [herr] using h.failures
      · by_cases hnone : b.firstErr = none
        · simp [hnone]
        · simp [hnone]
      · intro err' hfirst
        by_cases hnone : b.firstErr = none
        · rw [if_pos hnone] at hfirst
          exact ⟨r, by simp, herr.trans hfirst⟩
        · rw [if_neg hnone] at hfirst
          obtain ⟨r', hmem, hr'⟩ := h.firstErr err' hfirst
          exact ⟨r', List.mem_append_left _ hmem, hr'⟩

theorem Batch.of_collected (collected : List Res) :
    (collected.foldl Batch.collect .empty).Of collected := by
  induction collected using List.reverseRecOn with
  | nil => exact Batch.of_empty
  | append_singleton rs r ih =>
      rw [List.foldl_append]
      exact ih.collect r

/-- In which order they were collected does not matter. -/
theorem Batch.Of.perm {rs rs' : List Res} {b : Batch} (h : b.Of rs) (hp : rs.Perm rs') :
    b.Of rs' where
  samples := h.samples.trans ((hp.filter _).map _)
  failures := h.failures.trans (hp.countP_eq _)
  noErr := h.noErr
  firstErr err herr := by
    obtain ⟨r, hmem, hr⟩ := h.firstErr err herr
    exact ⟨r, hp.subset hmem, hr⟩
  last := by
    refine h.last.imp_right ?_
    intro ⟨r, hmem, hr⟩
    exact ⟨r, hp.subset hmem, hr⟩

/-- What succeeded and what failed is all. -/
theorem Batch.Of.total {rs : List Res} {b : Batch} (h : b.Of rs) :
    b.samples.length + b.failures = rs.length := by
  rw [h.samples.length_eq, h.failures, List.length_map, ← List.countP_eq_length_filter]
  have hall := List.length_eq_countP_add_countP (fun r : Res => r.err = none) (l := rs)
  simpa using hall.symm

theorem workersOf_pos (concurrency : Int) : 0 < workersOf concurrency := by
  unfold workersOf
  split <;> omega

/-- The channels have room for everything. -/
theorem fits_handshakes (iterations : Nat) (concurrency : Int) :
    Pool.Fits (List.replicate iterations ()) (workersOf concurrency) iterations iterations where
  someone := workersOf_pos concurrency
  buffers h := by
    have hpos : 0 < iterations := by
      by_contra hzero
      exact h (by simp [Nat.eq_zero_of_not_pos hzero])
    exact ⟨hpos, hpos⟩
  room := by
    rw [List.length_replicate]
    omega

/-- What is true of a call that returned. -/
structure Settled (iterations concurrency : Int) (n : Nat) (log : List (Unit × Res))
    (p : Pool Unit Res) : Prop where
  statements : (n : Int) = 5 * iterations + 2 * workersOf concurrency + 5
  nobody : p.closer = .gone ∧ ∀ w ∈ p.workers, w = .gone
  measured : (log.length : Int) = iterations
  batch : (batchOf p).Of (log.map Prod.snd)
  total : ((batchOf p).samples.length + (batchOf p).failures : Int) = iterations

/-- A call that was not refused starts with its jobs, its workers and its channels. -/
theorem started_of_call {iterations concurrency : Int} {p₀ : Pool Unit Res}
    (hcall : runHandshakes iterations concurrency = .goes p₀) :
    0 ≤ iterations ∧ p₀ = .start (List.replicate iterations.toNat ()) (workersOf concurrency)
      iterations.toNat iterations.toNat := by
  unfold runHandshakes at hcall
  split at hcall
  · cases hcall
  · exact ⟨by omega, (Turn.goes.inj hcall).symm⟩

/-! ### Three handshakes, two workers -/

namespace Sample

def quick : Res := ⟨⟨7, 2, 3⟩, none⟩
def slow : Res := ⟨⟨9, 4, 5⟩, none⟩
def refused : Res := ⟨default, some "connection refused"⟩

/-- Main sends its jobs, closes the channel and starts the closer; the workers do theirs; then
both leave, the closer closes, and main collects. -/
def schedule (work : List (Concurrent.Move Res)) : List (Concurrent.Move Res) :=
  List.replicate 5 .feeder ++ work ++ [.worker 0, .worker 1, .worker 0, .worker 1, .closer, .closer]
    ++ List.replicate 4 .feeder

/-- The first worker measures the quick one while the second is refused. -/
def together : List (Concurrent.Move Res) :=
  schedule [.worker 0, .worker 1, .finish 1 refused, .finish 0 quick, .worker 1, .worker 0,
    .worker 1, .finish 1 slow, .worker 1]

/-- The first worker does it all, the other way round. -/
def alone : List (Concurrent.Move Res) :=
  schedule [.worker 0, .finish 0 slow, .worker 0, .worker 0, .finish 0 refused, .worker 0,
    .worker 0, .finish 0 quick, .worker 0]

theorem run_together : ∃ p : Pool Unit Res,
    Pool.Run (.start [(), (), ()] 2 3 3) 24 [((), refused), ((), quick), ((), slow)] p ∧
      p.feeder = .returned ∧ p.collected = [refused, quick, slow] :=
  ⟨_, Pool.Run.play together .here rfl, rfl, rfl⟩

theorem run_alone : ∃ p : Pool Unit Res,
    Pool.Run (.start [(), (), ()] 2 3 3) 24 [((), slow), ((), refused), ((), quick)] p ∧
      p.feeder = .returned ∧ p.collected = [slow, refused, quick] :=
  ⟨_, Pool.Run.play alone .here rfl, rfl, rfl⟩

end Sample

/-! ### Every call -/

section Call

variable {iterations concurrency : Int} {p₀ p : Pool Unit Res} {n : Nat}
  {log : List (Unit × Res)}

/-- What was collected is what was measured. -/
theorem collected_of_returned (hcall : runHandshakes iterations concurrency = .goes p₀)
    (hrun : Pool.Run p₀ n log p) (hreturned : p.feeder = .returned) :
    p.collected.Perm (log.map Prod.snd) := by
  obtain ⟨-, rfl⟩ := started_of_call hcall
  exact hrun.sound.1.all_collected hreturned

theorem settled_of_returned (hcall : runHandshakes iterations concurrency = .goes p₀)
    (hrun : Pool.Run p₀ n log p) (hreturned : p.feeder = .returned) :
    Settled iterations concurrency n log p := by
  have hcollected := collected_of_returned hcall hrun hreturned
  obtain ⟨hnonneg, rfl⟩ := started_of_call hcall
  obtain ⟨hsound, -, -, hworkers⟩ := hrun.sound
  have hsomeone : 0 < p.workers.length := by
    rw [hworkers]
    exact workersOf_pos concurrency
  have hstatements := hrun.statements
  rw [List.length_replicate, hsound.toGo_at_end hsomeone hreturned] at hstatements
  obtain ⟨hcloser, hgone, -, -⟩ := hsound.over_at_end hreturned
  have hlength : log.length = iterations.toNat := by
    simpa using (hsound.all_done hsomeone hreturned).length_eq
  have hbatch : (batchOf p).Of (log.map Prod.snd) :=
    (Batch.of_collected p.collected).perm hcollected
  have htotal := hbatch.total
  rw [List.length_map] at htotal
  exact ⟨by omega, ⟨hcloser, hgone⟩, by omega, hbatch, by omega⟩

/-- **Every handshake is measured and counted once.**  In whatever order main, the workers and
the closer run and whatever the handshakes come to, no statement panics, somebody can go on until
`runHandshakes` returns, and when it returns nobody is left behind and what it returns gives
account of as many handshakes as were asked for. -/
theorem runHandshakes_settles (hcall : runHandshakes iterations concurrency = .goes p₀)
    (hrun : Pool.Run p₀ n log p) :
    (∀ m, p.next m ≠ .panics) ∧
    (p.feeder ≠ .returned → ∃ m p', p.next m = .goes p') ∧
    (n : Int) ≤ 5 * iterations + 2 * workersOf concurrency + 5 ∧
    (p.feeder = .returned → Settled iterations concurrency n log p) := by
  have hsettled := settled_of_returned hcall hrun
  obtain ⟨hnonneg, rfl⟩ := started_of_call hcall
  obtain ⟨hsound, hjobs, hout, hworkers⟩ := hrun.sound
  have hfits := fits_handshakes iterations.toNat concurrency
  have hstatements := hrun.statements
  rw [List.length_replicate] at hstatements
  refine ⟨hsound.never_panics, ?_, by omega, hsettled⟩
  exact hsound.goes_on (by rw [hjobs, hout, hworkers]; exact hfits) default

theorem runHandshakes_settles_three : ∃ (p : Pool Unit Res) (log : List (Unit × Res)),
    p.feeder = .returned ∧ batchOf p = ⟨[7, 9], 1, some "connection refused", 4, 5⟩ ∧
      Settled 3 2 24 log p := by
  obtain ⟨p, hrun, hreturned, hcollected⟩ := Sample.run_together
  have hbatch := congrArg (List.foldl Batch.collect .empty) hcollected
  exact ⟨p, _, hreturned, hbatch, (runHandshakes_settles (show runHandshakes 3 2 = _ from rfl)
    hrun).2.2.2 hreturned⟩

end Call

end PqcApi.Harness
