/-
What the harness prints of its samples.

The workers hand in their samples in whatever order they finish.  `Print` sorts them first, so
that the line about times depends on what was measured only (`timesOf_perm`), and what it takes
out of the sorted samples are the ranks it names (`timesOf_about`).  The line about the size of a
handshake is another matter: it is the size of the one that was collected last.
-/
import Mathlib.Data.List.Sort
import Mathlib.Tactic.Linarith
import PqcApi.Harness.Handshakes

namespace PqcApi.Harness

open Concurrent

/-- The numbers of the line about times, durations before they are rounded for print. -/
structure Line where
  avg : Int
  p50 : Int
  p95 : Int
  p99 : Int
  ok : Nat
  fail : Nat
  deriving DecidableEq

/-- The numbers of the line about the size of a handshake. -/
structure SizeLine where
  total : Int
  sent : Int
  recv : Int
  deriving DecidableEq

/-- What `Print` writes: that there is no data, or the line about times and perhaps the one about
the size. -/
inductive Printed
  | noData (name : String) (failures : Nat)
  | lines (name : String) (times : Line) (size : Option SizeLine)
  deriving DecidableEq

namespace Printed

def size : Printed → Option SizeLine
  | noData _ _ => none
  | lines _ _ size => size

/-- What is left without the line about the size. -/
def timed : Printed → Printed
  | noData name failures => noData name failures
  | lines name times _ => lines name times none

end Printed

/-- `sort.Slice` of the copy. -/
def sortSamples (samples : List Int) : List Int :=
  samples.mergeSort fun i j => decide (i ≤ j)

/-- `sorted[len(sorted)*q/100]`; nothing where the index is out of range. -/
def rank (sorted : List Int) (q : Nat) : Option Int :=
  sorted[sorted.length * q / 100]?

/-- The mean: `total` is a `time.Duration` and wraps, and `/` rounds towards zero. -/
def average (samples : List Int) : Int :=
  (Int.bmod samples.sum (2 ^ 64)).tdiv samples.length

/-- The numbers of the line about times; nothing where an index is out of range. -/
def timesOf (samples : List Int) (failures : Nat) : Option Line := do
  let sorted := sortSamples samples
  let p50 ← rank sorted 50
  let p95 ← rank sorted 95
  let p99 ← rank sorted 99
  return ⟨average sorted, p50, p95, p99, samples.length, failures⟩

/-- The line about the size, where there is one; the sum is an `int64`. -/
def sizeOfBytes (sent recv : Int) : Option SizeLine :=
  if 0 < sent ∨ 0 < recv then some ⟨Int.bmod (sent + recv) (2 ^ 64), sent, recv⟩ else none

/-- `Result.Print`; nothing where it panics. -/
def Result.print (r : Result) : Option Printed :=
  if r.samples.length = 0 then some (.noData r.name r.failures)
  else do
    let times ← timesOf r.samples r.failures
    return .lines r.name times (sizeOfBytes r.handshakeBytesSent r.handshakeBytesRecv)

/-- What `benchmarkHandshake` fills in of a batch. -/
def Batch.result (b : Batch) (name : String) : Result :=
  ⟨name, b.samples, b.failures, b.lastSent, b.lastRecv⟩

/-! ### Sorting -/

theorem sortSamples_perm (samples : List Int) : (sortSamples samples).Perm samples :=
  List.mergeSort_perm _ _

theorem sortSamples_sorted (samples : List Int) : (sortSamples samples).Pairwise (· ≤ ·) := by
  refine (List.pairwise_mergeSort ?_ ?_ samples).imp of_decide_eq_true
  · intro a b c hab hbc
    have hle := le_trans (of_decide_eq_true hab) (of_decide_eq_true hbc)
    exact decide_eq_true hle
  · intro a b
    rcases le_total a b with h | h
    · simp [h]
    · simp [h]

theorem sortSamples_congr {samples samples' : List Int} (h : samples.Perm samples') :
    sortSamples samples = sortSamples samples' := by
  have hperm := (sortSamples_perm samples).trans (h.trans (sortSamples_perm samples').symm)
  exact hperm.eq_of_pairwise (fun _ _ _ _ => le_antisymm) (sortSamples_sorted samples)
    (sortSamples_sorted samples')

/-- The times of the same samples in another order are the same. -/
theorem timesOf_perm {samples samples' : List Int} {failures : Nat} (h : samples.Perm samples') :
    timesOf samples failures = timesOf samples' failures := by
  simp only [timesOf, h.length_eq, sortSamples_congr h]

/-! ### Ranks -/

theorem rank_some {sorted : List Int} {q : Nat} (hne : sorted ≠ []) (hq : q < 100) :
    ∃ h : sorted.length * q / 100 < sorted.length,
      rank sorted q = some sorted[sorted.length * q / 100] := by
  have hpos := List.length_pos_iff.mpr hne
  have hlt : sorted.length * q / 100 < sorted.length := by
    apply Nat.div_lt_of_lt_mul
    nlinarith
  exact ⟨hlt, List.getElem?_eq_getElem hlt⟩

theorem countP_split {p : Int → Bool} (i : Nat) (l : List Int) :
    l.countP p = (l.take i).countP p + (l.drop i).countP p := by
  rw [← List.countP_append, List.take_append_drop]

/-- An entry of a sorted list has no more entries below it than its index, and more than that up
to it. -/
theorem count_sorted {sorted : List Int} (h : sorted.Pairwise (· ≤ ·)) {i : Nat}
    (hi : i < sorted.length) :
    (sorted.countP fun d => d < sorted[i]) ≤ i ∧
      i < sorted.countP fun d => d ≤ sorted[i] := by
  have hget := List.pairwise_iff_getElem.mp h
  constructor
  · have hdrop : ((sorted.drop i).countP fun d => d < sorted[i]) = 0 := by
      rw [List.countP_eq_zero]
      intro d hd
      obtain ⟨j, hj, rfl⟩ := List.mem_iff_getElem.mp hd
      rw [List.getElem_drop]
      have hij : i + j < sorted.length := by
        simp at hj
        omega
      have hle : sorted[i] ≤ sorted[i + j] := by
        rcases Nat.eq_zero_or_pos j with rfl | hpos
        · simp
        · exact hget i (i + j) hi hij (by omega)
      simpa using hle
    rw [countP_split i, hdrop, Nat.add_zero]
    exact le_trans List.countP_le_length (List.length_take_le _ _)
  · have htake : ((sorted.take (i + 1)).countP fun d => d ≤ sorted[i]) = i + 1 := by
      rw [List.countP_eq_length.mpr, List.length_take]
      · omega
      intro d hd
      obtain ⟨j, hj, rfl⟩ := List.mem_iff_getElem.mp hd
      rw [List.getElem_take]
      have hji : j < i + 1 := by
        simp at hj
        omega
      rcases Nat.lt_succ_iff_lt_or_eq.mp hji with hlt | rfl
      · simpa using hget j i (by omega) hi hlt
      · simp
    have hle : ((sorted.take (i + 1)).countP fun d => d ≤ sorted[i]) ≤
        sorted.countP fun d => d ≤ sorted[i] := (List.take_sublist (i + 1) sorted).countP_le
    omega

/-- One of the samples, below which no more than `q` percent of them lie, and up to which more
than `q` percent do. -/
structure RankOf (samples : List Int) (q : Nat) (d : Int) : Prop where
  mem : d ∈ samples
  below : (samples.countP fun e => e < d) ≤ samples.length * q / 100
  upTo : samples.length * q / 100 < samples.countP fun e => e ≤ d

theorem rank_of_samples {samples : List Int} {q : Nat} (hne : samples ≠ []) (hq : q < 100) :
    ∃ d, rank (sortSamples samples) q = some d ∧ RankOf samples q d := by
  have hperm := sortSamples_perm samples
  have hsorted : sortSamples samples ≠ [] := by
    intro hnil
    rw [hnil] at hperm
    exact hne hperm.symm.eq_nil
  obtain ⟨hlt, hrank⟩ := rank_some hsorted hq
  obtain ⟨hbelow, hupTo⟩ := count_sorted (sortSamples_sorted samples) hlt
  refine ⟨_, hrank, hperm.subset (List.getElem_mem hlt), ?_, ?_⟩
  · rw [← hperm.countP_eq, ← hperm.length_eq]
    exact hbelow
  · rw [← hperm.countP_eq, ← hperm.length_eq]
    exact hupTo

/-- Of two ranks the greater is not below the other. -/
theorem RankOf.mono {samples : List Int} {q q' : Nat} {d d' : Int} (h : RankOf samples q d)
    (h' : RankOf samples q' d') (hq : q ≤ q') : d ≤ d' := by
  by_contra hlt
  have hle : (samples.countP fun e => e ≤ d') ≤ samples.countP fun e => e < d := by
    refine List.countP_mono_left fun e _ he => ?_
    have hed : e ≤ d' := of_decide_eq_true he
    exact decide_eq_true (by omega)
  have hindex : samples.length * q / 100 ≤ samples.length * q' / 100 :=
    Nat.div_le_div_right (Nat.mul_le_mul_left _ hq)
  have hbelow := h.below
  have hupTo := h'.upTo
  omega

theorem sum_bounds {lo hi : Int} : ∀ {samples : List Int}, (∀ d ∈ samples, lo ≤ d ∧ d ≤ hi) →
    samples.length * lo ≤ samples.sum ∧ samples.sum ≤ samples.length * hi := by
  intro samples
  induction samples with
  | nil => intro _; simp
  | cons d samples ih =>
      intro h
      have hd := h d List.mem_cons_self
      have hrest := ih fun e he => h e (List.mem_cons_of_mem _ he)
      simp only [List.length_cons, List.sum_cons, Nat.cast_add, Nat.cast_one, add_mul, one_mul]
      omega

/-- Unless the total overflows, the mean lies among the samples. -/
theorem average_bounds {samples : List Int} (hne : samples ≠ [])
    (hfits : -2 ^ 63 ≤ samples.sum ∧ samples.sum < 2 ^ 63) {lo hi : Int}
    (h : ∀ d ∈ samples, lo ≤ d ∧ d ≤ hi) : lo ≤ average samples ∧ average samples ≤ hi := by
  obtain ⟨hlo, hhi⟩ := sum_bounds h
  have hpos : (0 : Int) < samples.length := by
    exact_mod_cast List.length_pos_iff.mpr hne
  have hwrap : Int.bmod samples.sum (2 ^ 64) = samples.sum :=
    Int.bmod_eq_of_le (by omega) (by omega)
  unfold average
  rw [hwrap]
  by_cases hsign : 0 ≤ samples.sum
  · rw [Int.tdiv_eq_ediv_of_nonneg hsign]
    exact ⟨Int.le_ediv_of_mul_le hpos (by linarith), Int.ediv_le_of_le_mul hpos (by linarith)⟩
  · have hneg : samples.sum.tdiv samples.length = -((-samples.sum) / samples.length) := by
      rw [← Int.tdiv_eq_ediv_of_nonneg (by omega), Int.neg_tdiv, neg_neg]
    rw [hneg]
    constructor
    · have hle : -samples.sum / samples.length ≤ -lo :=
        Int.ediv_le_of_le_mul hpos (by linarith)
      omega
    · have hle : -hi ≤ -samples.sum / samples.length :=
        Int.le_ediv_of_mul_le hpos (by linarith)
      omega

/-- What a line says of the samples and the failures it is about. -/
structure Line.About (samples : List Int) (failures : Nat) (l : Line) : Prop where
  p50 : RankOf samples 50 l.p50
  p95 : RankOf samples 95 l.p95
  p99 : RankOf samples 99 l.p99
  ascending : l.p50 ≤ l.p95 ∧ l.p95 ≤ l.p99
  mean : -2 ^ 63 ≤ samples.sum → samples.sum < 2 ^ 63 → ∀ lo hi,
    (∀ d ∈ samples, lo ≤ d ∧ d ≤ hi) → lo ≤ l.avg ∧ l.avg ≤ hi
  ok : l.ok = samples.length
  fail : l.fail = failures

/-- With a sample there is, no index is out of range. -/
theorem timesOf_about {samples : List Int} (failures : Nat) (hne : samples ≠ []) :
    ∃ l, timesOf samples failures = some l ∧ l.About samples failures := by
  have hperm := sortSamples_perm samples
  have hsorted : sortSamples samples ≠ [] := by
    intro hnil
    rw [hnil] at hperm
    exact hne hperm.symm.eq_nil
  obtain ⟨p50, hp50, h50⟩ := rank_of_samples (q := 50) hne (by omega)
  obtain ⟨p95, hp95, h95⟩ := rank_of_samples (q := 95) hne (by omega)
  obtain ⟨p99, hp99, h99⟩ := rank_of_samples (q := 99) hne (by omega)
  have htimes : timesOf samples failures =
      some ⟨average (sortSamples samples), p50, p95, p99, samples.length, failures⟩ := by
    unfold timesOf
    dsimp only
    rw [hp50, hp95, hp99]
    rfl
  have hascending := And.intro (h50.mono h95 (by omega)) (h95.mono h99 (by omega))
  refine ⟨_, htimes, h50, h95, h99, hascending, ?_, rfl, rfl⟩
  intro hmin hmax lo hi h
  rw [← hperm.sum_eq] at hmin hmax
  exact average_bounds hsorted ⟨hmin, hmax⟩ fun d hd => h d (hperm.subset hd)

/-! ### What succeeded -/

/-- The times of what succeeded. -/
def succeeded (measured : List Res) : List Int :=
  (measured.filter fun r => r.err = none).map fun r => r.sample.elapsed

/-- The success that was collected last. -/
def lastSuccess (collected : List Res) : Option Res :=
  (collected.filter fun r => r.err = none).getLast?

theorem lastSuccess_none {collected : List Res} :
    lastSuccess collected = none ↔ succeeded collected = [] := by
  simp [lastSuccess, succeeded]

theorem mem_of_lastSuccess {collected : List Res} {r : Res} (h : lastSuccess collected = some r) :
    r ∈ collected ∧ r.err = none := by
  have hmem := List.mem_of_getLast? h
  simpa using hmem

theorem succeeded_perm {measured collected : List Res} (h : collected.Perm measured) :
    (succeeded collected).Perm (succeeded measured) :=
  (h.filter _).map _

/-- The size that is kept is that of the last success. -/
theorem collected_last (collected : List Res) :
    let b := collected.foldl Batch.collect .empty
    (b.lastSent, b.lastRecv) = match lastSuccess collected with
      | none => (0, 0)
      | some r => (r.sample.bytesSent, r.sample.bytesRecv) := by
  induction collected using List.reverseRecOn with
  | nil => rfl
  | append_singleton rs r ih =>
      simp only [List.foldl_append, List.foldl_cons, List.foldl_nil]
      cases herr : r.err with
      | none => simp [Batch.collect, herr, lastSuccess]
      | some err =>
          have hlast : lastSuccess (rs ++ [r]) = lastSuccess rs := by simp [lastSuccess, herr]
          rw [hlast]
          simpa [Batch.collect, herr] using ih

/-! ### What is printed -/

/-- What is printed of these handshakes when they were collected in this order. -/
structure Printed.Of (name : String) (measured collected : List Res) (printed : Printed) :
    Prop where
  same : collected.Perm measured
  noData : succeeded measured = [] → printed = .noData name measured.length
  times : succeeded measured ≠ [] → ∃ l, printed.timed = .lines name l none ∧
    l.About (succeeded measured) (measured.countP fun r => r.err ≠ none)
  size : printed.size = (lastSuccess collected).bind fun r =>
    sizeOfBytes r.sample.bytesSent r.sample.bytesRecv

/-- `Print` of a batch, whatever was collected. -/
theorem print_batch (name : String) {measured collected : List Res}
    (hsame : collected.Perm measured) :
    ∃ printed, ((collected.foldl Batch.collect .empty).result name).print = some printed ∧
      printed.Of name measured collected := by
  have hbatch := (Batch.of_collected collected).perm hsame
  have hlast := collected_last collected
  have htotal := hbatch.total
  generalize collected.foldl Batch.collect .empty = b at hbatch hlast htotal ⊢
  have hsamples : b.samples.Perm (succeeded measured) := hbatch.samples
  unfold Result.print Batch.result
  dsimp only
  by_cases hnone : succeeded measured = []
  · -- all have failed, and there is no last success
    have hnil : b.samples = [] := by
      rw [hnone] at hsamples
      exact hsamples.eq_nil
    have hnobody : lastSuccess collected = none := by
      have hperm := succeeded_perm hsame
      rw [hnone] at hperm
      exact lastSuccess_none.mpr hperm.eq_nil
    rw [hnil, List.length_nil, Nat.zero_add] at htotal
    rw [hnil, if_pos List.length_nil, htotal]
    refine ⟨_, rfl, hsame, fun _ => rfl, fun h => absurd hnone h, ?_⟩
    rw [hnobody]
    rfl
  · have hlength : ¬b.samples.length = 0 := by
      rw [hsamples.length_eq]
      exact fun h => hnone (List.length_eq_zero_iff.mp h)
    obtain ⟨r, hr⟩ : ∃ r, lastSuccess collected = some r := by
      refine Option.ne_none_iff_exists'.mp fun h => hnone ?_
      have hperm := succeeded_perm hsame
      rw [lastSuccess_none.mp h] at hperm
      exact hperm.symm.eq_nil
    rw [hr] at hlast
    obtain ⟨hsent, hrecv⟩ := Prod.mk.inj hlast
    obtain ⟨l, htimes, habout⟩ := timesOf_about (measured.countP fun r => r.err ≠ none) hnone
    rw [if_neg hlength, timesOf_perm hsamples, hbatch.failures, htimes, hsent, hrecv]
    refine ⟨_, rfl, hsame, fun h => absurd h hnone, fun _ => ⟨l, rfl, habout⟩, ?_⟩
    rw [hr]
    rfl

/-- Of two batches of the same handshakes the same is printed, up to the line about the size. -/
theorem print_timed {b b' : Batch} (name : String) (hsamples : b.samples.Perm b'.samples)
    (hfailures : b.failures = b'.failures) :
    (b.result name).print.map Printed.timed = (b'.result name).print.map Printed.timed := by
  unfold Result.print Batch.result
  dsimp only
  rw [hsamples.length_eq, hfailures, timesOf_perm hsamples]
  split
  · rfl
  · cases timesOf b'.samples b'.failures <;> rfl

/-- The two lines are all there is. -/
theorem Printed.eq_of_timed {printed printed' : Printed} (htimed : printed.timed = printed'.timed)
    (hsize : printed.size = printed'.size) : printed = printed' := by
  cases printed <;> cases printed' <;> simp_all [timed, size]

/-- All that succeeded have the same size. -/
def SameSize (measured : List Res) : Prop :=
  ∀ r ∈ measured, ∀ r' ∈ measured, r.err = none → r'.err = none →
    r.sample.bytesSent = r'.sample.bytesSent ∧ r.sample.bytesRecv = r'.sample.bytesRecv

/-- Where all have the same size, it does not matter which was last. -/
theorem lastSize_of_same {measured collected collected' : List Res}
    (h : collected.Perm measured) (h' : collected'.Perm measured) (hsize : SameSize measured) :
    (lastSuccess collected).bind (fun r => sizeOfBytes r.sample.bytesSent r.sample.bytesRecv) =
      (lastSuccess collected').bind fun r =>
        sizeOfBytes r.sample.bytesSent r.sample.bytesRecv := by
  have hperm := (succeeded_perm h).trans (succeeded_perm h').symm
  cases hlast : lastSuccess collected with
  | none =>
      rw [lastSuccess_none.mp hlast] at hperm
      rw [lastSuccess_none.mpr hperm.symm.eq_nil]
  | some r =>
      obtain ⟨r', hlast'⟩ : ∃ r', lastSuccess collected' = some r' := by
        refine Option.ne_none_iff_exists'.mp fun hnone => ?_
        rw [lastSuccess_none.mp hnone] at hperm
        rw [lastSuccess_none.mpr hperm.eq_nil] at hlast
        cases hlast
      obtain ⟨hmem, herr⟩ := mem_of_lastSuccess hlast
      obtain ⟨hmem', herr'⟩ := mem_of_lastSuccess hlast'
      obtain ⟨hsent, hrecv⟩ := hsize r (h.subset hmem) r' (h'.subset hmem') herr herr'
      rw [hlast', Option.bind_some, Option.bind_some, hsent, hrecv]

/-- **What is printed of a batch is what was measured, whoever measured it and when.**  Two calls
whose handshakes came to the same, with whatever workers and in whatever order of their
statements, are printed alike but for the size, and where all successes are of one size the size
is the same too.  Where a handshake succeeded, the line about times names ranks and a mean of the
times of those that did, and the size is that of the success collected last. -/
theorem report_of_measured {iterations concurrency concurrency' : Int} {p₀ p q₀ q : Pool Unit Res}
    {n n' : Nat} {log log' : List (Unit × Res)}
    (hcall : runHandshakes iterations concurrency = .goes p₀) (hrun : Pool.Run p₀ n log p)
    (hreturned : p.feeder = .returned)
    (hcall' : runHandshakes iterations concurrency' = .goes q₀) (hrun' : Pool.Run q₀ n' log' q)
    (hreturned' : q.feeder = .returned) (hsame : (log.map Prod.snd).Perm (log'.map Prod.snd))
    (name : String) :
    ∃ printed printed' : Printed,
      ((batchOf p).result name).print = some printed ∧
      ((batchOf q).result name).print = some printed' ∧
      printed.Of name (log.map Prod.snd) p.collected ∧
      printed'.Of name (log.map Prod.snd) q.collected ∧
      printed.timed = printed'.timed ∧
      (SameSize (log.map Prod.snd) → printed = printed') := by
  have hcollected := collected_of_returned hcall hrun hreturned
  have hcollected' := (collected_of_returned hcall' hrun' hreturned').trans hsame.symm
  obtain ⟨printed, hprint, hof⟩ := print_batch name hcollected
  obtain ⟨printed', hprint', hof'⟩ := print_batch name hcollected'
  have hbatch := (Batch.of_collected p.collected).perm hcollected
  have hbatch' := (Batch.of_collected q.collected).perm hcollected'
  have htimed := print_timed name (hbatch.samples.trans hbatch'.samples.symm)
    (hbatch.failures.trans hbatch'.failures.symm)
  rw [hprint, hprint'] at htimed
  have halike : printed.timed = printed'.timed := Option.some.inj htimed
  refine ⟨printed, printed', hprint, hprint', hof, hof', halike, fun hsize => ?_⟩
  refine Printed.eq_of_timed halike ?_
  rw [hof.size, hof'.size, lastSize_of_same hcollected hcollected' hsize]

/-- Three handshakes, measured by two workers in two orders. -/
theorem report_of_measured_two : ∃ printed printed' : Printed,
    printed.timed = printed'.timed ∧
    (∃ l, printed.timed = .lines "TLS Handshake" l none ∧ l.ok = 2 ∧ l.fail = 1 ∧
      RankOf [7, 9] 95 l.p95) ∧
    printed.size = some ⟨9, 4, 5⟩ ∧ printed'.size = some ⟨5, 2, 3⟩ := by
  obtain ⟨p, hrun, hreturned, hcollected⟩ := Sample.run_together
  obtain ⟨q, hrun', hreturned', hcollected'⟩ := Sample.run_alone
  have hcall : runHandshakes 3 2 = .goes (.start [(), (), ()] 2 3 3) := rfl
  obtain ⟨printed, printed', -, -, hof, hof', halike, -⟩ := report_of_measured hcall hrun hreturned
    hcall hrun' hreturned' (by decide) "TLS Handshake"
  rw [hcollected] at hof
  rw [hcollected'] at hof'
  obtain ⟨l, hl, habout⟩ := hof.times (by decide)
  exact ⟨printed, printed', halike, ⟨l, hl, habout.ok, habout.fail, habout.p95⟩, hof.size,
    hof'.size⟩

end PqcApi.Harness
