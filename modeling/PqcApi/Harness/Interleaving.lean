/-
Two key exchanges measured in turns.

`benchmarkHandshakeInterleaved` measures the post-quantum and the classical handshake in blocks
that alternate, so that a drift of the machine hits both alike.  The claim is that it does so:
the loop runs as many rounds as the iterations need, in each round both variants get a block of
the same size one right after the other, and which of them is first changes from round to round
(`rounds_states`).  All that is reported is added up over those blocks.

What a block comes to is a parameter: the answer to the `n`-th call of `runHandshakes`, with the
counters read before and after it.
-/
import Mathlib.Algebra.Order.Ring.Int
import Mathlib.Logic.Function.Basic
import Mathlib.Tactic.Linarith
import PqcApi.Harness.Handshakes

namespace PqcApi.Harness

open Concurrent

/-- What a block comes to: the batch, and `readCPUUsec` before and after it. -/
structure Block where
  cpuBefore : Option Int64
  batch : Batch
  cpuAfter : Option Int64

/-- `vstate`, with its entry of `remaining`.  The `ResourceMetrics` it points to is filled from
it after the loop. -/
structure VState where
  remaining : Int
  result : Result
  cpuAccum : Int64
  cpuFail : Bool
  firstErr : Option String
  deriving DecidableEq

def variantName (v : Fin 2) : String :=
  if v = 0 then "TLS Handshake (X25519MLKEM768 PQC)" else "TLS Handshake (X25519 classical)"

def VState.init (iterations : Int) (v : Fin 2) : VState :=
  ⟨iterations, .named (variantName v), 0, false, none⟩

/-- `cpuAfter - cpuBefore`, where both were read. -/
def Block.cpu (block : Block) : Option Int64 :=
  match block.cpuBefore, block.cpuAfter with
  | some before, some after => some (after - before)
  | _, _ => none

/-- What the loop does with a block of `b` handshakes. -/
def VState.absorb (st : VState) (b : Int) (block : Block) : VState where
  remaining := st.remaining - b
  result :=
    { st.result with
      samples := st.result.samples ++ block.batch.samples
      failures := st.result.failures + block.batch.failures
      handshakeBytesSent := if 0 < block.batch.lastSent ∨ 0 < block.batch.lastRecv then
        block.batch.lastSent else st.result.handshakeBytesSent
      handshakeBytesRecv := if 0 < block.batch.lastSent ∨ 0 < block.batch.lastRecv then
        block.batch.lastRecv else st.result.handshakeBytesRecv }
  cpuAccum := match block.cpu with
    | some d => st.cpuAccum + d
    | none => st.cpuAccum
  cpuFail := match block.cpu with
    | some _ => st.cpuFail
    | none => true
  firstErr := if st.firstErr = none then block.batch.firstErr else st.firstErr

/-- The loop over all rounds: the state of each variant, and how many blocks have run. -/
structure Interleaved where
  states : Fin 2 → VState
  blocks : Nat

/-- The answer to the `n`-th call of `runHandshakes`, for this variant and this many handshakes. -/
abbrev Answers : Type :=
  Nat → Fin 2 → Int → Block

/-- The size of a block: `blockSize`, or what remains. -/
def blockOf (blockSize remaining : Int) : Int :=
  if blockSize > remaining then remaining else blockSize

/-- The body of the inner loop. -/
def inner (answers : Answers) (blockSize : Int) (s : Interleaved) (vi : Fin 2) : Interleaved :=
  if (s.states vi).remaining ≤ 0 then s
  else
    let b := blockOf blockSize (s.states vi).remaining
    ⟨Function.update s.states vi ((s.states vi).absorb b (answers s.blocks vi b)), s.blocks + 1⟩

/-- Which variant is first in a round. -/
def order (round : Nat) : List (Fin 2) :=
  if round % 2 = 1 then [1, 0] else [0, 1]

/-- The body of the outer loop. -/
def roundOf (answers : Answers) (blockSize : Int) (round : Nat) (s : Interleaved) : Interleaved :=
  (order round).foldl (inner answers blockSize) s

/-! ### The loop ends -/

/-- A block of at least one handshake where there is one. -/
theorem blockOf_pos {blockSize remaining : Int} (hb : 1 ≤ blockSize) (hr : 0 < remaining) :
    1 ≤ blockOf blockSize remaining ∧ blockOf blockSize remaining ≤ remaining ∧
      blockOf blockSize remaining ≤ blockSize := by
  unfold blockOf
  split <;> omega

/-- What a turn leaves of the one whose turn it is. -/
def left (blockSize remaining : Int) : Int :=
  if remaining ≤ 0 then remaining else remaining - blockOf blockSize remaining

theorem inner_remaining (answers : Answers) (blockSize : Int) (s : Interleaved) (vi v : Fin 2) :
    ((inner answers blockSize s vi).states v).remaining =
      if v = vi then left blockSize (s.states v).remaining else (s.states v).remaining := by
  unfold inner left
  by_cases hv : v = vi
  · subst hv
    by_cases hr : (s.states v).remaining ≤ 0
    · simp [hr]
    · simp [hr, VState.absorb]
  · by_cases hr : (s.states vi).remaining ≤ 0
    · simp [hr, hv]
    · simp [hr, hv]

/-- In a round each variant has one turn. -/
theorem round_remaining (answers : Answers) (blockSize : Int) (round : Nat) (s : Interleaved)
    (v : Fin 2) : ((roundOf answers blockSize round s).states v).remaining =
      left blockSize (s.states v).remaining := by
  unfold roundOf order
  have hv : v = 0 ∨ v = 1 := by omega
  by_cases hodd : round % 2 = 1
  · simp only [if_pos hodd, List.foldl_cons, List.foldl_nil, inner_remaining]
    rcases hv with rfl | rfl <;> simp
  · simp only [if_neg hodd, List.foldl_cons, List.foldl_nil, inner_remaining]
    rcases hv with rfl | rfl <;> simp

theorem left_lt {blockSize remaining : Int} (hb : 1 ≤ blockSize) (hr : 0 < remaining) :
    (left blockSize remaining).toNat < remaining.toNat := by
  have hpos := blockOf_pos hb hr
  rw [left, if_neg (by omega)]
  omega

theorem left_le {blockSize remaining : Int} (hb : 1 ≤ blockSize) :
    (left blockSize remaining).toNat ≤ remaining.toNat := by
  by_cases hr : 0 < remaining
  · exact le_of_lt (left_lt hb hr)
  · rw [left, if_pos (by omega)]

/-- The outer loop, for a `blockSize` that has been raised to one. -/
def rounds (answers : Answers) (blockSize : { b : Int // 1 ≤ b }) (round : Nat)
    (s : Interleaved) : Interleaved :=
  if 0 < (s.states 0).remaining ∨ 0 < (s.states 1).remaining then
    rounds answers blockSize (round + 1) (roundOf answers blockSize round s)
  else s
termination_by (s.states 0).remaining.toNat + (s.states 1).remaining.toNat
decreasing_by
  simp only [round_remaining]
  rename_i hmore
  have hle : ∀ v, (left blockSize (s.states v).remaining).toNat ≤ (s.states v).remaining.toNat :=
    fun v => left_le blockSize.2
  have hle0 := hle 0
  have hle1 := hle 1
  rcases hmore with h | h
  · have hlt := left_lt blockSize.2 h
    omega
  · have hlt := left_lt blockSize.2 h
    omega

/-- `blockSize` after the check at the top. -/
def atLeastOne (blockSize : Int) : { b : Int // 1 ≤ b } :=
  if h : blockSize < 1 then ⟨1, le_refl 1⟩ else ⟨blockSize, by omega⟩

/-- The loops of `benchmarkHandshakeInterleaved`. -/
def interleaved (answers : Answers) (iterations blockSize : Int) : Interleaved :=
  rounds answers (atLeastOne blockSize) 0 ⟨.init iterations, 0⟩

/-! ### What the loop comes to -/

/-- How many rounds it takes. -/
def roundsOf (blockSize iterations : Int) : Nat :=
  ((iterations + blockSize - 1) / blockSize).toNat

/-- The size of the blocks of a round. -/
def sizeOf (blockSize iterations : Int) (k : Nat) : Int :=
  blockOf blockSize (iterations - k * blockSize)

/-- Whether a variant is first or second in a round. -/
def place (k : Nat) (v : Fin 2) : Nat :=
  if k % 2 = 1 then 1 - v else v

/-- The block of a variant in a round, and its size. -/
def blockAt (answers : Answers) (blockSize iterations : Int) (v : Fin 2) (k : Nat) : Int × Block :=
  let b := sizeOf blockSize iterations k
  (b, answers (2 * k + place k v) v b)

def VState.absorbAll (st : VState) (blocks : List (Int × Block)) : VState :=
  blocks.foldl (fun st x => st.absorb x.1 x.2) st

theorem roundsOf_nonpos {blockSize r : Int} (hb : 1 ≤ blockSize) (hr : r ≤ 0) :
    roundsOf blockSize r = 0 := by
  have hlt : (r + blockSize - 1) / blockSize < 1 := Int.ediv_lt_of_lt_mul (by omega) (by omega)
  unfold roundsOf
  omega

/-- One round less for what a round leaves. -/
theorem roundsOf_pos {blockSize r : Int} (hb : 1 ≤ blockSize) (hr : 0 < r) :
    roundsOf blockSize r = roundsOf blockSize (r - blockOf blockSize r) + 1 := by
  unfold blockOf
  split
  · rw [sub_self, roundsOf_nonpos hb (le_refl 0)]
    have hle : 1 ≤ (r + blockSize - 1) / blockSize := Int.le_ediv_of_mul_le (by omega) (by omega)
    have hlt : (r + blockSize - 1) / blockSize < 2 := Int.ediv_lt_of_lt_mul (by omega) (by omega)
    unfold roundsOf
    omega
  · have hsplit : (r + blockSize - 1) / blockSize =
        (r - blockSize + blockSize - 1) / blockSize + 1 := by
      rw [← Int.add_mul_ediv_right _ 1 (by omega)]
      congr 1
      omega
    have hnonneg : 0 ≤ (r - blockSize + blockSize - 1) / blockSize :=
      Int.ediv_nonneg (by omega) (by omega)
    unfold roundsOf
    omega

/-- After a full round the sizes are those of what it leaves. -/
theorem sizeOf_succ {blockSize r : Int} (hfull : blockSize ≤ r) (k : Nat) :
    sizeOf blockSize (r - blockOf blockSize r) k = sizeOf blockSize r (k + 1) := by
  have hblock : blockOf blockSize r = blockSize := if_neg (by omega)
  unfold sizeOf
  rw [hblock]
  congr 1
  push_cast
  ring

/-- The blocks of a loop are those of its first round, and those of what that leaves. -/
theorem sizes_cons {blockSize r : Int} (hb : 1 ≤ blockSize) (hr : 0 < r) {α : Type}
    (f : Nat → Int → α) :
    (List.range (roundsOf blockSize r)).map (fun k => f k (sizeOf blockSize r k)) =
      f 0 (blockOf blockSize r) ::
        (List.range (roundsOf blockSize (r - blockOf blockSize r))).map fun k =>
          f (k + 1) (sizeOf blockSize (r - blockOf blockSize r) k) := by
  have hzero : sizeOf blockSize r 0 = blockOf blockSize r := by simp [sizeOf]
  rw [roundsOf_pos hb hr, List.range_succ_eq_map, List.map_cons, List.map_map, hzero]
  congr 1
  by_cases hfull : blockSize ≤ r
  · refine List.map_congr_left fun k _ => ?_
    rw [sizeOf_succ hfull]
    rfl
  · have hblock : blockOf blockSize r = r := if_pos (by omega)
    rw [hblock, sub_self, roundsOf_nonpos hb (le_refl 0)]
    rfl

/-- A round of a loop both variants of which have the same before them. -/
theorem roundOf_states (answers : Answers) (blockSize : Int) (k : Nat) {r : Int} {s : Interleaved}
    (hr : 0 < r) (hs : ∀ v, (s.states v).remaining = r) :
    (roundOf answers blockSize k s).blocks = s.blocks + 2 ∧
    ∀ v, (roundOf answers blockSize k s).states v = (s.states v).absorb (blockOf blockSize r)
      (answers (s.blocks + place k v) v (blockOf blockSize r)) := by
  have hmore : ¬r ≤ 0 := by omega
  have hsplit : ∀ v : Fin 2, v = 0 ∨ v = 1 := fun v => by omega
  unfold roundOf order place
  by_cases hodd : k % 2 = 1
  · simp only [if_pos hodd, List.foldl_cons, List.foldl_nil, inner, hs, if_neg hmore]
    rw [Function.update_of_ne (by decide), hs, if_neg hmore]
    refine ⟨rfl, fun v => ?_⟩
    rcases hsplit v with rfl | rfl <;> simp
  · simp only [if_neg hodd, List.foldl_cons, List.foldl_nil, inner, hs, if_neg hmore]
    rw [Function.update_of_ne (by decide), hs, if_neg hmore]
    refine ⟨rfl, fun v => ?_⟩
    rcases hsplit v with rfl | rfl <;> simp

/-- **The loop in closed form.**  From a round on, each variant absorbs its block of every round
to come. -/
theorem rounds_states (answers : Answers) (blockSize : { b : Int // 1 ≤ b }) :
    ∀ (n : Nat) (r : Int) (k : Nat) (s : Interleaved), roundsOf blockSize r = n →
      (∀ v, (s.states v).remaining = r) → s.blocks = 2 * k →
      (rounds answers blockSize k s).blocks = 2 * (k + n) ∧
      ∀ v, (rounds answers blockSize k s).states v = (s.states v).absorbAll
        ((List.range (roundsOf blockSize r)).map fun j =>
          (sizeOf blockSize r j,
            answers (2 * (k + j) + place (k + j) v) v (sizeOf blockSize r j))) := by
  have hb := blockSize.2
  intro n
  induction n with
  | zero =>
      intro r k s hn hs hblocks
      have hr : r ≤ 0 := by
        by_contra hpos
        rw [roundsOf_pos hb (by omega)] at hn
        omega
      rw [rounds, if_neg (by rw [hs, hs]; omega), hn]
      exact ⟨hblocks, fun v => rfl⟩
  | succ n ih =>
      intro r k s hn hs hblocks
      have hr : 0 < r := by
        by_contra hneg
        rw [roundsOf_nonpos hb (by omega)] at hn
        omega
      obtain ⟨hcount, hround⟩ := roundOf_states answers blockSize k hr hs
      have hrest := roundsOf_pos hb hr
      have hremaining : ∀ v, ((roundOf answers blockSize k s).states v).remaining =
          r - blockOf blockSize r := by
        intro v
        rw [hround, VState.absorb, hs]
      rw [rounds, if_pos (by rw [hs, hs]; omega)]
      obtain ⟨hblocks', hstates⟩ := ih (r - blockOf blockSize r) (k + 1) _ (by omega) hremaining
        (by rw [hcount, hblocks]; omega)
      refine ⟨by rw [hblocks']; omega, fun v => ?_⟩
      have hcons := sizes_cons hb hr fun j b => (b, answers (2 * (k + j) + place (k + j) v) v b)
      rw [hstates, hcons, hround, hblocks, VState.absorbAll, VState.absorbAll, List.foldl_cons]
      simp only [Nat.add_assoc, Nat.add_comm 1, Nat.add_zero]

theorem sum_sizes {blockSize : Int} (hb : 1 ≤ blockSize) : ∀ (n : Nat) (r : Int), 0 ≤ r →
    roundsOf blockSize r = n →
      ((List.range (roundsOf blockSize r)).map fun k => sizeOf blockSize r k).sum = r := by
  intro n
  induction n with
  | zero =>
      intro r hr hn
      have hzero : r = 0 := by
        by_contra hne
        rw [roundsOf_pos hb (by omega)] at hn
        omega
      rw [hn, hzero]
      rfl
  | succ n ih =>
      intro r hr hn
      have hpos : 0 < r := by
        by_contra hneg
        rw [roundsOf_nonpos hb (by omega)] at hn
        omega
      have hblock := blockOf_pos hb hpos
      have hrest := roundsOf_pos hb hpos
      rw [sizes_cons hb hpos fun _ b => b, List.sum_cons,
        ih (r - blockOf blockSize r) (by omega) (by omega)]
      omega

/-- Every block is of at least one handshake, and of `blockSize` at most. -/
theorem sizeOf_pos {blockSize r : Int} (hb : 1 ≤ blockSize) {k : Nat}
    (hk : k < roundsOf blockSize r) :
    1 ≤ sizeOf blockSize r k ∧ sizeOf blockSize r k ≤ blockSize := by
  have hbefore : k * blockSize < r := by
    have hle : (k : Int) + 1 ≤ (r + blockSize - 1) / blockSize := by
      unfold roundsOf at hk
      omega
    have hmul := Int.mul_le_of_le_ediv (by omega) hle
    rw [add_mul] at hmul
    omega
  have hpos : 0 < r - k * blockSize := by omega
  have hblock := blockOf_pos hb hpos
  exact ⟨hblock.1, hblock.2.2⟩

/-! ### What is reported -/

/-- `ResourceMetrics`. -/
structure ResourceMetrics where
  name : String
  iterations : Int
  concurrency : Int
  okCount : Nat
  cpuUsecDelta : Int64
  memBefore : Int64
  memPeak : Int64
  ok : Bool

/-- What else the benchmark is told: the memory at the start, where it could be read, and the
peaks the sampler has left when it is stopped. -/
structure Memory where
  base : Option Int64
  peak : Fin 2 → Int64

/-- What the last loop makes of the state of a variant. -/
def reportOf (mem : Memory) (iterations concurrency : Int) (v : Fin 2) (st : VState) :
    Result × ResourceMetrics :=
  let memBase := mem.base.getD 0
  (st.result,
    { name := variantName v
      iterations := iterations
      concurrency := concurrency
      okCount := st.result.samples.length
      cpuUsecDelta := st.cpuAccum
      memBefore := memBase
      memPeak := if mem.peak v < memBase then memBase else mem.peak v
      ok := !st.cpuFail && mem.base.isSome })

/-- `benchmarkHandshakeInterleaved`: both variants, post-quantum first. -/
def benchmarkHandshakeInterleaved (answers : Answers) (mem : Memory)
    (iterations concurrency blockSize : Int) : List (Result × ResourceMetrics) :=
  let s := interleaved answers iterations blockSize
  [0, 1].map fun v => reportOf mem iterations concurrency v (s.states v)

/-- A call of `runHandshakes` can have returned this batch. -/
def Returned (iterations concurrency : Int) (b : Batch) : Prop :=
  ∃ (p₀ p : Pool Unit Res) (n : Nat) (log : List (Unit × Res)),
    runHandshakes iterations concurrency = .goes p₀ ∧ Pool.Run p₀ n log p ∧
      p.feeder = .returned ∧ b = batchOf p

theorem absorbAll_result : ∀ (blocks : List (Int × Block)) (st : VState),
    (st.absorbAll blocks).result.name = st.result.name ∧
    (st.absorbAll blocks).result.samples =
      st.result.samples ++ blocks.flatMap (fun x => x.2.batch.samples) ∧
    (st.absorbAll blocks).result.failures =
      st.result.failures + (blocks.map fun x => x.2.batch.failures).sum := by
  intro blocks
  induction blocks with
  | nil => intro st; simp [VState.absorbAll]
  | cons x blocks ih =>
      intro st
      rw [VState.absorbAll, List.foldl_cons, ← VState.absorbAll]
      obtain ⟨hname, hsamples, hfailures⟩ := ih (st.absorb x.1 x.2)
      refine ⟨hname, ?_, ?_⟩
      · rw [hsamples]
        simp [VState.absorb]
      · rw [hfailures]
        simp [VState.absorb, Nat.add_assoc]

/-- The size of a handshake is that of the last block that has one. -/
theorem absorbAll_size (blocks : List (Int × Block)) (st : VState) :
    let r := (st.absorbAll blocks).result
    (r.handshakeBytesSent = st.result.handshakeBytesSent ∧
        r.handshakeBytesRecv = st.result.handshakeBytesRecv) ∨
      ∃ x ∈ blocks, r.handshakeBytesSent = x.2.batch.lastSent ∧
        r.handshakeBytesRecv = x.2.batch.lastRecv := by
  induction blocks using List.reverseRecOn with
  | nil => exact Or.inl ⟨rfl, rfl⟩
  | append_singleton blocks x ih =>
      have hlast : st.absorbAll (blocks ++ [x]) = (st.absorbAll blocks).absorb x.1 x.2 := by
        simp [VState.absorbAll]
      dsimp only at ih ⊢
      rw [hlast]
      by_cases hsize : 0 < x.2.batch.lastSent ∨ 0 < x.2.batch.lastRecv
      · exact Or.inr ⟨x, by simp, if_pos hsize, if_pos hsize⟩
      · simp only [VState.absorb, if_neg hsize]
        refine ih.imp_right ?_
        rintro ⟨y, hy, hsent⟩
        exact ⟨y, List.mem_append_left _ hy, hsent⟩

/-- The counters of a variant hold if they were read around each of its blocks, and then they have
been added up. -/
theorem absorbAll_cpu : ∀ (blocks : List (Int × Block)) (st : VState),
    (st.absorbAll blocks).cpuFail = false →
      st.cpuFail = false ∧ ∃ deltas : List Int64,
        (blocks.map fun x => x.2.cpu) = deltas.map some ∧
          (st.absorbAll blocks).cpuAccum = st.cpuAccum + deltas.sum := by
  intro blocks
  induction blocks with
  | nil =>
      intro st hok
      exact ⟨hok, [], rfl, by simp [VState.absorbAll]⟩
  | cons x blocks ih =>
      intro st hok
      rw [VState.absorbAll, List.foldl_cons, ← VState.absorbAll] at hok ⊢
      obtain ⟨hhead, deltas, hdeltas, hsum⟩ := ih _ hok
      cases hcpu : x.2.cpu with
      | none => simp [VState.absorb, hcpu] at hhead
      | some d =>
          simp only [VState.absorb, hcpu] at hhead hsum
          refine ⟨hhead, d :: deltas, by simp [hcpu, hdeltas], ?_⟩
          simp only [VState.absorb, hcpu]
          rw [hsum, List.sum_cons, Int64.add_assoc]

/-- What is true of what is reported of a variant. -/
structure Accounts (answers : Answers) (iterations blockSize : Int) (v : Fin 2)
    (reported : Result × ResourceMetrics) : Prop where
  name : reported.1.name = variantName v ∧ reported.2.name = variantName v
  samples : reported.1.samples =
    (List.range (roundsOf blockSize iterations)).flatMap fun k =>
      (blockAt answers blockSize iterations v k).2.batch.samples
  total : (reported.2.okCount + reported.1.failures : Int) = iterations
  size : (reported.1.handshakeBytesSent = 0 ∧ reported.1.handshakeBytesRecv = 0) ∨
    ∃ k < roundsOf blockSize iterations,
      reported.1.handshakeBytesSent =
        (blockAt answers blockSize iterations v k).2.batch.lastSent ∧
      reported.1.handshakeBytesRecv = (blockAt answers blockSize iterations v k).2.batch.lastRecv
  cpu : reported.2.ok = true → ∃ deltas : List Int64,
    ((List.range (roundsOf blockSize iterations)).map fun k =>
      (blockAt answers blockSize iterations v k).2.cpu) = deltas.map some ∧
      reported.2.cpuUsecDelta = deltas.sum
  mem : reported.2.memBefore ≤ reported.2.memPeak

/-- A batch gives account of what was asked for. -/
theorem Returned.total {iterations concurrency : Int} {b : Batch}
    (h : Returned iterations concurrency b) :
    (b.samples.length + b.failures : Int) = iterations := by
  obtain ⟨p₀, p, n, log, hcall, hrun, hreturned, rfl⟩ := h
  exact (settled_of_returned hcall hrun hreturned).total

/-- Samples and failures of batches that give account of what they were asked for. -/
theorem total_batches : ∀ blocks : List (Int × Block),
    (∀ x ∈ blocks, (x.2.batch.samples.length + x.2.batch.failures : Int) = x.1) →
      ((blocks.flatMap fun x => x.2.batch.samples).length +
        ((blocks.map fun x => x.2.batch.failures).sum : Nat) : Int) =
        (blocks.map Prod.fst).sum := by
  intro blocks
  induction blocks with
  | nil => intro _; rfl
  | cons x blocks ih =>
      intro h
      have hx := h x List.mem_cons_self
      have hrest := ih fun y hy => h y (List.mem_cons_of_mem _ hy)
      simp only [List.flatMap_cons, List.length_append, List.map_cons, List.sum_cons, Nat.cast_add]
      omega

/-- What is reported of a variant that has absorbed its blocks gives account of them. -/
theorem accounts_of_blocks {answers : Answers} {mem : Memory} {iterations concurrency : Int}
    {blockSize : Int} (hb : 1 ≤ blockSize) (hnonneg : 0 ≤ iterations) {v : Fin 2}
    (hreturned : ∀ k < roundsOf blockSize iterations,
      Returned (sizeOf blockSize iterations k) concurrency
        (blockAt answers blockSize iterations v k).2.batch) :
    Accounts answers iterations blockSize v (reportOf mem iterations concurrency v
      ((VState.init iterations v).absorbAll ((List.range (roundsOf blockSize iterations)).map
        (blockAt answers blockSize iterations v)))) := by
  have hsum := sum_sizes hb _ iterations hnonneg rfl
  obtain ⟨hname, hsamples, hfailures⟩ := absorbAll_result
    ((List.range (roundsOf blockSize iterations)).map (blockAt answers blockSize iterations v))
    (.init iterations v)
  have htotal := total_batches ((List.range (roundsOf blockSize iterations)).map
    (blockAt answers blockSize iterations v)) (by
      intro x hx
      obtain ⟨k, hk, rfl⟩ := List.mem_map.mp hx
      exact (hreturned k (List.mem_range.mp hk)).total)
  constructor
  · exact ⟨hname, rfl⟩
  · rw [reportOf, hsamples, List.flatMap_map]
    rfl
  · rw [reportOf, hsamples, hfailures]
    simp only [VState.init, Result.named, List.nil_append, Nat.zero_add]
    rw [htotal, List.map_map]
    exact hsum
  · refine (absorbAll_size _ _).imp_right ?_
    rintro ⟨x, hx, hsize⟩
    obtain ⟨k, hk, rfl⟩ := List.mem_map.mp hx
    exact ⟨k, List.mem_range.mp hk, hsize⟩
  · intro hok
    have hread := (Bool.and_eq_true_iff.mp hok).1
    obtain ⟨-, deltas, hdeltas, hadded⟩ := absorbAll_cpu _ _ (by simpa using hread)
    rw [List.map_map] at hdeltas
    refine ⟨deltas, hdeltas, ?_⟩
    rw [reportOf, hadded]
    exact Int64.zero_add _
  · simp only [reportOf]
    split
    · exact Int64.le_refl _
    · exact Int64.not_lt.mp ‹_›

/-- **The benchmark is fair and loses nothing.**  Whatever the blocks come to, as long as each is
what a call of `runHandshakes` can return: both variants have a block of the same size in every
round, first one of them and then the other, the sizes add up to the iterations, and what is
reported of a variant adds up its blocks. -/
theorem benchmark_accounts {answers : Answers} {mem : Memory}
    {iterations concurrency blockSize : Int} (hnonneg : 0 ≤ iterations)
    (hreturned : ∀ v, ∀ k < roundsOf (atLeastOne blockSize) iterations,
      Returned (sizeOf (atLeastOne blockSize) iterations k) concurrency
        (blockAt answers (atLeastOne blockSize) iterations v k).2.batch) :
    (interleaved answers iterations blockSize).blocks =
      2 * roundsOf (atLeastOne blockSize) iterations ∧
    (∀ k < roundsOf (atLeastOne blockSize) iterations,
      1 ≤ sizeOf (atLeastOne blockSize) iterations k ∧
        sizeOf (atLeastOne blockSize) iterations k ≤ atLeastOne blockSize) ∧
    ((List.range (roundsOf (atLeastOne blockSize) iterations)).map
      fun k => sizeOf (atLeastOne blockSize) iterations k).sum = iterations ∧
    ∃ pqc classical, benchmarkHandshakeInterleaved answers mem iterations concurrency blockSize =
        [pqc, classical] ∧
      Accounts answers iterations (atLeastOne blockSize) 0 pqc ∧
      Accounts answers iterations (atLeastOne blockSize) 1 classical := by
  have hb := (atLeastOne blockSize).2
  obtain ⟨hblocks, hstates⟩ := rounds_states answers (atLeastOne blockSize) _ iterations 0
    ⟨.init iterations, 0⟩ rfl (fun _ => rfl) rfl
  have hreport : ∀ v, Accounts answers iterations (atLeastOne blockSize) v
      (reportOf mem iterations concurrency v
        ((interleaved answers iterations blockSize).states v)) := by
    intro v
    rw [interleaved, hstates]
    simp only [Nat.zero_add]
    exact accounts_of_blocks hb hnonneg (hreturned v)
  exact ⟨by simpa [interleaved] using hblocks, fun k hk => sizeOf_pos hb hk,
    sum_sizes hb _ iterations hnonneg rfl, _, _, rfl, hreport 0, hreport 1⟩

/-- Six handshakes of each in blocks of three.  The post-quantum one has the first block and the
last, the classical one those between. -/
theorem benchmark_accounts_two : ∃ (answers : Answers) (pqc classical : Result × ResourceMetrics),
    benchmarkHandshakeInterleaved answers ⟨some 4, fun _ => 3⟩ 6 2 3 = [pqc, classical] ∧
      Accounts answers 6 3 0 pqc ∧ Accounts answers 6 3 1 classical ∧
      pqc.1.samples = [7, 9] ++ [7, 9] ∧ classical.1.samples = [9, 7] ++ [9, 7] := by
  obtain ⟨p, hrun, hreturned, hcollected⟩ := Sample.run_together
  obtain ⟨q, hrun', hreturned', hcollected'⟩ := Sample.run_alone
  have hbatch := congrArg (List.foldl Batch.collect .empty) hcollected
  have hbatch' := congrArg (List.foldl Batch.collect .empty) hcollected'
  let first : Batch := ⟨[7, 9], 1, some "connection refused", 4, 5⟩
  let second : Batch := ⟨[9, 7], 1, some "connection refused", 2, 3⟩
  let answers : Answers := fun n _ _ => ⟨some 5, if n = 0 ∨ n = 3 then first else second, some 9⟩
  have hsize : ∀ k < roundsOf (atLeastOne 3) 6, sizeOf (atLeastOne 3) 6 k = 3 := by decide
  have hall : ∀ v, ∀ k < roundsOf (atLeastOne 3) 6, Returned (sizeOf (atLeastOne 3) 6 k) 2
      (blockAt answers (atLeastOne 3) 6 v k).2.batch := by
    intro v k hk
    rw [hsize k hk]
    by_cases hn : 2 * k + place k v = 0 ∨ 2 * k + place k v = 3
    · exact ⟨_, p, 24, _, rfl, hrun, hreturned, (if_pos hn).trans hbatch.symm⟩
    · exact ⟨_, q, 24, _, rfl, hrun', hreturned', (if_neg hn).trans hbatch'.symm⟩
  obtain ⟨-, -, -, pqc, classical, hreport, hpqc, hclassical⟩ :=
    benchmark_accounts (by decide) hall
  exact ⟨answers, pqc, classical, hreport, hpqc, hclassical, hpqc.samples, hclassical.samples⟩

end PqcApi.Harness
