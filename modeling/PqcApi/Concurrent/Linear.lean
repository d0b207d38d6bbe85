/-
Runs that look sequential.

A request takes effect when its last command is answered, if until then it has left the world
alone and if, served then from its start to its end, it would come to the same answer and the
same world.  When every request of a run does so, the finished ones may be served one after
another in the order in which they finished.
-/
import Mathlib.Data.List.Nodup
import PqcApi.Concurrent.Solo

namespace Concurrent

variable {S : Signature} {Y : System S}

/-! ### Runs and where they went -/

/-- A run with the configurations it went through, the last one first. -/
inductive Visits (ok : Config Y → Step Y → Prop) (a : Config Y) : List (Config Y) → Config Y → Prop
  | refl : Visits ok a [a] a
  | tail {past : List (Config Y)} {b c : Config Y} {s : Step Y} (h : Visits ok a past b)
      (hok : ok b s) (hs : b.next s = some c) : Visits ok a (c :: past) c

variable {ok : Config Y → Step Y → Prop} {a c : Config Y} {past : List (Config Y)}

theorem Visits.reach (h : Visits ok a past c) : Reach ok a c := by
  induction h with
  | refl => exact Reach.refl a
  | tail _ hok hs ih => exact ih.tail hok hs

theorem Visits.first_mem (h : Visits ok a past c) : a ∈ past := by
  induction h with
  | refl => exact List.mem_singleton_self a
  | tail _ _ _ ih => exact List.mem_cons_of_mem _ ih

/-- A configuration on the way is between the ends. -/
theorem Visits.between (h : Visits ok a past c) : ∀ b ∈ past, Reach ok a b ∧ Reach ok b c := by
  induction h with
  | refl =>
      intro b hb
      rw [List.mem_singleton.mp hb]
      exact ⟨Reach.refl a, Reach.refl a⟩
  | tail h hok hs ih =>
      intro b hb
      rcases List.mem_cons.mp hb with rfl | hold
      · exact ⟨h.reach.tail hok hs, Reach.refl _⟩
      · exact ⟨(ih b hold).1, (ih b hold).2.tail hok hs⟩

/-- It ends with the last one. -/
theorem Visits.last_mem (h : Visits ok a past c) : c ∈ past := by
  cases h with
  | refl => exact List.mem_singleton_self a
  | tail _ _ _ => exact List.mem_cons_self

/-- A run that goes on keeps its record. -/
theorem Visits.extend {b : Config Y} (hv : Visits ok a past b) (h : Reach ok b c) :
    ∃ past', Visits ok a past' c ∧ past ⊆ past' := by
  induction h with
  | refl => exact ⟨past, hv, List.Subset.refl _⟩
  | tail _ hok hs ih =>
      obtain ⟨past', hpast, hsub⟩ := ih
      exact ⟨_, hpast.tail hok hs, List.subset_cons_of_subset _ hsub⟩

/-- A run has such a record. -/
theorem Reach.visits (h : Reach ok a c) : ∃ past, Visits ok a past c := by
  obtain ⟨past, hpast, -⟩ := Visits.refl.extend h
  exact ⟨past, hpast⟩

/-! ### Sequential runs

Between two commands of a request in service nobody but the environment acts, so a relation
that it respects holds between the worlds they saw.
-/

/-- From each event of the log to the next, and from the last to `w`, the worlds are related. -/
def Linked (R : Y.World → Y.World → Prop) : List (Event Y.toMachine) → Y.World → Prop
  | [], _ => True
  | [e], w => R e.post w
  | e :: e' :: log, w => R e.post e'.pre ∧ Linked R (e' :: log) w

section Linked

variable {R : Y.World → Y.World → Prop}

theorem Linked.right (htrans : ∀ u v w, R u v → R v w → R u w) {w w' : Y.World} (hw : R w w') :
    ∀ {log : List (Event Y.toMachine)}, Linked R log w → Linked R log w' := by
  intro log
  induction log with
  | nil => exact fun _ => trivial
  | cons e log ih =>
      intro h
      cases log with
      | nil => exact htrans _ _ _ h hw
      | cons e' log => exact ⟨h.1, ih h.2⟩

theorem Linked.snoc (hrefl : ∀ w, R w w) {e : Event Y.toMachine} :
    ∀ {log : List (Event Y.toMachine)}, Linked R log e.pre → Linked R (log ++ [e]) e.post := by
  intro log
  induction log with
  | nil => exact fun _ => hrefl _
  | cons d log ih =>
      intro h
      cases log with
      | nil => exact ⟨h, hrefl _⟩
      | cons d' log => exact ⟨h.1, ih h.2⟩

/-- Every log is linked, the one of a request in service up to the present world. -/
def Config.AllLinked (R : Y.World → Y.World → Prop) (c : Config Y) : Prop :=
  ∀ (i : Nat) (th : Thread Y), c.threads[i]? = some th →
    ∃ v, Linked R th.log v ∧ (¬ th.rest.Done → v = c.world)

/-- While a request in service stands still, nobody but the environment acts. -/
theorem Config.OneBusy.idle {b c : Config Y} {s : Step Y} (hbusy : b.OneBusy)
    (hs : b.next s = some c) (hmove : ∀ m w w', Y.move w m = some w' → R w w')
    (hrefl : ∀ w, R w w) {i : Nat} {th : Thread Y} (hi : b.threads[i]? = some th)
    (hi' : c.threads[i]? = some th)
    (hd : ¬ th.rest.Done) : R b.world c.world := by
  rcases Config.next_cases hs with ⟨m, w', -, hm, rfl⟩ | ⟨r, rfl, rfl⟩ |
    ⟨j, ch, req, cmd, k, log, r, w', -, hj, -, rfl⟩
  · exact hmove m _ _ hm
  · exact hrefl _
  · have hlast := hbusy j _ hj fun h => h
    have hlast' := hbusy i th hi hd
    obtain rfl : i = j := by omega
    rw [List.getElem?_set_self (List.getElem?_eq_some_iff.mp hj).1, Option.some.injEq] at hi'
    have hlog := congrArg Thread.log (hi'.trans (Option.some.inj (hi.symm.trans hj)))
    simp at hlog

/-- **In a sequential run** the worlds that a request saw are linked. -/
theorem Reach.linked {w : Y.World} (h : Reach ok (Config.fresh w) c)
    (hok : ∀ c s, ok c s → OneAtATime c s) (hrefl : ∀ w, R w w)
    (htrans : ∀ u v w, R u v → R v w → R u w) (hmove : ∀ m w w', Y.move w m = some w' → R w w') :
    c.AllLinked R := by
  refine And.right (h.invariant (I := fun c => c.OneBusy ∧ c.AllLinked R)
    ⟨Config.fresh_oneBusy w, ?_⟩ ?_)
  · intro i th hth
    cases hth
  · rintro b c s ⟨hbusy, hall⟩ hs hn
    refine ⟨hbusy.next (hok _ _ hs) hn, ?_⟩
    intro i th hth
    rcases Config.thread_was hn hth with hold | ⟨r, -, -, rfl⟩ |
      ⟨ch, req, cmd, k, log, r, -, hi, -, rfl⟩
    · obtain ⟨v, hlog, hv⟩ := hall i th hold
      by_cases hd : th.rest.Done
      · exact ⟨v, hlog, fun hnot => absurd hd hnot⟩
      · -- only the environment has moved
        refine ⟨c.world, ?_, fun _ => rfl⟩
        rw [hv hd] at hlog
        exact hlog.right htrans (hbusy.idle hn hmove hrefl hold hth hd)
    · exact ⟨c.world, trivial, fun _ => rfl⟩
    · obtain ⟨v, hlog, hv⟩ := hall i _ hi
      rw [hv fun hd => hd] at hlog
      exact ⟨c.world, hlog.snoc hrefl, fun _ => rfl⟩

end Linked

/-! ### Sequential answers -/

/-- Commands are answered only in worlds and under choices that `fine` allows. -/
def Under (fine : Y.World → S.Cmd → Y.Choice → Prop) (c : Config Y) : Step Y → Prop
  | .run i ch => ∀ th cmd k, c.threads[i]? = some th → th.rest = .call cmd k → fine c.world cmd ch
  | _ => True

/-- A request served alone by events that `fine` allows. -/
theorem Allows.under {fine : Y.World → S.Cmd → Y.Choice → Prop} {w : Y.World}
    {ths : List (Thread Y)} {req : Y.Req} {events : List (Event Y.toMachine)}
    (h : ∀ e ∈ events, fine e.pre e.cmd e.choice) : Allows (Under fine) w ths req events := by
  refine ⟨trivial, ?_⟩
  intro n e k hn th cmd k' hth hrest
  rw [← Allows.last_cmd hth hrest]
  exact h e (List.mem_of_getElem? hn)

theorem Resumes.under {fine : Y.World → S.Cmd → Y.Choice → Prop} {ths : List (Thread Y)} {i : Nat}
    {req : Y.Req} {log events : List (Event Y.toMachine)}
    (h : ∀ e ∈ events, fine e.pre e.cmd e.choice) :
    Resumes (Under fine) ths i req log events := by
  intro n e k hn th cmd k' hth hrest
  have hlt : i < ths.length := by
    have hlt := (List.getElem?_eq_some_iff.mp hth).1
    rwa [List.length_set] at hlt
  rw [List.getElem?_set_self hlt, Option.some.injEq] at hth
  rw [← hth] at hrest
  rw [← (Program.call.inj hrest).1]
  exact h e (List.mem_of_getElem? hn)

/-- Every command of a run was answered so. -/
theorem Reach.under {fine : Y.World → S.Cmd → Y.Choice → Prop} {w : Y.World}
    (h : Reach (Under fine) (Config.fresh w) c) {i : Nat} {th : Thread Y}
    (hi : c.threads[i]? = some th) : ∀ e ∈ th.log, fine e.pre e.cmd e.choice := by
  intro e he
  obtain ⟨before, b, b', hm⟩ := h.moment_at hi he
  obtain ⟨k, hb, -⟩ := hm.thread
  rw [← hm.pre]
  exact hm.allowed _ e.cmd k hb rfl

/-- The thread `th'` has the request and the end of the `i`-th thread, which is done. -/
def Serves (c : Config Y) (i : Nat) (th' : Thread Y) : Prop :=
  ∃ th, c.threads[i]? = some th ∧ th.rest.Done ∧ th'.req = th.req ∧ th'.rest = th.rest

theorem Serves.next {c' : Config Y} {s : Step Y} (hs : c.next s = some c') {i : Nat}
    {th' : Thread Y} (h : Serves c i th') : Serves c' i th' := by
  obtain ⟨th, hth, hdone, hreq, hrest⟩ := h
  exact ⟨th, Config.next_thread_done hs hth hdone, hdone, hreq, hrest⟩

theorem Serves.done {order : List Nat} {served : List (Thread Y)}
    (h : List.Forall₂ (Serves c) order served) : ∀ th ∈ served, th.rest.Done := by
  induction h with
  | nil =>
      intro th hth
      cases hth
  | cons hhead _ ih =>
      intro th hth
      rcases List.mem_cons.mp hth with rfl | hmem
      · obtain ⟨th', -, hdone, -, hrest⟩ := hhead
        rw [hrest]
        exact hdone
      · exact ih th hmem

/-- `order` lists the requests that are done, one that had finished before another began ahead
of it.  Served one after another in this order they end as `served`, with the answers and the
world of the run. -/
structure Linearizes (fine : Y.World → S.Cmd → Y.Choice → Prop) (w : Y.World)
    (past : List (Config Y)) (c : Config Y) (order : List Nat) (served : List (Thread Y)) :
    Prop where
  nodup : order.Nodup
  finished : ∀ i, i ∈ order ↔ ∃ th, c.threads[i]? = some th ∧ th.rest.Done
  realTime : ∀ b ∈ past, ∀ i th, b.threads[i]? = some th → th.rest.Done →
    ∀ j ∈ order, b.threads.length ≤ j → [i, j].Sublist order
  answers : List.Forall₂ (Serves c) order served
  sequential : Reach (fun b s => OneAtATime b s ∧ Under fine b s) (Config.fresh w) ⟨c.world, served⟩

/-! ### Taking effect at the last command -/

/-- Whatever command of a run is answered, the request goes on and the world is as it was; or
the request is done, and served alone from this world it would have ended so. -/
def CommitsLast (ok : Config Y → Step Y → Prop) (fine : Y.World → S.Cmd → Y.Choice → Prop)
    (w : Y.World) : Prop :=
  ∀ {c : Config Y} {i : Nat} {req : Y.Req} {cmd : S.Cmd} {k : S.Reply cmd → Program S Y.Out}
    {log : List (Event Y.toMachine)} {ch : Y.Choice} {r : S.Reply cmd} {w' : Y.World},
    Reach ok (Config.fresh w) c → c.threads[i]? = some ⟨req, .call cmd k, log⟩ →
    ok c (.run i ch) → Y.exec c.world cmd ch = some (r, w') →
    (¬ (k r).Done ∧ w' = c.world) ∨
      (k r).Done ∧ ∃ events : List (Event Y.toMachine), Path (Y.program req) events (k r) ∧
        Joined c.world events w' ∧ ∀ e ∈ events, fine e.pre e.cmd e.choice

variable {fine : Y.World → S.Cmd → Y.Choice → Prop} {w : Y.World}

namespace Linearizes

/-- The sequential run may be allowed more. -/
theorem mono {fine' : Y.World → S.Cmd → Y.Choice → Prop} {order : List Nat}
    {served : List (Thread Y)} (hle : ∀ w cmd ch, fine w cmd ch → fine' w cmd ch)
    (h : Linearizes fine w past c order served) : Linearizes fine' w past c order served := by
  refine { h with sequential := h.sequential.mono ?_ }
  rintro b s ⟨hone, hunder⟩
  refine ⟨hone, ?_⟩
  cases s with
  | run i ch => exact fun th cmd k hth hrest => hle _ _ _ (hunder th cmd k hth hrest)
  | move m => exact trivial
  | start r => exact trivial

variable {order : List Nat} {served : List (Thread Y)} {c' : Config Y} {s : Step Y}

/-- Answers given stay given. -/
theorem later (h : Linearizes fine w past c order served) (hs : c.next s = some c') :
    (∀ i ∈ order, ∃ th, c'.threads[i]? = some th ∧ th.rest.Done) ∧
      List.Forall₂ (Serves c') order served := by
  refine ⟨?_, h.answers.imp fun i th' hserves => hserves.next hs⟩
  intro i hi
  obtain ⟨th, hth, hdone⟩ := (h.finished i).mp hi
  exact ⟨th, Config.next_thread_done hs hth hdone, hdone⟩

/-- A step at which no request finishes. -/
theorem stutter (h : Linearizes fine w past c order served) (hs : c.next s = some c')
    (hnew : ∀ i th, c'.threads[i]? = some th → th.rest.Done → i ∈ order)
    (hserve : Reach (fun b s => OneAtATime b s ∧ Under fine b s) ⟨c.world, served⟩
      ⟨c'.world, served⟩) :
    Linearizes fine w (c' :: past) c' order served := by
  obtain ⟨hdone, hanswers⟩ := h.later hs
  refine ⟨h.nodup, ?_, ?_, hanswers, h.sequential.trans hserve⟩
  · intro i
    refine ⟨hdone i, ?_⟩
    intro ⟨th, hth, hd⟩
    exact hnew i th hth hd
  · intro b hb i th hth hd j hj hle
    rcases List.mem_cons.mp hb with rfl | hold
    · obtain ⟨th', hth', -⟩ := hdone j hj
      exact absurd (List.getElem?_eq_some_iff.mp hth').1 (Nat.not_lt.mpr hle)
    · exact h.realTime b hold i th hth hd j hj hle

/-- A step at which the `i`-th request finishes, and what serving it alone comes to. -/
theorem finish (th' : Thread Y) (hv : Visits ok a past c)
    (h : Linearizes fine w past c order served) (hs : c.next s = some c') {i : Nat}
    {th : Thread Y} (hfresh : i ∉ order)
    (hi : c'.threads[i]? = some th) (hdone : th.rest.Done) (hreq : th'.req = th.req)
    (hrest : th'.rest = th.rest)
    (hnew : ∀ j th, c'.threads[j]? = some th → th.rest.Done → j ∈ order ∨ j = i)
    (hserve : Reach (fun b s => OneAtATime b s ∧ Under fine b s) ⟨c.world, served⟩
      ⟨c'.world, served ++ [th']⟩) :
    Linearizes fine w (c' :: past) c' (order ++ [i]) (served ++ [th']) := by
  obtain ⟨hold, hanswers⟩ := h.later hs
  have hthere : ∀ j ∈ order ++ [i], ∃ th, c'.threads[j]? = some th ∧ th.rest.Done := by
    intro j hj
    rcases List.mem_append.mp hj with hj | hj
    · exact hold j hj
    · rw [List.mem_singleton.mp hj]
      exact ⟨th, hi, hdone⟩
  refine ⟨?_, ?_, ?_, ?_, h.sequential.trans hserve⟩
  · refine List.nodup_append'.mpr ⟨h.nodup, List.nodup_singleton i, ?_⟩
    intro j hj hj'
    rw [List.mem_singleton.mp hj'] at hj
    exact hfresh hj
  · intro j
    refine ⟨hthere j, ?_⟩
    intro ⟨th₁, hth₁, hd⟩
    rcases hnew j th₁ hth₁ hd with hmem | rfl
    · exact List.mem_append_left _ hmem
    · exact List.mem_append_right _ (List.mem_singleton_self j)
  · intro b hb i₀ th₀ hth₀ hd₀ j hj hle
    rcases List.mem_cons.mp hb with rfl | hb
    · obtain ⟨th₁, hth₁, -⟩ := hthere j hj
      exact absurd (List.getElem?_eq_some_iff.mp hth₁).1 (Nat.not_lt.mpr hle)
    · rcases List.mem_append.mp hj with hj | hj
      · exact (h.realTime b hb i₀ th₀ hth₀ hd₀ j hj hle).trans (List.sublist_append_left _ _)
      · -- whoever had finished before stands before the last
        rw [List.mem_singleton.mp hj]
        have hmem : i₀ ∈ order :=
          (h.finished i₀).mpr ⟨th₀, (hv.between b hb).2.thread_done hth₀ hd₀, hd₀⟩
        exact (List.singleton_sublist.mpr hmem).append (List.Sublist.refl [i])
  · refine List.rel_append hanswers (List.Forall₂.cons ?_ List.Forall₂.nil)
    exact ⟨th, hi, hdone, hreq, hrest⟩

/-- The environment acts. -/
theorem move {m : Y.Move} {v : Y.World} (h : Linearizes fine w past c order served)
    (hm : Y.move c.world m = some v) (hs : c.next (.move m) = some ⟨v, c.threads⟩) :
    Linearizes fine w (⟨v, c.threads⟩ :: past) ⟨v, c.threads⟩ order served := by
  refine h.stutter hs ?_ ?_
  · intro i th hth hd
    exact (h.finished i).mpr ⟨th, hth, hd⟩
  · refine (Reach.refl _).tail (s := .move m) ⟨trivial, trivial⟩ ?_
    show (Y.move c.world m).map _ = _
    rw [hm]
    rfl

/-- A request arrives; it may be done at once, when it asks nothing of the world. -/
theorem start {req : Y.Req} (hv : Visits ok a past c) (h : Linearizes fine w past c order served)
    (hs : c.next (.start req) = some c')
    (hc' : c' = ⟨c.world, c.threads ++ [⟨req, Y.program req, []⟩]⟩) :
    ∃ order served, Linearizes fine w (c' :: past) c' order served := by
  have hdone : ∀ th ∈ served, th.rest.Done := Serves.done h.answers
  have hold : ∀ j th, c'.threads[j]? = some th → th.rest.Done →
      j ∈ order ∨ j = c.threads.length ∧ th = ⟨req, Y.program req, []⟩ := by
    intro j th hth hd
    rcases Config.thread_was hs hth with hj | ⟨req', hreq, hj, rfl⟩ | ⟨_, _, _, _, _, _, hreq, -⟩
    · exact Or.inl ((h.finished j).mpr ⟨th, hj, hd⟩)
    · rw [Step.start.inj hreq]
      exact Or.inr ⟨hj, rfl⟩
    · cases hreq
  subst hc'
  by_cases hd : (Y.program req).Done
  · refine ⟨_, _, h.finish ⟨req, Y.program req, []⟩ hv hs (i := c.threads.length) ?_
      List.getElem?_concat_length hd rfl rfl ?_ ?_⟩
    · intro hmem
      obtain ⟨th, hth, -⟩ := (h.finished _).mp hmem
      exact absurd (List.getElem?_eq_some_iff.mp hth).1 (Nat.lt_irrefl _)
    · intro j th hth hd'
      exact (hold j th hth hd').imp_right And.left
    · exact (Reach.refl _).tail (s := .start req) ⟨hdone, trivial⟩ rfl
  · refine ⟨order, served, h.stutter hs ?_ (Reach.refl _)⟩
    intro j th hth hd'
    rcases hold j th hth hd' with hmem | ⟨-, rfl⟩
    · exact hmem
    · exact absurd hd' hd

/-- A command is answered; if it was the last of its request, the request is served now. -/
theorem run {i : Nat} {ch : Y.Choice} {req : Y.Req} {cmd : S.Cmd}
    {k : S.Reply cmd → Program S Y.Out} {log : List (Event Y.toMachine)} {r : S.Reply cmd}
    {w' : Y.World} (hv : Visits ok a past c) (h : Linearizes fine w past c order served)
    (hi : c.threads[i]? = some ⟨req, .call cmd k, log⟩)
    (hs : c.next (.run i ch) =
      some ⟨w', c.threads.set i ⟨req, k r, log ++ [⟨cmd, ch, c.world, r, w'⟩]⟩⟩)
    (hcommit : (¬ (k r).Done ∧ w' = c.world) ∨
      (k r).Done ∧ ∃ events : List (Event Y.toMachine), Path (Y.program req) events (k r) ∧
        Joined c.world events w' ∧ ∀ e ∈ events, fine e.pre e.cmd e.choice) :
    ∃ order served, Linearizes fine w
      (⟨w', c.threads.set i ⟨req, k r, log ++ [⟨cmd, ch, c.world, r, w'⟩]⟩⟩ :: past)
      ⟨w', c.threads.set i ⟨req, k r, log ++ [⟨cmd, ch, c.world, r, w'⟩]⟩⟩ order served := by
  have hdone : ∀ th ∈ served, th.rest.Done := Serves.done h.answers
  have hlt : i < c.threads.length := (List.getElem?_eq_some_iff.mp hi).1
  have hold : ∀ j th, (c.threads.set i ⟨req, k r, log ++ [⟨cmd, ch, c.world, r, w'⟩]⟩)[j]? =
      some th → th.rest.Done → j ∈ order ∨ j = i ∧ th.rest = k r := by
    intro j th hth hd
    by_cases hij : i = j
    · subst hij
      rw [List.getElem?_set_self hlt, Option.some.injEq] at hth
      rw [← hth]
      exact Or.inr ⟨rfl, rfl⟩
    · rw [List.getElem?_set_ne hij] at hth
      exact Or.inl ((h.finished j).mpr ⟨th, hth, hd⟩)
  rcases hcommit with ⟨hbusy, hworld⟩ | ⟨hd, events, hpath, hjoined, hfine⟩
  · refine ⟨order, served, h.stutter hs ?_ ?_⟩
    · intro j th hth hd
      rcases hold j th hth hd with hmem | ⟨-, hrest⟩
      · exact hmem
      · rw [hrest] at hd
        exact absurd hd hbusy
    · rw [hworld]
      exact Reach.refl _
  · refine ⟨_, _, h.finish ⟨req, k r, events⟩ hv hs (i := i) ?_ (List.getElem?_set_self hlt)
      hd rfl rfl ?_ ?_⟩
    · intro hmem
      obtain ⟨th, hth, hd'⟩ := (h.finished i).mp hmem
      obtain rfl := Option.some.inj (hi.symm.trans hth)
      exact hd'
    · intro j th hth hd'
      exact (hold j th hth hd').imp_right And.left
    · have hone : Allows OneAtATime c.world served req events :=
        ⟨hdone, fun _ _ _ _ => trivial⟩
      exact reach_solo hpath hjoined (hone.and (Allows.under hfine))

end Linearizes

/-- **Linearizability.**  If every request takes effect at its last command, every run is
linearizable. -/
theorem linearizable (hcommit : CommitsLast ok fine w) (h : Visits ok (Config.fresh w) past c) :
    ∃ order served, Linearizes fine w past c order served := by
  induction h with
  | refl =>
      refine ⟨[], [], List.nodup_nil, ?_, ?_, List.Forall₂.nil, Reach.refl _⟩
      · intro i
        refine iff_of_false List.not_mem_nil ?_
        rintro ⟨th, hth, -⟩
        cases hth
      · intro b _ i th _ _ j hj
        cases hj
  | tail hv hok hs ih =>
      obtain ⟨order, served, hl⟩ := ih
      rcases Config.next_cases hs with ⟨m, w', rfl, hm, rfl⟩ | ⟨req, rfl, rfl⟩ |
        ⟨i, ch, req, cmd, k, log, r, w', rfl, hi, hx, rfl⟩
      · exact ⟨order, served, hl.move hm hs⟩
      · exact hl.start hv hs rfl
      · exact hl.run hv hi hs (hcommit hv.reach hi hok hx)

end Concurrent
