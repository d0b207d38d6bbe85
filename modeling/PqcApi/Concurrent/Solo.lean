/-
One request served for a while, with nothing in between.

A path of its program whose events follow on one another is a run of the system, for
whatever the steps of runs are asked to satisfy: `Allows` says of the steps of this one
that they do, and `Resumes` of the steps of a request that has been served before.
-/
import PqcApi.Concurrent.System

namespace Concurrent

variable {S : Signature} {Y : System S}

/-- `ok` allows a request to be started and its commands to be answered by these events. -/
structure Allows (ok : Config Y → Step Y → Prop) (w : Y.World) (ths : List (Thread Y))
    (req : Y.Req) (events : List (Event Y.toMachine)) : Prop where
  start : ok ⟨w, ths⟩ (.start req)
  run : ∀ n e k, events[n]? = some e →
    ok ⟨e.pre, ths ++ [⟨req, .call e.cmd k, events.take n⟩]⟩ (.run ths.length e.choice)

namespace Allows

variable {ok ok' : Config Y → Step Y → Prop} {w : Y.World} {ths : List (Thread Y)} {req : Y.Req}
  {events : List (Event Y.toMachine)}

theorem and (h : Allows ok w ths req events) (h' : Allows ok' w ths req events) :
    Allows (fun c s => ok c s ∧ ok' c s) w ths req events :=
  ⟨⟨h.start, h'.start⟩, fun n e k hn => ⟨h.run n e k hn, h'.run n e k hn⟩⟩

theorem always : Allows (fun _ _ => True) w ths req events :=
  ⟨trivial, fun _ _ _ _ => trivial⟩

/-- The command the started thread is about to issue. -/
theorem last_cmd {cmd cmd' : S.Cmd} {k : S.Reply cmd → Program S Y.Out}
    {k' : S.Reply cmd' → Program S Y.Out} {log : List (Event Y.toMachine)} {th : Thread Y}
    (hth : (ths ++ [⟨req, .call cmd k, log⟩])[ths.length]? = some th)
    (hrest : th.rest = .call cmd' k') : cmd = cmd' := by
  rw [List.getElem?_concat_length, Option.some.injEq] at hth
  rw [← hth] at hrest
  exact (Program.call.inj hrest).1

end Allows

/-- `ok` allows thread `i`, which has served this request so far, to have its next commands
answered by these events. -/
def Resumes (ok : Config Y → Step Y → Prop) (ths : List (Thread Y)) (i : Nat) (req : Y.Req)
    (log events : List (Event Y.toMachine)) : Prop :=
  ∀ n e k, events[n]? = some e →
    ok ⟨e.pre, ths.set i ⟨req, .call e.cmd k, log ++ events.take n⟩⟩ (.run i e.choice)

theorem Resumes.and {ok ok' : Config Y → Step Y → Prop} {ths : List (Thread Y)} {i : Nat}
    {req : Y.Req} {log events : List (Event Y.toMachine)} (h : Resumes ok ths i req log events)
    (h' : Resumes ok' ths i req log events) :
    Resumes (fun c s => ok c s ∧ ok' c s) ths i req log events :=
  fun n e k hn => ⟨h n e k hn, h' n e k hn⟩

/-- The events follow on one another, from `w` to `w'`. -/
def Joined : Y.World → List (Event Y.toMachine) → Y.World → Prop
  | w, [], w' => w = w'
  | w, e :: log, w' => e.pre = w ∧ Joined e.post log w'

theorem set_of_getElem? {α : Type} {l : List α} {i : Nat} {a : α} (h : l[i]? = some a) :
    l.set i a = l := by
  obtain ⟨hlt, rfl⟩ := List.getElem?_eq_some_iff.mp h
  exact List.set_getElem_self hlt

/-- **A path whose events are joined is a run** of a thread that stands at its beginning. -/
theorem reach_resumed {ok : Config Y → Step Y → Prop} {i : Nat} {req : Y.Req}
    {q : Program S Y.Out} {w' : Y.World} {events : List (Event Y.toMachine)} :
    ∀ {w : Y.World} {ths : List (Thread Y)} {p : Program S Y.Out}
      {log : List (Event Y.toMachine)}, ths[i]? = some ⟨req, p, log⟩ → Path p events q →
      Joined w events w' → Resumes ok ths i req log events →
      Reach ok ⟨w, ths⟩ ⟨w', ths.set i ⟨req, q, log ++ events⟩⟩ := by
  induction events with
  | nil =>
      intro w ths p log hi hp hjoined _
      rw [path_nil] at hp
      obtain rfl : w = w' := hjoined
      rw [List.append_nil, ← hp, set_of_getElem? hi]
      exact .refl _
  | cons e rest ih =>
      intro w ths p log hi hp hjoined hok
      cases p with
      | ret a => exact hp.elim
      | throw x => exact hp.elim
      | call c k =>
          obtain ⟨ch, u, r, u', hx, rfl, hrest⟩ := hp
          obtain ⟨rfl, hjoined⟩ := hjoined
          have hlt := (List.getElem?_eq_some_iff.mp hi).1
          have hhere := hok 0 _ k rfl
          rw [List.take_zero, List.append_nil, set_of_getElem? hi] at hhere
          have hlater : Resumes ok (ths.set i ⟨req, k r, log ++ [⟨c, ch, u, r, u'⟩]⟩) i req
              (log ++ [⟨c, ch, u, r, u'⟩]) rest := by
            intro n e k' hn
            have hstep := hok (n + 1) e k' (by simpa using hn)
            rw [List.take_succ_cons, List.append_cons] at hstep
            rw [List.set_set]
            exact hstep
          have hrun := ih (List.getElem?_set_self hlt) hrest hjoined hlater
          rw [List.set_set, ← List.append_cons] at hrun
          exact ((Reach.refl _).tail hhere (Config.next_run hi rfl hx)).trans hrun

/-- So it is of a thread that is started for it. -/
theorem reach_solo {ok : Config Y → Step Y → Prop} {w w' : Y.World} {ths : List (Thread Y)}
    {req : Y.Req} {events : List (Event Y.toMachine)} {q : Program S Y.Out}
    (hp : Path (Y.program req) events q) (hjoined : Joined w events w')
    (hok : Allows ok w ths req events) :
    Reach ok ⟨w, ths⟩ ⟨w', ths ++ [⟨req, q, events⟩]⟩ := by
  have hset : ∀ th th' : Thread Y, (ths ++ [th]).set ths.length th' = ths ++ [th'] := by
    intro th th'
    simp [List.set_append_right _ _ (Nat.le_refl _)]
  have hgoes : Resumes ok (ths ++ [⟨req, Y.program req, []⟩]) ths.length req [] events := by
    intro n e k hn
    rw [hset]
    exact hok.run n e k hn
  have hrun := reach_resumed List.getElem?_concat_length hp hjoined hgoes
  rw [hset] at hrun
  exact ((Reach.refl _).tail hok.start rfl).trans hrun

end Concurrent
