/-
The lock makes calls atomic.

Every run of the clients is followed by a run of the system in which each of them has asked the
same and been answered the same (`Wired.Run.follows`): a command happens when the service runs
it, or when its client finds that the connection has failed.

The service runs a command before it is known whether its reply will arrive.  Until that is
known the invariant keeps two runs of the system, one for each end of the call.  What the
service runs after the connection has failed no client sees; from then on the worlds are the
same only but for what the service keeps.
-/
import PqcApi.Concurrent.Connection

namespace Concurrent

variable {S : Signature} {Y : System S} {V : Service Y}

/-! ### A system that follows -/

/-- The request once its command has been answered with what is read of a reply. -/
def Standing.hear (V : Service Y) (m : Option V.Wire) (st : Standing Y) : Standing Y :=
  match st.rest with
  | .call cmd k => ⟨st.req, k (V.reading cmd m), st.answers ++ [⟨cmd, V.reading cmd m⟩]⟩
  | _ => st

theorem Standing.hear_call {m : Option V.Wire} {st : Standing Y} {cmd : S.Cmd}
    {k : S.Reply cmd → Program S Y.Out} (h : st.rest = .call cmd k) :
    st.hear V m = ⟨st.req, k (V.reading cmd m), st.answers ++ [⟨cmd, V.reading cmd m⟩]⟩ := by
  unfold hear
  rw [h]

theorem Standing.hear_done {m : Option V.Wire} {st : Standing Y} (h : st.rest.Done) :
    st.hear V m = st := by
  unfold hear
  split
  · rename_i hrest
    rw [hrest] at h
    exact h.elim
  · rfl

theorem Standing.hear_req (m : Option V.Wire) (st : Standing Y) : (st.hear V m).req = st.req := by
  unfold hear
  split <;> rfl

/-- It only adds an answer. -/
theorem Standing.answers_hear (m : Option V.Wire) (st : Standing Y) :
    st.answers <+: (st.hear V m).answers := by
  unfold hear
  split
  · exact List.prefix_append _ _
  · exact List.prefix_refl _

/-- The call in the lock has been answered in the system and the client has not been told:
who asks, and what it will be told. -/
abbrev Pending (V : Service Y) := Option (Nat × Option V.Wire)

variable {c c' : Wired V} {a a' : Config Y} {p p' : Pending V}

namespace Wired

/-- Client `j` as the system has it. -/
def standing (c : Wired V) (p : Pending V) (j : Nat) : Option (Standing Y) :=
  c.clients[j]?.map fun cl =>
    match p with
    | some (i, m) => if i = j then cl.toStanding.hear V m else cl.toStanding
    | none => cl.toStanding

/-- The system is where the clients are, but for the call that is pending. -/
structure Follows (c : Wired V) (a : Config Y) (p : Pending V) : Prop where
  length : a.threads.length = c.clients.length
  stands : ∀ j, a.threads[j]?.map Thread.standing = c.standing p j
  same : V.Same c.world a.world
  exact : c.line.err = false → c.world = a.world

/-- A step the system need not follow. -/
theorem Follows.stutter (h : c.Follows a p) (hlen : c'.clients.length = c.clients.length)
    (hst : ∀ j, c'.standing p' j = c.standing p j) (hw : c'.world = c.world)
    (herr : c'.line.err = false → c.line.err = false) : c'.Follows a p' where
  length := by rw [h.length, hlen]
  stands := fun j => by rw [h.stands j, hst j]
  same := by rw [hw]; exact h.same
  exact := fun he => by rw [hw]; exact h.exact (herr he)

/-- The stage of a client is its own business. -/
theorem standing_put {i : Nat} {st : Standing Y} {stage stage' : Stage V.Wire}
    (hi : c.clients[i]? = some ⟨st, stage⟩) (p : Pending V) (j : Nat) :
    (c.put i st stage').standing p j = c.standing p j := by
  unfold standing put
  by_cases hij : i = j
  · subst hij
    rw [List.getElem?_set_self (List.getElem?_eq_some_iff.mp hi).1, hi]
    rfl
  · rw [List.getElem?_set_ne hij]

/-- A client goes on in its call, and has not been told anything. -/
theorem Follows.goes_on (h : c.Follows a p) {i : Nat} {st : Standing Y}
    {stage stage' : Stage V.Wire} (hi : c.clients[i]? = some ⟨st, stage⟩) {holder : Option Nat}
    {line : Connection V} (herr : line.err = c.line.err) :
    ({ c.put i st stage' with holder := holder, line := line } : Wired V).Follows a p :=
  h.stutter (by simp [put]) (standing_put hi p) rfl fun he => herr.symm.trans he

/-- The thread of a client that has no call pending. -/
theorem Follows.thread (h : c.Follows a p) {i : Nat} {cl : Client V}
    (hi : c.clients[i]? = some cl) (hp : ∀ m, p ≠ some (i, m)) :
    ∃ th, a.threads[i]? = some th ∧ th.standing = cl.toStanding := by
  have hst := h.stands i
  have hview : c.standing p i = some cl.toStanding := by
    unfold standing
    rw [hi]
    rcases p with _ | ⟨j, m⟩
    · rfl
    · have hne : j ≠ i := fun hji => hp m (by rw [hji])
      simp [hne]
  rw [hview] at hst
  obtain ⟨th, hth, heq⟩ := Option.map_eq_some_iff.mp hst
  exact ⟨th, hth, heq⟩

/-- A thread that stands at a command. -/
theorem thread_call {th : Thread Y} {st : Standing Y} {cmd : S.Cmd}
    {k : S.Reply cmd → Program S Y.Out} (h : th.standing = st) (hrest : st.rest = .call cmd k) :
    th.req = st.req ∧ th.rest = .call cmd k ∧ th.log.map Event.answer = st.answers := by
  subst h
  exact ⟨rfl, hrest, rfl⟩

theorem Follows.move (h : c.Follows a p) {m : Y.Move} {w : Y.World}
    (hm : Y.move c.world m = some w) :
    ∃ a', a.next (.move m) = some a' ∧ ({ c with world := w } : Wired V).Follows a' p := by
  obtain ⟨v, hv, hsame⟩ := V.same_move hm h.same
  refine ⟨⟨v, a.threads⟩, by simp [Config.next, hv], h.length, h.stands, hsame, fun he => ?_⟩
  have heq := h.exact he
  rw [heq, hv] at hm
  exact (Option.some.inj hm).symm

theorem Follows.start (h : c.Follows a p) (r : Y.Req)
    (hp : ∀ i m, p = some (i, m) → i < c.clients.length) :
    ∃ a', a.next (.start r) = some a' ∧
      ({ c with clients := c.clients ++ [⟨⟨r, Y.program r, []⟩, .out⟩] } :
        Wired V).Follows a' p := by
  refine ⟨_, rfl, by simp [h.length], fun j => ?_, h.same, h.exact⟩
  by_cases hj : j < c.clients.length
  · have hj' : j < a.threads.length := by rw [h.length]; exact hj
    have hold := h.stands j
    unfold standing at hold ⊢
    rw [List.getElem?_append_left hj', List.getElem?_append_left hj]
    exact hold
  · by_cases hnew : j = c.clients.length
    · subst hnew
      unfold standing
      rw [List.getElem?_concat_length, ← h.length, List.getElem?_concat_length]
      rcases p with _ | ⟨i, m⟩
      · rfl
      · have hi : i ≠ a.threads.length := by
          rw [h.length]
          exact Nat.ne_of_lt (hp i m rfl)
        simp [hi, Thread.standing]
    · have hgt : c.clients.length < j := by omega
      unfold standing
      rw [List.getElem?_eq_none (by simp [h.length]; omega),
        List.getElem?_eq_none (by simp; omega)]
      rfl

/-- Its own commands a client issues where its thread does. -/
theorem Follows.own (h : c.Follows a p) {i : Nat} {ch : Y.Choice} {st : Standing Y} {cmd : S.Cmd}
    {k : S.Reply cmd → Program S Y.Out} {r : S.Reply cmd} {w : Y.World}
    (hi : c.At i .out st cmd k) (hown : V.remote cmd = false)
    (hx : Y.exec c.world cmd ch = some (r, w)) (hp : ∀ m, p ≠ some (i, m)) :
    ∃ a', a.next (.run i ch) = some a' ∧
      ({ c.put i ⟨st.req, k r, st.answers ++ [⟨cmd, r⟩]⟩ .out with world := w } :
        Wired V).Follows a' p := by
  obtain ⟨th, hth, hst⟩ := h.thread hi.1 hp
  obtain ⟨hreq, hrest, hlog⟩ := thread_call hst hi.2
  obtain ⟨v, hv, hsame⟩ := V.same_exec hown hx h.same
  refine ⟨_, Config.next_run hth hrest hv, by simp [put, h.length], fun j => ?_, hsame,
    fun he => ?_⟩
  · by_cases hij : i = j
    · subst hij
      unfold standing put
      rw [List.getElem?_set_self (List.getElem?_eq_some_iff.mp hth).1,
        List.getElem?_set_self (List.getElem?_eq_some_iff.mp hi.1).1]
      rcases p with _ | ⟨n, m⟩
      · simp [Thread.standing, Event.answer, hreq, hlog]
      · have hne : n ≠ i := fun hni => hp m (by rw [hni])
        simp [hne, Thread.standing, Event.answer, hreq, hlog]
    · have hold := h.stands j
      unfold standing put at *
      rw [List.getElem?_set_ne hij, List.getElem?_set_ne hij]
      exact hold
  · have heq := h.exact he
    rw [heq, hv] at hx
    exact (Prod.mk.inj (Option.some.inj hx)).2.symm

/-- The system answers the command in the lock; the client is told later. -/
theorem Follows.hear (h : c.Follows a none) {i : Nat} {ch : Y.Choice} {st : Standing Y}
    {stage : Stage V.Wire} {cmd : S.Cmd} {k : S.Reply cmd → Program S Y.Out} {m : Option V.Wire}
    {v : Y.World} (hi : c.At i stage st cmd k)
    (hx : Y.exec a.world cmd ch = some (V.reading cmd m, v)) :
    ∃ a', a.next (.run i ch) = some a' ∧ a'.world = v ∧ a'.threads.length = c.clients.length ∧
      ∀ j, a'.threads[j]?.map Thread.standing = c.standing (some (i, m)) j := by
  obtain ⟨th, hth, hst⟩ := h.thread hi.1 (fun m => by simp)
  obtain ⟨hreq, hrest, hlog⟩ := thread_call hst hi.2
  refine ⟨_, Config.next_run hth hrest hx, rfl, by simp [h.length], fun j => ?_⟩
  by_cases hij : i = j
  · subst hij
    unfold standing
    rw [List.getElem?_set_self (List.getElem?_eq_some_iff.mp hth).1, hi.1]
    simp [Standing.hear_call hi.2, Thread.standing, Event.answer, hreq, hlog]
  · have hold := h.stands j
    unfold standing at *
    rw [List.getElem?_set_ne hij, hold]
    simp [hij]

/-! ### What is on the connection -/

/-- Client `i` has the lock, and is at a command for the service. -/
structure Holds (c : Wired V) (i : Nat) (stage : Stage V.Wire) (st : Standing Y) (cmd : S.Cmd)
    (k : S.Reply cmd → Program S Y.Out) : Prop where
  holder : c.holder = some i
  stands : c.At i stage st cmd k
  remote : V.remote cmd = true

end Wired

/-- Nothing is on the connection that a later call could read. -/
def Connection.Idle (l : Connection V) : Prop :=
  l.replies = [] ∧ (l.err = false → l.obuf = [] ∧ l.requests = [])

namespace Wired

/-- What has become of the call in the lock, and how it may end. -/
inductive Stands (c : Wired V) : List (Pending V) → Prop
  | free (hfree : c.holder = none) (hidle : c.line.Idle) : Stands c [none]
  | locked {i : Nat} {st : Standing Y} {cmd : S.Cmd} {k : S.Reply cmd → Program S Y.Out}
      (h : c.Holds i .locked st cmd k) (hidle : c.line.Idle) : Stands c [none]
  | unsent {i : Nat} {st : Standing Y} {cmd : S.Cmd} {k : S.Reply cmd → Program S Y.Out}
      (h : c.Holds i .asked st cmd k) (hline : c.line = ⟨[cmd], [], [], false⟩) : Stands c [none]
  | sent {i : Nat} {st : Standing Y} {cmd : S.Cmd} {k : S.Reply cmd → Program S Y.Out}
      (h : c.Holds i .waiting st cmd k) (hline : c.line = ⟨[], [cmd], [], false⟩) : Stands c [none]
  /-- The service has run it: the reply is read, or the connection fails before. -/
  | replied {i : Nat} {st : Standing Y} {cmd : S.Cmd} {k : S.Reply cmd → Program S Y.Out}
      {m : V.Wire} (h : c.Holds i .waiting st cmd k) (hreply : c.line.replies = [m])
      (hquiet : c.line.err = false → c.line.obuf = [] ∧ c.line.requests = []) :
      Stands c [some (i, some m), some (i, none)]
  | broken {i : Nat} {st : Standing Y} {cmd : S.Cmd} {k : S.Reply cmd → Program S Y.Out}
      {stage : Stage V.Wire} (h : c.Holds i stage st cmd k)
      (hstage : stage = .asked ∨ stage = .waiting) (hnone : c.line.replies = [])
      (herr : c.line.err = true) : Stands c [some (i, none)]
  | told {i : Nat} {st : Standing Y} {cmd : S.Cmd} {k : S.Reply cmd → Program S Y.Out}
      {m : Option V.Wire} (h : c.Holds i (.told m) st cmd k) (hidle : c.line.Idle) :
      Stands c [some (i, m)]

/-- Only who has the lock is in a call. -/
def Exclusive (c : Wired V) : Prop :=
  ∀ i cl, c.clients[i]? = some cl → cl.stage ≠ .out → c.holder = some i

theorem At.eq {i : Nat} {st st' : Standing Y} {stage stage' : Stage V.Wire} {cmd cmd' : S.Cmd}
    {k : S.Reply cmd → Program S Y.Out} {k' : S.Reply cmd' → Program S Y.Out}
    (h : c.At i stage st cmd k) (h' : c.At i stage' st' cmd' k') :
    st = st' ∧ stage = stage' ∧ cmd = cmd' := by
  have hcl := Option.some.inj (h.1.symm.trans h'.1)
  obtain ⟨hst, hstage⟩ := Client.mk.inj hcl
  refine ⟨hst, hstage, ?_⟩
  have hrest : Program.call cmd k = .call cmd' k' := by rw [← h.2, ← h'.2, hst]
  exact (Program.call.inj hrest).1

theorem put_self {i : Nat} {st st' : Standing Y} {stage stage' : Stage V.Wire}
    (hi : c.clients[i]? = some ⟨st, stage⟩) :
    (c.put i st' stage').clients[i]? = some ⟨st', stage'⟩ :=
  List.getElem?_set_self (List.getElem?_eq_some_iff.mp hi).1

theorem put_other {i j : Nat} {st : Standing Y} {stage : Stage V.Wire} (hij : i ≠ j) :
    (c.put i st stage).clients[j]? = c.clients[j]? :=
  List.getElem?_set_ne hij

/-- A client that has the lock may be at any stage. -/
theorem Exclusive.put (h : c.Exclusive) {i : Nat} {st : Standing Y} {stage : Stage V.Wire}
    (hi : c.holder = some i) : (c.put i st stage).Exclusive := by
  intro j cl hj hstage
  by_cases hij : i = j
  · rw [← hij]
    exact hi
  · rw [put_other hij] at hj
    exact h j cl hj hstage

theorem reading_in {Wire : Type} {stage : Stage Wire}
    (h : stage = .asked ∨ stage = .waiting) : stage ≠ .out := by
  rcases h with rfl | rfl
  · simp
  · simp

/-- Who has the lock, as a call sees it. -/
theorem Stands.holder {ends : List (Pending V)} (h : c.Stands ends) :
    c.holder = none ∧ ends = [none] ∧ c.line.Idle ∨
      ∃ i stage st cmd k, stage ≠ .out ∧ c.Holds i stage st cmd k := by
  cases h with
  | free hfree hidle => exact Or.inl ⟨hfree, rfl, hidle⟩
  | locked h => exact Or.inr ⟨_, _, _, _, _, by simp, h⟩
  | unsent h => exact Or.inr ⟨_, _, _, _, _, by simp, h⟩
  | sent h => exact Or.inr ⟨_, _, _, _, _, by simp, h⟩
  | replied h => exact Or.inr ⟨_, _, _, _, _, by simp, h⟩
  | broken h hstage => exact Or.inr ⟨_, _, _, _, _, reading_in hstage, h⟩
  | told h => exact Or.inr ⟨_, _, _, _, _, by simp, h⟩

/-- Who is in a call that is pending. -/
theorem Stands.pending {ends : List (Pending V)} (h : c.Stands ends) {i : Nat}
    {m : Option V.Wire} (hm : some (i, m) ∈ ends) :
    ∃ stage st cmd k, stage ≠ .out ∧ c.At i stage st cmd k := by
  cases h with
  | free => simp at hm
  | locked => simp at hm
  | unsent => simp at hm
  | sent => simp at hm
  | replied h =>
      obtain rfl : i = _ := by
        simp only [List.mem_cons, Option.some.injEq, Prod.mk.injEq] at hm
        rcases hm with hm | hm | hm
        · exact hm.1
        · exact hm.1
        · cases hm
      exact ⟨_, _, _, _, by simp, h.stands⟩
  | broken h hstage =>
      obtain ⟨rfl, -⟩ : i = _ ∧ m = _ := by simpa using hm
      exact ⟨_, _, _, _, reading_in hstage, h.stands⟩
  | told h =>
      obtain ⟨rfl, -⟩ : i = _ ∧ m = _ := by simpa using hm
      exact ⟨_, _, _, _, by simp, h.stands⟩

/-- What the others do does not change what has become of a call. -/
theorem Stands.frame {ends : List (Pending V)} (h : c.Stands ends) (hholder : c'.holder = c.holder)
    (hline : c'.line = c.line)
    (hat : ∀ {i stage st cmd k}, stage ≠ .out → c.At i stage st cmd k →
      c'.At i stage st cmd k) : c'.Stands ends := by
  have hholds : ∀ {i stage st cmd k}, stage ≠ .out → c.Holds i stage st cmd k →
      c'.Holds i stage st cmd k := fun hstage h =>
    ⟨by rw [hholder, h.holder], hat hstage h.stands, h.remote⟩
  cases h with
  | free hfree hidle => exact .free (by rw [hholder, hfree]) (by rw [hline]; exact hidle)
  | locked h hidle => exact .locked (hholds (by simp) h) (by rw [hline]; exact hidle)
  | unsent h hl => exact .unsent (hholds (by simp) h) (by rw [hline, hl])
  | sent h hl => exact .sent (hholds (by simp) h) (by rw [hline, hl])
  | replied h hreply hquiet =>
      exact .replied (hholds (by simp) h) (by rw [hline, hreply]) (by rw [hline]; exact hquiet)
  | broken h hstage hnone herr =>
      exact .broken (hholds (reading_in hstage) h) hstage (by rw [hline, hnone])
        (by rw [hline, herr])
  | told h hidle => exact .told (hholds (by simp) h) (by rw [hline]; exact hidle)

/-! ### The invariant -/

/-- The clients and the connection go together, and however the call in the lock ends, a run of
the system has come to that. -/
structure Sound (ok : Config Y → Step Y → Prop) (a₀ : Config Y) (c : Wired V) : Prop where
  exclusive : c.Exclusive
  requests : ∀ cmd ∈ c.line.requests, V.remote cmd = true
  backed : ∃ ends, c.Stands ends ∧ ∀ p ∈ ends, ∃ a, Reach ok a₀ a ∧ c.Follows a p

end Wired

/-- The steps of the system a step of the clients may stand for are allowed. -/
def Service.Allows (V : Service Y) (ok : Config Y → Step Y → Prop) (a₀ : Config Y) (c : Wired V)
    (s : Act Y) : Prop :=
  ∀ a p, Reach ok a₀ a → c.Follows a p →
    match s with
    | .move m => ok a (.move m)
    | .start r => ok a (.start r)
    | .own i ch => ok a (.run i ch)
    | _ => True

/-- Whatever becomes of a command for the service is allowed. -/
def Service.Lenient (V : Service Y) (ok : Config Y → Step Y → Prop) : Prop :=
  ∀ a i ch th cmd k, a.threads[i]? = some th → th.rest = .call cmd k → V.remote cmd = true →
    ok a (.run i ch)

namespace Wired

variable {ok : Config Y → Step Y → Prop} {a₀ : Config Y}

/-- The system answers the command in the lock. -/
theorem Follows.reach_hear (hok : V.Lenient ok) (h : c.Follows a none) (ha : Reach ok a₀ a)
    {i : Nat} {ch : Y.Choice} {st : Standing Y} {stage : Stage V.Wire} {cmd : S.Cmd}
    {k : S.Reply cmd → Program S Y.Out} {m : Option V.Wire} {v : Y.World}
    (hi : c.Holds i stage st cmd k) (hx : Y.exec a.world cmd ch = some (V.reading cmd m, v)) :
    ∃ a', Reach ok a₀ a' ∧ a'.world = v ∧ a'.threads.length = c.clients.length ∧
      ∀ j, a'.threads[j]?.map Thread.standing = c.standing (some (i, m)) j := by
  obtain ⟨th, hth, hst⟩ := h.thread hi.stands.1 (fun m => by simp)
  obtain ⟨a', hnext, hrest⟩ := h.hear hi.stands hx
  exact ⟨a', ha.tail (hok a i ch th cmd k hth (thread_call hst hi.stands.2).2.1 hi.remote) hnext,
    hrest⟩

/-- The connection has failed and the service has not run the command of the call: it never
will, as far as the clients can tell. -/
theorem Follows.lose (hok : V.Lenient ok) (h : c.Follows a none) (ha : Reach ok a₀ a) {i : Nat}
    {st : Standing Y} {stage : Stage V.Wire} {cmd : S.Cmd} {k : S.Reply cmd → Program S Y.Out}
    (hi : c.Holds i stage st cmd k) (hlen : c'.clients.length = c.clients.length)
    (hst : ∀ p j, c'.standing p j = c.standing p j) (hw : c'.world = c.world)
    (herr : c'.line.err = true) : ∃ a', Reach ok a₀ a' ∧ c'.Follows a' (some (i, none)) := by
  obtain ⟨ch, hx⟩ := V.unserved a.world hi.remote
  obtain ⟨a', ha', hworld, hlength, hstands⟩ := h.reach_hear hok ha hi hx
  refine ⟨a', ha', by rw [hlength, hlen], fun j => by rw [hstands j, hst], ?_, fun he => ?_⟩
  · rw [hw, hworld]
    exact h.same
  · rw [herr] at he
    cases he

/-! ### Every step keeps it -/

theorem Exclusive.holder (h : c.Exclusive) {i : Nat} {st : Standing Y} {stage : Stage V.Wire}
    {cmd : S.Cmd} {k : S.Reply cmd → Program S Y.Out} (hi : c.At i stage st cmd k)
    (hstage : stage ≠ .out) : c.holder = some i :=
  h i _ hi.1 hstage

/-- There is one client in the lock. -/
theorem Holds.eq {i j : Nat} {st st' : Standing Y} {stage stage' : Stage V.Wire}
    {cmd cmd' : S.Cmd} {k : S.Reply cmd → Program S Y.Out} {k' : S.Reply cmd' → Program S Y.Out}
    (h : c.Holds j stage' st' cmd' k') (hholder : c.holder = some i)
    (hi : c.At i stage st cmd k) : j = i ∧ stage' = stage ∧ cmd' = cmd := by
  obtain rfl : j = i := Option.some.inj (h.holder.symm.trans hholder)
  obtain ⟨-, hstage, hcmd⟩ := h.stands.eq hi
  exact ⟨rfl, hstage, hcmd⟩

/-- What does not concern the connection. -/
theorem Sound.frame (h : Sound ok a₀ c) (hx : c'.Exclusive) (hholder : c'.holder = c.holder)
    (hline : c'.line = c.line)
    (hat : ∀ {i stage st cmd k}, stage ≠ .out → c.At i stage st cmd k →
      c'.At i stage st cmd k)
    (hfollows : ∀ p, (∀ i m, p = some (i, m) →
        ∃ stage st cmd k, stage ≠ .out ∧ c.At i stage st cmd k) →
      ∀ a, Reach ok a₀ a → c.Follows a p → ∃ a', Reach ok a₀ a' ∧ c'.Follows a' p) :
    Sound ok a₀ c' := by
  obtain ⟨ends, hstands, hbacked⟩ := h.backed
  refine ⟨hx, by rw [hline]; exact h.requests, ends, hstands.frame hholder hline hat, ?_⟩
  intro p hp
  obtain ⟨a, ha, hf⟩ := hbacked p hp
  exact hfollows p (fun i m hpe => hstands.pending (hpe ▸ hp)) a ha hf

theorem Sound.lock (h : Sound ok a₀ c) {i : Nat} {st : Standing Y} {cmd : S.Cmd}
    {k : S.Reply cmd → Program S Y.Out} (hi : c.At i .out st cmd k)
    (hremote : V.remote cmd = true) (hfree : c.holder = none) :
    Sound ok a₀ { c.put i st .locked with holder := some i } := by
  obtain ⟨ends, hstands, hbacked⟩ := h.backed
  rcases hstands.holder with ⟨-, rfl, hidle⟩ | ⟨j, stage, st', cmd', k', -, hj⟩
  · refine ⟨?_, h.requests, [none], .locked ⟨rfl, ⟨put_self hi.1, hi.2⟩, hremote⟩ hidle, ?_⟩
    · intro j cl hj hstage
      by_cases hij : i = j
      · rw [← hij]
      · have hold := h.exclusive j cl ((put_other hij).symm.trans hj) hstage
        rw [hfree] at hold
        cases hold
    · intro p hp
      obtain ⟨a, ha, hf⟩ := hbacked p hp
      exact ⟨a, ha, hf.goes_on hi.1 rfl⟩
  · exact absurd (hfree.symm.trans hj.holder) (by simp)

theorem Sound.append (hok : V.Lenient ok) (h : Sound ok a₀ c) {i : Nat} {st : Standing Y}
    {cmd : S.Cmd} {k : S.Reply cmd → Program S Y.Out} (hi : c.At i .locked st cmd k) :
    Sound ok a₀
      { c.put i st .asked with line := { c.line with obuf := c.line.obuf ++ [cmd] } } := by
  have hholder : c.holder = some i := h.exclusive.holder hi (by simp)
  have hput : (c.put i st .asked).At i .asked st cmd k := ⟨put_self hi.1, hi.2⟩
  obtain ⟨ends, hstands, hbacked⟩ := h.backed
  cases hstands with
  | free hfree =>
      rw [hfree] at hholder
      cases hholder
  | locked hl hidle =>
      obtain ⟨rfl, -, rfl⟩ := hl.eq hholder hi
      obtain ⟨a, ha, hf⟩ := hbacked none (by simp)
      by_cases herr : c.line.err = true
      · refine ⟨h.exclusive.put hholder, h.requests, _, .broken ⟨hholder, hput, hl.remote⟩
          (Or.inl rfl) hidle.1 herr, ?_⟩
        intro p hp
        rw [List.mem_singleton.mp hp]
        exact hf.lose hok ha ⟨hholder, hi, hl.remote⟩ (by simp [put]) (standing_put hi.1) rfl herr
      · have herr' : c.line.err = false := by simpa using herr
        obtain ⟨hobuf, hrequests⟩ := hidle.2 herr'
        refine ⟨h.exclusive.put hholder, h.requests, _, .unsent ⟨hholder, hput, hl.remote⟩ ?_, ?_⟩
        · simp [hobuf, hrequests, hidle.1, herr']
        · intro p hp
          rw [List.mem_singleton.mp hp]
          exact ⟨a, ha, hf.goes_on hi.1 rfl⟩
  | unsent hl => cases (hl.eq hholder hi).2.1
  | sent hl => cases (hl.eq hholder hi).2.1
  | replied hl => cases (hl.eq hholder hi).2.1
  | broken hl hstage => rcases hstage with rfl | rfl <;> cases (hl.eq hholder hi).2.1
  | told hl => cases (hl.eq hholder hi).2.1

theorem Sound.write (h : Sound ok a₀ c) {i : Nat} {st : Standing Y} {cmd : S.Cmd}
    {k : S.Reply cmd → Program S Y.Out} (hi : c.At i .asked st cmd k) (herr : c.line.err = false) :
    Sound ok a₀ { c.put i st .waiting with line :=
      { c.line with obuf := [], requests := c.line.requests ++ c.line.obuf } } := by
  have hholder : c.holder = some i := h.exclusive.holder hi (by simp)
  obtain ⟨ends, hstands, hbacked⟩ := h.backed
  cases hstands with
  | free hfree =>
      rw [hfree] at hholder
      cases hholder
  | locked hl => cases (hl.eq hholder hi).2.1
  | unsent hl hline =>
      obtain ⟨rfl, -, rfl⟩ := hl.eq hholder hi
      refine ⟨h.exclusive.put hholder, ?_, _, .sent ⟨hholder, ⟨put_self hi.1, hi.2⟩, hl.remote⟩
        (by simp [hline]), ?_⟩
      · intro cmd' hcmd'
        simp only [hline, List.nil_append, List.mem_singleton] at hcmd'
        rw [hcmd']
        exact hl.remote
      · intro p hp
        obtain ⟨a, ha, hf⟩ := hbacked p hp
        exact ⟨a, ha, hf.goes_on hi.1 rfl⟩
  | sent hl => cases (hl.eq hholder hi).2.1
  | replied hl => cases (hl.eq hholder hi).2.1
  | broken _ _ _ hfailed =>
      rw [herr] at hfailed
      cases hfailed
  | told hl => cases (hl.eq hholder hi).2.1

theorem Sound.read (h : Sound ok a₀ c) {i : Nat} {st : Standing Y} {stage : Stage V.Wire}
    {cmd : S.Cmd} {k : S.Reply cmd → Program S Y.Out} {m : V.Wire} {rest : List V.Wire}
    (hi : c.At i stage st cmd k) (hstage : stage = .asked ∨ stage = .waiting)
    (hsome : c.line.replies = m :: rest) :
    Sound ok a₀ { c.put i st (.told (some m)) with line := { c.line with replies := rest } } := by
  have hholder : c.holder = some i := h.exclusive.holder hi (reading_in hstage)
  have hbusy : c.line.Idle → False := by
    intro hidle
    rw [hidle.1] at hsome
    cases hsome
  obtain ⟨ends, hstands, hbacked⟩ := h.backed
  cases hstands with
  | free _ hidle => exact (hbusy hidle).elim
  | locked _ hidle => exact (hbusy hidle).elim
  | unsent _ hline =>
      rw [hline] at hsome
      cases hsome
  | sent _ hline =>
      rw [hline] at hsome
      cases hsome
  | replied hl hreply hquiet =>
      obtain ⟨rfl, -, rfl⟩ := hl.eq hholder hi
      rw [hsome] at hreply
      obtain ⟨rfl, rfl⟩ := List.cons.inj hreply
      refine ⟨h.exclusive.put hholder, h.requests, _,
        .told ⟨hholder, ⟨put_self hi.1, hi.2⟩, hl.remote⟩ ⟨rfl, hquiet⟩, ?_⟩
      intro p hp
      obtain ⟨a, ha, hf⟩ := hbacked p (by rw [List.mem_singleton.mp hp]; simp)
      exact ⟨a, ha, hf.goes_on hi.1 rfl⟩
  | broken _ _ hnone =>
      rw [hnone] at hsome
      cases hsome
  | told _ hidle => exact (hbusy hidle).elim

theorem Sound.giveUp (h : Sound ok a₀ c) {i : Nat} {st : Standing Y} {stage : Stage V.Wire}
    {cmd : S.Cmd} {k : S.Reply cmd → Program S Y.Out} (hi : c.At i stage st cmd k)
    (hstage : stage = .asked ∨ stage = .waiting) (hnone : c.line.replies = [])
    (herr : c.line.err = true) : Sound ok a₀ (c.put i st (.told none)) := by
  have hholder : c.holder = some i := h.exclusive.holder hi (reading_in hstage)
  obtain ⟨ends, hstands, hbacked⟩ := h.backed
  cases hstands with
  | free hfree =>
      rw [hfree] at hholder
      cases hholder
  | locked hl => rcases hstage with rfl | rfl <;> cases (hl.eq hholder hi).2.1
  | unsent _ hline =>
      rw [hline] at herr
      cases herr
  | sent _ hline =>
      rw [hline] at herr
      cases herr
  | replied _ hreply =>
      rw [hnone] at hreply
      cases hreply
  | broken hl =>
      obtain ⟨rfl, -, rfl⟩ := hl.eq hholder hi
      refine ⟨h.exclusive.put hholder, h.requests, _,
        .told ⟨hholder, ⟨put_self hi.1, hi.2⟩, hl.remote⟩ ⟨hnone, fun he => ?_⟩, ?_⟩
      · rw [show c.line.err = false from he] at herr
        cases herr
      · intro p hp
        obtain ⟨a, ha, hf⟩ := hbacked p hp
        exact ⟨a, ha, hf.goes_on hi.1 rfl⟩
  | told hl => rcases hstage with rfl | rfl <;> cases (hl.eq hholder hi).2.1

theorem Sound.unlock (h : Sound ok a₀ c) {i : Nat} {st : Standing Y} {cmd : S.Cmd}
    {k : S.Reply cmd → Program S Y.Out} {m : Option V.Wire} (hi : c.At i (.told m) st cmd k) :
    Sound ok a₀ { c.put i ⟨st.req, k (V.reading cmd m),
      st.answers ++ [⟨cmd, V.reading cmd m⟩]⟩ .out with holder := none } := by
  have hholder : c.holder = some i := h.exclusive.holder hi (by simp)
  obtain ⟨ends, hstands, hbacked⟩ := h.backed
  cases hstands with
  | free hfree =>
      rw [hfree] at hholder
      cases hholder
  | locked hl => cases (hl.eq hholder hi).2.1
  | unsent hl => cases (hl.eq hholder hi).2.1
  | sent hl => cases (hl.eq hholder hi).2.1
  | replied hl => cases (hl.eq hholder hi).2.1
  | broken hl hstage => rcases hstage with rfl | rfl <;> cases (hl.eq hholder hi).2.1
  | @told n _ _ _ _ hl hidle =>
      obtain ⟨rfl, hstage, rfl⟩ := hl.eq hholder hi
      obtain rfl := Stage.told.inj hstage
      refine ⟨?_, h.requests, _, .free rfl hidle, ?_⟩
      · intro j cl hj hout
        by_cases hij : n = j
        · subst hij
          obtain rfl := Option.some.inj ((put_self hi.1).symm.trans hj)
          exact absurd rfl hout
        · have hold := h.exclusive j cl ((put_other hij).symm.trans hj) hout
          exact absurd (Option.some.inj (hholder.symm.trans hold)) hij
      · intro p hp
        rw [List.mem_singleton.mp hp]
        obtain ⟨a, ha, hf⟩ := hbacked _ (List.mem_singleton_self _)
        refine ⟨a, ha, hf.stutter (by simp [put]) (fun j => ?_) rfl fun he => he⟩
        unfold standing
        by_cases hij : n = j
        · subst hij
          rw [show ({ c.put n _ .out with holder := none } : Wired V).clients[n]? = _ from
            put_self hi.1, hi.1]
          simp [Standing.hear_call hi.2]
        · rw [show ({ c.put n _ .out with holder := none } : Wired V).clients[j]? = _ from
            put_other hij]
          simp [hij]

/-- The service runs the command of the call that waits: the system answers it, and there are
two ends. -/
theorem Sound.serve_open (hok : V.Lenient ok) (h : Sound ok a₀ c) {ch : Y.Choice} {cmd : S.Cmd}
    {rest : List S.Cmd} {m : V.Wire} {w : Y.World} (hreq : c.line.requests = cmd :: rest)
    (hx : V.serve c.world cmd ch = some (m, w)) (herr : c.line.err = false) :
    Sound ok a₀ { c with
      world := w
      line := { c.line with requests := rest, replies := c.line.replies ++ [m] } } := by
  obtain ⟨ends, hstands, hbacked⟩ := h.backed
  have hbusy : c.line.Idle → False := by
    intro hidle
    rw [(hidle.2 herr).2] at hreq
    cases hreq
  cases hstands with
  | free _ hidle => exact (hbusy hidle).elim
  | locked _ hidle => exact (hbusy hidle).elim
  | unsent _ hline =>
      rw [hline] at hreq
      cases hreq
  | @sent i st cmd' k hl hline =>
      rw [hline] at hreq
      obtain ⟨rfl, rfl⟩ := List.cons.inj hreq
      obtain ⟨a, ha, hf⟩ := hbacked none (by simp)
      have hends : ∀ (m' : Option V.Wire) (ch' : Y.Choice),
          Y.exec a.world cmd' ch' = some (V.reading cmd' m', w) →
          ∃ a', Reach ok a₀ a' ∧ ({ c with
            world := w
            line := { c.line with requests := [], replies := c.line.replies ++ [m] } } :
              Wired V).Follows a' (some (i, m')) := by
        intro m' ch' hx'
        obtain ⟨a', ha', hworld, hlength, hst⟩ := hf.reach_hear hok ha hl hx'
        exact ⟨a', ha', hlength, hst, by rw [hworld]; exact V.same_refl w, fun _ => hworld.symm⟩
      rw [hf.exact herr] at hx
      refine ⟨h.exclusive, by simp, _, .replied (m := m) ⟨hl.holder, hl.stands, hl.remote⟩
        (by simp [hline]) (fun _ => by simp [hline]), ?_⟩
      intro p hp
      rcases List.mem_cons.mp hp with rfl | hp
      · exact hends (some m) ch (V.answered hl.remote hx)
      · rw [List.mem_singleton.mp hp]
        obtain ⟨ch', hx'⟩ := V.unheard hl.remote hx
        exact hends none ch' hx'
  | replied _ _ hquiet =>
      rw [(hquiet herr).2] at hreq
      cases hreq
  | broken _ _ _ hfailed =>
      rw [herr] at hfailed
      cases hfailed
  | told _ hidle => exact (hbusy hidle).elim

/-- It runs a command after the connection has failed: no client will see it. -/
theorem Sound.serve_failed (h : Sound ok a₀ c) {ch : Y.Choice} {cmd : S.Cmd}
    {rest : List S.Cmd} {m : V.Wire} {w : Y.World} (hreq : c.line.requests = cmd :: rest)
    (hx : V.serve c.world cmd ch = some (m, w)) (herr : c.line.err = true) :
    Sound ok a₀ { c with world := w, line := { c.line with requests := rest } } := by
  obtain ⟨ends, hstands, hbacked⟩ := h.backed
  have hremote : V.remote cmd = true := h.requests cmd (by rw [hreq]; simp)
  have hopen : ∀ {P : Prop}, c.line.err = false → P := by
    intro P he
    rw [herr] at he
    cases he
  have hidle : c.line.Idle → ({ c.line with requests := rest } : Connection V).Idle :=
    fun hi => ⟨hi.1, fun he => hopen he⟩
  have hbacked' : ∀ p ∈ ends, ∃ a, Reach ok a₀ a ∧
      ({ c with world := w, line := { c.line with requests := rest } } : Wired V).Follows a p := by
    intro p hp
    obtain ⟨a, ha, hf⟩ := hbacked p hp
    exact ⟨a, ha, hf.length, hf.stands, V.same_serve hremote hx hf.same, fun he => hopen he⟩
  have hrequests : ∀ cmd' ∈ rest, V.remote cmd' = true := fun cmd' hmem =>
    h.requests cmd' (by rw [hreq]; exact List.mem_cons_of_mem _ hmem)
  refine ⟨h.exclusive, hrequests, ends, ?_, hbacked'⟩
  cases hstands with
  | free hfree hi => exact .free hfree (hidle hi)
  | locked hl hi => exact .locked ⟨hl.holder, hl.stands, hl.remote⟩ (hidle hi)
  | unsent _ hline => exact hopen (by rw [hline])
  | sent _ hline => exact hopen (by rw [hline])
  | replied hl hreply =>
      exact .replied ⟨hl.holder, hl.stands, hl.remote⟩ hreply fun he => hopen he
  | broken hl hstage hnone =>
      exact .broken ⟨hl.holder, hl.stands, hl.remote⟩ hstage hnone herr
  | told hl hi => exact .told ⟨hl.holder, hl.stands, hl.remote⟩ (hidle hi)

theorem Sound.fail (hok : V.Lenient ok) (h : Sound ok a₀ c) (kept : Nat) :
    Sound ok a₀
      { c with line := { c.line with replies := c.line.replies.take kept, err := true } } := by
  obtain ⟨ends, hstands, hbacked⟩ := h.backed
  have hkeep : ∀ p ∈ ends, ∃ a, Reach ok a₀ a ∧ ({ c with
      line := { c.line with replies := c.line.replies.take kept, err := true } } :
        Wired V).Follows a p := by
    intro p hp
    obtain ⟨a, ha, hf⟩ := hbacked p hp
    exact ⟨a, ha, hf.stutter rfl (fun _ => rfl) rfl fun he => by cases he⟩
  have hidle : c.line.Idle → ({ c.line with
      replies := c.line.replies.take kept, err := true } : Connection V).Idle :=
    fun hi => ⟨by simp [hi.1], fun he => by cases he⟩
  have hlost : ∀ {i : Nat} {stage : Stage V.Wire} {st : Standing Y} {cmd : S.Cmd}
      {k : S.Reply cmd → Program S Y.Out}, c.Holds i stage st cmd k →
      stage = .asked ∨ stage = .waiting → ends = [none] → c.line.replies = [] →
      Sound ok a₀ { c with
        line := { c.line with replies := c.line.replies.take kept, err := true } } := by
    intro i stage st cmd k hl hstage hends hnone
    obtain ⟨a, ha, hf⟩ := hbacked none (by rw [hends]; simp)
    refine ⟨h.exclusive, h.requests, _, .broken ⟨hl.holder, hl.stands, hl.remote⟩ hstage
      (by simp [hnone]) rfl, ?_⟩
    intro p hp
    rw [List.mem_singleton.mp hp]
    exact hf.lose hok ha hl rfl (fun _ _ => rfl) rfl rfl
  cases hstands with
  | free hfree hi => exact ⟨h.exclusive, h.requests, _, .free hfree (hidle hi), hkeep⟩
  | locked hl hi =>
      exact ⟨h.exclusive, h.requests, _, .locked ⟨hl.holder, hl.stands, hl.remote⟩ (hidle hi),
        hkeep⟩
  | unsent hl hline => exact hlost hl (Or.inl rfl) rfl (by rw [hline])
  | sent hl hline => exact hlost hl (Or.inr rfl) rfl (by rw [hline])
  | replied hl hreply =>
      by_cases hkept : kept = 0
      · refine ⟨h.exclusive, h.requests, _, .broken ⟨hl.holder, hl.stands, hl.remote⟩
          (Or.inr rfl) (by simp [hkept]) rfl, ?_⟩
        intro p hp
        exact hkeep p (by rw [List.mem_singleton.mp hp]; simp)
      · have htake : c.line.replies.take kept = c.line.replies := by
          rw [hreply]
          exact List.take_of_length_le (by simp; omega)
        exact ⟨h.exclusive, h.requests, _, .replied ⟨hl.holder, hl.stands, hl.remote⟩
          (by rw [htake, hreply]) (fun he => by cases he), hkeep⟩
  | broken hl hstage hnone =>
      exact ⟨h.exclusive, h.requests, _, .broken ⟨hl.holder, hl.stands, hl.remote⟩ hstage
        (by simp [hnone]) rfl, hkeep⟩
  | told hl hi =>
      exact ⟨h.exclusive, h.requests, _, .told ⟨hl.holder, hl.stands, hl.remote⟩ (hidle hi), hkeep⟩

/-- **One step.** -/
theorem Sound.next (hok : V.Lenient ok) (h : Sound ok a₀ c) {s : Act Y}
    (hs : V.Allows ok a₀ c s) (hn : c.next s = some c') : Sound ok a₀ c' := by
  cases change_of_next hn with
  | move hm =>
      refine h.frame h.exclusive rfl rfl (fun _ hat => hat) fun p _ a ha hf => ?_
      obtain ⟨a', hnext, hf'⟩ := hf.move hm
      exact ⟨a', ha.tail (hs a p ha hf) hnext, hf'⟩
  | start r =>
      refine h.frame ?_ rfl rfl ?_ fun p hp a ha hf => ?_
      · intro i cl hi hstage
        by_cases hold : i < c.clients.length
        · rw [List.getElem?_append_left hold] at hi
          exact h.exclusive i cl hi hstage
        · rw [List.getElem?_append_right (Nat.le_of_not_lt hold)] at hi
          obtain rfl := List.mem_singleton.mp (List.mem_of_getElem? hi)
          exact absurd rfl hstage
      · intro i stage st cmd k _ hat
        refine ⟨?_, hat.2⟩
        rw [List.getElem?_append_left (List.getElem?_eq_some_iff.mp hat.1).1]
        exact hat.1
      · obtain ⟨a', hnext, hf'⟩ := hf.start r fun i m hpe => by
          obtain ⟨_, _, _, _, -, hat⟩ := hp i m hpe
          exact (List.getElem?_eq_some_iff.mp hat.1).1
        exact ⟨a', ha.tail (hs a p ha hf) hnext, hf'⟩
  | @own i ch st cmd k r w hi hown hx =>
      refine h.frame ?_ rfl rfl ?_ fun p hp a ha hf => ?_
      · intro j cl hj hstage
        by_cases hij : i = j
        · subst hij
          obtain rfl := Option.some.inj ((put_self hi.1).symm.trans hj)
          exact absurd rfl hstage
        · exact h.exclusive j cl ((put_other hij).symm.trans hj) hstage
      · intro j stage st' cmd' k' hstage hat
        have hij : i ≠ j := by
          intro hij
          subst hij
          exact hstage (hat.eq hi).2.1
        exact ⟨(put_other hij).trans hat.1, hat.2⟩
      · obtain ⟨a', hnext, hf'⟩ := hf.own hi hown hx fun m hpe => by
          obtain ⟨stage, _, _, _, hstage, hat⟩ := hp i m hpe
          exact hstage (hat.eq hi).2.1
        exact ⟨a', ha.tail (hs a p ha hf) hnext, hf'⟩
  | lock hi hremote hfree => exact h.lock hi hremote hfree
  | append hi => exact h.append hok hi
  | write hi _ herr => exact h.write hi herr
  | read hi hstage hsome => exact h.read hi hstage hsome
  | giveUp hi hstage hnone herr => exact h.giveUp hi hstage hnone herr
  | unlock hi => exact h.unlock hi
  | serve hreq hx =>
      by_cases herr : c.line.err = true
      · rw [if_pos herr]
        exact h.serve_failed hreq hx herr
      · rw [if_neg herr]
        exact h.serve_open hok hreq hx (by simpa using herr)
  | fail kept => exact h.fail hok kept

/-- The clients stand where the system does. -/
theorem Follows.of (V : Service Y) (a : Config Y) : (Wired.of V a).Follows a none where
  length := by simp [Wired.of]
  stands := fun j => by simp [Wired.standing, Wired.of, Function.comp_def]
  same := V.same_refl _
  exact := fun _ => rfl

theorem Sound.of (V : Service Y) (ok : Config Y → Step Y → Prop) (a : Config Y) :
    Sound ok a (Wired.of V a) where
  exclusive := by
    intro i cl hi hstage
    simp only [Wired.of, List.getElem?_map, Option.map_eq_some_iff] at hi
    obtain ⟨th, -, rfl⟩ := hi
    exact absurd rfl hstage
  requests := by simp [Wired.of]
  backed := ⟨[none], .free rfl ⟨rfl, fun _ => ⟨rfl, rfl⟩⟩, fun p hp => by
    rw [List.mem_singleton.mp hp]
    exact ⟨a, .refl a, Follows.of V a⟩⟩

theorem Run.sound (hok : V.Lenient ok) {n : Nat} (h : Run (V.Allows ok a) (Wired.of V a) n c) :
    Sound ok a c := by
  induction h with
  | refl => exact Sound.of V ok a
  | tail _ hs hn ih => exact ih.next hok hs hn

/-- Where the thread of a client is. -/
theorem Follows.client (h : c.Follows a p) {i : Nat} {cl : Client V}
    (hi : c.clients[i]? = some cl) :
    ∃ th, a.threads[i]? = some th ∧
      (th.standing = cl.toStanding ∨ ∃ m, th.standing = cl.toStanding.hear V m) := by
  have hst := h.stands i
  unfold standing at hst
  rw [hi, Option.map_some] at hst
  obtain ⟨th, hth, heq⟩ := Option.map_eq_some_iff.mp hst
  refine ⟨th, hth, ?_⟩
  rcases p with _ | ⟨j, m⟩
  · exact Or.inl heq
  · by_cases hji : j = i
    · exact Or.inr ⟨m, by simpa [hji] using heq⟩
    · exact Or.inl (by simpa [hji] using heq)

/-- **Calls are atomic.**  What the clients have been answered they are answered in a run of the
system: its threads have the answers of the clients, and a client that is done stands where its
thread does; as long as the connection has not failed the worlds are the same. -/
theorem Run.follows (hok : V.Lenient ok) {n : Nat} (h : Run (V.Allows ok a) (Wired.of V a) n c) :
    ∃ b, Reach ok a b ∧ b.threads.length = c.clients.length ∧ V.Same c.world b.world ∧
      (c.line.err = false → c.world = b.world) ∧
      ∀ (i : Nat) cl, c.clients[i]? = some cl → ∃ th, b.threads[i]? = some th ∧
        th.req = cl.req ∧ cl.answers <+: th.standing.answers ∧
        (cl.rest.Done → th.standing = cl.toStanding) := by
  have hsound := h.sound hok
  obtain ⟨ends, hstands, hbacked⟩ := hsound.backed
  obtain ⟨p, hp⟩ : ∃ p, p ∈ ends := by
    cases hstands <;> exact ⟨_, List.mem_cons_self⟩
  obtain ⟨b, hb, hf⟩ := hbacked p hp
  refine ⟨b, hb, hf.length, hf.same, hf.exact, fun i cl hi => ?_⟩
  obtain ⟨th, hth, hst | ⟨m, hst⟩⟩ := hf.client hi
  · refine ⟨th, hth, congrArg Standing.req hst, ?_, fun _ => hst⟩
    have hanswers : th.standing.answers = cl.answers := congrArg Standing.answers hst
    exact hanswers ▸ List.prefix_refl _
  · refine ⟨th, hth, ?_, ?_, fun hd => ?_⟩
    · exact (congrArg Standing.req hst).trans (Standing.hear_req m _)
    · rw [hst]
      exact Standing.answers_hear m _
    · rw [hst, Standing.hear_done hd]

end Wired

end Concurrent
