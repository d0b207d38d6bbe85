/-
Calls over one connection.

In a system a command happens at a stroke.  A program that asks a service over a connection
takes several statements for it: it takes a lock, puts the command into its output buffer,
writes the buffer to the socket, reads the first reply there is and gives the lock back.  A
reply does not say what it answers, other threads run in between, and the connection may fail
at any moment, before or after the service has run what was sent.

Here are the service, the connection, the statements of a call, and everything a step can do.
-/
import PqcApi.Concurrent.System

namespace Concurrent

variable {S : Signature} {Y : System S}

/-! ### A service at the other end -/

/-- A service that runs some of the commands and answers over a connection. -/
structure Service (Y : System S) where
  /-- A reply on its way. -/
  Wire : Type
  remote : S.Cmd → Bool
  /-- The service runs a command and sends its reply. -/
  serve : Y.World → S.Cmd → Y.Choice → Option (Wire × Y.World)
  /-- What a call returns when it has read a reply, and when there is none. -/
  reading : (c : S.Cmd) → Option Wire → S.Reply c
  /-- The worlds are the same but for what the service keeps. -/
  Same : Y.World → Y.World → Prop
  answered : ∀ {w w' c ch m}, remote c = true → serve w c ch = some (m, w') →
    Y.exec w c ch = some (reading c (some m), w')
  unheard : ∀ {w w' c ch m}, remote c = true → serve w c ch = some (m, w') →
    ∃ ch', Y.exec w c ch' = some (reading c none, w')
  unserved : ∀ w {c}, remote c = true → ∃ ch, Y.exec w c ch = some (reading c none, w)
  same_refl : ∀ w, Same w w
  same_serve : ∀ {w w' v c ch m}, remote c = true → serve w c ch = some (m, w') → Same w v →
    Same w' v
  same_exec : ∀ {w w' v c ch r}, remote c = false → Y.exec w c ch = some (r, w') → Same w v →
    ∃ v', Y.exec v c ch = some (r, v') ∧ Same w' v'
  same_move : ∀ {w w' v m}, Y.move w m = some w' → Same w v →
    ∃ v', Y.move v m = some v' ∧ Same w' v'

/-- An answered command. -/
abbrev Answered (S : Signature) : Type := (c : S.Cmd) × S.Reply c

/-- What a request has been answered so far, and what is left of its program. -/
structure Standing (Y : System S) where
  req : Y.Req
  rest : Program S Y.Out
  answers : List (Answered S)

def Event.answer {M : Machine S} (e : Event M) : Answered S :=
  ⟨e.cmd, e.reply⟩

def Thread.standing (th : Thread Y) : Standing Y :=
  ⟨th.req, th.rest, th.log.map Event.answer⟩

/-- How far a client is in a call. -/
inductive Stage (Wire : Type)
  | out
  /-- It has the lock. -/
  | locked
  /-- It has put its command into the output buffer. -/
  | asked
  /-- It has written the output buffer to the socket. -/
  | waiting
  /-- It has read a reply, or found that there will be none. -/
  | told (reply : Option Wire)

/-- One request being served. -/
structure Client (V : Service Y) extends Standing Y where
  stage : Stage V.Wire

/-- The connection. -/
structure Connection (V : Service Y) where
  /-- What has not been written yet. -/
  obuf : List S.Cmd
  /-- What the service has not run yet. -/
  requests : List S.Cmd
  /-- What has not been read yet. -/
  replies : List V.Wire
  /-- The connection has failed, and stays so. -/
  err : Bool

/-- The shared world, every request ever started, who has the lock, and the connection. -/
structure Wired (V : Service Y) where
  world : Y.World
  clients : List (Client V)
  holder : Option Nat
  line : Connection V

/-- The statements of a call. -/
inductive Stmt
  | lock
  | append
  | write
  | read
  | unlock

/-- What can happen next. -/
inductive Act (Y : System S)
  | move (m : Y.Move)
  | start (r : Y.Req)
  /-- A command that is not for the service. -/
  | own (i : Nat) (ch : Y.Choice)
  | call (i : Nat) (s : Stmt)
  | serve (ch : Y.Choice)
  /-- The connection fails; the first few replies have arrived. -/
  | fail (kept : Nat)

/-- The statements the clients and the service execute in a step. -/
def Act.statements : Act Y → Nat
  | .own _ _ => 1
  | .call _ _ => 1
  | .serve _ => 1
  | _ => 0

variable {V : Service Y}

namespace Wired

/-- Every request of the system as it stands, and a new connection. -/
def of (V : Service Y) (a : Config Y) : Wired V :=
  ⟨a.world, a.threads.map fun th => ⟨th.standing, .out⟩, none, ⟨[], [], [], false⟩⟩

def put (c : Wired V) (i : Nat) (st : Standing Y) (stage : Stage V.Wire) : Wired V :=
  { c with clients := c.clients.set i ⟨st, stage⟩ }

/-- The first reply there is. -/
def takeReply (c : Wired V) (i : Nat) (st : Standing Y) : Option (Wired V) :=
  match c.line.replies with
  | m :: rest => some { c.put i st (.told (some m)) with line := { c.line with replies := rest } }
  | [] => none

/-- Let client `i`, which stands at the command `cmd`, execute a statement of its call. -/
def statement (c : Wired V) (i : Nat) (st : Standing Y) (cmd : S.Cmd)
    (k : S.Reply cmd → Program S Y.Out) : Stage V.Wire → Stmt → Option (Wired V)
  | .out, .lock =>
      if V.remote cmd = true ∧ c.holder = none then
        some { c.put i st .locked with holder := some i }
      else none
  | .locked, .append =>
      some { c.put i st .asked with line := { c.line with obuf := c.line.obuf ++ [cmd] } }
  -- a reply that is there already is read first
  | .asked, .read => c.takeReply i st
  | .asked, .write =>
      if c.line.replies = [] then
        if c.line.err = true then some (c.put i st (.told none))
        else some { c.put i st .waiting with line :=
          { c.line with obuf := [], requests := c.line.requests ++ c.line.obuf } }
      else none
  | .waiting, .read =>
      if c.line.replies = [] ∧ c.line.err = true then some (c.put i st (.told none))
      else c.takeReply i st
  | .told m, .unlock =>
      some { c.put i ⟨st.req, k (V.reading cmd m), st.answers ++ [⟨cmd, V.reading cmd m⟩]⟩ .out with
        holder := none }
  | _, _ => none

/-- What a step leads to, if it can be taken. -/
def next (c : Wired V) : Act Y → Option (Wired V)
  | .move m => (Y.move c.world m).map fun w => { c with world := w }
  | .start r => some { c with clients := c.clients ++ [⟨⟨r, Y.program r, []⟩, .out⟩] }
  | .own i ch =>
      match c.clients[i]? with
      | some ⟨⟨req, .call cmd k, answers⟩, .out⟩ =>
          if V.remote cmd = true then none
          else (Y.exec c.world cmd ch).map fun a =>
            { c.put i ⟨req, k a.1, answers ++ [⟨cmd, a.1⟩]⟩ .out with world := a.2 }
      | _ => none
  | .call i s =>
      match c.clients[i]? with
      | some ⟨⟨req, .call cmd k, answers⟩, stage⟩ =>
          c.statement i ⟨req, .call cmd k, answers⟩ cmd k stage s
      | _ => none
  | .serve ch =>
      match c.line.requests with
      | cmd :: rest => (V.serve c.world cmd ch).map fun a =>
          { c with
            world := a.2
            line := { c.line with
              requests := rest
              replies := if c.line.err = true then c.line.replies else c.line.replies ++ [a.1] } }
      | [] => none
  | .fail kept =>
      some { c with line := { c.line with replies := c.line.replies.take kept, err := true } }

/-- A client stands at a command. -/
def At (c : Wired V) (i : Nat) (stage : Stage V.Wire) (st : Standing Y) (cmd : S.Cmd)
    (k : S.Reply cmd → Program S Y.Out) : Prop :=
  c.clients[i]? = some ⟨st, stage⟩ ∧ st.rest = .call cmd k

/-- Everything a step can do. -/
inductive Change (c : Wired V) : Act Y → Wired V → Prop
  | move {m : Y.Move} {w : Y.World} (h : Y.move c.world m = some w) :
      Change c (.move m) { c with world := w }
  | start (r : Y.Req) :
      Change c (.start r) { c with clients := c.clients ++ [⟨⟨r, Y.program r, []⟩, .out⟩] }
  | own {i : Nat} {ch : Y.Choice} {st : Standing Y} {cmd : S.Cmd}
      {k : S.Reply cmd → Program S Y.Out} {r : S.Reply cmd} {w : Y.World}
      (hi : c.At i .out st cmd k) (hown : V.remote cmd = false)
      (hx : Y.exec c.world cmd ch = some (r, w)) :
      Change c (.own i ch)
        { c.put i ⟨st.req, k r, st.answers ++ [⟨cmd, r⟩]⟩ .out with world := w }
  | lock {i : Nat} {st : Standing Y} {cmd : S.Cmd} {k : S.Reply cmd → Program S Y.Out}
      (hi : c.At i .out st cmd k) (hremote : V.remote cmd = true) (hfree : c.holder = none) :
      Change c (.call i .lock) { c.put i st .locked with holder := some i }
  | append {i : Nat} {st : Standing Y} {cmd : S.Cmd} {k : S.Reply cmd → Program S Y.Out}
      (hi : c.At i .locked st cmd k) :
      Change c (.call i .append)
        { c.put i st .asked with line := { c.line with obuf := c.line.obuf ++ [cmd] } }
  | write {i : Nat} {st : Standing Y} {cmd : S.Cmd} {k : S.Reply cmd → Program S Y.Out}
      (hi : c.At i .asked st cmd k) (hnone : c.line.replies = []) (herr : c.line.err = false) :
      Change c (.call i .write)
        { c.put i st .waiting with line :=
          { c.line with obuf := [], requests := c.line.requests ++ c.line.obuf } }
  | read {i : Nat} {st : Standing Y} {cmd : S.Cmd} {k : S.Reply cmd → Program S Y.Out}
      {stage : Stage V.Wire} {m : V.Wire} {rest : List V.Wire} (hi : c.At i stage st cmd k)
      (hstage : stage = .asked ∨ stage = .waiting) (hsome : c.line.replies = m :: rest) :
      Change c (.call i .read)
        { c.put i st (.told (some m)) with line := { c.line with replies := rest } }
  | giveUp {i : Nat} {st : Standing Y} {cmd : S.Cmd} {k : S.Reply cmd → Program S Y.Out}
      {stage : Stage V.Wire} {s : Stmt} (hi : c.At i stage st cmd k)
      (hstage : stage = .asked ∨ stage = .waiting) (hnone : c.line.replies = [])
      (herr : c.line.err = true) : Change c (.call i s) (c.put i st (.told none))
  | unlock {i : Nat} {st : Standing Y} {cmd : S.Cmd} {k : S.Reply cmd → Program S Y.Out}
      {m : Option V.Wire} (hi : c.At i (.told m) st cmd k) :
      Change c (.call i .unlock)
        { c.put i ⟨st.req, k (V.reading cmd m), st.answers ++ [⟨cmd, V.reading cmd m⟩]⟩ .out with
          holder := none }
  | serve {ch : Y.Choice} {cmd : S.Cmd} {rest : List S.Cmd} {m : V.Wire} {w : Y.World}
      (hreq : c.line.requests = cmd :: rest) (hx : V.serve c.world cmd ch = some (m, w)) :
      Change c (.serve ch)
        { c with
          world := w
          line := { c.line with
            requests := rest
            replies := if c.line.err = true then c.line.replies else c.line.replies ++ [m] } }
  | fail (kept : Nat) :
      Change c (.fail kept)
        { c with line := { c.line with replies := c.line.replies.take kept, err := true } }

theorem change_of_takeReply {c c' : Wired V} {i : Nat} {st : Standing Y} {cmd : S.Cmd}
    {k : S.Reply cmd → Program S Y.Out} {stage : Stage V.Wire} (hi : c.At i stage st cmd k)
    (hstage : stage = .asked ∨ stage = .waiting) (h : c.takeReply i st = some c') :
    c.Change (.call i .read) c' := by
  unfold takeReply at h
  split at h
  · rename_i m rest hsome
    obtain rfl := Option.some.inj h
    exact .read hi hstage hsome
  · cases h

theorem change_of_statement {c c' : Wired V} {i : Nat} {st : Standing Y} {cmd : S.Cmd}
    {k : S.Reply cmd → Program S Y.Out} {stage : Stage V.Wire} {s : Stmt}
    (hi : c.At i stage st cmd k) (h : c.statement i st cmd k stage s = some c') :
    c.Change (.call i s) c' := by
  unfold statement at h
  split at h
  · split at h
    · rename_i hlock
      obtain rfl := Option.some.inj h
      exact .lock hi hlock.1 hlock.2
    · cases h
  · obtain rfl := Option.some.inj h
    exact .append hi
  · exact change_of_takeReply hi (Or.inl rfl) h
  · split at h
    · rename_i hnone
      split at h
      · rename_i herr
        obtain rfl := Option.some.inj h
        exact .giveUp hi (Or.inl rfl) hnone herr
      · rename_i herr
        obtain rfl := Option.some.inj h
        exact .write hi hnone (by simpa using herr)
    · cases h
  · split at h
    · rename_i hfailed
      obtain rfl := Option.some.inj h
      exact .giveUp hi (Or.inr rfl) hfailed.1 hfailed.2
    · exact change_of_takeReply hi (Or.inr rfl) h
  · obtain rfl := Option.some.inj h
    exact .unlock hi
  · cases h

theorem change_of_next {c c' : Wired V} {s : Act Y} (h : c.next s = some c') : c.Change s c' := by
  cases s with
  | move m =>
      obtain ⟨w, hw, rfl⟩ := Option.map_eq_some_iff.mp h
      exact .move hw
  | start r =>
      obtain rfl := Option.some.inj h
      exact .start r
  | own i ch =>
      simp only [next] at h
      split at h
      · rename_i req cmd k answers hi
        by_cases hremote : V.remote cmd = true
        · rw [if_pos hremote] at h
          cases h
        · rw [if_neg hremote] at h
          obtain ⟨⟨r, w⟩, hx, rfl⟩ := Option.map_eq_some_iff.mp h
          exact .own (k := k) ⟨hi, rfl⟩ (Bool.not_eq_true _ ▸ hremote) hx
      · cases h
  | call i s =>
      simp only [next] at h
      split at h
      · rename_i req cmd k answers stage hi
        exact change_of_statement ⟨hi, rfl⟩ h
      · cases h
  | serve ch =>
      simp only [next] at h
      split at h
      · rename_i cmd rest hreq
        obtain ⟨⟨m, w⟩, hx, rfl⟩ := Option.map_eq_some_iff.mp h
        exact .serve hreq hx
      · cases h
  | fail kept =>
      obtain rfl := Option.some.inj h
      exact .fail kept

/-! ### Runs -/

/-- `Run ok b n c`: some run whose steps all satisfy `ok` leads from `b` to `c`, and the clients
and the service execute `n` statements in it. -/
inductive Run (ok : Wired V → Act Y → Prop) (b : Wired V) : Nat → Wired V → Prop
  | refl : Run ok b 0 b
  | tail {n : Nat} {c d : Wired V} {s : Act Y} (h : Run ok b n c) (hok : ok c s)
      (hs : c.next s = some d) : Run ok b (n + s.statements) d

end Wired

end Concurrent
