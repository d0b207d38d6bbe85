/-
The services the server talks to, as one machine.

The clock, the random source, Redis, PostgreSQL and the signing routine answer
commands, and each answer is the environment's choice: the command may be done, be
refused with an error reply, be lost with or without having run, or throw.  On its
own the environment lets time pass, drops Redis keys (expiry or eviction) and uses
up sequence values.

Times are elements of any ordered field with a floor, so the rationals serve for
evaluation and the reals for the statements about arbitrary instants.
-/
import PqcApi.Concurrent.System
import PqcApi.Libraries
import PqcApi.Persistence.Tables

namespace PqcApi

open Concurrent

/-! ### Commands -/

/-- `redisReply`, by its type. -/
inductive RedisReply
  | status
  | error
  | string (s : Bytes)
  | integer (n : Int)
  | nil
  deriving DecidableEq

/-- What the code throws, by what a handler can tell apart. -/
inductive Exn
  | query
  | json
  | runtime (what : String)
  | invalidArgument (what : String)
  | outOfRange
  deriving DecidableEq

/-- One call to a service. -/
inductive Cmd
  /-- `std::chrono::system_clock::now()` -/
  | now
  /-- `randombytes_buf` of 32 bytes -/
  | randombytes
  /-- `crypto_pwhash_str` -/
  | pwhash (password : Bytes)
  | setex (key : Bytes) (ttl : Int) (value : Bytes)
  | get (key : Bytes)
  | del (key : Bytes)
  /-- `SELECT ... FROM users WHERE username = $1` -/
  | userByName (username : Bytes)
  /-- `INSERT INTO users ... ON CONFLICT (username) DO NOTHING` -/
  | insertUser (username passwordHash : Bytes)
  /-- `INSERT INTO documents ... RETURNING id` -/
  | insertDocument (userId : Int) (filename pdf sig sha : Bytes)
  /-- `SELECT ... FROM documents WHERE id = $1` -/
  | documentById (id : Int)
  /-- `SELECT ... FROM documents WHERE user_id = $1 ORDER BY signed_at DESC` -/
  | documentsByUser (userId : Int)
  /-- `SELECT pdf_data FROM documents WHERE id = $1` -/
  | pdfData (id : Int)
  /-- `SELECT 1 FROM documents WHERE id = $1 AND user_id = $2` -/
  | ownedBy (docId userId : Int)
  /-- `DELETE FROM documents WHERE id = $1 RETURNING id` -/
  | deleteDocument (id : Int)
  /-- `EVP_DigestSign` -/
  | digestSign (key : PKey) (data : Bytes)

/-- What a call gives back.  `none` stands for a null reply from hiredis, and for an
exception from libpqxx, OpenSSL or libsodium. -/
abbrev Reply (τ : Type) : Cmd → Type
  | .now => τ
  | .randombytes => Bytes
  | .pwhash _ => Option Bytes
  | .setex .. => Option RedisReply
  | .get _ => Option RedisReply
  | .del _ => Option RedisReply
  | .userByName _ => Option (Option User)
  | .insertUser .. => Option Unit
  | .insertDocument .. => Option Int
  | .documentById _ => Option (Option Document)
  | .documentsByUser _ => Option (List Document)
  | .pdfData _ => Option (Option Bytes)
  | .ownedBy .. => Option Bool
  | .deleteDocument _ => Option Bool
  | .digestSign .. => Option Bytes

/-- The services' signature. -/
abbrev services (τ : Type) : Signature := ⟨Cmd, Reply τ, Exn⟩

/-- A function of the server. -/
abbrev Action (τ α : Type) := Program (services τ) α

/-- Call a service. -/
def ask {τ : Type} (c : Cmd) : Action τ (Reply τ c) := Program.perform (S := services τ) c

/-! ### The world -/

/-- A Redis value and the millisecond at which it expires. -/
structure Entry where
  value : Bytes
  expireMs : Int
  deriving DecidableEq

/-- The state of all services. -/
structure World (τ : Type) where
  now : τ
  redis : Bytes → Option Entry
  users : UsersTable
  docs : DocsTable

/-- What becomes of one call. -/
inductive Choice
  /-- The service does it and the answer arrives. -/
  | done
  /-- Redis answers with an error and does nothing. -/
  | refused
  /-- No answer arrives from Redis, which may have run the command. -/
  | lost (ran : Bool)
  /-- The library throws; nothing has been committed. -/
  | threw
  /-- The call draws these random bytes. -/
  | random (bytes : Bytes)
  deriving DecidableEq

/-- What the environment does by itself. -/
inductive Move (τ : Type)
  | tick (d : τ)
  | drop (key : Bytes)
  | burnUser
  | burnDocument

variable {τ : Type}

/-- Write or remove a Redis key. -/
def World.put (w : World τ) (key : Bytes) (e : Option Entry) : World τ :=
  { w with redis := fun k => if k = key then e else w.redis k }

@[simp] theorem put_users (w : World τ) (key : Bytes) (e : Option Entry) :
    (w.put key e).users = w.users := rfl

@[simp] theorem put_docs (w : World τ) (key : Bytes) (e : Option Entry) :
    (w.put key e).docs = w.docs := rfl

theorem put_self (w : World τ) (key : Bytes) (e : Option Entry) : (w.put key e).redis key = e :=
  if_pos rfl

theorem put_other (w : World τ) {key k : Bytes} (e : Option Entry) (h : k ≠ key) :
    (w.put key e).redis k = w.redis k :=
  if_neg h

/-! ### Answers under the environment's choice -/

/-- A Redis command that would answer `reply` and leave `ran`, under the environment's
choice. -/
def redisCommand (w : World τ) (reply : RedisReply) (ran : World τ) :
    Choice → Option (Option RedisReply × World τ)
  | .done => some (some reply, ran)
  | .refused => some (some .error, w)
  | .lost true => some (none, ran)
  | .lost false => some (none, w)
  | _ => none

/-- The environment lets Redis run the command. -/
def Choice.ran : Choice → Bool
  | .done => true
  | .lost ran => ran
  | _ => false

theorem redisCommand_world {w ran w' : World τ} {reply : RedisReply} {ch : Choice}
    {r : Option RedisReply} (h : redisCommand w reply ran ch = some (r, w')) :
    w' = if ch.ran then ran else w := by
  unfold redisCommand at h
  split at h <;> simp_all [Choice.ran, eq_comm]

/-- A statement that would answer `reply` and leave `ran`, or throw. -/
def statement {α : Type} (w : World τ) (reply : Option α) (ran : World τ) :
    Choice → Option (Option α × World τ)
  | .done => some (reply, ran)
  | .threw => some (none, w)
  | _ => none

theorem statement_cases {α : Type} {w ran w' : World τ} {reply r : Option α} {ch : Choice}
    (h : statement w reply ran ch = some (r, w')) :
    (r = reply ∧ w' = ran) ∨ (r = none ∧ w' = w) := by
  unfold statement at h
  split at h <;> simp_all [eq_comm]

/-- A statement with an answer loses it by throwing only. -/
theorem statement_threw {α : Type} {w ran w' : World τ} {x : α} {ch : Choice}
    (h : statement w (some x) ran ch = some (none, w')) : ch = .threw := by
  unfold statement at h
  split at h
  · cases h
  · rfl
  · cases h

theorem statement_done {α : Type} {w ran w' : World τ} {reply : Option α} {x : α} {ch : Choice}
    (h : statement w reply ran ch = some (some x, w')) : ch = .done := by
  unfold statement at h
  split at h
  · rfl
  · cases h
  · cases h

/-- A routine that draws random bytes, or throws. -/
def randomized {α : Type} (w : World τ) (f : Bytes → Option α) :
    Choice → Option (Option α × World τ)
  | .random b => some (f b, w)
  | .threw => some (none, w)
  | _ => none

theorem randomized_cases {α : Type} {w w' : World τ} {f : Bytes → Option α} {r : Option α}
    {ch : Choice} (h : randomized w f ch = some (r, w')) :
    w' = w ∧ (r = none ∨ ∃ b, ch = .random b ∧ r = f b) := by
  unfold randomized at h
  split at h <;> simp_all [eq_comm]

/-! ### What a command does -/

variable [Field τ] [LinearOrder τ] [FloorRing τ]

/-- Redis keeps time in milliseconds. -/
def World.nowMs (w : World τ) : Int := ⌊w.now * 1000⌋

/-- PostgreSQL keeps time in microseconds. -/
def World.nowUs (w : World τ) : Int := ⌊w.now * 1000000⌋

/-- The value Redis has under a key and has not let expire. -/
def World.live (w : World τ) (key : Bytes) : Option Bytes :=
  match w.redis key with
  | some e => if w.nowMs ≤ e.expireMs then some e.value else none
  | none => none

/-- What `GET` answers. -/
def World.getReply (w : World τ) (key : Bytes) : RedisReply :=
  match w.live key with
  | some v => .string v
  | none => .nil

/-- The row an `INSERT INTO users` writes, if the server accepts its values. -/
def World.withUser (w : World τ) (username passwordHash : Bytes) : Option (World τ) := do
  let name ← pgText username
  let hash ← pgText passwordHash
  let name ← varchar 64 name
  let hash ← varchar 256 hash
  let users ← w.users.insert name hash w.nowUs
  return { w with users := users }

/-- The row an `INSERT INTO documents` writes, if the server accepts its values and the
user exists. -/
def World.withDocument (w : World τ) (userId : Int) (filename pdf sig sha : Bytes) :
    Option (World τ) := do
  let filename ← pgText filename
  let pdf ← pgText pdf
  let sig ← pgText sig
  let sha ← pgText sha
  let filename ← varchar 255 filename
  let sha ← varchar 64 sha
  if userId ∈ w.users.rows.map User.id then
    let docs ← w.docs.insert userId filename pdf sig sha w.nowUs
    return { w with docs := docs }
  else none

/-- What a call does under the environment's choice; `none` where the choice is not one
for this call. -/
def exec (L : Lib) (w : World τ) : (c : Cmd) → Choice → Option (Reply τ c × World τ)
  | .now, ch => if ch = .done then some (w.now, w) else none
  | .randombytes, ch =>
      match ch with
      | .random b => if b.length = 32 then some (b, w) else none
      | _ => none
  | .pwhash pw, ch => randomized w (fun salt => some (L.pwhashStr salt pw)) ch
  | .setex key ttl value, ch =>
      redisCommand w .status (w.put key (some ⟨value, w.nowMs + 1000 * ttl⟩)) ch
  | .get key, ch => redisCommand w (w.getReply key) w ch
  | .del key, ch =>
      redisCommand w (.integer (if (w.live key).isSome then 1 else 0)) (w.put key none) ch
  | .userByName username, ch =>
      statement w ((pgText username).map w.users.byName) w ch
  | .insertUser username hash, ch =>
      match w.withUser username hash with
      | some w' => statement w (some ()) w' ch
      | none => statement w none w ch
  | .insertDocument userId filename pdf sig sha, ch =>
      match w.withDocument userId filename pdf sig sha with
      | some w' => statement w (some w'.docs.seq) w' ch
      | none => statement w none w ch
  | .documentById id, ch => statement w (some (w.docs.byId id)) w ch
  | .documentsByUser userId, ch =>
      statement w (some ((w.docs.rows.filter fun d => d.userId = userId).mergeSort
        fun a b => b.signedAt ≤ a.signedAt)) w ch
  | .pdfData id, ch => statement w (some ((w.docs.byId id).map Document.pdfData)) w ch
  | .ownedBy docId userId, ch =>
      statement w (some (w.docs.rows.any fun d => d.id = docId ∧ d.userId = userId)) w ch
  | .deleteDocument id, ch =>
      statement w (some (w.docs.byId id).isSome) { w with docs := w.docs.delete id } ch
  | .digestSign key data, ch => randomized w (fun r => L.digestSign key r data) ch

/-- What the environment does by itself; time does not go back. -/
def World.move (w : World τ) : Move τ → Option (World τ)
  | .tick d => if 0 ≤ d then some { w with now := w.now + d } else none
  | .drop key => some (w.put key none)
  | .burnUser => some { w with users := w.users.burn }
  | .burnDocument => some { w with docs := w.docs.burn }

/-! ### What a command does to the world -/

variable {L : Lib}

/-- The effect a command may have on the world. -/
inductive Effect
  | none
  | store
  | revoke
  | addUser
  | addDocument
  | removeDocument
  deriving DecidableEq

/-- The only effect a command can have. -/
def Cmd.effect : Cmd → Effect
  | .setex .. => .store
  | .del _ => .revoke
  | .insertUser .. => .addUser
  | .insertDocument .. => .addDocument
  | .deleteDocument _ => .removeDocument
  | _ => .none

/-- A command without effect leaves the world alone. -/
theorem exec_none {w w' : World τ} {c : Cmd} {ch : Choice} {r : Reply τ c}
    (h : exec L w c ch = some (r, w')) (hc : c.effect = .none) : w' = w := by
  cases c with
  | now =>
      simp only [exec] at h
      split at h
      · exact (Prod.mk.inj (Option.some.inj h)).2.symm
      · exact absurd h (by simp)
  | randombytes =>
      simp only [exec] at h
      split at h
      · split at h
        · exact (Prod.mk.inj (Option.some.inj h)).2.symm
        · exact absurd h (by simp)
      · exact absurd h (by simp)
  | pwhash pw => exact (randomized_cases h).1
  | digestSign key data => exact (randomized_cases h).1
  | get key =>
      simp only [exec] at h
      have hw := redisCommand_world h
      split at hw <;> exact hw
  | userByName name =>
      simp only [exec] at h
      rcases statement_cases h with ⟨-, hw⟩ | ⟨-, hw⟩ <;> exact hw
  | documentById id =>
      simp only [exec] at h
      rcases statement_cases h with ⟨-, hw⟩ | ⟨-, hw⟩ <;> exact hw
  | documentsByUser user =>
      simp only [exec] at h
      rcases statement_cases h with ⟨-, hw⟩ | ⟨-, hw⟩ <;> exact hw
  | pdfData id =>
      simp only [exec] at h
      rcases statement_cases h with ⟨-, hw⟩ | ⟨-, hw⟩ <;> exact hw
  | ownedBy doc user =>
      simp only [exec] at h
      rcases statement_cases h with ⟨-, hw⟩ | ⟨-, hw⟩ <;> exact hw
  | setex | del | insertUser | insertDocument | deleteDocument => simp [Cmd.effect] at hc

theorem exec_setex {w w' : World τ} {key value : Bytes} {ttl : Int} {ch : Choice}
    {r : Reply τ (.setex key ttl value)} (h : exec L w (.setex key ttl value) ch = some (r, w')) :
    w' = if ch.ran then w.put key (some ⟨value, w.nowMs + 1000 * ttl⟩) else w := by
  simp only [exec] at h
  exact redisCommand_world h

theorem exec_del {w w' : World τ} {key : Bytes} {ch : Choice} {r : Reply τ (.del key)}
    (h : exec L w (.del key) ch = some (r, w')) :
    w' = if ch.ran then w.put key none else w := by
  simp only [exec] at h
  exact redisCommand_world h

theorem getReply_eq_string {w : World τ} {key v : Bytes} :
    w.getReply key = .string v ↔ w.live key = some v := by
  unfold World.getReply
  cases w.live key <;> simp

/-- The clock answers with the time it is. -/
theorem exec_now_reply {w w' : World τ} {t : τ} {ch : Choice}
    (h : exec L w .now ch = some (t, w')) : t = w.now := by
  simp only [exec] at h
  split at h
  · exact (Prod.mk.inj (Option.some.inj h)).1.symm
  · cases h

/-- What `GET` answers is what the key holds. -/
theorem exec_get {w w' : World τ} {key v : Bytes} {ch : Choice}
    (h : exec L w (.get key) ch = some (some (.string v), w')) : w.live key = some v := by
  simp only [exec, redisCommand] at h
  split at h
  · simp only [Option.some.injEq, Prod.mk.injEq] at h
    exact getReply_eq_string.mp h.1
  all_goals simp at h

/-- What a lookup finds is the row of that name. -/
theorem exec_userByName {w w' : World τ} {username : Bytes} {found : Option User} {ch : Choice}
    (h : exec L w (.userByName username) ch = some (some found, w')) :
    w.users.byName (cstr username) = found := by
  simp only [exec] at h
  rcases statement_cases h with ⟨hr, -⟩ | ⟨hr, -⟩
  · cases htext : pgText username with
    | none => rw [htext] at hr; cases hr
    | some t =>
        rw [htext, pgText_eq_some htext] at hr
        exact (Option.some.inj hr).symm
  · cases hr

/-- What a read of `documents` answers is what the rows say. -/
theorem exec_ownedBy {w w' : World τ} {id user : Int} {owned : Bool} {ch : Choice}
    (h : exec L w (.ownedBy id user) ch = some (some owned, w')) :
    owned = true ↔ ∃ d ∈ w.docs.rows, d.id = id ∧ d.userId = user := by
  simp only [exec] at h
  rcases statement_cases h with ⟨hr, -⟩ | ⟨hr, -⟩
  · rw [Option.some.inj hr]
    simp [List.any_eq_true]
  · cases hr

theorem exec_documentById {w w' : World τ} {id : Int} {found : Option Document} {ch : Choice}
    (h : exec L w (.documentById id) ch = some (some found, w')) : found = w.docs.byId id := by
  simp only [exec] at h
  rcases statement_cases h with ⟨hr, -⟩ | ⟨hr, -⟩
  · exact Option.some.inj hr
  · cases hr

theorem exec_pdfData {w w' : World τ} {id : Int} {found : Option Bytes} {ch : Choice}
    (h : exec L w (.pdfData id) ch = some (some found, w')) :
    found = (w.docs.byId id).map Document.pdfData := by
  simp only [exec] at h
  rcases statement_cases h with ⟨hr, -⟩ | ⟨hr, -⟩
  · exact Option.some.inj hr
  · cases hr

theorem exec_documentsByUser {w w' : World τ} {user : Int} {found : List Document} {ch : Choice}
    (h : exec L w (.documentsByUser user) ch = some (some found, w')) :
    found.Perm (w.docs.rows.filter fun d => d.userId = user) := by
  simp only [exec] at h
  rcases statement_cases h with ⟨hr, -⟩ | ⟨hr, -⟩
  · rw [Option.some.inj hr]
    exact List.mergeSort_perm _ _
  · cases hr

theorem exec_insertUser {w w' : World τ} {name hash : Bytes} {ch : Choice}
    {r : Reply τ (.insertUser name hash)}
    (h : exec L w (.insertUser name hash) ch = some (r, w')) :
    (r = some () ∧ w.withUser name hash = some w') ∨ (r = none ∧ w' = w) := by
  simp only [exec] at h
  split at h
  · rename_i w₁ hw₁
    rcases statement_cases h with ⟨hr, hw⟩ | ⟨hr, hw⟩
    · exact Or.inl ⟨hr, hw ▸ hw₁⟩
    · exact Or.inr ⟨hr, hw⟩
  · rcases statement_cases h with ⟨hr, hw⟩ | ⟨hr, hw⟩ <;> exact Or.inr ⟨hr, hw⟩

theorem exec_insertDocument {w w' : World τ} {user : Int} {filename pdf sig sha : Bytes}
    {ch : Choice} {r : Reply τ (.insertDocument user filename pdf sig sha)}
    (h : exec L w (.insertDocument user filename pdf sig sha) ch = some (r, w')) :
    (r = some w'.docs.seq ∧ w.withDocument user filename pdf sig sha = some w') ∨
      (r = none ∧ w' = w) := by
  simp only [exec] at h
  split at h
  · rename_i w₁ hw₁
    rcases statement_cases h with ⟨hr, hw⟩ | ⟨hr, hw⟩
    · exact Or.inl ⟨hw ▸ hr, hw ▸ hw₁⟩
    · exact Or.inr ⟨hr, hw⟩
  · rcases statement_cases h with ⟨hr, hw⟩ | ⟨hr, hw⟩ <;> exact Or.inr ⟨hr, hw⟩

theorem exec_deleteDocument {w w' : World τ} {id : Int} {ch : Choice}
    {r : Reply τ (.deleteDocument id)} (h : exec L w (.deleteDocument id) ch = some (r, w')) :
    (r = some (w.docs.byId id).isSome ∧ w' = { w with docs := w.docs.delete id }) ∨
      (r = none ∧ w' = w) := by
  simp only [exec] at h
  exact statement_cases h

/-- **Everything a command can do to the world.** -/
theorem exec_world {w w' : World τ} {c : Cmd} {ch : Choice} {r : Reply τ c}
    (h : exec L w c ch = some (r, w')) :
    w' = w ∨
    (∃ key ttl value, c = .setex key ttl value ∧
      w' = w.put key (some ⟨value, w.nowMs + 1000 * ttl⟩)) ∨
    (∃ key, c = .del key ∧ w' = w.put key none) ∨
    (∃ name hash, c = .insertUser name hash ∧ w.withUser name hash = some w') ∨
    (∃ user filename pdf sig sha, c = .insertDocument user filename pdf sig sha ∧
      w.withDocument user filename pdf sig sha = some w') ∨
    (∃ id, c = .deleteDocument id ∧ w' = { w with docs := w.docs.delete id }) := by
  cases c with
  | setex key ttl value =>
      have hw := exec_setex h
      split at hw
      · exact Or.inr (Or.inl ⟨key, ttl, value, rfl, hw⟩)
      · exact Or.inl hw
  | del key =>
      have hw := exec_del h
      split at hw
      · exact Or.inr (Or.inr (Or.inl ⟨key, rfl, hw⟩))
      · exact Or.inl hw
  | insertUser name hash =>
      rcases exec_insertUser h with ⟨-, hw⟩ | ⟨-, hw⟩
      · exact Or.inr (Or.inr (Or.inr (Or.inl ⟨name, hash, rfl, hw⟩)))
      · exact Or.inl hw
  | insertDocument user filename pdf sig sha =>
      rcases exec_insertDocument h with ⟨-, hw⟩ | ⟨-, hw⟩
      · exact Or.inr (Or.inr (Or.inr (Or.inr (Or.inl
          ⟨user, filename, pdf, sig, sha, rfl, hw⟩))))
      · exact Or.inl hw
  | deleteDocument id =>
      rcases exec_deleteDocument h with ⟨-, hw⟩ | ⟨-, hw⟩
      · exact Or.inr (Or.inr (Or.inr (Or.inr (Or.inr ⟨id, rfl, hw⟩))))
      · exact Or.inl hw
  | _ => exact Or.inl (exec_none h rfl)

/-- An `INSERT INTO users` changes that table only. -/
theorem withUser_some {w w' : World τ} {name hash : Bytes} (h : w.withUser name hash = some w') :
    ∃ hash' users, pgText name = some (cstr name) ∧ ∃ stored, varchar 64 (cstr name) = some stored ∧
      (pgText hash).bind (varchar 256) = some hash' ∧
      w.users.insert stored hash' w.nowUs = some users ∧ w' = { w with users := users } := by
  simp only [World.withUser, Option.bind_eq_bind, Option.bind_eq_some_iff, Option.pure_def,
    Option.some.injEq] at h
  obtain ⟨n, hn, g, hg, stored, hstored, hash', hhash, users, husers, rfl⟩ := h
  obtain rfl := pgText_eq_some hn
  exact ⟨hash', users, hn, stored, hstored, by rw [hg]; exact hhash, husers, rfl⟩

/-- An `INSERT INTO documents` changes that table only. -/
theorem withDocument_some {w w' : World τ} {user : Int} {filename pdf sig sha : Bytes}
    (h : w.withDocument user filename pdf sig sha = some w') :
    user ∈ w.users.rows.map User.id ∧
    ∃ filename' sha' docs, (pgText filename).bind (varchar 255) = some filename' ∧
      pgText pdf = some (cstr pdf) ∧ pgText sig = some (cstr sig) ∧
      (pgText sha).bind (varchar 64) = some sha' ∧
      w.docs.insert user filename' (cstr pdf) (cstr sig) sha' w.nowUs = some docs ∧
      w' = { w with docs := docs } := by
  simp only [World.withDocument, Option.bind_eq_bind, Option.bind_eq_some_iff, Option.pure_def] at h
  obtain ⟨f, hf, p, hp, g, hg, s, hs, f', hf', s', hs', h⟩ := h
  split at h
  · rename_i hmem
    simp only [Option.bind_eq_some_iff, Option.some.injEq] at h
    obtain ⟨docs, hdocs, rfl⟩ := h
    obtain rfl := pgText_eq_some hp
    obtain rfl := pgText_eq_some hg
    exact ⟨hmem, f', s', docs, by rw [hf]; exact hf', hp, hg, by rw [hs]; exact hs', hdocs, rfl⟩
  · simp at h

/-- An `INSERT INTO documents` that is taken adds one row, under the next id. -/
theorem withDocument_rows {w w' : World τ} {user : Int} {filename pdf sig sha : Bytes}
    (h : w.withDocument user filename pdf sig sha = some w') :
    ∃ name stored, (pgText filename).bind (varchar 255) = some name ∧
      (pgText sha).bind (varchar 64) = some stored ∧ w'.docs.seq = w.docs.seq + 1 ∧
      w'.docs.rows = w.docs.rows ++
        [⟨w.docs.seq + 1, user, name, cstr pdf, cstr sig, stored, w.nowUs⟩] := by
  obtain ⟨-, name, stored, docs, hname, -, -, hsha, hins, rfl⟩ := withDocument_some h
  obtain ⟨hrows, hseq⟩ := DocsTable.insert_some hins
  exact ⟨name, stored, hname, hsha, hseq, hrows⟩

/-- An `INSERT INTO documents` of values the columns take. -/
theorem withDocument_eq {w : World τ} {user : Int}
    {filename pdf sig sha name pdf' sig' sha' : Bytes}
    {docs : DocsTable} (hname : (pgText filename).bind (varchar 255) = some name)
    (hpdf : pgText pdf = some pdf') (hsig : pgText sig = some sig')
    (hsha : (pgText sha).bind (varchar 64) = some sha') (huser : user ∈ w.users.rows.map User.id)
    (hins : w.docs.insert user name pdf' sig' sha' w.nowUs = some docs) :
    w.withDocument user filename pdf sig sha = some { w with docs := docs } := by
  obtain ⟨f, hf, hf'⟩ := Option.bind_eq_some_iff.mp hname
  obtain ⟨s, hs, hs'⟩ := Option.bind_eq_some_iff.mp hsha
  simp only [World.withDocument, hf, hpdf, hsig, hs, hf', hs', Option.bind_eq_bind,
    Option.bind_some, if_pos huser, hins, Option.pure_def]

/-- No command moves the clock. -/
theorem exec_now {w w' : World τ} {c : Cmd} {ch : Choice} {r : Reply τ c}
    (h : exec L w c ch = some (r, w')) : w'.now = w.now := by
  rcases exec_world h with rfl | ⟨_, _, _, -, rfl⟩ | ⟨_, -, rfl⟩ | ⟨_, _, -, hw⟩ |
    ⟨_, _, _, _, _, -, hw⟩ | ⟨_, -, rfl⟩
  · rfl
  · rfl
  · rfl
  · obtain ⟨_, _, -, _, -, -, -, rfl⟩ := withUser_some hw
    rfl
  · obtain ⟨-, _, _, _, -, -, -, -, -, rfl⟩ := withDocument_some hw
    rfl
  · rfl

/-- Only `SETEX` and `DEL` change Redis. -/
theorem exec_redis {w w' : World τ} {c : Cmd} {ch : Choice} {r : Reply τ c}
    (h : exec L w c ch = some (r, w')) :
    w'.redis = w.redis ∨
    (∃ key ttl value, c = .setex key ttl value ∧
      w' = w.put key (some ⟨value, w.nowMs + 1000 * ttl⟩)) ∨
    (∃ key, c = .del key ∧ w' = w.put key none) := by
  rcases exec_world h with rfl | hset | hdel | ⟨_, _, -, hw⟩ | ⟨_, _, _, _, _, -, hw⟩ | ⟨_, -, rfl⟩
  · exact Or.inl rfl
  · exact Or.inr (Or.inl hset)
  · exact Or.inr (Or.inr hdel)
  · obtain ⟨_, _, -, _, -, -, -, rfl⟩ := withUser_some hw
    exact Or.inl rfl
  · obtain ⟨-, _, _, _, -, -, -, -, -, rfl⟩ := withDocument_some hw
    exact Or.inl rfl
  · exact Or.inl rfl

/-- Only an `INSERT INTO users` changes that table. -/
theorem exec_users {w w' : World τ} {c : Cmd} {ch : Choice} {r : Reply τ c}
    (h : exec L w c ch = some (r, w')) :
    w'.users = w.users ∨ ∃ name hash, c = .insertUser name hash ∧
      w.withUser name hash = some w' := by
  rcases exec_world h with rfl | ⟨_, _, _, -, rfl⟩ | ⟨_, -, rfl⟩ | hins | ⟨_, _, _, _, _, -, hw⟩ |
    ⟨_, -, rfl⟩
  · exact Or.inl rfl
  · exact Or.inl rfl
  · exact Or.inl rfl
  · exact Or.inr hins
  · obtain ⟨-, _, _, _, -, -, -, -, -, rfl⟩ := withDocument_some hw
    exact Or.inl rfl
  · exact Or.inl rfl

/-- Only an `INSERT INTO documents` or a `DELETE` changes that table. -/
theorem exec_docs {w w' : World τ} {c : Cmd} {ch : Choice} {r : Reply τ c}
    (h : exec L w c ch = some (r, w')) :
    w'.docs = w.docs ∨
    (∃ user filename pdf sig sha, c = .insertDocument user filename pdf sig sha ∧
      w.withDocument user filename pdf sig sha = some w') ∨
    (∃ id, c = .deleteDocument id ∧ w' = { w with docs := w.docs.delete id }) := by
  rcases exec_world h with rfl | ⟨_, _, _, -, rfl⟩ | ⟨_, -, rfl⟩ | ⟨_, _, -, hw⟩ | hins | hdel
  · exact Or.inl rfl
  · exact Or.inl rfl
  · exact Or.inl rfl
  · obtain ⟨_, _, -, _, -, -, -, rfl⟩ := withUser_some hw
    exact Or.inl rfl
  · exact Or.inr (Or.inl hins)
  · exact Or.inr (Or.inr hdel)

omit [FloorRing τ] in
/-- No move touches the rows of `documents`, or takes its sequence back. -/
theorem move_docs {w w' : World τ} {m : Move τ} (h : w.move m = some w') :
    w'.docs.rows = w.docs.rows ∧ w.docs.seq ≤ w'.docs.seq := by
  cases m with
  | tick d =>
      simp only [World.move] at h
      split at h
      · rw [← Option.some.inj h]
        exact ⟨rfl, le_refl _⟩
      · cases h
  | drop key =>
      rw [← Option.some.inj h, put_docs]
      exact ⟨rfl, le_refl _⟩
  | burnUser =>
      rw [← Option.some.inj h]
      exact ⟨rfl, le_refl _⟩
  | burnDocument =>
      rw [← Option.some.inj h]
      exact ⟨DocsTable.burn_rows _, DocsTable.seq_le_burn _⟩

omit [FloorRing τ] in
/-- No move touches the rows of `users`. -/
theorem move_users {w w' : World τ} {m : Move τ} (h : w.move m = some w') :
    w'.users.rows = w.users.rows := by
  cases m with
  | tick d =>
      simp only [World.move] at h
      split at h
      · rw [← Option.some.inj h]
      · cases h
  | drop key => rw [← Option.some.inj h, put_users]
  | burnUser =>
      rw [← Option.some.inj h]
      exact UsersTable.burn_rows _
  | burnDocument => rw [← Option.some.inj h]

omit [FloorRing τ] in
/-- What a move does to the clock and to Redis. -/
theorem move_redis {w w' : World τ} {m : Move τ} (h : w.move m = some w') :
    (∃ d, m = .tick d ∧ 0 ≤ d ∧ w' = { w with now := w.now + d }) ∨
    (∃ key, m = .drop key ∧ w' = w.put key none) ∨
    (w'.redis = w.redis ∧ w'.now = w.now) := by
  cases m with
  | tick d =>
      simp only [World.move] at h
      split at h
      · rename_i hd
        exact Or.inl ⟨d, rfl, hd, (Option.some.inj h).symm⟩
      · cases h
  | drop key => exact Or.inr (Or.inl ⟨key, rfl, (Option.some.inj h).symm⟩)
  | burnUser =>
      rw [← Option.some.inj h]
      exact Or.inr (Or.inr ⟨rfl, rfl⟩)
  | burnDocument =>
      rw [← Option.some.inj h]
      exact Or.inr (Or.inr ⟨rfl, rfl⟩)

variable (τ) in
/-- All services together. -/
abbrev machine (L : Lib) : Machine (services τ) :=
  ⟨World τ, Choice, Move τ, exec L, World.move⟩

end PqcApi
