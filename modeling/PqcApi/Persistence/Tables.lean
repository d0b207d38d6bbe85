/-
The two tables of `scripts/init.sql`.

A table is its rows together with what PostgreSQL guarantees of them, so no
operation can produce an impossible one: primary keys are positive, distinct and
at most the last value of the `SERIAL` sequence, the sequence stays within a
four-byte integer, and user names are unique.  A value taken from a sequence is
never given out again, so an `id` names one row for ever.
-/
import Mathlib.Data.List.Nodup
import Mathlib.Data.List.Perm.Lattice
import PqcApi.Bytes

namespace PqcApi

/-- The last value of a `SERIAL` sequence. -/
def serialMax : Int := 2147483647

theorem one_le_serialMax : (0 : Int) ≤ 1 ∧ 1 ≤ serialMax := by decide

/-! ### users -/

/-- A row of `users`. -/
structure User where
  id : Int
  username : Bytes
  passwordHash : Bytes
  createdAt : Int
  role : Int
  deriving DecidableEq

/-- The table `users`, with `seq` the last value its sequence gave out. -/
structure UsersTable where
  rows : List User
  seq : Int
  seq_le : 0 ≤ seq ∧ seq ≤ serialMax
  ids : ∀ u ∈ rows, 0 < u.id ∧ u.id ≤ seq
  idsNodup : (rows.map User.id).Nodup
  namesNodup : (rows.map User.username).Nodup

namespace UsersTable

/-- The hash `init.sql` stores for the first account. -/
def seedHash : Bytes :=
  ascii "$argon2id$v=19$m=65536,t=2,p=1$ZGw5YmM1MmRsRmRZTVg3ag$fRXa53KJ9wptwX0WmQ7/Lg5+dS+LXqIkZzPzK4eG1ak"

/-- The account `init.sql` creates. -/
def seedUser (createdAt : Int) : User := ⟨1, ascii "paulsiv", seedHash, createdAt, 1⟩

/-- The table as `init.sql` leaves it. -/
def seeded (createdAt : Int) : UsersTable :=
  ⟨[seedUser createdAt], 1, one_le_serialMax, by simp [seedUser], by simp, by simp⟩

/-- The row with this name. -/
def byName (t : UsersTable) (name : Bytes) : Option User :=
  t.rows.find? fun u => u.username = name

/-- The sequence moves on without a row, as it does when a statement fails. -/
def burn (t : UsersTable) : UsersTable :=
  if h : t.seq < serialMax then
    { t with
      seq := t.seq + 1
      seq_le := ⟨by have := t.seq_le; omega, by omega⟩
      ids := fun u hu => ⟨(t.ids u hu).1, by have := (t.ids u hu).2; omega⟩ }
  else t

theorem byName_none {t : UsersTable} {name : Bytes} (h : t.byName name = none) :
    name ∉ t.rows.map User.username := by
  intro hmem
  obtain ⟨u, hu, rfl⟩ := List.mem_map.mp hmem
  simpa using List.find?_eq_none.mp h u hu

/-- `INSERT ... ON CONFLICT (username) DO NOTHING`, role defaulting to 0.  `none` when the
sequence is used up. -/
def insert (t : UsersTable) (name hash : Bytes) (at_ : Int) : Option UsersTable :=
  if h : t.seq < serialMax then
    if hname : t.byName name = none then
      some
        { rows := t.rows ++ [⟨t.seq + 1, name, hash, at_, 0⟩]
          seq := t.seq + 1
          seq_le := ⟨by have := t.seq_le; omega, by omega⟩
          ids := by
            have hpos := t.seq_le
            intro u hu
            rcases List.mem_append.mp hu with hold | hnew
            · have := t.ids u hold
              omega
            · rw [List.mem_singleton.mp hnew]
              exact ⟨by show 0 < t.seq + 1; omega, le_refl _⟩
          idsNodup := by
            rw [List.map_append]
            refine List.nodup_append'.mpr ⟨t.idsNodup, List.nodup_singleton _, ?_⟩
            intro x hx hx'
            obtain ⟨u, hu, rfl⟩ := List.mem_map.mp hx
            have hle := (t.ids u hu).2
            have heq : u.id = t.seq + 1 := by simpa using hx'
            omega
          namesNodup := by
            rw [List.map_append]
            refine List.nodup_append'.mpr ⟨t.namesNodup, List.nodup_singleton _, ?_⟩
            intro x hx hx'
            have heq : x = name := by simpa using hx'
            exact byName_none hname (heq ▸ hx) }
    else some t.burn
  else none

/-- What an insert leaves: the table as it was, or one more row, under a new name. -/
theorem insert_cases {t t' : UsersTable} {name hash : Bytes} {at_ : Int}
    (h : t.insert name hash at_ = some t') :
    (t.byName name = none ∧ t'.rows = t.rows ++ [⟨t.seq + 1, name, hash, at_, 0⟩]) ∨
    (t.byName name ≠ none ∧ t'.rows = t.rows) := by
  unfold insert at h
  split at h
  · split at h
    · rename_i hname
      rw [Option.some.injEq] at h
      subst h
      exact Or.inl ⟨hname, rfl⟩
    · rename_i hname
      rw [Option.some.injEq] at h
      subst h
      refine Or.inr ⟨hname, ?_⟩
      unfold burn
      split <;> rfl
  · simp at h

@[simp] theorem burn_rows (t : UsersTable) : t.burn.rows = t.rows := by
  unfold burn
  split <;> rfl

theorem byName_some {t : UsersTable} {name : Bytes} {u : User} (h : t.byName name = some u) :
    u ∈ t.rows ∧ u.username = name :=
  ⟨List.mem_of_find?_eq_some h, by simpa using List.find?_some h⟩

/-- A lookup reads the rows only. -/
theorem byName_congr {t t' : UsersTable} (h : t'.rows = t.rows) (name : Bytes) :
    t'.byName name = t.byName name := by
  unfold byName
  rw [h]

/-- Names being unique, a row is the one its name finds. -/
theorem byName_of_mem {t : UsersTable} {u : User} (h : u ∈ t.rows) :
    t.byName u.username = some u := by
  cases hf : t.byName u.username with
  | none => exact absurd (List.mem_map.mpr ⟨u, h, rfl⟩) (byName_none hf)
  | some v =>
      obtain ⟨hv, hname⟩ := byName_some hf
      rw [List.inj_on_of_nodup_map t.namesNodup hv h hname]

/-- The row with this id. -/
def byId (t : UsersTable) (id : Int) : Option User := t.rows.find? fun u => u.id = id

theorem byId_some {t : UsersTable} {id : Int} {u : User} (h : t.byId id = some u) :
    u ∈ t.rows ∧ u.id = id :=
  ⟨List.mem_of_find?_eq_some h, by simpa using List.find?_some h⟩

theorem eq_of_id {t : UsersTable} {u v : User} (hu : u ∈ t.rows) (hv : v ∈ t.rows)
    (h : u.id = v.id) : u = v :=
  List.inj_on_of_nodup_map t.idsNodup hu hv h

/-- Ids being unique, a row is the one its id finds. -/
theorem byId_of_mem {t : UsersTable} {u : User} (h : u ∈ t.rows) : t.byId u.id = some u := by
  cases hf : t.byId u.id with
  | none => exact absurd (List.find?_eq_none.mp hf u h) (by simp)
  | some v =>
      obtain ⟨hv, hid⟩ := byId_some hf
      rw [eq_of_id hv h hid]

/-- What `UPDATE users SET role = $2 WHERE username = $1` makes of a row. -/
def withRole (name : Bytes) (role : Int) (u : User) : User :=
  if u.username = name then { u with role := role } else u

@[simp] theorem withRole_id (name : Bytes) (role : Int) (u : User) :
    (withRole name role u).id = u.id := by
  unfold withRole
  split <;> rfl

@[simp] theorem withRole_username (name : Bytes) (role : Int) (u : User) :
    (withRole name role u).username = u.username := by
  unfold withRole
  split <;> rfl

/-- That statement. -/
def setRole (t : UsersTable) (name : Bytes) (role : Int) : UsersTable :=
  { t with
    rows := t.rows.map (withRole name role)
    ids := by
      intro u hu
      obtain ⟨v, hv, rfl⟩ := List.mem_map.mp hu
      rw [withRole_id]
      exact t.ids v hv
    idsNodup := by
      rw [List.map_map, show User.id ∘ withRole name role = User.id from funext fun u => by simp]
      exact t.idsNodup
    namesNodup := by
      rw [List.map_map,
        show User.username ∘ withRole name role = User.username from funext fun u => by simp]
      exact t.namesNodup }

/-- `DELETE FROM users WHERE id = $1`; the sequence does not move back. -/
def remove (t : UsersTable) (id : Int) : UsersTable :=
  { t with
    rows := t.rows.filter fun u => u.id ≠ id
    ids := fun u hu => t.ids u (List.mem_filter.mp hu).1
    idsNodup := List.Nodup.sublist (List.Sublist.map _ List.filter_sublist) t.idsNodup
    namesNodup := List.Nodup.sublist (List.Sublist.map _ List.filter_sublist) t.namesNodup }

end UsersTable

/-! ### documents -/

/-- A row of `documents`. -/
structure Document where
  id : Int
  userId : Int
  filename : Bytes
  pdfData : Bytes
  signature : Bytes
  sha256Hash : Bytes
  signedAt : Int
  deriving DecidableEq

/-- The table `documents`, with `seq` the last value its sequence gave out. -/
structure DocsTable where
  rows : List Document
  seq : Int
  seq_le : 0 ≤ seq ∧ seq ≤ serialMax
  ids : ∀ d ∈ rows, 0 < d.id ∧ d.id ≤ seq
  idsNodup : (rows.map Document.id).Nodup

namespace DocsTable

def empty : DocsTable := ⟨[], 0, by decide, by simp, by simp⟩

/-- A table is its rows and its sequence. -/
@[ext]
theorem ext {t t' : DocsTable} (hrows : t.rows = t'.rows) (hseq : t.seq = t'.seq) : t = t' := by
  cases t
  cases t'
  simp only at hrows hseq
  subst hrows hseq
  rfl

/-- The row with this id. -/
def byId (t : DocsTable) (id : Int) : Option Document := t.rows.find? fun d => d.id = id

/-- The sequence moves on without a row. -/
def burn (t : DocsTable) : DocsTable :=
  if h : t.seq < serialMax then
    { t with
      seq := t.seq + 1
      seq_le := ⟨by have := t.seq_le; omega, by omega⟩
      ids := fun d hd => ⟨(t.ids d hd).1, by have := (t.ids d hd).2; omega⟩ }
  else t

/-- Keep the rows that satisfy `p`; the sequence does not move back. -/
def keep (t : DocsTable) (p : Document → Bool) : DocsTable :=
  { t with
    rows := t.rows.filter p
    ids := fun d hd => t.ids d (List.mem_filter.mp hd).1
    idsNodup := List.Nodup.sublist (List.Sublist.map _ List.filter_sublist) t.idsNodup }

/-- `DELETE FROM documents WHERE id = $1`. -/
def delete (t : DocsTable) (id : Int) : DocsTable := t.keep fun d => d.id ≠ id

/-- A new row under the next id; `none` when the sequence is used up. -/
def insert (t : DocsTable) (userId : Int) (filename pdf sig sha : Bytes) (at_ : Int) :
    Option DocsTable :=
  if h : t.seq < serialMax then
    some
      { rows := t.rows ++ [⟨t.seq + 1, userId, filename, pdf, sig, sha, at_⟩]
        seq := t.seq + 1
        seq_le := ⟨by have := t.seq_le; omega, by omega⟩
        ids := by
          have hpos := t.seq_le
          intro d hd
          rcases List.mem_append.mp hd with hold | hnew
          · have := t.ids d hold
            omega
          · rw [List.mem_singleton.mp hnew]
            exact ⟨by show 0 < t.seq + 1; omega, le_refl _⟩
        idsNodup := by
          rw [List.map_append]
          refine List.nodup_append'.mpr ⟨t.idsNodup, List.nodup_singleton _, ?_⟩
          intro x hx hx'
          obtain ⟨d, hd, rfl⟩ := List.mem_map.mp hx
          have hle := (t.ids d hd).2
          have heq : d.id = t.seq + 1 := by simpa using hx'
          omega }
  else none

theorem insert_some {t t' : DocsTable} {userId : Int} {filename pdf sig sha : Bytes} {at_ : Int}
    (h : t.insert userId filename pdf sig sha at_ = some t') :
    t'.rows = t.rows ++ [⟨t.seq + 1, userId, filename, pdf, sig, sha, at_⟩] ∧
      t'.seq = t.seq + 1 := by
  unfold insert at h
  split at h
  · rw [Option.some.injEq] at h
    subst h
    exact ⟨rfl, rfl⟩
  · simp at h

@[simp] theorem burn_rows (t : DocsTable) : t.burn.rows = t.rows := by
  unfold burn
  split <;> rfl

theorem seq_le_burn (t : DocsTable) : t.seq ≤ t.burn.seq := by
  unfold burn
  split
  · show t.seq ≤ t.seq + 1
    omega
  · exact le_refl _

@[simp] theorem keep_rows (t : DocsTable) (p : Document → Bool) :
    (t.keep p).rows = t.rows.filter p := rfl

theorem mem_delete {t : DocsTable} {id : Int} {d : Document} :
    d ∈ (t.delete id).rows ↔ d ∈ t.rows ∧ d.id ≠ id := by
  simp [delete]

/-- Keeping rows and then inserting one that is kept is inserting and then keeping. -/
theorem keep_insert {t : DocsTable} {p : Document → Bool} {userId : Int}
    {filename pdf sig sha : Bytes} {at_ : Int}
    (hp : p ⟨t.seq + 1, userId, filename, pdf, sig, sha, at_⟩ = true) :
    (t.keep p).insert userId filename pdf sig sha at_ =
      (t.insert userId filename pdf sig sha at_).map fun t' => t'.keep p := by
  unfold insert
  by_cases h : t.seq < serialMax
  · rw [dif_pos h, dif_pos (show (t.keep p).seq < serialMax from h), Option.map_some]
    refine congrArg some (DocsTable.ext ?_ rfl)
    show t.rows.filter p ++ _ = (t.rows ++ _).filter p
    rw [List.filter_append, List.filter_cons_of_pos hp, List.filter_nil]
    rfl
  · rw [dif_neg h, dif_neg (show ¬ (t.keep p).seq < serialMax from h), Option.map_none]

theorem keep_delete (t : DocsTable) (p : Document → Bool) (id : Int) :
    (t.keep p).delete id = (t.delete id).keep p := by
  refine DocsTable.ext ?_ rfl
  show (t.rows.filter p).filter _ = (t.rows.filter _).filter p
  rw [List.filter_filter, List.filter_filter]
  simp only [Bool.and_comm]

theorem byId_some {t : DocsTable} {id : Int} {d : Document} (h : t.byId id = some d) :
    d ∈ t.rows ∧ d.id = id :=
  ⟨List.mem_of_find?_eq_some h, by simpa using List.find?_some h⟩

theorem byId_none {t : DocsTable} {id : Int} (h : t.byId id = none) :
    ∀ d ∈ t.rows, d.id ≠ id := by
  intro d hd
  simpa using List.find?_eq_none.mp h d hd

theorem eq_of_id {t : DocsTable} {d d' : Document} (hd : d ∈ t.rows) (hd' : d' ∈ t.rows)
    (h : d.id = d'.id) : d = d' :=
  List.inj_on_of_nodup_map t.idsNodup hd hd' h

/-- A lookup reads the rows only. -/
theorem byId_congr {t t' : DocsTable} (h : t'.rows = t.rows) (id : Int) :
    t'.byId id = t.byId id := by
  unfold byId
  rw [h]

/-- Ids being unique, a row is the one its id finds. -/
theorem byId_of_mem {t : DocsTable} {d : Document} (h : d ∈ t.rows) : t.byId d.id = some d := by
  cases hf : t.byId d.id with
  | none => exact absurd rfl (byId_none hf d h)
  | some e =>
      obtain ⟨he, hid⟩ := byId_some hf
      rw [eq_of_id he h hid]

/-- An id is in the table once. -/
theorem filter_id {t : DocsTable} {d : Document} (h : d ∈ t.rows) :
    (t.rows.filter fun e => e.id = d.id) = [d] := by
  have hsame : (t.rows.filter fun e => e.id = d.id) = t.rows.filter fun e => e = d := by
    refine List.filter_congr fun e he => decide_eq_decide.mpr ⟨eq_of_id he h, ?_⟩
    rintro rfl
    rfl
  have hnodup : t.rows.Nodup := List.Nodup.of_map _ t.idsNodup
  rw [hsame, List.filter_eq, List.count_eq_one_of_mem hnodup h]
  rfl

/-- Keeping rows does not change what an id finds, if what it finds is kept. -/
theorem byId_keep {t : DocsTable} {p : Document → Bool} {id : Int}
    (hp : ∀ d, t.byId id = some d → p d = true) : (t.keep p).byId id = t.byId id := by
  cases hf : t.byId id with
  | some d =>
      obtain ⟨hmem, rfl⟩ := byId_some hf
      have hkeep : d ∈ (t.keep p).rows := List.mem_filter.mpr ⟨hmem, hp d hf⟩
      exact byId_of_mem hkeep
  | none =>
      cases hk : (t.keep p).byId id with
      | none => rfl
      | some d =>
          obtain ⟨hmem, hid⟩ := byId_some hk
          exact absurd hid (byId_none hf d (List.mem_filter.mp hmem).1)

end DocsTable

end PqcApi
