/-
The signing key over restarts.

Processes start one after another, as servers or to generate the key, and find the key file as
the ones before left it.  A file that is there is never overwritten.  But a server that cannot
read it makes a new key and serves with that, and an export that fails leaves an empty text,
which is written and reported as the key.  Without these two a key that was once loaded or
saved is the one every later server uses.
-/
import Mathlib.Logic.Function.Basic
import PqcApi.Pki.Revocation

namespace PqcApi

/-! ### The key file -/

/-- Private keys as PEM. -/
structure PrivatePem where
  /-- `PEM_read_PrivateKey`. -/
  read : Bytes → Option PKey
  /-- `PEM_write_bio_PrivateKey`. -/
  write : PKey → Bytes

/-- `exportPrivateKeyPEM`, where `ok` says that the BIO and the writing succeed. -/
def DilithiumSigner.exportPrivateKeyPEM (W : PrivatePem) (ok : Bool) (s : DilithiumSigner) :
    Bytes :=
  match s.signingKey with
  | none => []
  | some key => if ok then W.write key else []

/-- How writing a new file goes: it cannot be created, or `fwrite` says how many bytes it took,
`fclose` whether they got there, and if not, some of them are left. -/
inductive Creation
  | refused
  | created (written : Nat) (closed : Bool) (left : Nat)

/-- `writePrivateKeyFile` on what is at the path, and what is there afterwards. -/
def writePrivateKeyFile (file : Option Bytes) (c : Creation) (pem : Bytes) : Bool × Option Bytes :=
  match file, c with
  | some content, _ => (false, some content)
  | none, .refused => (false, none)
  | none, .created written closed left =>
      let ok := decide (written = pem.length) && closed
      (ok, some (if ok then pem else pem.take left))

theorem writePrivateKeyFile_some (content : Bytes) (c : Creation) (pem : Bytes) :
    writePrivateKeyFile (some content) c pem = (false, some content) := rfl

/-- What is reported as written is there. -/
theorem writePrivateKeyFile_true {file : Option Bytes} {c : Creation} {pem : Bytes}
    (h : (writePrivateKeyFile file c pem).1 = true) :
    (writePrivateKeyFile file c pem).2 = some pem := by
  cases file with
  | some content => cases h
  | none =>
      cases c with
      | refused => cases h
      | created written closed left => exact congrArg some (if_pos h)

/-- The files, by path. -/
abbrev Files := Bytes → Option Bytes

/-! ### `main` up to the key -/

namespace Host

variable {X509 CertId : Type} (h : Host X509)

/-- `MLDSA_KEY_PATH`. -/
def keyPath : Bytes := h.env "MLDSA_KEY_PATH" "/certs/mldsa_server.key"

/-- The path of the `--generate-mldsa-key` mode, if it is that. -/
def generates : Option Bytes :=
  match h.args with
  | [_, mode, path] => if mode = ascii "--generate-mldsa-key" then some path else none
  | _ => none

/-- How a server with a valid certificate ends before it comes to the key, or the secret with
which it comes there. -/
def afterChecks : Except Startup Bytes :=
  match stoi (h.env "REDIS_PORT" "6379") with
  | none => .error (.terminate .outOfRange)
  | some redisPort =>
      if ¬ h.postgres (h.env "DATABASE_URL"
          "host = postgres port = 5432 dbname = pqcapi user = pqcuser password = pqcpass") then
        .error (.terminate (.runtime "[PostgreSQLClient] Connection failed"))
      else if ¬ h.redis (h.env "REDIS_HOST" "redis") redisPort then
        .error (.terminate (.runtime "[RedisClient] Connection failed"))
      else
        match h.getenv "JWT_SECRET" with
        | none => .error (.exit 1)
        | some secret =>
            if secret.length < 32 ∨ secret = ascii "change-me-in-production" then .error (.exit 1)
            else .ok secret

/-- The same from the start of a server. -/
def beforeKey (K : PkiLib X509 CertId) : Except Startup Bytes :=
  match h.caCert, h.serverCert with
  | some ca, some server =>
      if ¬ verifySignature K server ca then .error (.exit 1)
      else if h.revocation K server ca = .revoked then .error (.exit 1)
      else h.afterChecks
  | _, _ => .error (.exit 1)

/-- `main` from the key on. -/
def serve (L : Lib) (secret : Bytes) : Startup :=
  if h.signer.1 then
    match stoi (h.env "SERVER_PORT" "8443") with
    | none => .terminate .outOfRange
    | some port => .serving ⟨⟨L, secret⟩, h.signer.2⟩ port
  else .exit 1

/-- `connect` is its checks, the secret they find and what follows with it. -/
theorem connect_eq (L : Lib) :
    h.connect L =
      match h.afterChecks with
      | .error ended => ended
      | .ok secret => h.serve L secret := by
  unfold connect afterChecks
  dsimp only
  cases stoi (h.env "REDIS_PORT" "6379") with
  | none => rfl
  | some redisPort =>
      dsimp only
      split
      · rfl
      · split
        · rfl
        · cases h.getenv "JWT_SECRET" with
          | none => rfl
          | some secret =>
              dsimp only
              split <;> rfl

/-- So is `validate`. -/
theorem validate_eq (L : Lib) (K : PkiLib X509 CertId) :
    h.validate L K =
      match h.beforeKey K with
      | .error ended => ended
      | .ok secret => h.serve L secret := by
  unfold validate beforeKey
  cases h.caCert with
  | none => rfl
  | some ca =>
      cases h.serverCert with
      | none => rfl
      | some server =>
          dsimp only
          split
          · rfl
          · split
            · rfl
            · exact h.connect_eq L

/-- `main` generates a key, or it goes up to the key and on from there. -/
theorem main_eq (L : Lib) (K : PkiLib X509 CertId) :
    h.main L K =
      if ¬ h.oqsLoads then .exit 1
      else
        match h.generates with
        | some path => h.generateKey path
        | none =>
            match h.beforeKey K with
            | .error ended => ended
            | .ok secret => h.serve L secret := by
  unfold main generates
  rw [h.validate_eq L K]
  by_cases hloads : h.oqsLoads = true
  · rw [if_neg (not_not.mpr hloads), if_neg (not_not.mpr hloads)]
    match h.args with
    | [] => rfl
    | [_] => rfl
    | [_, _] => rfl
    | [_, mode, path] =>
        dsimp only
        by_cases hmode : mode = ascii "--generate-mldsa-key"
        · rw [if_pos hmode, if_pos hmode]
        · rw [if_neg hmode, if_neg hmode]
    | _ :: _ :: _ :: _ :: _ => rfl
  · rw [if_pos hloads, if_pos hloads]

/-- What ends before the key does not serve. -/
theorem beforeKey_ne_serving (K : PkiLib X509 CertId) (app : App) (port : Int) :
    h.beforeKey K ≠ .error (.serving app port) := by
  have hchecks : h.afterChecks ≠ .error (.serving app port) := by
    unfold afterChecks
    intro heq
    split at heq
    · cases heq
    · split at heq
      · cases heq
      · split at heq
        · cases heq
        · split at heq
          · cases heq
          · split at heq <;> cases heq
  unfold beforeKey
  intro heq
  split at heq
  · split at heq
    · cases heq
    · split at heq
      · cases heq
      · exact hchecks heq
  · cases heq

/-- A server that serves has come to the key. -/
theorem beforeKey_of_serving {L : Lib} {K : PkiLib X509 CertId} {app : App} {port : Int}
    (hs : h.main L K = .serving app port) :
    h.generates = none ∧ ∃ secret, h.beforeKey K = .ok secret := by
  rw [main_eq] at hs
  by_cases hloads : h.oqsLoads = true
  · rw [if_neg (not_not.mpr hloads)] at hs
    cases hmode : h.generates with
    | some path =>
        rw [hmode] at hs
        exact absurd hs (generateKey_not_serving path)
    | none =>
        refine ⟨rfl, ?_⟩
        rw [hmode] at hs
        dsimp only at hs
        cases hbefore : h.beforeKey K with
        | error ended =>
            rw [hbefore] at hs
            obtain rfl : ended = .serving app port := hs
            exact absurd hbefore (h.beforeKey_ne_serving K app port)
        | ok secret => exact ⟨secret, rfl⟩
  · rw [if_pos hloads] at hs
    cases hs

end Host

namespace DilithiumSigner

theorem generateKeyPair_true {s : DilithiumSigner} {o : KeygenOutcome}
    (h : (s.generateKeyPair o).1 = true) :
    ∃ key dup, o = .generated key dup ∧ (s.generateKeyPair o).2.signingKey = some key := by
  have hacquire : s.acquire (.generate o) = (true, (s.generateKeyPair o).2) := Prod.ext h rfl
  obtain ⟨key, dup, hkey, hsigning, -⟩ := acquire_true hacquire
  cases o with
  | generated key' dup' =>
      obtain ⟨rfl, rfl⟩ := Prod.mk.inj (Option.some.inj hkey)
      exact ⟨key', dup', rfl, hsigning⟩
  | _ => cases hkey

theorem loadPrivateKey_true {s : DilithiumSigner} {o : LoadOutcome}
    (h : (s.loadPrivateKey o).1 = true) :
    ∃ key, o = .key key true ∧ (s.loadPrivateKey o).2.signingKey = some key ∧
      (s.loadPrivateKey o).2.publicPart = some key.pub := by
  cases o with
  | key key dup =>
      cases dup with
      | true => exact ⟨key, rfl, members_of_alloc _ key⟩
      | false => cases h
  | _ => cases h

end DilithiumSigner

/-! ### One process -/

variable {X509 CertId : Type}

/-- A process: its host but for the key file, which of the calls on that file and on the key
succeed, and how writing a new file goes. -/
structure Process (X509 : Type) where
  host : Host X509
  opens : Bool
  parses : Bool
  dup : Bool
  exports : Bool
  create : Creation

namespace Process

variable (K : PkiLib X509 CertId) (W : PrivatePem) (p : Process X509) (files : Files)

/-- The path of the key in this process. -/
def path : Bytes := p.host.generates.getD p.host.keyPath

/-- How `loadPrivateKey` ends on what is at the path. -/
def load (file : Option Bytes) : DilithiumSigner.LoadOutcome :=
  match file with
  | none => .noFile
  | some content =>
      if ¬ p.opens then .noFile
      else
        match if p.parses then W.read content else none with
        | none => .noKey
        | some key => .key key p.dup

/-- The process in front of these files. -/
def on : Host X509 :=
  { p.host with
    keyFile := fun path => p.load W (files path)
    writes := fun path => (writePrivateKeyFile (files path) p.create
      ((DilithiumSigner.fresh.generateKeyPair p.host.keygen).2.exportPrivateKeyPEM W p.exports)).1 }

/-- Writing the key of a signer to a path: the files it leaves, and the key if it is reported
as written. -/
def save (path : Bytes) (s : DilithiumSigner) : Files × Option (Bytes × PKey) :=
  let saved := writePrivateKeyFile (files path) p.create (s.exportPrivateKeyPEM W p.exports)
  (Function.update files path saved.2, if saved.1 then s.signingKey.map (path, ·) else none)

/-- What a process does about the key: the files it leaves, and the key it has loaded or
reported as written, with its path. -/
def run : Files × Option (Bytes × PKey) :=
  let h := p.on W files
  if ¬ h.oqsLoads then (files, none)
  else
    match h.generates with
    | some path =>
        let generated := DilithiumSigner.fresh.generateKeyPair h.keygen
        if generated.1 then p.save W files path generated.2 else (files, none)
    | none =>
        match h.beforeKey K with
        | .error _ => (files, none)
        | .ok _ =>
            let loaded := DilithiumSigner.fresh.loadPrivateKey (h.keyFile h.keyPath)
            if loaded.1 then (files, loaded.2.signingKey.map (h.keyPath, ·))
            else
              let generated := loaded.2.generateKeyPair h.keygen
              if generated.1 then p.save W files h.keyPath generated.2 else (files, none)

variable {p files}

/-- What is reported as written is the key of the signer. -/
theorem save_some {path : Bytes} {s : DilithiumSigner} {named : Bytes × PKey}
    (h : (p.save W files path s).2 = some named) :
    named.1 = path ∧ s.signingKey = some named.2 ∧
      (writePrivateKeyFile (files path) p.create (s.exportPrivateKeyPEM W p.exports)).1 = true := by
  unfold save at h
  dsimp only at h
  by_cases hsaved : (writePrivateKeyFile (files path) p.create
      (s.exportPrivateKeyPEM W p.exports)).1 = true
  · rw [if_pos hsaved] at h
    obtain ⟨key, hkey, rfl⟩ := Option.map_eq_some_iff.mp h
    exact ⟨rfl, hkey, hsaved⟩
  · rw [if_neg hsaved] at h
    cases h

/-- A file that is there stays as it is. -/
theorem save_keeps {path path' content : Bytes} (s : DilithiumSigner)
    (h : files path' = some content) : (p.save W files path s).1 path' = some content := by
  unfold save
  dsimp only
  by_cases hpath : path' = path
  · rw [hpath, Function.update_self, ← hpath, h, writePrivateKeyFile_some]
  · rw [Function.update_of_ne hpath, h]

variable (p files) in
/-- What a process can do: nothing, load the key, or generate one and try to write it. -/
theorem run_cases :
    p.run K W files = (files, none) ∨
    (∃ key, p.load W (files p.path) = .key key true ∧
      p.run K W files = (files, some (p.path, key))) ∨
    ∃ s key dup, p.host.keygen = .generated key dup ∧ s.signingKey = some key ∧
      p.run K W files = p.save W files p.path s := by
  unfold run
  dsimp only
  by_cases hloads : (p.on W files).oqsLoads = true
  · rw [if_neg (not_not.mpr hloads)]
    cases hmode : (p.on W files).generates with
    | some path =>
        have hpath : p.path = path := congrArg (Option.getD · p.host.keyPath) hmode
        dsimp only
        split
        · rename_i hgenerated
          obtain ⟨key, dup, hkeygen, hkey⟩ := DilithiumSigner.generateKeyPair_true hgenerated
          exact Or.inr (Or.inr ⟨_, key, dup, hkeygen, hkey, by rw [hpath]⟩)
        · exact Or.inl rfl
    | none =>
        have hpath : p.path = (p.on W files).keyPath :=
          congrArg (Option.getD · p.host.keyPath) hmode
        dsimp only
        split
        · exact Or.inl rfl
        · split
          · rename_i hloaded
            obtain ⟨key, hkey, hsigning, -⟩ := DilithiumSigner.loadPrivateKey_true hloaded
            rw [hsigning, ← hpath]
            refine Or.inr (Or.inl ⟨key, ?_, rfl⟩)
            rw [hpath]
            exact hkey
          · split
            · rename_i hgenerated
              obtain ⟨key, dup, hkeygen, hkey⟩ := DilithiumSigner.generateKeyPair_true hgenerated
              exact Or.inr (Or.inr ⟨_, key, dup, hkeygen, hkey, by rw [hpath]⟩)
            · exact Or.inl rfl
  · rw [if_pos hloads]
    exact Or.inl rfl

theorem run_keeps {path content : Bytes} (h : files path = some content) :
    (p.run K W files).1 path = some content := by
  rcases run_cases K W p files with hrun | ⟨key, -, hrun⟩ | ⟨s, key, dup, -, -, hrun⟩
  · rw [hrun]
    exact h
  · rw [hrun]
    exact h
  · rw [hrun]
    exact save_keeps W s h

/-- In the mode that generates a key, the process exits with 0 exactly if it has written it. -/
theorem generates_exit {path : Bytes} (L : Lib) (hmode : p.host.generates = some path)
    (hloads : p.host.oqsLoads = true) :
    (p.on W files).main L K = .exit 0 ↔ (p.run K W files).2.isSome = true := by
  have hloads' : (p.on W files).oqsLoads = true := hloads
  have hmode' : (p.on W files).generates = some path := hmode
  have hmain : (p.on W files).main L K =
      if (DilithiumSigner.fresh.generateKeyPair p.host.keygen).1 &&
          (writePrivateKeyFile (files path) p.create ((DilithiumSigner.fresh.generateKeyPair
            p.host.keygen).2.exportPrivateKeyPEM W p.exports)).1 then .exit 0 else .exit 1 := by
    rw [Host.main_eq, if_neg (not_not.mpr hloads'), hmode']
    rfl
  have hrun : p.run K W files =
      if (DilithiumSigner.fresh.generateKeyPair p.host.keygen).1 then
        p.save W files path (DilithiumSigner.fresh.generateKeyPair p.host.keygen).2
      else (files, none) := by
    unfold run
    dsimp only
    rw [if_neg (not_not.mpr hloads'), hmode']
    rfl
  rw [hmain, hrun]
  by_cases hgenerated : (DilithiumSigner.fresh.generateKeyPair p.host.keygen).1 = true
  · obtain ⟨key, dup, -, hkey⟩ := DilithiumSigner.generateKeyPair_true hgenerated
    rw [if_pos hgenerated, save, hgenerated, Bool.true_and]
    dsimp only
    rw [hkey]
    split
    · exact iff_of_true rfl rfl
    · exact iff_of_false (fun h => by cases h) (fun h => by cases h)
  · rw [if_neg (fun hboth => hgenerated (Bool.and_eq_true_iff.mp hboth).1), if_neg hgenerated]
    exact iff_of_false (fun h => by cases h) (fun h => by cases h)

end Process

/-! ### A sequence of processes -/

/-- The files, and the keys that processes have loaded or reported as written so far. -/
structure KeyState where
  files : Files
  established : List (Bytes × PKey)

namespace KeyState

variable (K : PkiLib X509 CertId) (W : PrivatePem)

def step (s : KeyState) (p : Process X509) : KeyState :=
  ⟨(p.run K W s.files).1, s.established ++ (p.run K W s.files).2.toList⟩

/-- After these processes, one after another. -/
def after (s : KeyState) (ps : List (Process X509)) : KeyState := ps.foldl (step K W) s

/-- Every established key is in its file. -/
def Kept (s : KeyState) : Prop :=
  ∀ path key, (path, key) ∈ s.established →
    ∃ content, s.files path = some content ∧ W.read content = some key

/-- The process neither saves the text of a failed export, nor, as a server, fails to load a key
that has been established and makes another one. -/
structure Careful (s : KeyState) (p : Process X509) : Prop where
  exported : p.exports = false → (writePrivateKeyFile (s.files p.path) p.create []).1 = false
  loaded : p.host.generates = none → (∃ secret, p.host.beforeKey K = .ok secret) →
    (∃ key, (p.host.keyPath, key) ∈ s.established) →
    (p.opens = true ∧ p.parses = true ∧ p.dup = true) ∨
      ∀ key dup, p.host.keygen ≠ .generated key dup

variable {K W} {s : KeyState} {p : Process X509}

/-- What a load delivers was read from the file. -/
theorem read_of_load {file : Option Bytes} {key : PKey} (h : p.load W file = .key key true) :
    ∃ content, file = some content ∧ W.read content = some key := by
  cases file with
  | none => cases h
  | some content =>
      refine ⟨content, rfl, ?_⟩
      unfold Process.load at h
      dsimp only at h
      by_cases hopens : p.opens = true
      · rw [if_neg (not_not.mpr hopens)] at h
        by_cases hparses : p.parses = true
        · rw [if_pos hparses] at h
          cases hread : W.read content with
          | none =>
              rw [hread] at h
              cases h
          | some key' =>
              rw [hread] at h
              obtain ⟨rfl, -⟩ := DilithiumSigner.LoadOutcome.key.inj h
              rfl
        · rw [if_neg hparses] at h
          cases h
      · rw [if_pos hopens] at h
        cases h

/-- A load in which nothing fails delivers what the file holds. -/
theorem load_of_read {content : Bytes} {key : PKey} (hread : W.read content = some key)
    (hopens : p.opens = true) (hparses : p.parses = true) :
    p.load W (some content) = .key key p.dup := by
  unfold Process.load
  dsimp only
  rw [if_neg (not_not.mpr hopens), if_pos hparses, hread]

/-- **One process.**  A careful one keeps every established key in its file. -/
theorem Kept.step (hs : s.Kept W) (hcareful : s.Careful K p)
    (hpem : ∀ key dup, p.host.keygen = .generated key dup → W.read (W.write key) = some key) :
    (s.step K W p).Kept W := by
  intro path key hmem
  rcases List.mem_append.mp hmem with hold | hnew
  · obtain ⟨content, hfile, hread⟩ := hs path key hold
    exact ⟨content, Process.run_keeps K W hfile, hread⟩
  · -- the key this process has loaded or written
    have hrun : (p.run K W s.files).2 = some (path, key) := by
      rw [Option.mem_toList] at hnew
      exact hnew
    rcases Process.run_cases K W p s.files with
      heq | ⟨key', hload, heq⟩ | ⟨signer, key', dup, hkeygen, hsigning, heq⟩
    · rw [heq] at hrun
      cases hrun
    · rw [heq] at hrun
      obtain ⟨rfl, rfl⟩ := Prod.mk.inj (Option.some.inj hrun)
      obtain ⟨content, hfile, hread⟩ := read_of_load hload
      refine ⟨content, ?_, hread⟩
      show (p.run K W s.files).1 p.path = some content
      rw [heq]
      exact hfile
    · rw [heq] at hrun
      obtain ⟨hpath, hkey, hsaved⟩ := Process.save_some W hrun
      dsimp only at hpath hkey
      obtain rfl := hpath
      obtain rfl := Option.some.inj (hsigning.symm.trans hkey)
      have hexports : p.exports = true := by
        by_contra hfails
        have hempty : signer.exportPrivateKeyPEM W p.exports = [] := by
          rw [DilithiumSigner.exportPrivateKeyPEM, hsigning]
          exact if_neg hfails
        rw [hempty, hcareful.exported (Bool.not_eq_true _ ▸ hfails)] at hsaved
        cases hsaved
      have hpemtext : signer.exportPrivateKeyPEM W p.exports = W.write key' := by
        rw [DilithiumSigner.exportPrivateKeyPEM, hsigning]
        exact if_pos hexports
      refine ⟨W.write key', ?_, hpem key' dup hkeygen⟩
      show (p.run K W s.files).1 p.path = some (W.write key')
      rw [heq, ← hpemtext, ← writePrivateKeyFile_true hsaved]
      exact Function.update_self _ _ _

theorem after_append (s : KeyState) (ps qs : List (Process X509)) :
    s.after K W (ps ++ qs) = (s.after K W ps).after K W qs := List.foldl_append ..

/-- What is established stays so. -/
theorem established_after {named : Bytes × PKey} (ps : List (Process X509)) :
    ∀ {s : KeyState}, named ∈ s.established → named ∈ (s.after K W ps).established := by
  induction ps with
  | nil => intro s h; exact h
  | cons p rest ih =>
      intro s h
      exact ih (s := s.step K W p) (List.mem_append_left _ h)

/-- **A sequence.**  Careful processes keep every established key in its file. -/
theorem kept_after : ∀ {ps : List (Process X509)} {s : KeyState}, s.Kept W →
    (∀ p ∈ ps, ∀ key dup, p.host.keygen = .generated key dup → W.read (W.write key) = some key) →
    (∀ before p rest, ps = before ++ p :: rest → (s.after K W before).Careful K p) →
    (s.after K W ps).Kept W := by
  intro ps
  induction ps with
  | nil => intro s hs _ _; exact hs
  | cons p rest ih =>
      intro s hs hpem hcareful
      have hstep := hs.step (hcareful [] p rest rfl) (hpem p (List.mem_cons_self ..))
      refine ih hstep (fun q hq => hpem q (List.mem_cons_of_mem p hq)) ?_
      intro before q after hrest
      exact hcareful (p :: before) q after (by rw [hrest]; rfl)

/-- A careful server that serves has the established key. -/
theorem serving_established {L : Lib} {app : App} {port : Int} {key : PKey} (hs : s.Kept W)
    (hcareful : s.Careful K p) (hkey : (p.host.keyPath, key) ∈ s.established)
    (hserving : (p.on W s.files).main L K = .serving app port) :
    app.signer.signingKey = some key ∧ app.signer.publicPart = some key.pub := by
  obtain ⟨hmode, hbefore⟩ := Host.beforeKey_of_serving _ hserving
  obtain ⟨content, hfile, hread⟩ := hs _ key hkey
  have hsigner : (if (DilithiumSigner.fresh.loadPrivateKey (p.load W (s.files p.host.keyPath))).1
      then DilithiumSigner.fresh.loadPrivateKey (p.load W (s.files p.host.keyPath))
      else (DilithiumSigner.fresh.loadPrivateKey
        (p.load W (s.files p.host.keyPath))).2.generateKeyPair p.host.keygen) =
      (true, app.signer) := (Host.serving_cases hserving).2.2
  by_cases hloaded :
      (DilithiumSigner.fresh.loadPrivateKey (p.load W (s.files p.host.keyPath))).1 = true
  · obtain ⟨key', hload, hsigning, hpublic⟩ := DilithiumSigner.loadPrivateKey_true hloaded
    obtain ⟨content', hfile', hread'⟩ := read_of_load hload
    obtain rfl : content = content' := Option.some.inj (hfile.symm.trans hfile')
    obtain rfl : key = key' := Option.some.inj (hread.symm.trans hread')
    rw [if_pos hloaded] at hsigner
    rw [← (Prod.mk.inj hsigner).2]
    exact ⟨hsigning, hpublic⟩
  · exfalso
    rcases hcareful.loaded hmode hbefore ⟨key, hkey⟩ with ⟨hopens, hparses, hdup⟩ | hnokey
    · rw [hfile, load_of_read hread hopens hparses, hdup] at hloaded
      exact hloaded rfl
    · rw [if_neg hloaded] at hsigner
      obtain ⟨key', dup, hkeygen, -⟩ :=
        DilithiumSigner.generateKeyPair_true (congrArg Prod.fst hsigner)
      exact hnokey key' dup hkeygen

end KeyState

/-- **The signing key survives restarts.**  In a sequence of careful processes, a server that
serves signs and verifies with the key an earlier process has loaded from its path, or has
reported as written there; so what was signed with that key still verifies. -/
theorem key_survives {K : PkiLib X509 CertId} {W : PrivatePem} {L : Lib} {files : Files}
    {ps : List (Process X509)}
    (hpem : ∀ p ∈ ps, ∀ key dup, p.host.keygen = .generated key dup →
      W.read (W.write key) = some key)
    (hcareful : ∀ before p rest, ps = before ++ p :: rest →
      (KeyState.after K W ⟨files, []⟩ before).Careful K p)
    {before middle rest : List (Process X509)} {p q : Process X509}
    (hps : ps = before ++ p :: middle ++ q :: rest) {key : PKey}
    (hkey : (p.run K W (KeyState.after K W ⟨files, []⟩ before).files).2 =
      some (q.host.keyPath, key)) {app : App} {port : Int}
    (hserving : (q.on W (KeyState.after K W ⟨files, []⟩ (before ++ p :: middle)).files).main L K =
      .serving app port) :
    app.signer.signingKey = some key ∧ app.signer.publicPart = some key.pub ∧
      ((∀ r data signature, L.digestSign key r data = some signature →
          L.verifyInit key.pub = true ∧ L.digestVerify key.pub signature data = true) →
        ∀ r data signature, L.digestSign key r data = some signature →
          app.signer.verify L .ok data signature = .ok true) := by
  have hkept : (KeyState.after K W ⟨files, []⟩ (before ++ p :: middle)).Kept W := by
    refine KeyState.kept_after ?_ ?_ ?_
    · intro path key hmem
      cases hmem
    · intro p' hp' key dup hkeygen
      exact hpem p' (by rw [hps]; exact List.mem_append_left _ hp') key dup hkeygen
    · intro before' p' rest' hsplit
      exact hcareful before' p' (rest' ++ q :: rest) (by rw [hps, hsplit]; simp)
  have hestablished : (q.host.keyPath, key) ∈
      (KeyState.after K W ⟨files, []⟩ (before ++ p :: middle)).established := by
    rw [KeyState.after_append]
    refine KeyState.established_after middle (List.mem_append_right _ ?_)
    rw [hkey]
    exact List.mem_singleton_self _
  obtain ⟨hsigning, hpublic⟩ := KeyState.serving_established hkept
    (hcareful (before ++ p :: middle) q rest hps) hestablished hserving
  refine ⟨hsigning, hpublic, ?_⟩
  intro hconsistent r data signature hsign
  obtain ⟨hinit, haccepts⟩ := hconsistent r data signature hsign
  rw [DilithiumSigner.verify_of_publicPart hpublic, DilithiumSigner.digestVerify, hinit, haccepts]
  rfl

/-! ### Two processes -/

namespace Sample

/-- A stand-in for PEM that takes three lines. -/
def privatePem : PrivatePem where
  read s := (splitOnce 10 s).bind fun p => (splitOnce 10 p.2).bind fun q =>
    (["ML-DSA-65", "mldsa65", "RSA"].find? fun name => ascii name = p.1).map fun name =>
      ⟨⟨name, q.1⟩, some q.2⟩
  write key := ascii key.pub.algorithm ++ 10 :: (key.pub.value ++ 10 :: key.priv.getD [])

/-- A short key. -/
def keyOf (n : UInt8) : PKey := ⟨⟨"ML-DSA-65", [n]⟩, some [n]⟩

/-- A server that would generate this key, and for which everything goes well. -/
def restarted (n : UInt8) : Process Bytes where
  host := { host "two" with keygen := .generated (keyOf n) true }
  opens := true
  parses := true
  dup := true
  exports := true
  create := .created 13 true 0

/-- The path of its key. -/
def keyPath : Bytes := ascii "/certs/mldsa_server.key"

/-- A process that only generates this key. -/
def generating (n : UInt8) : Process Bytes :=
  { restarted n with host := { (restarted n).host with
      args := [ascii "pqc-api", ascii "--generate-mldsa-key", keyPath] } }

end Sample

/-- The first process writes a key and exits with 0, the second has another one at hand but loads
that. -/
theorem key_survives_sample :
    ((Sample.generating 1).on Sample.privatePem fun _ => none).main Sample.lib Sample.pki =
        .exit 0 ∧
    ∃ app port, ((Sample.restarted 2).on Sample.privatePem
        (KeyState.after Sample.pki Sample.privatePem ⟨fun _ => none, []⟩ [Sample.generating 1]
          ).files).main Sample.lib Sample.pki = .serving app port ∧
      app.signer.signingKey = some (Sample.keyOf 1) := by
  have hmode : (Sample.generating 1).host.generates = some Sample.keyPath := rfl
  refine ⟨(Process.generates_exit _ _ Sample.lib hmode rfl).mpr rfl, ?_⟩
  have hserving : ∃ app port, ((Sample.restarted 2).on Sample.privatePem
      (KeyState.after Sample.pki Sample.privatePem ⟨fun _ => none, []⟩
        ([] ++ Sample.generating 1 :: [])).files).main Sample.lib Sample.pki = .serving app port :=
    ⟨_, _, rfl⟩
  obtain ⟨app, port, hserving⟩ := hserving
  have hpem : ∀ p ∈ [Sample.generating 1, Sample.restarted 2], ∀ key dup,
      p.host.keygen = .generated key dup →
        Sample.privatePem.read (Sample.privatePem.write key) = some key := by
    intro p hp key dup hkeygen
    rcases List.mem_pair.mp hp with rfl | rfl
    · obtain ⟨rfl, -⟩ := DilithiumSigner.KeygenOutcome.generated.inj hkeygen
      rfl
    · obtain ⟨rfl, -⟩ := DilithiumSigner.KeygenOutcome.generated.inj hkeygen
      rfl
  have hcareful : ∀ before p rest, [Sample.generating 1, Sample.restarted 2] = before ++ p :: rest →
      (KeyState.after Sample.pki Sample.privatePem ⟨fun _ => none, []⟩ before).Careful
        Sample.pki p := by
    intro before p rest hps
    have hmem : p ∈ [Sample.generating 1, Sample.restarted 2] := by
      rw [hps]
      exact List.mem_append_right _ (List.mem_cons_self ..)
    rcases List.mem_pair.mp hmem with rfl | rfl
    · exact ⟨(fun h => by cases h), fun _ _ _ => Or.inl ⟨rfl, rfl, rfl⟩⟩
    · exact ⟨(fun h => by cases h), fun _ _ _ => Or.inl ⟨rfl, rfl, rfl⟩⟩
  exact ⟨app, port, hserving, (key_survives hpem hcareful rfl rfl hserving).1⟩

/-- **Another key is served with.**  The first server has saved its key, and the second cannot
open the file; or the first has saved the empty text of a failed export, and the second finds no
key there. -/
theorem key_replaced :
    (∃ app port,
      ((Sample.restarted 1).run Sample.pki Sample.privatePem fun _ => none).2 =
        some (Sample.keyPath, Sample.keyOf 1) ∧
      (({ Sample.restarted 2 with opens := false }).on Sample.privatePem
        ((Sample.restarted 1).run Sample.pki Sample.privatePem fun _ => none).1).main Sample.lib
          Sample.pki = .serving app port ∧
      app.signer.signingKey = some (Sample.keyOf 2)) ∧
    ∃ app port,
      (({ Sample.restarted 1 with exports := false, create := .created 0 true 0 }).run Sample.pki
        Sample.privatePem fun _ => none).2 = some (Sample.keyPath, Sample.keyOf 1) ∧
      ((Sample.restarted 2).on Sample.privatePem
        (({ Sample.restarted 1 with exports := false, create := .created 0 true 0 }).run Sample.pki
          Sample.privatePem fun _ => none).1).main Sample.lib Sample.pki = .serving app port ∧
      app.signer.signingKey = some (Sample.keyOf 2) :=
  ⟨⟨_, _, rfl, rfl, rfl⟩, ⟨_, _, rfl, rfl, rfl⟩⟩

end PqcApi
