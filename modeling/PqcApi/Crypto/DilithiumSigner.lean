/-
`DilithiumSigner`: the key pair, and signing and verifying with it.

Key objects live in a table and a key is a handle into it, because the loaders free
objects the members may still name.  What OpenSSL does inside a loader is an outcome
handed to it; what it computes from a key is a library function of the key.
-/
import PqcApi.Backend

namespace PqcApi

open Concurrent

/-! ### Key objects -/

/-- An `EVP_PKEY` object, and whether it has been freed. -/
structure KeyObject where
  key : PKey
  freed : Bool
  deriving DecidableEq

/-- The key objects ever made; a pointer is an index. -/
abbrev KeyHeap := List KeyObject

namespace KeyHeap

/-- What a pointer points to, if it still does. -/
def deref (h : KeyHeap) (p : Nat) : Option PKey :=
  match h[p]? with
  | some o => if o.freed then none else some o.key
  | none => none

/-- The pointer to the next object made. -/
def alloc (h : KeyHeap) (key : PKey) : KeyHeap := h ++ [⟨key, false⟩]

/-- `if (p) EVP_PKEY_free(p)`. -/
def free (h : KeyHeap) : Option Nat → KeyHeap
  | some p => h.modify p fun o => { o with freed := true }
  | none => h

theorem deref_alloc (h : KeyHeap) (key : PKey) : (h.alloc key).deref h.length = some key := by
  simp [deref, alloc]

theorem lt_length_of_deref {h : KeyHeap} {p : Nat} {k : PKey} (hp : h.deref p = some k) :
    p < h.length := by
  by_contra hge
  simp [deref, List.getElem?_eq_none (Nat.not_lt.mp hge)] at hp

theorem deref_alloc_of_some {h : KeyHeap} {p : Nat} {k : PKey} (key : PKey)
    (hp : h.deref p = some k) : (h.alloc key).deref p = some k := by
  simpa [deref, alloc, List.getElem?_append_left (lt_length_of_deref hp)] using hp

/-- Freeing one object leaves the others alone. -/
theorem deref_free_of_ne (h : KeyHeap) {p q : Nat} (hne : p ≠ q) :
    (h.free (some p)).deref q = h.deref q := by
  simp only [deref, free, List.getElem?_modify_ne _ _ hne]

/-- A freed pointer points to nothing. -/
theorem deref_free_self (h : KeyHeap) (p : Nat) : (h.free (some p)).deref p = none := by
  simp only [deref, free, List.getElem?_modify_eq]
  cases h[p]? <;> rfl

end KeyHeap

/-- A signer: the two members, and the table they point into. -/
structure DilithiumSigner where
  privateKey : Option Nat
  publicKey : Option Nat
  heap : KeyHeap
  deriving DecidableEq

namespace DilithiumSigner

/-- `DilithiumSigner()`. -/
def fresh : DilithiumSigner := ⟨none, none, []⟩

/-- oqs-provider names the key "mldsa65", OpenSSL 3.5 and later "ML-DSA-65". -/
def isMlDsa65 (L : Lib) (key : PubKey) : Bool := L.isA key "mldsa65" || L.isA key "ML-DSA-65"

/-! ### Generating and loading -/

/-- How the calls inside `generateKeyPair` end: without a key, or with one, and
`EVP_PKEY_dup` of it succeeds or not. -/
inductive KeygenOutcome
  | noContext
  | initFailed
  | generateFailed
  | generated (key : PKey) (dup : Bool)

/-- The old keys, if any, are neither freed nor looked at. -/
def generateKeyPair (s : DilithiumSigner) : KeygenOutcome → Bool × DilithiumSigner
  | .noContext => (false, s)
  | .initFailed => (false, s)
  | .generateFailed => (false, s)
  | .generated key dup =>
      let heap := s.heap.alloc key
      if dup then (true, ⟨some s.heap.length, some heap.length, heap.alloc key⟩)
      else (true, ⟨some s.heap.length, none, heap⟩)

/-- How the calls inside a loader end: the file cannot be opened, holds no key, or holds
one, and `EVP_PKEY_dup` of it succeeds or not. -/
inductive LoadOutcome
  | noFile
  | noKey
  | key (key : PKey) (dup : Bool)

/-- Both old keys are freed as soon as the file is open. -/
def loadPrivateKey (s : DilithiumSigner) : LoadOutcome → Bool × DilithiumSigner
  | .noFile => (false, s)
  | .noKey => (false, ⟨none, s.publicKey, (s.heap.free s.privateKey).free s.publicKey⟩)
  | .key key dup =>
      let freed := (s.heap.free s.privateKey).free s.publicKey
      let heap := freed.alloc key
      if dup then (true, ⟨some freed.length, some heap.length, heap.alloc key⟩)
      else (false, ⟨some freed.length, none, heap⟩)

/-- How the calls inside `loadPublicKey` end. -/
inductive PublicLoadOutcome
  | noFile
  | noKey
  | key (key : PubKey)

/-- The old public key is freed as soon as the file is open. -/
def loadPublicKey (s : DilithiumSigner) : PublicLoadOutcome → Bool × DilithiumSigner
  | .noFile => (false, s)
  | .noKey => (false, ⟨s.privateKey, none, s.heap.free s.publicKey⟩)
  | .key key =>
      let freed := s.heap.free s.publicKey
      (true, ⟨s.privateKey, some freed.length, freed.alloc ⟨key, none⟩⟩)

/-- A way to a key pair: generating one, or loading one from a file. -/
inductive Acquisition
  | generate (o : KeygenOutcome)
  | load (o : LoadOutcome)

def acquire (s : DilithiumSigner) : Acquisition → Bool × DilithiumSigner
  | .generate o => s.generateKeyPair o
  | .load o => s.loadPrivateKey o

/-- The key it comes to, and whether `EVP_PKEY_dup` of it succeeds. -/
def Acquisition.key : Acquisition → Option (PKey × Bool)
  | .generate (.generated key dup) => some (key, dup)
  | .load (.key key dup) => some (key, dup)
  | _ => none

/-! ### Signing and verifying -/

/-- `sign`; a freed key is undefined behaviour and reads as a failure here. -/
def sign {τ : Type} (s : DilithiumSigner) (data : Bytes) : Action τ Bytes :=
  match s.privateKey with
  | none => .throw (.runtime "[DilithiumSigner] No private key loaded")
  | some p =>
      match s.heap.deref p with
      | none => .throw (.runtime "use of a freed key")
      | some key => do
          let signature : Option Bytes ← ask (.digestSign key data)
          match signature with
          | some signature => return signature
          | none => .throw (.runtime "[DilithiumSigner] Signing failed")

/-- The key the signer signs with, if its member points to one. -/
def signingKey (s : DilithiumSigner) : Option PKey := s.privateKey.bind s.heap.deref

/-- Which of the allocations inside a verification succeed. -/
structure Allocs where
  bio : Bool
  mdCtx : Bool

/-- No allocation fails. -/
def Allocs.ok : Allocs := ⟨true, true⟩

/-- `EVP_DigestVerifyInit_ex` and `EVP_DigestVerify` under a fresh context. -/
def digestVerify (L : Lib) (o : Allocs) (key : PubKey) (signature data : Bytes) : Bool :=
  o.mdCtx && L.verifyInit key && L.digestVerify key signature data

def verify (L : Lib) (o : Allocs) (s : DilithiumSigner) (data signature : Bytes) :
    Except Exn Bool :=
  match s.publicKey with
  | none => .error (.runtime "[DilithiumSigner] No public key loaded")
  | some p =>
      match s.heap.deref p with
      | none => .error (.runtime "use of a freed key")
      | some key => .ok (digestVerify L o key.pub signature data)

/-- `verifyWithPEM`: the key comes with the request, and only ML-DSA-65 will do. -/
def verifyWithPEM (L : Lib) (o : Allocs) (data signature publicKeyPem : Bytes) :
    Except Exn Bool :=
  if o.bio then
    match L.pemReadPubkey publicKeyPem with
    | none => .error (.invalidArgument "Invalid PEM public key")
    | some key =>
        if isMlDsa65 L key then .ok (digestVerify L o key signature data)
        else .error (.invalidArgument "Public key must be ML-DSA-65")
  else .ok false

/-- `exportKeyPEM(key, false)`, where `ok` says that the BIO and the writing succeed; an
empty text stands for failure. -/
def exportKeyPEM (L : Lib) (ok : Bool) : Option PubKey → Bytes
  | none => []
  | some key => if ok then L.pemWritePubkey key else []

/-- The public key the signer holds, if its member points to one. -/
def publicPart (s : DilithiumSigner) : Option PubKey :=
  (s.publicKey.bind s.heap.deref).map PKey.pub

theorem verify_of_publicPart {L : Lib} {s : DilithiumSigner} {key : PubKey}
    (h : s.publicPart = some key) (o : Allocs) (data signature : Bytes) :
    s.verify L o data signature = .ok (digestVerify L o key signature data) := by
  unfold publicPart at h
  unfold verify
  cases hp : s.publicKey with
  | none => simp [hp] at h
  | some p =>
      simp only [hp, Option.bind_some] at h
      dsimp only
      cases hd : s.heap.deref p with
      | none => simp [hd] at h
      | some k =>
          rw [hd, Option.map_some, Option.some.injEq] at h
          rw [← h]

theorem verify_of_no_publicPart {L : Lib} {s : DilithiumSigner} (h : s.publicPart = none)
    (o : Allocs) (data signature : Bytes) : ∀ valid, s.verify L o data signature ≠ .ok valid := by
  unfold publicPart at h
  unfold verify
  intro valid
  cases hp : s.publicKey with
  | none => simp
  | some p =>
      simp only [hp, Option.bind_some] at h
      dsimp only
      cases hd : s.heap.deref p with
      | none => simp
      | some k => simp [hd] at h

/-- A key and its duplicate are a key pair. -/
theorem members_of_alloc (h : KeyHeap) (key : PKey) :
    (⟨some h.length, some (h.alloc key).length, (h.alloc key).alloc key⟩ :
      DilithiumSigner).signingKey = some key ∧
    (⟨some h.length, some (h.alloc key).length, (h.alloc key).alloc key⟩ :
      DilithiumSigner).publicPart = some key.pub := by
  have hpriv : ((h.alloc key).alloc key).deref h.length = some key :=
    KeyHeap.deref_alloc_of_some key (KeyHeap.deref_alloc h key)
  have hpub : ((h.alloc key).alloc key).deref (h.alloc key).length = some key :=
    KeyHeap.deref_alloc _ key
  refine ⟨hpriv, ?_⟩
  show (((h.alloc key).alloc key).deref (h.alloc key).length).map PKey.pub = _
  rw [hpub]
  rfl

/-- The signer's members are one key pair, and what it signs verifies. -/
structure KeyPair (L : Lib) (s : DilithiumSigner) (key : PKey) : Prop where
  signing : s.signingKey = some key
  verifying : s.publicPart = some key.pub
  init : L.verifyInit key.pub = true
  accepts : ∀ r data signature, L.digestSign key r data = some signature →
    L.digestVerify key.pub signature data = true

def exportPublicKeyPEM (L : Lib) (ok : Bool) (s : DilithiumSigner) : Bytes :=
  exportKeyPEM L ok s.publicPart

/-- How the calls inside `isOwnPublicKey` end: the BIO for the submitted text, and the two
exports that are compared. -/
structure OwnKeyOutcome where
  bio : Bool
  exportSubmitted : Bool
  exportOwn : Bool

/-- None of them fails. -/
def OwnKeyOutcome.ok : OwnKeyOutcome := ⟨true, true, true⟩

def isOwnPublicKey (L : Lib) (o : OwnKeyOutcome) (s : DilithiumSigner) (publicKeyPem : Bytes) :
    Bool :=
  if s.publicKey.isNone then false
  else if o.bio then
    match L.pemReadPubkey publicKeyPem with
    | none => false
    | some key =>
        exportKeyPEM L o.exportSubmitted (some key) = exportPublicKeyPEM L o.exportOwn s
  else false

/-- **A signer that says it has a key pair** has the private key, and the public one if it was
duplicated. -/
theorem acquire_true {s s' : DilithiumSigner} {a : Acquisition} (h : s.acquire a = (true, s')) :
    ∃ key dup, a.key = some (key, dup) ∧ s'.signingKey = some key ∧
      s'.publicPart = if dup then some key.pub else none := by
  cases a with
  | generate o =>
      cases o with
      | generated key dup =>
          by_cases hdup : dup = true
          · subst hdup
            obtain ⟨-, rfl⟩ := Prod.mk.inj h
            exact ⟨key, true, rfl, members_of_alloc s.heap key⟩
          · obtain rfl := Bool.not_eq_true _ ▸ hdup
            obtain ⟨-, rfl⟩ := Prod.mk.inj h
            exact ⟨key, false, rfl, KeyHeap.deref_alloc s.heap key, rfl⟩
      | _ => cases (Prod.mk.inj h).1
  | load o =>
      cases o with
      | key key dup =>
          by_cases hdup : dup = true
          · subst hdup
            obtain ⟨-, rfl⟩ := Prod.mk.inj h
            exact ⟨key, true, rfl, members_of_alloc _ key⟩
          · obtain rfl := Bool.not_eq_true _ ▸ hdup
            cases (Prod.mk.inj h).1
      | _ => cases (Prod.mk.inj h).1

end DilithiumSigner

end PqcApi
