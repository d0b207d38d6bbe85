/-
What a failed load does to the signer.

The loaders free the old keys before they know that there are new ones.  A load that fails
afterwards has left the signer without them, and `loadPrivateKey` even leaves the public
member pointing to the key it has freed.  So a failed load changes nothing exactly when there
was nothing to lose.
-/
import PqcApi.Crypto.DilithiumSigner

namespace PqcApi

namespace DilithiumSigner

/-! ### Sequences of calls -/

/-- A call that changes the keys, and how the calls inside it end. -/
inductive KeyOp
  | generateKeyPair (o : KeygenOutcome)
  | loadPrivateKey (o : LoadOutcome)
  | loadPublicKey (o : PublicLoadOutcome)

/-- What it returns, and the signer it leaves. -/
def KeyOp.run (s : DilithiumSigner) : KeyOp → Bool × DilithiumSigner
  | .generateKeyPair o => s.generateKeyPair o
  | .loadPrivateKey o => s.loadPrivateKey o
  | .loadPublicKey o => s.loadPublicKey o

/-- It is one of the two loaders. -/
def KeyOp.IsLoad : KeyOp → Prop
  | .generateKeyPair _ => False
  | .loadPrivateKey _ => True
  | .loadPublicKey _ => True

/-- The signer after a sequence of calls, whatever they returned. -/
def after (s : DilithiumSigner) (ops : List KeyOp) : DilithiumSigner :=
  ops.foldl (fun s op => (op.run s).2) s

/-! ### What a caller sees -/

/-- The two signers cannot be told apart by the functions that use the keys. -/
structure Unchanged (L : Lib) (s s' : DilithiumSigner) : Prop where
  sign : ∀ (τ : Type) (data : Bytes), (s'.sign data : Action τ Bytes) = s.sign data
  verify : ∀ o data signature, s'.verify L o data signature = s.verify L o data signature
  own : ∀ o pem, s'.isOwnPublicKey L o pem = s.isOwnPublicKey L o pem
  exported : ∀ ok, s'.exportPublicKeyPEM L ok = s.exportPublicKeyPEM L ok

theorem Unchanged.refl (L : Lib) (s : DilithiumSigner) : Unchanged L s s :=
  ⟨fun _ _ => rfl, fun _ _ _ => rfl, fun _ _ => rfl, fun _ => rfl⟩

/-- No member points to a key that has been freed. -/
structure NoDangling (s : DilithiumSigner) : Prop where
  privateKey : ∀ p, s.privateKey = some p → (s.heap.deref p).isSome
  publicKey : ∀ p, s.publicKey = some p → (s.heap.deref p).isSome

/-- The call leaves no dangling member, and a load that fails leaves the signer as it was. -/
structure Keeps (L : Lib) (s : DilithiumSigner) (op : KeyOp) : Prop where
  unchanged : op.IsLoad → (op.run s).1 = false → Unchanged L s (op.run s).2
  noDangling : (op.run s).2.NoDangling

/-- A load that will fail with the file open has nothing to lose: no keys, or, where only
the duplicate is missing, just the private key it reads. -/
def Spares (s : DilithiumSigner) : KeyOp → Prop
  | .loadPrivateKey .noKey => s.privateKey = none ∧ s.publicKey = none
  | .loadPrivateKey (.key key false) => s.signingKey = some key ∧ s.publicKey = none
  | .loadPublicKey .noKey => s.publicKey = none
  | _ => True

/-! ### The members and the table -/

/-- The members point to two keys that are there. -/
structure Wf (s : DilithiumSigner) : Prop where
  noDangling : s.NoDangling
  distinct : ∀ p q, s.privateKey = some p → s.publicKey = some q → p ≠ q

theorem wf_fresh : fresh.Wf := by
  refine ⟨⟨?_, ?_⟩, ?_⟩
  · intro p hp
    cases hp
  · intro p hp
    cases hp
  · intro p q hp
    cases hp

/-- A new key pair, behind whatever is in the table. -/
theorem wf_pair (h : KeyHeap) (key : PKey) :
    (⟨some h.length, some (h.alloc key).length, (h.alloc key).alloc key⟩ : DilithiumSigner).Wf := by
  refine ⟨⟨?_, ?_⟩, ?_⟩
  · rintro p ⟨⟩
    rw [KeyHeap.deref_alloc_of_some key (KeyHeap.deref_alloc h key)]
    rfl
  · rintro p ⟨⟩
    rw [KeyHeap.deref_alloc]
    rfl
  · rintro p q ⟨⟩ ⟨⟩
    simp [KeyHeap.alloc]

/-- A new private key alone. -/
theorem wf_private (h : KeyHeap) (key : PKey) :
    (⟨some h.length, none, h.alloc key⟩ : DilithiumSigner).Wf := by
  refine ⟨⟨?_, ?_⟩, ?_⟩
  · rintro p ⟨⟩
    rw [KeyHeap.deref_alloc]
    rfl
  · intro p hp
    cases hp
  · intro p q _ hq
    cases hq

/-- A new public key beside the private one. -/
theorem Wf.loadPublic {s : DilithiumSigner} (hs : s.Wf) (key : PubKey) :
    (s.loadPublicKey (.key key)).2.Wf := by
  have hfree : ∀ p k, s.privateKey = some p → s.heap.deref p = some k →
      (s.heap.free s.publicKey).deref p = some k := by
    intro p k hp hk
    cases hq : s.publicKey with
    | none => exact hk
    | some q => rw [KeyHeap.deref_free_of_ne _ (Ne.symm (hs.distinct p q hp hq)), hk]
  refine ⟨⟨?_, ?_⟩, ?_⟩
  · intro p hp
    obtain ⟨k, hk⟩ := Option.isSome_iff_exists.mp (hs.noDangling.privateKey p hp)
    have hderef := KeyHeap.deref_alloc_of_some (⟨key, none⟩ : PKey) (hfree p k hp hk)
    exact Option.isSome_iff_exists.mpr ⟨k, hderef⟩
  · rintro p ⟨⟩
    exact Option.isSome_iff_exists.mpr ⟨⟨key, none⟩, KeyHeap.deref_alloc _ _⟩
  · rintro p q hp ⟨⟩
    obtain ⟨k, hk⟩ := Option.isSome_iff_exists.mp (hs.noDangling.privateKey p hp)
    exact Nat.ne_of_lt (KeyHeap.lt_length_of_deref (hfree p k hp hk))

/-- A signer without keys has none to free. -/
theorem loadPrivateKey_noKey_eq {s : DilithiumSigner} (hpriv : s.privateKey = none)
    (hpub : s.publicKey = none) : s.loadPrivateKey .noKey = (false, s) := by
  obtain ⟨priv, pub, heap⟩ := s
  obtain rfl : priv = none := hpriv
  obtain rfl : pub = none := hpub
  rfl

theorem loadPublicKey_noKey_eq {s : DilithiumSigner} (hpub : s.publicKey = none) :
    s.loadPublicKey .noKey = (false, s) := by
  obtain ⟨priv, pub, heap⟩ := s
  obtain rfl : pub = none := hpub
  rfl

/-! ### One call -/

theorem sign_of_signingKey {τ : Type} {s : DilithiumSigner} {key : PKey}
    (h : s.signingKey = some key) (data : Bytes) :
    (s.sign data : Action τ Bytes) =
      .call (S := services τ) (.digestSign key data) fun signature : Option Bytes =>
        match signature with
        | some signature => .ret signature
        | none => .throw (.runtime "[DilithiumSigner] Signing failed") := by
  obtain ⟨p, hp, hk⟩ := Option.bind_eq_some_iff.mp h
  simp only [sign, hp, hk]
  rfl

/-- A signer that signs as with this key has it. -/
theorem signingKey_of_sign {s : DilithiumSigner} {key : PKey} {data : Bytes}
    {k : Option Bytes → Action Unit Bytes}
    (h : (s.sign data : Action Unit Bytes) =
      .call (S := services Unit) (.digestSign key data) k) : s.signingKey = some key := by
  unfold sign at h
  split at h
  · cases h
  · rename_i p hp
    split at h
    · cases h
    · rename_i key' hk
      obtain rfl := (Cmd.digestSign.inj (Concurrent.Program.call.inj h).1).1
      rw [signingKey, hp]
      exact hk

/-- A signer that says it has no key has none. -/
theorem privateKey_of_sign {s : DilithiumSigner} {data : Bytes}
    (h : (s.sign data : Action Unit Bytes) =
      .throw (.runtime "[DilithiumSigner] No private key loaded")) : s.privateKey = none := by
  unfold sign at h
  split at h
  · assumption
  · split at h
    · injection h with hmessage
      exact absurd hmessage (by decide)
    · cases h

theorem publicKey_of_verify {L : Lib} {s : DilithiumSigner} {o : Allocs} {data signature : Bytes}
    (h : s.verify L o data signature =
      .error (.runtime "[DilithiumSigner] No public key loaded")) : s.publicKey = none := by
  unfold verify at h
  split at h
  · assumption
  · split at h
    · injection h with hmessage
      exact absurd hmessage (by decide)
    · cases h

variable {L : Lib} {s : DilithiumSigner}

/-- A call that spares the keys leaves the members in order. -/
theorem Wf.run (hs : s.Wf) {op : KeyOp} (h : Spares s op) : (op.run s).2.Wf := by
  cases op with
  | generateKeyPair o =>
      cases o with
      | generated key dup =>
          cases dup with
          | true => exact wf_pair s.heap key
          | false => exact wf_private s.heap key
      | _ => exact hs
  | loadPrivateKey o =>
      cases o with
      | noFile => exact hs
      | noKey =>
          show (s.loadPrivateKey .noKey).2.Wf
          rw [loadPrivateKey_noKey_eq h.1 h.2]
          exact hs
      | key key dup =>
          cases dup with
          | true => exact wf_pair _ key
          | false => exact wf_private _ key
  | loadPublicKey o =>
      cases o with
      | noFile => exact hs
      | noKey =>
          show (s.loadPublicKey .noKey).2.Wf
          rw [loadPublicKey_noKey_eq h]
          exact hs
      | key key => exact hs.loadPublic key

/-- Reading the private key the signer has, without a duplicate, where there was none. -/
theorem unchanged_reload {key : PKey} (hkey : s.signingKey = some key) (hpub : s.publicKey = none) :
    Unchanged L s (s.loadPrivateKey (.key key false)).2 := by
  have hnew : (s.loadPrivateKey (.key key false)).2.signingKey = some key :=
    KeyHeap.deref_alloc _ key
  refine ⟨?_, ?_, ?_, ?_⟩
  · intro τ data
    rw [sign_of_signingKey hkey, sign_of_signingKey hnew]
  · intro o data signature
    simp only [verify, hpub]
    rfl
  · intro o pem
    simp only [isOwnPublicKey, hpub]
    rfl
  · intro ok
    simp only [exportPublicKeyPEM, publicPart, hpub]
    rfl

/-- **A call that spares the keys** keeps them. -/
theorem keeps_of_spares (hs : s.Wf) {op : KeyOp} (h : Spares s op) : Keeps L s op := by
  refine ⟨?_, (hs.run h).noDangling⟩
  intro hload hfalse
  cases op with
  | generateKeyPair o => exact hload.elim
  | loadPrivateKey o =>
      cases o with
      | noFile => exact .refl L s
      | noKey =>
          show Unchanged L s (s.loadPrivateKey .noKey).2
          rw [loadPrivateKey_noKey_eq h.1 h.2]
          exact .refl L s
      | key key dup =>
          cases dup with
          | true => cases hfalse
          | false => exact unchanged_reload h.1 h.2
  | loadPublicKey o =>
      cases o with
      | noFile => exact .refl L s
      | noKey =>
          show Unchanged L s (s.loadPublicKey .noKey).2
          rw [loadPublicKey_noKey_eq h]
          exact .refl L s
      | key key => cases hfalse

/-- **A call that keeps the keys** had nothing to lose. -/
theorem spares_of_keeps {op : KeyOp} (h : Keeps L s op) : Spares s op := by
  cases op with
  | generateKeyPair o => exact trivial
  | loadPrivateKey o =>
      cases o with
      | noFile => exact trivial
      | noKey =>
          have hsame := h.unchanged trivial rfl
          have hpriv := privateKey_of_sign (hsame.sign Unit []).symm
          refine ⟨hpriv, ?_⟩
          cases hpub : s.publicKey with
          | none => rfl
          | some q =>
              -- the member would still point to the key that was freed
              have hlive : (((s.heap.free s.privateKey).free s.publicKey).deref q).isSome = true :=
                h.noDangling.publicKey q hpub
              rw [hpub, KeyHeap.deref_free_self] at hlive
              cases hlive
      | key key dup =>
          cases dup with
          | true => exact trivial
          | false =>
              have hsame := h.unchanged trivial rfl
              have hsigns := sign_of_signingKey (τ := Unit)
                (show (s.loadPrivateKey (.key key false)).2.signingKey = some key from
                  KeyHeap.deref_alloc _ key) []
              exact ⟨signingKey_of_sign ((hsame.sign Unit []).symm.trans hsigns),
                publicKey_of_verify (hsame.verify .ok [] []).symm⟩
  | loadPublicKey o =>
      cases o with
      | noKey => exact publicKey_of_verify ((h.unchanged trivial rfl).verify .ok [] []).symm
      | _ => exact trivial

/-! ### Sequences -/

/-- As long as every call spares the keys, the members are in order. -/
theorem wf_after : ∀ {ops : List KeyOp} {s : DilithiumSigner}, s.Wf →
    (∀ before op rest, ops = before ++ op :: rest → Spares (s.after before) op) →
    (s.after ops).Wf := by
  intro ops
  induction ops with
  | nil => intro s hs _; exact hs
  | cons op ops ih =>
      intro s hs hall
      refine ih (hs.run (hall [] op ops rfl)) fun before op' rest hops => ?_
      exact hall (op :: before) op' rest (by rw [hops]; rfl)

/-- **When a failed load leaves the signer as it was.**  In a sequence of calls, all of them
keep the keys if and only if none of them has any to lose. -/
theorem failed_load_keeps_iff (L : Lib) (ops : List KeyOp) :
    (∀ before op rest, ops = before ++ op :: rest → Keeps L (fresh.after before) op) ↔
      ∀ before op rest, ops = before ++ op :: rest → Spares (fresh.after before) op := by
  constructor
  · intro h before op rest hops
    exact spares_of_keeps (h before op rest hops)
  · intro h before op rest hops
    have hbefore : (fresh.after before).Wf := by
      refine wf_after wf_fresh fun before' op' rest' hbefore => ?_
      exact h before' op' (rest' ++ op :: rest) (by rw [hops, hbefore]; simp)
    exact keeps_of_spares hbefore (h before op rest hops)

/-- **The keys are gone.**  After a key pair was generated, a file without a key makes
`loadPrivateKey` fail; the signer no longer signs as before, and its public member points to a
key that has been freed. -/
theorem failed_load_frees :
    let s := fresh.after [.generateKeyPair (.generated ⟨⟨"ML-DSA-65", [7]⟩, some [9]⟩ true)]
    let s' := (s.loadPrivateKey .noKey).2
    (s.loadPrivateKey .noKey).1 = false ∧ (∀ L, ¬ Unchanged L s s') ∧
      s'.publicKey = some 1 ∧ s'.heap.deref 1 = none := by
  refine ⟨rfl, ?_, rfl, rfl⟩
  intro L hsame
  cases privateKey_of_sign (hsame.sign Unit []).symm

end DilithiumSigner

end PqcApi
