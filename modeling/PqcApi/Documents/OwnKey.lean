/-
Whose key was submitted.

`isOwnPublicKey` parses the submitted text, writes that key and the signer's as PEM, and
compares the two texts.  A writer that fails leaves an empty text, and two empty texts are
equal.  So the answer is wrong exactly when both writers fail on two different keys, and
otherwise `server_key` can be relied on.
-/
import PqcApi.Documents.External

namespace PqcApi

/-- The PEM texts of these public keys are not empty, and different for different keys. -/
structure Lib.PemExports (L : Lib) (keys : PubKey → Prop) : Prop where
  nonempty : ∀ key, keys key → L.pemWritePubkey key ≠ []
  injective : ∀ key key', keys key → keys key' → L.pemWritePubkey key = L.pemWritePubkey key' →
    key = key'

/-! ### What an answer of the endpoint says -/

theorem verifyExternalUnder_eq {P : App} {o : DilithiumSigner.Allocs}
    {own : DilithiumSigner.OwnKeyOutcome} {req : HttpRequest} {sub : App.Submission} {valid : Bool}
    (hsub : App.submission req = .ok sub) (hne : base64Decode P.lib sub.signature ≠ [])
    (hvalid : DilithiumSigner.verifyWithPEM P.lib o sub.pdf (base64Decode P.lib sub.signature)
      sub.publicKey = .ok valid) :
    P.verifyExternalUnder o own req = ⟨200, .json (App.externalResponse valid
      (P.signer.isOwnPublicKey P.lib own sub.publicKey))⟩ := by
  simp only [App.verifyExternalUnder, hsub, if_neg hne, hvalid]

/-! ### The comparison -/

namespace DilithiumSigner

variable {L : Lib} {s : DilithiumSigner} {own : OwnKeyOutcome} {pem : Bytes}

/-- What a positive answer went through. -/
theorem isOwnPublicKey_true (h : s.isOwnPublicKey L own pem = true) :
    s.publicKey.isSome = true ∧ own.bio = true ∧ ∃ key, L.pemReadPubkey pem = some key ∧
      exportKeyPEM L own.exportSubmitted (some key) = exportPublicKeyPEM L own.exportOwn s := by
  unfold isOwnPublicKey at h
  split at h
  · cases h
  · rename_i hsome
    split at h
    · rename_i hbio
      refine ⟨by simpa [Option.isSome_iff_ne_none] using hsome, hbio, ?_⟩
      split at h
      · cases h
      · rename_i key hkey
        exact ⟨key, hkey, of_decide_eq_true h⟩
    · cases h

/-- Equal texts are of equal keys, unless both are empty. -/
theorem publicPart_of_export_eq {keys : PubKey → Prop} (hL : L.PemExports keys) {key : PubKey}
    (hkey : keys key) (hown : ∀ key', s.publicPart = some key' → keys key')
    (h : exportKeyPEM L own.exportSubmitted (some key) = exportPublicKeyPEM L own.exportOwn s) :
    s.publicPart = some key ∨
      (own.exportSubmitted = false ∧ (own.exportOwn = false ∨ s.publicPart = none)) := by
  unfold exportPublicKeyPEM at h
  cases hpublic : s.publicPart with
  | none =>
      right
      rw [hpublic] at h
      refine ⟨?_, Or.inr rfl⟩
      by_contra hsubmitted
      rw [Bool.not_eq_false] at hsubmitted
      rw [hsubmitted] at h
      exact hL.nonempty key hkey h
  | some own' =>
      rw [hpublic] at h
      cases hsubmitted : own.exportSubmitted with
      | false =>
          cases hwritten : own.exportOwn with
          | false => exact Or.inr ⟨rfl, Or.inl rfl⟩
          | true =>
              rw [hsubmitted, hwritten] at h
              exact absurd h.symm (hL.nonempty own' (hown own' hpublic))
      | true =>
          rw [hsubmitted] at h
          cases hwritten : own.exportOwn with
          | false =>
              rw [hwritten] at h
              exact absurd h (hL.nonempty key hkey)
          | true =>
              rw [hwritten] at h
              exact Or.inl (congrArg some (hL.injective key own' hkey (hown own' hpublic) h).symm)

end DilithiumSigner

/-! ### When the answer is right -/

variable (L : Lib) (s : DilithiumSigner) (own : DilithiumSigner.OwnKeyOutcome) (pem : Bytes)

/-- Two keys are compared that differ, and neither can be written. -/
def NeitherWritten : Prop :=
  s.publicKey.isSome = true ∧ own.bio = true ∧ ∃ key, L.pemReadPubkey pem = some key ∧
    s.publicPart ≠ some key ∧ own.exportSubmitted = false ∧
    (own.exportOwn = false ∨ s.publicPart = none)

variable {L s own pem}

namespace Sample

/-- A key of somebody else. -/
def stranger : PubKey := ⟨"ML-DSA-65", [8]⟩

theorem pemExports {keys : PubKey → Prop} (h : ∀ key, keys key → key.algorithm = "ML-DSA-65") :
    lib.PemExports keys where
  nonempty key _ := by simp [lib]
  injective key key' hkey hkey' heq := by
    have hread := pemReadPubkey_pemWritePubkey (Or.inl (h key hkey))
    rw [heq, pemReadPubkey_pemWritePubkey (Or.inl (h key' hkey'))] at hread
    exact (Option.some.inj hread).symm

end Sample

end PqcApi
