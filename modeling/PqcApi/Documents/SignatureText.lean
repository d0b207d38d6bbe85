/-
Signature texts that are not base64.

`verifyExternal` refuses a signature text when nothing is read from it, and asks nothing else of
it.  OpenSSL's reader gives nothing only when the first chunk does: damage further on cuts the
signature short, and an incomplete last group, a stray `=` or an unused bit goes unnoticed.  Such
a text is verified as whatever was read, and if that is a signature the answer is that it is
valid.
-/
import PqcApi.Auth.Spellings
import PqcApi.Documents.External

namespace PqcApi

open Concurrent

/-- The answer to a signature that is not base64. -/
def invalidSignature : HttpResponse := errorResponse "Invalid base64 signature" 400

theorem submission_of_submits {req : HttpRequest} {pdf signature publicKey : Bytes}
    (h : Submits req pdf signature publicKey) (hpdf : pdf ≠ []) :
    App.submission req = .ok ⟨pdf, signature, publicKey⟩ := by
  obtain ⟨m, hm, hfile, hsig, hkey⟩ := h
  obtain ⟨b, rest, rfl⟩ := List.exists_cons_of_ne_nil hpdf
  simp only [App.submission, hm, hfile, hsig, hkey]

private theorem errorResponse_injective {what what' : String} {status status' : Nat}
    (h : errorResponse what status = errorResponse what' status') :
    ascii what = ascii what' := by
  have hbody := congrArg HttpResponse.body h
  simp only [errorResponse, Json.object, List.foldr_cons, List.foldr_nil, Json.insertField,
    Body.json.injEq, Json.obj.injEq, List.cons.injEq, Prod.mk.injEq, Json.text, Json.str.injEq,
    true_and, and_true] at hbody
  exact hbody

/-- What `verifyWithPEM` comes to. -/
theorem verifyWithPEM_cases (L : Lib) (o : DilithiumSigner.Allocs)
    (data signature publicKey : Bytes) :
    (∃ valid, DilithiumSigner.verifyWithPEM L o data signature publicKey = .ok valid) ∨
      DilithiumSigner.verifyWithPEM L o data signature publicKey =
        .error (.invalidArgument "Invalid PEM public key") ∨
      DilithiumSigner.verifyWithPEM L o data signature publicKey =
        .error (.invalidArgument "Public key must be ML-DSA-65") := by
  unfold DilithiumSigner.verifyWithPEM
  by_cases hbio : o.bio = true
  · rw [if_pos hbio]
    cases L.pemReadPubkey publicKey with
    | none => exact Or.inr (Or.inl rfl)
    | some key =>
        by_cases htype : DilithiumSigner.isMlDsa65 L key = true
        · exact Or.inl ⟨_, if_pos htype⟩
        · exact Or.inr (Or.inr (if_neg htype))
  · exact Or.inl ⟨false, if_neg hbio⟩

/-- **The signature is refused exactly when nothing is read**, whatever fails after that. -/
theorem verifyExternalUnder_eq_invalid_iff {P : App} {o : DilithiumSigner.Allocs}
    {own : DilithiumSigner.OwnKeyOutcome} {req : HttpRequest} {pdf signature publicKey : Bytes}
    (h : Submits req pdf signature publicKey) (hpdf : pdf ≠ []) :
    P.verifyExternalUnder o own req = invalidSignature ↔ base64Decode P.lib signature = [] := by
  have hmessages : ascii "Invalid PEM public key" ≠ ascii "Invalid base64 signature" ∧
      ascii "Public key must be ML-DSA-65" ≠ ascii "Invalid base64 signature" := by decide
  unfold App.verifyExternalUnder
  rw [submission_of_submits h hpdf]
  by_cases hnil : base64Decode P.lib signature = []
  · simp only [hnil, if_true, iff_true]
    rfl
  · simp only [hnil, if_false, iff_false]
    intro heq
    rcases verifyWithPEM_cases P.lib o pdf (base64Decode P.lib signature) publicKey with
      ⟨valid, hv⟩ | hv | hv
    · rw [hv] at heq
      cases congrArg HttpResponse.status heq
    · rw [hv] at heq
      exact hmessages.1 (errorResponse_injective heq)
    · rw [hv] at heq
      exact hmessages.2 (errorResponse_injective heq)

/-- **Which signature texts that are not base64 are refused.**  Those of whose first chunk nothing
is read. -/
theorem refuses_damaged_iff {P : App} (hread : ∀ s, P.lib.b64Read s = Base64.Reader.read s)
    {req : HttpRequest} {pdf signature publicKey : Bytes}
    (h : Submits req pdf signature publicKey) (hpdf : pdf ≠ []) (o : DilithiumSigner.Allocs)
    (own : DilithiumSigner.OwnKeyOutcome) :
    (¬ Base64.WellFormed signature → P.verifyExternalUnder o own req = invalidSignature) ↔
      Base64.WellFormed signature ∨ ¬ Base64.Reader.Legible signature := by
  rw [verifyExternalUnder_eq_invalid_iff h hpdf, base64Decode, hread,
    Base64.Reader.read_eq_nil_iff]
  constructor
  · intro hrefused
    by_cases hwf : Base64.WellFormed signature
    · exact Or.inl hwf
    · exact Or.inr (hrefused hwf)
  · rintro (hwf | hillegible) hdamaged
    · exact absurd hwf hdamaged
    · exact hillegible

/-! ### Two texts -/

namespace Sample

/-- The server of the sample with OpenSSL's reader. -/
def opensslApp : App := ⟨opensslAuth, signer⟩

/-- A request with this signature text for the sample's document. -/
def submitting (text : Bytes) : HttpRequest :=
  ⟨[], some ⟨[⟨ascii "pdf", ascii "document.pdf", pdf⟩],
    [(ascii "signature", text), (ascii "public_key", lib.pemWritePubkey key.pub)]⟩⟩

theorem pemReadPubkey_key : opensslApp.lib.pemReadPubkey (lib.pemWritePubkey key.pub) =
    some key.pub := by
  have hpem := pemReadPubkey_pemWritePubkey (k := key.pub) (Or.inl rfl)
  simpa only [App.lib, opensslApp, opensslAuth, openssl] using hpem

theorem isMlDsa65_key : DilithiumSigner.isMlDsa65 opensslApp.lib key.pub = true := by
  have htype : lib.isA key.pub "ML-DSA-65" = true := by decide
  simp only [DilithiumSigner.isMlDsa65, App.lib, opensslApp, opensslAuth, openssl, htype,
    Bool.or_true]

/-- The server's signature is valid under its key. -/
theorem verifyWithPEM_signature :
    DilithiumSigner.verifyWithPEM opensslApp.lib .ok pdf (signature key.pub pdf)
      (lib.pemWritePubkey key.pub) = .ok true := by
  have haccepts := accepts key [] pdf _ rfl
  have hinit : lib.verifyInit key.pub = true := rfl
  rw [DilithiumSigner.verifyWithPEM_eq pemReadPubkey_key, if_pos isMlDsa65_key]
  simp only [DilithiumSigner.digestVerify, App.lib, opensslApp, opensslAuth, openssl, hinit,
    haccepts]
  rfl

theorem submits_submitting (text : Bytes) :
    Submits (submitting text) pdf text (lib.pemWritePubkey key.pub) :=
  ⟨_, rfl, rfl, rfl, rfl⟩

end Sample

/-- A text with an `!` in it is not base64. -/
private theorem not_wellFormed {s : Bytes} (h : 33 ∈ s) : ¬ Base64.WellFormed s := by
  intro hwf
  rcases hwf.alphabet h with hpad | hsymbol
  · exact absurd hpad (by decide)
  · rw [← Base64.value_isSome_iff] at hsymbol
    exact absurd hsymbol (by decide)

/-- No characters of base64 at the beginning. -/
theorem refuses_damaged_sample :
    Sample.opensslApp.verifyExternalUnder .ok .ok (Sample.submitting (ascii "!!!not-base64!!!")) =
      invalidSignature := by
  have hread : Base64.Reader.read (ascii "!!!not-base64!!!") = [] := by decide +kernel
  have hlib : Sample.opensslApp.lib.OpenSsl := Sample.openssl_ok
  exact (refuses_damaged_iff hlib.read (Sample.submits_submitting _) (by decide) .ok .ok).mpr
    (Or.inr (Base64.Reader.read_eq_nil_iff.mp hread)) (not_wellFormed (by decide))

/-- **A character too many.**  The text of the server's signature with an `!` behind it is not
base64, and the answer to it is that the signature is valid. -/
theorem damaged_accepted :
    ¬ Base64.WellFormed (Base64.encode (Sample.signature Sample.key.pub Sample.pdf) ++ [33]) ∧
    Sample.opensslApp.verifyExternal (Sample.submitting
        (Base64.encode (Sample.signature Sample.key.pub Sample.pdf) ++ [33])) =
      ⟨200, .json (App.externalResponse true true)⟩ := by
  refine ⟨not_wellFormed (by simp), ?_⟩
  have hlib : Sample.opensslApp.lib.OpenSsl := Sample.openssl_ok
  have hlength : (Sample.signature Sample.key.pub Sample.pdf).length ≤ 3309 :=
    List.length_take_le _ _
  have hdecode : base64Decode Sample.opensslApp.lib
      (Base64.encode (Sample.signature Sample.key.pub Sample.pdf) ++ [33]) =
        Sample.signature Sample.key.pub Sample.pdf := by
    rw [base64Decode, hlib.read, Base64.Reader.read_encode (by omega) (by simp)]
  have hne : Sample.signature Sample.key.pub Sample.pdf ≠ [] :=
    ((Sample.signs Sample.key).encodes [] Sample.pdf _ rfl).1
  have hown : Sample.opensslApp.signer.isOwnPublicKey Sample.opensslApp.lib .ok
      (Sample.lib.pemWritePubkey Sample.key.pub) = true :=
    DilithiumSigner.isOwnPublicKey_of_publicPart Sample.keyPair.verifying Sample.pemReadPubkey_key
  rw [verifyExternal_eq (Sample.submits_submitting _) (by decide) (by rw [hdecode]; exact hne)
    (by rw [hdecode]; exact Sample.verifyWithPEM_signature), hown]

end PqcApi
