/-
External verification, and the server's own.

`verify` trusts the key the signer holds; `verifyWithPEM` takes the key from the request and
insists on ML-DSA-65.  They agree on the server's exported key when that key was duplicated
and is of that type, and only then: `generateKeyPair` does not look at the duplicate, and
`loadPrivateKey` does not look at the type.
-/
import PqcApi.Documents.Handlers
import PqcApi.Sample

namespace PqcApi

open Concurrent

/-- The provider signs and verifies consistently with a key, and base64 keeps its signatures. -/
structure Lib.Signs (L : Lib) (key : PKey) : Prop where
  accepts : ∀ r data signature, L.digestSign key r data = some signature →
    L.verifyInit key.pub = true ∧ L.digestVerify key.pub signature data = true
  encodes : ∀ r data signature, L.digestSign key r data = some signature →
    signature ≠ [] ∧ L.b64Read (L.b64Write signature) = signature

/-! ### Exported keys -/

namespace DilithiumSigner

variable {L : Lib} {s : DilithiumSigner} {key : PubKey}

theorem exportPublicKeyPEM_eq (h : s.publicPart = some key) :
    s.exportPublicKeyPEM L true = L.pemWritePubkey key := by
  rw [exportPublicKeyPEM, h]
  rfl

theorem verifyWithPEM_eq {pem : Bytes} (hpem : L.pemReadPubkey pem = some key)
    (data signature : Bytes) :
    verifyWithPEM L .ok data signature pem =
      if isMlDsa65 L key then .ok (digestVerify L .ok key signature data)
      else .error (.invalidArgument "Public key must be ML-DSA-65") := by
  rw [verifyWithPEM, if_pos (show Allocs.ok.bio = true from rfl), hpem]

/-- Every text of the signer's key is its own, when nothing fails. -/
theorem isOwnPublicKey_of_publicPart {pem : Bytes} (h : s.publicPart = some key)
    (hpem : L.pemReadPubkey pem = some key) : s.isOwnPublicKey L .ok pem = true := by
  have hsome : ¬ s.publicKey.isNone = true := by
    intro hnone
    rw [publicPart, Option.isNone_iff_eq_none.mp hnone] at h
    cases h
  rw [isOwnPublicKey, if_neg hsome, if_pos (show OwnKeyOutcome.ok.bio = true from rfl), hpem]
  exact decide_eq_true (exportPublicKeyPEM_eq h).symm

theorem isOwnPublicKey_export (h : s.publicPart = some key)
    (hpem : L.pemReadPubkey (L.pemWritePubkey key) = some key) :
    s.isOwnPublicKey L .ok (L.pemWritePubkey key) = true :=
  isOwnPublicKey_of_publicPart h hpem

end DilithiumSigner

/-! ### Submitting to the public endpoint -/

/-- The request submits this document, signature and key. -/
def Submits (req : HttpRequest) (pdf signature publicKey : Bytes) : Prop :=
  ∃ m, req.multipart = some m ∧
    (m.files.find? fun f => f.itemName = ascii "pdf").map FilePart.content = some pdf ∧
    App.parameter m "signature" = some signature ∧ App.parameter m "public_key" = some publicKey

theorem verifyExternal_eq {P : App} {req : HttpRequest} {pdf signature publicKey : Bytes}
    (h : Submits req pdf signature publicKey) (hpdf : pdf ≠ [])
    (hsignature : base64Decode P.lib signature ≠ []) {valid : Bool}
    (hvalid : DilithiumSigner.verifyWithPEM P.lib .ok pdf (base64Decode P.lib signature) publicKey =
      .ok valid) :
    P.verifyExternal req = ⟨200, .json (App.externalResponse valid
      (P.signer.isOwnPublicKey P.lib .ok publicKey))⟩ := by
  obtain ⟨m, hm, hfile, hsig, hkey⟩ := h
  obtain ⟨b, rest, rfl⟩ := List.exists_cons_of_ne_nil hpdf
  simp only [App.verifyExternal, hm, hfile, hsig, hkey, if_neg hsignature, hvalid]

/-- What passes the checks on an upload is not empty. -/
theorem upload_ne_nil {header : HttpRequest} {file : FilePart} (h : App.upload header = .ok file) :
    file.content ≠ [] := by
  unfold App.upload at h
  split at h
  · cases h
  · split at h
    · cases h
    · split at h
      · cases h
      · rename_i hne
        split at h
        · obtain rfl := Except.ok.inj h
          exact hne
        · cases h

/-! ### Agreement -/

variable {τ : Type} [Field τ] [LinearOrder τ] [FloorRing τ]

variable (τ) in
/-- Internal and external verification agree: on any data and signature, about whose the
exported key is, and on every signature a sign request answers with. -/
structure VerificationAgrees (P : App) : Prop where
  answers : ∀ data signature, ∃ valid, P.signer.verify P.lib .ok data signature = .ok valid ∧
    DilithiumSigner.verifyWithPEM P.lib .ok data signature
      (P.signer.exportPublicKeyPEM P.lib true) = .ok valid
  own : P.signer.isOwnPublicKey P.lib .ok (P.signer.exportPublicKeyPEM P.lib true) = true
  issued : ∀ (header req : HttpRequest) (file : FilePart) (log : List (ServerEvent τ P)) (j : Json)
    (signature : Bytes), App.upload header = .ok file →
    Path (P.program (.sign header)) log (.ret (.response ⟨201, .json j⟩)) →
    j.field "signature" = some (.str signature) →
    Submits req file.content signature (P.signer.exportPublicKeyPEM P.lib true) →
    P.verifyExternal req = ⟨200, .json (App.externalResponse true true)⟩

/-- **When internal and external verification agree.**  Of a signer whose acquisition of a key
returned true: if and only if the key was duplicated and is an ML-DSA-65 key. -/
theorem verification_agrees_iff {P : App} {s : DilithiumSigner} {a : DilithiumSigner.Acquisition}
    (hacquire : s.acquire a = (true, P.signer))
    (hlib : ∀ key dup, a.key = some (key, dup) → P.lib.Signs key ∧
      P.lib.pemReadPubkey (P.lib.pemWritePubkey key.pub) = some key.pub) :
    VerificationAgrees τ P ↔
      ∃ key, a.key = some (key, true) ∧ DilithiumSigner.isMlDsa65 P.lib key.pub = true := by
  obtain ⟨key, dup, hkey, hsigning, hpublic⟩ := DilithiumSigner.acquire_true hacquire
  obtain ⟨hsigns, hpem⟩ := hlib key dup hkey
  constructor
  · intro h
    obtain ⟨valid, hverify, hwith⟩ := h.answers [] []
    cases dup with
    | false => exact absurd hverify (DilithiumSigner.verify_of_no_publicPart hpublic .ok []
        [] valid)
    | true =>
        rw [DilithiumSigner.exportPublicKeyPEM_eq hpublic,
          DilithiumSigner.verifyWithPEM_eq hpem] at hwith
        refine ⟨key, hkey, ?_⟩
        by_contra htype
        rw [if_neg htype] at hwith
        cases hwith
  · intro ⟨key', hkey', htype⟩
    obtain ⟨rfl, rfl⟩ := Prod.mk.inj (Option.some.inj (hkey.symm.trans hkey'))
    have hexport := DilithiumSigner.exportPublicKeyPEM_eq (L := P.lib) hpublic
    have hwith : ∀ data signature, DilithiumSigner.verifyWithPEM P.lib .ok data signature
        (P.signer.exportPublicKeyPEM P.lib true) =
          .ok (DilithiumSigner.digestVerify P.lib .ok key.pub signature data) := by
      intro data signature
      rw [hexport, DilithiumSigner.verifyWithPEM_eq hpem, if_pos htype]
    have hown := DilithiumSigner.isOwnPublicKey_export hpublic hpem
    rw [← hexport] at hown
    refine ⟨?_, hown, ?_⟩
    · intro data signature
      exact ⟨_, DilithiumSigner.verify_of_publicPart hpublic .ok data signature,
        hwith data signature⟩
    · intro header req file log j signature hup hpath hfield hsubmits
      have hp : Path (P.program (.sign header)) log (.ret (.response ⟨201, .json j⟩)) := hpath
      let th : Thread (server τ P) := ⟨.sign header, .ret (.response ⟨201, .json j⟩), log⟩
      have hth : Path (P.program th.req) th.log th.rest := hp
      rcases sign_path hth rfl with hsilent | ⟨⟨l⟩⟩
      · exact absurd rfl (hsilent.2 (.json j))
      obtain ⟨n, -, hbody⟩ := l.body_eq rfl
      rw [Body.json.inj hbody, signedResponse_signature] at hfield
      obtain rfl := Json.str.inj (Option.some.inj hfield)
      obtain ⟨r, hr⟩ := l.signature_eq hp
      obtain rfl : key = l.key := Option.some.inj (hsigning.symm.trans l.key_eq)
      obtain rfl : l.file = file := by
        have hl := l.uploaded
        rw [← Request.sign.inj l.request, hup] at hl
        exact (Except.ok.inj hl).symm
      obtain ⟨hinit, hverify⟩ := hsigns.accepts _ _ _ hr
      obtain ⟨hne, hread⟩ := hsigns.encodes _ _ _ hr
      have hdecode : base64Decode P.lib (base64Encode P.lib l.signature) = l.signature := hread
      have haccepts : DilithiumSigner.digestVerify P.lib .ok l.key.pub l.signature l.file.content =
          true := by
        rw [DilithiumSigner.digestVerify, hinit, hverify]
        rfl
      rw [verifyExternal_eq hsubmits (upload_ne_nil hup) (by rw [hdecode]; exact hne)
        (by rw [hdecode, hwith, haccepts]), hown]

/-! ### Two keys -/

namespace Sample

theorem signs (k : PKey) : lib.Signs k where
  accepts r data sig h := ⟨rfl, accepts k r data sig h⟩
  encodes r data sig h := by
    obtain rfl : signature k.pub data = sig := Option.some.inj h
    have hdecode := (base64Ok (signature k.pub data)).read
    refine ⟨?_, hdecode⟩
    intro hnil
    have hlength := congrArg List.length hnil
    simp [signature, length_sha256] at hlength

/-- A key type the stand-in knows is read back from its PEM. -/
theorem pemReadPubkey_pemWritePubkey {k : PubKey}
    (h : k.algorithm = "ML-DSA-65" ∨ k.algorithm = "RSA") :
    lib.pemReadPubkey (lib.pemWritePubkey k) = some k := by
  obtain ⟨algorithm, value⟩ := k
  have hline : (10 : UInt8) ∉ ascii "ML-DSA-65" ∧ (10 : UInt8) ∉ ascii "RSA" := by decide
  have hne : ascii "ML-DSA-65" ≠ ascii "RSA" ∧ ascii "mldsa65" ≠ ascii "RSA" := by decide
  rcases h with rfl | rfl
  · simp only [lib, splitOnce_append hline.1, Option.bind_some, List.find?_cons, decide_true,
      Option.map_some]
  · simp only [lib, splitOnce_append hline.2, Option.bind_some, List.find?_cons, decide_true, hne,
      decide_false, Option.map_some]

/-- A private key of another type. -/
def rsa : PKey := ⟨⟨"RSA", [3]⟩, some [5]⟩

/-- The server with that key file. -/
def rsaApp : App := ⟨auth, (DilithiumSigner.fresh.loadPrivateKey (.key rsa true)).2⟩

end Sample

/-- A generated key pair. -/
theorem verification_agrees_sample : VerificationAgrees ℚ Sample.app := by
  refine (verification_agrees_iff (P := Sample.app) (s := DilithiumSigner.fresh)
    (a := .generate (.generated Sample.key true)) rfl ?_).mpr ⟨Sample.key, rfl, ?_⟩
  · intro key dup h
    obtain ⟨rfl, -⟩ := Prod.mk.inj (Option.some.inj h)
    exact ⟨Sample.signs _, Sample.pemReadPubkey_pemWritePubkey (Or.inl rfl)⟩
  · have htype : Sample.lib.isA Sample.key.pub "ML-DSA-65" = true := by decide
    exact Bool.or_eq_true_iff.mpr (Or.inr htype)

/-- **A key of another type is loaded and used.**  The server signs with it and its own
verification accepts; the external one refuses the key. -/
theorem verification_rsa :
    DilithiumSigner.fresh.acquire (.load (.key Sample.rsa true)) = (true, Sample.rsaApp.signer) ∧
    Sample.lib.Signs Sample.rsa ∧
    Sample.lib.pemReadPubkey (Sample.lib.pemWritePubkey Sample.rsa.pub) = some Sample.rsa.pub ∧
    ∃ signature, Sample.lib.digestSign Sample.rsa [] Sample.pdf = some signature ∧
      Sample.rsaApp.signer.verify Sample.lib .ok Sample.pdf signature = .ok true ∧
      DilithiumSigner.verifyWithPEM Sample.lib .ok Sample.pdf signature
        (Sample.rsaApp.signer.exportPublicKeyPEM Sample.lib true) =
        .error (.invalidArgument "Public key must be ML-DSA-65") := by
  have hpem := Sample.pemReadPubkey_pemWritePubkey (k := Sample.rsa.pub) (Or.inr rfl)
  have hpublic : Sample.rsaApp.signer.publicPart = some Sample.rsa.pub :=
    (DilithiumSigner.members_of_alloc [] Sample.rsa).2
  have htype : ¬ DilithiumSigner.isMlDsa65 Sample.lib Sample.rsa.pub = true := by decide
  refine ⟨rfl, Sample.signs _, hpem, Sample.signature Sample.rsa.pub Sample.pdf, rfl, ?_, ?_⟩
  · obtain ⟨hinit, hverify⟩ := (Sample.signs Sample.rsa).accepts [] Sample.pdf _ rfl
    rw [DilithiumSigner.verify_of_publicPart hpublic, DilithiumSigner.digestVerify, hinit, hverify]
    rfl
  · rw [DilithiumSigner.exportPublicKeyPEM_eq hpublic, DilithiumSigner.verifyWithPEM_eq hpem,
      if_neg htype]

end PqcApi
