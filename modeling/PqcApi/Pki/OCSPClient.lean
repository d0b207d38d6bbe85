/-
Asking whether a certificate is revoked: `OCSPClient` and `RevocationChecker`.

What OpenSSL makes of certificates and of OCSP messages is a parameter, and so is what the
responder sends back.  The client reads the first entry of a reply, whatever certificate the
entry is about.
-/
import PqcApi.Libraries

namespace PqcApi

/-- `CertStatus`. -/
inductive CertStatus
  | good
  | revoked
  | unknown
  | error
  deriving DecidableEq

/-! ### OCSP messages -/

/-- `V_OCSP_CERTSTATUS_GOOD`, the status of an entry. -/
def statusGood : Int := 0

/-- `V_OCSP_CERTSTATUS_REVOKED`. -/
def statusRevoked : Int := 1

/-- `OCSP_RESPONSE_STATUS_SUCCESSFUL`, the status of a whole response. -/
def responseSuccessful : Int := 0

/-- `OCSP_SINGLERESP`: the certificate an entry is about, and its status. -/
structure SingleResponse (CertId : Type) where
  certId : CertId
  status : Int
  deriving DecidableEq

/-- `OCSP_RESPONSE`: its status, and the entries of its basic response if it has one. -/
structure OcspResponse (CertId : Type) where
  status : Int
  basic : Option (List (SingleResponse CertId))

/-- The functions of OpenSSL on certificates and OCSP messages. -/
structure PkiLib (X509 CertId : Type) where
  /-- `X509_get_pubkey`. -/
  pubkey : X509 → Option PubKey
  /-- `X509_verify(certificate, key) == 1`. -/
  verify : X509 → PubKey → Bool
  /-- The serial number in hexadecimal. -/
  serial : X509 → Bytes
  /-- `OCSP_cert_to_id` with `EVP_md5()`, of a certificate and its issuer. -/
  certToId : X509 → X509 → Option CertId
  /-- `i2d_OCSP_REQUEST` of a request with this id in it; empty where it fails. -/
  encodeRequest : Option CertId → Bytes
  /-- `d2i_OCSP_RESPONSE`. -/
  decodeResponse : Bytes → Option (OcspResponse CertId)

variable {X509 CertId : Type} (K : PkiLib X509 CertId)

/-! ### OCSPClient -/

/-- Which of the calls inside `buildRequest` succeed: `OCSP_REQUEST_new` and
`OCSP_request_add0_id`. -/
structure BuildOutcome where
  request : Bool
  addId : Bool

/-- The id `buildRequest` puts into its request. -/
def requestedId (o : BuildOutcome) (cert issuer : X509) : Option CertId :=
  if o.addId then K.certToId cert issuer else none

/-- `buildRequest`; an empty text stands for failure. -/
def buildRequest (o : BuildOutcome) (cert issuer : X509) : Bytes :=
  if o.request then
    match K.certToId cert issuer with
    | none => []
    | some _ => K.encodeRequest (requestedId K o cert issuer)
  else []

/-- The `switch` at the end of `parseResponse`. -/
def certStatus (status : Int) : CertStatus :=
  if status = statusGood then .good
  else if status = statusRevoked then .revoked
  else .unknown

/-- `parseResponse`; `cert_status` starts as 0 and stays so when there is no first entry. -/
def parseResponse (data : Bytes) : CertStatus :=
  if data = [] then .error
  else
    match K.decodeResponse data with
    | none => .error
    | some resp =>
        if resp.status ≠ responseSuccessful then .error
        else
          match resp.basic with
          | none => .error
          | some singles =>
              match singles[0]? with
              | some single => certStatus single.status
              | none => certStatus 0

/-- `checkStatus`, where `post` is what the responder answers to a request, or `none` if curl
fails. -/
def checkStatus (o : BuildOutcome) (post : Bytes → Option Bytes) (cert issuer : X509) :
    CertStatus :=
  let req := buildRequest K o cert issuer
  if req = [] then .error
  else
    match post req with
    | none => .error
    | some data => parseResponse K data

/-! ### RevocationChecker -/

/-- `Certificate::getSerialNumber`, empty as long as no certificate is loaded. -/
def getSerialNumber (cert : Option X509) : Bytes := (cert.map K.serial).getD []

/-- A status and the time of the steady clock, in nanoseconds, at which it was cached. -/
structure CachedStatus where
  status : CertStatus
  cachedAt : Int

/-- A checker: its cache by serial number, and how many seconds an entry is good for. -/
structure RevocationChecker where
  cacheTtlSeconds : Int
  cache : Bytes → Option CachedStatus

namespace RevocationChecker

/-- A checker that has not been asked yet, with the default lifetime. -/
def fresh : RevocationChecker := ⟨300, fun _ => none⟩

/-- `isCacheValid`, with the age cut to whole seconds. -/
def isCacheValid (r : RevocationChecker) (serial : Bytes) (now : Int) : Bool :=
  match r.cache serial with
  | none => false
  | some c => (now - c.cachedAt).tdiv 1000000000 < r.cacheTtlSeconds

/-- `checkCert`: `now` and `later` are the two times it reads, `status` is what `checkStatus`
answers if it is asked. -/
def checkCert (r : RevocationChecker) (serial : Bytes) (now later : Int) (status : CertStatus) :
    CertStatus × RevocationChecker :=
  match r.cache serial with
  | some c =>
      if r.isCacheValid serial now then (c.status, r)
      else (status, { r with
        cache := fun s => if s = serial then some ⟨status, later⟩ else r.cache s })
  | none => (status, { r with
      cache := fun s => if s = serial then some ⟨status, later⟩ else r.cache s })

/-- `clearCache`. -/
def clearCache (r : RevocationChecker) : RevocationChecker := { r with cache := fun _ => none }

/-! ### The two locked sections of `checkCert` -/

/-- The first: the cached status, if it is valid. -/
def lookup (r : RevocationChecker) (serial : Bytes) (now : Int) : Option CertStatus :=
  if r.isCacheValid serial now then (r.cache serial).map CachedStatus.status else none

/-- The second: the answer of the query, with the time. -/
def store (r : RevocationChecker) (serial : Bytes) (status : CertStatus) (now : Int) :
    RevocationChecker :=
  { r with cache := fun s => if s = serial then some ⟨status, now⟩ else r.cache s }

theorem checkCert_eq (r : RevocationChecker) (serial : Bytes) (now later : Int)
    (status : CertStatus) :
    r.checkCert serial now later status = match r.lookup serial now with
      | some cached => (cached, r)
      | none => (status, r.store serial status later) := by
  unfold checkCert lookup store
  cases hc : r.cache serial with
  | none =>
      have hvalid : r.isCacheValid serial now = false := by simp only [isCacheValid, hc]
      rw [hvalid]
      rfl
  | some c =>
      dsimp only
      by_cases hvalid : r.isCacheValid serial now = true
      · rw [if_pos hvalid, if_pos hvalid]
        rfl
      · rw [if_neg hvalid, if_neg hvalid]

/-- A time of less than `t` whole seconds is shorter than `t` seconds. -/
theorem seconds_lt {d t : Int} (h : d.tdiv 1000000000 < t) : d < t * 1000000000 := by
  by_cases hd : 0 ≤ d
  · rw [Int.tdiv_eq_ediv_of_nonneg hd] at h
    omega
  · have hneg : d.tdiv 1000000000 = -((-d) / 1000000000) := by
      rw [← Int.tdiv_eq_ediv_of_nonneg (by omega : 0 ≤ -d), Int.neg_tdiv, neg_neg]
    rw [hneg] at h
    omega

theorem seconds_le {d t : Int} (h : t ≤ d.tdiv 1000000000) (hd : 0 ≤ d) : t * 1000000000 ≤ d := by
  rw [Int.tdiv_eq_ediv_of_nonneg hd] at h
  omega

/-- What is found is an entry younger than the lifetime. -/
theorem lookup_some {r : RevocationChecker} {serial : Bytes} {now : Int} {status : CertStatus}
    (h : r.lookup serial now = some status) :
    ∃ c, r.cache serial = some c ∧ c.status = status ∧
      now - c.cachedAt < r.cacheTtlSeconds * 1000000000 := by
  unfold lookup at h
  split at h
  · rename_i hvalid
    obtain ⟨c, hc, hstatus⟩ := Option.map_eq_some_iff.mp h
    simp only [isCacheValid, hc, decide_eq_true_eq] at hvalid
    exact ⟨c, hc, hstatus, seconds_lt hvalid⟩
  · cases h

/-- An entry that is not found has reached its lifetime. -/
theorem lookup_none {r : RevocationChecker} {serial : Bytes} {now : Int} {c : CachedStatus}
    (h : r.lookup serial now = none) (hc : r.cache serial = some c) (hnow : c.cachedAt ≤ now) :
    r.cacheTtlSeconds * 1000000000 ≤ now - c.cachedAt := by
  unfold lookup at h
  split at h
  · rw [hc] at h
    cases h
  · rename_i hvalid
    simp only [isCacheValid, hc, decide_eq_true_eq, not_lt] at hvalid
    exact seconds_le hvalid (by omega)

end RevocationChecker

end PqcApi
