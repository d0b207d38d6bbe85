/-
Whose status an OCSP reply gives.

The request names one certificate, and the answer should be about it.  The client takes the
first entry of the reply without looking at its id, and takes a reply without entries as
good.  So its answer is right exactly when the first entry speaks for the certificate asked
about, and when it is, `main` does not serve with a certificate the reply calls revoked.
-/
import PqcApi.Sample
import PqcApi.Startup

namespace PqcApi

variable {X509 CertId : Type} (K : PkiLib X509 CertId)

/-! ### What is read of a reply -/

/-- The entries of a reply, if it is a successful response with a basic one. -/
def basicEntries (data : Bytes) : Option (List (SingleResponse CertId)) :=
  if data = [] then none
  else (K.decodeResponse data).bind fun resp =>
    if resp.status ≠ responseSuccessful then none else resp.basic

/-- The status of the first entry, or of none. -/
def firstStatus (singles : List (SingleResponse CertId)) : CertStatus :=
  match singles[0]? with
  | some single => certStatus single.status
  | none => certStatus 0

theorem parseResponse_eq (data : Bytes) :
    parseResponse K data = match basicEntries K data with
      | none => .error
      | some singles => firstStatus singles := by
  unfold parseResponse basicEntries
  by_cases hdata : data = []
  · rw [if_pos hdata, if_pos hdata]
  · rw [if_neg hdata, if_neg hdata]
    cases K.decodeResponse data with
    | none => rfl
    | some resp =>
        simp only [Option.bind_some]
        by_cases hstatus : resp.status ≠ responseSuccessful
        · rw [if_pos hstatus, if_pos hstatus]
        · rw [if_neg hstatus, if_neg hstatus]
          cases resp.basic <;> rfl

/-- The entries that come back for a certificate. -/
def received (o : BuildOutcome) (post : Bytes → Option Bytes) (cert issuer : X509) :
    Option (List (SingleResponse CertId)) :=
  if buildRequest K o cert issuer = [] then none
  else (post (buildRequest K o cert issuer)).bind (basicEntries K)

theorem checkStatus_eq (o : BuildOutcome) (post : Bytes → Option Bytes) (cert issuer : X509) :
    checkStatus K o post cert issuer = match received K o post cert issuer with
      | none => .error
      | some singles => firstStatus singles := by
  unfold checkStatus received
  dsimp only
  by_cases hreq : buildRequest K o cert issuer = []
  · rw [if_pos hreq, if_pos hreq]
  · rw [if_neg hreq, if_neg hreq]
    cases post (buildRequest K o cert issuer) with
    | none => rfl
    | some data => exact parseResponse_eq K data

/-! ### The certificate asked about -/

/-- The status is the one the entries give for this id: good only if an entry says so, revoked
if any entry does, and neither without an entry. -/
structure StatusOf (id : Option CertId) (singles : List (SingleResponse CertId))
    (status : CertStatus) : Prop where
  good : status = .good → ∃ s ∈ singles, some s.certId = id ∧ s.status = statusGood
  revoked : (∃ s ∈ singles, some s.certId = id ∧ s.status = statusRevoked) → status = .revoked
  absent : (∀ s ∈ singles, some s.certId ≠ id) → status = .error ∨ status = .unknown

/-- The first entry speaks for this id: if it is good, some entry for the id is and none is
revoked; if it is revoked, some entry is for the id; and otherwise none for the id is
revoked. -/
def Leads (id : Option CertId) : List (SingleResponse CertId) → Prop
  | [] => False
  | first :: rest =>
      if first.status = statusGood then
        (∃ s ∈ first :: rest, some s.certId = id ∧ s.status = statusGood) ∧
          ∀ s ∈ first :: rest, some s.certId = id → s.status ≠ statusRevoked
      else if first.status = statusRevoked then ∃ s ∈ first :: rest, some s.certId = id
      else ∀ s ∈ first :: rest, some s.certId = id → s.status ≠ statusRevoked

theorem statusOf_error (id : Option CertId) : StatusOf id [] .error where
  good h := by cases h
  revoked := fun ⟨_, hs, _⟩ => by cases hs
  absent _ := Or.inl rfl

/-- **When the first status is the right one.** -/
theorem statusOf_firstStatus_iff {id : Option CertId} {singles : List (SingleResponse CertId)} :
    StatusOf id singles (firstStatus singles) ↔ Leads id singles := by
  cases singles with
  | nil =>
      constructor
      · intro h
        obtain ⟨s, hs, -⟩ := h.good rfl
        cases hs
      · intro h
        exact h.elim
  | cons first rest =>
      have hfirst : firstStatus (first :: rest) = certStatus first.status := rfl
      rw [hfirst]
      unfold Leads certStatus
      dsimp only
      by_cases hgood : first.status = statusGood
      · rw [if_pos hgood, if_pos hgood]
        constructor
        · intro h
          refine ⟨h.good rfl, ?_⟩
          intro s hs hid hrevoked
          cases h.revoked ⟨s, hs, hid, hrevoked⟩
        · intro ⟨hexists, hnone⟩
          refine ⟨fun _ => hexists, ?_, ?_⟩
          · intro ⟨s, hs, hid, hrevoked⟩
            exact absurd hrevoked (hnone s hs hid)
          · intro habsent
            obtain ⟨s, hs, hid, -⟩ := hexists
            exact absurd hid (habsent s hs)
      · rw [if_neg hgood, if_neg hgood]
        by_cases hrevoked : first.status = statusRevoked
        · rw [if_pos hrevoked, if_pos hrevoked]
          constructor
          · intro h
            by_contra hnone
            rcases h.absent (fun s hs hid => hnone ⟨s, hs, hid⟩) with heq | heq <;> cases heq
          · intro ⟨s, hs, hid⟩
            refine ⟨fun h => (by cases h), fun _ => rfl, ?_⟩
            intro habsent
            exact absurd hid (habsent s hs)
        · rw [if_neg hrevoked, if_neg hrevoked]
          constructor
          · intro h s hs hid hrev
            cases h.revoked ⟨s, hs, hid, hrev⟩
          · intro hnone
            refine ⟨fun h => (by cases h), ?_, fun _ => Or.inr rfl⟩
            intro ⟨s, hs, hid, hrev⟩
            exact absurd hrev (hnone s hs hid)

/-! ### At startup -/

variable {K}

/-- `main` serves with a certificate whose status was not revoked. -/
theorem serving_checked {L : Lib} {h : Host X509} {app : App} {port : Int} {cert issuer : X509}
    (hs : h.main L K = .serving app port) (hca : h.caCert = some issuer)
    (hcert : h.serverCert = some cert) :
    checkStatus K h.build h.responder cert issuer ≠ .revoked := by
  obtain ⟨⟨ca, server, hca', hserver, -, hrevoked⟩, -⟩ := Host.serving_cases hs
  obtain rfl : ca = issuer := Option.some.inj (hca'.symm.trans hca)
  obtain rfl : server = cert := Option.some.inj (hserver.symm.trans hcert)
  exact hrevoked

variable (K)

/-- **When the OCSP answer is about the certificate asked about**, and `main` does not serve
with a certificate the reply calls revoked: if and only if in every reply with entries the
first one speaks for that certificate. -/
theorem ocsp_answer_iff (o : BuildOutcome) (post : Bytes → Option Bytes) (cert issuer : X509) :
    (StatusOf (requestedId K o cert issuer) ((received K o post cert issuer).getD [])
        (checkStatus K o post cert issuer) ∧
      ∀ (L : Lib) (h : Host X509) (app : App) (port : Int), h.caCert = some issuer →
        h.serverCert = some cert → h.build = o → h.responder = post →
        (∃ s ∈ (received K o post cert issuer).getD [],
          some s.certId = requestedId K o cert issuer ∧ s.status = statusRevoked) →
        h.main L K ≠ .serving app port) ↔
    ∀ singles, received K o post cert issuer = some singles →
      Leads (requestedId K o cert issuer) singles := by
  constructor
  · intro ⟨hstatus, _⟩ singles hreceived
    rw [checkStatus_eq, hreceived] at hstatus
    exact statusOf_firstStatus_iff.mp hstatus
  · intro hleads
    have hstatus : StatusOf (requestedId K o cert issuer) ((received K o post cert issuer).getD [])
        (checkStatus K o post cert issuer) := by
      rw [checkStatus_eq]
      cases hreceived : received K o post cert issuer with
      | none => exact statusOf_error _
      | some singles => exact statusOf_firstStatus_iff.mpr (hleads singles hreceived)
    refine ⟨hstatus, ?_⟩
    rintro L h app port hca hcert rfl rfl hrevoked hs
    exact serving_checked hs hca hcert (hstatus.revoked hrevoked)

/-! ### Two replies -/

namespace Sample

/-- A responder that knows two certificates, and how its replies read. -/
def pki : PkiLib Bytes Bytes where
  pubkey cert := some ⟨"EC", cert⟩
  verify _ key := key.value = ascii "ca"
  serial cert := cert
  certToId cert _ := some cert
  encodeRequest id := ascii "id=" ++ id.getD []
  decodeResponse data :=
    if data = ascii "two" then
      some ⟨responseSuccessful, some [⟨ascii "other", statusGood⟩, ⟨ascii "server", statusRevoked⟩]⟩
    else if data = ascii "none" then some ⟨responseSuccessful, some []⟩
    else none

/-- A host on which all goes well, whose responder sends this reply. -/
def host (reply : String) : Host Bytes where
  args := [ascii "pqc-api"]
  getenv name := if name = "JWT_SECRET" then some (List.replicate 32 107) else none
  oqsLoads := true
  certificate path := if path = ascii "/certs/ca.crt" then some (ascii "ca") else some
    (ascii "server")
  build := ⟨true, true⟩
  post _ _ := some (ascii reply)
  now := 0
  later := 0
  postgres _ := true
  redis _ _ := true
  keyFile _ := .noFile
  keygen := .generated key true
  writes _ := true

end Sample

/-- **A revoked certificate passes.**  Its entry is the second of the reply, and the first is
good for another one; the answer is good, and `main` serves.  So it does with a reply
without entries. -/
theorem ocsp_first_entry :
    requestedId Sample.pki ⟨true, true⟩ (ascii "server") (ascii "ca") = some (ascii "server") ∧
    received Sample.pki ⟨true, true⟩ (Sample.host "two").responder (ascii "server") (ascii "ca") =
      some [⟨ascii "other", statusGood⟩, ⟨ascii "server", statusRevoked⟩] ∧
    checkStatus Sample.pki ⟨true, true⟩ (Sample.host "two").responder (ascii "server")
      (ascii "ca") =
      .good ∧
    (∃ app port, (Sample.host "two").main Sample.lib Sample.pki = .serving app port) ∧
    received Sample.pki ⟨true, true⟩ (Sample.host "none").responder (ascii "server") (ascii "ca") =
      some [] ∧
    checkStatus Sample.pki ⟨true, true⟩ (Sample.host "none").responder (ascii "server")
      (ascii "ca") =
      .good := by
  refine ⟨rfl, by decide, by decide, ?_, by decide, by decide⟩
  exact ⟨_, _, rfl⟩

end PqcApi
