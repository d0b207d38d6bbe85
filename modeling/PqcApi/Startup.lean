/-
`main`, up to the serving state.

What the process finds in its environment is a `Host`.  `main` reads it step by step, and
either ends with an exit code, dies of an exception nobody catches, or serves an application
whose parts it has checked.
-/
import PqcApi.Api.Controllers
import PqcApi.Pki.OCSPClient

namespace PqcApi

/-- What `main` meets: its arguments, the environment, files and services, and how the calls
of the key loaders end. -/
structure Host (X509 : Type) where
  args : List Bytes
  getenv : String → Option Bytes
  /-- `OQSProvider::load`. -/
  oqsLoads : Bool
  /-- The certificate in a file. -/
  certificate : Bytes → Option X509
  /-- `buildRequest`, and what a responder answers to a request. -/
  build : BuildOutcome
  post : Bytes → Bytes → Option Bytes
  /-- The steady clock, when `checkCert` reads it. -/
  now : Int
  later : Int
  /-- PostgreSQL and Redis accept a connection. -/
  postgres : Bytes → Bool
  redis : Bytes → Int → Bool
  /-- What is in the key file, and what generating a key comes to. -/
  keyFile : Bytes → DilithiumSigner.LoadOutcome
  keygen : DilithiumSigner.KeygenOutcome
  /-- `writePrivateKeyFile` succeeds. -/
  writes : Bytes → Bool

/-- How `main` ends, or what it serves and on which port. -/
inductive Startup
  | exit (code : Int)
  | terminate (e : Exn)
  | serving (app : App) (port : Int)

namespace Host

variable {X509 CertId : Type} (h : Host X509)

/-- `env(name, fallback)`. -/
def env (name fallback : String) : Bytes := (h.getenv name).getD (ascii fallback)

/-- The server's certificate, where `main` looks for it. -/
def serverCert : Option X509 := h.certificate (h.env "TLS_CERT_PATH" "/certs/server.crt")

/-- The certificate of the CA. -/
def caCert : Option X509 := h.certificate (h.env "CA_CERT_PATH" "/certs/ca.crt")

/-- `Certificate::verifySignature`. -/
def verifySignature (K : PkiLib X509 CertId) (cert issuer : X509) : Bool :=
  match K.pubkey issuer with
  | none => false
  | some key => K.verify cert key

/-- What the responder of the environment answers to a request. -/
def responder : Bytes → Option Bytes := h.post (h.env "OCSP_URL" "http://ocsp:8080")

/-- What the revocation check at startup says. -/
def revocation (K : PkiLib X509 CertId) (cert issuer : X509) : CertStatus :=
  (RevocationChecker.fresh.checkCert (K.serial cert) h.now h.later
    (checkStatus K h.build h.responder cert issuer)).1

/-- The `--generate-mldsa-key` mode. -/
def generateKey (path : Bytes) : Startup :=
  if (DilithiumSigner.fresh.generateKeyPair h.keygen).1 && h.writes path then .exit 0 else .exit 1

/-- The signer of the server: the key file's, or else a new one. -/
def signer : Bool × DilithiumSigner :=
  let loaded := DilithiumSigner.fresh.loadPrivateKey
    (h.keyFile (h.env "MLDSA_KEY_PATH" "/certs/mldsa_server.key"))
  if loaded.1 then loaded else loaded.2.generateKeyPair h.keygen

/-- `main` once the certificate has passed. -/
def connect (L : Lib) : Startup :=
  let postgres := h.env "DATABASE_URL"
    "host = postgres port = 5432 dbname = pqcapi user = pqcuser password = pqcpass"
  let redisHost := h.env "REDIS_HOST" "redis"
  match stoi (h.env "REDIS_PORT" "6379") with
  | none => .terminate .outOfRange
  | some redisPort =>
      if ¬ h.postgres postgres then .terminate (.runtime "[PostgreSQLClient] Connection failed")
      else if ¬ h.redis redisHost redisPort then .terminate
        (.runtime "[RedisClient] Connection failed")
      else
        match h.getenv "JWT_SECRET" with
        | none => .exit 1
        | some secret =>
            if secret.length < 32 ∨ secret = ascii "change-me-in-production" then .exit 1
            else if h.signer.1 then
              match stoi (h.env "SERVER_PORT" "8443") with
              | none => .terminate .outOfRange
              | some port => .serving ⟨⟨L, secret⟩, h.signer.2⟩ port
            else .exit 1

/-- The checks of `main` on the certificates, and what follows. -/
def validate (L : Lib) (K : PkiLib X509 CertId) : Startup :=
  match h.caCert, h.serverCert with
  | some ca, some server =>
      if ¬ verifySignature K server ca then .exit 1
      else if h.revocation K server ca = .revoked then .exit 1
      else h.connect L
  | _, _ => .exit 1

/-- `main`. -/
def main (L : Lib) (K : PkiLib X509 CertId) : Startup :=
  if ¬ h.oqsLoads then .exit 1
  else
    match h.args with
    | [_, mode, path] =>
        if mode = ascii "--generate-mldsa-key" then h.generateKey path else h.validate L K
    | _ => h.validate L K

/-! ### What is served -/

variable {h} {L : Lib} {K : PkiLib X509 CertId} {app : App} {port : Int}

theorem generateKey_not_serving (path : Bytes) : h.generateKey path ≠ .serving app port := by
  unfold generateKey
  split <;> intro hs <;> cases hs

/-- Serving, `main` has been through all of its checks. -/
theorem validate_of_serving (hs : h.main L K = .serving app port) :
    h.validate L K = .serving app port := by
  unfold main at hs
  split at hs
  · cases hs
  · split at hs
    · split at hs
      · exact absurd hs (generateKey_not_serving _)
      · exact hs
    · exact hs

/-- **What `main` serves with**: a certificate the CA signed and no reply called revoked, a
secret of at least 32 bytes, and a signer that said it has a key pair. -/
theorem serving_cases (hs : h.main L K = .serving app port) :
    (∃ ca server, h.caCert = some ca ∧ h.serverCert = some server ∧
      verifySignature K server ca = true ∧ h.revocation K server ca ≠ .revoked) ∧
    (∃ secret, h.getenv "JWT_SECRET" = some secret ∧ 32 ≤ secret.length ∧
      secret ≠ ascii "change-me-in-production" ∧ app.auth = ⟨L, secret⟩) ∧
    h.signer = (true, app.signer) := by
  have hv := validate_of_serving hs
  unfold validate at hv
  split at hv
  · rename_i ca server hca hserver
    split at hv
    · cases hv
    · rename_i hsigned
      split at hv
      · cases hv
      · rename_i hrevoked
        refine ⟨⟨ca, server, hca, hserver, by simpa using hsigned, hrevoked⟩, ?_⟩
        unfold connect at hv
        dsimp only at hv
        split at hv
        · cases hv
        · split at hv
          · cases hv
          · split at hv
            · cases hv
            · split at hv
              · cases hv
              · rename_i secret hsecret
                split at hv
                · cases hv
                · rename_i hstrong
                  split at hv
                  · rename_i hsigner
                    split at hv
                    · cases hv
                    · injection hv with happ
                      rw [← happ]
                      refine ⟨⟨secret, hsecret, ?_, ?_, rfl⟩, Prod.ext hsigner rfl⟩
                      · exact Nat.le_of_not_lt fun hlt => hstrong (Or.inl hlt)
                      · exact fun heq => hstrong (Or.inr heq)
                  · cases hv
  · cases hv

end Host

end PqcApi
