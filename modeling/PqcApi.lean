import PqcApi.Accounts.Credentials
import PqcApi.Accounts.Registration
import PqcApi.Api.Clients
import PqcApi.Api.Controllers
import PqcApi.Api.Escaping
import PqcApi.Api.Health
import PqcApi.Api.Server
import PqcApi.Api.Timestamp
import PqcApi.Auth.AuthManager
import PqcApi.Auth.RoundTrip
import PqcApi.Auth.Spellings
import PqcApi.Auth.Token
import PqcApi.Backend
import PqcApi.Bytes
import PqcApi.Codec.Base64
import PqcApi.Codec.Base64Reader
import PqcApi.Codec.Disposition
import PqcApi.Codec.Escape
import PqcApi.Codec.Octets
import PqcApi.Concurrent.Atomic
import PqcApi.Concurrent.Connection
import PqcApi.Concurrent.Front
import PqcApi.Concurrent.Linear
import PqcApi.Concurrent.Pool
import PqcApi.Concurrent.Program
import PqcApi.Concurrent.Solo
import PqcApi.Concurrent.System
import PqcApi.Concurrent.Waiting
import PqcApi.Crypto.DilithiumSigner
import PqcApi.Crypto.KeyLoading
import PqcApi.Documents.Desk
import PqcApi.Documents.Door
import PqcApi.Documents.Endings
import PqcApi.Documents.External
import PqcApi.Documents.Filename
import PqcApi.Documents.Handlers
import PqcApi.Documents.Isolation
import PqcApi.Documents.Linear
import PqcApi.Documents.OwnKey
import PqcApi.Documents.Paths
import PqcApi.Documents.Progress
import PqcApi.Documents.SignatureText
import PqcApi.Documents.Store
import PqcApi.Harness.Handshakes
import PqcApi.Harness.Interleaving
import PqcApi.Harness.Report
import PqcApi.Html.Tokenizer
import PqcApi.Libraries
import PqcApi.Pages.Browser
import PqcApi.Pages.Dashboard
import PqcApi.Pages.OpenVerify
import PqcApi.Pages.Panels
import PqcApi.Pages.Verdicts
import PqcApi.Persistence.Repositories
import PqcApi.Persistence.Tables
import PqcApi.Pki.Certificate
import PqcApi.Pki.CheckHistory
import PqcApi.Pki.ConcurrentChecks
import PqcApi.Pki.OCSPClient
import PqcApi.Pki.Revocation
import PqcApi.Restarts
import PqcApi.Sample
import PqcApi.Sessions.Handout
import PqcApi.Sessions.History
import PqcApi.Sessions.Lifetime
import PqcApi.Sessions.Origin
import PqcApi.Sessions.Paths
import PqcApi.Sessions.Progress
import PqcApi.Sessions.Revocation
import PqcApi.Sessions.Soundness
import PqcApi.Site.Accounts
import PqcApi.Site.Answers
import PqcApi.Site.Documents
import PqcApi.Site.Endpoints
import PqcApi.Site.Lengths
import PqcApi.Site.Mediation
import PqcApi.Site.Progress
import PqcApi.Site.Refinement
import PqcApi.Site.Wire
import PqcApi.Startup
