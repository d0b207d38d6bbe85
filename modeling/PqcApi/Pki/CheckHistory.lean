/-
Calls on one `RevocationChecker`, one after another.

A history is a list of calls with the time that passes between and inside them.  The ledger
notes beside the cache of whom each entry is the status: the cache is what is left of it when
the certificate and the issuer are forgotten, and that is what the code has to go by.
-/
import PqcApi.Pki.Revocation

namespace PqcApi

variable {X509 CertId : Type}

/-! ### Histories -/

/-- A certificate, by what there is to tell it by: itself if its `Certificate` has loaded it, or the
file that could not be loaded. -/
inductive Loading (X509 : Type)
  | loaded (x509 : X509)
  | failed (path : Bytes)

/-- What the `Certificate` points to. -/
def Loading.x509 {X509 : Type} : Loading X509 → Option X509
  | .loaded x509 => some x509
  | .failed _ => none

/-- What happens to a checker.  Time passes, in nanoseconds; a call comes with the answer
`checkStatus` gives if it is asked, and how long the query takes. -/
inductive CheckerStep (X509 : Type)
  | wait (d : Nat)
  | checkCert (cert issuer : Loading X509) (took : Nat) (answer : CertStatus)
  | clearCache

/-- The steady clock and the checker. -/
structure CheckerState where
  clock : Int
  checker : RevocationChecker

namespace CheckerState

/-- A new checker. -/
def new (ttl : Int) (clock : Int) : CheckerState := ⟨clock, ⟨ttl, fun _ => none⟩⟩

/-- A call for this serial number queries the responder. -/
def asks (s : CheckerState) (serial : Bytes) : Bool := (s.checker.lookup serial s.clock).isNone

theorem found_of_not_asks {s : CheckerState} {serial : Bytes} (h : ¬ s.asks serial = true) :
    ∃ cached, s.checker.lookup serial s.clock = some cached := by
  cases hl : s.checker.lookup serial s.clock with
  | none => exact absurd (by rw [asks, hl]; rfl) h
  | some cached => exact ⟨cached, rfl⟩

/-- `checkCert`, and the state it leaves. -/
def checkCert (s : CheckerState) (serial : Bytes) (took : Nat) (answer : CertStatus) :
    CertStatus × CheckerState :=
  let r := s.checker.checkCert serial s.clock (s.clock + took) answer
  (r.1, ⟨if s.asks serial then s.clock + took else s.clock, r.2⟩)

theorem checkCert_of_asks {s : CheckerState} {serial : Bytes} (h : s.asks serial = true)
    (took : Nat) (answer : CertStatus) : s.checkCert serial took answer =
      (answer, ⟨s.clock + took, s.checker.store serial answer (s.clock + took)⟩) := by
  have hnone : s.checker.lookup serial s.clock = none := Option.isNone_iff_eq_none.mp h
  unfold checkCert
  rw [RevocationChecker.checkCert_eq, hnone, if_pos h]

theorem checkCert_of_found {s : CheckerState} {serial : Bytes} {cached : CertStatus}
    (h : s.checker.lookup serial s.clock = some cached) (took : Nat) (answer : CertStatus) :
    s.checkCert serial took answer = (cached, s) := by
  have hasks : ¬ s.asks serial = true := by
    rw [asks, h, Option.isNone_some]
    exact Bool.false_ne_true
  unfold checkCert
  rw [RevocationChecker.checkCert_eq, h, if_neg hasks]

variable (K : PkiLib X509 CertId)

/-- One step of a history. -/
def step (s : CheckerState) : CheckerStep X509 → CheckerState
  | .wait d => { s with clock := s.clock + d }
  | .checkCert cert _ took answer => (s.checkCert (getSerialNumber K cert.x509) took answer).2
  | .clearCache => { s with checker := s.checker.clearCache }

section Step

variable {K} {s : CheckerState} {cert issuer : Loading X509} {took : Nat} {answer : CertStatus}

/-- A call that queries stores its answer with the time. -/
theorem step_of_asks (h : s.asks (getSerialNumber K cert.x509) = true) :
    s.step K (.checkCert cert issuer took answer) =
      ⟨s.clock + took, s.checker.store (getSerialNumber K cert.x509) answer (s.clock + took)⟩ :=
  congrArg Prod.snd (checkCert_of_asks h took answer)

/-- A call that does not query changes nothing. -/
theorem step_of_not_asks (h : ¬ s.asks (getSerialNumber K cert.x509) = true) :
    s.step K (.checkCert cert issuer took answer) = s := by
  obtain ⟨cached, hcached⟩ := found_of_not_asks h
  exact congrArg Prod.snd (checkCert_of_found hcached took answer)

/-- Time does not go back. -/
theorem clock_le_step (s : CheckerState) (x : CheckerStep X509) : s.clock ≤ (s.step K x).clock := by
  cases x with
  | wait d =>
      show s.clock ≤ s.clock + d
      omega
  | checkCert cert issuer took answer =>
      by_cases hasks : s.asks (getSerialNumber K cert.x509) = true
      · rw [step_of_asks hasks]
        show s.clock ≤ s.clock + took
        omega
      · rw [step_of_not_asks hasks]
  | clearCache => exact le_refl _

end Step

/-- The state a history leads to. -/
def run (s : CheckerState) (steps : List (CheckerStep X509)) : CheckerState :=
  steps.foldl (step K) s

theorem run_snoc (s : CheckerState) (steps : List (CheckerStep X509)) (x : CheckerStep X509) :
    s.run K (steps ++ [x]) = (s.run K steps).step K x := by
  rw [run, List.foldl_append]
  rfl

end CheckerState

/-! ### The ledger -/

/-- An answer of the responder: about which certificate, from which issuer, and when it was
given. -/
structure Answer (X509 : Type) where
  cert : Loading X509
  issuer : Loading X509
  status : CertStatus
  givenAt : Int

namespace CheckerState

variable (K : PkiLib X509 CertId)

/-- What a step changes in the ledger. -/
def note (s : CheckerState) (ledger : Bytes → Option (Answer X509)) :
    CheckerStep X509 → Bytes → Option (Answer X509)
  | .wait _ => ledger
  | .checkCert cert issuer took answer =>
      if s.asks (getSerialNumber K cert.x509) then
        fun serial => if serial = getSerialNumber K cert.x509 then
          some ⟨cert, issuer, answer, s.clock + took⟩ else ledger serial
      else ledger
  | .clearCache => fun _ => none

section Note

variable {K} {s : CheckerState} {l : Bytes → Option (Answer X509)} {cert issuer : Loading X509}
  {took : Nat} {answer : CertStatus} {serial : Bytes}

theorem note_self (h : s.asks (getSerialNumber K cert.x509) = true) :
    s.note K l (.checkCert cert issuer took answer) (getSerialNumber K cert.x509) =
      some ⟨cert, issuer, answer, s.clock + took⟩ := by
  simp only [note, h, if_true]

theorem note_other (hne : serial ≠ getSerialNumber K cert.x509) :
    s.note K l (.checkCert cert issuer took answer) serial = l serial := by
  by_cases hasks : s.asks (getSerialNumber K cert.x509) = true
  · simp only [note, if_pos hasks, if_neg hne]
  · simp only [note, if_neg hasks]

theorem note_of_not_asks (h : ¬ s.asks (getSerialNumber K cert.x509) = true) :
    s.note K l (.checkCert cert issuer took answer) = l := by
  simp only [note, if_neg h]

/-- A step keeps an entry, or the lifetime of what the cache has of it is over. -/
theorem note_keeps {y : CheckerStep X509} {a : Answer X509} (hkept : l serial = some a)
    (hcache : s.checker.cache serial = some ⟨a.status, a.givenAt⟩) (hle : a.givenAt ≤ s.clock)
    (hclear : y ≠ .clearCache) :
    s.note K l y serial = some a ∨
      s.checker.cacheTtlSeconds * 1000000000 ≤ s.clock - a.givenAt := by
  cases y with
  | wait d => exact Or.inl hkept
  | checkCert cert issuer took answer =>
      by_cases hasks : s.asks (getSerialNumber K cert.x509) = true
      · by_cases hserial : serial = getSerialNumber K cert.x509
        · -- the new answer takes its place
          subst hserial
          exact Or.inr (RevocationChecker.lookup_none (Option.isNone_iff_eq_none.mp hasks) hcache
            hle)
        · left
          rw [note_other hserial]
          exact hkept
      · left
        rw [note_of_not_asks hasks]
        exact hkept
  | clearCache => exact absurd rfl hclear

end Note

/-- The ledger after a history. -/
def ledger (s : CheckerState) (steps : List (CheckerStep X509)) : Bytes → Option (Answer X509) :=
  (steps.foldl (fun p x => (p.1.step K x, p.1.note K p.2 x)) (s, fun _ => none)).2

theorem ledger_snoc (s : CheckerState) (steps : List (CheckerStep X509)) (x : CheckerStep X509) :
    s.ledger K (steps ++ [x]) = (s.run K steps).note K (s.ledger K steps) x := by
  have hrun : ∀ (steps : List (CheckerStep X509)) (s : CheckerState)
      (l : Bytes → Option (Answer X509)),
      (steps.foldl (fun p x => (p.1.step K x, p.1.note K p.2 x)) (s, l)).1 = s.run K steps := by
    intro steps
    induction steps with
    | nil => intro s l; rfl
    | cons y steps ih => intro s l; exact ih _ _
  rw [ledger, List.foldl_append]
  show note K _ _ x = _
  rw [hrun]
  rfl

end CheckerState

/-! ### What the ledger says of the cache -/

section Ledger

variable (K : PkiLib X509 CertId) (ttl clock : Int)

/-- The state of a new checker after a history. -/
abbrev after (steps : List (CheckerStep X509)) : CheckerState :=
  (CheckerState.new ttl clock).run K steps

/-- Its ledger. -/
abbrev ledgerAfter (steps : List (CheckerStep X509)) : Bytes → Option (Answer X509) :=
  (CheckerState.new ttl clock).ledger K steps

/-- **The cache is the ledger without the names**, and the lifetime stays what it was. -/
theorem cache_eq_ledger (steps : List (CheckerStep X509)) :
    (after K ttl clock steps).checker.cacheTtlSeconds = ttl ∧
    ∀ serial, (after K ttl clock steps).checker.cache serial =
      (ledgerAfter K ttl clock steps serial).map fun a => ⟨a.status, a.givenAt⟩ := by
  induction steps using List.reverseRecOn with
  | nil => exact ⟨rfl, fun _ => rfl⟩
  | append_singleton steps x ih =>
      obtain ⟨httl, hcache⟩ := ih
      unfold after ledgerAfter at *
      rw [CheckerState.run_snoc, CheckerState.ledger_snoc]
      generalize (CheckerState.new ttl clock).run K steps = s at *
      generalize (CheckerState.new ttl clock).ledger K steps = l at *
      cases x with
      | wait d => exact ⟨httl, hcache⟩
      | checkCert cert issuer took answer =>
          by_cases hasks : s.asks (getSerialNumber K cert.x509) = true
          · rw [CheckerState.step_of_asks hasks]
            refine ⟨httl, fun serial => ?_⟩
            by_cases hserial : serial = getSerialNumber K cert.x509
            · rw [hserial, CheckerState.note_self hasks]
              exact if_pos rfl
            · rw [CheckerState.note_other hserial]
              exact (if_neg hserial).trans (hcache serial)
          · rw [CheckerState.step_of_not_asks hasks, CheckerState.note_of_not_asks hasks]
            exact ⟨httl, hcache⟩
      | clearCache => exact ⟨httl, fun _ => rfl⟩

variable {K ttl clock}

/-- An entry of the ledger was asked for, and has not been cleared. -/
theorem ledger_origin {steps : List (CheckerStep X509)} {serial : Bytes} {a : Answer X509}
    (h : ledgerAfter K ttl clock steps serial = some a) :
    ∃ (before : List (CheckerStep X509)) (took : Nat) (rest : List (CheckerStep X509)),
      steps = before ++ .checkCert a.cert a.issuer took a.status :: rest ∧
      (after K ttl clock before).asks (getSerialNumber K a.cert.x509) = true ∧
      getSerialNumber K a.cert.x509 = serial ∧ a.givenAt = (after K ttl clock before).clock + took ∧
      .clearCache ∉ rest := by
  induction steps using List.reverseRecOn with
  | nil => cases h
  | append_singleton steps x ih =>
      -- an entry that was there before the last step
      have old : ledgerAfter K ttl clock steps serial = some a → x ≠ .clearCache →
          ∃ (before : List (CheckerStep X509)) (took : Nat) (rest : List (CheckerStep X509)),
            steps ++ [x] = before ++ .checkCert a.cert a.issuer took a.status :: rest ∧
            (after K ttl clock before).asks (getSerialNumber K a.cert.x509) = true ∧
            getSerialNumber K a.cert.x509 = serial ∧
            a.givenAt = (after K ttl clock before).clock + took ∧ .clearCache ∉ rest := by
        intro hold hx
        obtain ⟨before, took, rest, rfl, hasks, hserial, hat, hclear⟩ := ih hold
        refine ⟨before, took, rest ++ [x], by simp, hasks, hserial, hat, ?_⟩
        intro hmem
        rcases List.mem_append.mp hmem with hmem | hmem
        · exact hclear hmem
        · exact hx (List.mem_singleton.mp hmem).symm
      unfold ledgerAfter at h old
      rw [CheckerState.ledger_snoc] at h
      cases x with
      | wait d => exact old h (fun hx => by cases hx)
      | checkCert cert issuer took answer =>
          by_cases hasks : ((CheckerState.new ttl clock).run K steps).asks
              (getSerialNumber K cert.x509) = true
          · by_cases hserial : serial = getSerialNumber K cert.x509
            · rw [hserial, CheckerState.note_self hasks] at h
              obtain rfl := Option.some.inj h
              exact ⟨steps, took, [], rfl, hasks, hserial.symm, rfl, by simp⟩
            · rw [CheckerState.note_other hserial] at h
              exact old h (fun hx => by cases hx)
          · rw [CheckerState.note_of_not_asks hasks] at h
            exact old h (fun hx => by cases hx)
      | clearCache => cases h

/-- **An answer is overwritten only when it is old.**  Unless the cache is cleared, an answer
stays in the ledger until its lifetime is over. -/
theorem ledger_keeps {before rest : List (CheckerStep X509)} {cert : Loading X509}
    (issuer : Loading X509) (took : Nat) (answer : CertStatus)
    (hasks : (after K ttl clock before).asks (getSerialNumber K cert.x509) = true)
    (hclear : .clearCache ∉ rest) :
    let steps := before ++ .checkCert cert issuer took answer :: rest
    let givenAt := (after K ttl clock before).clock + took
    givenAt ≤ (after K ttl clock steps).clock ∧
      (ledgerAfter K ttl clock steps (getSerialNumber K cert.x509) =
          some ⟨cert, issuer, answer, givenAt⟩ ∨
        ttl * 1000000000 ≤ (after K ttl clock steps).clock - givenAt) := by
  induction rest using List.reverseRecOn with
  | nil =>
      unfold after ledgerAfter at *
      dsimp only
      rw [CheckerState.run_snoc, CheckerState.ledger_snoc, CheckerState.step_of_asks hasks,
        CheckerState.note_self hasks]
      exact ⟨le_refl _, Or.inl rfl⟩
  | append_singleton rest y ih =>
      obtain ⟨hle, hkept⟩ := ih fun hmem => hclear (by simp [hmem])
      have hsteps : before ++ .checkCert cert issuer took answer :: (rest ++ [y]) =
          (before ++ .checkCert cert issuer took answer :: rest) ++ [y] := by simp
      have hcache := cache_eq_ledger K ttl clock
        (before ++ .checkCert cert issuer took answer :: rest)
      unfold after ledgerAfter at *
      dsimp only at hle hkept ⊢
      rw [hsteps, CheckerState.run_snoc, CheckerState.ledger_snoc]
      generalize (CheckerState.new ttl clock).run K
        (before ++ .checkCert cert issuer took answer :: rest) = s at *
      generalize (CheckerState.new ttl clock).ledger K
        (before ++ .checkCert cert issuer took answer :: rest) = l at *
      have hmono := CheckerState.clock_le_step (K := K) s y
      refine ⟨le_trans hle hmono, ?_⟩
      rcases hkept with hkept | hold
      · have hentry := (hcache.2 (getSerialNumber K cert.x509)).trans (congrArg _ hkept)
        have hy : y ≠ .clearCache := by
          rintro rfl
          exact hclear (by simp)
        rcases CheckerState.note_keeps hkept hentry hle hy with hstays | hexpired
        · exact Or.inl hstays
        · right
          rw [hcache.1] at hexpired
          dsimp only at hexpired
          omega
      · right
        omega

/-! ### Whose status is reported -/

variable (K ttl clock)

/-- What a call after this history returns. -/
def reported (before : List (CheckerStep X509)) (cert : Loading X509) (took : Nat)
    (answer : CertStatus) : CertStatus :=
  ((after K ttl clock before).checkCert (getSerialNumber K cert.x509) took answer).1

/-- What the call returns is an answer about this certificate from this issuer: that of its own
query, or one given less than the lifetime ago, with no clearing since. -/
def Answered (before : List (CheckerStep X509)) (cert issuer : Loading X509) (took : Nat)
    (answer : CertStatus) : Prop :=
  ((after K ttl clock before).asks (getSerialNumber K cert.x509) = true ∧
      reported K ttl clock before cert took answer = answer) ∨
    ∃ (b : List (CheckerStep X509)) (took' : Nat) (rest : List (CheckerStep X509)),
      before = b ++ .checkCert cert issuer took' (reported K ttl clock before cert took answer) ::
        rest ∧
      (after K ttl clock b).asks (getSerialNumber K cert.x509) = true ∧
      (after K ttl clock before).clock - ((after K ttl clock b).clock + took') <
        ttl * 1000000000 ∧
      .clearCache ∉ rest

/-- A valid entry that the call finds under its serial number is about its certificate, and from
its issuer. -/
def FindsOwn (before : List (CheckerStep X509)) (cert issuer : Loading X509) : Prop :=
  (after K ttl clock before).asks (getSerialNumber K cert.x509) = true ∨
    ∃ a, ledgerAfter K ttl clock before (getSerialNumber K cert.x509) = some a ∧ a.cert = cert ∧
      a.issuer = issuer

variable {K ttl clock}

theorem answered_iff_findsOwn {before : List (CheckerStep X509)} {cert issuer : Loading X509}
    {took : Nat} {answer : CertStatus} :
    Answered K ttl clock before cert issuer took answer ↔
      FindsOwn K ttl clock before cert issuer := by
  obtain ⟨httl, hcache⟩ := cache_eq_ledger K ttl clock before
  constructor
  · rintro (⟨hasks, -⟩ | ⟨b, took', rest, hbefore, hasks, hyoung, hclear⟩)
    · exact Or.inl hasks
    · obtain ⟨-, hkept | hold⟩ := ledger_keeps issuer took'
        (reported K ttl clock before cert took answer) hasks hclear
      · rw [← hbefore] at hkept
        exact Or.inr ⟨_, hkept, rfl, rfl⟩
      · rw [← hbefore] at hold
        omega
  · intro hown
    by_cases hasks : (after K ttl clock before).asks (getSerialNumber K cert.x509) = true
    · left
      refine ⟨hasks, ?_⟩
      rw [reported, CheckerState.checkCert_of_asks hasks]
    · right
      obtain ⟨cached, hcached⟩ := CheckerState.found_of_not_asks hasks
      have hreported : reported K ttl clock before cert took answer = cached := by
        rw [reported, CheckerState.checkCert_of_found hcached]
      rcases hown with hno | ⟨a, ha, rfl, rfl⟩
      · exact absurd hno hasks
      · obtain ⟨c, hc, hstatus, hyoung⟩ := RevocationChecker.lookup_some hcached
        obtain ⟨b, took', rest, hbefore, hasks', hserial, hat, hclear⟩ := ledger_origin ha
        rw [hcache, ha, Option.map_some, Option.some.injEq] at hc
        rw [hreported, ← hstatus, ← hc]
        refine ⟨b, took', rest, hbefore, hasks', ?_, hclear⟩
        rw [← hc, httl] at hyoung
        rw [← hat]
        exact hyoung

/-- **When the cache never mixes up certificates.**  In a history every call returns an answer
about its own certificate from its own issuer, if and only if every valid entry that a call finds
is one. -/
theorem cache_unmixed_iff (K : PkiLib X509 CertId) (ttl clock : Int)
    (steps : List (CheckerStep X509)) :
    (∀ before cert issuer took answer rest,
        steps = before ++ .checkCert cert issuer took answer :: rest →
        Answered K ttl clock before cert issuer took answer) ↔
      ∀ before cert issuer took answer rest,
        steps = before ++ .checkCert cert issuer took answer :: rest →
        FindsOwn K ttl clock before cert issuer := by
  constructor
  · intro h before cert issuer took answer rest hsteps
    exact answered_iff_findsOwn.mp (h before cert issuer took answer rest hsteps)
  · intro h before cert issuer took answer rest hsteps
    exact answered_iff_findsOwn.mpr (h before cert issuer took answer rest hsteps)

/-- An entry that a call for another certificate has stored is not its own. -/
theorem not_answered {before : List (CheckerStep X509)} {cert issuer : Loading X509}
    {a : Answer X509} {took : Nat} {answer : CertStatus}
    (hfound : ¬ (after K ttl clock before).asks (getSerialNumber K cert.x509) = true)
    (ha : ledgerAfter K ttl clock before (getSerialNumber K cert.x509) = some a)
    (hother : a.cert ≠ cert) : ¬ Answered K ttl clock before cert issuer took answer := by
  rw [answered_iff_findsOwn]
  rintro (hasks | ⟨a', ha', hcert, -⟩)
  · exact hfound hasks
  · obtain rfl := Option.some.inj (ha.symm.trans ha')
    exact hother hcert

/-- **The serial number of another certificate.**  The certificates of two issuers have the same
one, or two certificates have not been loaded.  Asked about the second, the checker reports what
the responder said about the first, though it would say now that the second is revoked. -/
theorem cache_mixes :
    (let K : PkiLib Bytes Bytes := { Sample.pki with serial := fun _ => ascii "01" }
    let steps := [.checkCert (.loaded (ascii "server")) (.loaded (ascii "ca")) 0 .good]
    reported K 300 0 steps (.loaded (ascii "other")) 0 .revoked = .good ∧
      ¬ Answered K 300 0 steps (.loaded (ascii "other")) (.loaded (ascii "another ca")) 0
        .revoked) ∧
    let steps := [.checkCert (.failed (ascii "one.crt")) (.loaded (ascii "ca")) 0 .good]
    reported Sample.pki 300 0 steps (.failed (ascii "two.crt")) 0 .revoked = .good ∧
      ¬ Answered Sample.pki 300 0 steps (.failed (ascii "two.crt")) (.loaded (ascii "ca")) 0
        .revoked := by
  refine ⟨⟨by decide, not_answered (by decide) rfl fun h => ?_⟩,
    by decide, not_answered (by decide) rfl fun h => ?_⟩
  · revert h
    simp only [Loading.loaded.injEq]
    decide
  · revert h
    simp only [Loading.failed.injEq]
    decide

/-! ### What is cached -/

variable (K ttl clock)

/-- A call after this history queries the responder, and the query fails. -/
def Fails (before : List (CheckerStep X509)) (cert : Loading X509) (answer : CertStatus) : Prop :=
  (after K ttl clock before).asks (getSerialNumber K cert.x509) = true ∧ answer = .error

/-- Only what the responder has answered is cached: a call returns an error only if its own query
failed, a failed query leaves the cache alone, and the next call for the certificate queries
again and returns what it is told. -/
structure OnlyAnswersCached (steps : List (CheckerStep X509)) : Prop where
  own : ∀ before cert issuer took answer rest,
    steps = before ++ .checkCert cert issuer took answer :: rest →
    reported K ttl clock before cert took answer = .error → Fails K ttl clock before cert answer
  unchanged : ∀ before cert issuer took answer rest,
    steps = before ++ .checkCert cert issuer took answer :: rest →
    Fails K ttl clock before cert answer →
    (after K ttl clock (before ++ [.checkCert cert issuer took answer])).checker =
      (after K ttl clock before).checker
  again : ∀ before cert issuer took answer middle issuer' took' answer' rest,
    steps = before ++ .checkCert cert issuer took answer :: middle ++
      .checkCert cert issuer' took' answer' :: rest →
    Fails K ttl clock before cert answer → (∀ i t a, .checkCert cert i t a ∉ middle) →
    (after K ttl clock (before ++ .checkCert cert issuer took answer :: middle)).asks
        (getSerialNumber K cert.x509) = true ∧
      reported K ttl clock (before ++ .checkCert cert issuer took answer :: middle) cert took'
        answer' = answer'

/-- No query of the history fails. -/
def NoFailure (steps : List (CheckerStep X509)) : Prop :=
  ∀ before cert issuer took answer rest,
    steps = before ++ .checkCert cert issuer took answer :: rest →
    ¬ Fails K ttl clock before cert answer

variable {K ttl clock}

/-- Where no query has failed, no error is cached. -/
theorem NoFailure.ledger_ne_error {steps : List (CheckerStep X509)}
    (h : NoFailure K ttl clock steps) {serial : Bytes} {a : Answer X509}
    (ha : ledgerAfter K ttl clock steps serial = some a) : a.status ≠ .error := by
  obtain ⟨before, took, rest, hsteps, hasks, -, -, -⟩ := ledger_origin ha
  exact fun herror => h before a.cert a.issuer took a.status rest hsteps ⟨hasks, herror⟩

/-- What holds of a history holds of its beginning. -/
theorem OnlyAnswersCached.init {steps : List (CheckerStep X509)} {x : CheckerStep X509}
    (h : OnlyAnswersCached K ttl clock (steps ++ [x])) : OnlyAnswersCached K ttl clock steps where
  own before cert issuer took answer rest hsteps :=
    h.own before cert issuer took answer (rest ++ [x]) (by rw [hsteps]; simp)
  unchanged before cert issuer took answer rest hsteps :=
    h.unchanged before cert issuer took answer (rest ++ [x]) (by rw [hsteps]; simp)
  again before cert issuer took answer middle issuer' took' answer' rest hsteps :=
    h.again before cert issuer took answer middle issuer' took' answer' (rest ++ [x])
      (by rw [hsteps]; simp)

/-- A failed query puts an error into a cache that holds none. -/
theorem noFailure_of_onlyAnswersCached {steps : List (CheckerStep X509)}
    (h : OnlyAnswersCached K ttl clock steps) : NoFailure K ttl clock steps := by
  induction steps using List.reverseRecOn with
  | nil =>
      intro before cert issuer took answer rest hsteps
      cases before <;> cases hsteps
  | append_singleton steps x ih =>
      have hinit := ih h.init
      intro before cert issuer took answer rest hsteps hfails
      rcases List.eq_nil_or_concat rest with rfl | ⟨rest', y, rfl⟩
      · -- the last call is the one that fails
        obtain ⟨rfl, hx⟩ := List.append_inj' hsteps rfl
        have hsame := h.unchanged steps cert issuer took answer [] hsteps hfails
        obtain ⟨hasks, rfl⟩ := hfails
        have hentry : (after K ttl clock
            (steps ++ [.checkCert cert issuer took .error])).checker.cache
            (getSerialNumber K cert.x509) =
              some ⟨.error, (after K ttl clock steps).clock + took⟩ := by
          unfold after
          rw [CheckerState.run_snoc, CheckerState.step_of_asks hasks]
          exact if_pos rfl
        rw [hsame, (cache_eq_ledger K ttl clock steps).2] at hentry
        obtain ⟨a, ha, hstatus⟩ := Option.map_eq_some_iff.mp hentry
        exact hinit.ledger_ne_error ha (CachedStatus.mk.inj hstatus).1
      · have hcut : steps = before ++ .checkCert cert issuer took answer :: rest' := by
          rw [List.concat_eq_append, ← List.cons_append, ← List.append_assoc] at hsteps
          exact (List.append_inj' hsteps rfl).1
        exact hinit before cert issuer took answer rest' hcut hfails

/-- **When only answers are cached.**  In a history, if and only if none of its queries fails. -/
theorem answers_cached_iff (K : PkiLib X509 CertId) (ttl clock : Int)
    (steps : List (CheckerStep X509)) :
    OnlyAnswersCached K ttl clock steps ↔ NoFailure K ttl clock steps := by
  constructor
  · exact noFailure_of_onlyAnswersCached
  · intro h
    refine ⟨?_, ?_, ?_⟩
    · intro before cert issuer took answer rest hsteps herror
      by_cases hasks : (after K ttl clock before).asks (getSerialNumber K cert.x509) = true
      · rw [reported, CheckerState.checkCert_of_asks hasks] at herror
        exact ⟨hasks, herror⟩
      · exfalso
        have hbefore : NoFailure K ttl clock before := by
          intro b c i t a r hb
          exact h b c i t a (r ++ .checkCert cert issuer took answer :: rest)
            (by rw [hsteps, hb]; simp)
        obtain ⟨cached, hcached⟩ := CheckerState.found_of_not_asks hasks
        rw [reported, CheckerState.checkCert_of_found hcached] at herror
        obtain ⟨c, hc, hstatus, -⟩ := RevocationChecker.lookup_some hcached
        rw [(cache_eq_ledger K ttl clock before).2] at hc
        obtain ⟨a, ha, hac⟩ := Option.map_eq_some_iff.mp hc
        refine hbefore.ledger_ne_error ha ?_
        rw [← herror, ← hstatus, ← hac]
    · intro before cert issuer took answer rest hsteps hfails
      exact absurd hfails (h before cert issuer took answer rest hsteps)
    · intro before cert issuer took answer middle issuer' took' answer' rest hsteps hfails
      refine absurd hfails (h before cert issuer took answer
        (middle ++ .checkCert cert issuer' took' answer' :: rest) ?_)
      rw [hsteps]
      simp

/-- A query fails when the client gets no entries: no request was built, curl failed, or the
reply is not a successful response. -/
theorem checkStatus_eq_error (o : BuildOutcome) (post : Bytes → Option Bytes) (cert issuer : X509) :
    checkStatus K o post cert issuer = .error ↔ received K o post cert issuer = none := by
  have hfirst : ∀ singles : List (SingleResponse CertId), firstStatus singles ≠ .error := by
    intro singles
    have hstatus : ∀ status, certStatus status ≠ .error := by
      intro status
      unfold certStatus
      split
      · exact fun h => by cases h
      · split <;> exact fun h => by cases h
    cases singles with
    | nil => exact hstatus 0
    | cons first rest => exact hstatus first.status
  rw [checkStatus_eq]
  cases received K o post cert issuer with
  | none => exact iff_of_true rfl rfl
  | some singles => exact iff_of_false (hfirst singles) (fun h => by cases h)

/-- **A failure hides a revocation.**  The first query fails, as curl does; a minute later the
responder would say that the certificate is revoked, but it is not asked. -/
theorem failure_hides_revocation :
    let cert := .loaded (ascii "server")
    let failed := checkStatus Sample.pki ⟨true, true⟩ (fun _ => none) (ascii "server") (ascii "ca")
    let steps := [.checkCert cert (.loaded (ascii "ca")) 0 failed, .wait 60000000000]
    Fails Sample.pki 300 0 [] cert failed ∧
      (after Sample.pki 300 0 steps).asks (getSerialNumber Sample.pki cert.x509) = false ∧
      reported Sample.pki 300 0 steps cert 0 .revoked = .error := by
  intro cert failed steps
  have hfailed : failed = .error := (checkStatus_eq_error _ _ _ _).mpr rfl
  exact ⟨⟨by decide, hfailed⟩, by decide, by decide⟩

end Ledger

end PqcApi
