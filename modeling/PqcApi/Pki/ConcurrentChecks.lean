/-
Concurrent calls of `checkCert` for one certificate.

The lock is held in two sections, and the responder is asked between them.  A query that began
before the certificate was revoked may end after a later one, and its answer then takes the
place of the newer one.  As long as that does not happen, a revocation that has been reported
is reported from then on.
-/
import PqcApi.Concurrent.System
import PqcApi.Pki.OCSPClient

namespace PqcApi

open Concurrent

/-! ### The system -/

/-- One atomic step of `checkCert`. -/
inductive CheckCmd
  /-- the first locked section -/
  | lookup (serial : Bytes)
  /-- `checkStatus` -/
  | query
  /-- the second locked section -/
  | store (serial : Bytes) (status : CertStatus)

/-- What it gives back. -/
abbrev CheckCmd.Reply : CheckCmd → Type
  | .lookup _ => Option CertStatus
  | .query => CertStatus
  | .store .. => Unit

/-- The steps of `checkCert`, which throws nothing. -/
abbrev checkSteps : Signature := ⟨CheckCmd, CheckCmd.Reply, Empty⟩

/-- `checkCert` for a certificate with this serial number. -/
def checkCertProgram (serial : Bytes) : Program checkSteps CertStatus := do
  let cached : Option CertStatus ← Program.perform (S := checkSteps) (.lookup serial)
  match cached with
  | some status => return status
  | none =>
      let status : CertStatus ← Program.perform (S := checkSteps) .query
      let _ ← Program.perform (S := checkSteps) (.store serial status)
      return status

/-- The steady clock, the checker, and whether the certificate has been revoked. -/
structure CheckWorld where
  clock : Int
  checker : RevocationChecker
  revoked : Bool

/-- What happens by itself: time passes, and the certificate is revoked once and for all. -/
inductive CheckMove
  | tick (d : Nat)
  | revoke

namespace CheckWorld

/-- What the responder says. -/
def answer (w : CheckWorld) : CertStatus := if w.revoked then .revoked else .good

def exec (w : CheckWorld) : (c : CheckCmd) → Unit → Option (c.Reply × CheckWorld)
  | .lookup serial, _ => some (w.checker.lookup serial w.clock, w)
  | .query, _ => some (w.answer, w)
  | .store serial status, _ =>
      some ((), { w with checker := w.checker.store serial status w.clock })

def move (w : CheckWorld) : CheckMove → Option CheckWorld
  | .tick d => some { w with clock := w.clock + d }
  | .revoke => some { w with revoked := true }

/-- A new checker. -/
def new (ttl clock : Int) (revoked : Bool) : CheckWorld := ⟨clock, ⟨ttl, fun _ => none⟩, revoked⟩

/-- A revocation is cached under the serial number, valid or not. -/
def HasRevoked (w : CheckWorld) (serial : Bytes) : Prop :=
  ∃ c, w.checker.cache serial = some c ∧ c.status = .revoked

end CheckWorld

/-- Any number of calls for one certificate. -/
abbrev checks (serial : Bytes) : System checkSteps where
  World := CheckWorld
  Choice := Unit
  Move := CheckMove
  exec := CheckWorld.exec
  move := CheckWorld.move
  Req := Unit
  Out := CertStatus
  program _ := checkCertProgram serial

/-- A call on its own is the function `checkCert`. -/
theorem alone_checkCert (serial : Bytes) (w : CheckWorld) :
    (checks serial).alone () w (checkCertProgram serial) =
      some (.ret (w.checker.checkCert serial w.clock w.clock w.answer).1,
        { w with checker := (w.checker.checkCert serial w.clock w.clock w.answer).2 }) := by
  rw [RevocationChecker.checkCert_eq]
  show (checks serial).alone () w (match w.checker.lookup serial w.clock with
    | some status => Program.ret status
    | none => _) = _
  cases w.checker.lookup serial w.clock <;> rfl

variable {serial : Bytes}

/-! ### Where a call stands -/

/-- A call that has returned found its answer, or asked for it and stored it. -/
theorem returned_path {log : List (Event (checks serial).toMachine)} {status : CertStatus}
    (h : Path (checkCertProgram serial) log (.ret status)) :
    (∃ e, e ∈ log ∧ e.Is (.lookup serial) (some status)) ∨
      ∃ e e', e ∈ log ∧ e' ∈ log ∧ e.Is .query status ∧ e'.Is (.store serial status) () := by
  obtain ⟨e, cached, l₁, -, he, rfl, h₁⟩ := path_call_ret.mp h
  cases cached with
  | some found =>
      obtain ⟨rfl, hret⟩ := path_ret.mp h₁
      cases hret
      exact Or.inl ⟨e, by simp, he⟩
  | none =>
      obtain ⟨e', answer, l₂, -, he', rfl, h₂⟩ := path_call_ret.mp h₁
      obtain ⟨e'', u, l₃, -, he'', rfl, h₃⟩ := path_call_ret.mp h₂
      obtain ⟨rfl, hret⟩ := path_ret.mp h₃
      cases hret
      exact Or.inr ⟨e', e'', by simp, by simp, he', he''⟩

/-- What a call is about to store is what its query was answered. -/
theorem storing_path {log : List (Event (checks serial).toMachine)} {s : Bytes}
    {status : CertStatus} {k : Unit → Program checkSteps CertStatus}
    (h : Path (checkCertProgram serial) log (.call (.store s status) k)) :
    s = serial ∧ ∃ e ∈ log, e.Is .query status := by
  rcases path_call.mp h with ⟨-, hq⟩ | ⟨e, cached, l₁, -, -, rfl, h₁⟩
  · cases hq
  cases cached with
  | some found => cases (path_ret.mp h₁).2
  | none =>
      rcases path_call.mp h₁ with ⟨-, hq⟩ | ⟨e', answer, l₂, -, he', rfl, h₂⟩
      · cases hq
      rcases path_call.mp h₂ with ⟨-, hq⟩ | ⟨e'', u, l₃, -, -, rfl, h₃⟩
      · obtain ⟨rfl, rfl⟩ := CheckCmd.store.inj (Program.call.inj hq).1
        exact ⟨rfl, e', by simp, he'⟩
      · cases (path_ret.mp h₃).2

/-- What a query was told. -/
theorem answer_of_query {e : Event (checks serial).toMachine} (hreal : e.Real)
    {status : CertStatus} (h : e.Is .query status) : status = e.pre.answer :=
  (Prod.mk.inj (Option.some.inj (h.exec hreal))).1.symm

/-- What a lookup found, and that it left the world alone. -/
theorem found_of_lookup {e : Event (checks serial).toMachine} (hreal : e.Real)
    {status : CertStatus} (h : e.Is (.lookup serial) (some status)) :
    e.pre.checker.lookup serial e.pre.clock = some status :=
  (Prod.mk.inj (Option.some.inj (h.exec hreal))).1

/-- A stored revocation is cached. -/
theorem hasRevoked_of_store {e : Event (checks serial).toMachine} (hreal : e.Real)
    (h : e.Is (.store serial .revoked) ()) : e.post.HasRevoked serial := by
  rw [← (Prod.mk.inj (Option.some.inj (h.exec hreal))).2]
  exact ⟨_, if_pos rfl, rfl⟩

/-! ### What stays -/

/-- The step stores another answer in the place of a revocation. -/
def Overwrites (c : Config (checks serial)) (s : Step (checks serial)) : Prop :=
  ∃ i ch th status k, s = .run i ch ∧ c.threads[i]? = some th ∧
    th.rest = .call (.store serial status) k ∧ status ≠ .revoked ∧ c.world.HasRevoked serial

/-- No step stores another answer in the place of a revocation. -/
def Fresher (c : Config (checks serial)) (s : Step (checks serial)) : Prop := ¬ Overwrites c s

/-- The certificate stays revoked, and so does its entry. -/
structure RevokedLe (serial : Bytes) (w w' : CheckWorld) : Prop where
  responder : w.revoked = true → w'.revoked = true
  cached : w.HasRevoked serial → w'.HasRevoked serial

theorem RevokedLe.refl (w : CheckWorld) : RevokedLe serial w w := ⟨id, id⟩

theorem RevokedLe.trans (a b c : CheckWorld) (hab : RevokedLe serial a b)
    (hbc : RevokedLe serial b c) : RevokedLe serial a c :=
  ⟨hbc.responder ∘ hab.responder, hbc.cached ∘ hab.cached⟩

/-- Every thread stands where its log says, and what has been reported as revoked is. -/
structure Seen (c : Config (checks serial)) : Prop where
  sound : c.Sound
  cached : c.world.HasRevoked serial → c.world.revoked = true
  answered : ∀ th ∈ c.threads, ∀ e ∈ th.log, e.Is .query .revoked → c.world.revoked = true

theorem seen_fresh (ttl clock : Int) (revoked : Bool) :
    Seen (Config.fresh (CheckWorld.new ttl clock revoked) : Config (checks serial)) := by
  refine ⟨Config.fresh_sound _, ?_, ?_⟩
  · rintro ⟨c, hc, -⟩
    cases hc
  · intro th hth
    cases hth

/-- What a step of a call does to the world. -/
theorem CheckWorld.exec_cases {w w' : CheckWorld} {cmd : CheckCmd} {ch : Unit} {r : cmd.Reply}
    (h : w.exec cmd ch = some (r, w')) :
    w' = w ∨ ∃ s status, cmd = .store s status ∧
      w' = { w with checker := w.checker.store s status w.clock } := by
  cases cmd with
  | lookup s => exact Or.inl (Prod.mk.inj (Option.some.inj h)).2.symm
  | query => exact Or.inl (Prod.mk.inj (Option.some.inj h)).2.symm
  | store s status => exact Or.inr ⟨s, status, rfl, (Prod.mk.inj (Option.some.inj h)).2.symm⟩

/-- Storing anything else leaves no revocation. -/
theorem status_of_hasRevoked_store {w : CheckWorld} {status : CertStatus}
    (h : ({ w with checker := w.checker.store serial status w.clock } : CheckWorld).HasRevoked
      serial) : status = .revoked := by
  obtain ⟨c, hc, hstatus⟩ := h
  rw [← Option.some.inj ((if_pos rfl).symm.trans hc)] at hstatus
  exact hstatus

section Step

variable {c c' : Config (checks serial)} {s : Step (checks serial)}

/-- A revocation is not taken back. -/
theorem revoked_next (h : c.next s = some c') (hrevoked : c.world.revoked = true) :
    c'.world.revoked = true := by
  rcases Config.next_cases h with ⟨m, w, -, hm, rfl⟩ | ⟨r, -, rfl⟩ |
    ⟨i, ch, req, cmd, k, log, r, w, -, -, hx, rfl⟩
  · cases m with
    | tick d =>
        obtain rfl := Option.some.inj hm
        exact hrevoked
    | revoke =>
        obtain rfl := Option.some.inj hm
        rfl
  · exact hrevoked
  · rcases CheckWorld.exec_cases hx with rfl | ⟨s', status, -, rfl⟩
    · exact hrevoked
    · exact hrevoked

/-- A revocation enters the cache from a call that was told of it. -/
theorem Seen.cached_next (hc : Seen c) (h : c.next s = some c')
    (hcached : c'.world.HasRevoked serial) : c'.world.revoked = true := by
  have hold : c.world.HasRevoked serial → c'.world.revoked = true := fun hold =>
    revoked_next h (hc.cached hold)
  rcases Config.next_cases h with ⟨m, w, -, hm, rfl⟩ | ⟨r, -, rfl⟩ |
    ⟨i, ch, req, cmd, k, log, r, w, -, hth, hx, rfl⟩
  · cases m with
    | tick d =>
        obtain rfl := Option.some.inj hm
        exact hold hcached
    | revoke =>
        obtain rfl := Option.some.inj hm
        rfl
  · exact hold hcached
  · rcases CheckWorld.exec_cases hx with rfl | ⟨s', status, rfl, rfl⟩
    · exact hold hcached
    · have hmem := List.mem_of_getElem? hth
      obtain ⟨rfl, e, he, hquery⟩ := storing_path (hc.sound _ hmem)
      obtain rfl := status_of_hasRevoked_store hcached
      exact hc.answered _ hmem e he hquery

/-- A call is told of a revocation only after it. -/
theorem Seen.answered_next (hc : Seen c) (h : c.next s = some c') {th : Thread (checks serial)}
    (hmem : th ∈ c'.threads) {e : Event (checks serial).toMachine} (he : e ∈ th.log)
    (hquery : e.Is .query .revoked) : c'.world.revoked = true := by
  obtain ⟨i, hi⟩ := List.mem_iff_getElem?.mp hmem
  rcases Config.thread_was h hi with hold | ⟨r, -, -, rfl⟩ |
    ⟨ch, req, cmd, k, log, r, -, hth, hx, rfl⟩
  · exact revoked_next h (hc.answered th (List.mem_of_getElem? hold) e he hquery)
  · cases he
  · rcases List.mem_append.mp he with hold | hnew
    · exact revoked_next h (hc.answered _ (List.mem_of_getElem? hth) e hold hquery)
    · obtain rfl := List.mem_singleton.mp hnew
      have hanswer := answer_of_query (e := ⟨cmd, ch, c.world, r, c'.world⟩) hx hquery
      refine revoked_next h ?_
      by_contra hgood
      rw [CheckWorld.answer, if_neg hgood] at hanswer
      cases hanswer

theorem Seen.next (hc : Seen c) (h : c.next s = some c') : Seen c' :=
  ⟨hc.sound.next h, hc.cached_next h, fun _ hmem _ he => hc.answered_next h hmem he⟩

end Step

/-- A step that overwrites no revocation leaves the certificate and its entry revoked. -/
theorem revokedLe_next {c c' : Config (checks serial)} {s : Step (checks serial)}
    (hc : Seen c) (hok : Fresher c s) (h : c.next s = some c') :
    RevokedLe serial c.world c'.world := by
  rcases Config.next_cases h with ⟨m, w, -, hm, rfl⟩ | ⟨r, -, rfl⟩ |
    ⟨i, ch, req, cmd, k, log, r, w, rfl, hth, hx, rfl⟩
  · cases m with
    | tick d =>
        obtain rfl := Option.some.inj hm
        exact ⟨id, id⟩
    | revoke =>
        obtain rfl := Option.some.inj hm
        exact ⟨fun _ => rfl, id⟩
  · exact RevokedLe.refl _
  · rcases CheckWorld.exec_cases hx with rfl | ⟨s', status, rfl, rfl⟩
    · exact RevokedLe.refl _
    · refine ⟨id, fun hrevoked => ?_⟩
      obtain ⟨rfl, -⟩ := storing_path (hc.sound _ (List.mem_of_getElem? hth))
      by_contra hlost
      refine hok ⟨i, ch, _, status, k, rfl, hth, rfl, ?_, hrevoked⟩
      rintro rfl
      exact hlost ⟨_, if_pos rfl, rfl⟩

/-! ### A revocation that has been reported -/

variable {ttl clock : Int} {revoked : Bool}

theorem seen_of_reach {c : Config (checks serial)}
    (h : Reach Fresher (Config.fresh (CheckWorld.new ttl clock revoked)) c) : Seen c :=
  h.invariant (I := Seen) (seen_fresh ttl clock revoked) fun hb _ hn => hb.next hn

/-- From a configuration of the run on, later calls see worlds that only grow. -/
theorem revokedLe_ascends {b c : Config (checks serial)}
    (hb : Reach Fresher (Config.fresh (CheckWorld.new ttl clock revoked)) b)
    (h : Reach Fresher b c) {i : Nat} (hlate : b.threads.length ≤ i) {th : Thread (checks serial)}
    (hi : c.threads[i]? = some th) : Ascends (RevokedLe serial) b.world th.log c.world := by
  have hseen : Reach (fun d s => Seen d ∧ Fresher d s) b c :=
    Reach.strengthen (fun hbd hok => ⟨seen_of_reach (hb.trans hbd), hok⟩) (Reach.refl b) h
  exact hseen.ascends RevokedLe.refl RevokedLe.trans
    (fun hok hn => revokedLe_next hok.1 hok.2 hn) hlate hi

/-- Once a call has returned `Revoked`, so it is and so it is cached. -/
theorem revoked_of_returned {b : Config (checks serial)}
    (hb : Reach Fresher (Config.fresh (CheckWorld.new ttl clock revoked)) b) {i : Nat}
    {th : Thread (checks serial)} (hi : b.threads[i]? = some th)
    (hdone : th.rest = .ret .revoked) :
    b.world.revoked = true ∧ b.world.HasRevoked serial := by
  have hmem := List.mem_of_getElem? hi
  have hseen := seen_of_reach hb
  have hpath : Path (checkCertProgram serial) th.log (.ret .revoked) :=
    hdone ▸ hseen.sound th hmem
  have hasc := revokedLe_ascends (Reach.refl _) hb (Nat.zero_le i) hi
  have hcached : b.world.HasRevoked serial := by
    rcases returned_path hpath with ⟨e, he, hfound⟩ | ⟨e, e', he, he', hquery, hstore⟩
    · have hle := hasc.mem RevokedLe.trans e he
      obtain ⟨c, hc, hstatus, -⟩ :=
        RevocationChecker.lookup_some (found_of_lookup (hpath.real e he) hfound)
      exact hle.2.2.cached (hle.2.1.cached ⟨c, hc, hstatus⟩)
    · have hle := (hasc.mem RevokedLe.trans e' he').2.2
      exact hle.cached (hasRevoked_of_store (hpath.real e' he') hstore)
  exact ⟨hseen.cached hcached, hcached⟩

/-- **A revocation that has been seen stays seen.**  If no call stores another answer in the
place of a revocation, then after a call has returned `Revoked` no call that starts later
returns `Good`. -/
theorem revocation_stays {b c : Config (checks serial)}
    (hb : Reach Fresher (Config.fresh (CheckWorld.new ttl clock revoked)) b)
    (hbc : Reach Fresher b c) {i j : Nat} {th th' : Thread (checks serial)}
    (hi : b.threads[i]? = some th) (hdone : th.rest = .ret .revoked)
    (hj : c.threads[j]? = some th') (hlater : b.threads.length ≤ j) :
    th'.rest ≠ .ret .good := by
  intro hgood
  obtain ⟨hrevoked, hcached⟩ := revoked_of_returned hb hi hdone
  have hpath : Path (checkCertProgram serial) th'.log (.ret .good) :=
    hgood ▸ (seen_of_reach (hb.trans hbc)).sound th' (List.mem_of_getElem? hj)
  have hasc := revokedLe_ascends hb hbc hlater hj
  rcases returned_path hpath with ⟨e, he, hfound⟩ | ⟨e, e', he, -, hquery, -⟩
  · have hle := (hasc.mem RevokedLe.trans e he).1
    obtain ⟨c₁, hc₁, hstatus₁⟩ := hle.cached hcached
    obtain ⟨c₂, hc₂, hstatus₂, -⟩ :=
      RevocationChecker.lookup_some (found_of_lookup (hpath.real e he) hfound)
    obtain rfl := Option.some.inj (hc₁.symm.trans hc₂)
    cases hstatus₁.symm.trans hstatus₂
  · have hle := (hasc.mem RevokedLe.trans e he).1
    have hanswer := answer_of_query (hpath.real e he) hquery
    rw [CheckWorld.answer, if_pos (hle.responder hrevoked)] at hanswer
    cases hanswer

/-! ### Two runs -/

theorem fresher_move (c : Config (checks serial)) (m : CheckMove) : Fresher c (.move m) := by
  rintro ⟨i, ch, th, status, k, hs, -⟩
  cases hs

theorem fresher_start (c : Config (checks serial)) : Fresher c (.start ()) := by
  rintro ⟨i, ch, th, status, k, hs, -⟩
  cases hs

theorem fresher_run {c : Config (checks serial)} {i : Nat} {ch : Unit}
    {th : Thread (checks serial)} (hth : c.threads[i]? = some th)
    (h : ∀ s status k, th.rest = .call (.store s status) k → status = .revoked) :
    Fresher c (.run i ch) := by
  rintro ⟨i', ch', th', status, k, hs, hth', hrest, hother, -⟩
  obtain ⟨rfl, -⟩ := Step.run.inj hs
  obtain rfl := Option.some.inj (hth.symm.trans hth')
  exact hother (h _ status k hrest)

/-- The certificate is revoked, one call asks and reports it, and the next finds it cached.  So
does a call that has the checker to itself afterwards. -/
theorem revocation_stays_sample :
    ∃ (b c : Config (checks (ascii "01"))) (th th' : Thread (checks (ascii "01"))),
      b.threads[0]? = some th ∧ th.rest = .ret .revoked ∧ c.threads[1]? = some th' ∧
        th'.rest = .ret .revoked ∧ th'.rest ≠ .ret .good ∧
        ∃ w, (checks (ascii "01")).alone () c.world (checkCertProgram (ascii "01")) =
          some (.ret .revoked, w) := by
  let a : Config (checks (ascii "01")) := Config.fresh (CheckWorld.new 300 0 false)
  let a₁ := ((a.next (.move CheckMove.revoke)).bind (·.next (.start ()))).get rfl
  let a₂ := (a₁.next (.run 0 ())).get rfl
  let a₃ := (a₂.next (.run 0 ())).get rfl
  let b := (a₃.next (.run 0 ())).get rfl
  let b₁ := (b.next (.start ())).get rfl
  let c := (b₁.next (.run 1 ())).get rfl
  have h₁ : Reach Fresher a a₁ := ((Reach.refl a).tail (fresher_move _ CheckMove.revoke) rfl).tail
    (fresher_start _) rfl
  have h₂ : Reach Fresher a a₂ := h₁.tail (s := .run 0 ())
    (fresher_run rfl fun s status k hrest => by cases hrest) rfl
  have h₃ : Reach Fresher a a₃ := h₂.tail (s := .run 0 ())
    (fresher_run rfl fun s status k hrest => by cases hrest) rfl
  have hb : Reach Fresher a b := h₃.tail (s := .run 0 ())
    (fresher_run rfl fun s status k hrest => by cases hrest; rfl) rfl
  have hbc : Reach Fresher b c := ((Reach.refl b).tail (fresher_start _) rfl).tail (s := .run 1 ())
    (fresher_run (c := b₁) rfl fun s status k hrest => by cases hrest) rfl
  let th := (b.threads[0]?).get rfl
  let th' := (c.threads[1]?).get rfl
  have hi : b.threads[0]? = some th := rfl
  have hdone : th.rest = .ret .revoked := rfl
  have hj : c.threads[1]? = some th' := rfl
  exact ⟨b, c, th, th', hi, hdone, hj, rfl,
    revocation_stays hb hbc hi hdone hj (Nat.le_refl 1), _, alone_checkCert _ c.world⟩

/-- **An older answer takes the place of a revocation.**  The first call is told that the
certificate is good; it is revoked, and the second call reports that; then the first stores what
it was told, and the third finds it. -/
theorem revocation_forgotten :
    ∃ b c : Config (checks (ascii "01")),
      (Config.fresh (CheckWorld.new 300 0 false)).steps [.start (), .run 0 (), .run 0 (),
        .move CheckMove.revoke, .start (), .run 1 (), .run 1 (), .run 1 ()] = some b ∧
      b.steps [.run 0 (), .start (), .run 2 ()] = some c ∧
      b.threads[1]?.map Thread.rest = some (.ret CertStatus.revoked) ∧ b.threads.length = 2 ∧
      c.threads[2]?.map Thread.rest = some (.ret CertStatus.good) :=
  ⟨_, _, rfl, rfl, rfl, rfl, rfl⟩

end PqcApi
