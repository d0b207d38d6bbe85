/-
Whom `verifyToken` lets in.

A token that passes is one some login issued, for the user that login authenticated.
The MAC leads from the token to the login that signed its text, and the Redis entry
to the login that wrote it; since ids are fresh the two are the same login.
-/
import PqcApi.Sample
import PqcApi.Sessions.Progress

namespace PqcApi

open Concurrent

variable {τ : Type} [Field τ] [LinearOrder τ] [FloorRing τ] {P : App}

namespace AuthManager

theorem payload_some {A : AuthManager} {token : Bytes} {p : Json} (h : A.payload token = some p) :
    ∃ seg, segments token = some seg ∧ A.Verifies seg ∧
      A.lib.jsonParse (base64urlDecode A.lib seg.payload) = some p := by
  unfold payload at h
  split at h
  · cases h
  · rename_i seg hseg
    split at h
    · rename_i hv
      exact ⟨seg, hseg, hv, h⟩
    · cases h

/-- A token whose signed text is a login's carries that login's payload. -/
theorem payload_of_signingInput {A : AuthManager} {userId sessionId : Bytes} {now : τ}
    (hc : A.CodecAt userId sessionId now) {token : Bytes} {p : Json} {seg : Segments}
    (hp : A.payload token = some p) (hseg : segments token = some seg)
    (hin : (A.segmentsAt userId sessionId now).signingInput = seg.signingInput) :
    seg.header = (A.segmentsAt userId sessionId now).header ∧
      seg.payload = (A.segmentsAt userId sessionId now).payload ∧
      p = payloadAt userId sessionId now := by
  obtain ⟨seg', hseg', -, hjson⟩ := payload_some hp
  obtain rfl := Option.some.inj (hseg.symm.trans hseg')
  obtain ⟨hheader, hpayload⟩ :=
    signingInput_injective hc.dot_notMem.1 (segments_some hseg).2.1 hin
  refine ⟨hheader.symm, hpayload.symm, ?_⟩
  rw [← hpayload, hc.jsonParse_eq] at hjson
  exact (Option.some.inj hjson).symm

end AuthManager

/-- The row a login authenticated has an id that `stoi` reads back. -/
theorem Issued.stoi_userId {th : Thread (server τ P)} (l : Issued th)
    (hp : Path (P.program th.req) th.log th.rest) :
    stoi (toDecimal l.user.id) = some l.user.id := by
  have hmem : l.found ∈ th.log := by
    rw [l.log]
    simp
  obtain ⟨hrow, -⟩ := UsersTable.byName_some
    (exec_userByName (exec_of_mem hp hmem l.found_is))
  have hid := l.found.pre.users.ids _ hrow
  have hseq := l.found.pre.users.seq_le.2
  rw [serialMax] at hseq
  exact stoi_toDecimal (le_of_lt hid.1) (by omega)

/-- **Token soundness.**  Whenever `verifyToken` has let a token pass as user `u`, there is
a login that had returned success when the session was looked up, such that
the token's header and payload are those it issued, `u` is the user it authenticated,
the clock that was read does not exceed the token's expiry, the entry that was found is
the one it stored, and `stoi` reads that user's id from `u`. -/
theorem verifyToken_sound {w : World τ} (hw : w.NoSessions) {c : Config (server τ P)}
    (hrun : Reach (fun c s => Unforgeable c s ∧ FreshIds c s) (Config.fresh w) c)
    (hcodec : ∀ th ∈ c.threads, ∀ l : Issued th, l.Codec)
    {i : Nat} {th : Thread (server τ P)} {token u : Bytes} (hi : c.threads[i]? = some th)
    (hreq : th.req = .verifyToken token) (hret : th.rest = .ret (.user (some u))) :
    ∃ (b : Config (server τ P)) (j : Nat) (th' : Thread (server τ P)) (l : LoggedIn th')
      (seg : AuthManager.Segments) (clock looked : ServerEvent τ P) (now : τ),
      Reach (fun c s => Unforgeable c s ∧ FreshIds c s) b c ∧ b.threads[j]? = some th' ∧
      th.log = [clock, looked] ∧ clock.Is .now now ∧ b.world = looked.pre ∧
      (AuthManager.segments token = some seg ∧ seg.header = l.segments.header ∧
        seg.payload = l.segments.payload) ∧
      u = toDecimal l.user.id ∧
      truncate now ≤ truncate (l.time + (tokenTtlSeconds : τ)) ∧
      looked.pre.redis (sessionKey l.sessionId) = some l.entry ∧
      stoi u = some l.user.id := by
  have hpaths := hrun.path (Config.fresh_sound w)
  obtain ⟨a⟩ := accepted_of_some (hpaths th (List.mem_of_getElem? hi)) hreq hret
  obtain ⟨seg, hseg, hv, -⟩ := AuthManager.payload_some a.payload_eq
  -- the MAC leads to the login that signed the text
  obtain ⟨b₀, -, ⟨hunf, -⟩, -, hb₀c⟩ := hrun.started hi (Nat.zero_le _)
  obtain ⟨th₀, hmem₀, l₀, hin⟩ := hunf _ token seg rfl (by rw [hreq]; rfl) hseg hv
  obtain ⟨j₀, hj₀⟩ := List.mem_iff_getElem?.mp hmem₀
  obtain ⟨th₁, hth₁, hcont⟩ := hb₀c.thread hj₀
  have hcodec₀ : l₀.Codec := hcodec th₁ (List.mem_of_getElem? hth₁) (l₀.later hcont)
  obtain ⟨hheader, hpayload, hp⟩ :=
    AuthManager.payload_of_signingInput hcodec₀ a.payload_eq hseg hin
  have hread := a.read
  rw [hp, AuthManager.payloadAt, AuthManager.readPayload_tokenPayload] at hread
  by_cases hexp : truncate (l₀.time + (tokenTtlSeconds : τ)) < truncate a.time
  · rw [if_pos hexp] at hread
    cases hread
  rw [if_neg hexp, Option.some.injEq, Prod.mk.injEq] at hread
  obtain ⟨hu, hsid⟩ := hread
  -- the entry leads to the login that wrote it
  obtain ⟨b, b', hm⟩ := hrun.moment [a.clock] [] hi a.log (by simp)
  have hlive := exec_get (exec_of_mem (hpaths th (List.mem_of_getElem? hi))
    (by rw [a.log]; simp) a.looked_is)
  obtain ⟨e, he⟩ : ∃ e, a.looked.pre.redis (sessionKey a.sessionId) = some e := by
    unfold World.live at hlive
    split at hlive
    · exact ⟨_, ‹_›⟩
    · cases hlive
  rw [← hm.pre] at he
  obtain ⟨j, th', hj, l, -, hkey, hentry⟩ := redis_storedBy hm.reach hw _ _ he
  have hbc : Reach (fun c s => Unforgeable c s ∧ FreshIds c s) b c :=
    ((Reach.refl b).tail hm.allowed hm.next).trans hm.later
  have hdrawn : l.drawn = l₀.drawn := by
    apply sessionKey_hex_inj
    rw [← hsid] at hkey
    exact hkey
  -- and the two are one
  have hjc := hbc.thread_done hj l.done
  obtain rfl := issued_unique hrun (fun _ _ h => h.2) hjc hth₁ l.toIssued (l₀.later hcont) hdrawn
  obtain rfl := Option.some.inj (hjc.symm.trans hth₁)
  obtain ⟨huser, -, htime⟩ := l.toIssued.unique (l₀.later hcont)
  have huser : l.user = l₀.user := huser
  have htime : l.time = l₀.time := htime
  have hsegs : l.segments = l₀.segments := by
    simp only [Issued.segments, Issued.sessionId, huser, hdrawn, htime]
  have huid : u = toDecimal l.user.id := by rw [huser, ← hu]
  refine ⟨b, j, th', l, seg, a.clock, a.looked, a.time, hbc, hj, a.log, a.clock_is, hm.pre,
    ⟨hseg, ?_, ?_⟩, huid, ?_, ?_, ?_⟩
  · rw [hsegs]
    exact hheader
  · rw [hsegs]
    exact hpayload
  · rw [htime]
    exact not_lt.mp hexp
  · rw [← hm.pre, hentry, show l.sessionId = a.sessionId from (congrArg hex hdrawn).trans hsid]
    exact he
  · rw [huid]
    exact l.toIssued.stoi_userId (hpaths th' (List.mem_of_getElem? hjc))

/-- A login of the first account, and its token let in. -/
theorem verifyToken_sound_sample :
    ∃ (c b : Config (server ℚ Sample.app)) (j : Nat) (th th' : Thread (server ℚ Sample.app))
      (l : LoggedIn th'), c.threads[1]? = some th ∧ th.req = .verifyToken Sample.token ∧
      th.rest = .ret (.user (some (toDecimal Sample.user.id))) ∧ b.threads[j]? = some th' ∧
      stoi (toDecimal Sample.user.id) = some l.user.id := by
  have hlogin : Reach (fun c s => Unforgeable c s ∧ FreshIds c s) (Config.fresh Sample.world)
      ⟨Sample.session, [Sample.loginTh]⟩ :=
    Sample.reach_session ((Allows.unforgeable (by rintro _ _ ⟨⟩)).and
      (freshIds_login (by simp) (by simp)))
  have hverify := hlogin.trans (Sample.reach_verify Sample.session rfl [Sample.loginTh]
    ((Allows.unforgeable (by rintro t s ⟨⟩ hs -; exact Sample.signed rfl hs)).and
      (Allows.freshIds (by simp [verifyThread]))))
  obtain ⟨b, j, th', l, -, -, -, -, -, hj, -, -, -, -, -, -, -, hstoi⟩ :=
    verifyToken_sound (P := Sample.app) (fun _ => rfl) hverify
      (fun _ _ l => Sample.codec l.user.id l.drawn l.time) (i := 1) rfl rfl Sample.verify_session
  exact ⟨⟨Sample.session, [Sample.loginTh] ++ [_]⟩, b, j, _, th', l, rfl, rfl,
    Sample.verify_session, hj, hstoi⟩

end PqcApi
