/-
Where a session that is found comes from.

The MAC leads from a token to the login that signed it, the entry in Redis to the login that
wrote it.  Since session ids are fresh these two are one, whoever presents the token and for
whatever it is presented.
-/
import PqcApi.Sessions.Soundness

namespace PqcApi

open Concurrent

variable {τ : Type} [Field τ] [LinearOrder τ] [FloorRing τ] {P : App}

/-- The token carries the header and the payload this login has signed. -/
def LoggedIn.Signed {th : Thread (server τ P)} (l : LoggedIn th) (token : Bytes) : Prop :=
  ∃ seg, AuthManager.segments token = some seg ∧ seg.header = l.segments.header ∧
    seg.payload = l.segments.payload

/-- **The session of a token.**  A thread has presented a token that is in order at the time
`now`, and Redis holds something under its session id: then a login that has returned success
has signed this token for this user, it has written that entry, and the token has not expired
yet. -/
theorem session_origin {w : World τ} (hw : w.NoSessions) {b : Config (server τ P)}
    (hrun : Reach (fun c s => Unforgeable c s ∧ FreshIds c s) (Config.fresh w) b)
    (hcodec : ∀ th ∈ b.threads, ∀ l : Issued th, l.Codec)
    {i : Nat} {th : Thread (server τ P)} {token : Bytes} (hi : b.threads[i]? = some th)
    (hreq : th.req.presents = some token) {p : Json} (hpay : P.auth.payload token = some p)
    {now : τ} {u sid : Bytes}
    (hread : AuthManager.readPayload p (truncate now) = some (u, sid)) {e : Entry}
    (he : b.world.redis (sessionKey sid) = some e) :
    ∃ (j : Nat) (th' : Thread (server τ P)) (l : LoggedIn th'), b.threads[j]? = some th' ∧
      l.Signed token ∧ u = toDecimal l.user.id ∧ l.entry = e ∧
      truncate now ≤ truncate (l.time + (tokenTtlSeconds : τ)) := by
  obtain ⟨seg, hseg, hv, -⟩ := AuthManager.payload_some hpay
  -- the MAC leads to the login that signed the text
  obtain ⟨b₀, -, ⟨hunf, -⟩, -, hb₀⟩ := hrun.started hi (Nat.zero_le _)
  obtain ⟨th₀, hmem₀, l₀, hin⟩ := hunf _ token seg rfl hreq hseg hv
  obtain ⟨j₀, hj₀⟩ := List.mem_iff_getElem?.mp hmem₀
  obtain ⟨th₁, hth₁, hcont⟩ := hb₀.thread hj₀
  have hcodec₀ : l₀.Codec := hcodec th₁ (List.mem_of_getElem? hth₁) (l₀.later hcont)
  obtain ⟨hheader, hpayload, hp⟩ := AuthManager.payload_of_signingInput hcodec₀ hpay hseg hin
  rw [hp, AuthManager.payloadAt, AuthManager.readPayload_tokenPayload] at hread
  by_cases hexp : truncate (l₀.time + (tokenTtlSeconds : τ)) < truncate now
  · rw [if_pos hexp] at hread
    cases hread
  rw [if_neg hexp, Option.some.injEq, Prod.mk.injEq] at hread
  obtain ⟨hu, hsid⟩ := hread
  -- the entry leads to the login that wrote it
  obtain ⟨j, th', hj, l, -, hkey, hentry⟩ := redis_storedBy hrun hw _ _ he
  have hdrawn : l.drawn = l₀.drawn := by
    apply sessionKey_hex_inj
    rw [← hsid] at hkey
    exact hkey
  -- and the two are one
  obtain rfl := issued_unique hrun (fun _ _ h => h.2) hj hth₁ l.toIssued (l₀.later hcont) hdrawn
  obtain rfl := Option.some.inj (hj.symm.trans hth₁)
  obtain ⟨huser, -, htime⟩ := l.toIssued.unique (l₀.later hcont)
  have huser : l.user = l₀.user := huser
  have htime : l.time = l₀.time := htime
  have hsegs : l.segments = l₀.segments := by
    simp only [Issued.segments, Issued.sessionId, huser, hdrawn, htime]
  refine ⟨j, th', l, hj, ⟨seg, hseg, ?_, ?_⟩, ?_, hentry, ?_⟩
  · rw [hsegs]
    exact hheader
  · rw [hsegs]
    exact hpayload
  · rw [huser, ← hu]
  · rw [htime]
    exact not_lt.mp hexp

end PqcApi
