/-
Parsing what was built.

`buildToken` and `parseToken` on the same secret, at two times that need not be in order.
The ids come back exactly while the token lasts, whatever they are as long as they are
UTF-8, and the token falls apart at its dots into the three segments it was made of.
-/
import Mathlib.Data.List.Count
import PqcApi.Sample

namespace PqcApi

open Concurrent

namespace AuthManager

/-- Segments without dots are joined by two. -/
theorem count_dot_token {s : Segments} (hh : dot ∉ s.header) (hp : dot ∉ s.payload)
    (hs : dot ∉ s.signature) : s.token.count dot = 2 := by
  rw [Segments.token, List.count_append, List.count_append, List.count_cons_self,
    List.count_cons_self, List.count_eq_zero.mpr hh, List.count_eq_zero.mpr hp,
    List.count_eq_zero.mpr hs]

end AuthManager

variable {τ : Type} [Field τ] [LinearOrder τ] [FloorRing τ]

/-- **Building and parsing are inverse.**  The token built in `w` has two dots, which separate
its segments, and parsed in `w'` it gives back the two ids exactly while it lasts. -/
theorem buildToken_parseToken {A : AuthManager} {userId sessionId : Bytes}
    (hu : utf8 userId = true) (hs : utf8 sessionId = true) (w w' : World τ)
    (hc : A.CodecAt userId sessionId w.now) :
    ∃ token, (machine τ A.lib).alone .done w (A.buildToken userId sessionId) =
        some (.ret token, w) ∧
      (machine τ A.lib).alone .done w' (A.parseToken token) =
        some (.ret (if truncate w'.now ≤ truncate (w.now + 3600) then some (userId, sessionId)
          else none), w') ∧
      token.count dot = 2 ∧
      AuthManager.segments token = some (A.segmentsAt userId sessionId w.now) := by
  refine ⟨(A.segmentsAt userId sessionId w.now).token, ?_, ?_, ?_, hc.segments_eq⟩
  · rw [AuthManager.buildToken_eq A hu hs]
    rfl
  · have hexp : w.now + (tokenTtlSeconds : τ) = w.now + 3600 := by
      norm_num [tokenTtlSeconds]
    rw [AuthManager.parseToken_eq, hc.payload_eq]
    show some (Program.ret (AuthManager.readPayload _ (truncate w'.now)), w') = _
    rw [AuthManager.payloadAt, AuthManager.readPayload_tokenPayload, hexp]
    by_cases hlate : truncate w'.now ≤ truncate (w.now + 3600)
    · rw [if_neg (not_lt.mpr hlate), if_pos hlate]
    · rw [if_pos (not_le.mp hlate), if_neg hlate]
  · obtain ⟨hh, hp, hsig⟩ := hc.dot_notMem
    exact AuthManager.count_dot_token hh hp hsig

/-- A token built at time 0, and parsed half a second after its last second has begun. -/
theorem buildToken_parseToken_sample :
    ∃ token, (machine ℚ Sample.lib).alone .done Sample.world
        (Sample.auth.buildToken (toDecimal 1) (hex Sample.draw)) =
        some (.ret token, Sample.world) ∧
      (machine ℚ Sample.lib).alone .done { Sample.world with now := 7201 / 2 }
        (Sample.auth.parseToken token) =
        some (.ret (some (toDecimal 1, hex Sample.draw)), { Sample.world with now := 7201 / 2 }) ∧
      token.count dot = 2 ∧
      AuthManager.segments token =
        some (Sample.auth.segmentsAt (toDecimal 1) (hex Sample.draw) (0 : ℚ)) := by
  have hread : truncate (7201 / 2 : ℚ) = 3600 := by
    rw [truncate, if_pos (by norm_num), Int.floor_eq_iff]
    norm_num
  have hexp : truncate ((0 : ℚ) + 3600) = 3600 := by
    rw [truncate, if_pos (by norm_num), Int.floor_eq_iff]
    norm_num
  obtain ⟨token, hbuild, hparse, hdots⟩ := buildToken_parseToken (utf8_toDecimal 1)
    (utf8_hex Sample.draw) Sample.world { Sample.world with now := 7201 / 2 }
    (Sample.codec 1 Sample.draw 0)
  refine ⟨token, hbuild, hparse.trans ?_, hdots⟩
  show some (Program.ret (if truncate (7201 / 2 : ℚ) ≤ truncate ((0 : ℚ) + 3600)
    then _ else _), _) = _
  rw [hread, hexp, if_pos (le_refl _)]

end PqcApi
