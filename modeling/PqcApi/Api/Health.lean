/-
`AdminController::health`, once the caller is known to be an administrator.

The TLS component is judged twice: whether the certificate has expired by OpenSSL, how long it
is still good for by `getNotAfter`.  The two agree when local time is UTC.
-/
import PqcApi.Pki.Certificate

namespace PqcApi

/-! ### The handler -/

/-- The state of a component. -/
inductive ComponentStatus
  | up
  | degraded
  | down
  deriving DecidableEq

/-- Its text in the response. -/
def ComponentStatus.text : ComponentStatus → String
  | .up => "UP"
  | .degraded => "DEGRADED"
  | .down => "DOWN"

/-- `rank`: the larger, the worse. -/
def ComponentStatus.rank : ComponentStatus → Nat
  | .down => 2
  | .degraded => 1
  | .up => 0

/-- `tls_component`. -/
structure TlsComponent where
  status : ComponentStatus
  detail : Option String
  daysUntilExpiry : Option Int
  deriving DecidableEq

/-- The state of the TLS layer: `now` and `later` are the two times it reads.  The quotient is
exact here; as a double it has the same whole days and stands on the same side of 7. -/
def tlsComponent (z : Zone) (cert : Certificate) (now later : Int) : TlsComponent :=
  if cert.isValid now then
    let daysLeft : ℚ := ((cert.getNotAfter z - later : Int) : ℚ) / 86400
    if daysLeft ≤ 7 then ⟨.degraded, some "certificate expires soon", some (truncate daysLeft)⟩
    else ⟨.up, none, some (truncate daysLeft)⟩
  else ⟨.down, some "server certificate invalid or expired", none⟩

def TlsComponent.json (t : TlsComponent) : Json :=
  .object ((t.detail.map fun d => ("detail", .text d)).toList ++
    (t.daysUntilExpiry.map fun d => ("days_until_expiry", .int d)).toList ++
    [("status", .text t.status.text), ("version", .text "1.3")])

/-- The answer to an administrator: `timestamp` is what `strftime` makes of the time. -/
def health (timestamp : Bytes) (tls : TlsComponent) : HttpResponse :=
  let worst := max ComponentStatus.up.rank tls.status.rank
  let overall := if worst = 2 then "DOWN" else if worst = 1 then "DEGRADED" else "UP"
  ⟨if worst = 2 then 503 else 200, .json (.object [("status", .text overall),
    ("components", .object [("api_server", .object [("status", .text "UP")]), ("tls", tls.json)]),
    ("timestamp", .str timestamp)])⟩

/-! ### What it reports -/

/-- The whole days in a number of seconds. -/
theorem truncate_days {x : Int} (hx : 0 ≤ x) : truncate ((x : ℚ) / 86400) = x / 86400 := by
  have hpos : (0 : ℚ) ≤ (x : ℚ) / 86400 := div_nonneg (Int.cast_nonneg hx) (by norm_num)
  rw [truncate, if_pos hpos]
  exact Rat.floor_intCast_div_natCast x 86400

theorem days_le_seven (x : Int) : (x : ℚ) / 86400 ≤ 7 ↔ x ≤ 7 * 86400 := by
  rw [div_le_iff₀ (by norm_num : (0 : ℚ) < 86400)]
  exact_mod_cast Iff.rfl

/-- **The report.**  What stands in it is counted from `getNotAfter`, but whether the
certificate has expired is not. -/
theorem tlsComponent_expiring (z : Zone) (tm : Tm) (t : Int) :
    tlsComponent z (.expiring tm) t t =
      if tm.timegm ≤ t then ⟨.down, some "server certificate invalid or expired", none⟩
      else if tm.timegm - z tm.timegm - t ≤ 7 * 86400 then
        ⟨.degraded, some "certificate expires soon",
          some (truncate (((tm.timegm - z tm.timegm - t : Int) : ℚ) / 86400))⟩
      else ⟨.up, none, some (truncate (((tm.timegm - z tm.timegm - t : Int) : ℚ) / 86400))⟩ := by
  unfold tlsComponent
  rw [Certificate.getNotAfter_expiring]
  by_cases h : tm.timegm ≤ t
  · have hvalid : ¬ (Certificate.expiring tm).isValid t = true := by
      rw [Certificate.isValid_expiring]
      exact not_lt.mpr h
    rw [if_neg hvalid, if_pos h]
  · have hvalid : (Certificate.expiring tm).isValid t = true :=
      (Certificate.isValid_expiring tm t).mpr (not_le.mp h)
    rw [if_pos hvalid, if_neg h]
    dsimp only
    simp only [days_le_seven]

/-- The expiry of a certificate that is good until these fields is judged the same way
everywhere: by `getNotAfter`, by `isExpired`, and in every part of the report. -/
structure ExpiryJudged (z : Zone) (tm : Tm) : Prop where
  notAfter : (Certificate.expiring tm).getNotAfter z = tm.timegm
  expired : ∀ t, (Certificate.expiring tm).isExpired t = true ↔ tm.timegm ≤ t
  agrees : ∀ t, (Certificate.expiring tm).isExpired t = true ↔
    (Certificate.expiring tm).getNotAfter z ≤ t
  down : ∀ t, (tlsComponent z (.expiring tm) t t).status = .down ↔ tm.timegm ≤ t
  degraded : ∀ t, (tlsComponent z (.expiring tm) t t).status = .degraded ↔
    0 < tm.timegm - t ∧ tm.timegm - t ≤ 7 * 86400
  up : ∀ t, (tlsComponent z (.expiring tm) t t).status = .up ↔ 7 * 86400 < tm.timegm - t
  days : ∀ t, t < tm.timegm →
    (tlsComponent z (.expiring tm) t t).daysUntilExpiry = some ((tm.timegm - t) / 86400)

/-- **When expiry is judged the same way everywhere.**  If and only if standard time in the zone
of the process is UTC at the end of the certificate. -/
theorem expiry_judged_iff (z : Zone) (tm : Tm) : ExpiryJudged z tm ↔ z tm.timegm = 0 := by
  constructor
  · intro h
    have hafter := h.notAfter
    rw [Certificate.getNotAfter_expiring] at hafter
    omega
  · intro hz
    have hafter : (Certificate.expiring tm).getNotAfter z = tm.timegm := by
      rw [Certificate.getNotAfter_expiring, hz, sub_zero]
    have hreport : ∀ t, tlsComponent z (.expiring tm) t t =
        if tm.timegm ≤ t then ⟨.down, some "server certificate invalid or expired", none⟩
        else if tm.timegm - t ≤ 7 * 86400 then
          ⟨.degraded, some "certificate expires soon",
            some (truncate (((tm.timegm - t : Int) : ℚ) / 86400))⟩
        else ⟨.up, none, some (truncate (((tm.timegm - t : Int) : ℚ) / 86400))⟩ := by
      intro t
      rw [tlsComponent_expiring, hz, sub_zero]
    refine ⟨hafter, Certificate.isExpired_expiring tm, ?_, ?_, ?_, ?_, ?_⟩
    · intro t
      rw [hafter]
      exact Certificate.isExpired_expiring tm t
    · intro t
      rw [hreport]
      by_cases hdown : tm.timegm ≤ t
      · simp [hdown]
      · rw [if_neg hdown]
        split <;> simp [hdown]
    · intro t
      rw [hreport]
      by_cases hdown : tm.timegm ≤ t
      · rw [if_pos hdown]
        constructor
        · intro h
          cases h
        · intro h
          omega
      · rw [if_neg hdown]
        by_cases hsoon : tm.timegm - t ≤ 7 * 86400
        · rw [if_pos hsoon]
          exact iff_of_true rfl ⟨by omega, hsoon⟩
        · rw [if_neg hsoon]
          exact iff_of_false (fun h => by cases h) fun h => hsoon h.2
    · intro t
      rw [hreport]
      by_cases hdown : tm.timegm ≤ t
      · rw [if_pos hdown]
        exact iff_of_false (fun h => by cases h) (by omega)
      · rw [if_neg hdown]
        by_cases hsoon : tm.timegm - t ≤ 7 * 86400
        · rw [if_pos hsoon]
          exact iff_of_false (fun h => by cases h) (by omega)
        · rw [if_neg hsoon]
          exact iff_of_true rfl (by omega)
    · intro t ht
      rw [hreport, if_neg (not_le.mpr ht), truncate_days (by omega)]
      split <;> rfl

/-- **Five hours west.**  With exactly seven days left the component is up, and it counts from
five hours after the end of the certificate. -/
theorem expiry_west :
    let tm : Tm := ⟨126, 5, 30, 12, 0, 0⟩
    let t := tm.timegm - 7 * 86400
    (Certificate.expiring tm).getNotAfter (fun _ => -18000) = tm.timegm + 18000 ∧
      tlsComponent (fun _ => -18000) (.expiring tm) t t = ⟨.up, none, some 7⟩ ∧
      tlsComponent (fun _ => 0) (.expiring tm) t t =
        ⟨.degraded, some "certificate expires soon", some 7⟩ := by
  intro tm t
  have hlive : ¬ tm.timegm ≤ t := by decide
  have hwest : tm.timegm - -18000 - t = 622800 := by decide
  have hutc : tm.timegm - 0 - t = 604800 := by decide
  refine ⟨by decide, ?_, ?_⟩
  · rw [tlsComponent_expiring, if_neg hlive, hwest, if_neg (by decide),
      truncate_days (by decide)]
    rfl
  · rw [tlsComponent_expiring, if_neg hlive, hutc, if_pos (by decide), truncate_days (by decide)]
    rfl

end PqcApi
