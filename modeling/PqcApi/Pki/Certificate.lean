/-
The dates of a certificate.

`notAfter` is written in UTC, as calendar fields.  `isExpired` lets OpenSSL compare it with
the clock; `getNotAfter` takes the fields out and hands them to `mktime`, which reads them as
local time.
-/
import Mathlib.Tactic.NormNum
import PqcApi.Api.Controllers

namespace PqcApi

/-! ### Calendar fields -/

/-- `struct tm`: years since 1900, months since January, and the day of the month from 1. -/
structure Tm where
  year : Int
  mon : Int
  mday : Int
  hour : Int
  min : Int
  sec : Int
  deriving DecidableEq

namespace Tm

/-- `struct tm tm_val = {}`. -/
def zero : Tm := ⟨0, 0, 0, 0, 0, 0⟩

/-- A year of the Gregorian calendar with a 29th of February. -/
def isLeap (year : Int) : Bool := year % 4 = 0 && (year % 100 ≠ 0 || year % 400 = 0)

/-- The days before the first of January of a year, counted from that of 1970. -/
def daysBeforeYear (year : Int) : Int :=
  365 * (year - 1970) + ((year - 1) / 4 - (year - 1) / 100 + (year - 1) / 400 - 477)

/-- The days of the year before the first of a month, where February has 28. -/
def daysBeforeMonth (mon : Int) : Int :=
  if mon ≤ 0 then 0 else if mon = 1 then 31 else if mon = 2 then 59 else if mon = 3 then 90
  else if mon = 4 then 120 else if mon = 5 then 151 else if mon = 6 then 181
  else if mon = 7 then 212 else if mon = 8 then 243 else if mon = 9 then 273
  else if mon = 10 then 304 else 334

/-- The days from the epoch to the day of the fields. -/
def days (tm : Tm) : Int :=
  daysBeforeYear (tm.year + 1900) + daysBeforeMonth tm.mon +
    (if isLeap (tm.year + 1900) ∧ 2 ≤ tm.mon then 1 else 0) + (tm.mday - 1)

/-- The POSIX time of the fields, read in UTC. -/
def timegm (tm : Tm) : Int := 86400 * tm.days + 3600 * tm.hour + 60 * tm.min + tm.sec

/-- The last second of the 29th of February 2000, and the next. -/
example : timegm ⟨100, 1, 29, 23, 59, 59⟩ = 951868799 ∧
    timegm ⟨100, 2, 1, 0, 0, 0⟩ = 951868800 := by
  decide

end Tm

/-- A time zone, by how many seconds its standard time is ahead of UTC at a local time.  When
daylight saving is in force does not matter here: `tm_isdst` is 0, so `mktime` takes the fields
for standard time. -/
abbrev Zone := Int → Int

/-- `mktime`. -/
def mktime (z : Zone) (tm : Tm) : Int := tm.timegm - z tm.timegm

/-! ### Certificates -/

/-- A `Certificate` as far as its dates go: of the `X509`, once one is loaded, the `notAfter`, if
that is a well-formed time. -/
structure Certificate where
  x509 : Option (Option Tm)

/-- `X509_cmp_current_time`: 0 stands for failure, and equal times compare as earlier. -/
def cmpCurrentTime (time : Option Tm) (now : Int) : Int :=
  match time with
  | none => 0
  | some tm => if tm.timegm ≤ now then -1 else 1

/-- `ASN1_TIME_to_tm`, which leaves the fields alone when it fails. -/
def asn1TimeToTm (time : Option Tm) : Tm := time.getD .zero

namespace Certificate

def isExpired (c : Certificate) (now : Int) : Bool :=
  match c.x509 with
  | none => true
  | some notAfter => cmpCurrentTime notAfter now < 0

def isValid (c : Certificate) (now : Int) : Bool := c.x509.isSome && !c.isExpired now

def getNotAfter (z : Zone) (c : Certificate) : Int :=
  match c.x509 with
  | none => 0
  | some notAfter => mktime z (asn1TimeToTm notAfter)

/-- A loaded certificate that is good until the instant of these fields. -/
def expiring (tm : Tm) : Certificate := ⟨some (some tm)⟩

theorem isExpired_expiring (tm : Tm) (now : Int) :
    (Certificate.expiring tm).isExpired now = true ↔ tm.timegm ≤ now := by
  show decide ((if tm.timegm ≤ now then (-1 : Int) else 1) < 0) = true ↔ _
  by_cases h : tm.timegm ≤ now
  · simp [h]
  · simp [h]

theorem isValid_expiring (tm : Tm) (now : Int) :
    (Certificate.expiring tm).isValid now = true ↔ now < tm.timegm := by
  rw [isValid, Bool.and_eq_true, Bool.not_eq_true', ← Bool.not_eq_true, isExpired_expiring, not_le]
  exact and_iff_right rfl

theorem getNotAfter_expiring (z : Zone) (tm : Tm) :
    (Certificate.expiring tm).getNotAfter z = tm.timegm - z tm.timegm := rfl

end Certificate

end PqcApi
