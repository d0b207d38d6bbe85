/-
The timestamp of the health report.

`gmtime` takes a POSIX time apart into calendar fields and `strftime` writes them.
-/
import PqcApi.Pki.Certificate

namespace PqcApi

namespace Tm

/-- The day within its 400 years, which are counted from the first of March. -/
def dayOfEra (days : Int) : Int := (days + 719468) % 146097

/-- The year within its 400 years. -/
def yearOfEra (day : Int) : Int := (day - day / 1460 + day / 36524 - day / 146096) / 365

/-- The day within its year. -/
def dayOfYear (day : Int) : Int :=
  day - (365 * yearOfEra day + yearOfEra day / 4 - yearOfEra day / 100)

/-- The month, from March. -/
def monthFromMarch (day : Int) : Int := (5 * dayOfYear day + 2) / 153

/-- `gmtime`: the fields of the day, and of the second within it. -/
def gmtime (t : Int) : Tm :=
  let days := t / 86400
  let second := t % 86400
  let day := dayOfEra days
  let month := monthFromMarch day
  let year := 400 * ((days + 719468) / 146097) + yearOfEra day - 1900
  { year := if month < 10 then year else year + 1
    mon := if month < 10 then month + 2 else month - 10
    mday := dayOfYear day - (153 * month + 2) / 5 + 1
    hour := second / 3600
    min := second % 3600 / 60
    sec := second % 60 }

end Tm

/-- Two digits. -/
def twoDigits (n : Int) : Bytes :=
  [UInt8.ofNat (48 + (n / 10).toNat), UInt8.ofNat (48 + (n % 10).toNat)]

/-- `strftime` with the format `%Y-%m-%dT%H:%M:%SZ`. -/
def strftime (tm : Tm) : Bytes :=
  toDecimal (tm.year + 1900) ++ 45 :: twoDigits (tm.mon + 1) ++ 45 :: twoDigits tm.mday ++
    84 :: twoDigits tm.hour ++ 58 :: twoDigits tm.min ++ 58 :: twoDigits tm.sec ++ [90]

end PqcApi
