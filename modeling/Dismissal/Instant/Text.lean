import Dismissal.Instant.Basic
import Dismissal.Instant.Date
import Dismissal.Text.Digits

/-!
# The text of an instant

An instant is written as in RFC 3339: date, `T`, time of day, fraction and zone. The fraction has 0,
3, 6 or 9 digits, the fewest that lose nothing; years outside 0 to 9999 carry a sign and at least
four digits; a leap second is written `:60`. The zone is always UTC, as `Z` (`zuluText`) or as
`+00:00` (`offsetText`).
-/

namespace Dismissal.Instant

open Text (padded)

/-- The day of an instant, counted from 1970-01-01. -/
def day (t : Instant) : Int := t.secs / 86400

/-- The second within the day, from 0 to 86399. -/
def secondOfDay (t : Instant) : Nat := (t.secs % 86400).toNat

/-- Four digits for the years 0 to 9999, a sign and at least four for all others. -/
def yearText (year : Int) : List Char :=
  if 0 ≤ year ∧ year ≤ 9999 then padded 4 year.toNat
  else (if year < 0 then '-' else '+') :: padded 4 year.natAbs

/-- The fraction of a second, in the fewest groups of three digits. -/
def fractionText (nanos : Nat) : List Char :=
  if nanos = 0 then []
  else if nanos % 1000000 = 0 then '.' :: padded 3 (nanos / 1000000)
  else if nanos % 1000 = 0 then '.' :: padded 6 (nanos / 1000)
  else '.' :: padded 9 nanos

/-- A date, written with hyphens. -/
def dateText (d : Date) : List Char :=
  yearText d.year ++ '-' :: padded 2 d.month ++ '-' :: padded 2 d.day

/-- A time of day, written with colons; a leap second is second 60. -/
def timeText (secondOfDay nanos : Nat) : List Char :=
  padded 2 (secondOfDay / 3600) ++ ':' :: padded 2 (secondOfDay / 60 % 60) ++
    ':' :: padded 2 (secondOfDay % 60 + nanos / 1000000000) ++ fractionText (nanos % 1000000000)

/-- The characters of an instant, with `zone` at the end. -/
def write (zone : List Char) (t : Instant) : List Char :=
  dateText (Date.ofDay t.day) ++ 'T' :: timeText t.secondOfDay t.nanos ++ zone

/-- The text of an instant with `Z` for its zone. -/
def zuluText (t : Instant) : String := String.ofList (t.write ['Z'])

/-- The text of an instant with `+00:00` for its zone. -/
def offsetText (t : Instant) : String := String.ofList (t.write ['+', '0', '0', ':', '0', '0'])

end Dismissal.Instant
