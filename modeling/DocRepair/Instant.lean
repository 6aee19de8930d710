/-!
# `DocRepair.Instant` — points in time with an optional offset

A wall-clock reading, counted in microseconds from the start of 1970, with the distance of that
clock from universal time where it is known. Dates are of the Gregorian calendar throughout.

## Contents

* `Instant` — the reading and its offset;
* `Civil` — year, month, day and time of day of a reading;
* `civil` / `ofCivil` — the two views of a reading;
* `same` — equality of instants.
-/

namespace DocRepair

/-- A wall-clock reading in microseconds since 1970, and the clock's offset in seconds. -/
structure Instant where
  micros : Int
  offset : Option Int
deriving DecidableEq, Repr, Inhabited

/-- A reading taken apart. -/
structure Civil where
  year : Int
  month : Nat
  day : Nat
  hour : Nat
  minute : Nat
  second : Nat
  micro : Nat
deriving DecidableEq, Repr

namespace Instant

/-- Microseconds in a second. -/
def perSecond : Int := 1000000

/-- Microseconds in a day. -/
def perDay : Int := 86400 * perSecond

/-- The number of a day, counted from 1970-01-01. Years are taken to begin in March, so that the
    leap day comes last, and are counted in eras of four hundred. -/
def dayNumber (year : Int) (month day : Nat) : Int :=
  let y := if month ≤ 2 then year - 1 else year
  let era := Int.fdiv y 400
  let yearOfEra := y - era * 400
  let dayOfYear : Int := ((153 * ((month + 9) % 12) + 2) / 5 + day - 1 : Nat)
  let dayOfEra := yearOfEra * 365 + yearOfEra / 4 - yearOfEra / 100 + dayOfYear
  era * 146097 + dayOfEra - 719468

/-- The year, month and day of a day number. -/
def dateOfDay (number : Int) : Int × Nat × Nat :=
  let z := number + 719468
  let era := Int.fdiv z 146097
  let dayOfEra := z - era * 146097
  let yearOfEra :=
    (dayOfEra - dayOfEra / 1460 + dayOfEra / 36524 - dayOfEra / 146096) / 365
  let dayOfYear := (dayOfEra - (365 * yearOfEra + yearOfEra / 4 - yearOfEra / 100)).toNat
  let shifted := (5 * dayOfYear + 2) / 153
  let day := dayOfYear - (153 * shifted + 2) / 5 + 1
  let month := if shifted < 10 then shifted + 3 else shifted - 9
  let year := yearOfEra + era * 400
  (if month ≤ 2 then year + 1 else year, month, day)

/-- The wall-clock reading taken apart. -/
def civil (t : Instant) : Civil :=
  let (year, month, day) := dateOfDay (Int.fdiv t.micros perDay)
  let ofDay := (Int.fmod t.micros perDay).toNat
  let seconds := ofDay / 1000000
  ⟨year, month, day, seconds / 3600, seconds / 60 % 60, seconds % 60, ofDay % 1000000⟩

/-- The reading with the given parts. -/
def ofCivil (c : Civil) (offset : Option Int) : Instant :=
  ⟨dayNumber c.year c.month c.day * perDay +
    (c.hour * 3600 + c.minute * 60 + c.second : Nat) * perSecond + c.micro, offset⟩

/-- The reading on a clock of universal time. -/
def universal (t : Instant) : Int :=
  t.micros - t.offset.getD 0 * perSecond

/-- Whether a year has a leap day. -/
def isLeap (year : Int) : Bool :=
  year % 4 == 0 && (year % 100 != 0 || year % 400 == 0)

/-- The number of days of a month. -/
def daysIn (year : Int) (month : Nat) : Nat :=
  if month = 2 then (if isLeap year then 29 else 28)
  else if month = 4 ∨ month = 6 ∨ month = 9 ∨ month = 11 then 30
  else 31

/-- Equality: two known offsets compare as instants, two unknown ones as readings. -/
def same (a b : Instant) : Bool :=
  a.offset.isSome == b.offset.isSome && a.universal == b.universal

end Instant

/-- Whether the parts name a day of the years 1 to 9999 and a time of that day. -/
def Civil.isValid (c : Civil) : Bool :=
  1 ≤ c.year && c.year ≤ 9999 && 1 ≤ c.month && c.month ≤ 12 && 1 ≤ c.day &&
    c.day ≤ Instant.daysIn c.year c.month && c.hour < 24 && c.minute < 60 && c.second < 60 &&
    c.micro < 1000000

end DocRepair
