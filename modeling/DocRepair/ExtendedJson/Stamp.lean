import DocRepair.ExtendedJson.Integer
/-!
# `DocRepair.ExtendedJson.Stamp` — instants in the exchange format

An instant is written as a text or as a number of milliseconds. A text has a date and a time, a
fraction of a second behind its last point, and an offset at its end; blanks and digits of any
script are allowed wherever a number stands. Instants are read in universal time and lose their
offset.

## Contents

* `splitOffset` — a text without the offset at its end, and the offset;
* `civil` — date and time;
* `ofText` / `ofMillis` — the instant that a text spells, or a number of milliseconds;
* `ofValue` — the instant that a value stands for.
-/

namespace DocRepair.ExtendedJson.Stamp

open DocRepair.Text

/-! ## Offsets -/

/-- A text with a given literal that is no instant of a format. -/
def notAnInstant (literal format : String) : Fault :=
  .badValue ("time data " ++ literal ++ " does not match " ++ format)

/-- The character that is `n` places before the end of a text. -/
def fromEnd? (text : List Char) (n : Nat) : Option Char :=
  if n ≤ text.length then text[text.length - n]? else none

/-- Whether a character is a sign. -/
def isSign (c : Option Char) : Bool := c == some '+' || c == some '-'

/-- A text in front of its last `n` characters, and those. -/
def cut (text : List Char) (n : Nat) : List Char × List Char :=
  (text.take (text.length - n), text.drop (text.length - n))

/-- A text without the offset at its end, and the offset with its sign, if there is one. It is told
    by the places of its sign and its colon alone. -/
def splitOffset (text : List Char) : Option (List Char × List Char) := do
  let last ← fromEnd? text 1
  if last = 'Z' then some (text.dropLast, [])
  else do
    let _ ← fromEnd? text 6
    if isSign (fromEnd? text 6) && fromEnd? text 3 == some ':' then some (cut text 6)
    else if isSign (fromEnd? text 5) then some (cut text 5)
    else if isSign (fromEnd? text 3) then some (cut text 3)
    else some (text, [])

/-- The integer that characters spell. -/
def integer (chars : List Char) : Except Fault Int :=
  Integer.ofText 10 (String.ofList chars)

/-- Hours and minutes as seconds. -/
def seconds (hours minutes : List Char) : Except Fault Int := do
  .ok ((← integer hours) * 3600 + (← integer minutes) * 60)

/-- The seconds of an offset without its sign: hours, and minutes behind a colon or at once. -/
def unsignedOffset (digits : List Char) : Except Fault Int :=
  if digits.contains ':' && digits.length = 5 then
    if (digits.filter (· == ':')).length = 1 then
      seconds (digits.takeWhile (· != ':')) ((digits.dropWhile (· != ':')).drop 1)
    else .error (.badValue "too many values to unpack (expected 2)")
  else if digits.length = 4 then seconds (digits.take 2) (digits.drop 2)
  else seconds digits ['0']

/-- The seconds of an offset with its sign. -/
def offsetSeconds : List Char → Except Fault Int
  | [] => .ok 0
  | sign :: digits => do
    let n ← unsignedOffset digits
    .ok (if sign = '-' then -n else n)

/-! ## Date and time -/

/-- Whether a character is a decimal digit of any script. -/
def isDecimal (c : Char) : Bool := (Digit.decimalValue? c).isSome

/-- Whether a character lies between two others. -/
def between (first last c : Char) : Bool := first ≤ c && c ≤ last

/-- The number that some characters spell; blanks count as nothing. -/
def spelled (chars : List Char) : Nat :=
  Digit.ofValues (chars.filterMap Digit.decimalValue?)

/-- What a field of two digits may look like: its two characters, or a single one. -/
structure Field where
  two : Char → Char → Bool
  one : Char → Bool

/-- Months. -/
def month : Field where
  two a b := (a == '1' && between '0' '2' b) || (a == '0' && between '1' '9' b)
  one := between '1' '9'

/-- Days; a single digit may have a blank in front. -/
def day : Field where
  two a b := (a == '3' && between '0' '1' b) || (between '1' '2' a && isDecimal b) ||
    ((a == '0' || a == ' ') && between '1' '9' b)
  one := between '1' '9'

/-- Hours. -/
def hour : Field where
  two a b := (a == '2' && between '0' '3' b) || (between '0' '1' a && isDecimal b)
  one := isDecimal

/-- Minutes. -/
def minute : Field where
  two a b := between '0' '5' a && isDecimal b
  one := isDecimal

/-- Seconds, up to sixty-one. -/
def second : Field where
  two a b := (a == '6' && between '0' '1' b) || (between '0' '5' a && isDecimal b)
  one := isDecimal

/-- A field that two characters or a single one fill, with what is behind them: two go first if what
    is behind is acceptable. -/
def Field.take? (f : Field) (accept : List Char → Bool) : List Char → Option (Nat × List Char)
  | a :: b :: rest =>
    if f.two a b && accept rest then some (spelled [a, b], rest)
    else if f.one a && accept (b :: rest) then some (spelled [a], b :: rest)
    else none
  | [a] => if f.one a && accept [] then some (spelled [a], []) else none
  | [] => none

/-- A field and the mark behind it, and the rest. -/
def Field.takeMarked? (f : Field) (mark : Char → Bool) (text : List Char) :
    Option (Nat × List Char) := do
  let (n, rest) ← f.take? (fun rest => rest.head?.any mark) text
  some (n, rest.drop 1)

/-- A year of four digits and the mark behind it, and the rest. -/
def takeYear? (text : List Char) : Option (Nat × List Char) :=
  let digits := text.take 4
  match text.drop 4 with
  | '-' :: rest =>
    if digits.length = 4 && digits.all isDecimal then some (spelled digits, rest) else none
  | _ => none

/-- The parts of a date and time, and the rest. -/
def takeCivil? (text : List Char) : Option (Civil × List Char) := do
  let (y, rest) ← takeYear? text
  let (mo, rest) ← month.takeMarked? (· == '-') rest
  let (d, rest) ← day.takeMarked? (fun c => c == 'T' || c == 't') rest
  let (h, rest) ← hour.takeMarked? (· == ':') rest
  let (mi, rest) ← minute.takeMarked? (· == ':') rest
  let (s, rest) ← second.take? (fun _ => true) rest
  some (⟨y, mo, d, h, mi, s, 0⟩, rest)

/-- The parts of a date and time that fill a text with a given literal and name an instant. -/
def civil (text : List Char) (literal : String) : Except Fault Civil :=
  match takeCivil? text with
  | none => .error (notAnInstant literal "format '%Y-%m-%dT%H:%M:%S'")
  | some (c, rest) =>
    if !rest.isEmpty then
      .error (.badValue ("unconverted data remains: " ++ String.ofList rest))
    else if c.year = 0 then .error (.badValue "year 0 is out of range")
    else if Instant.daysIn c.year c.month < c.day then
      .error (.badValue "day is out of range for month")
    else if 60 ≤ c.second then .error (.badValue "second must be in 0..59")
    else .ok c

/-! ## Fractions -/

/-- A text in front of its last point, and from there on. -/
def lastPoint (text : List Char) : List Char × List Char :=
  let tail := text.reverse.takeWhile (· != '.')
  if tail.length = text.length then (text, [])
  else cut text (tail.length + 1)

/-- The microseconds of a fraction with its point. -/
def fractionMicros (chars : List Char) : Except Fault Int :=
  let text := String.ofList chars
  if chars.isEmpty then .ok 0
  else
    match Numeral.double? text with
    | some x => Integer.ofDouble (x.scale 1000000)
    | none => .error (.badValue ("could not convert string to float: " ++ Quoted.quote text))

/-! ## Instants -/

/-- An instant without an offset, if a calendar holds it. -/
def naive? (micros : Int) : Option Instant :=
  let t : Instant := ⟨micros, none⟩
  if t.civil.isValid then some t else none

/-- The first count of microseconds that is not even looked at. -/
def microLimit : Int := 0x80000000

/-- A number of microseconds that is less than a second. -/
def withinSecond (micro : Int) : Except Fault Nat :=
  if microLimit ≤ micro then .error (.overflow "signed integer is greater than maximum")
  else if micro < 0 ∨ Instant.perSecond ≤ micro then
    .error (.badValue "microsecond must be in 0..999999")
  else .ok micro.toNat

/-- The instant that a text with a given literal spells. -/
def ofText (text literal : String) : Except Fault Instant :=
  match splitOffset text.toList with
  | none => .error (notAnInstant literal "ISO-8601 datetime format")
  | some (stamp, offset) => do
    let (front, fraction) := lastPoint stamp
    let micro ← fractionMicros fraction
    let shown := String.ofList front
    let c ← civil front (if shown = text then literal else Quoted.quote shown)
    let t := Instant.ofCivil { c with micro := ← withinSecond micro } none
    let off ← offsetSeconds offset
    match naive? (t.micros - off * Instant.perSecond) with
    | some t => .ok t
    | none => .error .dateOverflow

/-- The instant that a number of milliseconds since 1970 names. -/
def ofMillis (n : Int) : Except Fault Instant :=
  match naive? (n * 1000) with
  | some t => .ok t
  | none => .error .beyondCalendar

/-- The instant that a value stands for: a text, or a number of milliseconds. -/
def ofValue (v : Value) : Except Fault Instant :=
  match v.wording? with
  | some s => ofText s v.literal
  | none => do ofMillis (← Integer.ofValue v)

end DocRepair.ExtendedJson.Stamp
