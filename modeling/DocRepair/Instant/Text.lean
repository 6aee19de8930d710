import DocRepair.Instant
import DocRepair.Double.Decimal
/-!
# `DocRepair.Instant.Text` — instants as text

## Contents

* `iso` / `spaced` — date and time with a `T` or a space between them, then the offset;
* `literal` — the expression that builds the instant;
* `ofIso?` — reads the first form.
-/

namespace DocRepair.Instant

/-- A number in decimal digits, led by zeros up to `width`. -/
def padded (width n : Nat) : String :=
  let shown := Nat.toDigits 10 n
  String.ofList (List.replicate (width - shown.length) '0' ++ shown)

/-- Year, month and day with dashes. -/
def dateText (c : Civil) : String :=
  padded 4 c.year.toNat ++ "-" ++ padded 2 c.month ++ "-" ++ padded 2 c.day

/-- Hours, minutes and seconds with colons. -/
def timeText (c : Civil) : String :=
  padded 2 c.hour ++ ":" ++ padded 2 c.minute ++ ":" ++ padded 2 c.second

/-- Microseconds behind a point, unless there are none. -/
def fractionText (c : Civil) : String :=
  if c.micro = 0 then "" else "." ++ padded 6 c.micro

/-- A signed offset in hours and minutes, and seconds if it has some. -/
def offsetText (seconds : Int) : String :=
  let n := seconds.natAbs
  (if seconds < 0 then "-" else "+") ++ padded 2 (n / 3600) ++ ":" ++ padded 2 (n / 60 % 60) ++
    (if n % 60 = 0 then "" else ":" ++ padded 2 (n % 60))

/-- Date, separator, time, fraction and offset. -/
def withSeparator (separator : String) (t : Instant) : String :=
  let c := t.civil
  dateText c ++ separator ++ timeText c ++ fractionText c ++
    (match t.offset with
     | some seconds => offsetText seconds
     | none => "")

/-- The form that machines exchange. -/
def iso (t : Instant) : String := withSeparator "T" t

/-- The form that people read. -/
def spaced (t : Instant) : String := withSeparator " " t

/-- The expression for an offset: universal time has a name of its own. -/
def offsetLiteral (seconds : Int) : String :=
  if seconds = 0 then "datetime.timezone.utc"
  else
    let days := Int.fdiv seconds 86400
    let rest := Int.fmod seconds 86400
    let parts := (if days = 0 then [] else ["days=" ++ toString days]) ++
      (if rest = 0 then [] else ["seconds=" ++ toString rest])
    "datetime.timezone(datetime.timedelta(" ++ ", ".intercalate parts ++ "))"

/-- The expression that builds the instant; zero seconds and microseconds are left out. -/
def literal (t : Instant) : String :=
  let c := t.civil
  let start := [toString c.year, toString c.month, toString c.day, toString c.hour,
    toString c.minute]
  let seconds := if c.second = 0 ∧ c.micro = 0 then [] else [toString c.second]
  let micros := if c.micro = 0 then [] else [toString c.micro]
  let zone := match t.offset with
    | some offset => ["tzinfo=" ++ offsetLiteral offset]
    | none => []
  "datetime.datetime(" ++ ", ".intercalate (start ++ seconds ++ micros ++ zone) ++ ")"

/-! ## Reading -/

/-- Exactly `count` digits, and the rest. -/
def takeDigits? (count : Nat) (text : List Char) : Option (Nat × List Char) :=
  let digits := (text.take count).filterMap Double.asciiDigit?
  if digits.length = count then some (Double.ofDigits digits, text.drop count) else none

/-- One expected character, and the rest. -/
def expect? (c : Char) : List Char → Option (List Char)
  | [] => none
  | d :: rest => if d = c then some rest else none

/-- A fraction of up to six digits, in microseconds, and the rest. -/
def takeFraction? : List Char → Option (Nat × List Char)
  | '.' :: rest =>
    let (digits, after) := Double.spanDigits rest
    if digits.isEmpty || 6 < digits.length then none
    else some (Double.ofDigits digits * Nat.pow 10 (6 - digits.length), after)
  | text => some (0, text)

/-- The offset that ends a text: none, `Z`, or hours and minutes with optional seconds. -/
def readOffset? : List Char → Option (Option Int)
  | [] => some none
  | ['Z'] => some (some 0)
  | c :: rest =>
    if c = '+' ∨ c = '-' then do
      let (hours, rest) ← takeDigits? 2 rest
      let rest ← expect? ':' rest
      let (minutes, rest) ← takeDigits? 2 rest
      let seconds ← match rest with
        | [] => some 0
        | _ => do
          let rest ← expect? ':' rest
          let (seconds, rest) ← takeDigits? 2 rest
          if rest.isEmpty then some seconds else none
      some (some (Double.signed (c == '-') (hours * 3600 + minutes * 60 + seconds)))
    else none

/-- Year, month and day with dashes, and the rest. -/
def takeDate? (text : List Char) : Option ((Nat × Nat × Nat) × List Char) := do
  let (year, rest) ← takeDigits? 4 text
  let rest ← expect? '-' rest
  let (month, rest) ← takeDigits? 2 rest
  let rest ← expect? '-' rest
  let (day, rest) ← takeDigits? 2 rest
  some ((year, month, day), rest)

/-- Hours, minutes and seconds with colons, and the rest. -/
def takeTime? (text : List Char) : Option ((Nat × Nat × Nat) × List Char) := do
  let (hour, rest) ← takeDigits? 2 text
  let rest ← expect? ':' rest
  let (minute, rest) ← takeDigits? 2 rest
  let rest ← expect? ':' rest
  let (second, rest) ← takeDigits? 2 rest
  some ((hour, minute, second), rest)

/-- Reads date, time, fraction and offset, if they name an instant. -/
def ofIso? (text : String) : Option Instant := do
  let ((year, month, day), rest) ← takeDate? text.toList
  let rest ← expect? 'T' rest
  let ((hour, minute, second), rest) ← takeTime? rest
  let (micro, rest) ← takeFraction? rest
  let offset ← readOffset? rest
  let c : Civil := ⟨year, month, day, hour, minute, second, micro⟩
  if c.isValid then some (ofCivil c offset) else none

end DocRepair.Instant
