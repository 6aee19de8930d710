import DocRepair.Text.Blank
import DocRepair.Text.Digit
import DocRepair.Text.Hex
import DocRepair.Double.Decimal
/-!
# `DocRepair.Text.Numeral` — numbers as people write them

Blanks around a number are passed over, digits may be of any script, and single underscores may
stand between digits.

## Contents

* `plain` — a character as the ASCII character that it counts as;
* `leadingDigits?` — the digits that a text starts with, with single underscores between them;
* `integer` — an integer in a base, or why the text is none;
* `double?` — a number of the floating-point format.
-/

namespace DocRepair.Text.Numeral

/-- A character as the ASCII character that it counts as: blanks as the space, digits as those of
    the same value, and anything else beyond ASCII as a character that no number has. -/
def plain (c : Char) : Char :=
  if c.toNat < 127 then c
  else if Blank.isBlank c then ' '
  else
    match Digit.decimalValue? c with
    | some d => Char.ofNat (48 + d)
    | none => '?'

/-- The characters that a text counts as, without the blanks at its two ends. -/
def characters (text : String) : List Char :=
  Blank.trim (text.toList.map plain)

/-- What a text says when it is read as an integer. -/
inductive Reading
  /-- An integer. -/
  | number (n : Int)
  /-- No integer. -/
  | malformed
  /-- More decimal digits than the limit. -/
  | tooLong (digits : Nat)
deriving DecidableEq, Repr

/-- The value of a digit in a base. -/
def digitIn? (base : Nat) (c : Char) : Option Nat :=
  (Hex.digitValue? c).filter (· < base)

/-- The values of the digits that a text starts with, between which single underscores may stand,
    and what is behind them. There is no such start if an underscore stands elsewhere, or where a
    digit is awaited, as at the very front. -/
def leadingDigits? (base : Nat) : (awaited : Bool) → List Char → Option (List Nat × List Char)
  | awaited, [] => if awaited then none else some ([], [])
  | awaited, c :: rest =>
    if c = '_' then if awaited then none else leadingDigits? base true rest
    else
      match digitIn? base c with
      | some d => (leadingDigits? base false rest).map fun (ds, behind) => (d :: ds, behind)
      | none => if awaited then none else some ([], c :: rest)

/-- Digits without the mark of base sixteen, which a number in that base may start with; one
    underscore may follow the mark. -/
def withoutMark (base : Nat) (chars : List Char) : List Char :=
  match base, chars with
  | 16, '0' :: x :: '_' :: rest => if x = 'x' ∨ x = 'X' then rest else chars
  | 16, '0' :: x :: rest => if x = 'x' ∨ x = 'X' then rest else chars
  | _, _ => chars

/-- An integer in a base. The length of a decimal one is limited, and that is seen before what is
    behind its digits. -/
def integer (base : Nat) (text : String) : Reading :=
  let (negative, chars) := Double.spanSign (characters text)
  match leadingDigits? base true (withoutMark base chars) with
  | none => .malformed
  | some (ds, behind) =>
    if base = 10 ∧ Digit.limit < ds.length then .tooLong ds.length
    else if !behind.isEmpty then .malformed
    else .number (Double.signed negative (ds.foldl (fun n d => base * n + d) 0))

/-- The integer that ASCII bytes spell. -/
def integerOfBytes (base : Nat) (bytes : List UInt8) : Reading :=
  integer base (String.ofList (bytes.map fun b =>
    if b.toNat < 127 then Char.ofNat b.toNat else '?'))

/-- Whether a character is an ASCII digit. -/
def isAsciiDigit (c : Option Char) : Bool :=
  (c.bind Double.asciiDigit?).isSome

/-- The characters without underscores, each of which must stand between two digits. -/
def withoutUnderscores? (before : Option Char) : List Char → Option (List Char)
  | [] => some []
  | c :: rest =>
    if c = '_' then
      if isAsciiDigit before && isAsciiDigit rest.head? then withoutUnderscores? (some c) rest
      else none
    else (withoutUnderscores? (some c) rest).map (c :: ·)

/-- A number of the floating-point format. What is not a number bears the label 0. -/
def double? (text : String) : Option Double := do
  Double.ofNumeral? (← withoutUnderscores? none (characters text))

end DocRepair.Text.Numeral
