import DocRepair.Text.Digit
import DocRepair.Double.Decimal
/-!
# `DocRepair.Decimal` — decimal floating-point numbers

Numbers of up to thirty-four decimal digits with an exponent. Trailing zeros count: numbers of equal
value with different exponents are different. A text is read only if nothing of it is lost.

## Contents

* `Decimal` — a signed coefficient with an exponent, an infinity, or not a number;
* `fit` — a coefficient and exponent of any size within the format;
* `ofText` — reads a numeral;
* `text` — the numeral, with an exponent where the point would be far away.
-/

namespace DocRepair

/-- A decimal floating-point number. -/
inductive Decimal
  | nan (negative signaling : Bool)
  | infinite (negative : Bool)
  | finite (negative : Bool) (coefficient : Nat) (exponent : Int)
deriving DecidableEq, Repr, Inhabited

namespace Decimal

open DocRepair.Text

/-- Why a text is no decimal number of the format. -/
inductive Refusal
  /-- Not a numeral. -/
  | malformed
  /-- Beyond the greatest number. -/
  | overflow
  /-- Digits that would be lost. -/
  | inexact
  /-- Not a number, with digits behind the word. -/
  | payload
deriving DecidableEq, Repr

/-- Digits of a coefficient. -/
def precision : Nat := 34

/-- The greatest exponent of the first digit. -/
def greatest : Int := 6144

/-- The least exponent of the last digit. -/
def least : Int := -6176

/-- The greatest exponent of the last digit. -/
def greatestLast : Int := 6111

/-- How many decimal digits a natural has; zero has one. -/
def width (n : Nat) : Nat := (Nat.toDigits 10 n).length

/-- A coefficient and exponent as a number of the format. An exponent that is too great is made up
    for by zeros, one that is too small by taking zeros away. -/
def fit (negative : Bool) (coefficient : Nat) (exponent : Int) : Except Refusal Decimal :=
  if coefficient = 0 then .ok (.finite negative 0 (max least (min greatestLast exponent)))
  else
    let digits := width coefficient
    if greatest < exponent + (digits - 1 : Nat) then .error .overflow
    else if greatestLast < exponent then
      .ok (.finite negative (coefficient * Nat.pow 10 (exponent - greatestLast).toNat) greatestLast)
    else
      -- The digits that do not fit: those below the least exponent, and those beyond the precision.
      let excess := max (least - exponent).toNat (digits - precision)
      if excess = 0 then .ok (.finite negative coefficient exponent)
      else if digits < excess then .error .inexact
      else
        let unit := Nat.pow 10 excess
        let rounded := Double.roundRatio coefficient unit
        if coefficient % unit = 0 then .ok (.finite negative rounded (exponent + excess))
        else if greatest < exponent + excess + (width rounded - 1 : Nat) then .error .overflow
        else .error .inexact

/-- A digit of any script as the ASCII digit of the same value; other characters as they are. -/
def plain (c : Char) : Char :=
  match Digit.decimalValue? c with
  | some d => Char.ofNat (48 + d)
  | none => c

/-- What not-a-number is, given the digits behind the word. -/
def ofPayload (negative signaling : Bool) (payload : List Char) : Except Refusal Decimal :=
  match Double.spanDigits payload with
  | (digits, []) =>
    let digits := digits.dropWhile (· == 0)
    if precision ≤ digits.length then .error .malformed
    else if digits.isEmpty then .ok (.nan negative signaling)
    else .error .payload
  | _ => .error .malformed

/-- The text behind a word, if the text starts with it. -/
def after? (word : String) (chars : List Char) : Option (List Char) :=
  if word.toList.isPrefixOf chars then some (chars.drop word.length) else none

/-- Reads a numeral, or a word for infinity or not-a-number in any case. -/
def ofText (text : String) : Except Refusal Decimal :=
  let (negative, chars) := Double.spanSign (text.toList.map plain)
  let lower := chars.map Double.lower
  if lower = "inf".toList ∨ lower = "infinity".toList then .ok (.infinite negative)
  else
    match after? "nan" lower, after? "snan" lower with
    | some payload, _ => ofPayload negative false payload
    | none, some payload => ofPayload negative true payload
    | none, none =>
      match Double.scanNumeral? chars with
      | some numeral =>
        fit negative (Double.ofDigits (numeral.before ++ numeral.after))
          (numeral.exponent - numeral.after.length)
      | none => .error .malformed

/-- A minus for a negative number. -/
def sign (negative : Bool) : String := if negative then "-" else ""

/-- Digits with a point behind the first `places`, led by zeros if `places` is not positive, and
    without a point if it would come last. -/
def pointed (digits : List Char) (places : Int) : String :=
  if places ≤ 0 then "0." ++ String.ofList (List.replicate (-places).toNat '0' ++ digits)
  else if digits.length ≤ places then String.ofList digits
  else String.ofList (digits.take places.toNat ++ '.' :: digits.drop places.toNat)

/-- The numeral of a coefficient and exponent: positional where the exponent is not positive and the
    point not far to the left, else with one digit in front of the point. -/
def finiteText (coefficient : Nat) (exponent : Int) : String :=
  let digits := Nat.toDigits 10 coefficient
  let point := exponent + digits.length
  if exponent ≤ 0 ∧ -6 < point then pointed digits point
  else
    let shift := point - 1
    pointed digits 1 ++ "E" ++ (if shift < 0 then "-" else "+") ++ toString shift.natAbs

/-- The numeral of a number. Every sort of not-a-number is shown alike. -/
def text : Decimal → String
  | .nan _ _ => "NaN"
  | .infinite negative => sign negative ++ "Infinity"
  | .finite negative coefficient exponent => sign negative ++ finiteText coefficient exponent

end Decimal

end DocRepair
