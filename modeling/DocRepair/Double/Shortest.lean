import DocRepair.Double
/-!
# `DocRepair.Double.Shortest` — the fewest digits that read back

A finite number other than zero is read back from every decimal in the interval of values that
round to it. The text takes the coarsest decimal grid, of one to seventeen digits, that has a point
in that interval, and of two such points the nearer one.

## Contents

* `Decimal` — digits and a power of ten;
* `shortest` — the shortest decimal of a magnitude;
* `text` — the text of a number: positional from `10⁻⁴` to below `10¹⁶`, with an exponent beyond.
-/

namespace DocRepair.Double

/-- The value `digits · 10 ^ exponent`. -/
structure Decimal where
  digits : Nat
  exponent : Int
deriving DecidableEq, Repr

/-- A power of ten as a ratio. -/
def tenPower (exponent : Int) : Nat × Nat :=
  if 0 ≤ exponent then (Nat.pow 10 exponent.toNat, 1) else (1, Nat.pow 10 (-exponent).toNat)

/-- The exponent of the first digit of a positive magnitude. -/
def leadingExponent (units : Nat) : Int :=
  ((Nat.toDigits 10 (units * Nat.pow 10 400 / one)).length : Int) - 401

/-- Whether a decimal reads back as the magnitude; the ends of the interval count when the
    significand is even. All is in quarters of a unit. -/
def readsBack (units : Nat) (d : Decimal) : Bool :=
  let step := spacing units
  let (num, den) := tenPower d.exponent
  let point := 4 * d.digits * num * one
  -- Under a power of two the neighbours lie twice as close.
  let below := if units = Nat.pow 2 units.log2 ∧ 1 < step then step else 2 * step
  let low := (4 * units - below) * den
  let high := (4 * units + 2 * step) * den
  if (units / step) % 2 = 0 then low ≤ point && point ≤ high
  else low < point && point < high

/-- The distance of a decimal from a magnitude, over the denominator of its power of ten. -/
def distance (units : Nat) (d : Decimal) : Nat :=
  let (num, den) := tenPower d.exponent
  ((d.digits * num * one : Nat) - (units * den : Nat) : Int).natAbs

/-- The last decimal of the grid `10 ^ exponent` that is not above a magnitude. -/
def gridFloor (units : Nat) (exponent : Int) : Decimal :=
  let (num, den) := tenPower exponent
  ⟨units * den / (num * one), exponent⟩

/-- The decimal of the grid `10 ^ exponent` that reads back, the nearer one if two do. -/
def onGrid? (units : Nat) (exponent : Int) : Option Decimal :=
  let below := gridFloor units exponent
  let above := { below with digits := below.digits + 1 }
  match readsBack units below, readsBack units above with
  | true, true =>
    let (near, far) := (distance units below, distance units above)
    some (if near < far ∨ (near = far ∧ below.digits % 2 = 0) then below else above)
  | true, false => some below
  | false, true => some above
  | false, false => none

/-- The first grid with a decimal that reads back, from `count` digits on, within `fuel` more. -/
def search (units : Nat) (leading : Int) : (count fuel : Nat) → Decimal
  | count, 0 => gridFloor units (leading + 1 - count)
  | count, fuel + 1 =>
    match onGrid? units (leading + 1 - count) with
    | some d => d
    | none => search units leading (count + 1) fuel

/-- The shortest decimal that reads back as a positive magnitude. -/
def shortest (units : Nat) : Decimal :=
  search units (leadingExponent units) 1 17

/-- Digits without the zeros at their end, and how many those were. -/
def stripZeros (digits : List Char) : List Char × Nat :=
  let kept := (digits.reverse.dropWhile (· == '0')).reverse
  (kept, digits.length - kept.length)

/-- Digits with the point after the first `place` of them, padded by zeros where it lies outside. -/
def positional (digits : List Char) (place : Int) : List Char :=
  if place ≤ 0 then '0' :: '.' :: List.replicate (-place).toNat '0' ++ digits
  else if digits.length ≤ place.toNat then
    digits ++ List.replicate (place.toNat - digits.length) '0' ++ ['.', '0']
  else digits.take place.toNat ++ '.' :: digits.drop place.toNat

/-- Digits with the point after the first, and an exponent of at least two digits. -/
def scientific (digits : List Char) (exponent : Int) : List Char :=
  let mantissa :=
    match digits with
    | first :: second :: rest => first :: '.' :: second :: rest
    | few => few
  let size := Nat.toDigits 10 exponent.natAbs
  mantissa ++ ['e', if exponent < 0 then '-' else '+'] ++
    List.replicate (2 - size.length) '0' ++ size

/-- The characters of a magnitude. -/
def magnitudeText (units : Nat) : List Char :=
  if units = 0 then ['0', '.', '0']
  else
    let d := shortest units
    let (digits, dropped) := stripZeros (Nat.toDigits 10 d.digits)
    let exponent := d.exponent + dropped + digits.length - 1
    if -4 ≤ exponent ∧ exponent < 16 then positional digits (exponent + 1)
    else scientific digits exponent

/-- The text of a number. -/
def text : Double → String
  | .nan _ => "nan"
  | .infinite negative => if negative then "-inf" else "inf"
  | .finite negative units =>
    String.ofList ((if negative then ['-'] else []) ++ magnitudeText units)

end DocRepair.Double
