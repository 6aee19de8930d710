import DocRepair.Double
/-!
# `DocRepair.Double.Decimal` — reading decimal numerals

A numeral names an exact decimal value; the result is the number of the format nearest to it.

## Contents

* `ofDecimal` — the number nearest to a scaled integer;
* `Numeral` / `scanNumeral?` — sign, digits, point and exponent of a numeral;
* `ofNumeral?` — a numeral, or one of the words for infinity and not-a-number.
-/

namespace DocRepair.Double

/-- The number nearest to `digits · 10 ^ exponent`, where `digits` has `count` decimal digits.
    Exponents that are out of reach for so many digits are settled without the power of ten. -/
def ofDecimal (negative : Bool) (digits count : Nat) (exponent : Int) : Double :=
  if digits = 0 then .finite negative 0
  else if 400 < exponent + count then .infinite negative
  else if exponent + count < -400 then .finite negative 0
  else if 0 ≤ exponent then ofRatio negative (digits * Nat.pow 10 exponent.toNat) 1
  else ofRatio negative digits (Nat.pow 10 (-exponent).toNat)

/-- The value of an ASCII digit. -/
def asciiDigit? (c : Char) : Option Nat :=
  if '0' ≤ c ∧ c ≤ '9' then some (c.toNat - 48) else none

/-- The digits a text starts with, and the rest. -/
def spanDigits : List Char → List Nat × List Char
  | [] => ([], [])
  | c :: rest =>
    match asciiDigit? c with
    | some d => let (ds, after) := spanDigits rest; (d :: ds, after)
    | none => ([], c :: rest)

/-- The number that a run of digits spells. -/
def ofDigits (digits : List Nat) : Nat :=
  digits.foldl (fun n d => 10 * n + d) 0

/-- A sign in front of a text, and the rest. -/
def spanSign : List Char → Bool × List Char
  | '-' :: rest => (true, rest)
  | '+' :: rest => (false, rest)
  | text => (false, text)

/-- The digits in front of the point and behind it, and the exponent. -/
structure Numeral where
  before : List Nat
  after : List Nat
  exponent : Int
deriving Repr

/-- The number nearest to what a numeral says. -/
def Numeral.toDouble (numeral : Numeral) (negative : Bool) : Double :=
  let digits := numeral.before ++ numeral.after
  ofDecimal negative (ofDigits digits) (digits.dropWhile (· == 0)).length
    (numeral.exponent - numeral.after.length)

/-- The exponent at the end of a numeral: nothing, or a mark and a signed run of digits. -/
def scanExponent? : List Char → Option Int
  | [] => some 0
  | c :: rest =>
    if c = 'e' ∨ c = 'E' then
      let (negative, rest) := spanSign rest
      match spanDigits rest with
      | (d :: ds, []) => some (signed negative (ofDigits (d :: ds)))
      | _ => none
    else none

/-- An unsigned numeral that fills the text: digits on at least one side of the point. -/
def scanNumeral? (text : List Char) : Option Numeral :=
  let (before, rest) := spanDigits text
  let (after, rest) :=
    match rest with
    | '.' :: more => spanDigits more
    | _ => ([], rest)
  if before.isEmpty && after.isEmpty then none
  else (scanExponent? rest).map fun exponent => ⟨before, after, exponent⟩

/-- An ASCII letter in lower case. -/
def lower (c : Char) : Char :=
  if 'A' ≤ c ∧ c ≤ 'Z' then Char.ofNat (c.toNat + 32) else c

/-- A signed numeral, or a signed word for infinity or not-a-number in any case. -/
def ofNumeral? (text : List Char) : Option Double :=
  let (negative, body) := spanSign text
  let word := String.ofList (body.map lower)
  if word = "inf" ∨ word = "infinity" then some (.infinite negative)
  else if word = "nan" then some (.nan 0)
  else (scanNumeral? body).map (·.toDouble negative)

end DocRepair.Double
