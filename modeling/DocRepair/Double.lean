/-!
# `DocRepair.Double` — binary floating-point numbers, exactly

Every finite number of the 64-bit format is a whole multiple of its smallest positive number, so a
magnitude is held as that multiple and comparison and rounding are arithmetic on naturals.

## Contents

* `Double` — a signed multiple of the unit, an infinity, or not a number;
* `roundRatio` / `roundUnits` — the nearest natural, and the nearest magnitude of the format;
* `ofRatio` / `ofInt` — the nearest number to a ratio or an integer;
* `scaled?` — the exact value as a signed multiple of the unit;
* `same` / `le` / `add` / `scale` — equality, order, rounded sum and rounded integer multiple;
* `sameNan` — whether two are copies of one not-a-number.
-/

namespace DocRepair

/-- A number of the 64-bit format, its magnitude in units of the smallest positive one. What is not
    a number bears a label: equal labels mark copies of one and the same. -/
inductive Double
  | nan (label : Nat := 0)
  | infinite (negative : Bool)
  | finite (negative : Bool) (units : Nat)
deriving DecidableEq, Repr, Inhabited

namespace Double

/-! ## The format -/

/-- How many units make one. -/
def one : Nat := Nat.pow 2 1074

/-- The least magnitude, in units, that is beyond the format. -/
def beyond : Nat := Nat.pow 2 2098

/-- Binary digits of a significand. -/
def precision : Nat := 53

/-- The distance, in units, between neighbours around a magnitude. -/
def spacing (units : Nat) : Nat :=
  Nat.pow 2 (units.log2 + 1 - precision)

/-! ## Rounding -/

/-- The natural nearest to a ratio; a tie goes to the even one. -/
def roundRatio (num den : Nat) : Nat :=
  let whole := num / den
  let rest := num % den
  if 2 * rest < den then whole
  else if den < 2 * rest then whole + 1
  else if whole % 2 = 0 then whole
  else whole + 1

/-- The magnitude nearest to a ratio of units; a tie goes to the even significand. -/
def roundUnits (num den : Nat) : Nat :=
  let step := spacing (num / den)
  roundRatio num (den * step) * step

/-- A rounded magnitude as a number, infinite when it is beyond the format. -/
def ofUnits (negative : Bool) (units : Nat) : Double :=
  if units < beyond then .finite negative units else .infinite negative

/-- The number nearest to a ratio of naturals. -/
def ofRatio (negative : Bool) (num den : Nat) : Double :=
  ofUnits negative (roundUnits (num * one) den)

/-- The number nearest to an integer. -/
def ofInt (n : Int) : Double :=
  ofRatio (n < 0) n.natAbs 1

/-! ## Values -/

/-- Zero, with a plain sign. -/
def zero : Double := .finite false 0

/-- A magnitude with its sign. -/
def signed (negative : Bool) (units : Nat) : Int :=
  if negative then -units else units

/-- The exact value as a signed multiple of the unit. -/
def scaled? : Double → Option Int
  | .finite negative units => some (signed negative units)
  | _ => none

/-- An integer as a signed multiple of the unit. -/
def scaledInt (n : Int) : Int := n * one

/-- The integer a finite number is equal to. -/
def whole? (x : Double) : Option Int :=
  x.scaled?.bind fun v => if v % one = 0 then some (v / one) else none

/-- Equality of values: the two zeros are equal, and not-a-number equals nothing. -/
def same : Double → Double → Bool
  | .finite n u, .finite n' u' => signed n u == signed n' u'
  | .infinite n, .infinite n' => n == n'
  | _, _ => false

/-- Equality of a number and an integer, by exact value. -/
def sameInt (x : Double) (n : Int) : Bool :=
  x.scaled? == some (scaledInt n)

/-- Order of values; not-a-number is in no order with anything. -/
def le : Double → Double → Bool
  | .nan _, _ | _, .nan _ => false
  | .infinite n, .infinite n' => n || !n'
  | .infinite n, .finite _ _ => n
  | .finite _ _, .infinite n => !n
  | .finite n u, .finite n' u' => signed n u ≤ signed n' u'

/-- Whether an integer is at most a number, by exact value. -/
def intLe (n : Int) : Double → Bool
  | .nan _ => false
  | .infinite negative => !negative
  | .finite negative units => scaledInt n ≤ signed negative units

/-- Whether a number is at most an integer, by exact value. -/
def leInt (n : Int) : Double → Bool
  | .nan _ => false
  | .infinite negative => negative
  | .finite negative units => signed negative units ≤ scaledInt n

/-- Whether both are copies of the same not-a-number. -/
def sameNan : Double → Double → Bool
  | .nan a, .nan b => a == b
  | _, _ => false

/-- Whether a number is zero of either sign. -/
def isZero : Double → Bool
  | .finite _ units => units == 0
  | _ => false

/-- A rounded signed number of units; zero takes the sign `zeroNegative`. -/
def ofScaled (zeroNegative : Bool) (v : Int) : Double :=
  if v = 0 then .finite zeroNegative 0
  else ofUnits (v < 0) (roundUnits v.natAbs 1)

/-- The rounded sum; a sum of zero is negative only when both terms are. -/
def add : Double → Double → Double
  | .nan label, _ | _, .nan label => .nan label
  | .infinite n, .infinite n' => if n == n' then .infinite n else .nan
  | .infinite n, _ | _, .infinite n => .infinite n
  | .finite n u, .finite n' u' => ofScaled (n && n') (signed n u + signed n' u')

/-- The rounded product with a natural. -/
def scale (k : Nat) : Double → Double
  | .finite negative units => ofUnits negative (roundUnits (units * k) 1)
  | x => x

end Double

end DocRepair
