/-!
# `DocRepair.Text.Digit` — characters that count as digits

The decimal digits of every script stand in blocks of ten, so the table holds the zeros alone.
Superscripts, circled digits and the like are digits without a decimal value.

## Contents

* `decimalValue?` — the value of a decimal digit of any script;
* `isDigit` — decimal digits and the digits that have no decimal value;
* `limit` / `beyond` — how long a number may be;
* `fits` — whether a number has no more digits than that;
* `Reading` / `readIndex` — what a text says when it is read as a non-negative number.
-/

namespace DocRepair.Text.Digit

/-- The code points of the zero of each script. -/
def zeros : List Nat :=
  [48, 1632, 1776, 1984, 2406, 2534, 2662, 2790, 2918, 3046, 3174, 3302, 3430, 3558, 3664, 3792,
   3872, 4160, 4240, 6112, 6160, 6470, 6608, 6784, 6800, 6992, 7088, 7232, 7248, 42528, 43216,
   43264, 43472, 43504, 43600, 44016, 65296, 66720, 68912, 69734, 69872, 69942, 70096, 70384,
   70736, 70864, 71248, 71360, 71472, 71904, 72016, 72784, 73040, 73120, 92768, 92864, 93008,
   120782, 120792, 120802, 120812, 120822, 123200, 123632, 125264, 130032]

/-- Ranges of digits without a decimal value: superscripts, subscripts, circled digits. -/
def symbols : List (Nat × Nat) :=
  [(178, 179), (185, 185), (4969, 4977), (6618, 6618), (8304, 8304), (8308, 8313), (8320, 8329),
   (9312, 9320), (9332, 9340), (9352, 9360), (9450, 9450), (9461, 9469), (9471, 9471),
   (10102, 10110), (10112, 10120), (10122, 10130), (68160, 68163), (69216, 69224),
   (69714, 69722), (127232, 127242)]

/-- The value of a decimal digit of any script. -/
def decimalValue? (c : Char) : Option Nat :=
  (zeros.find? fun first => first ≤ c.toNat && c.toNat < first + 10).map (c.toNat - ·)

/-- A digit that has no decimal value. -/
def isSymbol (c : Char) : Bool :=
  symbols.any fun (first, last) => first ≤ c.toNat && c.toNat ≤ last

/-- A digit of either sort. -/
def isDigit (c : Char) : Bool :=
  (decimalValue? c).isSome || isSymbol c

/-- How many decimal digits a number may have before it is refused. -/
def limit : Nat := 4300

/-- The least number that has more decimal digits. -/
def beyond : Nat := Nat.pow 10 limit

/-- Whether a number has at most so many decimal digits. -/
def fits : (digits : Nat) → Nat → Bool
  | 0, n => n == 0
  | digits + 1, n => n < 10 || fits digits (n / 10)

theorem fits_iff (digits n : Nat) : fits digits n = true ↔ n < Nat.pow 10 digits := by
  induction digits generalizing n with
  | zero => simp [fits]
  | succ digits ih =>
    have power : 0 < Nat.pow 10 digits := Nat.pow_pos (by decide)
    have next : Nat.pow 10 (digits + 1) = Nat.pow 10 digits * 10 := rfl
    rw [fits, Bool.or_eq_true, decide_eq_true_iff, ih, Nat.div_lt_iff_lt_mul (by decide), next]
    omega

theorem fits_limit (n : Nat) : fits limit n = true ↔ n < beyond := by
  unfold beyond
  generalize limit = digits
  exact fits_iff digits n

/-- What a text says when it is read as a position. -/
inductive Reading
  /-- Not made of digits. -/
  | notNumeric
  /-- A number. -/
  | number (n : Nat)
  /-- Digits, but one of them has no decimal value. -/
  | noValue
  /-- More decimal digits than the limit. -/
  | tooLong (digits : Nat)
deriving DecidableEq, Repr

/-- The number that a run of digit values spells. -/
def ofValues (values : List Nat) : Nat :=
  values.foldl (fun n d => 10 * n + d) 0

/-- The values of the decimal digits a text starts with. -/
def leadingValues : List Char → List Nat
  | [] => []
  | c :: rest =>
    match decimalValue? c with
    | some d => d :: leadingValues rest
    | none => []

/-- Reads characters as a position: digits only, of a bounded number, each with a value. -/
def readIndex (text : List Char) : Reading :=
  if text.isEmpty || !text.all isDigit then .notNumeric
  else
    let values := leadingValues text
    if limit < values.length then .tooLong values.length
    else if values.length < text.length then .noValue
    else .number (ofValues values)

end DocRepair.Text.Digit
