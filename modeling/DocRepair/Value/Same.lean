import DocRepair.Value
/-!
# `DocRepair.Value.Same` — equality of values

Numbers are equal when they denote the same number, whatever their kind, and the two truth values
count as one and zero; decimal numbers are a kind of their own. Arrays are equal item by item,
objects field by field in any order. Values of different kinds are otherwise never equal.

What is not a number is not equal to itself, but where it stands inside others, copies of one and
the same do count as equal.

## Contents

* `numeral?` — the number a value counts as;
* `sameScalar` — equality of values that hold no others;
* `same` — equality;
* `sameInside` — equality of values that stand inside others.
-/

namespace DocRepair.Value

/-- The number that a value counts as. -/
inductive Numeral
  | int (n : Int)
  | float (x : Double)
deriving DecidableEq, Repr

/-- The number that a value counts as. -/
def numeral? : Value → Option Numeral
  | .bool b => some (.int (if b then 1 else 0))
  | .int n | .long n => some (.int n)
  | .float x => some (.float x)
  | _ => none

/-- Equality of numbers, by exact value. -/
def Numeral.same : Numeral → Numeral → Bool
  | .int m, .int n => m == n
  | .int m, .float y => y.sameInt m
  | .float x, .int n => x.sameInt n
  | .float x, .float y => x.same y

/-- Equality of values that hold no others. -/
def sameScalar : Value → Value → Bool
  | .null, .null | .absent, .absent | .least, .least | .greatest, .greatest => true
  | .text s, .text t => s == t
  | .bytes a, .bytes b => a == b
  | .binary k a, .binary l b => k == l && a == b
  | .ident a, .ident b => a == b
  | .instant a, .instant b => a.same b
  | .decimal a, .decimal b => a == b
  | v, w =>
    match v.numeral?, w.numeral? with
    | some m, some n => m.same n
    | _, _ => false

/-- Whether two values are copies of one not-a-number. -/
def sameNan : Value → Value → Bool
  | .float x, .float y => x.sameNan y
  | _, _ => false

mutual

/-- Equality of values. -/
def same : Value → Value → Bool
  | .array xs, w =>
    match w with
    | .array ys => sameItems xs ys
    | _ => false
  | .object fs, w =>
    match w with
    | .object gs => fs.length == gs.length && sameFields fs gs
    | _ => false
  | .code s scope, w =>
    match w with
    | .code t scope' => s == t && same scope scope'
    | _ => false
  | .pattern source options, w =>
    match w with
    | .pattern source' options' => options == options' && same source source'
    | _ => false
  | .timestamp time increment, w =>
    match w with
    | .timestamp time' increment' => same time time' && same increment increment'
    | _ => false
  | .reference collection id database extra, w =>
    match w with
    | .reference collection' id' database' extra' =>
      same database database' && same collection collection' &&
        (sameNan id id' || same id id') &&
        (extra.length == extra'.length && sameFields extra extra')
    | _ => false
  | v, w => sameScalar v w

/-- Equality of items, one by one. -/
def sameItems : List Value → List Value → Bool
  | [], ys => ys.isEmpty
  | x :: xs, ys =>
    match ys with
    | [] => false
    | y :: ys => (sameNan x y || same x y) && sameItems xs ys

/-- Whether each field is present with an equal value. -/
def sameFields : List (String × Value) → Fields → Bool
  | [], _ => true
  | (k, v) :: rest, gs =>
    (match Fields.get? gs k with
     | some w => sameNan v w || same v w
     | none => false) && sameFields rest gs

end

/-- Equality of values that stand inside others. -/
def sameInside (v w : Value) : Bool :=
  sameNan v w || same v w

end DocRepair.Value
