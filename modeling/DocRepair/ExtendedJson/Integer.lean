import DocRepair.Fault
import DocRepair.Text.Numeral
/-!
# `DocRepair.ExtendedJson.Integer` — values that stand for integers

## Contents

* `spelled` — the integer that a text or bytes spell, in a base;
* `ofText` — the same for a plain text;
* `ofValue` — the integer that a value stands for.
-/

namespace DocRepair.ExtendedJson.Integer

open DocRepair.Text

/-- The integer that was read from something with a given literal. -/
def conclude (base : Nat) (literal : String) : Numeral.Reading → Except Fault Int
  | .number n => .ok n
  | .malformed => .error (.notInteger base literal)
  | .tooLong digits => .error (.longInteger digits)

/-- The integer that a value spells in a base, if it is made of text or bytes. -/
def spelled (base : Nat) (v : Value) : Except Fault Int :=
  match v.wording?, v.bytes? with
  | some s, _ => conclude base v.literal (Numeral.integer base s)
  | none, some b => conclude base (Quoted.quoteBytes b) (Numeral.integerOfBytes base b)
  | none, none => .error (.wrongType "int() can't convert non-string with explicit base")

/-- The integer that a text spells in a base. -/
def ofText (base : Nat) (text : String) : Except Fault Int :=
  spelled base (.text text)

/-- The integer that a number stands for, without its fraction. -/
def ofDouble : Double → Except Fault Int
  | .nan _ => .error (.badValue "cannot convert float NaN to integer")
  | .infinite _ => .error (.overflow "cannot convert float infinity to integer")
  | .finite negative units => .ok (Int.tdiv (Double.signed negative units) Double.one)

/-- The integer that a value stands for: itself, a number without its fraction, a truth value as one
    or zero, or what a text or bytes spell. -/
def ofValue : Value → Except Fault Int
  | .bool b => .ok (if b then 1 else 0)
  | .int n | .long n => .ok n
  | .float x => ofDouble x
  | v =>
    if v.wording?.isSome || v.bytes?.isSome then spelled 10 v
    else .error (.wrongType
      ("int() argument must be a string, a bytes-like object or a real number, not '" ++
        v.fullKindName ++ "'"))

end DocRepair.ExtendedJson.Integer
