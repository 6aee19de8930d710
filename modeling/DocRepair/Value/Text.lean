import DocRepair.Value
import DocRepair.Double.Shortest
import DocRepair.Instant.Text
import DocRepair.Text.Digit
import DocRepair.Text.Quoted
/-!
# `DocRepair.Value.Text` — values as text

A value has a plain text, which messages and keys use, and a literal, in which a text stands
between quotes. They differ for a few scalars only; inside a container it is always the literal that
is shown. An integer has a literal however long it is, but one with more digits than the limit is
never shown, nor anything that would show it.

## Contents

* `optionNames` — the names of a pattern's options;
* `literal` — the literal of a value;
* `plain` — the plain text of a value;
* `hasLiteral` / `hasPlain` — whether a value can be shown by its literal, or by its plain text.
-/

namespace DocRepair.Value

open DocRepair.Text

/-- The literal of a truth value. -/
def boolText (b : Bool) : String := if b then "True" else "False"

/-- The options of a pattern: letter and name, in the order in which they are named. -/
def patternOptions : List (Char × String) :=
  [('i', "IGNORECASE"), ('l', "LOCALE"), ('u', "UNICODE"), ('m', "MULTILINE"), ('s', "DOTALL"),
   ('x', "VERBOSE")]

/-- The names of a pattern's options; zero stands for none. -/
def optionNames (options : List Char) : String :=
  if options.isEmpty then "0"
  else "|".intercalate ((patternOptions.filter fun o => options.contains o.1).map
    fun o => "re." ++ o.2)

/-- Items of a call between its parentheses. -/
def called (name : String) (arguments : List String) : String :=
  name ++ "(" ++ ", ".intercalate arguments ++ ")"

/-- The subtype of bytes that are not to be shown. -/
def sensitiveSubtype : Nat := 8

/-- The literal of bytes with a subtype. -/
def binaryLiteral (subtype : Nat) (b : List UInt8) : String :=
  if subtype = sensitiveSubtype then "<" ++ called "Binary" ["REDACTED", toString subtype] ++ ">"
  else called "Binary" [Quoted.quoteBytes b, toString subtype]

mutual

/-- The literal of a value. -/
def literal : Value → String
  | .null => "None"
  | .absent => "ABSENT"
  | .bool b => boolText b
  | .int n | .long n => toString n
  | .float x => x.text
  | .decimal d => called "Decimal128" ["\x27" ++ d.text ++ "\x27"]
  | .text s => Quoted.quote s
  | .code s scope => called "Code" [Quoted.quote s, literal scope]
  | .bytes b => Quoted.quoteBytes b
  | .binary subtype b => binaryLiteral subtype b
  | .ident id => called "ObjectId" [Quoted.quote id.text]
  | .instant t => t.literal
  | .timestamp time increment => called "Timestamp" [literal time, literal increment]
  | .pattern source options => called "Regex" [literal source, optionNames options]
  | .least => called "MinKey" []
  | .greatest => called "MaxKey" []
  | .reference collection id database extra =>
    let known := if database.isNull then [] else [literal database]
    called "DBRef" ([literal collection, literal id] ++ known ++ argumentLiterals extra)
  | .array xs => "[" ++ ", ".intercalate (itemLiterals xs) ++ "]"
  | .object fs => "\x7b" ++ ", ".intercalate (fieldLiterals fs) ++ "\x7d"

/-- The literals of items. -/
def itemLiterals : List Value → List String
  | [] => []
  | x :: xs => literal x :: itemLiterals xs

/-- The literals of fields: the quoted name, a colon and the value. -/
def fieldLiterals : List (String × Value) → List String
  | [] => []
  | (k, v) :: rest => (Quoted.quote k ++ ": " ++ literal v) :: fieldLiterals rest

/-- The literals of named arguments: the name, a sign of equality and the value. -/
def argumentLiterals : List (String × Value) → List String
  | [] => []
  | (k, v) :: rest => (k ++ "=" ++ literal v) :: argumentLiterals rest

end

/-- The plain text of a value. -/
def plain : Value → String
  | .text s | .code s _ => s
  | .ident id => id.text
  | .instant t => t.spaced
  | .decimal d => d.text
  | .binary _ b => Quoted.quoteBytes b
  | v => v.literal

/-! ## What can be shown -/

mutual

/-- Whether a value can be shown by its literal: none of the integers in it has too many digits. -/
def hasLiteral : Value → Bool
  | .int n | .long n => Digit.fits Digit.limit n.natAbs
  | .code _ scope => hasLiteral scope
  | .timestamp time increment => hasLiteral time && hasLiteral increment
  | .pattern source _ => hasLiteral source
  | .reference collection id database extra =>
    hasLiteral collection && hasLiteral id && hasLiteral database && fieldsHaveLiteral extra
  | .array xs => itemsHaveLiteral xs
  | .object fs => fieldsHaveLiteral fs
  | .null | .absent | .bool _ | .float _ | .decimal _ | .text _ | .bytes _ | .binary _ _
  | .ident _ | .instant _ | .least | .greatest => true

/-- Whether all items can be shown by their literals. -/
def itemsHaveLiteral : List Value → Bool
  | [] => true
  | x :: xs => hasLiteral x && itemsHaveLiteral xs

/-- Whether the values of all fields can be shown by their literals. -/
def fieldsHaveLiteral : List (String × Value) → Bool
  | [] => true
  | (_, v) :: rest => hasLiteral v && fieldsHaveLiteral rest

end

/-- Whether a value can be shown by its plain text. That of a program text leaves the scope out. -/
def hasPlain : Value → Bool
  | .code _ _ => true
  | v => v.hasLiteral

end DocRepair.Value
