import DocRepair.Json
import DocRepair.Text.Hex
import DocRepair.Text.Digit
import DocRepair.Text.Surrogate
import DocRepair.Double.Decimal
/-!
# `DocRepair.Json.Reader` — reading the exchange format

The words for infinities and not-a-number are read as numbers. A text is one tree between blanks;
anything left over is an error.

What is made of a text is up to a builder, which is handed each array and each object as soon as it
is closed. So a builder that draws on a state or stops does so before anything behind is read.

## Contents

* `ReadError` — malformed text, or an integer with too many digits;
* `string` / `number` — the two tokens with an inner grammar;
* `Builder` — what is made of a text;
* `value` — one tree, and the rest of the text;
* `build` — a whole text, for a builder;
* `read` — a whole text, as a tree.
-/

namespace DocRepair.Json

open DocRepair.Text

/-- Why a text is no tree. -/
inductive ReadError
  | malformed
  | longInteger (digits : Nat)
deriving DecidableEq, Repr

/-! ## Tokens -/

/-- The text without the blanks at its front. -/
def skipBlanks (text : List Char) : List Char :=
  text.dropWhile fun c => c == ' ' || c == '\t' || c == '\n' || c == '\r'

/-- The text behind an expected word. -/
def word? : List Char → List Char → Option (List Char)
  | [], chars => some chars
  | _ :: _, [] => none
  | c :: expected, d :: rest => if c = d then word? expected rest else none

/-- Four hexadecimal digits, and the rest. -/
def codeUnit? : List Char → Option (Nat × List Char)
  | a :: b :: c :: d :: rest =>
    match Hex.digitValue? a, Hex.digitValue? b, Hex.digitValue? c, Hex.digitValue? d with
    | some a, some b, some c, some d => some (((a * 16 + b) * 16 + c) * 16 + d, rest)
    | _, _, _, _ => none
  | _ => none

/-- The character of a code unit; half of a pair that stands alone has a stand-in. -/
def charOf (unit : Nat) : Char :=
  if Surrogate.isHalf unit then Surrogate.standIn unit else Char.ofNat unit

/-- The character of an escape with a code unit, joining the two halves of a pair. -/
def escapedUnit? (text : List Char) : Option (Char × List Char) :=
  match codeUnit? text with
  | none => none
  | some (high, rest) =>
    if 0xd800 ≤ high ∧ high < 0xdc00 then
      -- A second unit of the right range belongs to the same character.
      match rest with
      | '\\' :: 'u' :: more =>
        match codeUnit? more with
        | some (low, after) =>
          if 0xdc00 ≤ low ∧ low < 0xe000 then
            some (Char.ofNat (0x10000 + (high - 0xd800) * 0x400 + (low - 0xdc00)), after)
          else some (charOf high, rest)
        | none => some (charOf high, rest)
      | _ => some (charOf high, rest)
    else some (charOf high, rest)

/-- The character of a one-letter escape. -/
def escapedLetter? (c : Char) : Option Char :=
  if c = '\x22' ∨ c = '\\' ∨ c = '/' then some c
  else if c = 'b' then some '\x08'
  else if c = 'f' then some '\x0c'
  else if c = 'n' then some '\n'
  else if c = 'r' then some '\r'
  else if c = 't' then some '\t'
  else none

/-- The characters of a string up to its closing quote, and the rest. -/
def stringChars : (fuel : Nat) → List Char → Except ReadError (List Char × List Char)
  | 0, _ => .error .malformed
  | _ + 1, [] => .error .malformed
  | fuel + 1, c :: rest =>
    if c = '\x22' then .ok ([], rest)
    else if c = '\\' then
      let escaped : Option (Char × List Char) :=
        match rest with
        | [] => none
        | 'u' :: more => escapedUnit? more
        | e :: more => (escapedLetter? e).map (·, more)
      match escaped with
      | none => .error .malformed
      | some (d, after) => do
        let (ds, after) ← stringChars fuel after
        .ok (d :: ds, after)
    else if c.toNat < 0x20 then .error .malformed
    else do
      let (ds, after) ← stringChars fuel rest
      .ok (c :: ds, after)

/-- A string without its opening quote, and the rest. -/
def string (text : List Char) : Except ReadError (String × List Char) := do
  let (cs, rest) ← stringChars (text.length + 1) text
  .ok (String.ofList cs, rest)

/-- The digits in front of the point: a zero alone, or a run that starts with no zero. -/
def leadingDigits (text : List Char) : List Nat × List Char :=
  match text with
  | '0' :: rest => ([0], rest)
  | _ => Double.spanDigits text

/-- A point with digits behind it, and the rest. -/
def fraction (text : List Char) : Option (List Nat) × List Char :=
  match text with
  | '.' :: more =>
    match Double.spanDigits more with
    | ([], _) => (none, text)
    | (ds, rest) => (some ds, rest)
  | _ => (none, text)

/-- An exponent with its mark and sign, and the rest. -/
def exponent (text : List Char) : Option Int × List Char :=
  match text with
  | c :: more =>
    if c = 'e' ∨ c = 'E' then
      let (negative, digits) := Double.spanSign more
      match Double.spanDigits digits with
      | ([], _) => (none, text)
      | (ds, rest) => (some (Double.signed negative (Double.ofDigits ds)), rest)
    else (none, text)
  | [] => (none, text)

/-- A number without its sign, and the rest. -/
def number (negative : Bool) (text : List Char) : Except ReadError (Json × List Char) :=
  match leadingDigits text with
  | ([], _) => .error .malformed
  | (before, rest) =>
    let (after, rest) := fraction rest
    let (power, rest) := exponent rest
    match after, power with
    | none, none =>
      if Digit.limit < before.length then .error (.longInteger before.length)
      else .ok (.int (Double.signed negative (Double.ofDigits before)), rest)
    | _, _ =>
      let numeral : Double.Numeral := ⟨before, after.getD [], power.getD 0⟩
      .ok (.float (numeral.toDouble negative), rest)

/-- A scalar that is not a string: a word or a number. -/
def scalar (text : List Char) : Except ReadError (Json × List Char) :=
  let words : List (String × Json) :=
    [("null", .null), ("true", .bool true), ("false", .bool false), ("NaN", .float (.nan 0)),
     ("Infinity", .float (.infinite false)), ("-Infinity", .float (.infinite true))]
  match words.findSome? fun (w, v) => (word? w.toList text).map (v, ·) with
  | some found => .ok found
  | none =>
    match text with
    | '-' :: rest => number true rest
    | _ => number false text

/-! ## Trees -/

/-- What is made of a text: of a scalar, of the items of an array, of the members of an object, each
    name once, and of an error. -/
structure Builder (ε σ α : Type) where
  scalar : Json → α
  array : List α → α
  object : List (String × α) → EStateM ε σ α
  refuse : ReadError → ε

namespace Builder

variable {ε σ α β : Type}

/-- A token that may be missing, for a builder. -/
def lift (b : Builder ε σ α) (r : Except ReadError β) : EStateM ε σ β :=
  match r with
  | .ok x => pure x
  | .error e => throw (b.refuse e)

mutual

/-- One tree at the front of a text, and the rest. -/
def value (b : Builder ε σ α) : (fuel : Nat) → List Char → EStateM ε σ (α × List Char)
  | 0, _ => b.lift (.error .malformed)
  | fuel + 1, chars =>
    match chars with
    | '\x22' :: rest => do
      let (s, rest) ← b.lift (string rest)
      return (b.scalar (.text s), rest)
    | '[' :: rest =>
      match skipBlanks rest with
      | ']' :: after => return (b.array [], after)
      | rest => do
        let (items, rest) ← b.elements fuel rest
        return (b.array items, rest)
    | '\x7b' :: rest => do
      let (members, rest) ←
        match skipBlanks rest with
        | '\x7d' :: after => pure ([], after)
        | rest => b.pairs fuel rest []
      return (← b.object members, rest)
    | _ => do
      let (tree, rest) ← b.lift (Json.scalar chars)
      return (b.scalar tree, rest)

/-- The items of an array up to its closing bracket; there is at least one. -/
def elements (b : Builder ε σ α) : (fuel : Nat) → List Char → EStateM ε σ (List α × List Char)
  | 0, _ => b.lift (.error .malformed)
  | fuel + 1, chars => do
    let (item, rest) ← b.value fuel chars
    match skipBlanks rest with
    | ']' :: after => return ([item], after)
    | ',' :: more => do
      let (items, after) ← b.elements fuel (skipBlanks more)
      return (item :: items, after)
    | _ => b.lift (.error .malformed)

/-- The members of an object up to its closing brace, added to those before; there is at least
    one more. -/
def pairs (b : Builder ε σ α) : (fuel : Nat) → List Char → List (String × α) →
    EStateM ε σ (List (String × α) × List Char)
  | 0, _, _ => b.lift (.error .malformed)
  | fuel + 1, chars, before =>
    match chars with
    | '\x22' :: rest => do
      let (name, rest) ← b.lift (string rest)
      match skipBlanks rest with
      | ':' :: more => do
        let (v, rest) ← b.value fuel (skipBlanks more)
        let members := put before name v
        match skipBlanks rest with
        | '\x7d' :: after => return (members, after)
        | ',' :: more => b.pairs fuel (skipBlanks more) members
        | _ => b.lift (.error .malformed)
      | _ => b.lift (.error .malformed)
    | _ => b.lift (.error .malformed)

end

/-- What a builder makes of a whole text. -/
def build (b : Builder ε σ α) (text : String) : EStateM ε σ α := do
  let chars := text.toList
  let (made, rest) ← b.value (chars.length + 1) (skipBlanks chars)
  if (skipBlanks rest).isEmpty then return made else b.lift (.error .malformed)

end Builder

/-- The builder of trees. -/
def trees : Builder ReadError Unit Json where
  scalar := id
  array := .array
  object members := pure (.object members)
  refuse := id

/-- Reads a whole text as a tree. -/
def read (text : String) : Except ReadError Json :=
  match trees.build text () with
  | .ok tree _ => .ok tree
  | .error e _ => .error e

end DocRepair.Json
