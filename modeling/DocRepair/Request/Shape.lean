import DocRepair.Fault
import DocRepair.Text.Blank
import DocRepair.Double.Decimal
/-!
# `DocRepair.Request.Shape` — what a request must look like

A shape says which values are accepted and what they are read as. A record lists its fields in
order; what is wrong with them is reported in that order, then the names that do not belong, and
its rule is applied only when all else is in order.

## Contents

* `Shape` — the shapes;
* `readText` / `readFlag` / `readNumber` — the scalar readings;
* `recordIssues` — what is wrong with the fields of a record;
* `Shape.accept` — the value that a value is read as, or all that is wrong with it.
-/

namespace DocRepair

/-- What a part of a request must look like. -/
inductive Shape
  /-- Any value at all. -/
  | anything
  /-- A text. -/
  | text
  /-- A truth value, or what is commonly written for one. -/
  | flag
  /-- A number above zero, or its text. -/
  | positive
  /-- One of some texts. -/
  | oneOf (words : List String)
  /-- An object with any fields. -/
  | mapping
  /-- An array whose items have a shape. -/
  | list (item : Shape)
  /-- Null, or a shape. -/
  | optional (shape : Shape)
  /-- The first of two shapes that accepts, each with the name it has in reports. -/
  | either (firstName : String) (first : Shape) (secondName : String) (second : Shape)
  /-- An object with these fields alone. A field without default is required, and the rule may
      object to a whole record. -/
  | record (title : String) (fields : List (String × Shape × Option Value))
      (rule : Fields → Option String)

namespace Shape

/-- An objection to the value itself. -/
def issue (category message : String) : Issue :=
  ⟨category, [], message⟩

/-- Objections to a part, seen from the whole. -/
def inside (name : String) (issues : List Issue) : List Issue :=
  issues.map fun i => { i with location := name :: i.location }

/-! ## Scalars -/

/-- The text that bytes encode. -/
def utf8? (bytes : List UInt8) : Option String :=
  String.fromUTF8? ⟨bytes.toArray⟩

/-- A text with half of a pair that stands alone, or bytes that encode no text. -/
def notUnicode : Issue :=
  issue "string_unicode"
    "Input should be a valid string, unable to parse raw data as a unicode string"

/-- A text, unless half of a pair stands alone in it. -/
def whole (s : String) : Except Issue String :=
  if Text.Surrogate.isWhole s then .ok s else .error notUnicode

/-- Reads a text; program text counts as text, and bytes count as the text they encode. A text is
    taken as it is, but what is read as one must be whole. -/
def readText (v : Value) : Except Issue String :=
  match v, v.bytes? with
  | .text s, _ => .ok s
  | .code s _, _ => whole s
  | _, some bs => ((utf8? bs).map Except.ok).getD (.error notUnicode)
  | _, none => .error (issue "string_type" "Input should be a valid string")

/-- The text that is read for something else, if a value is made of text or bytes. Bytes that
    encode no text are the given objection. -/
def writtenText? (v : Value) (undecodable : Issue) : Except Issue (Option String) :=
  match v.wording?, v.bytes? with
  | some s, _ => (whole s).map some
  | none, some bs => ((utf8? bs).map (.ok ∘ some)).getD (.error undecodable)
  | none, none => .ok none

/-- The words for false. -/
def falseWords : List String := ["0", "off", "f", "false", "n", "no"]

/-- The words for true. -/
def trueWords : List String := ["1", "on", "t", "true", "y", "yes"]

/-- The truth value that a word stands for, in any case. -/
def flagWord? (s : String) : Option Bool :=
  let word := String.ofList (s.toList.map Double.lower)
  if falseWords.contains word then some false
  else if trueWords.contains word then some true
  else none

/-- The truth value that an integer stands for. -/
def flagInt? (n : Int) : Option Bool :=
  if n = 0 then some false else if n = 1 then some true else none

/-- The integers whose truth value is asked for lie between these bounds. -/
def flagBound : Int := 0x8000000000000000

/-- The integer that a number is, if it is within bounds. -/
def flagNumber? : Value → Option Int
  | .int n | .long n => if -flagBound ≤ n ∧ n < flagBound then some n else none
  | .float x => x.whole?.filter fun n => -flagBound < n && n < flagBound
  | _ => none

/-- Reads a truth value: itself, zero or one, or one of its words. -/
def readFlag (v : Value) : Except Issue Bool := do
  let unread := issue "bool_parsing" "Input should be a valid boolean, unable to interpret input"
  let known (b : Option Bool) : Except Issue Bool := (b.map Except.ok).getD (.error unread)
  match v, ← writtenText? v unread, flagNumber? v with
  | .bool b, _, _ => .ok b
  | _, some s, _ => known (flagWord? s)
  | _, none, some n => known (flagInt? n)
  | _, none, none => .error (issue "bool_type" "Input should be a valid boolean")

/-- Whether no two underscores are adjacent, and none is at the end of the text. -/
def singleUnderscores : List Char → Bool
  | [] => true
  | ['_'] => false
  | '_' :: '_' :: _ => false
  | _ :: rest => singleUnderscores rest

/-- The number that a text spells: a numeral between blanks, or one with single underscores
    between its characters. -/
def number? (s : String) : Option Double :=
  match Double.ofNumeral? (Text.Blank.trim s.toList) with
  | some x => some x
  | none =>
    let chars := s.toList
    if chars.contains '_' && chars.head? != some '_' && singleUnderscores chars then
      Double.ofNumeral? (chars.filter (· != '_'))
    else none

/-- Reads a number: itself, an integer within the format, a truth value, or a text. -/
def readNumber (v : Value) : Except Issue Double := do
  let wrong := issue "float_type" "Input should be a valid number"
  let unread := issue "float_parsing"
    "Input should be a valid number, unable to parse string as a number"
  match v, ← writtenText? v unread with
  | _, some s => ((number? s).map Except.ok).getD (.error unread)
  | .float x, none => .ok x
  | .bool b, none => .ok (Double.ofInt (if b then 1 else 0))
  | .int n, none | .long n, none =>
    match Double.ofInt n with
    | .infinite _ => .error wrong
    | x => .ok x
  | _, none => .error wrong

/-- Reads a number above zero. -/
def readPositive (v : Value) : Except Issue Double := do
  let x ← readNumber v
  if x.le .zero || !x.le (.infinite false) then
    .error (issue "greater_than" "Input should be greater than 0")
  else .ok x

/-- Quoted words as alternatives: commas, and an "or" before the last. -/
def alternatives (words : List String) : String :=
  match (words.map Text.Quoted.quote).reverse with
  | [] => ""
  | [one] => one
  | last :: others => ", ".intercalate others.reverse ++ " or " ++ last

/-- Reads one of some texts. -/
def readWord (words : List String) (v : Value) : Except Issue String :=
  let other := issue "literal_error" ("Input should be " ++ alternatives words)
  match v.text? with
  | some s => do if words.contains (← whole s) then .ok s else .error other
  | none => .error other

/-! ## Containers -/

/-- The result of a scalar reading as a value, or the one objection to it. -/
def asValue {α : Type} (wrap : α → Value) (r : Except Issue α) : Except (List Issue) Value :=
  match r with
  | .ok a => .ok (wrap a)
  | .error i => .error [i]

/-- Results in order, or all objections. -/
def gather {α : Type} : List (Except (List Issue) α) → Except (List Issue) (List α)
  | [] => .ok []
  | r :: rest =>
    match r, gather rest with
    | .ok a, .ok as => .ok (a :: as)
    | .ok _, .error issues => .error issues
    | .error issues, .ok _ => .error issues
    | .error issues, .error more => .error (issues ++ more)

/-- A result whose objections lie under a name. -/
def located {α : Type} (name : String) (r : Except (List Issue) α) : Except (List Issue) α :=
  match r with
  | .ok a => .ok a
  | .error issues => .error (inside name issues)

/-- Every item of a list under its position. -/
def acceptItems (accept : Value → Except (List Issue) Value) (items : List Value) :
    Except (List Issue) (List Value) :=
  gather (items.zipIdx.map fun (item, i) => located (toString i) (accept item))

/-- The objections of a reading. -/
def objections {α : Type} (r : Except (List Issue) α) : List Issue :=
  match r with
  | .ok _ => []
  | .error issues => issues

/-- Objections to a record: those to its fields, then one for each name that it does not know. A
    name that is not whole is the only objection. -/
def recordIssues (issues : List Issue) (known : List String) (given : Fields) : List Issue :=
  let strange := (given.map (·.1)).filter fun name => !known.contains name
  if strange.all Text.Surrogate.isWhole then
    issues ++ strange.map fun name =>
      ⟨"extra_forbidden", [name], "Extra inputs are not permitted"⟩
  else [notUnicode]

/-- The fields of a record, if there are no objections to it, nor to the whole. -/
def conclude (fields : Except (List Issue) Fields) (issues : List Issue)
    (rule : Fields → Option String) : Except (List Issue) Value :=
  match fields, issues with
  | .ok fs, [] =>
    match rule fs with
    | some objection => .error [issue "value_error" ("Value error, " ++ objection)]
    | none => .ok (.object fs)
  | _, issues => .error issues

mutual

/-- The value that a value is read as, or all that is wrong with it. -/
def accept : Shape → Value → Except (List Issue) Value
  | .anything, v => .ok v
  | .text, v => asValue .text (readText v)
  | .flag, v => asValue .bool (readFlag v)
  | .positive, v => asValue .float (readPositive v)
  | .oneOf words, v => asValue .text (readWord words v)
  | .mapping, v =>
    if v.isObject then .ok v
    else .error [issue "dict_type" "Input should be a valid dictionary"]
  | .list item, v =>
    match v with
    | .array items =>
      match acceptItems item.accept items with
      | .ok vs => .ok (.array vs)
      | .error issues => .error issues
    | _ => .error [issue "list_type" "Input should be a valid list"]
  | .optional shape, v => if v.isNull then .ok .null else shape.accept v
  | .either firstName first secondName second, v =>
    match first.accept v, second.accept v with
    | .ok w, _ => .ok w
    | .error _, .ok w => .ok w
    | .error a, .error b => .error (inside firstName a ++ inside secondName b)
  | .record title fields rule, v =>
    match v with
    | .object given =>
      let found := acceptFields fields given
      conclude found (recordIssues (objections found) (fields.map (·.1)) given) rule
    | _ => .error [issue "model_type"
        ("Input should be a valid dictionary or instance of " ++ title)]

/-- The fields of a record in order, defaults filled in, or all that is wrong with them. -/
def acceptFields : List (String × Shape × Option Value) → Fields → Except (List Issue) Fields
  | [], _ => .ok []
  | (name, shape, default) :: rest, given =>
    let here : Except (List Issue) Value :=
      match Fields.get? given name, default with
      | some v, _ => located name (shape.accept v)
      | none, some v => .ok v
      | none, none => .error [⟨"missing", [name], "Field required"⟩]
    match here, acceptFields rest given with
    | .ok v, .ok fs => .ok ((name, v) :: fs)
    | .ok _, .error more => .error more
    | .error issues, .ok _ => .error issues
    | .error issues, .error more => .error (issues ++ more)

end

end Shape

end DocRepair
