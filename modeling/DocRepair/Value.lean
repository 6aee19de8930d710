import DocRepair.Decimal
import DocRepair.Instant
import DocRepair.ObjectId
/-!
# `DocRepair.Value` — documents and what is in them

A document is a tree of scalars, arrays and objects without a schema. The fields of an object keep
the order in which they were first written.

## Contents

* `Value` — the tree;
* `Fields.get?` / `Fields.set` / `Fields.erase` — one field of an object;
* `isObject` / `isArray` / `isContainer` / `truthy` — tests of shape;
* `kindName` / `fullKindName` — the name of a value's kind.
-/

namespace DocRepair

/-- A value of a document. The fields of an object are in the order of their first writing.

Beside the common kinds stand those that only a database has: integers marked as long, decimal
numbers, program text with or without variables, bytes with a subtype, search patterns with the
letters of their options, timestamps, references to documents, and two values that come before and
after all others. The marker `absent` says that there is nothing where it stands. -/
inductive Value
  | null
  | absent
  | bool (b : Bool)
  | int (n : Int)
  | long (n : Int)
  | float (x : Double)
  | decimal (d : Decimal)
  | text (s : String)
  | code (s : String) (scope : Value)
  | bytes (b : List UInt8)
  | binary (subtype : Nat) (b : List UInt8)
  | ident (id : ObjectId)
  | instant (t : Instant)
  | timestamp (time increment : Value)
  | pattern (source : Value) (options : List Char)
  | least
  | greatest
  | reference (collection id database : Value) (extra : List (String × Value))
  | array (items : List Value)
  | object (fields : List (String × Value))
deriving Repr, Inhabited

/-- The fields of an object, by name. -/
abbrev Fields := List (String × Value)

/-! ## Fields -/

namespace Fields

/-- The value of a field. -/
def get? : Fields → String → Option Value
  | [], _ => none
  | (k, v) :: rest, name => if k = name then some v else get? rest name

/-- Whether a field is present. -/
def has (fields : Fields) (name : String) : Bool :=
  (get? fields name).isSome

/-- The names of the fields, in order. -/
def names (fields : Fields) : List String :=
  fields.map (·.1)

/-- Writes a field: in its place if it is present, else at the end. -/
def set : Fields → String → Value → Fields
  | [], name, v => [(name, v)]
  | (k, w) :: rest, name, v => if k = name then (k, v) :: rest else (k, w) :: set rest name v

/-- Removes a field. -/
def erase : Fields → String → Fields
  | [], _ => []
  | (k, w) :: rest, name => if k = name then rest else (k, w) :: erase rest name

/-- The value of a field, null when it is absent. -/
def getD (fields : Fields) (name : String) : Value :=
  (get? fields name).getD .null

theorem get?_set_self (fields : Fields) (name : String) (v : Value) :
    get? (set fields name v) name = some v := by
  induction fields with
  | nil => simp [set, get?]
  | cons f rest ih => by_cases h : f.1 = name <;> simp [set, get?, h, ih]

theorem get?_set_ne (fields : Fields) {name other : String} (v : Value) (h : other ≠ name) :
    get? (set fields name v) other = get? fields other := by
  induction fields with
  | nil => simp [set, get?, h.symm]
  | cons f rest ih =>
    obtain ⟨k, w⟩ := f
    by_cases hk : k = name
    · simp [set, get?, hk, h.symm]
    · simp [set, get?, hk, ih]

theorem get?_erase_ne (fields : Fields) {name other : String} (h : other ≠ name) :
    get? (erase fields name) other = get? fields other := by
  induction fields with
  | nil => rfl
  | cons f rest ih =>
    obtain ⟨k, w⟩ := f
    by_cases hk : k = name
    · simp [erase, get?, hk, h.symm]
    · simp [erase, get?, hk, ih]

end Fields

/-! ## Shape -/

namespace Value

/-- An object. -/
def isObject : Value → Bool
  | .object _ => true
  | _ => false

/-- An array. -/
def isArray : Value → Bool
  | .array _ => true
  | _ => false

/-- A value that holds others. -/
def isContainer (v : Value) : Bool :=
  v.isObject || v.isArray

/-- The null value. -/
def isNull : Value → Bool
  | .null => true
  | _ => false

/-- The marker of absence. -/
def isAbsent : Value → Bool
  | .absent => true
  | _ => false

/-- The fields of an object; other values have none. -/
def fields : Value → Fields
  | .object fs => fs
  | _ => []

/-- The items of an array; other values have none. -/
def items : Value → List Value
  | .array xs => xs
  | _ => []

/-- The text of a text value. -/
def text? : Value → Option String
  | .text s => some s
  | _ => none

/-- The characters of a text, or of a program text. -/
def wording? : Value → Option String
  | .text s | .code s _ => some s
  | _ => none

/-- The bytes of a value that is made of bytes, whatever their subtype. -/
def bytes? : Value → Option (List UInt8)
  | .bytes b | .binary _ b => some b
  | _ => none

/-- The integer that a value is, marked as long or not. -/
def integer? : Value → Option Int
  | .int n | .long n => some n
  | _ => none

/-- Whether a value counts as present where a choice is made on it: null, absence, false, zero and
    what is empty do not. -/
def truthy : Value → Bool
  | .null | .absent => false
  | .bool b => b
  | .int n | .long n => n != 0
  | .float x => !x.isZero
  | .text s | .code s _ => s != ""
  | .bytes b | .binary _ b => !b.isEmpty
  | .array xs => !xs.isEmpty
  | .object fs => !fs.isEmpty
  | .decimal _ | .ident _ | .instant _ | .timestamp _ _ | .pattern _ _ | .least | .greatest
  | .reference _ _ _ _ => true

/-- The name of a value's kind. -/
def kindName : Value → String
  | .null => "NoneType"
  | .absent => "_Absent"
  | .bool _ => "bool"
  | .int _ => "int"
  | .long _ => "Int64"
  | .float _ => "float"
  | .decimal _ => "Decimal128"
  | .text _ => "str"
  | .code _ _ => "Code"
  | .bytes _ => "bytes"
  | .binary _ _ => "Binary"
  | .ident _ => "ObjectId"
  | .instant _ => "datetime"
  | .timestamp _ _ => "Timestamp"
  | .pattern _ _ => "Regex"
  | .least => "MinKey"
  | .greatest => "MaxKey"
  | .reference _ _ _ _ => "DBRef"
  | .array _ => "list"
  | .object _ => "dict"

/-- The name of a value's kind as faults spell it, which is longer for instants. -/
def fullKindName : Value → String
  | .instant _ => "datetime.datetime"
  | v => v.kindName

end Value

end DocRepair
