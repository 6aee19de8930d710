import DocRepair.Value.Text
/-!
# `DocRepair.Fault` — why an operation stops

A failure is what the engine itself reports: a kind that callers can act on, a message, and a
context of named values. Everything else that can stop an operation is a fault of its surroundings:
a store that rejects a write, or an argument of a shape that the operation cannot work on.

## Contents

* `Kind` — the kinds of failure;
* `Failure` — a reported failure, and the object that shows it;
* `Issue` — one objection to a request or to settings;
* `FileTrouble` — why a file cannot be used;
* `Fault` — everything that stops an operation, with its literal;
* `Value.literalText` / `Value.plainText` — the texts of a value, where they can be shown.
-/

namespace DocRepair

/-- The kinds of failure that callers tell apart. -/
inductive Kind
  | missingQuery
  | missingField
  | notFound
  | typeMismatch
  | invalidOperation
  | invalidIdentifier
  | notAnArray
  | persistenceFailure
  | general
deriving DecidableEq, Repr, Inhabited

namespace Kind

/-- The name under which a kind is reported. -/
def name : Kind → String
  | .missingQuery => "MissingQuery"
  | .missingField => "MissingField"
  | .notFound => "NotFound"
  | .typeMismatch => "TypeMismatch"
  | .invalidOperation => "InvalidOperation"
  | .invalidIdentifier => "InvalidIdentifier"
  | .notAnArray => "NotAnArray"
  | .persistenceFailure => "PersistenceFailure"
  | .general => "MendError"

/-- The specific kinds. -/
def specific : List Kind :=
  [.missingQuery, .missingField, .notFound, .typeMismatch, .invalidOperation, .invalidIdentifier,
   .notAnArray, .persistenceFailure]

/-- The kind with a given name; the general one for any other name. -/
def ofName (s : String) : Kind :=
  (specific.find? fun k => k.name == s).getD .general

end Kind

/-- A failure that the engine reports. -/
structure Failure where
  kind : Kind
  message : String
  context : Fields := []
deriving Repr, Inhabited

namespace Failure

/-- The object that shows a kind, a message and a context; an empty context is left out. -/
def shown (kind message context : Value) : Value :=
  .object ([("kind", kind), ("message", message)] ++
    (if context.truthy then [("context", context)] else []))

/-- The object that shows a failure. -/
def toValue (f : Failure) : Value :=
  shown (.text f.kind.name) (.text f.message) (.object f.context)

/-- The line that shows a kind and a message. -/
def lineOf (kind : Kind) (message : Value) : String :=
  kind.name ++ ": " ++ message.plain

/-- The line that shows a failure. -/
def line (f : Failure) : String :=
  lineOf f.kind (.text f.message)

/-- A context with the literal of a cause. -/
def withCause (context : Fields) (literal : String) : Fields :=
  Fields.set context "cause" (.text literal)

/-- Adds a named value to the context, unless the name is taken. -/
def addContext (f : Failure) (name : String) (v : Value) : Failure :=
  if Fields.has f.context name then f else { f with context := Fields.set f.context name v }

end Failure

/-- One objection to a request or to settings: its category, where it lies, and its wording. -/
structure Issue where
  category : String
  location : List String
  message : String
deriving DecidableEq, Repr

/-- Why a file or directory cannot be used. -/
inductive FileTrouble
  | missing
  | taken
  | notDirectory
  | isDirectory
  | nameTooLong
deriving DecidableEq, Repr

namespace FileTrouble

/-- The name under which a trouble is reported. -/
def name : FileTrouble → String
  | .missing => "FileNotFoundError"
  | .taken => "FileExistsError"
  | .notDirectory => "NotADirectoryError"
  | .isDirectory => "IsADirectoryError"
  | .nameTooLong => "OSError"

/-- The number of a trouble. -/
def number : FileTrouble → Nat
  | .missing => 2
  | .taken => 17
  | .notDirectory => 20
  | .isDirectory => 21
  | .nameTooLong => 36

/-- The wording of a trouble. -/
def wording : FileTrouble → String
  | .missing => "No such file or directory"
  | .taken => "File exists"
  | .notDirectory => "Not a directory"
  | .isDirectory => "Is a directory"
  | .nameTooLong => "File name too long"

end FileTrouble

/-- What stops an operation. -/
inductive Fault
  /-- A failure that the engine reports. -/
  | failure (f : Failure)
  /-- A store rejects a write or a lookup. -/
  | rejected (reason : String)
  /-- A value of the right type that makes no sense where it stands. -/
  | badValue (reason : String)
  /-- An integer with more decimal digits than are written. -/
  | endlessInteger
  /-- A value of a type that does not allow what is done with it. -/
  | wrongType (reason : String)
  /-- A value without a part that is asked of it. -/
  | noSuchPart (reason : String)
  /-- A position beyond the end of an array. -/
  | outOfRange
  /-- A text that is not in the exchange format. -/
  | malformedText
  /-- A file that cannot be used. -/
  | file (trouble : FileTrouble)
  /-- An identifier in a file or request that is none. -/
  | badIdentifierText (reason : String)
  /-- An object without a member that is asked of it. -/
  | noMember (name : String)
  /-- A number or an instant beyond all bounds. -/
  | overflow (reason : String)
  /-- A number of milliseconds that no calendar reaches. -/
  | beyondCalendar
  /-- A text that is not base 64. -/
  | badBase64 (reason : String)
  /-- Bytes that encode no text. -/
  | undecodable
  /-- A text that cannot be encoded as bytes, and where: its first run of halves of pairs. -/
  | unencodable (text : String) (start stop : Nat)
  /-- A text that is no decimal number of the format. -/
  | badDecimal (refusal : Decimal.Refusal)
  /-- Settings that are not acceptable. -/
  | invalid (issues : List Issue)
deriving Repr

/-- The name under which a refusal to read a decimal number is reported. -/
def Decimal.Refusal.name : Decimal.Refusal → String
  | .malformed => "InvalidOperation"
  | .overflow => "Overflow"
  | .inexact => "Inexact"
  | .payload => "ValueError"

namespace Fault

/-- The name under which a fault is reported. -/
def name : Fault → String
  | .failure f => f.kind.name
  | .rejected _ => "StoreError"
  | .badValue _ | .endlessInteger => "ValueError"
  | .wrongType _ => "TypeError"
  | .noSuchPart _ => "AttributeError"
  | .outOfRange => "IndexError"
  | .malformedText => "JSONDecodeError"
  | .file trouble => trouble.name
  | .badIdentifierText _ => "InvalidId"
  | .noMember _ => "KeyError"
  | .overflow _ => "OverflowError"
  | .beyondCalendar => "InvalidBSON"
  | .badBase64 _ => "Error"
  | .undecodable => "UnicodeDecodeError"
  | .unencodable _ _ _ => "UnicodeEncodeError"
  | .badDecimal refusal => refusal.name
  | .invalid _ => "ValidationError"

/-- The wording of a fault. -/
def message : Fault → String
  | .failure f => f.message
  | .rejected reason | .badValue reason | .wrongType reason | .noSuchPart reason
  | .badIdentifierText reason | .overflow reason | .badBase64 reason => reason
  | .endlessInteger => "Exceeds the limit (" ++ toString Text.Digit.limit ++
      " digits) for integer string conversion; use sys.set_int_max_str_digits() to increase the limit"
  | .noMember name => name
  | .outOfRange => "list assignment index out of range"
  | .file trouble => trouble.wording
  | .unencodable _ _ _ => "surrogates not allowed"
  | .malformedText | .beyondCalendar | .undecodable | .badDecimal _ | .invalid _ => ""

/-- What the literal of a fault shows in front of its wording: the number of a trouble with a file,
    or the place in a text that cannot be encoded. -/
def details : Fault → List String
  | .file trouble => [toString trouble.number]
  | .unencodable text start stop =>
    [Text.Quoted.quote "utf-8", Text.Quoted.quote text, toString start, toString stop]
  | _ => []

/-- The name of a fault with its details and its quoted wording. -/
def literal (fault : Fault) : String :=
  Value.called fault.name (fault.details ++ [Text.Quoted.quote fault.message])

/-- Stops at the first half of a pair in a text that is not allowed where the text becomes bytes. -/
def unlessEncodable (allowed : Nat → Bool) (text : String) : Except Fault Unit :=
  match Text.Surrogate.firstRun? allowed text with
  | some (start, stop) => .error (.unencodable text start stop)
  | none => .ok ()

/-- The line that shows a fault. -/
def line (fault : Fault) : String :=
  if fault.message = "" then fault.name else fault.name ++ ": " ++ fault.message

/-- Whether a fault is a failure that the engine reports. -/
def isFailure : Fault → Bool
  | .failure _ => true
  | _ => false

/-- Something that has no members is asked for them. -/
def notIterable (v : Value) : Fault :=
  .wrongType ("'" ++ v.fullKindName ++ "' object is not iterable")

/-- A part that only another type has is asked of a value. -/
def lacks (v : Value) (part : String) : Fault :=
  .noSuchPart ("'" ++ v.fullKindName ++ "' object has no attribute '" ++ part ++ "'")

/-- A field is assigned in a value that has none. -/
def notAssignable (v : Value) : Fault :=
  .wrongType ("'" ++ v.fullKindName ++ "' object does not support item assignment")

/-- An instant outside the years that a calendar holds. -/
def dateOverflow : Fault := .overflow "date value out of range"

/-- An integer with more decimal digits than are read. -/
def longInteger (digits : Nat) : Fault :=
  .badValue ("Exceeds the limit (" ++ toString Text.Digit.limit ++
    " digits) for integer string conversion: value has " ++ toString digits ++
    " digits; use sys.set_int_max_str_digits() to increase the limit")

/-- Something with a given literal that spells no integer in a base. -/
def notInteger (base : Nat) (literal : String) : Fault :=
  .badValue ("invalid literal for int() with base " ++ toString base ++ ": " ++
    String.ofList (literal.toList.take 200))

/-- A container is used where only a hashable value may stand. -/
def unhashable (v : Value) : Fault :=
  .wrongType ("unhashable type: '" ++ v.fullKindName ++ "'")

end Fault

/-- Stops with a failure of the engine. -/
def fail {α : Type} (f : Failure) : Except Fault α :=
  .error (.failure f)

/-! ## Values as they are shown -/

namespace Value

/-- The literal of a value as it is shown; an integer with too many digits stops it. -/
def literalText (v : Value) : Except Fault String :=
  if v.hasLiteral then .ok v.literal else .error .endlessInteger

/-- The plain text of a value as it is shown; an integer with too many digits stops it. -/
def plainText (v : Value) : Except Fault String :=
  if v.hasPlain then .ok v.plain else .error .endlessInteger

theorem literalText_ok {v : Value} {s : String} :
    v.literalText = .ok s ↔ v.hasLiteral = true ∧ v.literal = s := by
  unfold literalText
  split <;> simp_all

theorem plainText_ok {v : Value} {s : String} :
    v.plainText = .ok s ↔ v.hasPlain = true ∧ v.plain = s := by
  unfold plainText
  split <;> simp_all

theorem literalText_error {v : Value} {fault : Fault} :
    v.literalText = .error fault ↔ v.hasLiteral = false ∧ fault = .endlessInteger := by
  unfold literalText
  cases v.hasLiteral <;> simp [@eq_comm _ _ fault]

theorem plainText_error {v : Value} {fault : Fault} :
    v.plainText = .error fault ↔ v.hasPlain = false ∧ fault = .endlessInteger := by
  unfold plainText
  cases v.hasPlain <;> simp [@eq_comm _ _ fault]

end Value

/-- A rejection for a reason that shows values, or what stops them from being shown. -/
def Fault.rejectedFor (reason : Except Fault String) : Fault :=
  match reason with
  | .ok shown => .rejected shown
  | .error fault => fault

/-- Stops with a failure whose message shows a value by its plain text. -/
def failShowing {α : Type} (v : Value) (f : String → Failure) : Except Fault α := do
  fail (f (← v.plainText))

section Showing

variable {α : Type} {v : Value} {f : String → Failure}

@[simp] theorem failShowing_ne_ok {a : α} : failShowing v f ≠ .ok a := by
  unfold failShowing
  cases v.plainText <;> exact fun h => nomatch h

end Showing

end DocRepair
