import DocRepair.ExtendedJson.Stamp
import DocRepair.Identity
import DocRepair.Supply
import DocRepair.Text.Base64
/-!
# `DocRepair.ExtendedJson.Tags` — objects that stand for something else

An object stands for something else as soon as one of its names says how to read it; of several such
names the first decides. Most of them must then be the only one.

## Contents

* `only` — an object may have no other name;
* `identifier` … `pointer` — the readings, one for each kind of value;
* `readers` — the names, each with its reading;
* `interpret` — the value of an object.
-/

namespace DocRepair.ExtendedJson

open DocRepair.Text

namespace Tags

/-- A name or a shape that does not fit. -/
def misfit (name : String) (fields : Fields) : Fault :=
  .wrongType ("Bad " ++ name ++ ": " ++ (Value.object fields).literal)

/-- Stops unless an object has no other name. -/
def only (name : String) (fields : Fields) : Except Fault Unit :=
  if fields.length = 1 then .ok () else .error (misfit name fields)

/-- A member that something must have. -/
def member (v : Value) (name : String) : Except Fault Value :=
  match v with
  | .object fs => ((Fields.get? fs name).map Except.ok).getD (.error (.noMember name))
  | other => .error (.wrongType ("'" ++ other.fullKindName ++ "' object is not subscriptable"))

/-! ## Identifiers and numbers -/

/-- An identifier that cannot be read. -/
def badIdentifier (v : Value) : Fault :=
  match v with
  | .text _ | .code _ _ => .badIdentifierText
      (v.literal ++ " is not a valid ObjectId, it must be a 12-byte input or a 24-character hex " ++
        "string")
  | _ => .wrongType ("id must be an instance of (bytes, str, ObjectId), not " ++ v.fullKindName)

/-- The identifier that a value stands for; null stands for a fresh one. -/
def identifier (fields : Fields) (v : Value) : Draw Value := do
  Draw.lift (only "$oid" fields)
  match Identity.ofValue? v, v with
  | some id, _ => return .ident id
  | none, .null => return .ident (← Draw.mint)
  | none, v => Draw.lift (.error (badIdentifier v))

/-- An instant. -/
def instant (fields : Fields) (v : Value) : Except Fault Value := do
  only "$date" fields
  .ok (.instant (← Stamp.ofValue v))

/-- An integer marked as long. -/
def longInteger (fields : Fields) (v : Value) : Except Fault Value := do
  only "$numberLong" fields
  .ok (.long (← Integer.ofValue v))

/-- An integer, from its text. -/
def integer (fields : Fields) (v : Value) : Except Fault Value := do
  only "$numberInt" fields
  match v.wording? with
  | some _ => .ok (.int (← Integer.spelled 10 v))
  | none => .error (misfit "$numberInt" fields)

/-- A number of the floating-point format, from its text. -/
def double (fields : Fields) (v : Value) : Draw Value := do
  Draw.lift (only "$numberDouble" fields)
  match v.wording? with
  | none => Draw.lift (.error (misfit "$numberDouble" fields))
  | some s =>
    match Numeral.double? s with
    | none => Draw.lift (.error (.badValue
        ("could not convert string to float: " ++ v.literal)))
    | some (.nan _) => return .float (.nan (← Draw.label))
    | some x => return .float x

/-- A decimal number, from its text. -/
def decimal (fields : Fields) (v : Value) : Except Fault Value := do
  only "$numberDecimal" fields
  match v.wording? with
  | none => .error (misfit "$numberDecimal" fields)
  | some s =>
    match Decimal.ofText s with
    | .ok d => .ok (.decimal d)
    | .error .payload => .error (.badValue "NaN with debug payload is not supported")
    | .error refusal => .error (.badDecimal refusal)

/-- One of the two values at the ends of the order. -/
def extreme (name : String) (result : Value) (fields : Fields) (v : Value) : Except Fault Value :=
  match v with
  | .int n => do
    only name fields
    if n = 1 then .ok result else .error (misfit name fields)
  | _ => .error (misfit name fields)

/-! ## Bytes -/

/-- The bytes of a text in base 64. -/
def base64 (text : String) : Except Fault (List UInt8) := do
  Fault.unlessEncodable (fun _ => false) text
  ((Base64.decode? text).map Except.ok).getD (.error (.badBase64 "Incorrect padding"))

/-- Bytes with a subtype; those of subtype zero are plain. -/
def withSubtype (subtype : Int) (bytes : List UInt8) : Except Fault Value :=
  if subtype = 0 then .ok (.bytes bytes)
  else if subtype < 0 ∨ 256 ≤ subtype then
    .error (.badValue "subtype must be contained in [0, 256)")
  else .ok (.binary subtype.toNat bytes)

/-- The first subtype of a range that only a negative number spells, of which the last two digits
    count. -/
def firstNegative : Int := 0xffffff80

/-- The subtype that a separate name gives: a number, or its hexadecimal text. -/
def separateSubtype (v : Value) : Except Fault Int := do
  let digits :=
    match v with
    | .int n | .long n => if n < firstNegative then v else .text (Hex.padded 2 n.toNat)
    | v => v
  match digits with
  | .bool b => .ok (if b then 1 else 0)
  | .int n | .long n => .ok n
  | digits => do
    let n ← Integer.spelled 16 digits
    if n < firstNegative then .ok n
    else
      match digits.wording?, digits.bytes? with
      | some s, _ => Integer.ofText 16 (String.ofList (s.toList.drop 6))
      | none, bytes => Integer.spelled 16 (.bytes ((bytes.getD []).drop 6))

/-- Bytes in base 64 with their subtype: both inside, or the subtype under a name beside. -/
def binary (fields : Fields) (v : Value) : Except Fault Value := do
  match Fields.get? fields "$type" with
  | some kind =>
    let subtype ← separateSubtype kind
    match v.wording? with
    | some s => withSubtype subtype (← base64 s)
    | none => .error (.lacks v "encode")
  | none =>
    let digits ← member v "base64"
    let subtype ← member v "subType"
    match digits.wording?, subtype.wording? with
    | some digits, some kind =>
      if 2 < kind.length || v.fields.length != 2 then .error (misfit "$binary" fields)
      else do
        let bytes ← base64 digits
        withSubtype (← Integer.spelled 16 subtype) bytes
    | _, _ => .error (misfit "$binary" fields)

/-- A text without all occurrences of a word. -/
def without (word : List Char) : (fuel : Nat) → List Char → List Char
  | 0, chars => chars
  | _, [] => []
  | fuel + 1, c :: rest =>
    if word.isPrefixOf (c :: rest) then without word fuel ((c :: rest).drop word.length)
    else c :: without word fuel rest

/-- The hexadecimal digits of a universally unique identifier, without words, braces and dashes. -/
def uuidDigits (text : String) : List Char :=
  let chars := text.toList
  let chars := without "urn:".toList chars.length chars
  let chars := without "uuid:".toList chars.length chars
  let brace (c : Char) : Bool := c == '\x7b' || c == '\x7d'
  ((chars.dropWhile brace).reverse.dropWhile brace).reverse.filter (· != '-')

/-- A universally unique identifier, as bytes of subtype four. -/
def uuid (fields : Fields) (v : Value) : Except Fault Value := do
  only "$uuid" fields
  match v.wording? with
  | none => .error (misfit "$uuid" fields)
  | some s =>
    let digits := uuidDigits s
    if digits.length != 32 then .error (.badValue "badly formed hexadecimal UUID string")
    else do
      let n ← Integer.ofText 16 (String.ofList digits)
      if n < 0 then .error (.badValue "int is out of range (need a 128-bit value)")
      else .ok (.binary 4
        ((List.range 16).map fun i => UInt8.ofNat (n.toNat / Nat.pow 256 (15 - i))))

/-! ## Texts -/

/-- The letters of a pattern's options, in the order in which they are written. -/
def optionLetters : List Char := ['i', 'l', 'm', 's', 'u', 'x']

/-- The options among some letters. -/
def options (letters : List Char) : List Char :=
  optionLetters.filter letters.contains

/-- The letter that a member of a list of options is; other members are passed over if they may
    serve as a key. -/
def optionLetter (v : Value) : Except Fault (Option Char) :=
  match v with
  | .text s =>
    match s.toList with
    | [c] => .ok (some c)
    | _ => .ok none
  | other => if other.isHashable then .ok none else .error (.unhashable other)

/-- A pattern with the options beside it; an object unless the pattern is a text or bytes. -/
def pattern (fields : Fields) (v : Value) : Except Fault Value := do
  if v.wording?.isNone && v.bytes?.isNone then .ok (.object fields)
  else do
    let members ← ((Fields.get? fields "$options").getD (.text "")).members
    .ok (.pattern v (options ((← members.mapM optionLetter).filterMap id)))

/-- A pattern with the options inside. -/
def regularExpression (fields : Fields) (v : Value) : Except Fault Value := do
  only "$regularExpression" fields
  match v with
  | .object inner =>
    if inner.length != 2 then .error (misfit "$regularExpression" fields)
    else do
      let letters ← member v "options"
      match letters.wording? with
      | none => .error (misfit "$regularExpression" fields)
      | some letters =>
        let source ← member v "pattern"
        if source.wording?.isNone && source.bytes?.isNone then
          .error (misfit "$regularExpression" fields)
        else .ok (.pattern source (options letters.toList))
  | _ => .error (misfit "$regularExpression" fields)

/-- Program text, with the variables of its scope if they are given. -/
def code (fields : Fields) (v : Value) : Except Fault Value := do
  if fields.any fun f => f.1 != "$code" && f.1 != "$scope" then .error (misfit "$code" fields)
  else
    match v with
    | .text s =>
      match Fields.getD fields "$scope" with
      | .null => .ok (.code s .null)
      | .object scope => .ok (.code s (.object scope))
      | _ => .error (misfit "$code" fields)
    | .code s inner =>
      match inner, Fields.getD fields "$scope" with
      | inner, .null => .ok (.code s inner)
      | .object inner, .object outer =>
        .ok (.code s (.object (outer.foldl (fun fs f => Fields.set fs f.1 f.2) inner)))
      | _, .object outer => .ok (.code s (.object outer))
      | _, _ => .error (misfit "$code" fields)
    | _ => .error (misfit "$code" fields)

/-- The plain text of anything. -/
def symbol (fields : Fields) (v : Value) : Except Fault Value := do
  only "$symbol" fields
  .ok (.text v.plain)

/-! ## Timestamps and references -/

/-- The first count that is too great for a timestamp. -/
def countLimit : Int := 0x100000000

/-- A count of a timestamp, with the name that complaints give it. -/
def count (name : String) (v : Value) : Except Fault Value :=
  let within (n : Int) : Except Fault Value :=
    if 0 ≤ n ∧ n < countLimit then .ok v
    else .error (.badValue (name ++ " must be contained in [0, 2**32)"))
  match v with
  | .bool b => within (if b then 1 else 0)
  | .int n | .long n => within n
  | _ => .error (.wrongType (name ++ " must be an instance of int"))

/-- The count of an instant: its seconds since 1970. -/
def timeOf (v : Value) : Value :=
  match v with
  | .instant t => .int (Int.fdiv t.universal Instant.perSecond)
  | other => other

/-- A timestamp. -/
def timestamp (v : Value) : Except Fault Value := do
  let time ← member v "t"
  let increment ← member v "i"
  let increment ←
    match increment with
    | .bool _ | .int _ | .long _ => .ok increment
    | _ => count "inc" increment
  let time ← count "time" (timeOf time)
  .ok (.timestamp time (← count "inc" increment))

/-- Names that the parts of a reference already have. -/
def takenNames : List String := ["self", "collection", "id", "database"]

/-- The name under which more fields of a reference may be listed. -/
def moreName : String := "_extra"

/-- A reference to a document, with all other fields as they are; an object unless the names of the
    collection and of the database are texts. -/
def reference (fields : Fields) (v : Value) : Except Fault Value := do
  let database := Fields.getD fields "$db"
  if v.wording?.isSome && Fields.has fields "$id" &&
      (database.isNull || database.wording?.isSome) then do
    let extra := fields.filter fun f => !(["$ref", "$id", "$db"].contains f.1)
    if extra.any fun f => takenNames.contains f.1 then .error (misfit "$ref" fields)
    else do
      let more := Fields.getD extra moreName
      let listed ← if more.truthy then more.asFields else .ok []
      let extra := listed.foldl (fun fs f => Fields.set fs f.1 f.2) (Fields.erase extra moreName)
      .ok (.reference v (Fields.getD fields "$id") database extra)
  else .ok (.object fields)

/-- A reference that must name a collection and an identifier and nothing else. -/
def pointer (fields : Fields) (v : Value) : Except Fault Value := do
  only "$dbPointer" fields
  match v with
  | .reference _ (.ident _) .null extra =>
    if extra.all fun f => ["$ref", "$id"].contains f.1 then .ok v
    else .error (misfit "$dbPointer" fields)
  | _ => .error (misfit "$dbPointer" fields)

/-! ## All of them -/

/-- A reading that does not draw on the supply. -/
def settled (read : Fields → Value → Except Fault Value) (fields : Fields) (v : Value) :
    Draw Value :=
  Draw.lift (read fields v)

/-- The names that say how to read an object. -/
def readers : List (String × (Fields → Value → Draw Value)) :=
  [("$oid", identifier), ("$ref", settled reference), ("$date", settled instant),
   ("$regex", settled pattern), ("$minKey", settled (extreme "$minKey" .least)),
   ("$maxKey", settled (extreme "$maxKey" .greatest)), ("$binary", settled binary),
   ("$code", settled code), ("$uuid", settled uuid), ("$undefined", fun _ _ => pure .null),
   ("$numberLong", settled longInteger), ("$timestamp", settled fun _ => timestamp),
   ("$numberDecimal", settled decimal), ("$dbPointer", settled pointer),
   ("$regularExpression", settled regularExpression),
   ("$symbol", settled symbol), ("$numberInt", settled integer),
   ("$numberDouble", double)]

end Tags

/-- The value of an object whose fields are read: an object, unless one of its names says how to
    read it. -/
def interpret (fields : Fields) : Draw Value :=
  match fields.findSome? fun (name, v) => (Tags.readers.lookup name).map (·, v) with
  | none => pure (.object fields)
  | some (read, v) => read fields v

end DocRepair.ExtendedJson
