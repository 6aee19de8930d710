import DocRepair.Fault
import DocRepair.Json.Writer
import DocRepair.Text.Base64
/-!
# `DocRepair.ExtendedJson.Writer` — writing values in the exchange format

Whatever has no form of its own in the exchange format is written as an object with one name that
starts with a dollar sign. The marker of absence has no written form, nor has an instant that lies
before the first year in universal time, nor an integer with more digits than are read. Program text
is written without its scope if that has none.

## Contents

* `encodeInstant` — an instant as a tree;
* `unwritable` / `instead` — a value without a written form, and what stands for it;
* `encode` — a value as a tree;
* `render` — a value as a text.
-/

namespace DocRepair.ExtendedJson

open DocRepair.Text

/-- An object with one name that says how to read it. -/
def tagged (name : String) (v : Json) : Json := .object [(name, v)]

/-- An offset without a colon; universal time has a letter of its own. -/
def compactOffset (seconds : Int) : String :=
  if seconds = 0 then "Z"
  else
    let n := seconds.natAbs
    (if seconds < 0 then "-" else "+") ++ Instant.padded 2 (n / 3600) ++
      Instant.padded 2 (n / 60 % 60) ++
      (if n % 60 = 0 then "" else Instant.padded 2 (n % 60))

/-- An instant from 1970 on by its wall clock, to the millisecond; an earlier one by its number of
    milliseconds. -/
def encodeInstant (t : Instant) : Except Fault Json :=
  if 0 ≤ t.universal then
    let c := t.civil
    let millis := c.micro / 1000
    let fraction := if millis = 0 then "" else "." ++ Instant.padded 3 millis
    .ok (tagged "$date" (.text (Instant.dateText c ++ "T" ++ Instant.timeText c ++ fraction ++
      compactOffset (t.offset.getD 0))))
  else if (Instant.civil ⟨t.universal, none⟩).isValid then
    .ok (tagged "$date" (tagged "$numberLong" (.text (toString (Int.fdiv t.universal 1000)))))
  else .error .dateOverflow

/-- An integer, unless it has too many digits to be written. -/
def encodeInteger (n : Int) : Except Fault Json :=
  if Digit.beyond ≤ n.natAbs then .error .endlessInteger else .ok (.int n)

/-- A number; infinities and not-a-number are written as words. -/
def encodeFloat : Double → Json
  | .nan _ => tagged "$numberDouble" (.text "NaN")
  | .infinite negative =>
    tagged "$numberDouble" (.text (if negative then "-Infinity" else "Infinity"))
  | x => .float x

/-- Bytes with their subtype, in two hexadecimal digits. -/
def encodeBytes (subtype : Nat) (bytes : List UInt8) : Json :=
  tagged "$binary" (.object
    [("base64", .text (String.ofList (Base64.encode bytes))),
     ("subType", .text (Hex.padded 2 subtype))])

/-- The text of a pattern. -/
def sourceText (source : Value) : Except Fault String :=
  match source.wording?, source.bytes? with
  | some s, _ => .ok s
  | none, some bytes => ((String.fromUTF8? ⟨bytes.toArray⟩).map .ok).getD (.error .undecodable)
  | none, none => .error (.lacks source "decode")

/-- A count of a timestamp. -/
def encodeCount : Value → Json
  | .bool b => .bool b
  | v => .int (v.integer?.getD 0)

/-- A value of a type that has no written form. -/
def unwritable (kindName : String) : Fault :=
  .wrongType ("Object of type " ++ kindName ++ " is not JSON serializable")

/-- Stops if a reference has a field that hides how to write it. -/
def writable (extra : Fields) : Except Fault Unit :=
  match Fields.get? extra "items" with
  | some v => .error (.wrongType ("'" ++ v.fullKindName ++ "' object is not callable"))
  | none =>
    if Fields.has extra "__iter__" then .error (.wrongType "'DBRef' object is not iterable")
    else .ok ()

/-- What stands for a part that has no written form. -/
def instead {α : Type} (other : Except Fault α) (r : Except Fault α) : Except Fault α :=
  match r with
  | .error (.wrongType _) => other
  | r => r

/-- Members with others put in. -/
def putAll (members others : List (String × Json)) : List (String × Json) :=
  others.foldl (fun ms m => Json.put ms m.1 m.2) members

mutual

/-- A value as a tree. -/
def encode : Value → Except Fault Json
  | .null => .ok .null
  | .absent => .error (unwritable "_Absent")
  | .bool b => .ok (.bool b)
  | .int n | .long n => encodeInteger n
  | .float x => .ok (encodeFloat x)
  | .decimal d => .ok (tagged "$numberDecimal" (.text d.text))
  | .text s => .ok (.text s)
  | .code s scope =>
    if scope.isNull then .ok (tagged "$code" (.text s))
    else instead (.ok (.text s)) do
      .ok (.object [("$code", .text s), ("$scope", ← encode scope)])
  | .bytes bs => .ok (encodeBytes 0 bs)
  | .binary subtype bs => .ok (encodeBytes subtype bs)
  | .ident id => .ok (tagged "$oid" (.text id.text))
  | .instant t => encodeInstant t
  | .timestamp time increment => .ok (tagged "$timestamp"
      (.object [("t", encodeCount time), ("i", encodeCount increment)]))
  | .pattern source options => do
    .ok (tagged "$regularExpression" (.object
      [("pattern", .text (← sourceText source)), ("options", .text (String.ofList options))]))
  | .least => .ok (tagged "$minKey" (.int 1))
  | .greatest => .ok (tagged "$maxKey" (.int 1))
  | .reference collection id database extra => do
    writable extra
    instead (.error (unwritable "DBRef")) do
      let known := [("$ref", ← encode collection), ("$id", ← encode id)]
      let place ← if database.isNull then .ok [] else do .ok [("$db", ← encode database)]
      .ok (.object (putAll (known ++ place) (← encodeFields extra)))
  | .array xs => do .ok (.array (← encodeItems xs))
  | .object fs => do .ok (.object (← encodeFields fs))

/-- Items as trees. -/
def encodeItems : List Value → Except Fault (List Json)
  | [] => .ok []
  | x :: rest => do .ok ((← encode x) :: (← encodeItems rest))

/-- Fields as members. -/
def encodeFields : List (String × Value) → Except Fault (List (String × Json))
  | [] => .ok []
  | (k, v) :: rest => do .ok ((k, ← encode v) :: (← encodeFields rest))

end

/-- Writes a value, one item or field to a line. -/
def render (v : Value) : Except Fault String := do
  .ok (← encode v).indented

end DocRepair.ExtendedJson
