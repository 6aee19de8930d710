import DocRepair.Json
import DocRepair.Text.Hex
import DocRepair.Text.Surrogate
import DocRepair.Double.Shortest
/-!
# `DocRepair.Json.Writer` — writing the exchange format

The text is ASCII: other characters are written as escapes of their UTF-16 units.

## Contents

* `quoted` — a string with its quotes;
* `compact` — a tree on one line, without blanks;
* `indented` — a tree with one item or member to a line.
-/

namespace DocRepair.Json

open DocRepair.Text

/-- The escape of one UTF-16 unit. -/
def unitText (n : Nat) : String := "\\u" ++ Hex.padded 4 n

/-- One character inside a string. -/
def charText (c : Char) : String :=
  let n := c.toNat
  if c = '\x22' ∨ c = '\\' then String.ofList ['\\', c]
  else if c = '\n' then "\\n"
  else if c = '\r' then "\\r"
  else if c = '\t' then "\\t"
  else if c = '\x08' then "\\b"
  else if c = '\x0c' then "\\f"
  else if 0x20 ≤ n ∧ n < 0x7f then c.toString
  else if n < 0x10000 then unitText n
  else if let some unit := Surrogate.unit? c then unitText unit
  else unitText (0xd800 + (n - 0x10000) / 0x400) ++ unitText (0xdc00 + (n - 0x10000) % 0x400)

/-- A string with its quotes. -/
def quoted (s : String) : String :=
  "\x22" ++ String.join (s.toList.map charText) ++ "\x22"

/-- The text of a number that is not an integer. -/
def floatText : Double → String
  | .nan _ => "NaN"
  | .infinite negative => if negative then "-Infinity" else "Infinity"
  | x => x.text

mutual

/-- A tree on one line. -/
def compact : Json → String
  | .null => "null"
  | .bool b => if b then "true" else "false"
  | .int n => toString n
  | .float x => floatText x
  | .text s => quoted s
  | .array items => "[" ++ ",".intercalate (compactItems items) ++ "]"
  | .object members => "\x7b" ++ ",".intercalate (compactMembers members) ++ "\x7d"

/-- The items of an array, each on one line. -/
def compactItems : List Json → List String
  | [] => []
  | x :: rest => compact x :: compactItems rest

/-- The members of an object, each on one line. -/
def compactMembers : List (String × Json) → List String
  | [] => []
  | (k, v) :: rest => (quoted k ++ ":" ++ compact v) :: compactMembers rest

end

/-- The start of a line at a depth: two blanks for each level. -/
def lineStart (depth : Nat) : String :=
  "\n" ++ String.ofList (List.replicate (2 * depth) ' ')

/-- Lines between brackets, at a depth; nothing at all between the brackets of what is empty. -/
def bracketed (opening closing : String) (depth : Nat) (lines : List String) : String :=
  if lines.isEmpty then opening ++ closing
  else
    opening ++ lineStart (depth + 1) ++ ("," ++ lineStart (depth + 1)).intercalate lines ++
      lineStart depth ++ closing

mutual

/-- A tree with one item or member to a line, starting at a depth. -/
def indentedAt (depth : Nat) : Json → String
  | .array items => bracketed "[" "]" depth (indentedItems (depth + 1) items)
  | .object members => bracketed "\x7b" "\x7d" depth (indentedMembers (depth + 1) members)
  | tree => compact tree

/-- The items of an array, each starting at a depth. -/
def indentedItems (depth : Nat) : List Json → List String
  | [] => []
  | x :: rest => indentedAt depth x :: indentedItems depth rest

/-- The members of an object, each starting at a depth. -/
def indentedMembers (depth : Nat) : List (String × Json) → List String
  | [] => []
  | (k, v) :: rest => (quoted k ++ ": " ++ indentedAt depth v) :: indentedMembers depth rest

end

/-- A tree with one item or member to a line. -/
def indented (tree : Json) : String := indentedAt 0 tree

end DocRepair.Json
