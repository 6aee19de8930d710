import DocRepair.Text.Hex
import DocRepair.Text.Printable
import DocRepair.Text.Surrogate
/-!
# `DocRepair.Text.Quoted` — text and bytes between quotes

Single quotes, unless the text holds a single quote and no double one. The quote in use and the
backslash are escaped, and so is every character that would not show.

## Contents

* `quote` — a text between quotes;
* `quoteBytes` — bytes between quotes, with a `b` in front.
-/

namespace DocRepair.Text.Quoted

open DocRepair.Text

/-- The single quote. -/
def single : Char := '\x27'

/-- The double quote. -/
def double : Char := '\x22'

/-- The quote that goes around some characters. -/
def mark (text : List Char) : Char :=
  if text.contains single && !text.contains double then double else single

/-- A code point that is not shown, as the shortest of the three numeric escapes. -/
def numeric (n : Nat) : String :=
  if n < 0x100 then "\\x" ++ Hex.padded 2 n
  else if n < 0x10000 then "\\u" ++ Hex.padded 4 n
  else "\\U" ++ Hex.padded 8 n

/-- One character as it stands between the quotes `q`. -/
def escape (q c : Char) : String :=
  if c = q ∨ c = '\\' then String.ofList ['\\', c]
  else if c = '\n' then "\\n"
  else if c = '\r' then "\\r"
  else if c = '\t' then "\\t"
  else if Printable.isPrintable c then c.toString
  else numeric ((Surrogate.unit? c).getD c.toNat)

/-- Characters between the quotes `q`. -/
def between (q : Char) (body : List Char) : String :=
  q.toString ++ String.join (body.map (escape q)) ++ q.toString

/-- A text between quotes. -/
def quote (text : String) : String :=
  between (mark text.toList) text.toList

/-- The character of a byte that is shown as it is; other bytes get an escape of their own. -/
def escapeByte (q : Char) (b : UInt8) : String :=
  let c := Char.ofNat b.toNat
  if b.toNat < 128 then escape q c else numeric b.toNat

/-- Bytes between quotes. -/
def quoteBytes (bytes : List UInt8) : String :=
  let q := mark (bytes.map fun b => Char.ofNat b.toNat)
  "b" ++ q.toString ++ String.join (bytes.map (escapeByte q)) ++ q.toString

end DocRepair.Text.Quoted
