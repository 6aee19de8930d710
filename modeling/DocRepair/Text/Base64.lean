/-!
# `DocRepair.Text.Base64` — bytes in base 64

Three bytes are written as four digits, and signs of equality fill up the last four. When read,
characters that are no digits are passed over, and the filling of an unfinished four ends the text,
whatever stands behind it.

## Contents

* `encode` — bytes as digits;
* `decode?` — the bytes of a text.
-/

namespace DocRepair.Text.Base64

/-- The digits. -/
def alphabet : List Char :=
  "ABCDEFGHIJKLMNOPQRSTUVWXYZabcdefghijklmnopqrstuvwxyz0123456789+/".toList

/-- The digit of a value below sixty-four. -/
def digit (n : Nat) : Char := alphabet.getD (n % 64) 'A'

/-- The value of a digit. -/
def digitValue? (c : Char) : Option Nat := alphabet.findIdx? (· == c)

/-- Bytes as digits, three at a time. -/
def encode : List UInt8 → List Char
  | [] => []
  | [a] =>
    let n := a.toNat * 0x10000
    [digit (n / 0x40000), digit (n / 0x1000), '=', '=']
  | [a, b] =>
    let n := a.toNat * 0x10000 + b.toNat * 0x100
    [digit (n / 0x40000), digit (n / 0x1000), digit (n / 0x40), '=']
  | a :: b :: c :: rest =>
    let n := a.toNat * 0x10000 + b.toNat * 0x100 + c.toNat
    digit (n / 0x40000) :: digit (n / 0x1000) :: digit (n / 0x40) :: digit n :: encode rest

/-- The whole bytes of up to four values below sixty-four. -/
def bytes : List Nat → List UInt8
  | a :: b :: rest =>
    let n := a * 0x40000 + b * 0x1000 + rest.headD 0 * 0x40 + rest.getD 1 0
    [UInt8.ofNat (n / 0x10000), UInt8.ofNat (n / 0x100), UInt8.ofNat n].take (rest.length + 1)
  | _ => []

/-- The bytes of a text, behind some values that do not make up four yet and some filling. -/
def decodeFrom : (held : List Nat) → (filling : Nat) → List Char → Option (List UInt8)
  | held, _, [] => if held.isEmpty then some [] else none
  | held, filling, c :: rest =>
    if c = '=' then
      if held.length < 2 then decodeFrom held filling rest
      else if 4 ≤ held.length + (filling + 1) then some (bytes held)
      else decodeFrom held (filling + 1) rest
    else
      match digitValue? c with
      | none => decodeFrom held filling rest
      | some d =>
        if held.length = 3 then
          (decodeFrom [] 0 rest).map (bytes (held ++ [d]) ++ ·)
        else decodeFrom (held ++ [d]) 0 rest

/-- The bytes of a text; none if it ends within four digits. -/
def decode? (text : String) : Option (List UInt8) :=
  decodeFrom [] 0 text.toList

end DocRepair.Text.Base64
