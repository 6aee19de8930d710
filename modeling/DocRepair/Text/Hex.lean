/-!
# `DocRepair.Text.Hex` — bytes as hexadecimal text

Two lower-case digits per byte when written; either case when read.

## Contents

* `digit` / `digitValue?` — one hexadecimal digit and its value;
* `encode` / `decode?` — a list of bytes and its text;
* `padded` — a number as hexadecimal text of at least a given width.
-/

namespace DocRepair.Text.Hex

/-- The lower-case digit of a value below sixteen. -/
def digit (n : Nat) : Char :=
  if n < 10 then Char.ofNat (48 + n) else Char.ofNat (87 + n)

/-- The value of a digit in either case. -/
def digitValue? (c : Char) : Option Nat :=
  if '0' ≤ c ∧ c ≤ '9' then some (c.toNat - 48)
  else if 'a' ≤ c ∧ c ≤ 'f' then some (c.toNat - 87)
  else if 'A' ≤ c ∧ c ≤ 'F' then some (c.toNat - 55)
  else none

/-- The digits of a list of bytes, two for each. -/
def digits : List UInt8 → List Char
  | [] => []
  | b :: rest => digit (b.toNat / 16) :: digit (b.toNat % 16) :: digits rest

/-- Bytes as text. -/
def encode (bytes : List UInt8) : String :=
  String.ofList (digits bytes)

/-- The bytes that a run of digits spells, two digits for each. -/
def ofDigits? : List Char → Option (List UInt8)
  | [] => some []
  | [_] => none
  | a :: b :: rest =>
    match digitValue? a, digitValue? b with
    | some high, some low => (ofDigits? rest).map (UInt8.ofNat (16 * high + low) :: ·)
    | _, _ => none

/-- The bytes of a text that is nothing but pairs of digits. -/
def decode? (text : String) : Option (List UInt8) :=
  ofDigits? text.toList

/-- A number in lower-case digits, led by zeros up to `width`. -/
def padded (width n : Nat) : String :=
  let shown := Nat.toDigits 16 n
  String.ofList (List.replicate (width - shown.length) '0' ++ shown)

theorem digitValue?_digit {n : Nat} (h : n < 16) : digitValue? (digit n) = some n := by
  have table : ∀ m : Fin 16, digitValue? (digit m) = some m.val := by decide
  exact table ⟨n, h⟩

/-- Reading undoes writing. -/
theorem ofDigits?_digits (bytes : List UInt8) : ofDigits? (digits bytes) = some bytes := by
  induction bytes with
  | nil => rfl
  | cons b rest ih =>
    have bound := b.toNat_lt
    have whole : 16 * (b.toNat / 16) + b.toNat % 16 = b.toNat := by omega
    simp [digits, ofDigits?, ih, whole, digitValue?_digit (show b.toNat / 16 < 16 by omega),
      digitValue?_digit (show b.toNat % 16 < 16 by omega)]

end DocRepair.Text.Hex
