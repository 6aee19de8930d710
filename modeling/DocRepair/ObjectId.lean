import DocRepair.Text.Hex
/-!
# `DocRepair.ObjectId` — identifiers of twelve bytes

## Contents

* `ObjectId` — twelve bytes;
* `ofBytes?` / `ofText?` — from raw bytes, or from twenty-four hexadecimal digits of either case;
* `text` — the digits in lower case;
* `ofNat` — a number as an identifier, its last byte the least significant.
-/

namespace DocRepair

/-- Twelve bytes that name a document. -/
structure ObjectId where
  bytes : List UInt8
  length_eq : bytes.length = 12
deriving DecidableEq, Repr

namespace ObjectId

open DocRepair.Text

/-- The identifier with the given bytes, if they are twelve. -/
def ofBytes? (bytes : List UInt8) : Option ObjectId :=
  if h : bytes.length = 12 then some ⟨bytes, h⟩ else none

/-- The identifier that twenty-four hexadecimal digits spell. -/
def ofText? (text : String) : Option ObjectId :=
  (Hex.decode? text).bind ofBytes?

/-- The twenty-four digits of an identifier. -/
def text (id : ObjectId) : String :=
  Hex.encode id.bytes

/-- The identifier whose bytes are the digits of a number in base 256. -/
def ofNat (n : Nat) : ObjectId where
  bytes := (List.range 12).map fun i => UInt8.ofNat (n / Nat.pow 256 (11 - i))
  length_eq := by simp

instance : Inhabited ObjectId := ⟨ofNat 0⟩

theorem ofBytes?_bytes (id : ObjectId) : ofBytes? id.bytes = some id := by
  simp [ofBytes?, id.length_eq]

/-- Reading an identifier's own digits gives it back. -/
theorem ofText?_text (id : ObjectId) : ofText? id.text = some id := by
  simp [ofText?, text, Hex.decode?, Hex.encode, Hex.ofDigits?_digits, ofBytes?_bytes]

/-- Two identifiers with the same digits are the same. -/
theorem text_injective {a b : ObjectId} (h : a.text = b.text) : a = b := by
  have ha := ofText?_text a
  rw [h, ofText?_text b] at ha
  exact (Option.some.inj ha).symm

end ObjectId

end DocRepair
