import DocRepair.Value.Members
import DocRepair.Value.Same
/-!
# `DocRepair.Identity` — identifiers of documents and elements

An identifier is any value but null. Stores and duplicate checks compare its text; selectors and
filters compare the values themselves, through their texts as soon as one of them is an object
identifier. Whoever needs the text of an identifier stops where an integer in it has too many digits
to be shown.

## Contents

* `convert` — the object identifier that a value stands for;
* `key` / `filing` — the text of a value that it is filed under, and that text where it can be shown;
* `agree` / `compare` — whether two identifiers denote the same thing, and the comparison itself,
  which may have to show them;
* `ofElement` — the identifier that an element carries.
-/

namespace DocRepair

namespace Failure

/-- Null in the place of an identifier. -/
def missingIdentifier : Failure :=
  ⟨.invalidIdentifier, "identifier value is missing", [("value", .text "None")]⟩

/-- A value, shown by its literal, that spells no identifier. -/
def badIdentifier (literal : String) : Failure :=
  ⟨.invalidIdentifier, "cannot convert " ++ literal ++ " to an identifier",
    [("value", .text literal)]⟩

end Failure

namespace Identity

/-- The name of the identifier field, unless the settings give another. -/
def defaultField : String := "_id"

/-- The object identifier that a value spells: itself, its twelve bytes, or its digits. -/
def ofValue? : Value → Option ObjectId
  | .ident id => some id
  | .bytes bs | .binary _ bs => ObjectId.ofBytes? bs
  | .text s | .code s _ => ObjectId.ofText? s
  | _ => none

/-- The object identifier that a value stands for. -/
def convert (v : Value) : Except Fault ObjectId :=
  match ofValue? v with
  | some id => .ok id
  | none =>
    if v.isNull then fail .missingIdentifier else do fail (.badIdentifier (← v.literalText))

/-- The text of a value that it is filed under; null has none. -/
def key : Value → Option String
  | .null => none
  | v => some v.plain

/-- The key under which a value is filed. A value that cannot be shown is filed under none. -/
def filing (v : Value) : Except Fault (Option String) :=
  if v.hasPlain then .ok (key v) else .error .endlessInteger

/-- Whether a value is an object identifier. -/
def isIdent : Value → Bool
  | .ident _ => true
  | _ => false

/-- Whether two identifiers denote the same thing; null denotes nothing. -/
def agree (left right : Value) : Bool :=
  if left.isNull || right.isNull then false
  else if isIdent left || isIdent right then left.plain == right.plain
  else left.same right

/-- Whether two identifiers can be compared: beside an object identifier both have to be shown. -/
def comparable (left right : Value) : Bool :=
  left.isNull || right.isNull || !(isIdent left || isIdent right) ||
    left.hasPlain && right.hasPlain

/-- The comparison of two identifiers. -/
def compare (left right : Value) : Except Fault Bool :=
  if comparable left right then .ok (agree left right) else .error .endlessInteger

theorem filing_ok {v : Value} {k : Option String} :
    filing v = .ok k ↔ v.hasPlain = true ∧ key v = k := by
  unfold filing
  split <;> simp_all

theorem filing_error {v : Value} {fault : Fault} :
    filing v = .error fault ↔ v.hasPlain = false ∧ fault = .endlessInteger := by
  unfold filing
  cases v.hasPlain <;> simp [@eq_comm _ _ fault]

theorem compare_ok {left right : Value} {b : Bool} :
    compare left right = .ok b ↔ comparable left right = true ∧ agree left right = b := by
  unfold compare
  split <;> simp_all

/-- Identifiers that can be shown can be compared. -/
theorem compare_shown {left right : Value} (first : left.hasPlain = true)
    (second : right.hasPlain = true) : compare left right = .ok (agree left right) := by
  unfold compare comparable
  simp [first, second]

theorem compare_error {left right : Value} {fault : Fault} :
    compare left right = .error fault ↔
      comparable left right = false ∧ fault = .endlessInteger := by
  unfold compare
  cases comparable left right <;> simp [@eq_comm _ _ fault]

/-- The identifier that an element carries: null unless it is an object with that field. -/
def ofElement (idField : String) (element : Value) : Value :=
  Fields.getD element.fields idField

end Identity

end DocRepair
