import DocRepair.ExtendedJson.Tags
import DocRepair.ExtendedJson.Writer
import DocRepair.Value.OfJson
/-!
# `DocRepair.ExtendedJson` — values in the exchange format

A text is read into a value step by step: each object is told what it stands for as soon as it is
closed, so identifiers are minted in the order of the closing braces, and an object that stands for
nothing is a fault even where the text ends too early.

## Contents

* `values` — the builder of values;
* `parse` — the value of a text.
-/

namespace DocRepair.ExtendedJson

/-- The builder of values. -/
def values : Json.Builder Fault Supply Value where
  scalar := Value.ofJson
  array := .array
  object := interpret
  refuse := Fault.ofReadError

/-- The value of a text. -/
def parse (text : String) : Draw Value :=
  values.build text

end DocRepair.ExtendedJson
