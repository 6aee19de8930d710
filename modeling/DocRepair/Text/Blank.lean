/-!
# `DocRepair.Text.Blank` — white space at the ends of a text

## Contents

* `isBlank` — the characters with the white-space property;
* `trim` — a text without the blanks at its two ends.
-/

namespace DocRepair.Text.Blank

/-- The characters with the white-space property. -/
def isBlank (c : Char) : Bool :=
  let n := c.toNat
  (9 ≤ n && n ≤ 13) || n == 0x20 || n == 0x85 || n == 0xa0 || n == 0x1680 ||
    (0x2000 ≤ n && n ≤ 0x200a) || n == 0x2028 || n == 0x2029 || n == 0x202f || n == 0x205f ||
    n == 0x3000

/-- The characters without the blanks at the two ends. -/
def trim (text : List Char) : List Char :=
  ((text.dropWhile isBlank).reverse.dropWhile isBlank).reverse

end DocRepair.Text.Blank
