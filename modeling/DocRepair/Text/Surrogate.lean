/-!
# `DocRepair.Text.Surrogate` — halves of pairs that stand alone

The exchange format can spell one half of a UTF-16 pair without the other. Such a half is no
character, so in a text its place is taken by the code point that lies 0x100000 above it, which is
private; in every written form it is shown as the half that it stands for.

## Contents

* `isHalf` — whether a unit is half of a pair;
* `standIn` — the character that takes the place of a half;
* `unit?` — the half that a character stands for, if it stands for one;
* `isWhole` — whether a text is free of halves;
* `firstRun?` — where halves make a text impossible to encode.
-/

namespace DocRepair.Text.Surrogate

/-- Whether a UTF-16 unit is half of a pair. -/
def isHalf (unit : Nat) : Bool := 0xd800 ≤ unit && unit < 0xe000

/-- How far above a half its stand-in lies. -/
def lift : Nat := 0x100000

/-- The character that takes the place of a half. -/
def standIn (unit : Nat) : Char := Char.ofNat (unit + lift)

/-- The half that a character stands for, if it stands for one. -/
def unit? (c : Char) : Option Nat :=
  if isHalf (c.toNat - lift) then some (c.toNat - lift) else none

/-- Whether a text is free of halves. -/
def isWhole (text : String) : Bool :=
  text.toList.all fun c => (unit? c).isNone

/-- Whether a half stands for a byte that is no character. The names of files may hold such bytes. -/
def isByte (unit : Nat) : Bool := 0xdc80 ≤ unit && unit < 0xdd00

/-- The first run of halves in a text, from the first half on that is not allowed: where it starts
    and where it ends. -/
def firstRun? (allowed : Nat → Bool) (text : String) : Option (Nat × Nat) :=
  let chars := text.toList
  (chars.findIdx? fun c => (unit? c).any fun unit => !allowed unit).map fun start =>
    (start, start + ((chars.drop start).takeWhile fun c => (unit? c).isSome).length)

end DocRepair.Text.Surrogate
