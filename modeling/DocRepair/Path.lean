import DocRepair.Value.Members
/-!
# `DocRepair.Path` — dotted paths and lists of segments

A path is a text whose segments are separated by dots, or any value whose members are its segments.
It has at least one segment, and no segment is empty.

## Contents

* `splitDots` — the segments of a text;
* `split` — the segments of a path, or why it is none;
* `join` — segments with dots between them;
* `top` — the first segment, which names a field of the document.
-/

namespace DocRepair

namespace Failure

/-- A path without segments. -/
def emptyPath : Failure :=
  ⟨.invalidOperation, "path must be non-empty", []⟩

/-- A path, shown by its literal, with a segment that has no characters. -/
def emptySegment (literal : String) : Failure :=
  ⟨.invalidOperation, "path " ++ literal ++ " contains an empty segment", []⟩

end Failure

namespace Path

/-- The runs of characters between dots. -/
def splitDots : List Char → List (List Char)
  | [] => [[]]
  | c :: rest =>
    if c = '.' then [] :: splitDots rest
    else
      match splitDots rest with
      | segment :: more => (c :: segment) :: more
      | [] => [[c]]

/-- The segments that a path lists, empty ones included. -/
def segments : Value → Except Fault (List String)
  | .text s => .ok (if s = "" then [] else (splitDots s.toList).map String.ofList)
  | .code s _ => .ok ((splitDots s.toList).map String.ofList)
  | path => do
    let members ← path.members
    members.mapM Value.plainText

/-- The segments of a path. -/
def split (path : Value) : Except Fault (List String) := do
  let names ← segments path
  if names.isEmpty then fail .emptyPath
  else if names.any (· == "") then do fail (.emptySegment (← path.literalText))
  else .ok names

/-- Segments with dots between them. -/
def join (names : List String) : String :=
  ".".intercalate names

/-- The first segment of a path. -/
def top (path : Value) : Except Fault String := do
  let names ← split path
  .ok (names.headD "")

theorem splitDots_ne_nil (cs : List Char) : splitDots cs ≠ [] := by
  cases cs with
  | nil => simp [splitDots]
  | cons c rest =>
    unfold splitDots
    split
    · simp
    · split <;> simp

end Path

end DocRepair
