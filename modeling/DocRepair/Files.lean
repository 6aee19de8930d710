import DocRepair.Fault
/-!
# `DocRepair.Files` — a tree of files

Files and directories by their location, which is the list of names from the root. A path is read
from the working directory, unless it starts at the root; on its way every name but the last must be
that of a directory, and two dots lead to the directory around.

## Contents

* `FilePath` — a path as it is written, without idle parts;
* `Node` / `Files` — what lies at a location, and the tree of it all;
* `locate` — the location that a path names;
* `find?` / `isFound` / `isDirectory` / `read` / `inside` — looking at the tree;
* `Filing` — changes to the tree that may stop with a fault: `makeDirectory`, `makeAll`, `write`.
-/

namespace DocRepair

/-! ## Paths -/

/-- A path as it is written: the slashes that it starts with, if it starts at the root, and the names
    behind them, without empty ones and those that stay where they are. -/
structure FilePath where
  root : String := ""
  names : List String
deriving DecidableEq, Repr, Inhabited

namespace FilePath

/-- The runs of characters between slashes. -/
def splitSlashes : List Char → List (List Char)
  | [] => [[]]
  | c :: rest =>
    if c = '/' then [] :: splitSlashes rest
    else
      match splitSlashes rest with
      | segment :: more => (c :: segment) :: more
      | [] => [[c]]

/-- The slashes that count at the front of a path: exactly two stay two, any other number is one. -/
def rootOf : List Char → String
  | ['/', '/'] => "//"
  | '/' :: '/' :: c :: _ => if c = '/' then "/" else "//"
  | '/' :: _ => "/"
  | _ => ""

/-- The path that a text spells. -/
def ofText (text : String) : FilePath where
  root := rootOf text.toList
  names := ((splitSlashes text.toList).map String.ofList).filter fun s => s != "" && s != "."

/-- A path as text; the directory itself is a dot. -/
def text (p : FilePath) : String :=
  let shown := p.root ++ "/".intercalate p.names
  if shown = "" then "." else shown

/-- Whether a path starts at the root. -/
def isAbsolute (p : FilePath) : Bool := p.root != ""

/-- A path seen from another one. -/
def join (p q : FilePath) : FilePath :=
  if q.isAbsolute then q else { p with names := p.names ++ q.names }

end FilePath

/-! ## The tree -/

/-- The names from the root to a file or directory. -/
abbrev Spot := List String

/-- What lies at a location. -/
inductive Node
  | file (text : String)
  | directory
deriving DecidableEq, Repr, Inhabited

/-- Files and directories by location, and the working directory. Directories around anything are
    there without being listed. -/
structure Files where
  home : Spot := []
  nodes : List (Spot × Node) := []
deriving DecidableEq, Repr, Inhabited

namespace Files

/-- What lies at a location. -/
def node? (files : Files) (spot : Spot) : Option Node :=
  match files.nodes.lookup spot with
  | some node => some node
  | none =>
    if spot.isPrefixOf files.home || files.nodes.any fun n => spot.isPrefixOf n.1 then
      some .directory
    else none

/-- How many bytes a name may have. -/
def nameLimit : Nat := 255

/-- How many bytes a path may have. -/
def pathLimit : Nat := 4095

/-- The location that names lead to from another one. Nothing need lie there, but the way must
    exist. -/
def walk (files : Files) : Spot → List String → Except FileTrouble Spot
  | spot, [] => .ok spot
  | spot, name :: rest =>
    match files.node? spot with
    | none => .error .missing
    | some (.file _) => .error .notDirectory
    | some .directory =>
      if name = ".." then files.walk spot.dropLast rest
      else if nameLimit < name.utf8ByteSize then .error .nameTooLong
      else files.walk (spot ++ [name]) rest

/-- The location that a path names. -/
def locate (files : Files) (p : FilePath) : Except Fault Spot := do
  Fault.unlessEncodable Text.Surrogate.isByte p.text
  if p.text.contains '\x00' then .error (.badValue "embedded null byte")
  else if pathLimit < p.text.utf8ByteSize then .error (.file .nameTooLong)
  else
    match files.walk (if p.isAbsolute then [] else files.home) p.names with
    | .ok spot => .ok spot
    | .error trouble => .error (.file trouble)

/-- What lies where a path leads, if the way exists. A name that is too long is a fault even so. -/
def find? (files : Files) (p : FilePath) : Except Fault (Option Node) :=
  match files.locate p with
  | .ok spot => .ok (files.node? spot)
  | .error (.file .nameTooLong) => .error (.file .nameTooLong)
  | .error _ => .ok none

/-- Whether anything lies where a path leads. -/
def isFound (files : Files) (p : FilePath) : Except Fault Bool := do
  .ok (← files.find? p).isSome

/-- Whether a directory lies where a path leads. -/
def isDirectory (files : Files) (p : FilePath) : Except Fault Bool := do
  .ok ((← files.find? p) == some .directory)

/-- The text of a file. -/
def read (files : Files) (p : FilePath) : Except Fault String := do
  match files.node? (← files.locate p) with
  | some (.file text) => .ok text
  | some .directory => .error (.file .isDirectory)
  | none => .error (.file .missing)

/-- The name of what lies directly in a directory and leads to a location. -/
def nameIn? (directory spot : Spot) : Option String :=
  if directory.isPrefixOf spot then (spot.drop directory.length).head? else none

/-- The names of what lies directly in a directory, each once. -/
def inside (files : Files) (directory : Spot) : List String :=
  ((files.home :: files.nodes.map (·.1)).filterMap (nameIn? directory)).eraseDups

/-- The files below the working directory, by their path from there. -/
def listed (files : Files) : List (String × String) :=
  files.nodes.filterMap fun n =>
    match n.2 with
    | .file text =>
      if files.home.isPrefixOf n.1 then
        some ("/".intercalate (n.1.drop files.home.length), text)
      else none
    | .directory => none

/-! ## Changes -/

/-- Nodes with one of them replaced, or a new one at the end. -/
def putNode : List (Spot × Node) → Spot → Node → List (Spot × Node)
  | [], spot, node => [(spot, node)]
  | (s, n) :: rest, spot, node =>
    if s = spot then (s, node) :: rest else (s, n) :: putNode rest spot node

/-- The tree with another node at a location. -/
def put (files : Files) (spot : Spot) (node : Node) : Files :=
  { files with nodes := putNode files.nodes spot node }

end Files

/-- A change to the tree that may stop with a fault; what was done until then stays. -/
abbrev Filing := EStateM Fault Files

namespace Filing

/-- What is found in the tree. -/
def look {α : Type} (f : Files → Except Fault α) : Filing α := fun files =>
  match f files with
  | .ok a => .ok a files
  | .error fault => .error fault files

/-- Makes a directory in one that exists, where nothing lies yet. -/
def makeDirectory (p : FilePath) : Filing Unit := do
  let spot ← look fun files => files.locate p
  match ← look fun files => .ok (files.node? spot) with
  | some _ => throw (.file .taken)
  | none => modify fun files => files.put spot .directory

/-- Passes over a trouble with a directory that is there all the same. -/
def unlessDirectory (p : FilePath) (fault : Fault) : Filing Unit := do
  match fault with
  | .file _ => if !(← look fun files => files.isDirectory p) then throw fault
  | _ => throw fault

/-- Makes a directory and those around it, as far as they are missing. The names are given from the
    last to the first. -/
def makeNames (root : String) : (reversed : List String) → Filing Unit
  | [] => do
    let p : FilePath := ⟨root, []⟩
    tryCatch (makeDirectory p) (unlessDirectory p)
  | name :: before => do
    let p : FilePath := ⟨root, (name :: before).reverse⟩
    tryCatch (makeDirectory p) fun fault =>
      match fault with
      | .file .missing => do
        makeNames root before
        tryCatch (makeDirectory p) fun fault =>
          match fault with
          | .file .missing => throw fault
          | _ => unlessDirectory p fault
      | _ => unlessDirectory p fault

/-- Makes a directory and those around it, as far as they are missing. -/
def makeAll (p : FilePath) : Filing Unit :=
  makeNames p.root p.names.reverse

/-- Writes a file in a directory that exists. -/
def write (p : FilePath) (text : String) : Filing Unit := do
  let spot ← look fun files => files.locate p
  match ← look fun files => .ok (files.node? spot) with
  | some .directory => throw (.file .isDirectory)
  | _ => modify fun files => files.put spot (.file text)

end Filing

end DocRepair
