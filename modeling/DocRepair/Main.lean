import DocRepair.CommandLine
import Std.Time.DateTime.Timestamp
/-!
# `DocRepair.Main` — the program

Reads what a command line asks for, runs the command, and writes back the files that it changed.

## Contents

* `gather` — the files that a command line asks for;
* `surroundings` — everything that a command finds when it starts;
* `writeBack` — the files that a command changed;
* `main` — the program.
-/

namespace DocRepair.Program

open DocRepair.CommandLine

/-- The path of a location. -/
def pathOf (spot : Spot) : String := "/" ++ "/".intercalate spot

/-- What lies at a location, if it can be read. -/
def nodeAt? (spot : Spot) : IO (Option Node) := do
  try
    let path := (← IO.currentDir) / pathOf spot
    if ← path.isDir then return some .directory
    else return some (.file (← IO.FS.readFile path))
  catch _ => return none

/-- The tree with what lies at a location. -/
def note (files : Files) (spot : Spot) : IO Files := do
  match ← nodeAt? spot with
  | some node => return files.put spot node
  | none => return files

/-- The tree with what lies on the way of a path. -/
def noteWay (files : Files) (p : FilePath) : IO Files :=
  (List.range (p.names.length + 1)).foldlM (fun files count => do
    match files.locate { p with names := p.names.take count } with
    | .ok spot => note files spot
    | .error _ => return files) files

/-- The names of what lies at a location; none if it cannot be read. -/
def listing (spot : Spot) : IO (List String) := do
  try
    let path := (← IO.currentDir) / pathOf spot
    return (← path.readDir).toList.map fun entry => entry.fileName
  catch _ => return []

/-- The tree with the collections that lie at the end of a path. -/
def noteCollections (files : Files) (directory : FilePath) : IO Files := do
  match files.locate directory with
  | .error _ => return files
  | .ok spot =>
    let names := (← listing spot).filter fun name => (Directory.stem? name).isSome
    names.foldlM (fun files name => note files (spot ++ [name])) files

/-- The files that a command line asks for, as far as they can be read. -/
def gather (wanted : Sources) : IO Files := do
  let home := (FilePath.ofText (← IO.currentDir).toString).names
  let files ← (wanted.directory.toList ++ wanted.files).foldlM noteWay { home := home }
  match wanted.directory with
  | some directory => noteCollections files directory
  | none => return files

/-- All that is left of a stream, behind a text already read. -/
partial def readAll (input : IO.FS.Stream) (start : String) : IO String := do
  let line ← input.getLine
  if line.isEmpty then return start else readAll input (start ++ line)

/-- The variables that hold settings. -/
def environment : IO Fields :=
  Settings.entries.filterMapM fun e => do
    let name := Settings.variableStart ++ Settings.upperText e.1
    return (← IO.getEnv name).map fun v => (name, .text v)

/-- Everything that a command finds when it starts. Identifiers are numbered after the second and
    two random bytes, and the clock stands still while the command runs. -/
def surroundings (wanted : Sources) : IO Machine := do
  let time ← Std.Time.Timestamp.now
  let nanoseconds := time.toNanosecondsSinceUnixEpoch.val
  let noise ← IO.getRandomBytes 2
  let input ← if wanted.input then readAll (← IO.getStdin) "" else pure ""
  return {
    files := ← gather wanted
    environment := ← environment
    input := input
    supply := {
      origin := noise.toList.foldl (fun n b => n * 256 + b.toNat) (nanoseconds / 1000000000).toNat
      last := nanoseconds / 1000
      pace := 0 }
    now := .float (Double.ofRatio false nanoseconds.toNat 1000000000) }

/-- Makes the directories and writes the files that a command changed. -/
def writeBack (before after : Files) : IO Unit := do
  for (spot, node) in after.nodes do
    if before.node? spot != some node then
      match node with
      | .directory => IO.FS.createDirAll (pathOf spot)
      | .file text => IO.FS.writeFile (pathOf spot) text

/-- Runs a command line. -/
def start (args : List String) : IO UInt32 := do
  let wanted := sources args
  let machine ← surroundings wanted
  let ended := run machine args
  writeBack machine.files ended.files
  IO.print ended.output
  if let some complaint := ended.complaint then IO.eprintln complaint
  match ended.code with
  | .ok code => return code.toUInt32
  | .error fault => do
    IO.eprintln fault.line
    return 1

end DocRepair.Program

/-- The program. -/
def main (args : List String) : IO UInt32 :=
  DocRepair.Program.start args
