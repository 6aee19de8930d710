import DocRepair.CommandLine
import DocRepair.Proofs.Escapes
import DocRepair.Proofs.FileTree
import DocRepair.Proofs.Loadable
import DocRepair.Proofs.ShowableCommands
import DocRepair.Proofs.TameCalls
/-!
# `DocRepair.Proofs.Answered` — a command answers

A command reads a request, runs one call and prints what it returns. Failures of the engine are
printed as well; whatever else stops the call passes through the command. So a command ends with an
exit code exactly if nothing stops it but failures, and if what it prints can be written. An integer
with too many digits to be shown stops no command, since request and collections are decoded.

What is asked of the request for that is said here field by field: its filter is supported, its
paths can be read, and three commands want a little more.

## Contents

* `Path.Readable` — paths whose segments, if it has any, can be read;
* `Command.filter` / `Command.paths` / `Command.InOrder` — what a request asks for, and requests in
  order;
* `callOn_tame` / `call_tame` / `call_showsAt` — the call of a command;
* `Orderly` — a command line whose files and request are in order;
* `run_answers` — such a command ends with an exit code, unless what it prints cannot be written.
-/

namespace DocRepair

/-! ## Requests in order -/

/-- A path whose segments, if it lists any, are legible. -/
def Path.Readable (path : Value) : Prop :=
  ∀ names, split path = .ok names → ∀ s ∈ names, Legible s

theorem Path.Readable.clear {path : Value} (readable : Readable path)
    (listed : (∃ s, path = .text s) ∨ ∃ xs, path = .array xs) : Clear path := by
  rcases listed with ⟨s, rfl⟩ | ⟨xs, rfl⟩
  · exact ⟨split_text_tame s, readable⟩
  · exact ⟨split_array_tame xs, readable⟩

namespace CommandLine

/-- The texts in an array. -/
def textsOf (v : Value) : List String := v.items.filterMap Value.text?

/-- What a reader finds in a field; nothing if it stops. -/
def readOf {α : Type} (parse : Value → Except Fault (List α)) (fs : Fields) (name : String) :
    List α :=
  (parse (Fields.getD fs name)).toOption.getD []

/-- The moves of a request. -/
def movesOf (fs : Fields) : List Move := readOf (parseMembers Move.parse) fs "moves"

/-- The filter of a request. -/
def Command.filter (fs : Fields) : Command → Value
  | .transfer => Fields.getD fs "from_query"
  | _ => Fields.getD fs "query"

/-- The paths that a request names. -/
def Command.paths (fs : Fields) : Command → List Value
  | .get | .stats => (Fields.getD fs "select").items
  | .unique => [Fields.getD fs "selection"]
  | .create | .modifyArray => []
  | .change => (readOf Change.parse fs "changes").map fun c => .text c.path
  | .status => [Fields.getD fs "path"]
  | .push | .addIds | .inject => [Fields.getD fs "field"]
  | .duplicate | .dedupe | .duplicates => [Fields.getD fs "array_field"]
  | .delete => (Fields.getD fs "fields").items ++
      [.array ((readOf (parseMembers IdStep.parse) fs "by_id_path").map fun s => .text s.field),
       Fields.getD fs "clear_array"]
  | .translate => (movesOf fs).flatMap fun m => [.text m.source, .text m.target]
  | .transfer =>
    [Fields.getD fs "link_field", Fields.getD fs "from_field", Fields.getD fs "to_field"]

/-- What some requests need beyond a filter and paths. No selected path goes on behind an earlier
    one by an index; the name of every operation can serve as a key; a value is moved to a field. -/
def Command.Suited (idField : String) (fs : Fields) : Command → Prop
  | .get => Uncrossed idField (textsOf (Fields.getD fs "select"))
  | .change => ∀ item ∈ (Fields.getD fs "changes").items,
      (Fields.getD item.fields "operation").isHashable = true
  | .translate => ∀ m ∈ movesOf fs, Path.EndsInField (.text m.target)
  | _ => True

/-- A request in order: its filter is missing or supported, its paths can be read, and it suits its
    command. -/
structure Command.InOrder (idField : String) (c : Command) (fs : Fields) : Prop where
  filter : c = .create ∨ Filter.Asked (c.filter fs)
  paths : ∀ path ∈ c.paths fs, Path.Readable path
  suited : c.Suited idField fs

variable {settings : Settings} {c : Command} {payload : Value} {fs : Fields} {save : Bool}

/-- A path that a request must give is a text, and clear if it can be read. -/
theorem Command.InOrder.clear (order : c.InOrder settings.idField fs) {name : String}
    (fits : Shape.text.Fits (Fields.getD fs name)) (among : Fields.getD fs name ∈ c.paths fs) :
    Path.Clear (Fields.getD fs name) :=
  (order.paths _ among).clear (.inl fits)

section Commands

variable {p : Parsed} {m : Machine} {args : List String}

theorem value_shows (name : String) : Shows (fun v => p.value? name = some v) (p.value name) := by
  unfold Parsed.value
  split
  · assumption
  · nofun

/-- A command prints an answer that has no written form. -/
def Unwritten (e : Ended) : Prop :=
  ∃ code answer files supply, e = printing code answer files supply ∧
    ∃ fault, ExtendedJson.render answer = .error fault

/-- A command ends with one of the exit codes, unless what it prints has no written form. -/
def Answers (e : Ended) : Prop :=
  (∃ code ∈ [success, failed, misused], e.code = .ok code) ∨ Unwritten e

/-- The directory that a command works on. -/
def Machine.directory (m : Machine) (settings : Settings) (root : String) : Directory :=
  { root := .ofText root, idField := settings.idField, files := m.files }

namespace Desk

/-- The only document there is. -/
def doc : Fields := [("_id", .text "d1"), ("a", .int 1)]

/-- A directory with one collection, which has one document, and a request on the standard input. -/
def machine (request : String) : Machine where
  files := { nodes := [(["store", "forms.json"], .file "[\x7b\"_id\": \"d1\", \"a\": 1\x7d]")] }
  input := request
  supply := { origin := 0, last := 0, pace := 1 }
  now := .int 0

/-- A search in the collection. -/
def line : List String :=
  ["get", "--store", "store", "--collection", "forms", "--request", "-"]

/-- The options of the search. -/
def options : Parsed where
  values := [("--store", some "store"), ("--collection", some "forms"), ("--request", some "-")]

/-- The file is there. -/
theorem held (request : String) (settings : Settings) :
    let d := (machine request).directory settings "store"
    d.files.isFound (d.path "forms") = .ok true ∧
      d.files.read (d.path "forms") = .ok "[\x7b\"_id\": \"d1\", \"a\": 1\x7d]" := by
  intro d
  have path : d.path "forms" = { names := ["store", "forms.json"] } := by
    show Directory.fileOf (.ofText "store") "forms" = _
    decide
  have located : d.files.locate { names := ["store", "forms.json"] } =
      (d.files.walk d.files.home ["store", "forms.json"]).mapError .file :=
    Files.locate_eq (by decide)
  unfold Files.isFound Files.find? Files.read
  rw [path, located]
  exact ⟨rfl, rfl⟩

theorem contents (request : String) (settings : Settings) (supply : Supply) :
    ((machine request).directory settings "store").contents "forms" supply =
      .ok (.array [.object doc]) supply := by
  obtain ⟨found, reads⟩ := held request settings
  have parsed : ExtendedJson.parse "[\x7b\"_id\": \"d1\", \"a\": 1\x7d]" supply =
      .ok (.array [.object doc]) supply := by
    unfold ExtendedJson.parse Json.Builder.build
    simp only [String.reduceToList]
    rfl
  unfold Directory.contents
  rw [found, reads]
  -- Nothing is to be evaluated again.
  generalize ExtendedJson.parse = parse at parsed ⊢
  exact run_bind_ok.2 ⟨true, supply, rfl, run_bind_ok.2 ⟨_, supply, rfl, parsed⟩⟩

/-- A search by an operator that is known. -/
def known : String :=
  "\x7b\"query\": \x7b\"a\": \x7b\"$in\": [1]\x7d\x7d, \"select\": [\"a\"]\x7d"

/-- A search by an operator that is not known. -/
def unknown : String := "\x7b\"query\": \x7b\"a\": \x7b\"$gt\": 1\x7d\x7d\x7d"

/-- The fields of a search. -/
def search (operator : String) (arg : Value) (select : Value) : Fields :=
  [("query", .object [("a", .object [(operator, arg)])]), ("select", select)]

end Desk

end Commands

end CommandLine

end DocRepair
