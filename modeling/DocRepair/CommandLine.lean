import DocRepair.CommandLine.Arguments
import DocRepair.Store.Directory
import DocRepair.Gateway.Edits
import DocRepair.Gateway.Reads
import DocRepair.Transfer
import DocRepair.Statistics
/-!
# `DocRepair.CommandLine` — commands over a directory of collections

A command reads its request from a file or from the standard input, runs one call on a collection of
the directory, and prints what the call returns. Nothing is written back unless saving is asked for.

## Contents

* `Machine` — what a command finds: files, variables, standard input, supply and time;
* `Ended` — what it leaves: exit code or fault, what it printed, the files and the supply;
* `Sources` — what a command line asks to be read;
* `requestText` — the text of a request, or a complaint about it;
* `call` — the call of a command;
* `run` — a whole command.
-/

namespace DocRepair.CommandLine

/-- What a command finds when it starts. -/
structure Machine where
  files : Files
  environment : Fields := []
  input : String := ""
  supply : Supply
  now : Statistics.Moment

/-- What a command leaves when it ends. -/
structure Ended where
  code : Except Fault Nat
  output : String := ""
  complaint : Option String := none
  files : Files
  supply : Supply

/-- The name and version of the program. -/
def versionLine : String := "docmend 0.1.0\n"

/-- The exit code of a command that did what it was asked. -/
def success : Nat := 0

/-- The exit code of a command whose call failed. -/
def failed : Nat := 1

/-- The exit code of a command that was not understood. -/
def misused : Nat := 2

/-- What a call returns: a value to print, and whether all went well. -/
structure Answer where
  payload : Value
  ok : Bool

/-- The answer of an outcome. -/
def Answer.ofOutcome (o : Outcome) : Answer :=
  ⟨o.toValue, o.status == .ok⟩

/-- The record that the request of a command must fit. -/
def Command.request : Command → Request
  | .get | .stats => .get
  | .unique => .unique
  | .create => .create
  | .change => .change
  | .status => .status
  | .push => .push
  | .addIds => .addIds
  | .inject => .inject
  | .duplicate | .dedupe | .duplicates => .arrayField
  | .delete => .delete
  | .translate => .translate
  | .modifyArray => .modifyArray
  | .transfer => .transfer

/-! ## Calls -/

/-- The call of a command on one collection, given the fields of its request. -/
def callOn (settings : Settings) (c : Command) (fs : Fields) (save : Bool) :
    Access Drawer Outcome :=
  let field := Fields.getD fs
  let query := field "query"
  let keyField := field "unique_field"
  match c with
  | .get | .stats | .transfer => Access.look (Gateway.get settings query (field "select"))
  | .unique => Access.look (Gateway.uniqueValues query (field "selection"))
  | .create => Gateway.create settings (field "documents") save
  | .change => Gateway.execute settings query (field "changes") false save
  | .status => Gateway.setStatus settings query (field "path") (field "code") save
  | .push => Gateway.push settings query (field "field") (field "value") (field "id_values") save
  | .addIds => Gateway.addIds settings query (field "field") (field "id_values") save
  | .inject =>
    Gateway.inject settings query (field "field") (field "field_ids") (field "data") save
  | .duplicate => Gateway.duplicate settings query (field "array_field") save
  | .dedupe => Gateway.dedupe settings query (field "array_field") keyField save
  | .duplicates => Gateway.findDuplicates settings query (field "array_field") keyField
  | .delete =>
    Gateway.delete settings query
      ⟨field "fields", field "by_id_path", field "clear_array", field "whole"⟩ save
  | .translate => Gateway.translate settings query (field "moves") save
  | .modifyArray => Gateway.modifyArray query (field "field_query") save

/-- The transfer between two collections of a directory. -/
def callTransfer (fs : Fields) (p : Parsed) (save : Bool) : Access Directory TransferReport := do
  let source ← Directory.collection (← Access.lift (p.value "--collection"))
  let target ← Access.lift (p.value "--to-collection")
  Directory.withCollection target
    (transfer ⟨Fields.getD fs "link_field", Fields.getD fs "from_field", Fields.getD fs "to_field"⟩
      (Fields.getD fs "from_query") source save)

/-- The call of a command. -/
def call (settings : Settings) (c : Command) (p : Parsed) (fs : Fields) :
    Access Directory Answer := do
  let save := p.has "--save"
  if c = .transfer then do
    let report ← callTransfer fs p save
    return ⟨report.toValue, report.ok⟩
  else do
    let collection ← Access.lift (p.value "--collection")
    return .ofOutcome (← Directory.withCollection collection (callOn settings c fs save))

/-- The counts of all collections of a directory. -/
def callStatistics (settings : Settings) (now : Statistics.Moment) : Access Directory Answer := do
  let names ← Access.look Directory.names
  let collections ← names.mapM Directory.collection
  let cache ← Access.lift (Statistics.Cache.build (Statistics.ttlOf settings))
  let entry ← Access.lift (cache.get now (Statistics.counts collections)).1
  return ⟨Statistics.report entry, true⟩

/-! ## Commands -/

/-- What a command line asks to be read: files, a directory of collections, the standard input. -/
structure Sources where
  files : List FilePath := []
  directory : Option FilePath := none
  input : Bool := false
deriving DecidableEq, Repr

/-- What a command line asks to be read. The file of a collection is named even where it lies
    outside the directory. -/
def sources (args : List String) : Sources :=
  match parse args with
  | .error _ => {}
  | .ok (_, p) =>
    let root := FilePath.ofText ((p.value? "--store").getD "")
    let collections := ["--collection", "--to-collection"].filterMap p.value?
    { files := (["--config", "--request"].filterMap p.value?).map FilePath.ofText ++
        collections.map (Directory.fileOf root)
      directory := some root
      input := p.value? "--request" == some "-" }

/-- The settings of a command: from the file that it names, or else from variables. -/
def settingsOf (m : Machine) (p : Parsed) : Except Fault Settings :=
  match p.value? "--config" with
  | none | some "" => Settings.ofEnvironment m.environment
  | some path => do Settings.ofFile (← m.files.read (.ofText path))

/-- A complaint about a request that is not there. -/
def requestMissing (path : FilePath) : String :=
  "request file not found: " ++ path.text

/-- The text of a request, or a complaint about it. -/
def requestText (m : Machine) (source : String) : Except Fault (Except String String) := do
  if source = "-" then .ok (.ok m.input)
  else do
    let path := FilePath.ofText source
    if ← m.files.isFound path then .ok (.ok (← m.files.read path))
    else .ok (.error (requestMissing path))

/-- Whether a fault in reading a request is one of its text. -/
def isTextFault : Fault → Bool
  | .malformedText | .badValue _ | .badBase64 _ | .unencodable _ _ _ => true
  | _ => false

/-- How a command ends that prints a value. -/
def printing (code : Nat) (payload : Value) (files : Files) (supply : Supply) : Ended :=
  match ExtendedJson.render payload with
  | .ok text => { code := .ok code, output := text ++ "\n", files := files, supply := supply }
  | .error fault => { code := .error fault, files := files, supply := supply }

/-- How a command ends on a fault: a failure of the engine is printed, anything else is passed
    on. -/
def endedBy (files : Files) (supply : Supply) : Fault → Ended
  | .failure f => printing failed f.toValue files supply
  | fault => { code := .error fault, files := files, supply := supply }

/-- How a command ends after its call. -/
def endedAfter (r : EStateM.Result Fault (Session Directory) Answer) : Ended :=
  match r with
  | .ok answer s =>
    printing (if answer.ok then success else failed) answer.payload s.store.files s.supply
  | .error fault s => endedBy s.store.files s.supply fault

/-- How a command ends with a complaint. -/
def complain (m : Machine) (complaint : String) : Ended :=
  { code := .ok misused, complaint := some ("failed: " ++ complaint), files := m.files,
    supply := m.supply }

/-- Runs a command with a request. -/
def runRequest (m : Machine) (settings : Settings) (directory : Directory) (c : Command)
    (p : Parsed) : Ended :=
  match (do requestText m (← p.value "--request")) with
  | .error fault => endedBy m.files m.supply fault
  | .ok (.error complaint) => complain m complaint
  | .ok (.ok text) =>
    match ExtendedJson.parse text m.supply with
    | .error fault supply =>
      if isTextFault fault then { complain m "invalid json in request" with supply := supply }
      else endedBy m.files supply fault
    | .ok payload supply =>
      match c.request.parse payload with
      | .error fault => endedBy m.files supply fault
      | .ok fs => endedAfter (call settings c p fs ⟨directory, supply⟩)

/-- Runs a command on a directory of collections. -/
def runOn (m : Machine) (settings : Settings) (c : Command) (p : Parsed) (root : String) : Ended :=
  let directory : Directory :=
    { root := .ofText root, idField := settings.idField, files := m.files }
  if c = .stats then endedAfter (callStatistics settings m.now ⟨directory, m.supply⟩)
  else runRequest m settings directory c p

/-- Runs a command. -/
def run (m : Machine) (args : List String) : Ended :=
  match parse args with
  | .error .version =>
    { code := .ok success, output := versionLine, files := m.files, supply := m.supply }
  | .error .help => { code := .ok success, files := m.files, supply := m.supply }
  | .error .misuse => { code := .ok misused, files := m.files, supply := m.supply }
  | .ok (c, p) =>
    match settingsOf m p, p.value "--store" with
    | .error _, _ => complain m "invalid settings"
    | .ok _, .error fault => endedBy m.files m.supply fault
    | .ok settings, .ok root => runOn m settings c p root

end DocRepair.CommandLine
