import DocRepair.Fault
import DocRepair.Text.Digit
/-!
# `DocRepair.CommandLine.Arguments` — reading the arguments of a command

An option with a value takes it from behind an equals sign or from the next argument. A long name
may be cut short as long as it is the start of no other. Whatever else stands among the arguments is
an error, but a call for help is answered before anything is missed.

## Contents

* `Command` — the commands and their options;
* `Token` / `classify` — what one argument is;
* `Parsed` — the options found, or how the reading ended;
* `parseOptions` / `parse` — the options of a command, and a whole line.
-/

namespace DocRepair.CommandLine

/-- The commands. -/
inductive Command
  | get | unique | create | change | status | push | addIds | inject | duplicate | dedupe
  | duplicates | delete | translate | modifyArray | transfer | stats
deriving DecidableEq, Repr

namespace Command

/-- The name of a command. -/
def name : Command → String
  | .get => "get"
  | .unique => "unique"
  | .create => "create"
  | .change => "change"
  | .status => "status"
  | .push => "push"
  | .addIds => "add-ids"
  | .inject => "inject"
  | .duplicate => "duplicate"
  | .dedupe => "dedupe"
  | .duplicates => "duplicates"
  | .delete => "delete"
  | .translate => "translate"
  | .modifyArray => "modify-array"
  | .transfer => "transfer"
  | .stats => "stats"

/-- All commands. -/
def all : List Command :=
  [.get, .unique, .create, .change, .status, .push, .addIds, .inject, .duplicate, .dedupe,
   .duplicates, .delete, .translate, .modifyArray, .transfer, .stats]

/-- The command with a given name. -/
def ofName? (s : String) : Option Command :=
  all.find? fun c => c.name == s

/-- The options that a command requires. -/
def required : Command → List String
  | .stats => ["--store"]
  | .transfer => ["--store", "--collection", "--request", "--to-collection"]
  | _ => ["--store", "--collection", "--request"]

/-- The options of a command that take a value. -/
def valued (c : Command) : List String :=
  c.required ++ ["--config"]

/-- The options of a command that stand alone. -/
def flags : Command → List String
  | .stats => []
  | _ => ["--save"]

end Command

/-- The options that ask for help. -/
def helpOptions : List String := ["-h", "--help"]

/-- How the reading of arguments ends when there is nothing to run. -/
inductive Ending
  /-- Help was asked for. -/
  | help
  /-- The version was asked for. -/
  | version
  /-- The arguments cannot be understood. -/
  | misuse
deriving DecidableEq, Repr

/-- What one argument is. -/
inductive Token
  /-- An option, and the value behind its equals sign. -/
  | option (name : String) (value : Option String)
  /-- The short call for help with more letters behind it. -/
  | letters (rest : List Char)
  /-- Something that looks like an option but is none. -/
  | unknown
  /-- The start of more than one option. -/
  | ambiguous
  /-- Anything else. -/
  | plain (text : String)
deriving DecidableEq, Repr

/-- The text in front of the first equals sign, and the text behind it. -/
def splitEquals (chars : List Char) : List Char × Option (List Char) :=
  let front := chars.takeWhile (· != '=')
  if front.length = chars.length then (chars, none)
  else (front, some (chars.drop (front.length + 1)))

/-- Whether a text is a negative number: a minus sign and decimal digits of any script with at most
    one point, of which at least one digit is last. A line may end behind it. -/
def looksNegative (chars : List Char) : Bool :=
  let isDigit (c : Char) : Bool := (Text.Digit.decimalValue? c).isSome
  let isNumber (rest : List Char) : Bool :=
    match rest.dropWhile isDigit with
    | [] => !rest.isEmpty
    | '.' :: more => !more.isEmpty && more.all isDigit
    | _ => false
  match chars with
  | '-' :: rest => isNumber rest || (rest.getLast? == some '\n' && isNumber rest.dropLast)
  | _ => false

/-- The options that a long argument may be short for. -/
def candidates (known : List String) (front : List Char) : List String :=
  known.filter fun name => front.isPrefixOf name.toList

/-- What an argument is, among known options. -/
def classify (known : List String) (arg : String) : Token :=
  let chars := arg.toList
  let (front, value) := splitEquals chars
  let value := value.map String.ofList
  let name := String.ofList front
  if chars.head? != some '-' || chars.length = 1 then .plain arg
  else if known.contains arg then .option arg none
  else if value.isSome && known.contains name then .option name value
  else if ['-', '-'].isPrefixOf chars then
    match candidates known front with
    | [found] => .option found value
    | [] => if chars.contains ' ' then .plain arg else .unknown
    | _ => .ambiguous
  else if ['-', 'h'].isPrefixOf chars && known.contains "-h" then
    .letters (chars.drop 2)
  else if looksNegative chars || chars.contains ' ' then .plain arg
  else .unknown

/-- What the arguments of a command say: the values of its options, the options that stand alone,
    and whether something was left over. Two dashes behind an equals sign are no value. -/
structure Parsed where
  values : List (String × Option String) := []
  flags : List String := []
  leftover : Bool := false
deriving DecidableEq, Repr

namespace Parsed

/-- What was last given for an option. -/
def given? (p : Parsed) (name : String) : Option (Option String) :=
  (p.values.reverse).lookup name

/-- The value last given for an option. -/
def value? (p : Parsed) (name : String) : Option String :=
  (p.given? name).join

/-- The value of an option, which is needed for something that takes only a text. -/
def value (p : Parsed) (name : String) : Except Fault String :=
  match p.value? name with
  | some v => .ok v
  | none => .error (.wrongType ("there is no value for " ++ name))

/-- Whether an option that stands alone is given. -/
def has (p : Parsed) (name : String) : Bool :=
  p.flags.contains name

/-- Notes the value of an option. -/
def withValue (p : Parsed) (name : String) (v : Option String) : Parsed :=
  { p with values := p.values ++ [(name, v)] }

end Parsed

/-- The value of an option behind its equals sign. -/
def afterEquals (v : String) : Option String :=
  if v = "--" then none else some v

/-- How the short call for help ends with letters behind it: they may only repeat it. -/
def lettersEnding (letters : List Char) : Ending :=
  if letters.all (· == 'h') then .help else .misuse

/-- How a call for help ends. It takes no value, but the short one may be repeated behind an equals
    sign. -/
def helpEnding (name : String) (value : Option String) : Ending :=
  match value with
  | none => .help
  | some letters =>
    if name = "-h" && letters != "" then lettersEnding letters.toList else .misuse

/-- Reads tokens in order. -/
def readTokens (valued : List String) : Parsed → List Token → Except Ending Parsed
  | p, [] => .ok p
  | p, .plain _ :: rest => readTokens valued { p with leftover := true } rest
  | p, .unknown :: rest => readTokens valued { p with leftover := true } rest
  | _, .ambiguous :: _ => .error .misuse
  | _, .letters rest :: _ => .error (lettersEnding rest)
  | p, .option name (some v) :: rest =>
    if helpOptions.contains name then .error (helpEnding name (some v))
    else if valued.contains name then readTokens valued (p.withValue name (afterEquals v)) rest
    else .error .misuse
  | p, .option name none :: rest =>
    if helpOptions.contains name then .error .help
    else if valued.contains name then
      match rest with
      | .plain v :: rest => readTokens valued (p.withValue name (some v)) rest
      | _ => .error .misuse
    else readTokens valued { p with flags := p.flags ++ [name] } rest

/-- Reads the arguments of a command. -/
def parseOptions (c : Command) (args : List String) : Except Ending Parsed :=
  let known := helpOptions ++ c.valued ++ c.flags
  let front := args.takeWhile (· != "--")
  let tokens := front.map (classify known)
  -- A name that is short for two options is refused before any other is read.
  if tokens.contains .ambiguous then .error .misuse
  else do
    let p ← readTokens c.valued {} tokens
    if p.leftover || front.length < args.length then .error .misuse
    else if c.required.all fun name => (p.given? name).isSome then .ok p
    else .error .misuse

/-- The options that may stand in front of a command. -/
def frontOptions : List String := helpOptions ++ ["--version"]

/-- Reads a line from its first argument on. What is not understood in front of the command is left
    over, and so an error once the rest is read. -/
def parseFront : List String → Except Ending (Command × Parsed)
  | [] => .error .misuse
  | arg :: rest =>
    match classify frontOptions arg with
    | .plain name =>
      match Command.ofName? name with
      | some c => do .ok (c, ← parseOptions c rest)
      | none => .error .misuse
    | .option "--version" none => .error .version
    | .option name value => .error (helpEnding name value)
    | .letters rest => .error (lettersEnding rest)
    | .ambiguous => .error .misuse
    | .unknown =>
      match parseFront rest with
      | .error .help => .error .help
      | .error .version => .error .version
      | _ => .error .misuse

/-- Reads a line: a command and its arguments. In front of the command, help or the version may be
    asked for, unless some argument is the start of more than one such option. -/
def parse (args : List String) : Except Ending (Command × Parsed) :=
  let front := args.takeWhile (· != "--")
  if front.any fun arg => classify frontOptions arg == .ambiguous then .error .misuse
  else parseFront args

end DocRepair.CommandLine
