import DocRepair.Request.Shape
import DocRepair.Identity
import DocRepair.Value.OfJson
/-!
# `DocRepair.Settings` — what an operator may set

Settings come from the environment or from a file in the exchange format; what is not given has a
default. Names that are not known are refused.

## Contents

* `Settings` — the settings;
* `ofValue` — from a value, or everything that is wrong with it;
* `ofEnvironment` — from variables with a common start of their names;
* `ofFile` — from the text of a file.
-/

namespace DocRepair

/-- What an operator may set: the identifier field, the language of localized texts, how long
    statistics stay fresh, in seconds, and how much is logged. -/
structure Settings where
  idField : String := Identity.defaultField
  language : String := "en"
  statisticsTtl : Double := Double.ofInt 600
  logLevel : String := "WARNING"
deriving DecidableEq, Repr

namespace Settings

/-- The levels of logging. -/
def logLevels : List String := ["DEBUG", "INFO", "WARNING", "ERROR", "CRITICAL"]

/-- The settings by name, with what each must look like and its default. -/
def entries : List (String × Shape × Option Value) :=
  [("id_field", .text, some (.text Identity.defaultField)),
   ("default_language", .text, some (.text "en")),
   ("statistics_ttl_seconds", .positive, some (.float (Double.ofInt 600))),
   ("log_level", .oneOf logLevels, some (.text "WARNING"))]

/-- What settings must look like. -/
def shape : Shape :=
  .record "Settings" entries fun _ => none

/-- The number of a float value. -/
def floatD (v : Value) (default : Double) : Double :=
  match v with
  | .float x => x
  | _ => default

/-- Settings from a value. -/
def ofValue (v : Value) : Except Fault Settings :=
  match shape.accept v with
  | .error issues => .error (.invalid issues)
  | .ok v =>
    let text (name default : String) := ((Fields.getD v.fields name).text?).getD default
    .ok {
      idField := text "id_field" Identity.defaultField
      language := text "default_language" "en"
      statisticsTtl := floatD (Fields.getD v.fields "statistics_ttl_seconds") (Double.ofInt 600)
      logLevel := text "log_level" "WARNING" }

/-- The settings as an object. -/
def toValue (s : Settings) : Value :=
  .object [("id_field", .text s.idField), ("default_language", .text s.language),
    ("statistics_ttl_seconds", .float s.statisticsTtl), ("log_level", .text s.logLevel)]

/-- The start of the names of variables that hold settings. -/
def variableStart : String := "DOCMEND_"

/-- A letter in upper case. The levels of logging are ASCII, and no other character but the dotless
    one below has an ASCII capital that they use. -/
def upper (c : Char) : Char :=
  if 'a' ≤ c ∧ c ≤ 'z' then Char.ofNat (c.toNat - 32)
  else if c = 'ı' then 'I'
  else c

/-- A text in upper case. -/
def upperText (s : String) : String :=
  String.ofList (s.toList.map upper)

/-- The value of a variable in upper case. -/
def upperValue : Value → Except Fault Value
  | .text s => .ok (.text (upperText s))
  | .bytes b => .ok (.bytes b)
  | other => .error (.lacks other "upper")

/-- The setting that a variable gives: one that is null or empty gives none. -/
def fromVariable (environment : Fields) (name : String) : Except Fault Fields :=
  match Fields.getD environment (variableStart ++ upperText name) with
  | .null | .text "" => .ok []
  | raw => do .ok [(name, ← if name = "log_level" then upperValue raw else .ok raw)]

/-- Settings from variables. -/
def ofEnvironment (environment : Fields) : Except Fault Settings := do
  ofValue (.object (← entries.mapM fun e => fromVariable environment e.1).flatten)

/-- Settings from the text of a file. -/
def ofFile (text : String) : Except Fault Settings :=
  match Value.ofText text with
  | .ok v => ofValue v
  | .error fault => .error fault

end Settings

end DocRepair
