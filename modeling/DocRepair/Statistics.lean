import DocRepair.Statistics.Cache
import DocRepair.Store
import DocRepair.Settings
import DocRepair.Value.Same
/-!
# `DocRepair.Statistics` — how many documents the stores hold

## Contents

* `Moment` — a reading of the clock, or a span of time, in seconds;
* `Cache.build` — an empty cache with a positive time to keep;
* `counts` — the number of documents of each store;
* `report` — the counts with their sum and the time they were taken.
-/

namespace DocRepair.Statistics

/-- A reading of the clock or a span of time, in seconds. It keeps the kind of number that it was
    given as; a truth value counts as one or zero. -/
inductive Moment
  | bool (b : Bool)
  | int (n : Int)
  | float (x : Double)
deriving DecidableEq, Repr, Inhabited

namespace Moment

/-- The number that a moment counts as. -/
def numeral : Moment → Value.Numeral
  | .bool b => .int (if b then 1 else 0)
  | .int n => .int n
  | .float x => .float x

/-- A moment as a value of its kind. -/
def toValue : Moment → Value
  | .bool b => .bool b
  | .int n => .int n
  | .float x => .float x

/-- The moment that a number gives. -/
def ofValue : Value → Except Fault Moment
  | .bool b => .ok (.bool b)
  | .int n => .ok (.int n)
  | .float x => .ok (.float x)
  | other => .error (.wrongType ("'" ++ other.kindName ++ "' is no time"))

/-- A number in the floating-point format, which does not reach all integers. -/
def toDouble : Value.Numeral → Except Fault Double
  | .float x => .ok x
  | .int n =>
    match Double.ofInt n with
    | .infinite _ => .error (.overflow "int too large to convert to float")
    | x => .ok x

/-- The sum: exact for two integers, rounded if one is a floating-point number. -/
def add (a b : Moment) : Except Fault Moment :=
  match a.numeral, b.numeral with
  | .int m, .int n => .ok (.int (m + n))
  | m, n => do .ok (.float ((← toDouble m).add (← toDouble n)))

/-- The order, by exact value. -/
def le (a b : Moment) : Bool :=
  match a.numeral, b.numeral with
  | .int m, .int n => m ≤ n
  | .int m, .float y => Double.intLe m y
  | .float x, .int n => Double.leInt n x
  | .float x, .float y => x.le y

/-- Whether a span of time since a moment is over: the present is the sum of both, or later. -/
def isOver (start span now : Moment) : Except Fault Bool := do
  .ok ((← start.add span).le now)

instance : Timed Moment := ⟨isOver⟩

end Moment

/-- The number of documents of each store, by name. -/
abbrev Counts := List (String × Nat)

/-- An empty cache; values must be kept for a positive time. -/
def Cache.build (ttl : Moment) : Except Fault (Cache Moment Counts) :=
  if ttl.le (.int 0) then .error (.badValue "ttl must be positive")
  else .ok { ttl := ttl }

/-- How long the settings let values be kept. -/
def ttlOf (settings : Settings) : Moment :=
  .float settings.statisticsTtl

/-- A count under a name; of two counts under one name the later stands. -/
def putCount : Counts → String → Nat → Counts
  | [], name, n => [(name, n)]
  | (k, m) :: rest, name, n =>
    if k = name then (k, n) :: rest else (k, m) :: putCount rest name n

/-- The number of documents of each store, in order. -/
def counts {σ : Type} [Store σ] (stores : List σ) : Except Fault Counts :=
  stores.foldlM (fun found s => do
    .ok (putCount found (Store.name s) (← Store.find s (.object [])).length)) []

/-- Counts as an object. -/
def countsValue (found : Counts) : Value :=
  .object (found.map fun (name, n) => (name, .int n))

/-- The sum of counts. -/
def total (found : Counts) : Nat :=
  (found.map (·.2)).foldr Nat.add 0

/-- The report of an entry. -/
def report (e : Entry Moment Counts) : Value :=
  .object [("computed_at", e.computedAt.toValue), ("ttl", e.ttl.toValue),
    ("counts", countsValue e.value), ("total", .int (total e.value))]

end DocRepair.Statistics
