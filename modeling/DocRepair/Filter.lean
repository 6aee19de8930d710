import DocRepair.Path.Resolve
/-!
# `DocRepair.Filter` — which documents a query selects

A filter is an object. Each of its fields must hold: a path with a value it must equal, a path with
operators, or one of the two connectives over lists of filters. An array equals a value that is no
array as soon as one of its items does.

## Contents

* `equalTo` / `equals` — equality of a found value and an expected one, and the comparison itself;
* `operator` — one operator on a found value;
* `matches?` — whether a document satisfies a filter;
* `satisfies` — whether it satisfies conditions on paths that need not be texts.
-/

namespace DocRepair.Filter

/-- Equality of a found value and an expected one: as values, as identifiers, or for one item of a
    found array. -/
def equalTo (actual expected : Value) : Bool :=
  match actual, expected with
  | .array xs, .array _ => Identity.agree actual expected || (Value.array xs).same expected
  | .array xs, _ => xs.any fun x => Identity.agree x expected
  | _, _ => Identity.agree actual expected || actual.same expected

/-- The comparison of a found value and an expected one. Of a found array the items are compared up
    to the first that is equal. -/
def equals (actual expected : Value) : Except Fault Bool :=
  match actual, expected with
  | .array _, .array _ => .ok (equalTo actual expected)
  | .array xs, _ => xs.anyM fun x => Identity.compare x expected
  | _, _ => do .ok ((← Identity.compare actual expected) || actual.same expected)

/-- One operator on a found value; nothing found is the marker of absence. -/
def operator (actual : Value) (op : String) (arg : Value) : Except Fault Bool :=
  if op = "$eq" then equals actual arg
  else if op = "$ne" then do .ok (!(← equals actual arg))
  else if op = "$in" then do (← arg.members).anyM (equals actual)
  else if op = "$nin" then do .ok (!(← (← arg.members).anyM (equals actual)))
  else if op = "$exists" then .ok (!actual.isAbsent == arg.truthy)
  else .error (.badValue ("unsupported filter operator: " ++ op))

/-- Whether all operators hold, tried in order up to the first that does not. -/
def operators (actual : Value) : Fields → Except Fault Bool
  | [] => .ok true
  | (op, arg) :: rest => do
    if ← operator actual op arg then operators actual rest else .ok false

/-- Whether a condition is an object of operators. -/
def isOperators (cond : Value) : Bool :=
  match cond with
  | .object fs => !fs.isEmpty && fs.all fun f => f.1.toList.head? == some '$'
  | _ => false

/-- Whether the value at a path satisfies a condition. To be equal to something, there must be a
    value. -/
def condition (doc path cond : Value) : Except Fault Bool := do
  let found := Path.valueAt? doc (← Path.resolve Identity.defaultField doc path .null)
  let actual := found.getD .absent
  if isOperators cond then operators actual cond.fields
  else if actual.isAbsent then .ok false
  else equals actual cond

/-- A connective over something other than a list of filters. Without members it is settled, and
    none of the members that other values have is a filter. -/
def clauseless (clauses : Value) (settled : Bool) : Except Fault Bool := do
  match ← clauses.members with
  | [] => .ok settled
  | first :: _ => .error (.lacks first "items")

mutual

/-- Whether a document satisfies a filter. -/
def matches? (doc : Value) : Value → Except Fault Bool
  | .object fs => entries doc fs
  | other => .error (.lacks other "items")

/-- Whether all fields of a filter hold, tried in order up to the first that does not. -/
def entries (doc : Value) : List (String × Value) → Except Fault Bool
  | [] => .ok true
  | (name, cond) :: rest => do
    let holds ←
      if name = "$and" then
        match cond with
        | .array clauses => conjunction doc clauses
        | other => clauseless other true
      else if name = "$or" then
        match cond with
        | .array clauses => disjunction doc clauses
        | other => clauseless other false
      else condition doc (.text name) cond
    if holds then entries doc rest else .ok false

/-- Whether all clauses hold, tried in order up to the first that does not. -/
def conjunction (doc : Value) : List Value → Except Fault Bool
  | [] => .ok true
  | clause :: rest => do
    if ← matches? doc clause then conjunction doc rest else .ok false

/-- Whether some clause holds, tried in order up to the first that does. -/
def disjunction (doc : Value) : List Value → Except Fault Bool
  | [] => .ok false
  | clause :: rest => do
    if ← matches? doc clause then .ok true else disjunction doc rest

end

/-- Whether a document satisfies conditions, tried in order up to the first that does not hold. A
    path that is no text is split by its members. -/
def satisfies (doc : Value) : List (Value × Value) → Except Fault Bool
  | [] => .ok true
  | (path, cond) :: rest => do
    let holds ←
      match path with
      | .text name => entries doc [(name, cond)]
      | _ => condition doc path cond
    if holds then satisfies doc rest else .ok false

end DocRepair.Filter
