import DocRepair.Store
import DocRepair.Filter
/-!
# `DocRepair.Store.Collection` — documents held in memory

Documents are filed under the text of their identifier, in the order of their arrival. Whatever is
fetched is a copy, and a save writes no field but those it is told of. A save that finds no document
under the known identity files the whole copy as a new one; a save of a changed identifier files the
document anew, at the end.

## Contents

* `Collection` — the documents and what happened to them;
* `file` / `refile` — filing a new document, and filing one under another identifier;
* `find` / `findOne` / `get?` / `all` — lookups;
* `save` / `create` / `delete` — writes;
* `Collection.build` — a collection of given documents.
-/

namespace DocRepair

/-- Documents held in memory. `rejects` says which saves are refused; `saves` and `changes` count
    the saves attempted and the writes that went through. -/
structure Collection where
  name : String
  idField : String := Identity.defaultField
  docs : List (Option String × Fields) := []
  rejects : Handle → Bool := fun _ => false
  saves : Nat := 0
  changes : Nat := 0

namespace Collection

/-! ## Filing -/

/-- The document filed under a key. -/
def lookup : List (Option String × Fields) → Option String → Option Fields
  | [], _ => none
  | (k, doc) :: rest, key => if k = key then some doc else lookup rest key

/-- The documents with another one under a key that is in use. -/
def replace : List (Option String × Fields) → Option String → Fields →
    List (Option String × Fields)
  | [], _, _ => []
  | (k, doc) :: rest, key, new =>
    if k = key then (k, new) :: rest else (k, doc) :: replace rest key new

/-- The documents without the one under a key. -/
def discard : List (Option String × Fields) → Option String → List (Option String × Fields)
  | [], _ => []
  | (k, doc) :: rest, key => if k = key then rest else (k, doc) :: discard rest key

/-- The text of a key. -/
def keyText (key : Option String) : String := key.getD "None"

/-- A key that is already in use. -/
def clash (c : Collection) (key : Option String) : Fault :=
  .rejected ("duplicate " ++ c.idField ++ " " ++ keyText key ++ " in " ++ c.name)

/-- Files a new document under its identifier, a fresh one if it has none. -/
def file (doc : Fields) : Access Collection Fields := do
  let idField ← Access.look fun c => .ok c.idField
  let doc ← Access.identify idField doc
  let key ← Access.lift (Identity.filing (Fields.getD doc idField))
  fun s =>
    if (lookup s.store.docs key).isSome then .error (s.store.clash key) s
    else .ok doc { s with store := { s.store with docs := s.store.docs ++ [(key, doc)] } }

/-- Files the document under a key anew, under another identifier. -/
def refile (c : Collection) (key : Option String) (doc : Fields) (newId : Value) :
    Except Fault (Collection × Option String × Fields) := do
  let newKey ← Identity.filing newId
  if (lookup c.docs newKey).isSome then .error (c.clash newKey)
  else
    let doc := Fields.set doc c.idField newId
    .ok ({ c with docs := discard c.docs key ++ [(newKey, doc)] }, newKey, doc)

/-- Counts a write. -/
def changed (c : Collection) : Collection :=
  { c with changes := c.changes + 1 }

/-! ## Lookups -/

/-- All documents, in order. -/
def all (c : Collection) : List Fields :=
  c.docs.map (·.2)

/-- The document with an identifier. -/
def get? (c : Collection) (id : Value) : Except Fault (Option Fields) := do
  .ok (lookup c.docs (← Identity.filing id))

/-- A stored document on loan. -/
def loan (idField : String) (doc : Fields) : Handle :=
  { data := doc, idField := idField }

/-- The documents that satisfy a filter. -/
def selectFrom (filter : Value) : List Fields → Except Fault (List Fields)
  | [] => .ok []
  | doc :: rest => do
    let chosen ← Filter.matches? (.object doc) filter
    let others ← selectFrom filter rest
    .ok (if chosen then doc :: others else others)

/-- The first document that satisfies a filter. -/
def firstOf (filter : Value) : List Fields → Except Fault (Option Fields)
  | [] => .ok none
  | doc :: rest => do
    if ← Filter.matches? (.object doc) filter then .ok (some doc) else firstOf filter rest

/-- The documents that satisfy a filter, on loan. -/
def find (c : Collection) (filter : Value) : Except Fault (List Handle) := do
  .ok ((← selectFrom filter c.all).map (loan c.idField))

/-- The first document that satisfies a filter, on loan. -/
def findOne (c : Collection) (filter : Value) : Except Fault (Option Handle) := do
  .ok ((← firstOf filter c.all).map (loan c.idField))

/-! ## Writes -/

/-- A stored document after a save of one field: it takes the value that the copy has, or loses
    the field that the copy lost. The identifier field is not touched. -/
def writeField (idField : String) (data stored : Fields) (name : String) : Fields :=
  if name = idField then stored
  else
    match Fields.get? data name with
    | some v => Fields.set stored name v
    | none => Fields.erase stored name

/-- A stored document after a save of some fields. -/
def writeFields (idField : String) (data stored : Fields) (names : List String) : Fields :=
  names.foldl (writeField idField data) stored

/-- Writes the given fields over the document stored under a key, filing it anew if its identifier
    is among them and has changed. -/
def overwrite (c : Collection) (h : Handle) (fields : DirtySet) (key : Option String)
    (stored : Fields) : Except Fault (Collection × Fields) := do
  -- A clash is found here, before any field is written.
  let (c, key, stored) ←
    if ← h.renamedBy c.idField fields then c.refile key stored h.id
    else .ok (c, key, stored)
  let stored := writeFields c.idField h.data stored fields.fields
  .ok ({ c with docs := replace c.docs key stored }, stored)

/-- Counts an attempted save. -/
def attempted (c : Collection) : Collection :=
  { c with saves := c.saves + 1 }

/-- The refusal of a save. -/
def refusal (c : Collection) (h : Handle) : Fault :=
  .rejectedFor do .ok ("save rejected for " ++ c.idField ++ " " ++ (← h.id.plainText))

/-- Stores the given fields of a document on loan: over the document that the handle is known by,
    or as a new document if there is none. -/
def store (h : Handle) (fields : DirtySet) : Access Collection Fields := do
  let c ← Access.look .ok
  let key ← Access.lift (Identity.filing h.addressId)
  match lookup c.docs key with
  | none => file h.data
  | some stored => do
    let (c, stored) ← Access.lift (c.overwrite h fields key stored)
    Access.modifyStore fun _ => c
    return stored

/-- Writes the given fields of a document on loan. -/
def save (h : Handle) (fields : DirtySet) : Access Collection (Handle × Except Fault Handle) := do
  -- A refused save counts as well.
  Access.modifyStore attempted
  let c ← Access.look .ok
  if c.rejects h then return (h, .error (c.refusal h))
  else
    match ← Access.attempt (store h fields) with
    | .error fault => return (h, .error fault)
    | .ok stored => do
      Access.modifyStore changed
      return (h.settle (.apart (Fields.getD stored c.idField)), .ok (loan c.idField stored))

/-- Files documents one after the other. Those before a refused one stay. -/
def fileAll : List Value → Access Collection (List Fields)
  | [] => pure []
  | .object doc :: rest => do
    let doc ← file doc
    return doc :: (← fileAll rest)
  | other :: _ => Access.lift (.error (.lacks other "get"))

/-- Stores new documents. -/
def create (docs : Value) : Access Collection (List Handle) := do
  let created ← fileAll (← Access.lift docs.members)
  Access.modifyStore changed
  let c ← Access.look .ok
  return created.map (loan c.idField)

/-- Removes the document filed under the present identifier of a handle. -/
def delete (h : Handle) : Access Collection Unit := do
  let key ← Access.lift (Identity.filing h.id)
  Access.modifyStore fun c => { c with docs := discard c.docs key }.changed

instance : Store Collection where
  name := Collection.name
  idField := Collection.idField
  find := find
  findOne := findOne
  save := save
  create := create
  delete := delete

/-- A collection of given documents, filed one after the other into an empty one. -/
def build (empty : Collection) (docs : Value) (supply : Supply) :
    Except Fault Collection × Supply :=
  match (do fileAll (← Access.lift docs.members)) ⟨empty, supply⟩ with
  | .ok _ s => (.ok s.store, s.supply)
  | .error fault s => (.error fault, s.supply)

end Collection

end DocRepair
