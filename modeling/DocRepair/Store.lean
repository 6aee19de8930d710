import DocRepair.Store.Handle
/-!
# `DocRepair.Store` — what every store of documents can do

## Contents

* `Session` — a store together with the supply;
* `Access` — a computation on a session that may stop with a fault; what it did until then stays;
* `Store` — lookups, which leave the store as it is, and the three kinds of writes.
-/

namespace DocRepair

/-- A store in use, with the supply of identifiers and instants. -/
structure Session (σ : Type) where
  store : σ
  supply : Supply

/-- A computation on a session that may stop with a fault. -/
abbrev Access (σ : Type) := EStateM Fault (Session σ)

/-- What every store of documents can do. -/
class Store (σ : Type) where
  /-- The name of the store. -/
  name : σ → String
  /-- The field that identifies its documents. -/
  idField : σ → String
  /-- The documents that satisfy a filter, on loan. -/
  find : σ → Value → Except Fault (List Handle)
  /-- The first document that satisfies a filter, on loan. -/
  findOne : σ → Value → Except Fault (Option Handle)
  /-- Writes the given fields of a document on loan. The results are the handle afterwards, and the
      document as it is now stored or why it could not be. -/
  save : Handle → DirtySet → Access σ (Handle × Except Fault Handle)
  /-- Stores new documents. -/
  create : Value → Access σ (List Handle)
  /-- Removes a document. -/
  delete : Handle → Access σ Unit

namespace Access

/-- A result that may be a fault, without effect on the session. -/
def lift {σ α : Type} (r : Except Fault α) : Access σ α := fun s =>
  match r with
  | .ok a => .ok a s
  | .error e => .error e s

/-- What a lookup finds in the store. -/
def look {σ α : Type} (f : σ → Except Fault α) : Access σ α := fun s =>
  match f s.store with
  | .ok a => .ok a s
  | .error e => .error e s

/-- Changes the store. -/
def modifyStore {σ : Type} (f : σ → σ) : Access σ Unit := fun s =>
  .ok () { s with store := f s.store }

/-- A fresh identifier. -/
def mint {σ : Type} : Access σ ObjectId := fun s =>
  let (id, supply) := s.supply.mint
  .ok id { s with supply := supply }

/-- A document with an identifier: its own, or a fresh one. -/
def identify {σ : Type} (idField : String) (doc : Fields) : Access σ Fields := do
  if (Fields.getD doc idField).isNull then
    return Fields.set doc idField (.ident (← mint))
  else return doc

/-- Documents with identifiers, one after the other. -/
def identifyAll {σ : Type} (idField : String) : List Value → Access σ (List Fields)
  | [] => pure []
  | .object doc :: rest => do
    let doc ← identify idField doc
    return doc :: (← identifyAll idField rest)
  | other :: _ => lift (.error (.lacks other "get"))

/-- The outcome of an access as a value: a fault no longer stops what follows. -/
def attempt {σ α : Type} (a : Access σ α) : Access σ (Except Fault α) := fun s =>
  match a s with
  | .ok x s => .ok (.ok x) s
  | .error e s => .ok (.error e) s

/-- Runs an edit on the document of a handle. -/
def edit {σ α : Type} (h : Handle) (e : Edit α) : Access σ (Handle × α) := fun s =>
  match e (h.draft s.supply) with
  | .ok a d => .ok (h.afterDraft d, a) { s with supply := d.supply }
  | .error fault d => .error fault { s with supply := d.supply }

end Access

end DocRepair
