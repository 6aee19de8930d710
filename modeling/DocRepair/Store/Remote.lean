import DocRepair.Store.Collection
/-!
# `DocRepair.Store.Remote` — documents of a database server

Lookups are answered from what the server holds, writes become commands for it. A save sends one
update, addressed by the identity under which the server knows the document, or nothing if there is
nothing to write.

## Contents

* `Command` — what is sent;
* `Remote` — the server's documents and the commands sent so far;
* `updateFor` — the update of a save: fields to set, and fields to unset;
* `save` / `create` / `delete` — writes.
-/

namespace DocRepair

/-- What is sent to a server. -/
inductive Command
  | updateOne (filter update : Fields)
  | insertMany (docs : List Fields)
  | deleteOne (filter : Fields)
deriving Repr

/-- Documents of a server, and the commands sent to it so far. -/
structure Remote where
  name : String
  idField : String := Identity.defaultField
  docs : List Fields := []
  sent : List Command := []

namespace Remote

/-- The field name that the server itself keeps fixed. -/
def fixedField : String := "_id"

/-- Sends a command. -/
def send (command : Command) : Access Remote Unit :=
  Access.modifyStore fun r => { r with sent := r.sent ++ [command] }

/-- The first document that satisfies conditions. -/
def firstOf (conditions : List (Value × Value)) : List Fields → Except Fault (Option Fields)
  | [] => .ok none
  | doc :: rest => do
    if ← Filter.satisfies (.object doc) conditions then .ok (some doc)
    else firstOf conditions rest

/-- The documents that satisfy a filter, on loan. -/
def find (r : Remote) (filter : Value) : Except Fault (List Handle) := do
  let conditions ← filter.asPairs
  let chosen ← r.docs.filterM fun doc => Filter.satisfies (.object doc) conditions
  .ok (chosen.map (Collection.loan r.idField))

/-- The first document that satisfies a filter, on loan. -/
def findOne (r : Remote) (filter : Value) : Except Fault (Option Handle) := do
  let conditions ← filter.asPairs
  .ok ((← firstOf conditions r.docs).map (Collection.loan r.idField))

/-- The fields that a save writes: all but an identifier field that has not changed. -/
def written (h : Handle) (idField : String) (fields : DirtySet) : List String :=
  fields.fields.filter fun name => !(name == idField && !h.idChanged)

/-- The values that an update sets. -/
def setPart (data : Fields) (names : List String) : Fields :=
  names.filterMap fun name => (Fields.get? data name).map (name, ·)

/-- The names that an update unsets. -/
def unsetPart (data : Fields) (names : List String) : Fields :=
  (names.filter fun name => !Fields.has data name).map (·, .text "")

/-- One part of an update, left out if it is empty. -/
def part (op : String) (fields : Fields) : Fields :=
  if fields.isEmpty then [] else [(op, .object fields)]

/-- The update of a save. -/
def updateFor (h : Handle) (idField : String) (fields : DirtySet) : Fields :=
  let names := written h idField fields
  part "$set" (setPart h.data names) ++ part "$unset" (unsetPart h.data names)

/-- A change of the field that the server keeps fixed. -/
def fixedIdentity (r : Remote) (h : Handle) : Fault :=
  .rejectedFor do
    let known ← h.knownId.plainText
    let id ← h.id.plainText
    .ok ("cannot change _id of " ++ r.name ++ " " ++ known ++ " to " ++ id)

/-- Writes the given fields of a document on loan. From then on the server is taken to know it
    under its present identifier. -/
def save (h : Handle) (fields : DirtySet) : Access Remote (Handle × Except Fault Handle) := do
  let r ← Access.look .ok
  match h.renamedBy r.idField fields with
  | .error fault => return (h, .error fault)
  | .ok renamed =>
    if renamed && r.idField == fixedField then return (h, .error (r.fixedIdentity h))
    else do
      let update := updateFor h r.idField fields
      if !update.isEmpty then send (.updateOne [(r.idField, h.addressId)] update)
      -- Whether or not anything was sent, nothing is left to write.
      let h := h.settle (.within [.field h.idField])
      return (h, .ok h)

/-- Stores new documents. -/
def create (docs : Value) : Access Remote (List Handle) := do
  let r ← Access.look .ok
  let created ← Access.identifyAll r.idField (← Access.lift docs.members)
  if !created.isEmpty then send (.insertMany created)
  return created.map (Collection.loan r.idField)

/-- Removes the document with the present identifier of a handle. -/
def delete (h : Handle) : Access Remote Unit := do
  let r ← Access.look .ok
  send (.deleteOne [(r.idField, h.id)])

instance : Store Remote where
  name := Remote.name
  idField := Remote.idField
  find := find
  findOne := findOne
  save := save
  create := create
  delete := delete

end Remote

end DocRepair
