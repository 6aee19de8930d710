import DocRepair.Store.Collection
import DocRepair.ExtendedJson
import DocRepair.Files
/-!
# `DocRepair.Store.Directory` — collections in files

A directory holds a file for each collection. A collection is read when it is first asked for, and
written back as a whole after each write that went through. Where that fails the write has still
happened: the collection keeps it, and so does the handle.

## Contents

* `Directory` — the files, and the collections read so far;
* `names` — the collections that have a file;
* `collection` — the collection with a name;
* `Drawer` — one collection of a directory, as a store that writes back;
* `withCollection` — an access to one collection.
-/

namespace DocRepair

/-- A directory of collections: where it is, the files around it, and the collections read. -/
structure Directory where
  root : FilePath
  idField : String := Identity.defaultField
  files : Files := {}
  opened : List Collection := []

namespace Directory

/-- What the names of the files end in. -/
def ending : List Char := ".json".toList

/-- The path of the file of a collection in a directory. -/
def fileOf (root : FilePath) (name : String) : FilePath :=
  root.join (.ofText (name ++ String.ofList ending))

/-- The path of the file of a collection. -/
def path (d : Directory) (name : String) : FilePath :=
  fileOf d.root name

/-- The name of the collection that a file holds. -/
def stem? (file : String) : Option String :=
  let chars := file.toList
  let size := chars.length - ending.length
  if ending.isSuffixOf chars then
    some (if size = 0 then file else String.ofList (chars.take size))
  else none

/-- The collections that have a file, in ascending order; none unless the directory is there. -/
def names (d : Directory) : Except Fault (List String) := do
  if ← d.files.isDirectory d.root then
    .ok (((d.files.inside (← d.files.locate d.root)).filterMap stem?).mergeSort (· ≤ ·))
  else .ok []

/-- The documents of a collection as its file holds them; none without a file. -/
def contents (d : Directory) (name : String) : Draw Value := do
  if ← Draw.lift (d.files.isFound (d.path name)) then
    ExtendedJson.parse (← Draw.lift (d.files.read (d.path name)))
  else return .array []

/-- The collections with one of them replaced, or a new one at the end. -/
def putCollection : List Collection → Collection → List Collection
  | [], c => [c]
  | other :: rest, c => if other.name = c.name then c :: rest else other :: putCollection rest c

/-- Reads a collection from its file. -/
def load (name : String) : Access Directory Collection := fun s =>
  match s.store.contents name s.supply with
  | .error fault supply => .error fault { s with supply := supply }
  | .ok docs supply =>
    match Collection.build { name := name, idField := s.store.idField } docs supply with
    | (.error fault, supply) => .error fault { s with supply := supply }
    | (.ok c, supply) =>
      .ok c ⟨{ s.store with opened := putCollection s.store.opened c }, supply⟩

/-- The collection with a name, read from its file the first time. -/
def collection (name : String) : Access Directory Collection := do
  let d ← Access.look .ok
  match d.opened.find? fun c => c.name == name with
  | some c => return c
  | none => load name

/-- The text of a collection's file. -/
def fileText (c : Collection) : Except Fault String := do
  .ok ((← ExtendedJson.render (.array (c.all.map .object))) ++ "\n")

/-- Writes a collection back to its file. The directory is made first, if it is missing. -/
def writeBack (d : Directory) (c : Collection) : Filing Unit := do
  Filing.makeAll d.root
  let text ← Filing.look fun _ => fileText c
  Filing.write (d.path c.name) text

end Directory

/-! ## One collection -/

/-- A collection of a directory. -/
structure Drawer where
  directory : Directory
  collection : Collection

namespace Drawer

/-- An access to the collection alone. -/
def inside {α : Type} (a : Access Collection α) : Access Drawer α := fun s =>
  match a ⟨s.store.collection, s.supply⟩ with
  | .ok x t => .ok x ⟨{ s.store with collection := t.store }, t.supply⟩
  | .error fault t => .error fault ⟨{ s.store with collection := t.store }, t.supply⟩

/-- Writes the collection back to its file. -/
def writeBack : Access Drawer Unit := fun s =>
  let keep (files : Files) : Session Drawer :=
    { s with store := { s.store with directory := { s.store.directory with files := files } } }
  match s.store.directory.writeBack s.store.collection s.store.directory.files with
  | .ok _ files => .ok () (keep files)
  | .error fault files => .error fault (keep files)

/-- Writes the given fields of a document on loan. -/
def save (h : Handle) (fields : DirtySet) : Access Drawer (Handle × Except Fault Handle) := do
  let (h, saved) ← inside (Collection.save h fields)
  match saved with
  | .error fault => return (h, .error fault)
  | .ok stored =>
    match ← Access.attempt writeBack with
    | .ok _ => return (h, .ok stored)
    | .error fault => return (h, .error fault)

/-- Stores new documents. -/
def create (docs : Value) : Access Drawer (List Handle) := do
  let created ← inside (Collection.create docs)
  writeBack
  return created

/-- Removes the document filed under the present identifier of a handle. -/
def delete (h : Handle) : Access Drawer Unit := do
  inside (Collection.delete h)
  writeBack

instance : Store Drawer where
  name d := d.collection.name
  idField d := d.collection.idField
  find d filter := d.collection.find filter
  findOne d filter := d.collection.findOne filter
  save := save
  create := create
  delete := delete

/-- The directory after the drawer is shut. -/
def shut (d : Drawer) : Directory :=
  { d.directory with opened := Directory.putCollection d.directory.opened d.collection }

end Drawer

namespace Directory

/-- An access to the collection with a name. -/
def withCollection {α : Type} (name : String) (a : Access Drawer α) : Access Directory α := do
  let c ← collection name
  fun s =>
    match a ⟨⟨s.store, c⟩, s.supply⟩ with
    | .ok x t => .ok x ⟨t.store.shut, t.supply⟩
    | .error fault t => .error fault ⟨t.store.shut, t.supply⟩

end Directory

end DocRepair
