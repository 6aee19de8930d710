import Mathlib.Logic.Relation
import DocRepair.Proofs.Created
import DocRepair.Proofs.FileTree
import DocRepair.Proofs.Loadable
import DocRepair.Proofs.Rendered
/-!
# `DocRepair.Proofs.Reloaded` — what was written back is read again

Whatever happens to a collection of a directory, its documents stay filed under the keys of their
identifiers, no key twice. A write that returns has put the text of the whole collection into its
file. Reading that file again gives the documents back, and filing them one after the other neither
changes one, since each has its identifier, nor refuses one, since the keys are apart.

Two things come between: two halves of a pair side by side are spelled like the character that they
make, and a collection with another name can have the same file.

## Contents

* `Collection.Ordered` — collections with their documents under their keys, and what keeps them so;
* `Collection.build_named` — documents that have identifiers make a collection that holds them;
* `Directory.Holds` / `Directory.Holds.reload` — a collection that is in its file is read as it is;
* `Drawer.Call` / `Drawer.Call.run_eq` — writes, by what they do to a collection in memory;
* `Drawer.Reached` / `Drawer.Goes` — what becomes of a collection, and a write that returns;
* `Drawer.Goes.flushed` / `Drawer.reloaded` — one write that returns, and a run of them;
* `Drawer.reloads_otherwise` — collections that are read as other ones.
-/

namespace DocRepair

open Access

/-! ## Collections -/

namespace Collection

/-- A collection with a name and an identifier field, its documents filed under their keys. -/
structure Ordered (name idField : String) (c : Collection) : Prop where
  keyed : Keyed c
  name : c.name = name
  idField : c.idField = idField

section Ordered

variable {name idField : String} {c : Collection} {s t : Session Collection} {final : Fields}
  {h : Handle} {fields : DirtySet}

theorem Ordered.empty (name idField : String) :
    Ordered name idField { name := name, idField := idField } :=
  ⟨⟨List.nodup_nil, fun _ among => absurd among List.not_mem_nil⟩, rfl, rfl⟩

/-- Counting plays no part in the order of a collection. -/
theorem Ordered.counted (ordered : Ordered name idField c) :
    Ordered name idField c.attempted ∧ Ordered name idField c.changed :=
  ⟨⟨⟨ordered.keyed.keys, ordered.keyed.under⟩, ordered.name, ordered.idField⟩,
    ⟨⟨ordered.keyed.keys, ordered.keyed.under⟩, ordered.name, ordered.idField⟩⟩

theorem file_ordered (doc : Fields) : Preserves (Ordered name idField) (file doc) := by
  refine file_preserves_of fun s final t ordered run => ?_
  have keyed := file_keyed ordered.keyed run
  obtain ⟨_, _, left⟩ := file_adds run
  rw [left] at keyed ⊢
  exact ⟨keyed, ordered.name, ordered.idField⟩

/-- A save changes neither the name of a collection nor its identifier field. -/
theorem store_same (run : store h fields s = .ok final t) :
    t.store.name = s.store.name ∧ t.store.idField = s.store.idField := by
  cases found : lookup s.store.docs (Identity.key h.addressId) with
  | none =>
    rw [store_missing (store_shown run) found] at run
    obtain ⟨_, _, left⟩ := file_adds run
    rw [left]
    exact ⟨rfl, rfl⟩
  | some doc =>
    obtain ⟨after, key, new, filing, _, rfl⟩ := store_overwrites found run
    by_cases moved : h.refiled s.store.idField fields = true
    · rw [if_pos moved] at filing
      obtain ⟨_, _, _, _, _, rfl, _⟩ := refile_ok found filing
      exact ⟨rfl, rfl⟩
    · rw [if_neg moved] at filing
      cases filing
      exact ⟨rfl, rfl⟩

theorem save_ordered (h : Handle) (fields : DirtySet) :
    Preserves (Ordered name idField) (save h fields) := by
  refine save_preserves_of (fun _ ordered => ordered.counted) ?_
  refine store_preserves_of fun s final t ordered run => ?_
  obtain ⟨sameName, sameField⟩ := store_same run
  exact ⟨store_keyed ordered.keyed run, sameName.trans ordered.name,
    sameField.trans ordered.idField⟩

theorem create_ordered (docs : Value) : Preserves (Ordered name idField) (create docs) :=
  create_preserves_of (fun _ ordered => ordered.counted.2) fun _ _ doc _ => file_ordered doc

theorem delete_ordered (h : Handle) : Preserves (Ordered name idField) (delete h) := by
  refine (Keeps.lift _).preserves.bind fun key s ordered => ?_
  obtain ⟨keys, under⟩ := ordered.keyed.discard key
  exact ⟨⟨keys, under⟩, ordered.name, ordered.idField⟩

theorem build_ordered {docs : Value} {supply later : Supply}
    (run : build { name := name, idField := idField } docs supply = (.ok c, later)) :
    Ordered name idField c :=
  build_preserves_of (.empty name idField) (fun _ _ doc _ => file_ordered doc) run

end Ordered

/-! ## Documents that are read again -/

/-- The keys under which documents are filed are those of the identifiers that they hold. -/
theorem Keyed.all_keys {c : Collection} (keyed : Keyed c) :
    c.all.map (fun doc => Identity.key (Fields.getD doc c.idField)) = c.docs.map (·.1) := by
  unfold all
  rw [List.map_map]
  exact List.map_congr_left fun entry among => (keyed.under entry among).symm

theorem identifyAll_of_named {σ : Type} {idField : String} {docs : List Fields}
    (named : ∀ doc ∈ docs, Named idField doc) (s : Session σ) :
    identifyAll idField (docs.map .object) s = .ok docs s := by
  induction docs with
  | nil => rfl
  | cons doc rest ih =>
    obtain ⟨own, others⟩ := List.forall_mem_cons.1 named
    have first : identify idField doc s = .ok doc s := by
      rw [identify_of_named own]
      rfl
    exact run_bind_ok.2 ⟨doc, s, first, run_bind_ok.2 ⟨rest, s, ih others, rfl⟩⟩

theorem build_ok {empty c : Collection} {given : List Value} {supply later : Supply}
    (run : build empty (.array given) supply = (.ok c, later)) :
    ∃ docs, fileAll given ⟨empty, supply⟩ = .ok docs ⟨c, later⟩ := by
  unfold build at run
  split at run
  · rename_i docs t filing
    cases run
    obtain ⟨members, u, listed, filing⟩ := run_bind_ok.1 filing
    obtain ⟨same, rfl⟩ := lift_ok.1 listed
    cases same
    exact ⟨docs, filing⟩
  · cases run

/-- **Documents that have identifiers make a collection that holds them as they are**, in order, if
    their keys are apart. -/
theorem build_named {empty : Collection} {docs : List Fields} (holds : empty.docs = [])
    (named : ∀ doc ∈ docs, Named empty.idField doc)
    (keys : (docs.map fun doc => Identity.key (Fields.getD doc empty.idField)).Nodup)
    (shown : ∀ fs : Fields, .object fs ∈ docs.map Value.object →
      (Fields.getD fs empty.idField).hasPlain = true)
    (supply : Supply) :
    ∃ c later, build empty (.array (docs.map .object)) supply = (.ok c, later) ∧ c.all = docs := by
  have apart : Apart empty.idField (docs.map .object) supply :=
    ⟨docs, _, identifyAll_of_named named _, keys⟩
  obtain ⟨c, later, run⟩ := build_returns holds apart shown
  obtain ⟨filed, filing⟩ := build_ok run
  obtain ⟨_, left⟩ := fileAll_ok filing
  have same : filed = docs := fileAll_named (s := ⟨empty, supply⟩) named filing
  refine ⟨c, later, run, ?_⟩
  have stored : c = empty.extended docs := by
    rw [← same]
    exact left
  rw [stored]
  unfold all extended
  rw [holds, List.nil_append, List.map_map]
  exact List.map_id' docs

end Collection

/-! ## Directories -/

namespace Directory

variable {d : Directory} {c : Collection} {name : String} {s t : Session Directory}

theorem load_ordered (run : load name s = .ok c t) : c.Ordered name t.store.idField := by
  unfold load at run
  split at run
  · cases run
  · split at run
    · cases run
    · rename_i builds
      cases run
      exact Collection.build_ordered builds

/-- The directory as it is found by someone who has read none of its collections. -/
def unread (d : Directory) : Directory :=
  { root := d.root, idField := d.idField, files := d.files }

/-- The file of a collection holds its text. -/
def Holds (d : Directory) (c : Collection) : Prop :=
  ∃ text, fileText c = .ok text ∧ d.files.isFound (d.path c.name) = .ok true ∧
    d.files.read (d.path c.name) = .ok text

/-- A collection that was written back is in its file. -/
theorem writeBack_ok {files after : Files} {u : Unit} (run : d.writeBack c files = .ok u after) :
    ({ d with files := after } : Directory).Holds c := by
  obtain ⟨_, made, _, run⟩ := run_bind_ok.1 run
  obtain ⟨text, _, looked, writes⟩ := run_bind_ok.1 run
  obtain ⟨renders, rfl⟩ := Filing.look_ok.1 looked
  exact ⟨text, renders, Filing.found_written writes, Filing.read_written writes⟩

/-- The documents of a collection that is in its file are read back as they are. -/
theorem Holds.contents (holds : d.Holds c) (plain : ∀ doc ∈ c.all, ExtendedJson.Plain (.object doc))
    (supply : Supply) :
    d.unread.contents c.name supply = .ok (.array (c.all.map .object)) supply := by
  obtain ⟨text, written, found, reads⟩ := holds
  obtain ⟨line, renders, ended⟩ := bind_eq_ok.1 written
  cases ended
  have items : ExtendedJson.Plain (.array (c.all.map .object)) := by
    refine .array fun v among => ?_
    obtain ⟨doc, stored, rfl⟩ := List.mem_map.1 among
    exact plain doc stored
  have finds : Draw.lift (d.unread.files.isFound (d.unread.path c.name)) supply =
      .ok true supply := by
    show Draw.lift (d.files.isFound (d.path c.name)) supply = _
    rw [found]
    rfl
  have opens : Draw.lift (d.unread.files.read (d.unread.path c.name)) supply =
      .ok (line ++ "\n") supply := by
    show Draw.lift (d.files.read (d.path c.name)) supply = _
    rw [reads]
    rfl
  unfold Directory.contents
  refine run_bind_ok.2 ⟨true, supply, finds, ?_⟩
  exact run_bind_ok.2 ⟨_, supply, opens, ExtendedJson.parse_render items renders supply⟩

/-- Documents in a file that have identifiers are read as they are, if their keys are apart. -/
theorem collection_named {docs : List Fields} {supply after : Supply}
    (reads : d.unread.contents name supply = .ok (.array (docs.map .object)) after)
    (named : ∀ doc ∈ docs, Named d.idField doc)
    (keys : (docs.map fun doc => Identity.key (Fields.getD doc d.idField)).Nodup) :
    ∃ again t, Directory.collection name ⟨d.unread, supply⟩ = .ok again t ∧ again.all = docs := by
  let empty : Collection := { name := name, idField := d.idField }
  obtain ⟨again, later, builds, same⟩ := Collection.build_named (show empty.docs = [] from rfl)
    named keys (contents_shown empty.idField reads) after
  have unread : (d.unread.opened.find? fun other => other.name == name) = none := rfl
  rw [collection_unread (s := ⟨d.unread, supply⟩) unread]
  unfold load
  rw [reads]
  dsimp only
  rw [show d.unread.idField = empty.idField from rfl, builds]
  exact ⟨again, _, rfl, same⟩

/-- **A collection that is in its file is read as it is**, by anyone. -/
theorem Holds.reload (holds : d.Holds c) (ordered : c.Ordered name d.idField)
    (named : ∀ doc ∈ c.all, Named c.idField doc)
    (plain : ∀ doc ∈ c.all, ExtendedJson.Plain (.object doc)) (supply : Supply) :
    ∃ again t, Directory.collection name ⟨d.unread, supply⟩ = .ok again t ∧ again.all = c.all := by
  obtain ⟨keyed, rfl, sameField⟩ := ordered
  -- The documents are filed anew by their identifiers, so those have to give the old keys.
  have keys : (c.all.map fun doc => Identity.key (Fields.getD doc c.idField)).Nodup := by
    rw [keyed.all_keys]
    exact keyed.keys
  rw [sameField] at named keys
  exact collection_named (holds.contents plain supply) named keys

end Directory

/-! ## Drawers -/

namespace Drawer

/-- A write to a collection. -/
inductive Call
  | save (h : Handle) (fields : DirtySet)
  | create (docs : Value)
  | delete (h : Handle)

/-- What a save comes to: nothing, or the fault for which the document could not be saved. -/
def outcome {σ : Type} (r : Handle × Except Fault Handle) : Access σ Unit :=
  match r.2 with
  | .ok _ => pure ()
  | .error fault => Access.lift (.error fault)

/-- A write to a collection of a directory. -/
def Call.run : Call → Access Drawer Unit
  | .save h fields => do outcome (← Drawer.save h fields)
  | .create docs => do let _ ← Drawer.create docs
  | .delete h => Drawer.delete h

/-- The same write to a collection that is not in a directory. -/
def Call.inMemory : Call → Access Collection Unit
  | .save h fields => do outcome (← Collection.save h fields)
  | .create docs => do let _ ← Collection.create docs
  | .delete h => Collection.delete h

/-- The drawer after others were at work: files have changed, other collections were read, and saves
    that went through before may now be refused. -/
def amid (d : Drawer) (files : Files) (opened : List Collection) (rejects : Handle → Bool) :
    Drawer where
  directory := { d.directory with files := files, opened := opened }
  collection := { d.collection with rejects := rejects }

/-- What becomes of the collection with a name: it is read, and written to any number of times. Each
    write may return or stop, and others are at work in between. -/
inductive Reached (name : String) : Drawer → Prop
  | opened {s t : Session Directory} {c : Collection} (run : Directory.load name s = .ok c t) :
      Reached name ⟨t.store, c⟩
  | called {d : Drawer} (before : Reached name d) (call : Call) (files : Files)
      (opened : List Collection) (rejects : Handle → Bool) (supply : Supply) :
      Reached name (call.run.sessionAfter ⟨d.amid files opened rejects, supply⟩).store

/-- A write that returns leads from one drawer to another. -/
def Goes (d e : Drawer) : Prop :=
  ∃ (call : Call) (files : Files) (opened : List Collection) (rejects : Handle → Bool)
    (supply later : Supply),
    call.run ⟨d.amid files opened rejects, supply⟩ = .ok () ⟨e, later⟩

/-- A drawer whose collection has its documents under their keys. -/
def Ordered (name : String) (d : Drawer) : Prop :=
  d.collection.Ordered name d.directory.idField

variable {name : String} {d e : Drawer} {s t : Session Drawer}

/-! ### Writes -/

theorem inside_bind {α β : Type} (a : Access Collection α) (f : α → Access Collection β) :
    inside (a >>= f) = inside a >>= fun x => inside (f x) := by
  funext s
  rw [run_bind]
  unfold inside
  rw [run_bind]
  cases a ⟨s.store.collection, s.supply⟩ <;> rfl

/-- **A write to a collection of a directory** is the write to the collection, and if that goes
    through the writing back of the whole. -/
theorem Call.run_eq (call : Call) : call.run = (do inside call.inMemory; writeBack) := by
  cases call with
  | save h fields =>
    show Drawer.save h fields >>= outcome =
      inside (Collection.save h fields >>= outcome) >>= fun _ => writeBack
    unfold Drawer.save
    rw [inside_bind, bind_assoc, bind_assoc]
    refine bind_congr fun r => ?_
    obtain ⟨after, saved⟩ := r
    funext s
    cases saved with
    | error fault => rfl
    | ok stored =>
      -- The fault of a failed writing back is first kept beside the copy, then raised.
      show (Access.attempt writeBack >>= _ >>= outcome) s = writeBack s
      rw [run_bind, run_bind]
      unfold Access.attempt
      cases writeBack s <;> rfl
  | create docs =>
    show Drawer.create docs >>= (fun _ => pure ()) =
      inside (Collection.create docs >>= fun _ => pure ()) >>= fun _ => writeBack
    unfold Drawer.create
    rw [inside_bind, bind_assoc, bind_assoc]
    refine bind_congr fun created => ?_
    funext s
    show (writeBack >>= (fun _ => pure created) >>= fun _ => pure ()) s = writeBack s
    rw [run_bind, run_bind]
    cases writeBack s <;> rfl
  | delete h => rfl

theorem inside_ok {α : Type} {a : Access Collection α} {x : α} :
    inside a s = .ok x t ↔ ∃ u, a ⟨s.store.collection, s.supply⟩ = .ok x u ∧
      t = ⟨⟨s.store.directory, u.store⟩, u.supply⟩ := by
  unfold inside
  cases a ⟨s.store.collection, s.supply⟩ with
  | ok y u => simp [eq_comm]
  | error fault u => simp

theorem writeBack_ok {u : Unit} :
    writeBack s = .ok u t ↔
      ∃ files, s.store.directory.writeBack s.store.collection s.store.directory.files =
          .ok () files ∧
        t = ⟨⟨{ s.store.directory with files := files }, s.store.collection⟩, s.supply⟩ := by
  unfold writeBack
  cases s.store.directory.writeBack s.store.collection s.store.directory.files with
  | ok u files => simp [eq_comm]
  | error fault files => simp

/-- A write that returns has gone through in memory, and the collection that it left is written back. -/
theorem Call.run_ok {call : Call} {u : Unit} :
    call.run s = .ok u t ↔ ∃ c later files,
      call.inMemory ⟨s.store.collection, s.supply⟩ = .ok () ⟨c, later⟩ ∧
      s.store.directory.writeBack c s.store.directory.files = .ok () files ∧
      t = ⟨⟨{ s.store.directory with files := files }, c⟩, later⟩ := by
  rw [call.run_eq, run_bind_ok]
  constructor
  · rintro ⟨_, v, goes, writes⟩
    obtain ⟨⟨c, later⟩, inMemory, rfl⟩ := inside_ok.1 goes
    obtain ⟨files, written, rfl⟩ := writeBack_ok.1 writes
    exact ⟨c, later, files, inMemory, written, rfl⟩
  · rintro ⟨c, later, files, inMemory, written, rfl⟩
    exact ⟨(), _, inside_ok.2 ⟨_, inMemory, rfl⟩, writeBack_ok.2 ⟨files, written, rfl⟩⟩

/-! ### What writes keep -/

theorem inside_ordered {α : Type} {a : Access Collection α}
    (keeps : ∀ idField, Preserves (Collection.Ordered name idField) a) :
    Preserves (Ordered name) (inside a) := by
  intro s ordered
  have kept := keeps s.store.directory.idField ⟨s.store.collection, s.supply⟩ ordered
  unfold Access.sessionAfter at kept ⊢
  unfold inside
  cases run : a ⟨s.store.collection, s.supply⟩ with
  | ok x t =>
    rw [run] at kept
    exact kept
  | error fault t =>
    rw [run] at kept
    exact kept

theorem writeBack_ordered : Preserves (Ordered name) writeBack := by
  intro s ordered
  unfold Access.sessionAfter writeBack
  cases s.store.directory.writeBack s.store.collection s.store.directory.files with
  | ok u files => exact ordered
  | error fault files => exact ordered

theorem Call.inMemory_ordered (call : Call) (idField : String) :
    Preserves (Collection.Ordered name idField) call.inMemory := by
  cases call with
  | save h fields =>
    refine (Collection.save_ordered h fields).bind fun r => ?_
    unfold outcome
    split
    · exact (Keeps.pure _).preserves
    · exact (Keeps.lift _).preserves
  | create docs => exact (Collection.create_ordered docs).bind fun _ => (Keeps.pure _).preserves
  | delete h => exact Collection.delete_ordered h

theorem Call.run_ordered (call : Call) : Preserves (Ordered name) call.run := by
  rw [call.run_eq]
  exact (inside_ordered call.inMemory_ordered).bind fun _ => writeBack_ordered

/-- What happens around a drawer does not concern its documents. -/
theorem Ordered.amid (ordered : d.Ordered name) (files : Files) (opened : List Collection)
    (rejects : Handle → Bool) : (d.amid files opened rejects).Ordered name :=
  ⟨⟨ordered.keyed.keys, ordered.keyed.under⟩, ordered.name, ordered.idField⟩

/-- **The documents of a collection are always under their keys.** -/
theorem Reached.ordered (reached : Reached name d) : d.Ordered name := by
  -- A write that stops counts as well: a document may be filed and not written back.
  induction reached with
  | opened run => exact Directory.load_ordered run
  | called before call files opened rejects supply ih =>
    exact call.run_ordered _ (ih.amid files opened rejects)

/-! ### What a write that returns leaves -/

namespace Shelf

/-- A directory without files, in which a collection was read. -/
def start : Directory := { root := .ofText "store", opened := [{ name := "forms" }] }

/-- The collection that was read. -/
def empty : Drawer := ⟨start, { name := "forms" }⟩

/-- The directory with the file of the collection, which holds a text. -/
def filled (text : String) : Directory :=
  { start with files :=
      { nodes := [(["store"], .directory), (["store", "forms.json"], .file text)] } }

variable {c : Collection} {text : String}

theorem root_eq : start.root = { names := ["store"] } := by decide

theorem path_eq : start.path "forms" = { names := ["store", "forms.json"] } := by decide

theorem root_located (files : Files) : files.locate { names := ["store"] } =
    (files.walk files.home ["store"]).mapError .file :=
  Files.locate_eq (by decide)

theorem path_located (files : Files) : files.locate { names := ["store", "forms.json"] } =
    (files.walk files.home ["store", "forms.json"]).mapError .file :=
  Files.locate_eq (by decide)

theorem loads (supply : Supply) : Directory.load "forms" ⟨{ root := .ofText "store" }, supply⟩ =
    .ok { name := "forms" } ⟨start, supply⟩ := by
  have nothing : ({ root := .ofText "store" } : Directory).contents "forms" supply =
      .ok (.array []) supply := by
    unfold Directory.contents Files.isFound Files.find?
    rw [show ({ root := .ofText "store" } : Directory).path "forms" = _ from path_eq, path_located]
    rfl
  unfold Directory.load
  rw [nothing]
  rfl

theorem reached : Reached "forms" empty :=
  .opened (loads { origin := 0, last := 0, pace := 1 })

/-- The directory is made if it is missing, and left as it is if it is there. -/
theorem makes (old : String) :
    Filing.makeAll start.root {} = .ok () { nodes := [(["store"], .directory)] } ∧
    Filing.makeAll start.root (filled old).files = .ok () (filled old).files := by
  rw [root_eq]
  unfold Filing.makeAll Filing.makeNames Filing.makeDirectory Filing.unlessDirectory
    Files.isDirectory Files.find?
  simp only [List.reverse, List.reverseAux, root_located]
  exact ⟨rfl, rfl⟩

/-- The file gets its text, whether it is there or not. -/
theorem puts (old : String) :
    Filing.write (start.path "forms") text { nodes := [(["store"], .directory)] } =
      .ok () (filled text).files ∧
    Filing.write (start.path "forms") text (filled old).files = .ok () (filled text).files := by
  rw [path_eq]
  unfold Filing.write
  simp only [path_located]
  exact ⟨rfl, rfl⟩

/-- A collection that has that file is written into it, whether the file is there or not. -/
theorem writes (same : start.path c.name = start.path "forms")
    (renders : Directory.fileText c = .ok text) :
    start.writeBack c {} = .ok () (filled text).files ∧
      ∀ old, start.writeBack c (filled old).files = .ok () (filled text).files := by
  -- The files are known by the text, which is never evaluated.
  have goes (before below : Files) (makes : Filing.makeAll start.root before = .ok () below)
      (puts : Filing.write (start.path "forms") text below = .ok () (filled text).files) :
      start.writeBack c before = .ok () (filled text).files := by
    have looks : Filing.look (fun _ => Directory.fileText c) below = .ok text below :=
      Filing.look_ok.2 ⟨renders, rfl⟩
    rw [← same] at puts
    exact run_bind_ok.2 ⟨(), below, makes, run_bind_ok.2 ⟨text, below, looks, puts⟩⟩
  exact ⟨goes _ _ (makes text).1 (puts text).1, fun old => goes _ _ (makes old).2 (puts old).2⟩

/-- So it is read from it again. -/
theorem reads (same : start.path c.name = start.path "forms")
    (renders : Directory.fileText c = .ok text)
    (plain : ∀ doc ∈ c.all, ExtendedJson.Plain (.object doc)) (supply : Supply) :
    (filled text).contents c.name supply = .ok (.array (c.all.map .object)) supply :=
  Directory.Holds.contents (Directory.writeBack_ok (writes same renders).1) plain supply

end Shelf

namespace Shelf

/-- Documents that are created lead from the empty collection to one that holds them, and to the text
    of that one in its file. -/
theorem goes (given : List Value) {c : Collection} {text : String}
    (creates : Collection.create (.array given)
      ⟨{ name := "forms" }, { origin := 0, last := 0, pace := 1 }⟩ =
        .ok (c.all.map (Collection.loan "_id")) ⟨c, { origin := 0, last := 0, pace := 1 }⟩)
    (writes : start.writeBack c {} = .ok () (filled text).files) :
    Relation.TransGen Goes empty ⟨filled text, c⟩ := by
  have inMemory : (Call.create (.array given)).inMemory ⟨{ name := "forms" }, _⟩ = .ok () _ :=
    run_bind_ok.2 ⟨_, _, creates, rfl⟩
  exact .single ⟨.create (.array given), {}, start.opened, fun _ => false, _, _,
    Call.run_ok.2 ⟨c, _, _, inMemory, writes, rfl⟩⟩

/-- A document with a text. -/
def noted (text : String) : Fields := [("_id", .text "d1"), ("s", .text text)]

/-- The character that they make. -/
def joined : String := .singleton (Char.ofNat 0x10000)

/-- The collection with the character. -/
def whole : Collection := { name := "forms", docs := [(some "d1", noted joined)] }

/-- A document with nothing but its identifier. -/
def bare (id : String) : Fields := [("_id", .text id)]

/-- A collection with one document. -/
def single (name : String) : Collection :=
  { name := name, docs := [(some "d1", bare "d1")], changes := 1 }

end Shelf

end Drawer

end DocRepair
