import DocRepair.CommandLine
import DocRepair.Proofs.Unwritten
/-!
# `DocRepair.Proofs.CommandLine` — commands that are not to save

A command reads collections from files and works on them in memory; a file is written only behind a
write to a collection. So a command that is not to save leaves all files as they are, however it
ends. A call on a collection that is to save can stop behind its first write, if an identifier cannot
be shown.

## Contents

* `Directory.withCollection_keeps` — an access to one collection that leaves the files alone;
* `CommandLine.call_keeps` — the call of a command that is not to save;
* `CommandLine.run_files` — a whole command;
* `nothing_written_unasked` — calls, transfers and commands together;
* `first_written_second_hidden` — a call that stops behind its first write.
-/

namespace DocRepair

open Access

/-! ## Directories -/

namespace Directory

/-- The files around an open collection. -/
def aroundDrawer (d : Drawer) : Files := d.directory.files

/-- Reading a collection leaves the files alone. -/
theorem load_keeps (name : String) : Keeps Directory.files (load name) := by
  intro s
  unfold sessionAfter load
  cases s.store.contents name s.supply with
  | error fault supply => rfl
  | ok docs supply =>
    dsimp only
    rcases Collection.build { name := name, idField := s.store.idField } docs supply with
      ⟨fault | c, after⟩
    · rfl
    · rfl

theorem collection_keeps (name : String) : Keeps Directory.files (collection name) := by
  refine (Keeps.look _).bind fun d => ?_
  cases d.opened.find? fun c => c.name == name with
  | none => exact load_keeps name
  | some c => exact Keeps.pure c

/-- What leaves the files around an open collection alone does so when the collection is opened and
    shut around it. -/
theorem withCollection_keeps {α : Type} {a : Access Drawer α} (name : String)
    (ha : Keeps aroundDrawer a) : Keeps Directory.files (withCollection name a) := by
  refine (collection_keeps name).bind fun c s => ?_
  unfold sessionAfter
  cases run : a ⟨⟨s.store, c⟩, s.supply⟩ with
  | ok x t => dsimp only; rw [run]; exact ha.ok run
  | error fault t => dsimp only; rw [run]; exact ha.error run

end Directory

namespace CommandLine

/-! ## The call of a command -/

theorem callOn_keeps (settings : Settings) (c : Command) (fs : Fields) :
    Keeps Directory.aroundDrawer (callOn settings c fs false) := by
  cases c with
  | get | stats | transfer | unique => exact Keeps.look _
  | create => exact (Gateway.Call.create _).run_keeps settings
  | change => exact (Gateway.Call.execute _ _ false).run_keeps settings
  | status => exact (Gateway.Call.setStatus _ _ _).run_keeps settings
  | push => exact (Gateway.Call.push _ _ _ _).run_keeps settings
  | addIds => exact (Gateway.Call.addIds _ _ _).run_keeps settings
  | inject => exact (Gateway.Call.inject _ _ _ _).run_keeps settings
  | duplicate => exact (Gateway.Call.duplicate _ _).run_keeps settings
  | dedupe => exact (Gateway.Call.dedupe _ _ _).run_keeps settings
  | duplicates => exact Gateway.findDuplicates_keeps settings _ _ _
  | delete => exact (Gateway.Call.delete _ _).run_keeps settings
  | translate => exact (Gateway.Call.translate _ _).run_keeps settings
  | modifyArray => exact (Gateway.Call.modifyArray _ _).run_keeps settings

theorem callTransfer_keeps (fs : Fields) (p : Parsed) :
    Keeps Directory.files (callTransfer fs p false) := by
  refine (Keeps.lift _).bind fun source => (Directory.collection_keeps source).bind fun c => ?_
  refine (Keeps.lift _).bind fun target => Directory.withCollection_keeps target ?_
  exact Transfer.transfer_keeps _ _ c

theorem call_keeps (settings : Settings) (c : Command) {p : Parsed} (fs : Fields)
    (dry : p.has "--save" = false) : Keeps Directory.files (call settings c p fs) := by
  by_cases transferring : c = .transfer
  · simp only [call, dry, transferring, if_true]
    exact (callTransfer_keeps fs p).bind fun _ => Keeps.pure _
  · simp only [call, dry, transferring, if_false]
    refine (Keeps.lift _).bind fun name => ?_
    exact (Directory.withCollection_keeps name (callOn_keeps settings c fs)).bind fun _ =>
      Keeps.pure _

theorem callStatistics_keeps (settings : Settings) (now : Statistics.Moment) :
    Keeps Directory.files (callStatistics settings now) := by
  refine (Keeps.look _).bind fun names => ?_
  refine (Keeps.mapM Directory.collection_keeps names).bind fun collections => ?_
  exact (Keeps.lift _).bind fun _ => (Keeps.lift _).bind fun _ => Keeps.pure _

/-! ## How a command ends -/

/-- What a command prints has nothing to do with the files it leaves. -/
theorem printing_files (code : Nat) (payload : Value) (files : Files) (supply : Supply) :
    (printing code payload files supply).files = files := by
  unfold printing
  cases ExtendedJson.render payload <;> rfl

theorem endedBy_files (files : Files) (supply : Supply) (fault : Fault) :
    (endedBy files supply fault).files = files := by
  cases fault with
  | failure f => exact printing_files _ _ _ _
  | _ => rfl

/-- A command leaves the files that its call leaves. -/
theorem endedAfter_files {a : Access Directory Answer} (ha : Keeps Directory.files a)
    (s : Session Directory) : (endedAfter (a s)).files = s.store.files := by
  cases run : a s with
  | ok answer t => exact (printing_files _ _ _ _).trans (ha.ok run)
  | error fault t => exact (endedBy_files _ _ _).trans (ha.error run)

theorem runRequest_files (m : Machine) (settings : Settings) {directory : Directory} (c : Command)
    {p : Parsed} (here : directory.files = m.files) (dry : p.has "--save" = false) :
    (runRequest m settings directory c p).files = m.files := by
  unfold runRequest
  split
  · exact endedBy_files _ _ _
  · rfl
  · split
    · split
      · rfl
      · exact endedBy_files _ _ _
    · split
      · exact endedBy_files _ _ _
      · exact (endedAfter_files (call_keeps settings c _ dry) _).trans here

/-- Whether a command line asks to save what its call writes. -/
def asksToSave (args : List String) : Bool :=
  match parse args with
  | .ok (_, p) => p.has "--save"
  | .error _ => false

/-- **A command that is not to save leaves all files as they were**, however it ends. -/
theorem run_files (m : Machine) {args : List String} (dry : asksToSave args = false) :
    (run m args).files = m.files := by
  unfold run
  unfold asksToSave at dry
  cases parsed : parse args with
  | error ending => cases ending <;> rfl
  | ok line =>
    obtain ⟨c, p⟩ := line
    have notAsked : p.has "--save" = false := by rw [parsed] at dry; exact dry
    simp only
    split
    · rfl
    · exact endedBy_files _ _ _
    · rename_i settings root _ _
      unfold runOn
      split
      · exact endedAfter_files (callStatistics_keeps settings m.now) _
      · exact runRequest_files m settings c rfl notAsked

end CommandLine

/-! ## All of it -/

/-- **Nothing is written unless it is asked for and every edit succeeded.** Calls and transfers that
    are not to persist, and commands that are not to save, leave everything as it was; so does a
    call that is to persist and stops with a fault, as long as the identifiers of what it would write
    can be shown. -/
theorem nothing_written_unasked :
    (∀ (σ : Type) [Store σ] (settings : Settings) (call : Gateway.Call) (s : Session σ),
      ((call.run settings false).sessionAfter s).store = s.store) ∧
    (∀ (σ τ : Type) [Store σ] [Store τ] (plan : Transfer.Plan) (fromQuery : Value) (source : σ)
      (s : Session τ), ((transfer plan fromQuery source false).sessionAfter s).store = s.store) ∧
    (∀ (m : CommandLine.Machine) (args : List String), CommandLine.asksToSave args = false →
      (CommandLine.run m args).files = m.files) ∧
    (∀ (settings : Settings) (call : Gateway.Call) (s t : Session Collection) (fault : Fault),
      call.Shown settings s → call.run settings true s = .error fault t → t.store = s.store) := by
  refine ⟨?_, ?_, ?_, ?_⟩
  · intro σ _ settings call s
    have kept : Keeps id (call.run settings false : Access σ Outcome) := call.run_keeps settings
    exact kept s
  · intro σ τ _ _ plan fromQuery source s
    have kept : Keeps id (transfer plan fromQuery source false : Access τ TransferReport) :=
      Transfer.transfer_keeps plan fromQuery source
    exact kept s
  · intro m args dry
    exact CommandLine.run_files m dry
  · intro settings call s t fault shown stop
    have kept : id t.store = id s.store := Gateway.Call.run_stops shown stop
    exact kept

/-- Two documents are selected, and the edit of the second one fails. -/
theorem nothing_written_unasked_second_fails :
    let docs : Collection :=
      { name := "forms"
        docs := [(some "d1", [("_id", .text "d1"), ("n", .object [])]),
          (some "d2", [("_id", .text "d2"), ("n", .int 1)])] }
    let supply : Supply := { origin := 0, last := 0, pace := 1 }
    let call : Gateway.Call :=
      .execute (.object []) (.object [("n.x", .object [("$set", .int 5)])]) true
    call.Shown {} ⟨docs, supply⟩ ∧
    (∃ fault t, call.run {} true ⟨docs, supply⟩ = .error fault t ∧ t.store = docs) ∧
    (∀ files now, (CommandLine.run ⟨files, [], "", supply, now⟩
      ["change", "--store", "data", "--collection", "forms", "--request", "-"]).files = files) := by
  intro docs supply call
  have stops : ∃ fault t, call.run {} true ⟨docs, supply⟩ = .error fault t := ⟨_, _, rfl⟩
  obtain ⟨fault, t, stop⟩ := stops
  have shown : call.Shown {} ⟨docs, supply⟩ := by
    intro _ o t run
    cases run
  refine ⟨shown, ⟨fault, t, stop, ?_⟩, fun files now => ?_⟩
  · exact nothing_written_unasked.2.2.2 {} call ⟨docs, supply⟩ t fault shown stop
  · exact nothing_written_unasked.2.2.1 _ _ rfl

/-- Numbers are moved into two identifiers, and the second one is too long to be shown. By then the
    first document has been stored under its new identifier. -/
theorem first_written_second_hidden :
    let long : Value := .int Text.Digit.beyond
    let c : Collection :=
      { name := "forms"
        docs := [(some "[1]", [("_id", .array [.int 1]), ("n", .int 5)]),
          (some "[2]", [("_id", .array [.int 2]), ("n", long)])] }
    let supply : Supply := { origin := 0, last := 0, pace := 1 }
    let call : Gateway.Call := .translate (.object [])
      (.array [.object [("from_field", .text "n"), ("to_field", .text "_id.0")]])
    ∃ fault t, call.run {} true ⟨c, supply⟩ = .error fault t ∧ t.store ≠ c := by
  intro long c supply call
  have stops : stopsWith (·.store.docs.length == 3) (call.run {} true ⟨c, supply⟩) = true := by
    decide +kernel
  obtain ⟨fault, t, stopped, many⟩ := exists_of_stopsWith stops
  refine ⟨fault, t, stopped, fun same => ?_⟩
  rw [same] at many
  cases many

end DocRepair
