import DocRepair.Files
import DocRepair.Proofs.Computations
/-!
# `DocRepair.Proofs.FileTree` — a file that was written is there

A file is written at the location that its path names, where no directory may lie. So the directories
on the way stay what they are: the path names the same location afterwards, and the text is found there.

## Contents

* `Files.lookup_putNode_…` / `Files.node?_put_…` — what lies where after a change;
* `FilePath.Sought` / `Files.locate_eq` — paths that can be looked for, and what they name;
* `Files.walk_put` / `Files.locate_put` — a path to a file leads there when the file is written;
* `Filing.write_ok` — what a write does;
* `Filing.found_written` / `Filing.read_written` — the file is there, with its text.
-/

namespace DocRepair

/-- A path whose text can be looked for: it can be encoded, has no null in it, and is not too long. -/
def FilePath.Sought (p : FilePath) : Prop :=
  Text.Surrogate.firstRun? Text.Surrogate.isByte p.text = none ∧ '\x00' ∉ p.text.toList ∧
    p.text.utf8ByteSize ≤ Files.pathLimit

instance (p : FilePath) : Decidable p.Sought :=
  inferInstanceAs (Decidable (_ ∧ _ ∧ _))

namespace Files

variable {files : Files} {spot other : Spot} {node : Node} {text : String}

/-! ## What lies where -/

theorem lookup_putNode_self (nodes : List (Spot × Node)) (spot : Spot) (node : Node) :
    (putNode nodes spot node).lookup spot = some node := by
  induction nodes with
  | nil =>
    unfold putNode
    exact List.lookup_cons_self
  | cons entry rest ih =>
    obtain ⟨s, n⟩ := entry
    unfold putNode
    by_cases here : s = spot
    · rw [if_pos here, here]
      exact List.lookup_cons_self
    · have apart : (spot == s) = false := beq_false_of_ne fun same => here same.symm
      rw [if_neg here, List.lookup_cons, apart]
      exact ih

theorem lookup_putNode_ne (nodes : List (Spot × Node)) (node : Node) (h : other ≠ spot) :
    (putNode nodes spot node).lookup other = nodes.lookup other := by
  induction nodes with
  | nil =>
    unfold putNode
    rw [List.lookup_cons, beq_false_of_ne h]
  | cons entry rest ih =>
    obtain ⟨s, n⟩ := entry
    unfold putNode
    by_cases here : s = spot
    · have apart : (other == s) = false := beq_false_of_ne fun same => h (same.trans here)
      rw [if_pos here, List.lookup_cons, List.lookup_cons, apart]
    · rw [if_neg here, List.lookup_cons, List.lookup_cons, ih]

/-- A change takes no location away. -/
theorem any_putNode {nodes : List (Spot × Node)} (p : Spot → Bool)
    (h : nodes.any (fun n => p n.1) = true) :
    (putNode nodes spot node).any (fun n => p n.1) = true := by
  induction nodes with
  | nil => cases h
  | cons entry rest ih =>
    obtain ⟨s, n⟩ := entry
    unfold putNode
    split
    · exact h
    · rw [List.any_cons, Bool.or_eq_true] at h ⊢
      exact h.imp_right ih

theorem node?_put_self (files : Files) (spot : Spot) (node : Node) :
    (files.put spot node).node? spot = some node := by
  unfold node? put
  rw [lookup_putNode_self]

/-- Other directories stay what they are. -/
theorem node?_put_directory (directory : files.node? other = some .directory) (h : other ≠ spot) :
    (files.put spot node).node? other = some .directory := by
  unfold node? at directory ⊢
  have same : (files.put spot node).nodes.lookup other = files.nodes.lookup other :=
    lookup_putNode_ne files.nodes node h
  rw [same]
  cases held : files.nodes.lookup other with
  | some n =>
    rw [held] at directory
    exact directory
  | none =>
    rw [held] at directory
    dsimp only at directory ⊢
    by_cases around : (other.isPrefixOf files.home ||
        files.nodes.any fun n => other.isPrefixOf n.1) = true
    · rw [if_pos]
      rw [Bool.or_eq_true] at around ⊢
      exact around.imp_right (any_putNode fun s => other.isPrefixOf s)
    · rw [if_neg around] at directory
      cases directory

/-! ## Ways -/

/-- The way to a location where no directory lies leads there when a file is written. -/
theorem walk_put {start : Spot} {names : List String} (way : files.walk start names = .ok spot)
    (free : files.node? spot ≠ some .directory) :
    (files.put spot (.file text)).walk start names = .ok spot := by
  induction names generalizing start with
  | nil => exact way
  | cons name rest ih =>
    unfold walk at way ⊢
    cases lies : files.node? start with
    | none =>
      rw [lies] at way
      cases way
    | some found =>
      cases found with
      | file other =>
        rw [lies] at way
        cases way
      | directory =>
        have apart : start ≠ spot := by
          rintro rfl
          exact free lies
        rw [node?_put_directory lies apart]
        rw [lies] at way
        dsimp only at way ⊢
        split at way
        · rename_i up
          rw [if_pos up]
          exact ih way
        · rename_i down
          rw [if_neg down]
          split at way
          · cases way
          · rename_i short
            rw [if_neg short]
            exact ih way

/-- What a path with a text that can be looked for names is settled by where it leads. -/
theorem locate_eq {p : FilePath} (sought : p.Sought) :
    files.locate p =
      (files.walk (if p.isAbsolute then [] else files.home) p.names).mapError .file := by
  obtain ⟨encodable, unbroken, short⟩ := sought
  have unbroken : p.text.contains '\x00' = false := by simpa using unbroken
  unfold locate Fault.unlessEncodable
  rw [encodable, unbroken]
  show (if pathLimit < p.text.utf8ByteSize then _ else _) = _
  rw [if_neg (Nat.not_lt.2 short)]
  cases files.walk (if p.isAbsolute then [] else files.home) p.names <;> rfl

theorem locate_ok {p : FilePath} (located : files.locate p = .ok spot) :
    p.Sought ∧ files.walk (if p.isAbsolute then [] else files.home) p.names = .ok spot := by
  have sought : p.Sought := by
    unfold locate Fault.unlessEncodable at located
    obtain ⟨_, encodable, located⟩ := bind_eq_ok.1 located
    refine ⟨?_, ?_, ?_⟩
    · split at encodable
      · cases encodable
      · assumption
    · intro broken
      rw [if_pos (by simpa using broken)] at located
      cases located
    · refine Nat.le_of_not_lt fun long => ?_
      rw [if_pos long] at located
      split at located <;> cases located
  refine ⟨sought, ?_⟩
  rw [locate_eq sought] at located
  cases way : files.walk (if p.isAbsolute then [] else files.home) p.names with
  | error trouble =>
    rw [way] at located
    cases located
  | ok found =>
    rw [way] at located
    cases located
    rfl

theorem locate_put {p : FilePath} (located : files.locate p = .ok spot)
    (free : files.node? spot ≠ some .directory) :
    (files.put spot (.file text)).locate p = .ok spot := by
  let after := files.put spot (.file text)
  obtain ⟨sought, way⟩ := locate_ok located
  have way : after.walk (if p.isAbsolute then [] else after.home) p.names = .ok spot :=
    walk_put way free
  rw [locate_eq sought, way]
  rfl

end Files

namespace Filing

variable {p : FilePath} {text : String} {files after : Files} {u : Unit}

/-! ## Writes -/

theorem look_ok {α : Type} {f : Files → Except Fault α} {a : α} :
    look f files = .ok a after ↔ f files = .ok a ∧ files = after := by
  unfold look
  cases f files <;> simp

/-- A write puts the file where its path leads, if no directory lies there. -/
theorem write_ok (run : write p text files = .ok u after) :
    ∃ spot, files.locate p = .ok spot ∧ files.node? spot ≠ some .directory ∧
      after = files.put spot (.file text) := by
  obtain ⟨spot, g, looked, run⟩ := run_bind_ok.1 run
  obtain ⟨located, rfl⟩ := look_ok.1 looked
  obtain ⟨found, g, looked, run⟩ := run_bind_ok.1 run
  obtain ⟨lies, rfl⟩ := look_ok.1 looked
  cases Except.ok.inj lies
  cases lies : files.node? spot with
  | none =>
    rw [lies] at run
    cases run
    exact ⟨spot, located, by simp [lies], rfl⟩
  | some found =>
    rw [lies] at run
    cases found with
    | directory => cases run
    | file held =>
      cases run
      exact ⟨spot, located, by simp [lies], rfl⟩

/-- **A file that was written is found.** -/
theorem found_written (run : write p text files = .ok u after) : after.isFound p = .ok true := by
  obtain ⟨spot, located, free, rfl⟩ := write_ok run
  have there : (files.put spot (.file text)).find? p = .ok (some (.file text)) := by
    unfold Files.find?
    rw [Files.locate_put located free]
    dsimp only
    rw [Files.node?_put_self]
  unfold Files.isFound
  rw [there]
  rfl

/-- **A file that was written holds its text.** -/
theorem read_written (run : write p text files = .ok u after) : after.read p = .ok text := by
  obtain ⟨spot, located, free, rfl⟩ := write_ok run
  unfold Files.read
  refine bind_eq_ok.2 ⟨spot, Files.locate_put located free, ?_⟩
  rw [Files.node?_put_self]

end Filing

end DocRepair
