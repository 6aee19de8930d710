import DocRepair.Proofs.Computations
import DocRepair.Proofs.Numerals
import DocRepair.Proofs.Quoting
/-!
# `DocRepair.Proofs.Reading` — written trees are read back

What a builder makes of a text is put together from what it makes of the parts. Blanks at the start
of a line are passed over, and the fuel lasts since every part is shorter than the whole.

## Contents

* `Reads` — a text that a builder reads as something;
* `reads_null` / `reads_bool` / `reads_int` / `reads_float` / `reads_text` — scalars;
* `reads_array` / `reads_object` — lines between brackets;
* `build_of_reads` — a whole text.
-/

namespace DocRepair.Json

open DocRepair.Double

variable {σ α : Type} {b : Builder Fault σ α} {text rest : List Char} {made : α}

/-- A text that starts with something other than a blank or a closing bracket. -/
def Starts (text : List Char) : Prop :=
  ∃ c more, text = c :: more ∧ c ∉ [' ', '\t', '\n', '\r', ']', '\x7d']

/-- A text that a builder reads as something, without effect on the state, whatever is behind it. -/
structure Reads (b : Builder Fault σ α) (text : List Char) (made : α) : Prop where
  starts : Starts text
  reads : ∀ fuel rest s, text.length ≤ fuel → Ends rest →
    b.value fuel (text ++ rest) s = .ok (made, rest) s

theorem Starts.fuel {fuel : Nat} (starts : Starts text) (enough : text.length ≤ fuel) :
    ∃ n, fuel = n + 1 := by
  obtain ⟨c, more, rfl, _⟩ := starts
  exact Nat.exists_eq_succ_of_ne_zero (Nat.zero_lt_of_lt enough).ne'

/-! ## Blanks -/

theorem skipBlanks_starts (starts : Starts text) (rest : List Char) :
    skipBlanks (text ++ rest) = text ++ rest := by
  obtain ⟨c, more, rfl, other⟩ := starts
  show List.dropWhile _ (c :: (more ++ rest)) = _
  refine List.dropWhile_cons_of_neg ?_
  simp only [List.mem_cons, not_or] at other
  simp [other]

/-- A new line at a depth. -/
def newLine (depth : Nat) : List Char := '\n' :: List.replicate (2 * depth) ' '

theorem toList_lineStart (depth : Nat) : (lineStart depth).toList = newLine depth := by
  have blanks : (String.ofList (List.replicate (2 * depth) ' ')).toList =
      List.replicate (2 * depth) ' ' := String.toList_ofList
  unfold lineStart
  rw [String.toList_append, blanks]
  rfl

theorem skipBlanks_newLine (depth : Nat) (text : List Char) :
    skipBlanks (newLine depth ++ text) = skipBlanks text := by
  have blanks (n : Nat) : skipBlanks (List.replicate n ' ' ++ text) = skipBlanks text := by
    induction n with
    | zero => rfl
    | succ n ih => exact ih
  exact blanks (2 * depth)

theorem newLine_ends (depth : Nat) (text : List Char) : Ends (newLine depth ++ text) := by
  intro c hc
  cases hc
  exact ⟨rfl, by decide, by decide, by decide⟩

theorem comma_ends (text : List Char) : Ends (',' :: text) := by
  intro c hc
  cases hc
  exact ⟨rfl, by decide, by decide, by decide⟩

/-! ## Scalars -/

theorem value_text {fuel : Nat} {s : String} (apart : Apart s.toList) (t : σ) :
    b.value (fuel + 1) ((quoted s).toList ++ rest) t = .ok (b.scalar (.text s), rest) t := by
  rw [toList_quoted]
  show b.value (fuel + 1) ('\x22' :: (body s.toList ++ ['\x22'] ++ rest)) t = _
  rw [Builder.value, List.append_assoc]
  show (b.lift (string (body s.toList ++ '\x22' :: rest)) >>= _) t = _
  rw [string_quoted apart]
  rfl

theorem value_scalar {fuel : Nat} {tree : Json} (other : ∀ c ∈ text.head?, c ∉ ['\x22', '[', '\x7b'])
    (reads : scalar text = .ok (tree, rest)) (t : σ) :
    b.value (fuel + 1) text t = .ok (b.scalar tree, rest) t := by
  have lifted : b.lift (Json.scalar text) t = .ok (tree, rest) t := by
    rw [reads]
    rfl
  unfold Builder.value
  split
  · exact absurd List.mem_cons_self (other _ rfl)
  · exact absurd (List.mem_cons_of_mem _ List.mem_cons_self) (other _ rfl)
  · exact absurd (List.mem_cons_of_mem _ (List.mem_cons_of_mem _ List.mem_cons_self)) (other _ rfl)
  · rw [run_bind, lifted]
    rfl

theorem starts_quoted (s : String) : Starts (quoted s).toList :=
  ⟨'\x22', _, toList_quoted s, by decide⟩

/-- A text between quotes is read as the scalar that it is. -/
theorem reads_text {s : String} (apart : Apart s.toList) :
    Reads b (quoted s).toList (b.scalar (.text s)) where
  starts := starts_quoted s
  reads fuel rest t enough _ := by
    obtain ⟨fuel, rfl⟩ := (starts_quoted s).fuel enough
    exact value_text apart t

theorem reads_scalar {tree : Json} (starts : Starts text)
    (other : ∀ c ∈ text.head?, c ∉ ['\x22', '[', '\x7b'])
    (reads : ∀ rest, Ends rest → scalar (text ++ rest) = .ok (tree, rest)) :
    Reads b text (b.scalar tree) where
  starts := starts
  reads fuel rest t enough ends := by
    obtain ⟨fuel, rfl⟩ := starts.fuel enough
    obtain ⟨c, more, rfl, _⟩ := starts
    have whole : ∀ d ∈ (c :: (more ++ rest)).head?, d ∉ ['\x22', '[', '\x7b'] := other
    exact value_scalar whole (reads rest ends) t

theorem reads_null : Reads b "null".toList (b.scalar .null) :=
  reads_scalar ⟨_, _, rfl, by decide⟩ (by rintro c ⟨⟩; decide) fun _ _ => rfl

theorem reads_bool (t : Bool) :
    Reads b (if t then "true" else "false").toList (b.scalar (.bool t)) := by
  cases t with
  | true => exact reads_scalar ⟨_, _, rfl, by decide⟩ (by rintro c ⟨⟩; decide) fun _ _ => rfl
  | false => exact reads_scalar ⟨_, _, rfl, by decide⟩ (by rintro c ⟨⟩; decide) fun _ _ => rfl

theorem word?_ne {c d : Char} {word : List Char} (other : d ≠ c) :
    word? (d :: word) (c :: text) = none := if_neg other

/-- The words among the scalars. -/
def words : List String := ["null", "true", "false", "NaN", "Infinity", "-Infinity"]

/-- A text that starts with no word is a number. -/
theorem scalar_wordless (wordless : ∀ w ∈ words, word? w.toList text = none) :
    (∀ more, text = '-' :: more → scalar text = number true more) ∧
      (text.head? ≠ some '-' → scalar text = number false text) := by
  have null := wordless "null" (by decide)
  have yes := wordless "true" (by decide)
  have no := wordless "false" (by decide)
  have nan := wordless "NaN" (by decide)
  have infinity := wordless "Infinity" (by decide)
  have minus := wordless "-Infinity" (by decide)
  unfold scalar
  simp only [List.findSome?, null, yes, no, nan, infinity, minus, Option.map_none]
  constructor
  · rintro more rfl
    rfl
  · intro other
    split
    · exact absurd rfl other
    · rfl

/-- A text that starts with a digit, behind a minus or not, is a number. -/
theorem scalar_digit {c : Char} (digit : c.isDigit = true) :
    scalar (c :: text) = number false (c :: text) ∧
      scalar ('-' :: c :: text) = number true (c :: text) := by
  have letter (d : Char) (letter : d.isDigit = false) : d ≠ c := by
    rintro rfl
    rw [digit] at letter
    cases letter
  constructor
  · refine (scalar_wordless ?_).2 fun minus => letter '-' rfl (Option.some.inj minus).symm
    simp only [words, List.forall_mem_cons]
    refine ⟨?_, ?_, ?_, ?_, ?_, ?_, by simp⟩ <;> exact word?_ne (letter _ rfl)
  · refine (scalar_wordless ?_).1 _ rfl
    simp only [words, List.forall_mem_cons]
    refine ⟨rfl, rfl, rfl, rfl, rfl, ?_, by simp⟩
    show word? ['I', 'n', 'f', 'i', 'n', 'i', 't', 'y'] (c :: text) = none
    exact word?_ne (letter _ rfl)

/-- A number starts with a digit. -/
theorem digit_of_number {negative : Bool} {read : Json × List Char}
    (reads : number negative text = .ok read) : ∃ c more, text = c :: more ∧ c.isDigit = true := by
  have lead : (leadingDigits text).1 ≠ [] := by
    intro none
    unfold number at reads
    split at reads
    · cases reads
    · rename_i front some
      rw [some] at none
      exact front none
  cases text with
  | nil => exact absurd rfl lead
  | cons c more =>
    refine ⟨c, more, rfl, ?_⟩
    unfold leadingDigits at lead
    split at lead
    · rename_i zero
      rw [(List.cons.inj zero).1]
      rfl
    · unfold spanDigits at lead
      split at lead
      · rename_i digit
        exact isDigit_of_asciiDigit? digit
      · exact absurd rfl lead

theorem notMem_of_digit {c : Char} {cs : List Char} (digit : c.isDigit = true)
    (others : cs.any Char.isDigit = false) : c ∉ cs := by
  intro among
  have found : cs.any Char.isDigit = true := List.any_eq_true.2 ⟨c, among, digit⟩
  rw [others] at found
  cases found

/-- A number, behind a minus or not, is read as the scalar that it is. -/
theorem reads_number {cs : List Char} {negative : Bool} {tree : Json}
    (reads : ∀ rest, Ends rest → number negative (cs ++ rest) = .ok (tree, rest)) :
    Reads b ((if negative then ['-'] else []) ++ cs) (b.scalar tree) := by
  have alone := reads [] fun c hc => absurd hc (Option.not_mem_none c)
  rw [List.append_nil] at alone
  obtain ⟨c, more, rfl, digit⟩ := digit_of_number alone
  cases negative with
  | true =>
    refine reads_scalar ⟨'-', _, rfl, by decide⟩ (by rintro c ⟨⟩; decide) fun rest ends => ?_
    exact (scalar_digit digit).2.trans (reads rest ends)
  | false =>
    refine reads_scalar ⟨c, _, rfl, notMem_of_digit digit (by decide)⟩ ?_ fun rest ends => ?_
    · rintro d ⟨⟩
      exact notMem_of_digit digit (by decide)
    · exact (scalar_digit digit).1.trans (reads rest ends)

/-- A number of the floating-point format is read back. -/
theorem reads_float {negative : Bool} {units : Nat} (format : InFormat units) :
    Reads b (floatText (.finite negative units)).toList (b.scalar (.float (.finite negative units))) := by
  show Reads b (String.ofList ((if negative then ['-'] else []) ++ magnitudeText units)).toList _
  rw [String.toList_ofList]
  exact reads_number fun rest ends => number_magnitude format ends

/-- The digits of an integer, behind a minus or not. -/
theorem toList_int (n : Int) :
    (toString n).toList = (if decide (n < 0) then ['-'] else []) ++ Nat.toDigits 10 n.natAbs := by
  have shown : toString n = if 0 ≤ n then n.toNat.repr else "-" ++ (-n).toNat.repr := Int.repr_eq_if
  rw [shown]
  by_cases negative : n < 0
  · rw [if_neg (not_le.2 negative), String.toList_append, Nat.toList_repr, decide_eq_true negative,
      show (-n).toNat = n.natAbs by omega]
    rfl
  · rw [if_pos (not_lt.1 negative), Nat.toList_repr, decide_eq_false negative,
      show n.toNat = n.natAbs by omega]
    rfl

/-- The digits of a number are what a number can start with. -/
theorem leadingDigits_toDigits {n : Nat} (stops : Stops rest) :
    leadingDigits (Nat.toDigits 10 n ++ rest) = (values (Nat.toDigits 10 n), rest) := by
  rcases Nat.eq_zero_or_pos n with rfl | pos
  · rfl
  · exact leadingDigits_digits ⟨digits_toDigits n, Nat.toDigits_ne_nil, head_toDigits pos⟩ stops

theorem length_toDigits_le {n : Nat} (short : n < Text.Digit.beyond) :
    (Nat.toDigits 10 n).length ≤ Text.Digit.limit := by
  have pos : 0 < Text.Digit.limit := by decide
  unfold Text.Digit.beyond at short
  generalize Text.Digit.limit = k at *
  exact (Nat.length_toDigits_le_iff (by decide) pos).2 short

/-- An integer that has not too many digits is read back. -/
theorem reads_int {n : Int} (short : n.natAbs < Text.Digit.beyond) :
    Reads b (toString n).toList (b.scalar (.int n)) := by
  rw [toList_int]
  refine reads_number fun rest ends => ?_
  have full : values (Nat.toDigits 10 n.natAbs) ≠ [] := by
    rw [values, Ne, List.map_eq_nil_iff]
    exact Nat.toDigits_ne_nil
  have few : (values (Nat.toDigits 10 n.natAbs)).length ≤ Text.Digit.limit := by
    rw [length_values]
    exact length_toDigits_le short
  rw [number_integer (leadingDigits_toDigits ends.stops) full few ends, ofDigits_toDigits,
    signed_natAbs]

/-! ## Lines between brackets -/

/-- Lines at a depth, with commas behind all but the last. -/
def listed (depth : Nat) (lines : List (List Char)) : List Char :=
  (',' :: newLine depth).intercalate lines

theorem listed_cons (depth : Nat) (line next : List Char) (lines : List (List Char)) :
    listed depth (line :: next :: lines) =
      line ++ ',' :: (newLine depth ++ listed depth (next :: lines)) := by
  unfold listed
  rw [List.intercalate_cons_cons, List.append_assoc]
  rfl

/-- A text that starts a line is found behind the blanks in front of it. -/
theorem skipBlanks_line (depth : Nat) (starts : Starts text) (rest : List Char) :
    skipBlanks (newLine depth ++ (text ++ rest)) = text ++ rest :=
  (skipBlanks_newLine depth _).trans (skipBlanks_starts starts rest)

theorem starts_append (starts : Starts text) (more : List Char) : Starts (text ++ more) := by
  obtain ⟨c, others, rfl, other⟩ := starts
  exact ⟨c, others ++ more, rfl, other⟩

theorem listed_single (depth : Nat) (line : List Char) : listed depth [line] = line :=
  List.intercalate_singleton

theorem starts_listed {line : List Char} (depth : Nat) (starts : Starts line)
    (lines : List (List Char)) : Starts (listed depth (line :: lines)) := by
  cases lines with
  | nil =>
    rw [listed_single]
    exact starts
  | cons next lines =>
    rw [listed_cons]
    exact starts_append starts _

/-- The items of an array, line by line. -/
theorem elements_listed (depth outer : Nat) {lines : List (List Char)} {items : List α}
    (all : List.Forall₂ (Reads b) lines items) (some : lines ≠ []) :
    ∀ fuel rest s, (listed depth lines).length < fuel →
      b.elements fuel (listed depth lines ++ (newLine outer ++ ']' :: rest)) s =
        .ok (items, rest) s := by
  induction all with
  | nil => exact absurd rfl some
  | @cons line item lines items first others ih =>
    intro fuel rest s enough
    obtain ⟨fuel, rfl⟩ := Nat.exists_eq_succ_of_ne_zero (Nat.zero_lt_of_lt enough).ne'
    cases others with
    | nil =>
      rw [listed_single] at enough ⊢
      have own := first.reads fuel (newLine outer ++ ']' :: rest) s (Nat.le_of_lt_succ enough)
        (newLine_ends _ _)
      have behind : skipBlanks (newLine outer ++ ']' :: rest) = ']' :: rest :=
        skipBlanks_newLine outer _
      unfold Builder.elements
      rw [run_bind, own]
      dsimp only
      rw [behind]
      rfl
    | @cons next item' lines items' second others =>
      rw [listed_cons, List.length_append, List.length_cons, List.length_append] at enough
      have later := ih (List.cons_ne_nil _ _) fuel rest s (by omega)
      have own := first.reads fuel
        (',' :: (newLine depth ++ (listed depth (next :: lines) ++ (newLine outer ++ ']' :: rest)))) s
        (by omega) (comma_ends _)
      have line' := skipBlanks_line depth (starts_listed depth second.starts lines)
        (newLine outer ++ ']' :: rest)
      rw [listed_cons, List.append_assoc, List.cons_append, List.append_assoc]
      unfold Builder.elements
      rw [run_bind, own]
      dsimp only
      show (b.elements fuel (skipBlanks (newLine depth ++ _)) >>= _) s = _
      rw [run_bind, line', later]
      rfl

theorem toList_bracketed {opening closing : String} {first last : Char} {lines : List String}
    (depth : Nat) (opens : opening.toList = [first]) (closes : closing.toList = [last])
    (some : lines ≠ []) :
    (bracketed opening closing depth lines).toList = first :: (newLine (depth + 1) ++
      (listed (depth + 1) (lines.map String.toList) ++ (newLine depth ++ [last]))) := by
  have full : lines.isEmpty = false := List.isEmpty_eq_false_iff.2 some
  unfold bracketed listed
  rw [full]
  simp only [Bool.false_eq_true, if_false, String.toList_append, String.toList_intercalate,
    toList_lineStart, List.append_assoc, opens, closes]
  rfl

/-- What is between brackets is shorter than the whole. -/
theorem inner_lt {fuel depth : Nat} {first last : Char}
    (enough : (first :: (newLine (depth + 1) ++ (text ++ (newLine depth ++ [last])))).length ≤
      fuel + 1) : text.length < fuel := by
  simp only [List.length_cons, List.length_append, newLine] at enough
  omega

/-- An array that is not empty. -/
theorem value_items {fuel : Nat} {inner : List Char} (behind : skipBlanks inner = text)
    (some : text.head? ≠ some ']') :
    b.value (fuel + 1) ('[' :: inner) =
      b.elements fuel text >>= fun items => pure (b.array items.1, items.2) := by
  rw [Builder.value, behind]
  split
  · exact absurd rfl some
  · rfl

/-- An object that is not empty. -/
theorem value_members {fuel : Nat} {inner : List Char} (behind : skipBlanks inner = text)
    (some : text.head? ≠ some '\x7d') :
    b.value (fuel + 1) ('\x7b' :: inner) =
      b.pairs fuel text [] >>= fun members => b.object members.1 >>= fun made =>
        pure (made, members.2) := by
  rw [Builder.value, behind]
  split
  · exact absurd rfl some
  · rfl

/-- Items on lines between brackets are read as an array. -/
theorem reads_array {depth : Nat} {lines : List String} {items : List α}
    (all : List.Forall₂ (Reads b) (lines.map String.toList) items) :
    Reads b (bracketed "[" "]" depth lines).toList (b.array items) := by
  cases lines with
  | nil =>
    cases all
    have shown : (bracketed "[" "]" depth []).toList = ['[', ']'] := String.toList_append
    rw [shown]
    refine ⟨⟨'[', [']'], rfl, by decide⟩, fun fuel rest s enough _ => ?_⟩
    obtain ⟨fuel, rfl⟩ := Nat.exists_eq_succ_of_ne_zero (Nat.zero_lt_of_lt enough).ne'
    rfl
  | cons line lines =>
    have opens : "[".toList = ['['] := rfl
    have closes : "]".toList = [']'] := rfl
    rw [toList_bracketed depth opens closes (List.cons_ne_nil line lines)]
    refine ⟨⟨'[', _, rfl, by decide⟩, fun fuel rest s enough _ => ?_⟩
    obtain ⟨fuel, rfl⟩ := Nat.exists_eq_succ_of_ne_zero (Nat.zero_lt_of_lt enough).ne'
    have inner := elements_listed (depth + 1) depth all (List.cons_ne_nil _ _) fuel rest s
      (inner_lt enough)
    have starts : Starts (listed (depth + 1) ((line :: lines).map String.toList)) := by
      cases all with
      | cons first _ => exact starts_listed (depth + 1) first.starts _
    have behind := skipBlanks_line (depth + 1) starts (newLine depth ++ ']' :: rest)
    rw [List.cons_append, List.append_assoc, List.append_assoc, List.append_assoc,
      List.singleton_append, value_items behind, run_bind, inner]
    · rfl
    · obtain ⟨c, more, shown, other⟩ := starts
      rw [shown]
      intro bracket
      rw [Option.some.inj bracket] at other
      exact other (by decide)

/-! ## Objects -/

/-- A line that a builder reads as a member. -/
def ReadsMember (b : Builder Fault σ α) (line : List Char) (member : String × α) : Prop :=
  ∃ text, line = (quoted member.1).toList ++ (':' :: ' ' :: text) ∧ Apart member.1.toList ∧
    Reads b text member.2

theorem ReadsMember.starts {line : List Char} {member : String × α}
    (reads : ReadsMember b line member) : Starts line := by
  obtain ⟨text, rfl, _, _⟩ := reads
  exact starts_append (starts_quoted _) _

/-- A name that is not in use yet is put behind the others. -/
theorem put_new {members : List (String × α)} {name : String} (v : α)
    (unused : name ∉ members.map (·.1)) : put members name v = members ++ [(name, v)] := by
  induction members with
  | nil => rfl
  | cons m rest ih =>
    obtain ⟨k, w⟩ := m
    rw [List.map_cons, List.mem_cons, not_or] at unused
    unfold put
    rw [if_neg (Ne.symm unused.1), ih unused.2]
    rfl

/-- One member, up to what is behind its value. -/
theorem pairs_member {fuel : Nat} {line : List Char} {member : String × α}
    {before : List (String × α)} (reads : ReadsMember b line member) (s : σ) (ends : Ends rest)
    (enough : line.length ≤ fuel) (unused : member.1 ∉ before.map (·.1)) :
    (∀ after, skipBlanks rest = '\x7d' :: after →
      b.pairs (fuel + 1) (line ++ rest) before s = .ok (before ++ [member], after) s) ∧
    (∀ more, skipBlanks rest = ',' :: more →
      b.pairs (fuel + 1) (line ++ rest) before s =
        b.pairs fuel (skipBlanks more) (before ++ [member]) s) := by
  obtain ⟨text, rfl, apart, value⟩ := reads
  rw [toList_quoted] at enough ⊢
  have name : b.lift (string (body member.1.toList ++ '\x22' :: (':' :: ' ' :: (text ++ rest)))) s =
      .ok (member.1, ':' :: ' ' :: (text ++ rest)) s := by
    rw [string_quoted apart]
    rfl
  simp only [List.length_append, List.length_cons] at enough
  have own := value.reads fuel rest s (by omega) ends
  have blank : skipBlanks (' ' :: (text ++ rest)) = text ++ rest := skipBlanks_starts value.starts rest
  have parts : '\x22' :: (body member.1.toList ++ ['\x22']) ++ (':' :: ' ' :: text) ++ rest =
      '\x22' :: (body member.1.toList ++ '\x22' :: (':' :: ' ' :: (text ++ rest))) := by
    simp
  have colon : skipBlanks (':' :: ' ' :: (text ++ rest)) = ':' :: ' ' :: (text ++ rest) := rfl
  have put' : put before member.1 member.2 = before ++ [member] := put_new member.2 unused
  rw [parts]
  constructor
  · intro after closes
    simp only [Builder.pairs, run_bind, name, colon, blank, own, put', closes]
    rfl
  · intro more comma
    simp only [Builder.pairs, run_bind, name, colon, blank, own, put', comma]

/-- The members of an object, line by line. -/
theorem pairs_listed (depth outer : Nat) {lines : List (List Char)} {members : List (String × α)}
    (all : List.Forall₂ (ReadsMember b) lines members) (some : lines ≠ []) :
    ∀ fuel before rest s, (listed depth lines).length < fuel →
      ((before ++ members).map Prod.fst).Nodup →
      b.pairs fuel (listed depth lines ++ (newLine outer ++ '\x7d' :: rest)) before s =
        .ok (before ++ members, rest) s := by
  induction all with
  | nil => exact absurd rfl some
  | @cons line member lines members first others ih =>
    intro fuel before rest s enough distinct
    obtain ⟨fuel, rfl⟩ := Nat.exists_eq_succ_of_ne_zero (Nat.zero_lt_of_lt enough).ne'
    have unused : member.1 ∉ before.map (·.1) := by
      rw [List.map_append, List.map_cons] at distinct
      exact fun used => (List.nodup_append.1 distinct).2.2 _ used _ List.mem_cons_self rfl
    cases others with
    | nil =>
      rw [listed_single] at enough ⊢
      exact (pairs_member first s (newLine_ends outer _) (Nat.le_of_lt_succ enough) unused).1 rest
        (skipBlanks_newLine outer _)
    | @cons next member' lines members' second others =>
      rw [listed_cons, List.length_append, List.length_cons, List.length_append] at enough
      rw [List.append_cons before member] at distinct ⊢
      have later := ih (List.cons_ne_nil _ _) fuel (before ++ [member]) rest s (by omega) distinct
      have line' := skipBlanks_line depth (starts_listed depth second.starts lines)
        (newLine outer ++ '\x7d' :: rest)
      rw [listed_cons, List.append_assoc, List.cons_append, List.append_assoc,
        (pairs_member first s (comma_ends _) (by omega) unused).2 _ rfl, line', later]

/-- Members on lines between braces are read as an object, if their names differ. -/
theorem reads_object {depth : Nat} {lines : List String} {members : List (String × α)}
    (all : List.Forall₂ (ReadsMember b) (lines.map String.toList) members)
    (distinct : (members.map Prod.fst).Nodup) (makes : ∀ s, b.object members s = .ok made s) :
    Reads b (bracketed "\x7b" "\x7d" depth lines).toList made := by
  cases lines with
  | nil =>
    cases all
    have shown : (bracketed "\x7b" "\x7d" depth []).toList = ['\x7b', '\x7d'] := String.toList_append
    rw [shown]
    refine ⟨⟨'\x7b', ['\x7d'], rfl, by decide⟩, fun fuel rest s enough _ => ?_⟩
    obtain ⟨fuel, rfl⟩ := Nat.exists_eq_succ_of_ne_zero (Nat.zero_lt_of_lt enough).ne'
    show (b.object [] >>= fun made => pure (made, rest)) s = _
    rw [run_bind, makes]
    rfl
  | cons line lines =>
    have opens : "\x7b".toList = ['\x7b'] := rfl
    have closes : "\x7d".toList = ['\x7d'] := rfl
    rw [toList_bracketed depth opens closes (List.cons_ne_nil line lines)]
    refine ⟨⟨'\x7b', _, rfl, by decide⟩, fun fuel rest s enough _ => ?_⟩
    obtain ⟨fuel, rfl⟩ := Nat.exists_eq_succ_of_ne_zero (Nat.zero_lt_of_lt enough).ne'
    have inner := pairs_listed (depth + 1) depth all (List.cons_ne_nil _ _) fuel [] rest s
      (inner_lt enough) distinct
    have starts : Starts (listed (depth + 1) ((line :: lines).map String.toList)) := by
      cases all with
      | cons first _ => exact starts_listed (depth + 1) first.starts _
    have behind := skipBlanks_line (depth + 1) starts (newLine depth ++ '\x7d' :: rest)
    rw [List.cons_append, List.append_assoc, List.append_assoc, List.append_assoc,
      List.singleton_append, value_members behind, run_bind, inner]
    · show (b.object members >>= fun made => pure (made, rest)) s = _
      rw [run_bind, makes]
      rfl
    · obtain ⟨c, more, shown, other⟩ := starts
      rw [shown]
      intro bracket
      rw [Option.some.inj bracket] at other
      exact other (by decide)

/-- **What a builder reads a text as is what it makes of the line**. -/
theorem build_of_reads {text : String} (reads : Reads b text.toList made) (s : σ) :
    b.build (text ++ "\n") s = .ok made s := by
  have own := reads.reads (text.toList.length + 1 + 1) ['\n'] s (by omega) (newLine_ends 0 [])
  have front := skipBlanks_starts reads.starts ['\n']
  have chars : (text ++ "\n").toList = text.toList ++ ['\n'] := String.toList_append
  have count : (text.toList ++ ['\n']).length = text.toList.length + 1 := List.length_append
  unfold Builder.build
  rw [chars]
  dsimp only
  rw [count, front, run_bind, own]
  rfl

end DocRepair.Json
