import Mathlib.Data.List.Chain
import DocRepair.Json.Reader
import DocRepair.Json.Writer
/-!
# `DocRepair.Proofs.Quoting` — a text between quotes is read back

Each character is written in one of four ways: as itself, as a letter behind a backslash, as the
escape of one UTF-16 unit, or as the escapes of two. Reading one of them gives the character back and
goes on behind it, with one exception: a first half of a pair that stands alone is joined with what is
behind it, if that is written as a second half.

## Contents

* `Apart` — no first half of a pair has a second half right behind it;
* `Shown` / `shown_charText` — the ways to write a character;
* `stringChars_shown` — one written character is read back;
* `string_quoted` — a text between quotes is read back.
-/

namespace DocRepair.Json

open DocRepair.Text

variable {c d : Char} {n : Nat} {rest : List Char}

/-! ## Halves of pairs -/

/-- Whether a character stands for the first half of a pair. -/
def isFirst (c : Char) : Bool := (Surrogate.unit? c).any (· < 0xdc00)

/-- Whether a character stands for the second half of a pair. -/
def isSecond (c : Char) : Bool := (Surrogate.unit? c).any (0xdc00 ≤ ·)

/-- Characters in which no first half of a pair has a second half right behind it. -/
def Apart (cs : List Char) : Prop := cs.IsChain fun c d => ¬ (isFirst c = true ∧ isSecond d = true)

instance (cs : List Char) : Decidable (Apart cs) :=
  inferInstanceAs (Decidable (cs.IsChain _))

/-- Characters below the stand-ins are no halves. -/
theorem apart_of_small {cs : List Char} (small : ∀ c ∈ cs, c.toNat < Surrogate.lift) : Apart cs := by
  have whole (c : Char) (hc : c ∈ cs) : isFirst c = false := by
    have zero : c.toNat - Surrogate.lift = 0 := Nat.sub_eq_zero_of_le (small c hc).le
    unfold isFirst Surrogate.unit?
    rw [zero]
    rfl
  refine List.Pairwise.isChain (List.pairwise_of_forall_mem_list fun c hc d _ => ?_)
  rw [whole c hc]
  exact fun both => Bool.noConfusion both.1

/-- A stand-in lies above the half that it stands for. -/
theorem of_unit? (found : Surrogate.unit? c = some n) :
    Surrogate.isHalf n = true ∧ n < 0xe000 ∧ Surrogate.standIn n = c := by
  unfold Surrogate.unit? at found
  split at found
  · rename_i half
    have same := Option.some.inj found
    subst same
    have range : 0xd800 ≤ c.toNat - Surrogate.lift ∧ c.toNat - Surrogate.lift < 0xe000 := by
      rw [Surrogate.isHalf, Bool.and_eq_true, decide_eq_true_iff, decide_eq_true_iff] at half
      exact half
    refine ⟨half, range.2, ?_⟩
    unfold Surrogate.standIn
    rw [Nat.sub_add_cancel (by omega)]
    exact Char.ofNat_toNat c
  · cases found

/-- A character is never half of a pair itself. -/
theorem char_range (c : Char) :
    c.toNat < 0xd800 ∨ 0xdfff < c.toNat ∧ c.toNat < 0x110000 := c.valid

/-! ## Code units -/

/-- The four hexadecimal digits of a code unit. -/
def unitDigits (n : Nat) : List Char :=
  [Nat.digitChar (n / 4096), Nat.digitChar (n / 256 % 16), Nat.digitChar (n / 16 % 16),
    Nat.digitChar (n % 16)]

theorem digitValue?_digitChar (small : n < 16) : Hex.digitValue? (Nat.digitChar n) = some n := by
  have table : ∀ m : Fin 16, Hex.digitValue? (Nat.digitChar m) = some m.val := by decide
  exact table ⟨n, small⟩

theorem toList_padded (small : n < 0x10000) : (Hex.padded 4 n).toList = unitDigits n := by
  have more {m : Nat} (large : 16 ≤ m) :
      Nat.toDigits 16 m = Nat.toDigits 16 (m / 16) ++ [Nat.digitChar (m % 16)] :=
    Nat.toDigits_of_base_le (by decide) large
  have last {m : Nat} (less : m < 16) : Nat.toDigits 16 m = [Nat.digitChar m] :=
    Nat.toDigits_of_lt_base less
  have zero : Nat.digitChar 0 = '0' := rfl
  unfold Hex.padded unitDigits
  dsimp only
  rw [String.toList_ofList]
  rcases Nat.lt_or_ge n 16 with one | two
  · rw [last one, show n / 4096 = 0 by omega, show n / 256 % 16 = 0 by omega,
      show n / 16 % 16 = 0 by omega, show n % 16 = n by omega, zero]
    rfl
  · rcases Nat.lt_or_ge n 256 with two' | three
    · rw [more two, last (by omega), show n / 4096 = 0 by omega, show n / 256 % 16 = 0 by omega,
        show n / 16 % 16 = n / 16 by omega, zero]
      rfl
    · rcases Nat.lt_or_ge n 4096 with three' | four
      · rw [more two, more (by omega), last (by omega), show n / 4096 = 0 by omega,
          show n / 256 % 16 = n / 16 / 16 by omega, zero]
        rfl
      · rw [more two, more (by omega), more (by omega), last (by omega),
          show n / 4096 = n / 16 / 16 / 16 by omega, show n / 256 % 16 = n / 16 / 16 % 16 by omega]
        rfl

/-- The escape of one code unit. -/
def unitEscape (n : Nat) : List Char := '\\' :: 'u' :: unitDigits n

theorem toList_unitText (small : n < 0x10000) : (unitText n).toList = unitEscape n := by
  unfold unitText
  rw [String.toList_append, toList_padded small]
  rfl

/-- The digits of a code unit are read back. -/
theorem codeUnit?_unitDigits (small : n < 0x10000) (rest : List Char) :
    codeUnit? (unitDigits n ++ rest) = some (n, rest) := by
  have first := digitValue?_digitChar (show n / 4096 < 16 by omega)
  have second := digitValue?_digitChar (show n / 256 % 16 < 16 by omega)
  have third := digitValue?_digitChar (show n / 16 % 16 < 16 by omega)
  have fourth := digitValue?_digitChar (show n % 16 < 16 by omega)
  have whole : ((n / 4096 * 16 + n / 256 % 16) * 16 + n / 16 % 16) * 16 + n % 16 = n := by omega
  show codeUnit? (_ :: _ :: _ :: _ :: rest) = _
  unfold codeUnit?
  simp only [first, second, third, fourth, whole]

/-! ## The ways to write a character -/

/-- The ways to write a character: as itself, as a letter behind a backslash, and as the escapes of
    its code units. -/
inductive Shown (c : Char) : List Char → Prop
  | itself : c ≠ '\x22' → c ≠ '\\' → 0x20 ≤ c.toNat → Shown c [c]
  | letter {e : Char} : e ≠ 'u' → escapedLetter? e = some c → Shown c ['\\', e]
  | unit {n : Nat} : n < 0x10000 → charOf n = c → (0xd800 ≤ n → n < 0xdc00 → isFirst c = true) →
      (0xdc00 ≤ n → n < 0xe000 → isSecond c = true) → Shown c (unitEscape n)
  | pair {m n : Nat} : m < 0x400 → n < 0x400 → c = Char.ofNat (0x10000 + m * 0x400 + n) →
      Shown c (unitEscape (0xd800 + m) ++ unitEscape (0xdc00 + n))

theorem shown_charText (c : Char) : Shown c (charText c).toList := by
  unfold charText
  dsimp only
  split_ifs with quote newline ret tab back feed ascii small
  · rcases quote with rfl | rfl
    · exact .letter (by decide) rfl
    · exact .letter (by decide) rfl
  · subst newline
    exact .letter (by decide) rfl
  · subst ret
    exact .letter (by decide) rfl
  · subst tab
    exact .letter (by decide) rfl
  · subst back
    exact .letter (by decide) rfl
  · subst feed
    exact .letter (by decide) rfl
  · rw [Char.toString_eq_singleton, String.toList_singleton]
    exact .itself (fun h => quote (.inl h)) (fun h => quote (.inr h)) ascii.1
  · have range := char_range c
    rw [toList_unitText small]
    refine .unit small ?_ (fun _ _ => by omega) (fun _ _ => by omega)
    have whole : Surrogate.isHalf c.toNat = false := by
      rw [Surrogate.isHalf, Bool.and_eq_false_iff, decide_eq_false_iff_not, decide_eq_false_iff_not]
      omega
    have other : ¬ Surrogate.isHalf c.toNat = true := Bool.not_eq_true _ ▸ whole
    exact (if_neg other).trans (Char.ofNat_toNat c)
  · split
    · rename_i n found
      obtain ⟨half, small, own⟩ := of_unit? found
      rw [toList_unitText (by omega)]
      refine .unit (by omega) ?_ (fun _ below => ?_) (fun above _ => ?_)
      · exact (if_pos half).trans own
      · unfold isFirst
        rw [found]
        exact decide_eq_true below
      · unfold isSecond
        rw [found]
        exact decide_eq_true above
    · have range := char_range c
      have parts : 0x10000 + (c.toNat - 0x10000) / 0x400 * 0x400 + (c.toNat - 0x10000) % 0x400 =
          c.toNat := by omega
      rw [String.toList_append, toList_unitText (by omega), toList_unitText (by omega)]
      refine .pair (by omega) (by omega) ?_
      rw [parts]
      exact (Char.ofNat_toNat c).symm

theorem Shown.length_pos {text : List Char} (shown : Shown c text) : 0 < text.length := by
  cases shown <;> exact Nat.succ_pos _

/-! ## Reading -/

/-- Whether a text goes on with the escape of a second half. -/
def SecondNext (text : List Char) : Prop :=
  ∃ n more after, text = '\\' :: 'u' :: more ∧ codeUnit? more = some (n, after) ∧ 0xdc00 ≤ n ∧
    n < 0xe000

theorem secondNext_shown {text : List Char} (shown : Shown d text)
    (next : SecondNext (text ++ rest)) : isSecond d = true := by
  obtain ⟨n, more, after, goes, unit, low, high⟩ := next
  cases shown with
  | itself _ noEscape _ => exact absurd (List.cons.inj goes).1 noEscape
  | letter other _ => exact absurd (List.cons.inj (List.cons.inj goes).2).1 other
  | unit small own first second =>
    have same : unitDigits _ ++ rest = more := (List.cons.inj (List.cons.inj goes).2).2
    rw [← same, codeUnit?_unitDigits small] at unit
    obtain ⟨rfl, _⟩ := Prod.mk.inj (Option.some.inj unit)
    exact second low high
  | @pair m k front back whole =>
    have same : unitDigits (0xd800 + m) ++ (unitEscape (0xdc00 + k) ++ rest) = more :=
      (List.cons.inj (List.cons.inj goes).2).2
    rw [← same, codeUnit?_unitDigits (by omega)] at unit
    obtain ⟨rfl, _⟩ := Prod.mk.inj (Option.some.inj unit)
    omega

/-- The escape of a unit is read as its character, unless a pair begins. -/
theorem escapedUnit?_unit (small : n < 0x10000)
    (alone : 0xd800 ≤ n → n < 0xdc00 → ¬ SecondNext rest) :
    escapedUnit? (unitDigits n ++ rest) = some (charOf n, rest) := by
  unfold escapedUnit?
  rw [codeUnit?_unitDigits small]
  dsimp only
  split_ifs with first
  · split
    · rename_i more
      split
      · rename_i low after unit
        rw [if_neg]
        rintro ⟨above, below⟩
        exact alone first.1 first.2 ⟨low, more, after, rfl, unit, above, below⟩
      · rfl
    · rfl
  · rfl

/-- The escapes of two units are read as one character. -/
theorem escapedUnit?_pair {m : Nat} (front : m < 0x400) (back : n < 0x400) :
    escapedUnit? (unitDigits (0xd800 + m) ++ (unitEscape (0xdc00 + n) ++ rest)) =
      some (Char.ofNat (0x10000 + m * 0x400 + n), rest) := by
  have behind : unitEscape (0xdc00 + n) ++ rest = '\\' :: 'u' :: (unitDigits (0xdc00 + n) ++ rest) :=
    rfl
  unfold escapedUnit?
  rw [codeUnit?_unitDigits (by omega), behind]
  simp only [codeUnit?_unitDigits (show 0xdc00 + n < 0x10000 by omega)]
  rw [if_pos (by omega), if_pos (by omega), Nat.add_sub_cancel_left, Nat.add_sub_cancel_left]

/-- **One written character is read back**, and what is behind it as if it stood alone. A first half
    must not have a second half behind it. -/
theorem stringChars_shown {text ds after : List Char} {fuel : Nat} (shown : Shown c text)
    (alone : isFirst c = true → ¬ SecondNext rest)
    (behind : stringChars fuel rest = .ok (ds, after)) :
    stringChars (fuel + 1) (text ++ rest) = .ok (c :: ds, after) := by
  cases shown with
  | itself noQuote noEscape ascii =>
    show stringChars (fuel + 1) (c :: rest) = _
    unfold stringChars
    rw [if_neg noQuote, if_neg noEscape, if_neg (by omega), behind]
    rfl
  | @letter e other known =>
    show stringChars (fuel + 1) ('\\' :: e :: rest) = _
    rw [stringChars, if_neg (by decide), if_pos rfl]
    · simp only [known, Option.map_some, behind]
      rfl
    · exact other
  | @unit n small own first second =>
    show stringChars (fuel + 1) ('\\' :: 'u' :: (unitDigits n ++ rest)) = _
    have read := escapedUnit?_unit small fun low high => alone (first low high)
    rw [stringChars, if_neg (by decide), if_pos rfl]
    simp only [read, behind, own]
    rfl
  | @pair m n front back whole =>
    show stringChars (fuel + 1)
      ('\\' :: 'u' :: (unitDigits (0xd800 + m) ++ (unitEscape (0xdc00 + n) ++ rest))) = _
    rw [stringChars, if_neg (by decide), if_pos rfl]
    simp only [escapedUnit?_pair front back, behind, whole]
    rfl

/-! ## Texts -/

/-- The characters of a text as they are written. -/
def body (cs : List Char) : List Char := cs.flatMap fun c => (charText c).toList

theorem toList_quoted (s : String) : (quoted s).toList = '\x22' :: (body s.toList ++ ['\x22']) := by
  unfold quoted body
  rw [String.toList_append, String.toList_append, String.toList_join, List.flatMap_map]
  rfl

/-- A second half is next only if the next character is one. -/
theorem secondNext_body {cs : List Char} (next : SecondNext (body cs ++ '\x22' :: rest)) :
    ∃ d ∈ cs.head?, isSecond d = true := by
  cases cs with
  | nil =>
    obtain ⟨_, _, _, goes, _⟩ := next
    cases (List.cons.inj goes).1
  | cons d more =>
    have parts : body (d :: more) ++ '\x22' :: rest =
        (charText d).toList ++ (body more ++ '\x22' :: rest) := by
      unfold body
      rw [List.flatMap_cons, List.append_assoc]
    rw [parts] at next
    exact ⟨d, rfl, secondNext_shown (shown_charText d) next⟩

theorem stringChars_body {cs : List Char} (apart : Apart cs) :
    ∀ fuel, cs.length < fuel → stringChars fuel (body cs ++ '\x22' :: rest) = .ok (cs, rest) := by
  induction cs with
  | nil =>
    intro fuel enough
    obtain ⟨fuel, rfl⟩ := Nat.exists_eq_succ_of_ne_zero enough.ne'
    show stringChars (fuel + 1) ('\x22' :: rest) = _
    unfold stringChars
    rw [if_pos rfl]
  | cons c cs ih =>
    intro fuel enough
    obtain ⟨first, later⟩ := List.isChain_cons.1 apart
    obtain ⟨fuel, rfl⟩ := Nat.exists_eq_succ_of_ne_zero (Nat.zero_lt_of_lt enough).ne'
    have parts : body (c :: cs) ++ '\x22' :: rest =
        (charText c).toList ++ (body cs ++ '\x22' :: rest) := by
      unfold body
      rw [List.flatMap_cons, List.append_assoc]
    rw [parts]
    refine stringChars_shown (shown_charText c) (fun high next => ?_)
      (ih later fuel (Nat.lt_of_succ_lt_succ enough))
    obtain ⟨d, there, low⟩ := secondNext_body next
    exact first d there ⟨high, low⟩

theorem length_le_body (cs : List Char) : cs.length ≤ (body cs).length := by
  induction cs with
  | nil => exact Nat.zero_le _
  | cons c cs ih =>
    have some : 0 < (charText c).toList.length := (shown_charText c).length_pos
    have parts : body (c :: cs) = (charText c).toList ++ body cs := rfl
    rw [parts, List.length_append, List.length_cons]
    omega

/-- **A text between quotes is read back**, if no first half of a pair has a second half right behind
    it. -/
theorem string_quoted {s : String} (apart : Apart s.toList) :
    string (body s.toList ++ '\x22' :: rest) = .ok (s, rest) := by
  have enough := length_le_body s.toList
  unfold string
  rw [stringChars_body apart _ (by rw [List.length_append]; omega)]
  show Except.ok (String.ofList s.toList, rest) = _
  rw [String.ofList_toList]

end DocRepair.Json
