import DocRepair.Proofs.Enrolled
/-!
# `DocRepair.Proofs.Denoted` — agreement and what identifiers denote

A value that spells an object identifier is converted by reading its bytes, or its digits of either
case. Agreement looks at the spelling. Values that agree denote the same identifier, but two
spellings of one identifier need not agree: beside the identifier itself only its digits in small
letters do, and without it only what is equal. So an array can come to hold an identifier that it
held already, in capitals or as bytes.

## Contents

* `Text.Hex.digits_eq` / `ObjectId.text_eq` — digits written as they were read;
* `Identity.Small` / `Identity.Alike` — spellings that look alike;
* `Identity.agree_ident_iff` / `Identity.agree_spelled` — spellings that agree;
* `Identity.not_added` — identifiers that an array holds;
* `Identity.agree_denoted` — both together;
* `Identity.capitals_unseen` — an identifier that is added although it was there.
-/

namespace DocRepair

/-! ## Digits of either case -/

namespace Text.Hex

variable {c : Char} {n : Nat} {cs : List Char} {bytes : List UInt8}

theorem isUpper_iff : c.isUpper = true ↔ 65 ≤ c.toNat ∧ c.toNat ≤ 90 := by
  show decide (c.val ≥ 65 ∧ c.val ≤ 90) = true ↔ _
  rw [decide_eq_true_iff, ge_iff_le, UInt32.le_iff_toNat_le, UInt32.le_iff_toNat_le]
  rfl

/-- The characters that are digits. -/
theorem digitValue?_range (read : digitValue? c = some n) :
    (48 ≤ c.toNat ∧ c.toNat ≤ 57 ∧ n = c.toNat - 48) ∨
      (97 ≤ c.toNat ∧ c.toNat ≤ 102 ∧ n = c.toNat - 87) ∨
      65 ≤ c.toNat ∧ c.toNat ≤ 70 ∧ n = c.toNat - 55 := by
  unfold digitValue? at read
  split at read
  · rename_i decimal
    exact .inl ⟨decimal.1, decimal.2, (Option.some.inj read).symm⟩
  · split at read
    · rename_i small
      exact .inr (.inl ⟨small.1, small.2, (Option.some.inj read).symm⟩)
    · split at read
      · rename_i capital
        exact .inr (.inr ⟨capital.1, capital.2, (Option.some.inj read).symm⟩)
      · cases read

/-- The characters that are written. -/
theorem digit_range (small : n < 16) :
    (digit n).toNat = (if n < 10 then 48 + n else 87 + n) ∧ (digit n).isUpper = false := by
  have table : ∀ m : Fin 16, (digit m.val).toNat = (if m.val < 10 then 48 + m.val else 87 + m.val) ∧
      (digit m.val).isUpper = false := by decide
  exact table ⟨n, small⟩

/-- A digit is written as it was read, unless it is a capital. -/
theorem digit_eq (read : digitValue? c = some n) : n < 16 ∧ (digit n = c ↔ c.isUpper = false) := by
  have range := digitValue?_range read
  have small : n < 16 := by omega
  obtain ⟨written, noCapital⟩ := digit_range small
  refine ⟨small, ?_, fun noCapital => ?_⟩
  · rintro rfl
    exact noCapital
  · rw [← Bool.not_eq_true, isUpper_iff] at noCapital
    rw [← Char.toNat_inj, written]
    split <;> omega

/-- Digits are written as they were read, unless there are capitals among them. -/
theorem digits_eq (read : ofDigits? cs = some bytes) :
    digits bytes = cs ↔ ∀ c ∈ cs, c.isUpper = false := by
  fun_induction ofDigits? cs generalizing bytes with
  | case1 =>
    cases read
    exact iff_of_true rfl fun c among => absurd among List.not_mem_nil
  | case2 => cases read
  | case3 a b rest high low first second ih =>
    obtain ⟨others, behind, rfl⟩ := Option.map_eq_some_iff.1 read
    obtain ⟨highSmall, highSame⟩ := digit_eq first
    obtain ⟨lowSmall, lowSame⟩ := digit_eq second
    have byte : (UInt8.ofNat (16 * high + low)).toNat = 16 * high + low := by
      rw [UInt8.toNat_ofNat']
      omega
    rw [digits, byte, show (16 * high + low) / 16 = high by omega,
      show (16 * high + low) % 16 = low by omega, List.cons.injEq, List.cons.injEq, highSame,
      lowSame, ih behind, List.forall_mem_cons, List.forall_mem_cons]
  | case4 => cases read

theorem mem_digits {c : Char} (among : c ∈ digits bytes) : ∃ n < 16, c = digit n := by
  induction bytes with
  | nil => cases among
  | cons b rest ih =>
    have bound := b.toNat_lt
    unfold digits at among
    rcases List.mem_cons.1 among with rfl | among
    · exact ⟨_, by omega, rfl⟩
    · rcases List.mem_cons.1 among with rfl | among
      · exact ⟨_, by omega, rfl⟩
      · exact ih among

/-- What is written has none but digits. -/
theorem digits_only (bytes : List UInt8) : ∀ c ∈ digits bytes, (digitValue? c).isSome = true := by
  intro c among
  obtain ⟨n, small, rfl⟩ := mem_digits among
  rw [digitValue?_digit small]
  rfl

end Text.Hex

namespace ObjectId

theorem toList_text (id : ObjectId) : id.text.toList = Text.Hex.digits id.bytes :=
  String.toList_ofList

/-- The text of an identifier is the one that it was read from, unless that has capitals. -/
theorem text_eq {s : String} {id : ObjectId} (read : ofText? s = some id) :
    id.text = s ↔ ∀ c ∈ s.toList, c.isUpper = false := by
  obtain ⟨bytes, digits, read⟩ := Option.bind_eq_some_iff.1 read
  unfold ofBytes? at read
  split at read
  · cases read
    rw [← String.toList_inj, toList_text]
    exact Text.Hex.digits_eq digits
  · cases read

/-- A text that has something beside digits is that of no identifier. -/
theorem text_ne {s : String} {c : Char} (among : c ∈ s.toList)
    (other : Text.Hex.digitValue? c = none) (id : ObjectId) : s ≠ id.text := by
  rintro rfl
  rw [toList_text] at among
  have digit := Text.Hex.digits_only id.bytes c among
  rw [other] at digit
  cases digit

end ObjectId

/-! ## Spellings -/

namespace Identity

variable {a b v : Value} {i j : ObjectId}

/-- An identifier itself, or a text of it in small letters. -/
def Small : Value → Prop
  | .ident _ => True
  | .text s | .code s _ => ∀ c ∈ s.toList, c.isUpper = false
  | _ => False

/-- Spellings that look alike: beside an identifier the small ones, and otherwise those that are
    equal. -/
def Alike (a b : Value) : Prop :=
  if isIdent a || isIdent b then Small a ∧ Small b else a.same b = true

theorem ofValue?_of_convert (run : convert v = .ok i) : ofValue? v = some i := by
  unfold convert at run
  split at run
  · rename_i spells
    cases run
    exact spells
  · split at run
    · cases run
    · obtain ⟨_, _, refused⟩ := bind_eq_ok.1 run
      cases refused

/-- Bytes between quotes are the text of no identifier. -/
theorem quoteBytes_ne (bytes : List UInt8) (id : ObjectId) :
    Text.Quoted.quoteBytes bytes ≠ id.text := by
  have noDigit (cs : List Char) : Text.Hex.digitValue? (Text.Quoted.mark cs) = none := by
    unfold Text.Quoted.mark
    split <;> decide
  refine ObjectId.text_ne ?_ (noDigit (bytes.map fun b => Char.ofNat b.toNat)) id
  unfold Text.Quoted.quoteBytes
  rw [String.toList_append]
  exact List.mem_append_right _ (by simp)

/-- **What agrees with an identifier** denotes it, and is spelled in small letters. -/
theorem agree_ident_iff (spells : ofValue? v = some i) :
    agree v (.ident j) = true ↔ i = j ∧ Small v := by
  have letters {s : String} (read : ObjectId.ofText? s = some i) :
      (s == j.text) = true ↔ i = j ∧ ∀ c ∈ s.toList, c.isUpper = false := by
    rw [beq_iff_eq, ← ObjectId.text_eq read]
    constructor
    · rintro rfl
      rw [ObjectId.ofText?_text] at read
      cases read
      exact ⟨rfl, rfl⟩
    · rintro ⟨rfl, same⟩
      exact same.symm
  cases v with
  | ident k =>
    cases spells
    rw [agree_ident, beq_iff_eq]
    exact (and_iff_left trivial).symm
  | text s => exact letters spells
  | code s scope => exact letters spells
  | bytes bs => exact iff_of_false (fun same => quoteBytes_ne bs j (beq_iff_eq.1 same)) And.right
  | binary k bs => exact iff_of_false (fun same => quoteBytes_ne bs j (beq_iff_eq.1 same)) And.right
  | _ => cases spells

theorem agree_comm_ident (i : ObjectId) (v : Value) : agree (.ident i) v = agree v (.ident i) := by
  have null : ((Value.ident i).isNull || v.isNull) = (v.isNull || (Value.ident i).isNull) :=
    Bool.or_comm _ _
  have among : (isIdent v || isIdent (.ident i)) = true := Bool.or_true _
  unfold agree
  rw [null, Bool.or_comm (isIdent _), among, BEq.comm]
  rfl

/-- What equals a spelling of an identifier spells it too. -/
theorem ofValue?_of_same (same : a.same b = true) (spells : ofValue? a = some i) :
    ofValue? b = some i := by
  cases a with
  | ident k =>
    cases b with
    | ident l =>
      have equal : (k == l) = true := same
      rw [← beq_iff_eq.1 equal]
      exact spells
    | _ => cases same
  | text s =>
    cases b with
    | text t =>
      have equal : (s == t) = true := same
      rw [← beq_iff_eq.1 equal]
      exact spells
    | _ => cases same
  | code s scope =>
    cases b with
    | code t scope' =>
      have equal : (s == t && scope.same scope') = true := same
      rw [Bool.and_eq_true, beq_iff_eq] at equal
      obtain ⟨rfl, _⟩ := equal
      exact spells
    | _ => cases same
  | bytes bs =>
    cases b with
    | bytes cs =>
      have equal : (bs == cs) = true := same
      rw [← beq_iff_eq.1 equal]
      exact spells
    | _ => cases same
  | binary k bs =>
    cases b with
    | binary l cs =>
      have equal : (k == l && bs == cs) = true := same
      rw [Bool.and_eq_true, beq_iff_eq, beq_iff_eq] at equal
      obtain ⟨rfl, rfl⟩ := equal
      exact spells
    | _ => cases same
  | _ => cases spells

/-- **Spellings agree** if they denote the same identifier and look alike. -/
theorem agree_spelled (spells : ofValue? a = some i) (spells' : ofValue? b = some j) :
    agree a b = true ↔ i = j ∧ Alike a b := by
  have identOf {v : Value} {k : ObjectId} (ident : isIdent v = true)
      (spells : ofValue? v = some k) : v = .ident k := by
    cases v with
    | ident l =>
      cases spells
      rfl
    | _ => cases ident
  have given {v : Value} {k : ObjectId} (spells : ofValue? v = some k) : v.isNull = false := by
    cases v with
    | null => cases spells
    | _ => rfl
  unfold Alike
  cases first : isIdent a with
  | true =>
    obtain rfl := identOf first spells
    rw [agree_comm_ident, agree_ident_iff spells', eq_comm]
    exact and_congr_right fun _ => (and_iff_right trivial).symm
  | false =>
    cases second : isIdent b with
    | true =>
      obtain rfl := identOf second spells'
      rw [agree_ident_iff spells]
      exact and_congr_right fun _ => (and_iff_left trivial).symm
    | false =>
      have plain : agree a b = a.same b := by
        unfold agree
        rw [given spells, given spells', first, second]
        rfl
      rw [plain]
      refine (and_iff_right_of_imp fun same => ?_).symm
      exact Option.some.inj ((ofValue?_of_same same spells).symm.trans spells')

/-! ## Arrays of identifiers -/

/-- An identifier is not added where a small spelling of it is. -/
theorem not_added {idField : String} {path ids : Value} {d d' : Draft} {dirty : DirtySet}
    {added : List ObjectId} {xs : List Value} (obj : d.doc.isObject = true)
    (there : Path.find? d.doc path = .ok (some (.array xs))) (among : v ∈ xs)
    (spells : ofValue? v = some i) (small : Small v)
    (run : Edit.addIds idField path ids d = .ok (dirty, added) d') : i ∉ added := by
  obtain ⟨old, converted, enrolled⟩ := Edit.addIds_enrolled obj run
  have whole : old = xs := by
    rcases enrolled.before with found | ⟨missing, _⟩
    · rw [there] at found
      cases found
      rfl
    · rw [there] at missing
      cases missing
  subst whole
  rw [enrolled.chosen]
  intro chosen
  have apart := (mem_unheld.1 chosen).2 v among
  rw [(agree_ident_iff spells).2 ⟨rfl, small⟩] at apart
  cases apart

/-- **Agreement and conversion.** Values that agree are converted to the same identifier, and values
    that are converted to the same one agree just if they look alike. In particular an identifier is
    not added to an array that holds it, or its text in small letters. -/
theorem agree_denoted (first : convert a = .ok i) (second : convert b = .ok j) :
    (agree a b = true ↔ i = j ∧ Alike a b) ∧
      ∀ idField path ids d d' dirty added xs, d.doc.isObject = true →
        Path.find? d.doc path = .ok (some (.array xs)) → a ∈ xs → Small a →
        Edit.addIds idField path ids d = .ok (dirty, added) d' → i ∉ added :=
  ⟨agree_spelled (ofValue?_of_convert first) (ofValue?_of_convert second),
    fun _ _ _ _ _ _ _ _ obj there among small run =>
      not_added obj there among (ofValue?_of_convert first) small run⟩

/-- The text of an identifier in small letters. -/
theorem agree_denoted_small :
    let a : Value := .text "00000000000000000000000a"
    let b : Value := .ident (ObjectId.ofNat 10)
    let d : Draft := {
      doc := .object [("ids", .array [a])]
      supply := { origin := 0, last := 0, pace := 1 } }
    convert a = .ok (ObjectId.ofNat 10) ∧ convert b = .ok (ObjectId.ofNat 10) ∧
      agree a b = true ∧ ∃ dirty added d', Edit.addIds "_id" (.text "ids") (.array [b]) d =
        .ok (dirty, added) d' ∧ ObjectId.ofNat 10 ∉ added := by
  intro a b d
  have first : convert a = .ok (ObjectId.ofNat 10) := rfl
  have second : convert b = .ok (ObjectId.ofNat 10) := rfl
  have small : ∀ c ∈ "00000000000000000000000a".toList, c.isUpper = false := by simp
  obtain ⟨agrees, unchanged⟩ := agree_denoted first second
  obtain ⟨dirty, added, d', run⟩ : ∃ dirty added d',
      Edit.addIds "_id" (.text "ids") (.array [b]) d = .ok (dirty, added) d' := ⟨_, _, _, rfl⟩
  refine ⟨first, second, agrees.2 ⟨rfl, small, trivial⟩, dirty, added, d', run, ?_⟩
  exact unchanged _ _ _ _ _ _ _ [a] rfl rfl List.mem_cons_self small run

/-- In capitals an identifier is not seen, and is added once more. -/
theorem capitals_unseen :
    let a : Value := .text "00000000000000000000000A"
    let id : ObjectId := ObjectId.ofNat 10
    let d : Draft := {
      doc := .object [("ids", .array [a])]
      supply := { origin := 0, last := 0, pace := 1 } }
    convert a = .ok id ∧ convert (.ident id) = .ok id ∧ agree a (.ident id) = false ∧
      ∃ dirty d',
        Edit.addIds "_id" (.text "ids") (.array [.ident id]) d = .ok (dirty, [id]) d' := by
  intro a id d
  exact ⟨rfl, rfl, rfl, _, _, rfl⟩

end Identity

end DocRepair
