import DocRepair.ExtendedJson
import DocRepair.Proofs.Digits
import DocRepair.Proofs.ShowableEdits
/-!
# `DocRepair.Proofs.Decoded` — what is decoded can be shown

Where a text is decoded the length of an integer is limited, and so is the size of a floating-point
number that an integer is made from. All other readings give values without integers of their own.
Objects are told what they stand for while the text is still read, so what holds of every value that
is decoded is an invariant of the builder.

## Contents

* `Double.Bounded` — numbers within the format, and that every reading gives such;
* `ExtendedJson.Decoded` — values that can be shown, and numbers within the format;
* `Json.Builder.build_shows` — an invariant of a builder holds of what it makes;
* `ExtendedJson.interpret_shows` — the readings of objects;
* `ExtendedJson.parse_shows` — **whatever is decoded can be shown**.
-/

namespace DocRepair

/-! ## Numbers -/

namespace Double

/-- A number within the format, if it is finite. -/
def Bounded (x : Double) : Prop :=
  ∀ negative units, x = .finite negative units → units < beyond

theorem bounded_zero (negative : Bool) : (Double.finite negative 0).Bounded := by
  rintro _ _ ⟨⟩
  decide +kernel

theorem ofUnits_bounded (negative : Bool) (units : Nat) : (ofUnits negative units).Bounded := by
  intro n u finite
  unfold ofUnits at finite
  split at finite
  · rename_i small
    cases finite
    exact small
  · cases finite

theorem toDouble_bounded (numeral : Numeral) (negative : Bool) :
    (numeral.toDouble negative).Bounded := by
  unfold Numeral.toDouble ofDecimal
  dsimp only
  split
  · exact bounded_zero negative
  · split
    · nofun
    · split
      · exact bounded_zero negative
      · split <;> exact ofUnits_bounded _ _

theorem ofNumeral?_bounded {text : List Char} {x : Double} (read : ofNumeral? text = some x) :
    x.Bounded := by
  unfold ofNumeral? at read
  dsimp only at read
  split at read
  · cases read
    nofun
  · split at read
    · cases read
      nofun
    · obtain ⟨numeral, _, rfl⟩ := Option.map_eq_some_iff.1 read
      exact toDouble_bounded numeral _

/-- Whatever is within the format has far fewer digits than can be shown. -/
theorem beyond_lt : beyond < Text.Digit.beyond := by
  decide +kernel

theorem natAbs_signed (negative : Bool) (units : Nat) : (signed negative units).natAbs = units := by
  cases negative <;> simp [signed]

theorem spanDigits_lt (text : List Char) : ∀ d ∈ (spanDigits text).1, d < 10 := by
  induction text with
  | nil => exact List.forall_mem_nil _
  | cons c rest ih =>
    unfold spanDigits
    split
    · rename_i d read
      have digit := isDigit_of_asciiDigit? read
      rw [asciiDigit?_digit digit] at read
      cases read
      exact List.forall_mem_cons.2 ⟨value_lt digit, ih⟩
    · exact List.forall_mem_nil _

/-- Digits that are not too many spell a number that can be shown. -/
theorem ofDigits_beyond {ds : List Nat} (digits : ∀ d ∈ ds, d < 10)
    (few : ds.length ≤ Text.Digit.limit) : ofDigits ds < Text.Digit.beyond := by
  rw [← Text.Digit.fits_limit, Text.Digit.fits_iff]
  generalize Text.Digit.limit = most at few ⊢
  exact Nat.lt_of_lt_of_le (ofDigits_lt digits) (Nat.pow_le_pow_right (by decide) few)

end Double

theorem Text.Numeral.leadingDigits?_lt {base : Nat} {awaited : Bool} {text behind : List Char}
    {ds : List Nat} (read : leadingDigits? base awaited text = some (ds, behind)) :
    ∀ d ∈ ds, d < base := by
  induction text generalizing awaited ds with
  | nil =>
    unfold leadingDigits? at read
    split at read
    · cases read
    · cases read
      exact List.forall_mem_nil _
  | cons c rest ih =>
    unfold leadingDigits? at read
    split at read
    · split at read
      · cases read
      · exact ih read
    · split at read
      · rename_i d digit
        obtain ⟨⟨es, after⟩, others, same⟩ := Option.map_eq_some_iff.1 read
        cases same
        have small := (Option.filter_eq_some_iff.1 digit).2
        exact List.forall_mem_cons.2 ⟨of_decide_eq_true small, ih others⟩
      · split at read
        · cases read
        · cases read
          exact List.forall_mem_nil _

/-- A decimal integer that is read from a text can be shown. -/
theorem Text.Numeral.integer_lt {text : String} {n : Int} (read : integer 10 text = .number n) :
    n.natAbs < Digit.beyond := by
  unfold integer at read
  dsimp only at read
  split at read
  · cases read
  · rename_i ds behind digits
    split at read
    · cases read
    · rename_i few
      split at read
      · cases read
      · cases read
        rw [Double.natAbs_signed]
        refine Double.ofDigits_beyond (leadingDigits?_lt digits) (Nat.le_of_not_lt fun many => ?_)
        exact few ⟨rfl, many⟩

namespace ExtendedJson

/-- A value as it is decoded: it can be shown, and a number is within the format. -/
structure Decoded (v : Value) : Prop where
  shown : v.Showable
  bounded : ∀ x, v = .float x → x.Bounded

theorem Decoded.of_shown {v : Value} (shown : v.Showable) (other : ∀ x, v ≠ .float x) :
    Decoded v :=
  ⟨shown, fun x same => absurd same (other x)⟩

theorem Decoded.fields {fs : Fields} (each : ∀ f ∈ fs, Decoded f.2) : fs.Showable :=
  fun f among => (each f among).shown

end ExtendedJson

/-! ## Texts -/

namespace Json

open ExtendedJson in
/-- A scalar that is read is one as it is decoded. -/
theorem scalar_decoded {text rest : List Char} {tree : Json}
    (read : scalar text = .ok (tree, rest)) : Decoded (Value.ofJson tree) := by
  have numbers {negative : Bool} {text : List Char} (read : number negative text = .ok (tree, rest)) :
      Decoded (Value.ofJson tree) := by
    have digits : ∀ d ∈ (leadingDigits text).1, d < 10 := by
      unfold leadingDigits
      split
      · exact List.forall_mem_singleton.2 (by decide)
      · exact Double.spanDigits_lt text
    unfold number at read
    split at read
    · cases read
    · rename_i before behind full lead
      rw [lead] at digits
      dsimp only at read
      split at read
      · split at read
        · cases read
        · rename_i few
          cases read
          refine .of_shown (Value.showable_int.2 ?_) nofun
          rw [Double.natAbs_signed]
          exact Double.ofDigits_beyond digits (Nat.le_of_not_lt few)
      · cases read
        refine ⟨rfl, ?_⟩
        rintro _ ⟨⟩
        exact Double.toDouble_bounded _ _
  unfold scalar at read
  dsimp only at read
  split at read
  · rename_i found word
    cases read
    obtain ⟨⟨w, v⟩, among, word⟩ := List.exists_of_findSome?_eq_some word
    obtain ⟨after, _, same⟩ := Option.map_eq_some_iff.1 word
    cases same
    simp only [List.mem_cons, Prod.mk.injEq, List.not_mem_nil, or_false] at among
    rcases among with ⟨_, rfl⟩ | ⟨_, rfl⟩ | ⟨_, rfl⟩ | ⟨_, rfl⟩ | ⟨_, rfl⟩ | ⟨_, rfl⟩
    all_goals refine ⟨rfl, ?_⟩
    all_goals rintro _ ⟨⟩ <;> nofun
  · split at read
    · exact numbers read
    · exact numbers read

namespace Builder

variable {σ α : Type} {b : Builder Fault σ α} {P : α → Prop}

/-- A property that a builder gives to all that it makes: to scalars, and to arrays and objects of
    what it has made already. It never stops at an integer with too many digits. -/
structure Gives (b : Builder Fault σ α) (P : α → Prop) : Prop where
  text : ∀ s, P (b.scalar (.text s))
  scalar : ∀ {text rest tree}, Json.scalar text = .ok (tree, rest) → P (b.scalar tree)
  array : ∀ {items}, (∀ x ∈ items, P x) → P (b.array items)
  object : ∀ {members : List (String × α)}, (∀ m ∈ members, P m.2) →
    ShowsIn (fun _ => True) P (b.object members)
  refuse : ∀ e, b.refuse e ≠ .endlessInteger

theorem lift_shows {β : Type} {Q : β → Prop} (gives : Gives b P) {r : Except ReadError β}
    (holds : ∀ x, r = .ok x → Q x) : ShowsIn (fun _ => True) Q (b.lift r) := by
  intro s _
  cases r with
  | ok x => exact ⟨holds x rfl, trivial⟩
  | error e => exact gives.refuse e

theorem put_gives {members : List (String × α)} {name : String} {v : α}
    (each : ∀ m ∈ members, P m.2) (new : P v) : ∀ m ∈ put members name v, P m.2 := by
  induction members with
  | nil => exact List.forall_mem_singleton.2 new
  | cons m rest ih =>
    obtain ⟨here, behind⟩ := List.forall_mem_cons.1 each
    unfold put
    split
    · exact List.forall_mem_cons.2 ⟨new, behind⟩
    · exact List.forall_mem_cons.2 ⟨here, ih behind⟩

mutual

theorem value_shows (gives : Gives b P) (fuel : Nat) (chars : List Char) :
    ShowsIn (fun _ => True) (fun made => P made.1) (b.value fuel chars) := by
  match fuel with
  | 0 =>
    unfold value
    exact lift_shows gives nofun
  | fuel + 1 =>
    unfold value
    split
    · refine ShowsIn.bind (P := fun _ => True) (lift_shows gives fun _ _ => trivial) fun s _ => ?_
      exact .pure (gives.text s.1)
    · split
      · exact .pure (gives.array (List.forall_mem_nil _))
      · exact (elements_shows gives fuel _).bind fun made each => .pure (gives.array each)
    · have closes (members : List (String × α)) (rest : List Char) (each : ∀ m ∈ members, P m.2) :
          ShowsIn (fun _ => True) (fun made => P made.1)
            (do return (← b.object members, rest) : EStateM Fault σ (α × List Char)) :=
        (gives.object each).bind fun v holds => .pure holds
      dsimp only
      split
      · refine ShowsIn.bind (P := fun made => ∀ m ∈ made.1, P m.2)
          (.pure (List.forall_mem_nil _)) fun made each => closes made.1 made.2 each
      · exact (pairs_shows gives fuel _ (List.forall_mem_nil _)).bind
          fun made each => closes made.1 made.2 each
    · refine ShowsIn.bind (P := fun made => P (b.scalar made.1)) ?_ fun made holds => .pure holds
      exact lift_shows gives fun made read => gives.scalar read

theorem elements_shows (gives : Gives b P) (fuel : Nat) (chars : List Char) :
    ShowsIn (fun _ => True) (fun made => ∀ x ∈ made.1, P x) (b.elements fuel chars) := by
  match fuel with
  | 0 =>
    unfold elements
    exact lift_shows gives nofun
  | fuel + 1 =>
    unfold elements
    refine (value_shows gives fuel chars).bind fun made holds => ?_
    obtain ⟨item, rest⟩ := made
    dsimp only
    split
    · exact .pure (List.forall_mem_singleton.2 holds)
    · refine (elements_shows gives fuel _).bind fun others each => ?_
      exact .pure (List.forall_mem_cons.2 ⟨holds, each⟩)
    · exact lift_shows gives nofun

theorem pairs_shows (gives : Gives b P) (fuel : Nat) (chars : List Char)
    {before : List (String × α)} (each : ∀ m ∈ before, P m.2) :
    ShowsIn (fun _ => True) (fun made => ∀ m ∈ made.1, P m.2) (b.pairs fuel chars before) := by
  match fuel with
  | 0 =>
    unfold pairs
    exact lift_shows gives nofun
  | fuel + 1 =>
    unfold pairs
    split
    · refine ShowsIn.bind (P := fun _ => True) (lift_shows gives fun _ _ => trivial)
        fun named _ => ?_
      obtain ⟨name, rest⟩ := named
      dsimp only
      split
      · refine (value_shows gives fuel _).bind fun made holds => ?_
        obtain ⟨v, rest⟩ := made
        have members : ∀ m ∈ put before name v, P m.2 := put_gives each holds
        dsimp only
        split
        · exact .pure members
        · exact pairs_shows gives fuel _ members
        · exact lift_shows gives nofun
      · exact lift_shows gives nofun
    · exact lift_shows gives nofun

end

/-- **What a builder makes of a text** has the property that it gives to all that it makes. -/
theorem build_shows (gives : Gives b P) (text : String) :
    ShowsIn (fun _ => True) P (b.build text) := by
  refine (value_shows gives _ _).bind fun made holds => ?_
  obtain ⟨v, rest⟩ := made
  dsimp only
  split
  · exact .pure holds
  · exact lift_shows gives nofun

end Builder

end Json

/-! ## Objects -/

theorem Draw.lift_shows {α : Type} {P : α → Prop} {r : Except Fault α} (shows : Shows P r) :
    ShowsIn (fun _ => True) P (Draw.lift r) := by
  intro s _
  cases r with
  | ok x => exact ⟨shows, trivial⟩
  | error fault => exact shows

namespace ExtendedJson

open DocRepair.Text

variable {v : Value} {fields : Fields} {name : String}

theorem Integer.spelled_shows (v : Value) :
    Shows (fun n => n.natAbs < Digit.beyond) (Integer.spelled 10 v) := by
  have concludes (literal : String) {r : Numeral.Reading}
      (bounded : ∀ n, r = .number n → n.natAbs < Digit.beyond) :
      Shows (fun n => n.natAbs < Digit.beyond) (Integer.conclude 10 literal r) := by
    cases r with
    | number n => exact bounded n rfl
    | malformed => rintro ⟨⟩
    | tooLong digits => rintro ⟨⟩
  unfold Integer.spelled
  split
  · exact concludes _ fun n => Numeral.integer_lt
  · exact concludes _ fun n => Numeral.integer_lt
  · rintro ⟨⟩

/-- An integer in any base; only decimal ones are kept as integers. -/
theorem Integer.spelled_any (base : Nat) (v : Value) :
    Shows (fun _ => True) (Integer.spelled base v) := by
  have concludes (literal : String) (r : Numeral.Reading) :
      Shows (fun _ => True) (Integer.conclude base literal r) := by
    cases r <;> first | trivial | nofun
  unfold Integer.spelled
  split
  · exact concludes _ _
  · exact concludes _ _
  · rintro ⟨⟩

theorem Integer.ofText_shows (base : Nat) (text : String) :
    Shows (fun _ => True) (Integer.ofText base text) :=
  Integer.spelled_any base (.text text)

/-- An integer that a decoded value stands for can be shown. -/
theorem Integer.ofValue_shows (decoded : Decoded v) :
    Shows (fun n => n.natAbs < Digit.beyond) (Integer.ofValue v) := by
  unfold Integer.ofValue
  split
  · rename_i b
    have few : ∀ b : Bool, (if b then (1 : Int) else 0).natAbs < Digit.beyond := by
      decide +kernel
    exact few b
  · exact Value.showable_int.1 decoded.shown
  · exact Value.showable_long.1 decoded.shown
  · rename_i x
    unfold Integer.ofDouble
    split
    · rintro ⟨⟩
    · rintro ⟨⟩
    · rename_i negative units
      show (Int.tdiv _ _).natAbs < _
      rw [Int.natAbs_tdiv, Double.natAbs_signed]
      exact Nat.lt_of_le_of_lt (Nat.div_le_self _ _)
        (Nat.lt_trans (decoded.bounded _ rfl _ _ rfl) Double.beyond_lt)
  · split
    · exact Integer.spelled_shows _
    · rintro ⟨⟩

namespace Stamp

theorem integer_shows (chars : List Char) : Shows (fun _ => True) (integer chars) :=
  Integer.ofText_shows 10 _

theorem seconds_shows (hours minutes : List Char) :
    Shows (fun _ => True) (seconds hours minutes) := by
  unfold seconds
  exact (integer_shows _).bind fun _ _ => (integer_shows _).bind fun _ _ => trivial

theorem unsignedOffset_shows (digits : List Char) :
    Shows (fun _ => True) (unsignedOffset digits) := by
  unfold unsignedOffset
  split
  · split
    · exact seconds_shows _ _
    · rintro ⟨⟩
  · split
    · exact seconds_shows _ _
    · exact seconds_shows _ _

theorem offsetSeconds_shows (text : List Char) : Shows (fun _ => True) (offsetSeconds text) := by
  unfold offsetSeconds
  split
  · trivial
  · exact (unsignedOffset_shows _).bind fun _ _ => trivial

theorem fractionMicros_shows (chars : List Char) :
    Shows (fun _ => True) (fractionMicros chars) := by
  unfold fractionMicros
  dsimp only
  split
  · trivial
  · split
    · unfold Integer.ofDouble
      split <;> first | trivial | nofun
    · rintro ⟨⟩

theorem civil_shows (text : List Char) (literal : String) :
    Shows (fun _ => True) (civil text literal) := by
  unfold civil
  split
  · rintro ⟨⟩
  · split
    · rintro ⟨⟩
    · split
      · rintro ⟨⟩
      · split
        · rintro ⟨⟩
        · split
          · rintro ⟨⟩
          · trivial

theorem withinSecond_shows (micro : Int) : Shows (fun _ => True) (withinSecond micro) := by
  unfold withinSecond
  split
  · rintro ⟨⟩
  · split
    · rintro ⟨⟩
    · trivial

theorem ofText_shows (text literal : String) : Shows (fun _ => True) (ofText text literal) := by
  unfold ofText
  split
  · rintro ⟨⟩
  · refine (fractionMicros_shows _).bind fun micro _ => (civil_shows _ _).bind fun c _ => ?_
    refine (withinSecond_shows micro).bind fun m _ => (offsetSeconds_shows _).bind fun off _ => ?_
    split
    · trivial
    · rintro ⟨⟩

end Stamp

namespace Tags

theorem only_shows (name : String) (fields : Fields) : Shows (fun _ => True) (only name fields) := by
  unfold only
  split
  · trivial
  · rintro ⟨⟩

theorem member_shows (shown : v.Showable) (name : String) :
    Shows Value.Showable (member v name) := by
  unfold member
  split
  · rename_i fs
    cases held : Fields.get? fs name with
    | none => rintro ⟨⟩
    | some w => exact (Value.showable_object.1 shown).get? w held
  · rintro ⟨⟩

theorem identifier_shows (fields : Fields) (v : Value) :
    ShowsIn (fun _ => True) Decoded (identifier fields v) := by
  refine (Draw.lift_shows (only_shows _ _)).bind fun _ _ => ?_
  split
  · exact .pure (.of_shown rfl nofun)
  · refine ShowsIn.bind (P := fun _ => True) (.returns (fun _ _ => trivial) fun _ left => left)
      fun id _ => .pure (.of_shown rfl nofun)
  · unfold badIdentifier
    split <;> exact Draw.lift_shows nofun

theorem instant_shows (decoded : Decoded v) : Shows Decoded (instant fields v) := by
  have stamps : Shows (fun _ => True) (Stamp.ofValue v) := by
    unfold Stamp.ofValue
    split
    · exact Stamp.ofText_shows _ _
    · refine (Integer.ofValue_shows decoded).bind fun n _ => ?_
      unfold Stamp.ofMillis
      split
      · trivial
      · rintro ⟨⟩
  exact (only_shows _ _).bind fun _ _ => stamps.bind fun _ _ => .of_shown rfl nofun

theorem longInteger_shows (decoded : Decoded v) : Shows Decoded (longInteger fields v) :=
  (only_shows _ _).bind fun _ _ => (Integer.ofValue_shows decoded).bind fun _ small =>
    .of_shown (Value.showable_long.2 small) nofun

theorem integer_shows (fields : Fields) (v : Value) : Shows Decoded (integer fields v) := by
  refine (only_shows _ _).bind fun _ _ => ?_
  split
  · exact (Integer.spelled_shows v).bind fun _ small =>
      .of_shown (Value.showable_int.2 small) nofun
  · rintro ⟨⟩

theorem double_shows (fields : Fields) (v : Value) :
    ShowsIn (fun _ => True) Decoded (double fields v) := by
  refine (Draw.lift_shows (only_shows _ _)).bind fun _ _ => ?_
  split
  · exact Draw.lift_shows nofun
  · split
    · exact Draw.lift_shows nofun
    · refine ShowsIn.bind (P := fun _ => True) (.returns (fun _ _ => trivial) fun _ left => left)
        fun label _ => .pure ⟨rfl, ?_⟩
      rintro _ ⟨⟩
      nofun
    · rename_i x read
      refine .pure ⟨rfl, ?_⟩
      rintro _ ⟨⟩
      obtain ⟨chars, _, numeral⟩ := Option.bind_eq_some_iff.1 read
      exact Double.ofNumeral?_bounded numeral

theorem decimal_shows (fields : Fields) (v : Value) : Shows Decoded (decimal fields v) := by
  refine (only_shows _ _).bind fun _ _ => ?_
  split
  · rintro ⟨⟩
  · split
    · exact .ok (.of_shown rfl nofun)
    · rintro ⟨⟩
    · rintro ⟨⟩

theorem extreme_shows (name : String) {result : Value} (decoded : Decoded result)
    (fields : Fields) (v : Value) : Shows Decoded (extreme name result fields v) := by
  unfold extreme
  split
  · refine (only_shows _ _).bind fun _ _ => ?_
    split
    · exact decoded
    · rintro ⟨⟩
  · rintro ⟨⟩

/-! ### Bytes -/

theorem base64_shows (text : String) : Shows (fun _ => True) (base64 text) := by
  have encodable : Shows (fun _ => True) (Fault.unlessEncodable (fun _ => false) text) := by
    unfold Fault.unlessEncodable
    split
    · rintro ⟨⟩
    · trivial
  refine encodable.bind fun _ _ => ?_
  cases Base64.decode? text <;> first | trivial | nofun

theorem withSubtype_shows (subtype : Int) (bytes : List UInt8) :
    Shows Decoded (withSubtype subtype bytes) := by
  unfold withSubtype
  split
  · exact .ok (.of_shown rfl nofun)
  · split
    · rintro ⟨⟩
    · exact .ok (.of_shown rfl nofun)

theorem separateSubtype_shows (v : Value) : Shows (fun _ => True) (separateSubtype v) := by
  unfold separateSubtype
  extract_lets digits
  clear_value digits
  split
  · exact .ok trivial
  · exact .ok trivial
  · exact .ok trivial
  · refine (Integer.spelled_any 16 digits).bind fun n _ => ?_
    split
    · exact .ok trivial
    · split
      · exact @Integer.ofText_shows 16 _
      · exact @Integer.spelled_any 16 _

theorem binary_shows (shown : v.Showable) : Shows Decoded (binary fields v) := by
  unfold binary
  split
  · refine (separateSubtype_shows _).bind fun subtype _ => ?_
    split
    · exact (base64_shows _).bind fun bytes _ => withSubtype_shows _ _
    · rintro ⟨⟩
  · refine (member_shows shown _).bind fun digits _ => (member_shows shown _).bind fun kind _ => ?_
    split
    · split
      · rintro ⟨⟩
      · exact (base64_shows _).bind fun _ _ => (Integer.spelled_any _ _).bind fun _ _ =>
          withSubtype_shows _ _
    · rintro ⟨⟩

theorem uuid_shows (fields : Fields) (v : Value) : Shows Decoded (uuid fields v) := by
  refine (only_shows _ _).bind fun _ _ => ?_
  split
  · rintro ⟨⟩
  · extract_lets digits
    clear_value digits
    split
    · rintro ⟨⟩
    · refine (Integer.ofText_shows 16 _).bind fun n _ => ?_
      split
      · rintro ⟨⟩
      · exact .ok (.of_shown rfl nofun)

/-! ### Texts -/

theorem pattern_shows (each : fields.Showable) (shown : v.Showable) :
    Shows Decoded (pattern fields v) := by
  unfold pattern
  split
  · exact .ok (.of_shown (Value.showable_object.2 each) nofun)
  · have beside : ((Fields.get? fields "$options").getD (.text "")).Showable := by
      cases held : Fields.get? fields "$options" with
      | none => rfl
      | some w => exact each.get? w held
    refine beside.members.bind fun members _ => ?_
    have letters : Shows (fun _ => True) (members.mapM optionLetter) := by
      refine (Shows.mapM (Q := fun _ => True) fun m _ => ?_).imp fun _ _ => trivial
      unfold optionLetter
      split
      · split <;> trivial
      · split
        · trivial
        · rintro ⟨⟩
    exact letters.bind fun _ _ => .of_shown shown nofun

theorem regularExpression_shows (shown : v.Showable) :
    Shows Decoded (regularExpression fields v) := by
  refine (only_shows _ _).bind fun _ _ => ?_
  split
  · split
    · rintro ⟨⟩
    · refine (member_shows shown _).bind fun letters _ => ?_
      split
      · rintro ⟨⟩
      · refine (member_shows shown _).bind fun source inner => ?_
        split
        · rintro ⟨⟩
        · refine .ok (.of_shown inner ?_)
          rintro _ ⟨⟩
  · rintro ⟨⟩

theorem code_shows (each : fields.Showable) (shown : v.Showable) :
    Shows Decoded (code fields v) := by
  have scope : (Fields.getD fields "$scope").Showable := each.getD _
  unfold code
  split
  · rintro ⟨⟩
  · split
    · split
      · exact .ok (.of_shown rfl nofun)
      · rename_i outer given
        rw [given] at scope
        exact .ok (.of_shown scope nofun)
      · rintro ⟨⟩
    · rename_i s inner
      have held : inner.Showable := shown
      split
      · exact .ok (.of_shown held nofun)
      · rename_i fs outer given
        rw [given] at scope
        refine .ok (.of_shown (Value.showable_object.2 ?_) nofun)
        exact (Value.showable_object.1 held).setAll (Value.showable_object.1 scope)
      · rename_i outer _ given
        rw [given] at scope
        exact .ok (.of_shown scope nofun)
      · rintro ⟨⟩
    · rintro ⟨⟩

theorem symbol_shows (fields : Fields) (v : Value) : Shows Decoded (symbol fields v) :=
  (only_shows _ _).bind fun _ _ => .of_shown rfl nofun

/-! ### Timestamps and references -/

theorem count_shows (name : String) (v : Value) : Shows Value.Showable (count name v) := by
  have small {n : Int} (within : 0 ≤ n ∧ n < countLimit) : n.natAbs < Digit.beyond := by
    refine Nat.lt_trans (m := 0x100000000) ?_ (by decide +kernel)
    have bound : n < 0x100000000 := within.2
    omega
  have checks (n : Int) (fault : Fault) (other : fault ≠ .endlessInteger)
      (shown : n.natAbs < Digit.beyond → v.Showable) : Shows Value.Showable
        (if 0 ≤ n ∧ n < countLimit then .ok v else .error fault) := by
    split
    · rename_i within
      exact .ok (shown (small within))
    · exact other
  unfold count
  dsimp only
  split
  · exact checks _ _ nofun fun _ => rfl
  · exact checks _ _ nofun Value.showable_int.2
  · exact checks _ _ nofun Value.showable_long.2
  · rintro ⟨⟩

theorem timestamp_shows (shown : v.Showable) : Shows Decoded (timestamp v) := by
  have closes (time increment : Value) : Shows Decoded (do
      let time ← count "time" (timeOf time)
      .ok (.timestamp time (← count "inc" increment))) := by
    refine (count_shows _ _).bind fun t first => (count_shows _ _).bind fun i second => ?_
    refine .of_shown ?_ nofun
    unfold Value.Showable Value.hasLiteral
    rw [Bool.and_eq_true]
    exact ⟨first, second⟩
  refine (member_shows shown _).bind fun time _ => (member_shows shown _).bind fun increment _ => ?_
  dsimp only
  split
  · exact closes _ _
  · exact closes _ _
  · exact closes _ _
  · exact (count_shows _ _).bind fun _ _ => closes _ _

theorem reference_shows (each : fields.Showable) (shown : v.Showable) :
    Shows Decoded (reference fields v) := by
  have plain : Decoded (.object fields) := .of_shown (Value.showable_object.2 each) nofun
  unfold reference
  dsimp only
  split
  · split
    · rintro ⟨⟩
    · let extra := fields.filter fun f => !(["$ref", "$id", "$db"].contains f.1)
      have others : Fields.Showable extra := fun f among => each f (List.mem_filter.1 among).1
      have more : (Fields.getD extra moreName).Showable := others.getD _
      have closes {listed : Fields} (given : listed.Showable) : Decoded (.reference v
          (Fields.getD fields "$id") (Fields.getD fields "$db")
          (listed.foldl (fun fs f => Fields.set fs f.1 f.2) (Fields.erase extra moreName))) := by
        refine .of_shown ?_ nofun
        unfold Value.Showable Value.hasLiteral
        simp only [Bool.and_eq_true]
        refine ⟨⟨⟨shown, each.getD _⟩, each.getD _⟩, Value.fieldsHaveLiteral_iff.2 ?_⟩
        exact (others.erase _).setAll given
      split
      · exact more.asFields.bind fun listed given => closes given
      · exact .ok (closes (List.forall_mem_nil _))
  · exact plain

theorem pointer_shows (decoded : Decoded v) : Shows Decoded (pointer fields v) := by
  refine (only_shows _ _).bind fun _ _ => ?_
  split
  · split
    · exact decoded
    · rintro ⟨⟩
  · rintro ⟨⟩

/-- Every name that says how to read an object gives a value as it is decoded. -/
theorem readers_show {entry : String × (Fields → Value → Draw Value)} (known : entry ∈ readers)
    (each : fields.Showable) (decoded : Decoded v) :
    ShowsIn (fun _ => True) Decoded (entry.2 fields v) := by
  have shown := decoded.shown
  have least : Decoded .least := .of_shown rfl nofun
  have greatest : Decoded .greatest := .of_shown rfl nofun
  simp only [readers, List.mem_cons, List.not_mem_nil, or_false] at known
  rcases known with rfl | rfl | rfl | rfl | rfl | rfl | rfl | rfl | rfl | rfl | rfl | rfl | rfl |
    rfl | rfl | rfl | rfl | rfl
  · exact identifier_shows fields v
  · exact Draw.lift_shows (reference_shows each shown)
  · exact Draw.lift_shows (instant_shows decoded)
  · exact Draw.lift_shows (pattern_shows each shown)
  · exact Draw.lift_shows (extreme_shows _ least fields v)
  · exact Draw.lift_shows (extreme_shows _ greatest fields v)
  · exact Draw.lift_shows (binary_shows shown)
  · exact Draw.lift_shows (code_shows each shown)
  · exact Draw.lift_shows (uuid_shows fields v)
  · exact .pure (.of_shown rfl nofun)
  · exact Draw.lift_shows (longInteger_shows decoded)
  · exact Draw.lift_shows (timestamp_shows shown)
  · exact Draw.lift_shows (decimal_shows fields v)
  · exact Draw.lift_shows (pointer_shows decoded)
  · exact Draw.lift_shows (regularExpression_shows shown)
  · exact Draw.lift_shows (symbol_shows fields v)
  · exact Draw.lift_shows (integer_shows fields v)
  · exact double_shows fields v

end Tags

/-- **An object of decoded values is told what it stands for.** -/
theorem interpret_shows (each : ∀ f ∈ fields, Decoded f.2) :
    ShowsIn (fun _ => True) Decoded (interpret fields) := by
  have shown := Decoded.fields each
  unfold interpret
  split
  · exact .pure (.of_shown (Value.showable_object.2 shown) nofun)
  · rename_i read v found
    obtain ⟨⟨name, w⟩, among, found⟩ := List.exists_of_findSome?_eq_some found
    obtain ⟨reader, known, same⟩ := Option.map_eq_some_iff.1 found
    cases same
    obtain ⟨before, behind, listed, _⟩ := List.lookup_eq_some_iff.1 known
    have listed : (name, read) ∈ Tags.readers := by
      rw [listed]
      exact List.mem_append_right before List.mem_cons_self
    exact Tags.readers_show listed shown (each _ among)

theorem values_gives : values.Gives Decoded where
  text _ := .of_shown rfl nofun
  scalar := Json.scalar_decoded
  array each := .of_shown (Value.showable_array.2 fun x among => (each x among).shown) nofun
  object := interpret_shows
  refuse e := by cases e <;> nofun

/-- **Whatever is decoded can be shown.** -/
theorem parse_shows (text : String) : ShowsIn (fun _ => True) Value.Showable (parse text) :=
  (Json.Builder.build_shows values_gives text).imp fun _ => Decoded.shown

end ExtendedJson

end DocRepair
