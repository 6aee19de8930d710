import DocRepair.ExtendedJson
import DocRepair.Proofs.Calendar
import DocRepair.Proofs.Computations
import DocRepair.Proofs.Digits
import DocRepair.Proofs.Rounding
/-!
# `DocRepair.Proofs.Stamped` — a written instant is read back

An instant of whole milliseconds is written with numbers of fixed width between marks. Each of them is
read back, the fraction of a second by way of the floating-point number that it is near.

## Contents

* `digits_padded` / `spelled_padded` — numbers of fixed width;
* `takeCivil?_shown` — date and time;
* `survives` / `fractionMicros_shown` — the fraction;
* `stampText` / `ofText_shown` — the whole text.
-/

namespace DocRepair.ExtendedJson.Stamp

open DocRepair.Text DocRepair.Double

variable {c : Char} {n width : Nat} {rest cs : List Char}

/-! ## Numbers of fixed width -/

theorem toList_padded (width n : Nat) : (Instant.padded width n).toList =
    List.replicate (width - (Nat.toDigits 10 n).length) '0' ++ Nat.toDigits 10 n :=
  String.toList_ofList

theorem digits_padded (width n : Nat) : Digits (Instant.padded width n).toList := by
  rw [toList_padded]
  exact (Digits.zeros _).append (digits_toDigits n)

theorem length_padded (width : Nat) (some : 0 < width) (fits : n < 10 ^ width) :
    (Instant.padded width n).toList.length = width := by
  have few := (Nat.length_toDigits_le_iff (b := 10) (by decide) some).2 fits
  rw [toList_padded, List.length_append, List.length_replicate]
  omega

theorem ofDigits_padded (width n : Nat) :
    ofDigits (Double.values (Instant.padded width n).toList) = n := by
  rw [toList_padded, ofDigits_led, ofDigits_toDigits]

theorem decimalValue?_digit (digit : c.isDigit = true) :
    Digit.decimalValue? c = some (c.toNat - 48) := by
  obtain ⟨above, below⟩ := Char.isDigit_iff_toNat.1 digit
  have low : 48 ≤ c.toNat := above
  have high : c.toNat < 48 + 10 := Nat.lt_succ_of_le below
  have range : (decide (48 ≤ c.toNat) && decide (c.toNat < 48 + 10)) = true := by
    rw [decide_eq_true low, decide_eq_true high]
    rfl
  obtain ⟨others, table⟩ : ∃ others, Digit.zeros = 48 :: others := ⟨_, rfl⟩
  unfold Digit.decimalValue?
  rw [table]
  exact congrArg (Option.map fun first => c.toNat - first) (List.find?_cons_of_pos range)

theorem spelled_digits (digits : Digits cs) : spelled cs = ofDigits (Double.values cs) := by
  have all : cs.filterMap Digit.decimalValue? = Double.values cs := by
    rw [List.filterMap_congr fun c hc => decimalValue?_digit (digits c hc)]
    exact congrFun List.filterMap_eq_map' cs
  unfold spelled
  rw [all]
  rfl

theorem spelled_padded (width n : Nat) : spelled (Instant.padded width n).toList = n := by
  rw [spelled_digits (digits_padded width n), ofDigits_padded]

/-! ## Date and time -/

/-- The two digits of a number below a hundred. -/
theorem toList_padded_two (small : n < 100) :
    (Instant.padded 2 n).toList = [Nat.digitChar (n / 10), Nat.digitChar (n % 10)] := by
  rw [toList_padded]
  rcases Nat.lt_or_ge n 10 with one | two
  · rw [Nat.toDigits_of_lt_base one, Nat.div_eq_of_lt one, Nat.mod_eq_of_lt one]
    rfl
  · rw [Nat.toDigits_of_base_le (by decide) two, Nat.toDigits_of_lt_base (by omega)]
    rfl

/-- Numbers whose two digits a field may hold. -/
def Field.Holds (f : Field) (n : Nat) : Prop :=
  n < 100 ∧ f.two (Nat.digitChar (n / 10)) (Nat.digitChar (n % 10)) = true

theorem month_holds (low : 1 ≤ n) (high : n ≤ 12) : month.Holds n := by
  have table : ∀ m : Fin 13, 1 ≤ m.val →
      month.two (Nat.digitChar (m.val / 10)) (Nat.digitChar (m.val % 10)) = true := by decide
  exact ⟨by omega, table ⟨n, by omega⟩ low⟩

theorem day_holds (low : 1 ≤ n) (high : n ≤ 31) : day.Holds n := by
  have table : ∀ m : Fin 32, 1 ≤ m.val →
      day.two (Nat.digitChar (m.val / 10)) (Nat.digitChar (m.val % 10)) = true := by decide
  exact ⟨by omega, table ⟨n, by omega⟩ low⟩

theorem hour_holds (high : n < 24) : hour.Holds n := by
  have table : ∀ m : Fin 24,
      hour.two (Nat.digitChar (m.val / 10)) (Nat.digitChar (m.val % 10)) = true := by decide
  exact ⟨by omega, table ⟨n, high⟩⟩

theorem minute_holds (high : n < 60) : minute.Holds n := by
  have table : ∀ m : Fin 60,
      minute.two (Nat.digitChar (m.val / 10)) (Nat.digitChar (m.val % 10)) = true := by decide
  exact ⟨by omega, table ⟨n, high⟩⟩

theorem second_holds (high : n < 60) : second.Holds n := by
  have table : ∀ m : Fin 60,
      second.two (Nat.digitChar (m.val / 10)) (Nat.digitChar (m.val % 10)) = true := by decide
  exact ⟨by omega, table ⟨n, high⟩⟩

/-- A number that a field may hold is taken from the front of a text. -/
theorem Field.take?_padded {f : Field} {accept : List Char → Bool} (holds : f.Holds n)
    (accepts : accept rest = true) :
    f.take? accept ((Instant.padded 2 n).toList ++ rest) = some (n, rest) := by
  have value := spelled_padded 2 n
  rw [toList_padded_two holds.1] at value ⊢
  show (if f.two _ _ && accept rest then some (spelled _, rest) else _) = _
  rw [holds.2, accepts, value]
  rfl

theorem Field.takeMarked?_padded {f : Field} {mark : Char → Bool} (holds : f.Holds n)
    (marked : mark c = true) :
    f.takeMarked? mark ((Instant.padded 2 n).toList ++ c :: rest) = some (n, rest) := by
  have accepts : (c :: rest).head?.any mark = true := marked
  unfold takeMarked?
  rw [Field.take?_padded holds accepts]
  rfl

theorem takeYear?_padded (small : n < 10000) :
    takeYear? ((Instant.padded 4 n).toList ++ '-' :: rest) = some (n, rest) := by
  have four := length_padded 4 (by decide) small
  have all : (Instant.padded 4 n).toList.all isDecimal = true := by
    rw [List.all_eq_true]
    intro c hc
    unfold isDecimal
    rw [decimalValue?_digit (digits_padded 4 n c hc)]
    rfl
  unfold takeYear?
  rw [List.take_left' four, List.drop_left' four]
  dsimp only
  rw [four, all, spelled_padded]
  rfl

theorem daysIn_le (year : Int) (month : Nat) : Instant.daysIn year month ≤ 31 := by
  unfold Instant.daysIn
  split_ifs <;> decide

/-- The characters of a date and time. -/
def shown (c : Civil) : List Char := (Instant.dateText c ++ "T" ++ Instant.timeText c).toList

theorem shown_eq (c : Civil) (rest : List Char) : shown c ++ rest =
    (Instant.padded 4 c.year.toNat).toList ++ '-' :: ((Instant.padded 2 c.month).toList ++ '-' ::
      ((Instant.padded 2 c.day).toList ++ 'T' :: ((Instant.padded 2 c.hour).toList ++ ':' ::
        ((Instant.padded 2 c.minute).toList ++ ':' ::
          ((Instant.padded 2 c.second).toList ++ rest))))) := by
  have dash : "-".toList = ['-'] := rfl
  have colon : ":".toList = [':'] := rfl
  have mark : "T".toList = ['T'] := rfl
  unfold shown Instant.dateText Instant.timeText
  simp only [String.toList_append, List.append_assoc, dash, colon, mark, List.cons_append,
    List.nil_append]

/-- **A date and time is taken from the front of a text.** -/
theorem takeCivil?_shown {c : Civil} (valid : c.isValid = true) (rest : List Char) :
    takeCivil? (shown c ++ rest) = some ({ c with micro := 0 }, rest) := by
  unfold Civil.isValid at valid
  simp only [Bool.and_eq_true, decide_eq_true_iff] at valid
  obtain ⟨⟨⟨⟨⟨⟨⟨⟨⟨firstYear, lastYear⟩, firstMonth⟩, lastMonth⟩, firstDay⟩, lastDay⟩, hours⟩,
    minutes⟩, seconds⟩, _⟩ := valid
  have year : ((c.year.toNat : Nat) : Int) = c.year := Int.toNat_of_nonneg (by omega)
  have daily := daysIn_le c.year c.month
  have inMonth := month_holds firstMonth lastMonth
  have inDay := day_holds firstDay (lastDay.trans daily)
  unfold takeCivil?
  rw [shown_eq, takeYear?_padded (by omega)]
  simp only [Option.bind_eq_bind, Option.bind_some, Field.takeMarked?_padded inMonth,
    Field.takeMarked?_padded inDay, Field.takeMarked?_padded (hour_holds hours),
    Field.takeMarked?_padded (minute_holds minutes), Field.take?_padded (second_holds seconds),
    beq_self_eq_true, Bool.true_or, year]

/-- A date and time that fills a text is what the text spells. -/
theorem civil_shown {c : Civil} (valid : c.isValid = true) (literal : String) :
    civil (shown c) literal = .ok { c with micro := 0 } := by
  have whole := takeCivil?_shown valid []
  rw [List.append_nil] at whole
  unfold Civil.isValid at valid
  simp only [Bool.and_eq_true, decide_eq_true_iff] at valid
  obtain ⟨⟨⟨⟨⟨⟨⟨⟨⟨firstYear, _⟩, _⟩, _⟩, _⟩, lastDay⟩, _⟩, _⟩, seconds⟩, _⟩ := valid
  unfold civil
  rw [whole]
  dsimp only
  rw [if_neg (by decide), if_neg (by omega), if_neg (by omega), if_neg (by omega)]

/-! ## Fractions -/

/-- Characters that a fraction is made of. -/
def inFraction (c : Char) : Bool := c == '.' || c.isDigit

theorem inFraction_all (digits : Digits cs) : ∀ c ∈ '.' :: cs, inFraction c = true := by
  intro c hc
  unfold inFraction
  rcases List.mem_cons.1 hc with rfl | hc
  · rfl
  · rw [digits c hc, Bool.or_true]

theorem inFraction_range (among : inFraction c = true) : 46 ≤ c.toNat ∧ c.toNat ≤ 57 := by
  rcases Bool.or_eq_true_iff.1 among with point | digit
  · rw [beq_iff_eq.1 point]
    decide
  · obtain ⟨above, below⟩ := Char.isDigit_iff_toNat.1 digit
    have low : 48 ≤ c.toNat := above
    exact ⟨by omega, below⟩

theorem not_blank (among : inFraction c = true) : Blank.isBlank c = false := by
  obtain ⟨low, high⟩ := inFraction_range among
  unfold Blank.isBlank
  simp
  omega

/-- A text without blanks keeps all its characters. -/
theorem characters_fraction (all : ∀ c ∈ cs, inFraction c = true) :
    Numeral.characters (String.ofList cs) = cs := by
  have kept : cs.map Numeral.plain = cs := by
    refine (List.map_congr_left fun c hc => ?_).trans (List.map_id cs)
    have range := inFraction_range (all c hc)
    exact if_pos (by omega)
  have bare (ds : List Char) (none : ∀ c ∈ ds, inFraction c = true) :
      ds.dropWhile Blank.isBlank = ds := by
    cases ds with
    | nil => rfl
    | cons d ds =>
      refine List.dropWhile_cons_of_neg ?_
      rw [not_blank (none d List.mem_cons_self)]
      exact Bool.false_ne_true
  unfold Numeral.characters Blank.trim
  rw [String.toList_ofList, kept, bare cs all,
    bare cs.reverse fun c hc => all c (List.mem_reverse.1 hc), List.reverse_reverse]

theorem withoutUnderscores?_fraction (all : ∀ c ∈ cs, inFraction c = true) (before : Option Char) :
    Numeral.withoutUnderscores? before cs = some cs := by
  induction cs generalizing before with
  | nil => rfl
  | cons c cs ih =>
    have other : c ≠ '_' := by
      rintro rfl
      exact Bool.false_ne_true (all '_' List.mem_cons_self)
    unfold Numeral.withoutUnderscores?
    rw [if_neg other, ih (fun d hd => all d (List.mem_cons_of_mem c hd)) (some c)]
    rfl

theorem ofNumeral?_fraction (digits : Digits cs) (full : cs ≠ []) :
    Double.ofNumeral? ('.' :: cs) =
      some ((⟨[], Double.values cs, 0⟩ : Double.Numeral).toDouble false) := by
  have scanned : Double.scanNumeral? ('.' :: cs) = some ⟨[], Double.values cs, 0⟩ := by
    have all : spanDigits (cs ++ []) = (Double.values cs, []) :=
      spanDigits_digits digits fun c hc => absurd hc (Option.not_mem_none c)
    have none : spanDigits ('.' :: cs) = ([], '.' :: cs) := rfl
    have some : (Double.values cs).isEmpty = false := by
      rw [List.isEmpty_eq_false_iff, Double.values, Ne, List.map_eq_nil_iff]
      exact full
    rw [List.append_nil] at all
    unfold Double.scanNumeral?
    simp only [none, all]
    rw [some, Bool.and_false, if_neg Bool.false_ne_true]
    rfl
  have noWord (w : String) (letter : w.toList.head? ≠ some '.') :
      String.ofList (('.' :: cs).map Double.lower) ≠ w := by
    rintro rfl
    rw [String.toList_ofList] at letter
    exact letter rfl
  have sign : Double.spanSign ('.' :: cs) = (false, '.' :: cs) := rfl
  unfold Double.ofNumeral?
  rw [sign]
  dsimp only
  rw [if_neg (not_or.2 ⟨noWord "inf" (by decide), noWord "infinity" (by decide)⟩),
    if_neg (noWord "nan" (by decide)), scanned]
  rfl

/-- A fraction is read as the number that its digits name. -/
theorem double?_fraction (digits : Digits cs) (full : cs ≠ []) :
    Numeral.double? (String.ofList ('.' :: cs)) =
      some ((⟨[], Double.values cs, 0⟩ : Double.Numeral).toDouble false) := by
  have all := inFraction_all digits
  unfold Numeral.double?
  rw [characters_fraction all, withoutUnderscores?_fraction all]
  exact ofNumeral?_fraction digits full

/-! ### Milliseconds -/

/-- The binary digits behind the first one of a number of milliseconds as a part of a second. -/
def binaryPlace (millis : Nat) : Nat := 1064 + (millis * 1024 / 1000).log2

/-- The same for its number of microseconds. -/
def microPlace (millis : Nat) : Nat := 1074 + (millis * 1000).log2

/-- A number of milliseconds as a part of a second, rounded. -/
def asSeconds (millis : Nat) : Nat := roundedAt (binaryPlace millis) (millis * one) 1000

/-- That times a million, rounded. -/
def asMicros (millis : Nat) : Nat := roundedAt (microPlace millis) (asSeconds millis * 1000000) 1

/-- Whether rounding twice does not lose a microsecond. -/
structure Survives (millis : Nat) : Prop where
  secondsLow : 2 ^ binaryPlace millis ≤ millis * one / 1000
  secondsHigh : millis * one / 1000 < 2 ^ (binaryPlace millis + 1)
  secondsBound : asSeconds millis < beyond
  microsLow : 2 ^ microPlace millis ≤ asSeconds millis * 1000000 / 1
  microsHigh : asSeconds millis * 1000000 / 1 < 2 ^ (microPlace millis + 1)
  microsBound : asMicros millis < beyond
  whole : asMicros millis / one = 1000 * millis

/-- Rounding twice could lose a microsecond, so each of the thousand fractions is looked at. -/
theorem survives {millis : Nat} (pos : 0 < millis) (small : millis < 1000) : Survives millis := by
  have table : ∀ m : Fin 1000, 0 < m.val →
      2 ^ binaryPlace m.val ≤ m.val * one / 1000 ∧
      m.val * one / 1000 < 2 ^ (binaryPlace m.val + 1) ∧
      asSeconds m.val < beyond ∧
      2 ^ microPlace m.val ≤ asSeconds m.val * 1000000 / 1 ∧
      asSeconds m.val * 1000000 / 1 < 2 ^ (microPlace m.val + 1) ∧
      asMicros m.val < beyond ∧ asMicros m.val / one = 1000 * m.val := by decide +kernel
  obtain ⟨a, b, c, d, e, f, g⟩ := table ⟨millis, small⟩ pos
  exact ⟨a, b, c, d, e, f, g⟩

theorem ofDecimal_thousandths {digits count : Nat} (some : digits ≠ 0) (few : count ≤ 3) :
    ofDecimal false digits count (-3) = ofRatio false digits 1000 := by
  have near : ¬ 400 < (-3 : Int) + count := by omega
  have far : ¬ (-3 : Int) + count < -400 := by omega
  have thousand : Nat.pow 10 (-(-3 : Int)).toNat = 1000 := rfl
  unfold ofDecimal
  rw [if_neg some, if_neg near, if_neg far, if_neg (by decide), thousand]

/-- A number of milliseconds behind a point is read as its microseconds. -/
theorem fractionMicros_shown {millis : Nat} (pos : 0 < millis) (small : millis < 1000) :
    fractionMicros ('.' :: (Instant.padded 3 millis).toList) = .ok (1000 * millis : Nat) := by
  have digits := digits_padded 3 millis
  have three := length_padded 3 (by decide) small
  have full : (Instant.padded 3 millis).toList ≠ [] := by
    intro none
    rw [none] at three
    cases three
  have exact := survives pos small
  have decimal : (⟨[], Double.values (Instant.padded 3 millis).toList, 0⟩ : Double.Numeral).toDouble false =
      ofRatio false millis 1000 := by
    have count : ((Double.values (Instant.padded 3 millis).toList).dropWhile (· == 0)).length ≤ 3 := by
      refine (List.dropWhile_sublist _).length_le.trans ?_
      rw [length_values, three]
    have exponent : (0 : Int) - ((3 : Nat) : Int) = -3 := rfl
    unfold Numeral.toDouble
    dsimp only
    rw [List.nil_append, ofDigits_padded, length_values, three, exponent]
    exact ofDecimal_thousandths pos.ne' count
  have seconds : ofRatio false millis 1000 = .finite false (asSeconds millis) := by
    unfold ofRatio
    rw [roundUnits_at exact.secondsLow exact.secondsHigh]
    exact if_pos exact.secondsBound
  have quotient {a b c : Nat} (whole : a / b = c) : Int.tdiv (a : Int) (b : Int) = (c : Int) := by
    rw [← Int.ofNat_tdiv, whole]
  have micros : (Double.finite false (asSeconds millis)).scale 1000000 =
      .finite false (asMicros millis) := by
    show ofUnits false (roundUnits (asSeconds millis * 1000000) 1) = _
    rw [roundUnits_at exact.microsLow exact.microsHigh]
    exact if_pos exact.microsBound
  unfold fractionMicros
  dsimp only
  rw [double?_fraction digits full, decimal, seconds]
  dsimp only
  rw [micros]
  exact congrArg Except.ok (quotient exact.whole)

/-! ## Instants -/

/-- A text that ends in the letter of universal time has no other offset. -/
theorem splitOffset_universal (stamp : List Char) :
    splitOffset (stamp ++ ['Z']) = some (stamp, []) := by
  have last : fromEnd? (stamp ++ ['Z']) 1 = some 'Z' := by
    unfold fromEnd?
    rw [List.length_append, List.length_singleton, if_pos (by omega), Nat.add_sub_cancel,
      List.getElem?_concat_length]
  unfold splitOffset
  simp only [last, Option.bind_eq_bind, Option.bind_some, if_true, List.dropLast_concat]

theorem takeWhile_pointless (none : ∀ c ∈ cs, c ≠ '.') (more : List Char) :
    (cs.reverse ++ more).takeWhile (· != '.') = cs.reverse ++ more.takeWhile (· != '.') :=
  List.takeWhile_append_of_pos fun c hc => bne_iff_ne.2 (none c (List.mem_reverse.1 hc))

/-- A text without a point has no fraction. -/
theorem lastPoint_none (none : ∀ c ∈ cs, c ≠ '.') : lastPoint cs = (cs, []) := by
  have tail := takeWhile_pointless none []
  rw [List.append_nil, List.takeWhile_nil, List.append_nil] at tail
  unfold lastPoint
  rw [tail]
  dsimp only
  rw [List.length_reverse, if_pos rfl]

/-- The fraction of a text starts at its last point. -/
theorem lastPoint_point (front : List Char) (none : ∀ c ∈ cs, c ≠ '.') :
    lastPoint (front ++ '.' :: cs) = (front, '.' :: cs) := by
  have tail := takeWhile_pointless none ('.' :: front.reverse)
  have reversed : (front ++ '.' :: cs).reverse = cs.reverse ++ '.' :: front.reverse := by
    rw [List.reverse_append, List.reverse_cons, List.append_assoc, List.singleton_append]
  have stop : ('.' :: front.reverse).takeWhile (· != '.') = [] := rfl
  have length : (front ++ '.' :: cs).length = front.length + (cs.length + 1) := by
    rw [List.length_append, List.length_cons]
  rw [stop, List.append_nil] at tail
  unfold lastPoint cut
  rw [reversed, tail]
  dsimp only
  rw [List.length_reverse, length, if_neg (by omega), Nat.add_sub_cancel, List.take_left,
    List.drop_left]

theorem digit_ne_point (digit : c.isDigit = true) : c ≠ '.' := by
  rintro rfl
  exact Bool.false_ne_true digit

/-- A date and time has no point in it. -/
theorem shown_pointless (c : Civil) : ∀ d ∈ shown c, d ≠ '.' := by
  have number (width n : Nat) : ∀ d ∈ (Instant.padded width n).toList, d ≠ '.' :=
    fun d hd => digit_ne_point (digits_padded width n d hd)
  have parts := shown_eq c []
  rw [List.append_nil, List.append_nil] at parts
  rw [parts]
  simp only [List.forall_mem_append, List.forall_mem_cons]
  exact ⟨number _ _, by decide, number _ _, by decide, number _ _, by decide, number _ _, by decide,
    number _ _, by decide, number _ _⟩

/-- The fraction of a time in whole milliseconds; none if there are no milliseconds. -/
def fraction (millis : Nat) : String :=
  if millis = 0 then "" else "." ++ Instant.padded 3 millis

/-- A fraction is found behind a date and time, and read. -/
theorem fraction_shown (c : Civil) {millis : Nat} (small : millis < 1000) :
    lastPoint (shown c ++ (fraction millis).toList) = (shown c, (fraction millis).toList) ∧
      fractionMicros (fraction millis).toList = .ok (1000 * millis : Nat) := by
  unfold fraction
  rcases Nat.eq_zero_or_pos millis with rfl | pos
  · rw [if_pos rfl]
    refine ⟨?_, rfl⟩
    show lastPoint (shown c ++ []) = (shown c, [])
    rw [List.append_nil]
    exact lastPoint_none (shown_pointless c)
  · have chars : ("." ++ Instant.padded 3 millis).toList =
        '.' :: (Instant.padded 3 millis).toList := String.toList_append
    rw [if_neg pos.ne', chars]
    exact ⟨lastPoint_point _ fun d hd => digit_ne_point (digits_padded 3 millis d hd),
      fractionMicros_shown pos small⟩

/-- The text of an instant of whole milliseconds. -/
def stampText (t : Instant) : String :=
  Instant.dateText t.civil ++ "T" ++ Instant.timeText t.civil ++ fraction (t.civil.micro / 1000) ++ "Z"

theorem toList_stampText (t : Instant) : (stampText t).toList =
    shown t.civil ++ (fraction (t.civil.micro / 1000)).toList ++ ['Z'] := by
  unfold stampText
  rw [String.toList_append, String.toList_append]
  rfl

/-- The text of an instant has no character beyond the letters. -/
theorem stampText_ascii (t : Instant) : ∀ c ∈ (stampText t).toList, c.toNat < 128 := by
  have number (width n : Nat) : ∀ c ∈ (Instant.padded width n).toList, c.toNat < 128 := by
    intro c hc
    obtain ⟨_, below⟩ := Char.isDigit_iff_toNat.1 (digits_padded width n c hc)
    exact Nat.lt_of_le_of_lt below (by decide)
  have part (millis : Nat) : ∀ c ∈ (fraction millis).toList, c.toNat < 128 := by
    unfold fraction
    split
    · exact fun c hc => absurd hc List.not_mem_nil
    · rw [String.toList_append]
      exact List.forall_mem_append.2 ⟨List.forall_mem_singleton.2 (by decide), number _ _⟩
  rw [toList_stampText, List.append_assoc, shown_eq]
  simp only [List.forall_mem_append, List.forall_mem_cons]
  exact ⟨number _ _, by decide, number _ _, by decide, number _ _, by decide, number _ _, by decide,
    number _ _, by decide, number _ _, part _, by decide, fun c hc => absurd hc List.not_mem_nil⟩

/-- **The text of an instant of whole milliseconds is read as that instant.** -/
theorem ofText_shown {micros : Int} (valid : (Instant.civil ⟨micros, none⟩).isValid = true)
    (whole : (Instant.civil ⟨micros, none⟩).micro % 1000 = 0) (literal : String) :
    ofText (stampText ⟨micros, none⟩) literal = .ok ⟨micros, none⟩ := by
  obtain ⟨c, taken⟩ : ∃ c, c = Instant.civil ⟨micros, none⟩ := ⟨_, rfl⟩
  have again : Instant.ofCivil c none = ⟨micros, none⟩ :=
    taken ▸ Instant.ofCivil_civil ⟨micros, none⟩
  have same : naive? micros = some ⟨micros, none⟩ := if_pos valid
  have limit : c.micro < 1000000 := by
    have bounds := valid
    unfold Civil.isValid at bounds
    rw [Bool.and_eq_true, decide_eq_true_iff] at bounds
    rw [taken]
    exact bounds.2
  have chars : (stampText ⟨micros, none⟩).toList =
      shown c ++ (fraction (c.micro / 1000)).toList ++ ['Z'] := taken ▸ toList_stampText _
  rw [← taken] at valid whole
  obtain ⟨point, read⟩ := fraction_shown c (show c.micro / 1000 < 1000 by omega)
  rw [show 1000 * (c.micro / 1000) = c.micro by omega] at read
  have within : withinSecond (c.micro : Nat) = .ok c.micro := by
    unfold withinSecond microLimit Instant.perSecond
    rw [if_neg (by omega), if_neg (by omega), Int.toNat_natCast]
  have time (shownAs : String) : civil (shown c) shownAs = .ok { c with micro := 0 } :=
    civil_shown valid shownAs
  have still : (Instant.ofCivil { c with micro := c.micro } none).micros - 0 * Instant.perSecond =
      micros := by
    rw [Int.zero_mul, Int.sub_zero]
    exact congrArg Instant.micros again
  unfold ofText
  rw [chars, splitOffset_universal]
  dsimp only
  rw [point]
  refine bind_eq_ok.2 ⟨_, read, ?_⟩
  dsimp only
  refine bind_eq_ok.2 ⟨_, time _, ?_⟩
  refine bind_eq_ok.2 ⟨_, within, ?_⟩
  refine bind_eq_ok.2 ⟨0, rfl, ?_⟩
  dsimp only
  rw [still, same]

end DocRepair.ExtendedJson.Stamp
