/-
# OverlayRouting.Proofs.ScalarText -- words are read as the values that they were written for

A flag, a whole number and a double are read back from their written forms (`isWord_flag`,
`isWord_natural`, `isWord_real`), infinities and what is no number included.

A word of digits is first held against dates, flags, names and other bases.  None of them fits a word
with no dash behind its first character and no colon, a digit in front, and digits or a point
behind it (`Numeric`).
-/
import OverlayRouting.Proofs.AddressText
import OverlayRouting.Proofs.FloatReading
import OverlayRouting.Proofs.ShortestDigits
import OverlayRouting.Toml.Scalar
import OverlayRouting.Toml.Writer

namespace OverlayRouting

set_option autoImplicit false

open Text (expect? isDigitOf numberOf tenTo)

/-! ## Digits -/

namespace Text

variable {cs : List Char}

/-- A text without a cut is one piece. -/
theorem splitChars_of_forall {cut : Char → Bool} (uncut : ∀ c ∈ cs, cut c = false) :
    splitChars cut cs = [cs] := by
  induction cs with
  | nil => rfl
  | cons c rest ih =>
      obtain ⟨first, others⟩ := List.forall_mem_cons.1 uncut
      rw [splitChars, ih others]
      simp [first]

/-- A number as it is written: no zero in front of other digits. -/
structure IsNumber (cs : List Char) : Prop where
  some_digit : cs ≠ []
  digits : ∀ c ∈ cs, c.isDigit = true
  led : cs.length = 1 ∨ cs.head? ≠ some '0'

theorem isNumber_toDigits (n : Nat) : IsNumber (Nat.toDigits 10 n) where
  some_digit := Nat.toDigits_ne_nil
  digits _ member := Nat.isDigit_of_mem_toDigits (by decide) (by decide) member
  led := by
    by_cases nothing : n = 0
    · exact .inl (by rw [nothing, Nat.toDigits_zero]; rfl)
    · exact .inr (head?_toDigits_ne (by decide) (by omega))

theorem numberOf_zeros (zeros : Nat) (cs : List Char) :
    numberOf 10 (List.replicate zeros '0' ++ cs) = numberOf 10 cs := by
  induction zeros with
  | zero => rfl
  | succ zeros ih => exact ih

end Text

namespace Decimal

/-- A whole number of units is written as a number, a point and as many digits as there are places. -/
theorem unitsText_eq {places : Nat} (some_place : 0 < places) (units : Nat) : ∃ whole fraction,
    (unitsText places units).toList = whole ++ '.' :: fraction ∧ Text.IsNumber whole ∧
      (∀ c ∈ fraction, c.isDigit = true) ∧ fraction.length = places ∧
      numberOf 10 (whole ++ fraction) = units := by
  obtain ⟨padded, found⟩ : ∃ padded, List.replicate (places + 1 - (Nat.toDigits 10 units).length) '0' ++
    Nat.toDigits 10 units = padded := ⟨_, rfl⟩
  have digits : ∀ c ∈ padded, c.isDigit = true := by
    intro c member
    rw [← found] at member
    rcases List.mem_append.1 member with zero | digit
    · rw [List.eq_of_mem_replicate zero]
      rfl
    · exact (Text.isNumber_toDigits units).digits c digit
  have long : places < padded.length := by
    rw [← found, List.length_append, List.length_replicate]
    omega
  -- zeros are put in front only where the whole part would be empty
  have led : padded.length - places = 1 ∨ padded.head? ≠ some '0' := by
    rcases Nat.lt_or_ge (places + 1) (Nat.toDigits 10 units).length with more | short
    · right
      rw [← found, Nat.sub_eq_zero_of_le more.le, List.replicate_zero, List.nil_append]
      refine (Text.isNumber_toDigits units).led.resolve_left ?_
      omega
    · left
      rw [← found, List.length_append, List.length_replicate]
      omega
  refine ⟨padded.take (padded.length - places), padded.drop (padded.length - places), ?_, ⟨?_, ?_, ?_⟩,
    ?_, ?_, ?_⟩
  · rw [unitsText]
    simp only [found, if_neg some_place.ne', String.toList_ofList]
  · refine List.ne_nil_of_length_pos ?_
    rw [List.length_take]
    omega
  · exact fun c member => digits c (List.mem_of_mem_take member)
  · rw [List.length_take, List.head?_take, if_neg (by omega), Nat.min_eq_left (Nat.sub_le _ _)]
    exact led
  · exact fun c member => digits c (List.mem_of_mem_drop member)
  · rw [List.length_drop]
    omega
  · rw [List.take_append_drop, ← found, Text.numberOf_zeros, Text.numberOf_toDigits (by decide) (by decide)]

end Decimal

namespace Toml.Scalar

open Decimal
open Float.Model (Format UnpackedFloat totalExponent)

/-! ## Words that are no dates -/

variable {word rest : List Char} {value : Value}

theorem expect?_of_not_mem {c : Char} (absent : c ∉ word) : expect? c word = none := by
  cases word with
  | nil => rfl
  | cons d rest =>
      rw [expect?, if_neg]
      rintro rfl
      exact absent List.mem_cons_self

theorem field?_rest {count low high n : Nat} (found : field? count low high word = some (n, rest)) :
    rest = word.drop count := by
  simp only [field?] at found
  split at found
  · cases found
    rfl
  · cases found

theorem field?_of_not_digit {count low high : Nat} {c : Char} (some_digit : 0 < count)
    (other : c.isDigit = false) : field? count low high (c :: word) = none := by
  obtain ⟨more, rfl⟩ : ∃ more, count = more + 1 := ⟨count - 1, by omega⟩
  simp [field?, other]

theorem afterDate?_of_not_mem (dashless : '-' ∉ word) : afterDate? word = none := by
  rw [afterDate?]
  cases found : field? 4 0 9999 word with
  | none => rfl
  | some field =>
      have rest := field?_rest found
      have none : expect? '-' field.2 = none :=
        expect?_of_not_mem (rest ▸ fun member => dashless (List.mem_of_mem_drop member))
      simp [none]

theorem afterTime?_of_not_mem (colonless : ':' ∉ word) : afterTime? word = none := by
  rw [afterTime?]
  cases found : field? 2 0 23 word with
  | none => rfl
  | some field =>
      have rest := field?_rest found
      have none : expect? ':' field.2 = none :=
        expect?_of_not_mem (rest ▸ fun member => colonless (List.mem_of_mem_drop member))
      simp [none]

/-- A word that is read as a value. -/
structure IsWord (word : List Char) (value : Value) : Prop where
  some_char : word ≠ []
  chars : ∀ c ∈ word, isWordChar c = true
  dateless : afterDate? word = none
  reads : ofWord? word = some value

/-- A word is read up to where it ends. -/
theorem IsWord.read? (found : IsWord word value) (ends : Text.Ends isWordChar rest) :
    Scalar.read? (word ++ rest) = some (value, rest) := by
  simp only [Scalar.read?, Text.takeWhile_of_ends found.chars ends,
    Text.dropWhile_of_ends found.chars ends, found.reads, found.dateless, Option.bind_eq_bind,
    Option.bind_some]

theorem isWord_flag (flag : Bool) : IsWord (Written.flag flag) (.flag flag) := by
  cases flag with
  | false =>
      change IsWord ['f', 'a', 'l', 's', 'e'] _
      exact ⟨by simp, by simp [isWordChar], rfl, rfl⟩
  | true =>
      change IsWord ['t', 'r', 'u', 'e'] _
      exact ⟨by simp, by simp [isWordChar], rfl, rfl⟩

/-! ## Numbers -/

/-- A digit, and digits and points behind it. -/
structure Numeric (body : List Char) : Prop where
  led : ∃ c, body.head? = some c ∧ c.isDigit = true
  chars : ∀ c ∈ body, c.isDigit = true ∨ c = '.'

/-- A word of a number, with a sign or without. -/
def signedWord (negative : Bool) (body : List Char) : List Char :=
  if negative then '-' :: body else body

variable {body : List Char}

theorem Numeric.not_mem (numeric : Numeric body) {c : Char} (other : c.isDigit = false) (pointless : c ≠ '.') :
    c ∉ body := by
  intro member
  rcases numeric.chars c member with digit | point
  · rw [other] at digit
    cases digit
  · exact pointless point

theorem Numeric.signed (numeric : Numeric body) (negative : Bool) :
    Decimal.signed (signedWord negative body) = (negative, body) := by
  cases negative with
  | true => rfl
  | false =>
      obtain ⟨c, first, digit⟩ := numeric.led
      obtain ⟨more, rfl⟩ := List.head?_eq_some_iff.1 first
      rw [signedWord, if_neg Bool.false_ne_true, Decimal.signed]
      · rintro rest ⟨⟩
        cases digit
      · rintro rest ⟨⟩
        cases digit

theorem Numeric.chars_signedWord (numeric : Numeric body) (negative : Bool) :
    ∀ c ∈ signedWord negative body, isWordChar c = true := by
  have unsigned : ∀ c ∈ body, isWordChar c = true := by
    intro c member
    rcases numeric.chars c member with digit | rfl
    · simp [isWordChar, Char.isAlphanum, digit]
    · decide
  cases negative with
  | true => exact List.forall_mem_cons.2 ⟨by decide, unsigned⟩
  | false => exact unsigned

theorem Numeric.afterDate? (numeric : Numeric body) (negative : Bool) :
    afterDate? (signedWord negative body) = none := by
  cases negative with
  | true =>
      have first : field? 4 0 9999 ('-' :: body) = none := field?_of_not_digit (by decide) rfl
      rw [signedWord, if_pos rfl, Scalar.afterDate?, first]
      rfl
  | false => exact afterDate?_of_not_mem (numeric.not_mem rfl (by decide))

theorem Numeric.isMoment (numeric : Numeric body) (negative : Bool) :
    isMoment (signedWord negative body) = false := by
  have timeless : afterTime? (signedWord negative body) = none := by
    refine afterTime?_of_not_mem ?_
    have absent := numeric.not_mem (c := ':') rfl (by decide)
    cases negative with
    | true => simpa [signedWord] using absent
    | false => exact absent
  rw [Scalar.isMoment, numeric.afterDate?, timeless]
  rfl

/-- A word with a digit or a sign in front is no name. -/
theorem Numeric.ne_name (numeric : Numeric body) (negative : Bool) {name : String} {c : Char}
    (first : name.toList.head? = some c) (letter : c.isAlpha = true) :
    String.ofList (signedWord negative body) ≠ name := by
  rintro rfl
  rw [String.toList_ofList] at first
  cases negative with
  | true =>
      cases first
      cases letter
  | false =>
      obtain ⟨d, found, digit⟩ := numeric.led
      obtain rfl : d = c := Option.some.inj (found.symm.trans first)
      rw [Text.not_isAlpha_of_isDigit digit] at letter
      cases letter

theorem Numeric.flag? (numeric : Numeric body) (negative : Bool) :
    flag? (signedWord negative body) = none := by
  rw [Scalar.flag?]
  split
  · exact absurd ‹_› (numeric.ne_name negative rfl rfl)
  · exact absurd ‹_› (numeric.ne_name negative rfl rfl)
  · rfl

theorem Numeric.special? (numeric : Numeric body) (negative : Bool) :
    special? (signedWord negative body) = none := by
  rw [Scalar.special?, numeric.signed]
  simp only
  split
  · exact absurd ‹_› (numeric.ne_name false rfl rfl)
  · exact absurd ‹_› (numeric.ne_name false rfl rfl)
  · rfl

theorem Numeric.based? (numeric : Numeric body) (negative : Bool) :
    based? (signedWord negative body) = none := by
  have unknown : ∀ c ∈ body, bases.lookup c = none := by
    intro c member
    have other (letter : Char) (notDigit : letter.isDigit = false) (notPoint : letter ≠ '.') :
        (c == letter) = false := by
      rw [beq_eq_false_iff_ne]
      rintro rfl
      exact numeric.not_mem notDigit notPoint member
    simp [bases, List.lookup, other]
  cases negative with
  | true => rfl
  | false =>
      rw [signedWord, if_neg Bool.false_ne_true]
      unfold Scalar.based?
      split
      · rename_i letter rest
        have absent := unknown letter (List.mem_cons_of_mem _ List.mem_cons_self)
        simp [absent]
      · rfl

theorem Numeric.ofWord? (numeric : Numeric body) (negative : Bool) :
    ofWord? (signedWord negative body) =
      (plain? (signedWord negative body)).or (real? (signedWord negative body)) := by
  rw [Scalar.ofWord?, numeric.isMoment, numeric.flag?, numeric.special?, numeric.based?]
  rfl

/-- Without underscores there is one group of digits, or none. -/
theorem digits?_of_not_mem {digits : List Char} (plain : '_' ∉ digits) : digits? 10 digits =
    if !digits.isEmpty && digits.all (isDigitOf 10) then some digits else none := by
  have whole : Text.splitChars (· == '_') digits = [digits] :=
    Text.splitChars_of_forall fun c member => by
      rw [beq_eq_false_iff_ne]
      rintro rfl
      exact plain member
  simp [digits?, whole]

theorem not_mem_of_forall {digits : List Char} (all : ∀ c ∈ digits, c.isDigit = true) {c : Char}
    (other : c.isDigit = false) : c ∉ digits := by
  intro member
  rw [all c member] at other
  cases other

theorem digits?_of_forall {digits : List Char} (some_digit : digits ≠ [])
    (all : ∀ c ∈ digits, c.isDigit = true) : digits? 10 digits = some digits := by
  have decimal : digits.all (isDigitOf 10) = true :=
    List.all_eq_true.2 fun c member => Text.isDigitOf_of_isDigit (all c member)
  rw [digits?_of_not_mem (not_mem_of_forall all rfl), decimal]
  simp [some_digit]

theorem decimal?_of_isNumber {digits : List Char} (number : Text.IsNumber digits) :
    decimal? digits = some digits := by
  rw [decimal?, digits?_of_forall number.some_digit number.digits]
  simp [number.led]

theorem numeric_of_isNumber {digits : List Char} (number : Text.IsNumber digits) (rest : List Char)
    (chars : ∀ c ∈ rest, c.isDigit = true ∨ c = '.') : Numeric (digits ++ rest) := by
  obtain ⟨c, more, rfl⟩ := List.exists_cons_of_ne_nil number.some_digit
  refine ⟨⟨c, rfl, number.digits c List.mem_cons_self⟩, fun d member => ?_⟩
  exact (List.mem_append.1 member).elim (fun front => .inl (number.digits d front)) (chars d)

theorem whole?_natural {n : Nat} (small : n < 0x8000000000000000) : whole? false n = some (.whole n) := by
  have low : -0x8000000000000000 ≤ (n : Int) := by omega
  have high : (n : Int) < 0x8000000000000000 := by omega
  unfold whole?
  simp only [Bool.false_eq_true, if_false]
  rw [if_pos ⟨low, high⟩]

theorem plain?_eq {negative : Bool} {digits : List Char}
    (unsigned : Decimal.signed word = (negative, digits)) (number : Text.IsNumber digits) :
    plain? word = whole? negative (numberOf 10 digits) := by
  unfold plain?
  rw [unsigned]
  simp only
  rw [decimal?_of_isNumber number]
  rfl

theorem isWord_natural {n : Nat} (small : n < 0x8000000000000000) :
    IsWord (Written.natural n) (.whole n) := by
  have number := Text.isNumber_toDigits n
  have numeric := numeric_of_isNumber number [] (List.forall_mem_nil _)
  rw [List.append_nil] at numeric
  have plain := plain?_eq (numeric.signed false) number
  rw [Text.numberOf_toDigits (by decide) (by decide), whole?_natural small] at plain
  have word : Written.natural n = signedWord false (Nat.toDigits 10 n) := rfl
  rw [word]
  refine ⟨number.some_digit, numeric.chars_signedWord false, numeric.afterDate? false, ?_⟩
  rw [numeric.ofWord?, plain, Option.some_or]

/-! ## Doubles -/

section Point

variable {whole fraction : List Char}

theorem numeric_point (number : Text.IsNumber whole) (digits : ∀ c ∈ fraction, c.isDigit = true) :
    Numeric (whole ++ '.' :: fraction) :=
  numeric_of_isNumber number _
    (List.forall_mem_cons.2 ⟨.inr rfl, fun c member => .inl (digits c member)⟩)

/-- A decimal with a point is read as its digits, so many places behind the point. -/
theorem ofChars?_point (number : Text.IsNumber whole) (digits : ∀ c ∈ fraction, c.isDigit = true)
    (negative : Bool) :
    Numeral.ofChars? (signedWord negative (whole ++ '.' :: fraction)) =
      some ⟨negative, numberOf 10 (whole ++ fraction), -fraction.length⟩ := by
  have ends : Text.Ends Char.isDigit ('.' :: fraction) := Text.ends_cons.2 rfl
  have taken : fraction.takeWhile Char.isDigit = fraction := List.takeWhile_eq_self_iff.2 digits
  have dropped : fraction.dropWhile Char.isDigit = [] := List.dropWhile_eq_nil_iff.2 digits
  have some_digit : (whole ++ fraction).isEmpty = false := by simp [number.some_digit]
  simp only [Numeral.ofChars?, (numeric_point number digits).signed negative,
    Text.takeWhile_of_ends number.digits ends, Text.dropWhile_of_ends number.digits ends,
    Numeral.places, taken, dropped, some_digit, Numeral.power?, Option.bind_eq_bind,
    Option.bind_some, Bool.not_false, guard_true, Option.pure_def, zero_sub]

theorem plain?_point (number : Text.IsNumber whole) (digits : ∀ c ∈ fraction, c.isDigit = true)
    (negative : Bool) : plain? (signedWord negative (whole ++ '.' :: fraction)) = none := by
  have numeric := numeric_point number digits
  have pointed : digits? 10 (whole ++ '.' :: fraction) = none := by
    rw [digits?_of_not_mem (numeric.not_mem rfl (by decide))]
    simp [isDigitOf, Text.digitValue]
  simp [plain?, numeric.signed, decimal?, pointed]

theorem real?_point (number : Text.IsNumber whole) (some_place : fraction ≠ [])
    (digits : ∀ c ∈ fraction, c.isDigit = true) {negative : Bool} {x : Float}
    (same : (⟨negative, numberOf 10 (whole ++ fraction), -fraction.length⟩ : Numeral).double = x)
    (finite : (x != 1 / 0) = true) :
    real? (signedWord negative (whole ++ '.' :: fraction)) = some (.real x) := by
  have numeric := numeric_point number digits
  have plain : (signedWord negative (whole ++ '.' :: fraction)).filter (· != '_') =
      signedWord negative (whole ++ '.' :: fraction) := by
    refine List.filter_eq_self.2 fun c member => ?_
    rw [bne_iff_ne]
    rintro rfl
    have absent := numeric.not_mem (c := '_') rfl (by decide)
    cases negative with
    | true => exact absent (by simpa [signedWord] using member)
    | false => exact absent member
  have inside (cs : List Char) (all : ∀ c ∈ cs, c.isDigit = true) :
      ∀ c ∈ cs, (c.isDigit || c == '_') = true := fun c member => by rw [all c member]; rfl
  have ends : Text.Ends (fun c => c.isDigit || c == '_') ('.' :: fraction) := Text.ends_cons.2 (by decide)
  have tail : isTail ('.' :: fraction) = true := by
    simp only [isTail, List.takeWhile_eq_self_iff.2 (inside fraction digits),
      List.dropWhile_eq_nil_iff.2 (inside fraction digits), digits?_of_forall some_place digits,
      Option.isSome_some, Bool.true_and]
  simp only [real?, numeric.signed, Text.takeWhile_of_ends (inside whole number.digits) ends,
    Text.dropWhile_of_ends (inside whole number.digits) ends, decimal?_of_isNumber number, tail, plain,
    ofChars?_point number digits, same, finite, Option.isSome_some, Bool.and_self, guard_true,
    Option.bind_eq_bind, Option.bind_some, Option.pure_def]

/-- A decimal with a point is a double if it is not too large. -/
theorem isWord_point (number : Text.IsNumber whole) (some_place : fraction ≠ [])
    (digits : ∀ c ∈ fraction, c.isDigit = true) {negative : Bool} {x : Float}
    (same : (⟨negative, numberOf 10 (whole ++ fraction), -fraction.length⟩ : Numeral).double = x)
    (finite : (x != 1 / 0) = true) :
    IsWord (signedWord negative (whole ++ '.' :: fraction)) (.real x) := by
  have numeric := numeric_point number digits
  refine ⟨?_, numeric.chars_signedWord negative, numeric.afterDate? negative, ?_⟩
  · cases negative <;> simp [signedWord]
  · rw [numeric.ofWord?, plain?_point number digits, real?_point number some_place digits same finite]
    rfl

end Point

theorem double_beq (x y : Float) : (x == y) = (double x).beq (double y) := rfl

theorem isWord_finite {x : Float} {sign : UnpackedFloat.Sign} {mantissa : Nat} {exponent : Int}
    {positive : 0 < mantissa} (same : double x = .finite sign mantissa exponent positive) :
    IsWord (signedWord (Binary.isNegative sign)
      ((owned Format.binary64 mantissa exponent).shortest.positional 1).toList) (.real x) := by
  have canonical : exponent = Format.binary64.targetExponent (totalExponent mantissa exponent) := by
    have canonical := canonical_double x
    rwa [same] at canonical
  have least := minExponent_le_targetExponent Format.binary64 (totalExponent mantissa exponent)
  rw [← canonical, minExponent_binary64] at least
  obtain ⟨notBelow, notAbove, high⟩ :=
    shortest_owned positive (lt_two_pow_mantissaBits canonical positive) least
  generalize (owned Format.binary64 mantissa exponent).shortest = point at notBelow notAbove high ⊢
  obtain ⟨behind, found⟩ : ∃ behind, max 1 (-point.exponent).toNat = behind := ⟨_, rfl⟩
  have value := point.value_eq behind (by omega)
  obtain ⟨whole, fraction, text, number, digits, length, units⟩ :=
    unitsText_eq (show 0 < behind by omega) (point.digits * tenTo (point.exponent + behind).toNat)
  rw [← units, ← length] at value
  rw [value] at notBelow notAbove
  have some_unit : 0 < numberOf 10 (whole ++ fraction) := by
    have above := notBelow.pos positive
    rw [div_pos_iff_of_pos_right (pow_pos (by norm_num) _)] at above
    exact_mod_cast above
  have finite : (x != 1 / 0) = true := by
    rw [bne, double_beq, same]
    cases sign <;> rfl
  rw [Scaled.positional]
  simp only [found, text]
  refine isWord_point number (List.ne_nil_of_length_pos (by omega)) digits ?_ finite
  exact double_numeral same some_unit (by omega) (by omega) notBelow notAbove

theorem isWord_real (x : Float) : IsWord (Written.real x) (.real x) := by
  have binary : Binary.ofDouble x = Binary.ofUnpacked (double x) := rfl
  unfold Written.real
  rw [binary]
  cases same : double x with
  | notANumber =>
      obtain rfl : 0 / 0 = x := double_inj same.symm
      change IsWord ['n', 'a', 'n'] _
      exact ⟨by simp, by simp [isWordChar], rfl, rfl⟩
  | infinity sign =>
      cases sign with
      | positive =>
          obtain rfl : 1 / 0 = x := double_inj same.symm
          change IsWord ['i', 'n', 'f'] _
          exact ⟨by simp, by simp [isWordChar], rfl, rfl⟩
      | negative =>
          obtain rfl : -(1 / 0) = x := double_inj same.symm
          change IsWord ['-', 'i', 'n', 'f'] _
          exact ⟨by simp, by simp [isWordChar], rfl, rfl⟩
  | zero sign =>
      have numeral := double_numeral_zero same
      have finite : (x != 1 / 0) = true := by
        rw [bne, double_beq, same]
        cases sign <;> rfl
      have number : Text.IsNumber ['0'] := ⟨by simp, by simp, .inl rfl⟩
      change IsWord (signedWord (Binary.isNegative sign) (['0'] ++ '.' :: ['0'])) _
      exact isWord_point number (by simp) (by simp) numeral finite
  | finite sign mantissa exponent positive =>
      rw [Binary.ofUnpacked]
      simp only [if_neg positive.ne']
      exact isWord_finite same

end Toml.Scalar

end OverlayRouting
