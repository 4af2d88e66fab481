/-
# OverlayRouting.Proofs.SpanText -- a span of time is read back

A span is read back from its own text, to the nanosecond (`ofText_text`).

Every unit is written as often as it fits into what the units before it have left, so what is left
in the end is less than the smallest unit, and units that are counted in nanoseconds have less
than a second to share (`Covers`).  No sum on the way is too large, since the span itself is not.
-/
import OverlayRouting.Proofs.AddressText
import OverlayRouting.Span.Text

namespace OverlayRouting

set_option autoImplicit false

open Text (isBlank not_isBlank_of_isDigit numberOf decimal Ends ends_cons)

/-! ## Names -/

namespace TimeUnit

/-- A spelling of a unit, made of letters. -/
def IsName (unit : TimeUnit) (name : String) : Prop :=
  ofName? name = some unit ∧ name.toList ≠ [] ∧ ∀ c ∈ name.toList, isLetter c = true

instance (unit : TimeUnit) (name : String) : Decidable (unit.IsName name) :=
  -- over the letters of the name, not over every character there is
  have : Decidable (∀ c ∈ name.toList, isLetter c = true) := List.decidableBAll _ name.toList
  inferInstanceAs (Decidable (_ ∧ _ ∧ _))

theorem not_inside_of_isLetter {c : Char} (letter : isLetter c = true) :
    (c.isDigit || isBlank c) = false ∧ c ≠ '.' := by
  rw [isLetter, Bool.or_eq_true, beq_iff_eq] at letter
  rcases letter with alpha | rfl
  · have range := Text.isAlpha_iff.1 alpha
    have digit : c.isDigit = false := by
      rw [← Bool.not_eq_true]
      intro digit
      rw [Text.not_isAlpha_of_isDigit digit] at alpha
      cases alpha
    constructor
    · rw [digit, Bool.false_or, ← Bool.not_eq_true]
      simp [isBlank, Text.blankRanges]
      omega
    · rintro rfl
      revert range
      decide
  · decide

theorem grain_nanos (unit : TimeUnit) :
    unit.nanos / unit.grain.nanos * unit.grain.nanos = unit.nanos ∧
      0 < unit.nanos / unit.grain.nanos := by
  cases unit <;> decide

theorem nanos_pos (unit : TimeUnit) : 0 < unit.nanos := by
  cases unit <;> decide

end TimeUnit

namespace Span

/-! ## Terms -/

/-- A number and a unit are read as a term, with blanks in front of them or not. -/
theorem term?_written {front rest : List Char} {name : String} {unit : TimeUnit} (count : Nat)
    (blank : ∀ c ∈ front, isBlank c = true) (named : unit.IsName name)
    (ends : Ends TimeUnit.isLetter rest) (goesOn : endsTerm rest = true) :
    term? (front ++ (decimal count ++ (name.toList ++ rest))) = some (⟨count, none, unit⟩, rest) := by
  obtain ⟨known, some_name, letters⟩ := named
  have digits : ∀ c ∈ decimal count, c.isDigit = true := fun c member =>
    Nat.isDigit_of_mem_toDigits (by decide) (by decide) member
  have some_digit : decimal count ≠ [] := Nat.toDigits_ne_nil
  obtain ⟨first, more, shape⟩ := List.exists_cons_of_ne_nil some_name
  obtain ⟨outside, point⟩ := TimeUnit.not_inside_of_isLetter (letters first (shape ▸ List.mem_cons_self))
  have inside : ∀ c ∈ front ++ decimal count, (c.isDigit || isBlank c) = true := by
    intro c member
    rcases List.mem_append.1 member with early | late
    · rw [blank c early, Bool.or_true]
    · rw [digits c late, Bool.true_or]
  have stops : Ends (fun c => c.isDigit || isBlank c) (name.toList ++ rest) := by
    rw [shape]
    exact ends_cons.2 outside
  have none_blank : front.filter Char.isDigit = [] := by
    rw [List.filter_eq_nil_iff]
    intro c member digit
    exact Bool.false_ne_true ((not_isBlank_of_isDigit digit).symm.trans (blank c member))
  have run : digitRun (front ++ (decimal count ++ (name.toList ++ rest))) =
      (decimal count, name.toList ++ rest) := by
    rw [digitRun, ← List.append_assoc, Text.takeWhile_of_ends inside stops,
      Text.dropWhile_of_ends inside stops, List.filter_append, none_blank, List.nil_append,
      List.filter_eq_self.2 digits]
  have whole : fraction? (name.toList ++ rest) = some (none, name.toList ++ rest) := by
    rw [shape, List.cons_append, fraction?]
    rintro _ same
    exact point (List.cons.inj same).1
  rw [term?, run]
  simp only [whole, Text.takeWhile_of_ends letters ends, Text.dropWhile_of_ends letters ends,
    String.ofList_toList, known, goesOn, if_true]
  rw [if_neg (by simpa using some_digit), decimal, Text.numberOf_toDigits (by decide) (by decide)]

theorem plus_eq {sum span : Span} {grain : Grain} {count : Nat}
    (fits : (match grain with | .second => 0 | .nanosecond => sum.nanos % 1000000000) + count <
      UInt64.size)
    (total : sum.nanos + count * grain.nanos = span.nanos) : sum.plus grain count = .ok span := by
  have found : ofNanos? (sum.nanos + count * grain.nanos) = some span := by
    rw [total, ofNanos?_nanos]
  unfold plus
  simp only [found]
  generalize UInt64.size = limit at fits ⊢
  exact if_neg (Nat.not_le_of_lt fits)

/-- Add so many of a unit to a span. -/
theorem plusTerm_written {sum span : Span} {unit : TimeUnit} {count : Nat}
    (small : unit.grain = .nanosecond → count * unit.nanos < 1000000000)
    (total : sum.nanos + count * unit.nanos = span.nanos) :
    sum.plusTerm ⟨count, none, unit⟩ = .ok span := by
  obtain ⟨whole, some_grain⟩ := unit.grain_nanos
  have bounded := span.bounded
  have amount : count * (unit.nanos / unit.grain.nanos) * unit.grain.nanos = count * unit.nanos := by
    rw [Nat.mul_assoc, whole]
  have few := Nat.le_mul_of_pos_right count some_grain
  have size : 2000000000 ≤ UInt64.size := by decide
  have fits : (match unit.grain with | .second => 0 | .nanosecond => sum.nanos % 1000000000) +
      count * (unit.nanos / unit.grain.nanos) < UInt64.size := by
    generalize UInt64.size = limit at bounded size ⊢
    cases grain : unit.grain with
    | second =>
        rw [grain] at amount
        simp only [Grain.nanos] at amount ⊢
        omega
    | nanosecond =>
        have := small grain
        rw [grain] at amount
        simp only [Grain.nanos] at amount ⊢
        omega
  have added := plus_eq fits (by rw [amount, total])
  rw [plusTerm, if_neg (Nat.not_le_of_lt (Nat.lt_of_le_of_lt few (Nat.lt_of_le_of_lt
    (Nat.le_add_left _ _) fits)))]
  simp only [added]
  rfl

/-- Reading goes on behind a written term. -/
theorem plusTerms_written {sum next : Span} {front rest : List Char} {name : String}
    {unit : TimeUnit} {count : Nat} (blank : ∀ c ∈ front, isBlank c = true)
    (named : unit.IsName name) (ends : Ends TimeUnit.isLetter rest) (goesOn : endsTerm rest = true)
    (adds : sum.plusTerm ⟨count, none, unit⟩ = .ok next) :
    sum.plusTerms (front ++ (decimal count ++ (name.toList ++ rest))) = next.plusTerms rest := by
  have term := term?_written count blank named ends goesOn
  have some_digit : (front ++ (decimal count ++ (name.toList ++ rest))).all isBlank = false := by
    obtain ⟨digit, member⟩ := List.exists_mem_of_ne_nil (decimal count) Nat.toDigits_ne_nil
    have visible := not_isBlank_of_isDigit
      (Nat.isDigit_of_mem_toDigits (by decide) (by decide) member)
    exact List.all_eq_false.2 ⟨digit, List.mem_append_right _ (List.mem_append_left _ member),
      by simp [visible]⟩
  rw [plusTerms, if_neg (by rw [some_digit]; exact Bool.false_ne_true)]
  split
  · rename_i none
    rw [term] at none
    cases none
  · rename_i found
    rw [term] at found
    cases found
    rw [adds]
    rfl

/-! ## Spans -/

/-- Units that share out less than a limit: each of them has less than the one before it, down to
a single nanosecond, and those that are counted in nanoseconds have less than a second. -/
def Covers : (limit : Nat) → List (TimeUnit × String × String) → Prop
  | limit, [] => limit ≤ 1
  | limit, (unit, one, several) :: units =>
      unit.IsName one ∧ unit.IsName several ∧
        (unit.grain = .nanosecond → limit ≤ 1000000000) ∧ Covers unit.nanos units

instance decidableCovers : (limit : Nat) → (units : List (TimeUnit × String × String)) →
    Decidable (Covers limit units)
  | limit, [] => inferInstanceAs (Decidable (limit ≤ 1))
  | _, (unit, _, _) :: units =>
      have := decidableCovers unit.nanos units
      inferInstanceAs (Decidable (_ ∧ _ ∧ (_ → _) ∧ _))

theorem covers_writtenUnits : Covers (UInt64.size * 1000000000) writtenUnits := by decide +kernel

theorem intercalate_cons (separator term : List Char) (terms : List (List Char)) :
    List.intercalate separator (term :: terms) = term ++
      ((if terms = [] then [] else separator) ++ List.intercalate separator terms) := by
  cases terms <;> simp

/-- What the units before have left is added, and nothing else. -/
theorem plusTerms_writtenTerms (span : Span) {units : List (TimeUnit × String × String)}
    {limit : Nat} (covers : Covers limit units) {sum : Span} {left : Nat} (below : left < limit)
    (total : sum.nanos + left = span.nanos) {front : List Char}
    (blank : ∀ c ∈ front, isBlank c = true) :
    sum.plusTerms (front ++ List.intercalate [' '] (writtenTerms units left)) = .ok span := by
  induction units generalizing limit sum left front with
  | nil =>
      have none : left = 0 := by
        have : limit ≤ 1 := covers
        omega
      have same : sum = span := ext_nanos (by omega)
      rw [writtenTerms, same, plusTerms, if_pos]
      simpa using blank
  | cons entry units ih =>
      obtain ⟨unit, one, several⟩ := entry
      obtain ⟨singular, plural, small, covers⟩ := covers
      have share := Nat.mod_lt left unit.nanos_pos
      have whole := Nat.div_add_mod' left unit.nanos
      rw [writtenTerms]
      split
      · rename_i none
        refine ih covers share ?_ blank
        rw [none] at whole
        omega
      · rw [intercalate_cons, List.append_assoc]
        have bounded : sum.nanos + left / unit.nanos * unit.nanos < UInt64.size * 1000000000 :=
          Nat.lt_of_le_of_lt (by omega) span.bounded
        have named : unit.IsName (if left / unit.nanos = 1 then one else several) := by
          split <;> assumption
        have added : sum.plusTerm ⟨left / unit.nanos, none, unit⟩ = .ok ⟨_, bounded⟩ := by
          refine plusTerm_written (fun grain => ?_) rfl
          have := small grain
          omega
        rw [plusTerms_written blank named ?_ ?_ added]
        · refine ih covers share ?_ ?_
          · change sum.nanos + left / unit.nanos * unit.nanos + left % unit.nanos = span.nanos
            omega
          · split
            · exact fun c member => nomatch member
            · exact List.forall_mem_singleton.2 (by decide)
        · split
          · rename_i last
            rw [last]
            exact Text.ends_nil _
          · exact ends_cons.2 (by decide)
        · split
          · rename_i last
            rw [last]
            rfl
          · rfl

theorem ofText_of_plusTerms {span : Span} {text : String} (some_nanos : span.nanos ≠ 0)
    (reads : zero.plusTerms text.toList = .ok span) : ofText text = .ok span := by
  have not_zero : text ≠ "0" := by
    rintro rfl
    rw [plusTerms, if_neg (by decide)] at reads
    split at reads
    · cases reads
    · rename_i found
      have none : term? "0".toList = none := by decide
      rw [none] at found
      cases found
  have not_blank : ¬ text.toList.all isBlank = true := by
    intro blank
    rw [plusTerms, if_pos blank] at reads
    cases reads
    exact some_nanos rfl
  rw [ofText, if_neg not_zero, if_neg not_blank, reads]

/-- A span is read back from its text. -/
theorem ofText_text (span : Span) : ofText span.text = .ok span := by
  rw [text]
  split
  · rename_i nothing
    have added : zero.plusTerm ⟨0, none, .second⟩ = .ok span := by
      refine plusTerm_written (fun grain => ?_) nothing.symm
      cases grain
    have named : TimeUnit.second.IsName "s" := by decide
    have blank : ∀ c ∈ ([] : List Char), isBlank c = true := fun c member => nomatch member
    have reads := plusTerms_written blank named (Text.ends_nil _) rfl added
    have done : span.plusTerms [] = .ok span := by rw [plusTerms, if_pos (by decide)]
    have text : ofText "0s" = zero.plusTerms "0s".toList := rfl
    rw [text]
    exact reads.trans done
  · rename_i some_nanos
    have blank : ∀ c ∈ ([] : List Char), isBlank c = true := fun c member => nomatch member
    refine ofText_of_plusTerms some_nanos ?_
    rw [String.toList_ofList]
    exact plusTerms_writtenTerms span covers_writtenUnits span.bounded (Nat.zero_add _) blank

end Span

end OverlayRouting
