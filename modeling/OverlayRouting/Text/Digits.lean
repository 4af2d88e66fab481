/-
# OverlayRouting.Text.Digits -- numbers and their digits

A digit stands for a number below the base, letters counting on from nine; a row of
digits stands for one number, the first digit being the most significant.  `digits`
cuts a number into a given count of them and `ofDigits` puts them together again
(`ofDigits_digits`).  A number is read as it was written (`numberOf_toDigits`).
-/
namespace OverlayRouting.Text

set_option autoImplicit false

/-- A number as `count` digits of `base`, the most significant first. -/
def digits (base : Nat) : (count : Nat) → Nat → List Nat
  | 0, _ => []
  | count + 1, n => digits base count (n / base) ++ [n % base]

def ofDigits (base : Nat) (parts : List Nat) : Nat :=
  parts.foldl (fun n part => n * base + part) 0

theorem ofDigits_append (base : Nat) (parts : List Nat) (last : Nat) :
    ofDigits base (parts ++ [last]) = ofDigits base parts * base + last := by
  simp [ofDigits]

/-- Enough digits hold the whole number. -/
theorem ofDigits_digits (base count n : Nat) (small : n < Nat.pow base count) :
    ofDigits base (digits base count n) = n := by
  induction count generalizing n with
  | zero =>
      have : n = 0 := Nat.lt_one_iff.1 small
      subst this
      rfl
  | succ count ih =>
      rw [digits, ofDigits_append, ih, Nat.div_add_mod']
      exact Nat.div_lt_of_lt_mul (Nat.mul_comm .. ▸ small)

theorem length_digits (base count n : Nat) : (digits base count n).length = count := by
  induction count generalizing n with
  | zero => rfl
  | succ count ih => rw [digits, List.length_append, ih, List.length_singleton]

theorem lt_of_mem_digits {base count n digit : Nat} (positive : 0 < base)
    (member : digit ∈ digits base count n) : digit < base := by
  induction count generalizing n with
  | zero => cases member
  | succ count ih =>
      rcases List.mem_append.1 member with high | low
      · exact ih high
      · rw [List.mem_singleton.1 low]
        exact Nat.mod_lt n positive

/-- The value of a digit; what is no digit has a value that no base allows. -/
def digitValue (c : Char) : Nat :=
  if c.isDigit then c.toNat - '0'.toNat
  else if c.isLower then c.toNat - 'a'.toNat + 10
  else if c.isUpper then c.toNat - 'A'.toNat + 10
  else 36

/-- Digits of bases up to thirty-six, in either case. -/
def isDigitOf (base : Nat) (c : Char) : Bool := digitValue c < base

def numberOf (base : Nat) (cs : List Char) : Nat := ofDigits base (cs.map digitValue)

/-- One with `zeros` zeros behind it. -/
def tenTo (zeros : Nat) : Nat := Nat.pow 10 zeros

/-- The digits of a number, as few as it takes. -/
def decimal (n : Nat) : List Char := Nat.toDigits 10 n

/-! ## Numbers as texts -/

theorem numberOf_append (base : Nat) (cs : List Char) (last : Char) :
    numberOf base (cs ++ [last]) = numberOf base cs * base + digitValue last := by
  simp only [numberOf, List.map_append, List.map_cons, List.map_nil, ofDigits_append]

theorem digitValue_digitChar {digit : Nat} (small : digit < 16) :
    digitValue digit.digitChar = digit := by
  decide +revert

/-- The characters of a number stand for numbers below the base. -/
theorem exists_of_mem_toDigits {base n : Nat} {c : Char} (above : 1 < base)
    (member : c ∈ Nat.toDigits base n) : ∃ digit, digit < base ∧ c = digit.digitChar := by
  induction n using Nat.strongRecOn with
  | ind n ih =>
      rw [Nat.toDigits_eq_if above] at member
      split at member
      · rename_i small
        exact ⟨n, small, List.mem_singleton.1 member⟩
      · rename_i large
        rcases List.mem_append.1 member with high | low
        · exact ih (n / base) (Nat.div_lt_self (by omega) above) high
        · exact ⟨n % base, Nat.mod_lt n (by omega), List.mem_singleton.1 low⟩

theorem isDigitOf_of_mem_toDigits {base n : Nat} {c : Char} (above : 1 < base) (below : base ≤ 16)
    (member : c ∈ Nat.toDigits base n) : isDigitOf base c = true := by
  obtain ⟨digit, small, rfl⟩ := exists_of_mem_toDigits above member
  rw [isDigitOf, digitValue_digitChar (Nat.lt_of_lt_of_le small below)]
  exact decide_eq_true small

/-- A number is what its digits stand for. -/
theorem numberOf_toDigits {base : Nat} (above : 1 < base) (below : base ≤ 16) (n : Nat) :
    numberOf base (Nat.toDigits base n) = n := by
  induction n using Nat.strongRecOn with
  | ind n ih =>
      rw [Nat.toDigits_eq_if above]
      split
      · rename_i small
        show 0 * base + digitValue n.digitChar = n
        rw [digitValue_digitChar (by omega), Nat.zero_mul, Nat.zero_add]
      · have digit := Nat.mod_lt n (show 0 < base by omega)
        rw [numberOf_append, ih (n / base) (Nat.div_lt_self (by omega) above),
          digitValue_digitChar (by omega), Nat.div_add_mod']

/-- Only zero is written with a zero in front. -/
theorem head?_toDigits_ne {base n : Nat} (above : 1 < base) (positive : 0 < n) :
    (Nat.toDigits base n).head? ≠ some '0' := by
  induction n using Nat.strongRecOn with
  | ind n ih =>
      rw [Nat.toDigits_eq_if above]
      split
      · intro zero
        have := Nat.digitChar_eq_zero.1 (Option.some.inj zero)
        omega
      · have high := ih (n / base) (Nat.div_lt_self positive above)
          (Nat.div_pos (by omega) (by omega))
        intro zero
        rw [List.head?_append, Option.or_eq_some_iff, List.head?_eq_none_iff] at zero
        rcases zero with zero | ⟨nothing, -⟩
        · exact high zero
        · exact Nat.toDigits_ne_nil nothing

end OverlayRouting.Text
