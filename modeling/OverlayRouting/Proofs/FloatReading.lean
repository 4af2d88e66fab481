/-
# OverlayRouting.Proofs.FloatReading -- a float is read back from its value

A float is known by what it stands for (`double_inj`, `single_inj`).  So a numeral that is neither
below nor above a double is read as it (`Numeral.double_eq`), and a single that was made a double
is made the same single again (`narrow_widen`).

A numeral with few digits is read by one division of doubles, of which both operands are
exact, and any other one by a division that rounds once.  Either way the quotient is rounded once.
-/
import OverlayRouting.Decimal.Numeral
import OverlayRouting.Proofs.Accuracy

namespace OverlayRouting.Decimal

set_option autoImplicit false

open Float.Model (Format UnpackedFloat totalExponent)

/-! ## Floats and what they stand for -/

theorem double_inj {x y : Float} (same : double x = double y) : x = y := by
  obtain ⟨⟨⟨bits⟩, valid⟩⟩ := x
  obtain ⟨⟨⟨bits'⟩, valid'⟩⟩ := y
  obtain rfl : bits = bits' := (UnpackedFloat.unpack_inj_of_valid valid valid').1 same
  rfl

theorem single_inj {x y : Float32} (same : single x = single y) : x = y := by
  obtain ⟨⟨⟨bits⟩, valid⟩⟩ := x
  obtain ⟨⟨⟨bits'⟩, valid'⟩⟩ := y
  obtain rfl : bits = bits' := (UnpackedFloat.unpack_inj_of_valid valid valid').1 same
  rfl

theorem stored_single (x : Float32) : stored Format.binary32 (single x) = single x :=
  congrArg (UnpackedFloat.unpack Format.binary32) (UnpackedFloat.pack_unpack_of_valid x.toModel.valid)

theorem double_neg (x : Float) :
    double (-x) = stored Format.binary64 (UnpackedFloat.neg (double x)) := rfl

/-! ## Exact numbers -/

section Exact

variable {mantissa : Nat}

theorem notBelow_scaled (spec : Format) (mantissa : Nat) (exponent : Int) :
    NotBelow spec mantissa exponent (scaled mantissa exponent) := by
  have some_reach : (0 : ℚ) < reach spec mantissa exponent :=
    mod_cast (reach_le spec mantissa exponent).1
  have unit := two_zpow_pos exponent
  left
  rw [scaled, ← mul_assoc]
  exact mul_lt_mul_of_pos_right (by linarith) unit

theorem notAbove_scaled (mantissa : Nat) (exponent : Int) :
    NotAbove mantissa exponent (scaled mantissa exponent) := by
  have unit := two_zpow_pos exponent
  left
  rw [scaled, ← mul_assoc]
  exact mul_lt_mul_of_pos_right (by linarith) unit

/-- A number with few bits, none of them too low, is one of the format. -/
theorem round_exact (spec : Format) (exponent : Int) (sign : UnpackedFloat.Sign)
    (positive : 0 < mantissa) (few : mantissa < 2 ^ spec.mantissaBits)
    (least : spec.minExponent + spec.mantissaBits ≤ exponent) :
    ∃ mantissa' exponent' positive', exponent' ≤ exponent ∧
      scaled mantissa' exponent' = scaled mantissa exponent ∧
      Canonical spec (.finite sign mantissa' exponent' positive') ∧
      UnpackedFloat.round spec sign mantissa exponent = .finite sign mantissa' exponent' positive' := by
  have short := (Nat.log2_lt positive.ne').2 few
  obtain ⟨bits, enough⟩ : ∃ bits, mantissa.log2 + 1 + bits = spec.mantissaBits :=
    ⟨spec.mantissaBits - (mantissa.log2 + 1), by omega⟩
  have positive' : 0 < mantissa * 2 ^ bits := Nat.mul_pos positive (Nat.two_pow_pos bits)
  have canonical : Canonical spec (.finite sign (mantissa * 2 ^ bits) (exponent - bits) positive') := by
    have place := totalExponent_mul_two_pow positive exponent bits
    rw [Canonical, place, Format.targetExponent, totalExponent]
    omega
  have same := scaled_mul_two_pow mantissa exponent bits
  have rounds := rounds_round positive spec exponent sign
  rw [← same] at rounds
  exact ⟨_, _, positive', by omega, same, canonical,
    rounds.eq_finite canonical (notBelow_scaled _ _ _) (notAbove_scaled _ _)⟩

end Exact

/-! ## Singles as doubles -/

/-- A single that was made a double is made the same single. -/
theorem narrow_widen (x : Float32) : narrow (widen x) = x := by
  refine single_inj ?_
  rw [single_narrow, double_widen]
  have again := stored_single x
  have canonical := canonical_single x
  cases same : single x with
  | notANumber => rfl
  | infinity sign => cases sign <;> rfl
  | zero sign => cases sign <;> rfl
  | finite sign mantissa exponent positive =>
      have lowest := minExponent_binary64
      have precise := mantissaBits_binary64
      have bias : Format.binary64.exponentBias = 1023 := by decide
      have bits : Format.binary64.mantissaBitsWithoutImplicit = 52 := rfl
      have small := exponent_unpack (by decide) same
      have bias' : Format.binary32.exponentBias = 127 := by decide
      have least := minExponent_le_targetExponent Format.binary32 (totalExponent mantissa exponent)
      have lowest' : Format.binary32.minExponent = -149 := by decide
      rw [same] at canonical again
      have few : mantissa < 2 ^ Format.binary64.mantissaBits :=
        (lt_two_pow_mantissaBits canonical positive).trans (Nat.pow_lt_pow_right (by decide) (by decide))
      rw [← canonical] at least
      obtain ⟨mantissa', exponent', positive', lower, value, canonical', round⟩ :=
        round_exact Format.binary64 exponent sign positive few (by omega)
      have rounds := rounds_round positive' Format.binary32 exponent' sign
      rw [value] at rounds
      rw [rounded, round, stored_finite canonical', if_pos (by omega), stored_finite canonical',
        if_pos (by omega), rounded,
        rounds.eq_finite canonical (notBelow_scaled _ _ _) (notAbove_scaled _ _), again, again]

/-! ## Decimals as doubles -/

/-- Is this a whole number? -/
def isWhole (n : Nat) : UnpackedFloat → Bool
  | .finite .positive mantissa exponent _ =>
      mantissa * 2 ^ exponent.toNat = n * 2 ^ (-exponent).toNat
  | _ => false

theorem isWhole_powersOfTen : ∀ places : Fin 23,
    isWhole (10 ^ places.val) (double Float.exactlyRepresentablePowersOfTen[places]) = true := by
  decide

theorem finite_of_isWhole {n : Nat} {float : UnpackedFloat} (whole : isWhole n float = true) :
    ∃ mantissa exponent positive, float = .finite .positive mantissa exponent positive ∧
      scaled mantissa exponent = n := by
  unfold isWhole at whole
  split at whole
  · rename_i mantissa exponent positive
    refine ⟨mantissa, exponent, positive, rfl, ?_⟩
    have power : (2 : ℚ) ^ exponent * 2 ^ (-exponent).toNat = 2 ^ exponent.toNat := by
      rw [← zpow_natCast, ← zpow_natCast, ← zpow_add₀ (by norm_num)]
      congr 1
      omega
    have same : (mantissa * 2 ^ exponent.toNat : ℚ) = n * 2 ^ (-exponent).toNat :=
      mod_cast of_decide_eq_true whole
    rw [← power, ← mul_assoc] at same
    exact mul_right_cancel₀ (pow_ne_zero _ (by norm_num)) same
  · cases whole

/-- A decimal is rounded once. -/
theorem double_ofScientific {digits places : Nat} (positive : 0 < digits) (some_place : 0 < places)
    (few : places ≤ 2 ^ 11) : ∃ result,
      Rounds Format.binary64 .positive (digits / 10 ^ places) result ∧
      double (Float.ofScientific digits true places) = stored Format.binary64 result := by
  rw [Float.ofScientific]
  split
  · -- the digits and the power of ten are both doubles
    rename_i small
    obtain ⟨mantissa', exponent', positive', power, value'⟩ :=
      finite_of_isWhole (isWhole_powersOfTen ⟨places, by omega⟩)
    have count : digits.toUInt64.toNat = digits := by
      rw [UInt64.toNat_ofNat']
      exact Nat.mod_eq_of_lt (small.1.trans (by decide))
    have some_digit : 0 < digits.toUInt64 := by
      rw [UInt64.lt_iff_toNat_lt, count]
      exact positive
    obtain ⟨mantissa, exponent, positive, -, value, -, round⟩ :=
      round_exact Format.binary64 0 .positive positive small.1 (by decide)
    refine ⟨_, ?_, double_div _ _⟩
    rw [(double_toFloat_eq some_digit).1, count, round]
    change Rounds _ _ _ (UnpackedFloat.div _ _
      (double Float.exactlyRepresentablePowersOfTen[(⟨places, by omega⟩ : Fin 23)]))
    rw [power]
    have rounds := rounds_div positive positive' exponent exponent' Format.binary64
    rw [value, value', scaled, zpow_zero, mul_one] at rounds
    exact_mod_cast rounds
  · have some_power : 0 < 10 ^ places := Nat.pow_pos (by decide)
    have rounds := rounds_div positive some_power 0 0 Format.binary64
    rw [scaled, scaled, zpow_zero, mul_one, mul_one, Nat.cast_pow] at rounds
    refine ⟨_, rounds, ?_⟩
    change stored _ (UnpackedFloat.ofScientific Format.binary64 digits (Int.negOfNat places)) = _
    have bits : Format.binary64.exponentBits = 11 := rfl
    have power : (2 : Int) ^ 11 = 2048 := by norm_num
    rw [Int.negOfNat_eq, Int.ofNat_eq_natCast, UnpackedFloat.ofScientific, dif_neg positive.ne', bits, power,
      if_neg (by omega), if_neg (by omega), if_neg (by omega)]
    simp only [neg_neg, Int.toNat_natCast]

/-- A numeral that is neither below nor above a double is read as it. -/
theorem double_numeral {x : Float} {sign : UnpackedFloat.Sign} {mantissa : Nat} {exponent : Int}
    {positive : 0 < mantissa} (same : double x = .finite sign mantissa exponent positive)
    {digits places : Nat} (some_digit : 0 < digits) (some_place : 0 < places) (few : places ≤ 2 ^ 11)
    (notBelow : NotBelow Format.binary64 mantissa exponent (digits / 10 ^ places))
    (notAbove : NotAbove mantissa exponent (digits / 10 ^ places)) :
    (⟨Binary.isNegative sign, digits, -places⟩ : Numeral).double = x := by
  have canonical : Canonical Format.binary64 (double x) := canonical_double x
  have small := exponent_unpack (by decide) same
  rw [same] at canonical
  have canonical' : Canonical Format.binary64 (.finite .positive mantissa exponent positive) := canonical
  have magnitude : double (Float.ofScientific digits true places) =
      .finite .positive mantissa exponent positive := by
    obtain ⟨result, rounds, read⟩ := double_ofScientific some_digit some_place few
    rw [read, rounds.eq_finite canonical' notBelow notAbove, stored_finite canonical', if_pos small]
  have negative : decide (-(places : Int) < 0) = true := by simpa using some_place
  refine double_inj ?_
  rw [same, Numeral.double]
  simp only [negative, Int.natAbs_neg, Int.natAbs_natCast]
  cases sign with
  | positive => exact magnitude
  | negative =>
      change double (-_) = _
      rw [double_neg, magnitude]
      change stored _ (.finite .negative mantissa exponent positive) = _
      rw [stored_finite canonical, if_pos small]

theorem double_numeral_zero {x : Float} {sign : UnpackedFloat.Sign} (same : double x = .zero sign) :
    (⟨Binary.isNegative sign, 0, -1⟩ : Numeral).double = x := by
  refine double_inj ?_
  rw [same]
  cases sign <;> rfl

end OverlayRouting.Decimal
