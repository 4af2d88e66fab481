/-
# OverlayRouting.Proofs.Magnitude -- how large the results of float arithmetic are

A float is packed into the bits of its format and unpacked again.  That gives back what was
packed, if its exponent is the one that the format has for its size (`Canonical`), or an infinity
if it is too large (`stored_finite`); every float that is unpacked has such an exponent, and so
has every result of an operation.

Sums, quotients and differences are bounded by the place of the first digit: a sum reaches the
place that one of its terms reaches (`AtLeast.add`), a quotient the difference of the places
(`AtLeast.div`), and the quotient by a number that is not greater reaches one (`AtMost.div`).
-/
import OverlayRouting.Proofs.Rounding

namespace OverlayRouting.Decimal

set_option autoImplicit false

open Float.Model (Format UnpackedFloat totalExponent)

/-! ## Storing -/

section Store

open Float.Model.UnpackedFloat (packComponents unpackExponent unpackMantissa)

variable {spec : Format}

theorem toNat_implicit {bits : Nat} (fraction : BitVec bits) :
    (1#1 ++ fraction).toNat = 2 ^ bits + fraction.toNat := by
  rw [BitVec.toNat_append, ← Nat.shiftLeft_add_eq_or_of_lt fraction.isLt]
  simp [Nat.shiftLeft_eq]

theorem add_mod_two_pow {mantissa bits : Nat} (positive : 0 < mantissa)
    (first : mantissa.log2 = bits) : 2 ^ bits + mantissa % 2 ^ bits = mantissa := by
  obtain ⟨least, below⟩ := (Nat.log2_eq_iff positive.ne').1 first
  rw [Nat.pow_succ] at below
  rw [Nat.mod_eq_sub_mod least, Nat.mod_eq_of_lt (by omega)]
  omega

theorem minExponent_eq (spec : Format) :
    spec.minExponent = 1 - spec.exponentBias - spec.mantissaBitsWithoutImplicit := by
  have room : 1 ≤ 2 ^ (spec.exponentBits - 1) := Nat.one_le_two_pow
  unfold Format.minExponent Format.exponentBias Format.mantissaBits
  rw [Nat.cast_sub room]
  push_cast
  ring

theorem two_pow_exponentBits (spec : Format) : 2 ^ spec.exponentBits = 2 * spec.exponentBias + 2 := by
  have some_bits := spec.he
  have room : 1 ≤ 2 ^ (spec.exponentBits - 1) := Nat.one_le_two_pow
  have double : 2 ^ spec.exponentBits = 2 ^ (spec.exponentBits - 1) * 2 := by
    rw [← Nat.pow_succ, Nat.succ_eq_add_one, Nat.sub_add_cancel some_bits]
  unfold Format.exponentBias
  omega

theorem ofNat_ne_allOnes {bits n : Nat} (small : n + 1 < 2 ^ bits) : BitVec.ofNat bits n ≠ -1#_ := by
  intro same
  have := congrArg BitVec.toNat same
  rw [BitVec.toNat_ofNat, Nat.mod_eq_of_lt (by omega), BitVec.neg_one_eq_allOnes,
    BitVec.toNat_allOnes] at this
  omega

theorem ofNat_ne_zero {bits n : Nat} (positive : 0 < n) (small : n < 2 ^ bits) :
    BitVec.ofNat bits n ≠ 0#_ := by
  intro same
  have := congrArg BitVec.toNat same
  rw [BitVec.toNat_ofNat, Nat.mod_eq_of_lt small, BitVec.toNat_zero] at this
  omega

theorem fraction_pos {bits : Nat} {fraction : BitVec bits} (some_bit : ¬ fraction = 0#_) :
    0 < fraction.toNat := by
  rw [Nat.pos_iff_ne_zero]
  simpa [← BitVec.toNat_inj] using some_bit

theorem implicit_pos {bits : Nat} (fraction : BitVec bits) : 0 < (1#1 ++ fraction).toNat := by
  rw [toNat_implicit]
  exact Nat.add_pos_left (Nat.two_pow_pos bits) _

theorem unpack_packComponents (sign : UnpackedFloat.Sign) (exponent : BitVec spec.exponentBits)
    (fraction : BitVec spec.mantissaBitsWithoutImplicit) :
    UnpackedFloat.unpack spec (packComponents spec sign exponent fraction) =
      if exponent = -1#_ then if fraction = 0#_ then .infinity sign else .notANumber
      else if exponent = 0#_ then
        if some_bit : fraction = 0#_ then .zero sign
        else .finite sign fraction.toNat
          (exponent.toNat - (spec.exponentBias + spec.mantissaBitsWithoutImplicit) + 1)
          (fraction_pos some_bit)
      else .finite sign (1#1 ++ fraction).toNat
        (exponent.toNat - (spec.exponentBias + spec.mantissaBitsWithoutImplicit))
        (implicit_pos fraction) := by
  unfold UnpackedFloat.unpack
  simp only [Float.Model.UnpackedFloat.unpackMantissa_packComponents,
    Float.Model.UnpackedFloat.unpackExponent_packComponents,
    Float.Model.UnpackedFloat.unpackSign_packComponents, UnpackedFloat.Sign.ofBitVec_toBitVec]

/-- What is read back of a float that was written with the bits of a format. -/
def stored (spec : Format) (float : UnpackedFloat) : UnpackedFloat :=
  UnpackedFloat.unpack spec (UnpackedFloat.pack spec float)

theorem stored_zero (sign : UnpackedFloat.Sign) : stored spec (.zero sign) = .zero sign :=
  UnpackedFloat.unpack_packedZero

theorem stored_infinity (sign : UnpackedFloat.Sign) :
    stored spec (.infinity sign) = .infinity sign := by
  rw [stored, UnpackedFloat.pack, UnpackedFloat.packedInfinity, unpack_packComponents]
  simp

theorem log2_implicit {bits : Nat} (fraction : BitVec bits) : (1#1 ++ fraction).toNat.log2 = bits := by
  have below := fraction.isLt
  rw [toNat_implicit]
  refine (Nat.log2_eq_iff (by omega)).2 ⟨by omega, ?_⟩
  rw [Nat.pow_succ]
  omega

theorem canonical_unpack (bits : BitVec spec.numBits) :
    Canonical spec (UnpackedFloat.unpack spec bits) := by
  have lowest := minExponent_eq spec
  simp only [UnpackedFloat.unpack]
  split
  · split <;> trivial
  · split
    · split
      · trivial
      · -- a fraction alone has no digit at the place of the implicit one
        rename_i least some_bit
        have few : (unpackMantissa bits).toNat.log2 < spec.mantissaBitsWithoutImplicit :=
          (Nat.log2_lt (fraction_pos some_bit).ne').2 (unpackMantissa bits).isLt
        simp only [Canonical, least, Format.targetExponent, totalExponent, Format.mantissaBits,
          BitVec.toNat_zero]
        omega
    · -- the implicit bit is the first digit
      rename_i greater
      have positive := fraction_pos greater
      simp only [Canonical, Format.targetExponent, totalExponent, log2_implicit, Format.mantissaBits]
      omega

/-- No finite float is too large for its format. -/
theorem exponent_unpack (signed : 0 < spec.exponentBias) {bits : BitVec spec.numBits}
    {sign : UnpackedFloat.Sign} {mantissa : Nat} {exponent : Int} {positive : 0 < mantissa}
    (found : UnpackedFloat.unpack spec bits = .finite sign mantissa exponent positive) :
    exponent + spec.mantissaBitsWithoutImplicit ≤ spec.exponentBias := by
  have room := two_pow_exponentBits spec
  have below := (unpackExponent bits).isLt
  simp only [UnpackedFloat.unpack] at found
  split at found
  · split at found <;> cases found
  · rename_i regular
    have some_bias : (unpackExponent bits).toNat + 1 ≠ 2 ^ spec.exponentBits := by
      intro last
      refine regular (BitVec.eq_of_toNat_eq ?_)
      rw [BitVec.neg_one_eq_allOnes, BitVec.toNat_allOnes]
      omega
    split at found
    · rename_i none
      split at found <;> cases found
      rw [none, BitVec.toNat_zero]
      omega
    · cases found
      omega

/-- Reading back gives what was written, or infinity if that is too large for the format. -/
theorem stored_finite {sign : UnpackedFloat.Sign} {mantissa : Nat} {exponent : Int}
    {positive : 0 < mantissa} (canonical : Canonical spec (.finite sign mantissa exponent positive)) :
    stored spec (.finite sign mantissa exponent positive) =
      if exponent + spec.mantissaBitsWithoutImplicit ≤ spec.exponentBias then
        .finite sign mantissa exponent positive
      else .infinity sign := by
  have lowest := minExponent_eq spec
  have room := two_pow_exponentBits spec
  have least := minExponent_le_targetExponent spec (totalExponent mantissa exponent)
  rw [Canonical] at canonical
  simp only [stored, UnpackedFloat.pack]
  by_cases small : exponent + spec.mantissaBitsWithoutImplicit ≤ spec.exponentBias
  · rw [if_pos small, if_neg (by omega)]
    split
    · rename_i normal
      have fraction : (1#1 ++ BitVec.ofNat spec.mantissaBitsWithoutImplicit mantissa).toNat = mantissa := by
        rw [toNat_implicit, BitVec.toNat_ofNat]
        exact add_mod_two_pow positive (by unfold Format.mantissaBits at normal; omega)
      have biased : (exponent + spec.exponentBias + spec.mantissaBitsWithoutImplicit).toNat <
          2 ^ spec.exponentBits := by omega
      rw [unpack_packComponents, if_neg (ofNat_ne_allOnes (by omega)),
        if_neg (ofNat_ne_zero (by omega) biased)]
      simp only [fraction, BitVec.toNat_ofNat, Nat.mod_eq_of_lt biased]
      congr 1
      omega
    · rename_i subnormal
      unfold Format.targetExponent totalExponent Format.mantissaBits at canonical
      unfold Format.mantissaBits at subnormal
      have few : mantissa < 2 ^ spec.mantissaBitsWithoutImplicit :=
        (Nat.log2_lt positive.ne').1 (by omega)
      rw [unpack_packComponents, if_neg (ofNat_ne_allOnes (by omega)), if_pos rfl,
        dif_neg (ofNat_ne_zero positive few)]
      simp only [BitVec.toNat_ofNat, Nat.mod_eq_of_lt few, Nat.zero_mod]
      congr 1
      omega
  · rw [if_neg small, if_pos (by omega)]
    exact stored_infinity sign

end Store

/-! ## Kinds of floats -/

/-- Zero, of either sign. -/
inductive IsZero : UnpackedFloat → Prop where
  | zero (sign : UnpackedFloat.Sign) : IsZero (.zero sign)

/-- A number that is not negative. -/
inductive Nonneg : UnpackedFloat → Prop where
  | zero (sign : UnpackedFloat.Sign) : Nonneg (.zero sign)
  | finite {mantissa : Nat} {exponent : Int} (positive : 0 < mantissa) :
      Nonneg (.finite .positive mantissa exponent positive)
  | infinity : Nonneg (.infinity .positive)

/-- A positive number with its first digit at some place, or above. -/
inductive AtLeast (place : Int) : UnpackedFloat → Prop where
  | finite {mantissa : Nat} {exponent : Int} {positive : 0 < mantissa}
      (above : place ≤ totalExponent mantissa exponent) :
      AtLeast place (.finite .positive mantissa exponent positive)
  | infinity : AtLeast place (.infinity .positive)

/-- A positive number, not infinite, with its first digit at some place, or below. -/
inductive Within (place : Int) : UnpackedFloat → Prop where
  | finite {mantissa : Nat} {exponent : Int} {positive : 0 < mantissa}
      (below : totalExponent mantissa exponent ≤ place) :
      Within place (.finite .positive mantissa exponent positive)

section Kinds

variable {spec : Format} {x y : UnpackedFloat} {place bound : Int}

theorem IsZero.nonneg (zero : IsZero x) : Nonneg x := by
  cases zero with
  | zero sign => exact .zero sign

theorem AtLeast.nonneg (least : AtLeast place x) : Nonneg x := by
  cases least with
  | finite => exact .finite _
  | infinity => exact .infinity

theorem Within.nonneg (within : Within place x) : Nonneg x := by
  cases within with
  | finite => exact .finite _

theorem IsZero.stored (zero : IsZero x) : IsZero (stored spec x) := by
  cases zero with
  | zero sign =>
      rw [stored_zero]
      exact .zero sign

theorem Nonneg.stored (nonneg : Nonneg x) (canonical : Canonical spec x) :
    Nonneg (stored spec x) := by
  cases nonneg with
  | zero sign =>
      rw [stored_zero]
      exact .zero sign
  | finite positive =>
      rw [stored_finite canonical]
      split
      · exact .finite positive
      · exact .infinity
  | infinity =>
      rw [stored_infinity]
      exact .infinity

theorem AtLeast.stored (least : AtLeast place x) (canonical : Canonical spec x) :
    AtLeast place (stored spec x) := by
  cases least with
  | finite above =>
      rw [stored_finite canonical]
      split
      · exact .finite above
      · exact .infinity
  | infinity =>
      rw [stored_infinity]
      exact .infinity

/-- A number that is not too large is stored as it is. -/
theorem Within.stored_eq (within : Within place x) (canonical : Canonical spec x)
    (small : place ≤ spec.exponentBias + 1) (signed : 0 < spec.exponentBias) :
    Decimal.stored spec x = x := by
  cases within with
  | finite below =>
      rw [stored_finite canonical, if_pos]
      have lowest := minExponent_eq spec
      simp only [Canonical, Format.targetExponent, Format.mantissaBits] at canonical
      omega

/-! ## Arithmetic -/

theorem normalize_natCast {mantissa : Nat} (positive : 0 < mantissa) (exponent : Int)
    (sign : UnpackedFloat.Sign) :
    UnpackedFloat.normalize spec mantissa exponent sign =
      UnpackedFloat.round spec .positive mantissa exponent := by
  have above : compare (mantissa : Int) 0 = .gt := Int.compare_eq_gt.2 (by omega)
  rw [UnpackedFloat.normalize, above]
  rfl

theorem canonical_normalize (mantissa : Int) (exponent : Int) (sign : UnpackedFloat.Sign) :
    Canonical spec (UnpackedFloat.normalize spec mantissa exponent sign) := by
  unfold UnpackedFloat.normalize
  split
  · rename_i below
    exact canonical_round spec exponent _ (by rw [Int.compare_eq_lt] at below; omega)
  · trivial
  · rename_i above
    exact canonical_round spec exponent _ (by rw [Int.compare_eq_gt] at above; omega)

theorem canonical_add (canonical : Canonical spec x) (canonical' : Canonical spec y) :
    Canonical spec (UnpackedFloat.add spec x y) := by
  unfold UnpackedFloat.add
  split <;> first | trivial | (split <;> trivial) | assumption | exact canonical_normalize _ _ _

theorem canonical_sub (canonical : Canonical spec x) (canonical' : Canonical spec y) :
    Canonical spec (UnpackedFloat.sub spec x y) := by
  unfold UnpackedFloat.sub
  split <;> first | trivial | (split <;> trivial) | assumption | exact canonical_normalize _ _ _

theorem nonneg_roundWithAccuracy (mantissa : Nat) (exponent : Int)
    (accuracy : UnpackedFloat.Accuracy) :
    Nonneg (UnpackedFloat.roundWithAccuracy spec .positive mantissa exponent accuracy) := by
  rw [roundWithAccuracy_eq .positive rfl]
  split
  · exact .zero _
  · exact .finite _

theorem nonneg_round {mantissa : Nat} (exponent : Int) :
    Nonneg (UnpackedFloat.round spec .positive mantissa exponent) := by
  rw [UnpackedFloat.round, UnpackedFloat.decreaseExponent]
  exact nonneg_roundWithAccuracy _ _ _

/-- The sum of two mantissas in units of the smaller exponent. -/
def alignedSum (mantissa : Nat) (exponent : Int) (mantissa' : Nat) (exponent' : Int) : Nat :=
  mantissa * 2 ^ (exponent - min exponent exponent').toNat +
    mantissa' * 2 ^ (exponent' - min exponent exponent').toNat

theorem add_eq (spec : Format) {mantissa mantissa' : Nat} (exponent exponent' : Int)
    (positive : 0 < mantissa) (positive' : 0 < mantissa') :
    0 < alignedSum mantissa exponent mantissa' exponent' ∧
      UnpackedFloat.add spec (.finite .positive mantissa exponent positive)
        (.finite .positive mantissa' exponent' positive') =
          UnpackedFloat.round spec .positive (alignedSum mantissa exponent mantissa' exponent')
            (min exponent exponent') := by
  have some_digit : 0 < alignedSum mantissa exponent mantissa' exponent' :=
    Nat.add_pos_left (Nat.mul_pos positive (Nat.two_pow_pos _)) _
  refine ⟨some_digit, ?_⟩
  simp only [UnpackedFloat.add, UnpackedFloat.decreaseExponent, UnpackedFloat.Sign.apply,
    Nat.shiftLeft_eq]
  exact normalize_natCast some_digit _ _

/-- The sum of two positive numbers is rounded from one that has its first digit where they have
theirs, or above. -/
theorem add_finite (spec : Format) {mantissa mantissa' : Nat} {exponent exponent' : Int}
    (positive : 0 < mantissa) (positive' : 0 < mantissa') :
    ∃ sum, 0 < sum ∧
      UnpackedFloat.add spec (.finite .positive mantissa exponent positive)
        (.finite .positive mantissa' exponent' positive') =
          UnpackedFloat.round spec .positive sum (min exponent exponent') ∧
      totalExponent mantissa exponent ≤ totalExponent sum (min exponent exponent') ∧
      totalExponent mantissa' exponent' ≤ totalExponent sum (min exponent exponent') := by
  obtain ⟨some_digit, sum⟩ := add_eq spec exponent exponent' positive positive'
  refine ⟨_, some_digit, sum, ?_⟩
  have low := Int.min_le_left exponent exponent'
  have low' := Int.min_le_right exponent exponent'
  rw [alignedSum]
  generalize min exponent exponent' = least at *
  obtain ⟨bits, rfl⟩ : ∃ bits : Nat, least = exponent - bits := ⟨(exponent - least).toNat, by omega⟩
  obtain ⟨bits', same⟩ : ∃ bits' : Nat, exponent - bits = exponent' - bits' :=
    ⟨(exponent' - (exponent - bits)).toNat, by omega⟩
  rw [show (exponent - (exponent - bits)).toNat = bits by omega,
    show (exponent' - (exponent - bits)).toNat = bits' by omega]
  constructor
  · rw [← totalExponent_mul_two_pow positive exponent bits]
    exact totalExponent_mono _ (Nat.mul_pos positive (Nat.two_pow_pos bits)) (Nat.le_add_right _ _)
  · rw [← totalExponent_mul_two_pow positive' exponent' bits', same]
    exact totalExponent_mono _ (Nat.mul_pos positive' (Nat.two_pow_pos bits'))
      (Nat.le_add_left _ _)

theorem Nonneg.add (nonneg : Nonneg x) (nonneg' : Nonneg y) : Nonneg (UnpackedFloat.add spec x y) := by
  cases nonneg with
  | zero sign =>
      cases nonneg' with
      | zero sign' =>
          cases sign <;> cases sign' <;> exact .zero _
      | finite => exact .finite _
      | infinity => exact .infinity
  | finite positive =>
      cases nonneg' with
      | zero => exact .finite _
      | finite positive' =>
          obtain ⟨_, -, sum, -⟩ := add_finite spec positive positive'
          rw [sum]
          exact nonneg_round _
      | infinity => exact .infinity
  | infinity => cases nonneg' <;> exact .infinity

theorem IsZero.add (zero : IsZero x) (zero' : IsZero y) : IsZero (UnpackedFloat.add spec x y) := by
  cases zero with
  | zero sign =>
      cases zero' with
      | zero sign' => cases sign <;> cases sign' <;> exact .zero _

theorem AtLeast.round {mantissa : Nat} {exponent : Int} (positive : 0 < mantissa)
    (above : place ≤ totalExponent mantissa exponent) (held : spec.minExponent < place) :
    AtLeast place (UnpackedFloat.round spec .positive mantissa exponent) := by
  obtain ⟨last, final, some_left, round, total⟩ :=
    round_held positive (by omega : spec.minExponent < totalExponent mantissa exponent) .positive
  rw [round]
  exact .finite (by omega)

/-- A sum of which one number reaches a place, reaches it as well. -/
theorem AtLeast.add (nonneg : Nonneg x) (nonneg' : Nonneg y) (held : spec.minExponent < place)
    (reaches : AtLeast place x ∨ AtLeast place y) :
    AtLeast place (UnpackedFloat.add spec x y) := by
  cases nonneg with
  | zero sign =>
      have least : AtLeast place y := reaches.resolve_left fun reach => by cases reach
      cases least with
      | finite above => exact .finite above
      | infinity => exact .infinity
  | finite positive =>
      cases nonneg' with
      | zero sign =>
          have least := reaches.resolve_right fun reach => by cases reach
          cases least with
          | finite above => exact .finite above
      | finite positive' =>
          obtain ⟨_, some_sum, sum, above, above'⟩ := add_finite spec positive positive'
          rw [sum]
          refine AtLeast.round some_sum ?_ held
          rcases reaches with reach | reach
          · cases reach with
            | finite reach => omega
          · cases reach with
            | finite reach => omega
      | infinity => exact .infinity
  | infinity => cases nonneg' <;> exact .infinity

/-! ## Quotients -/

theorem targetExponent_mono {total total' : Int} (le : total ≤ total') :
    spec.targetExponent total ≤ spec.targetExponent total' := by
  unfold Format.targetExponent
  omega

/-- With enough bits a quotient has its first digit no lower than the places of both numbers
differ. -/
theorem totalExponent_quotient {mantissa mantissa' bits : Nat} (exponent exponent' : Int)
    (positive : 0 < mantissa) (positive' : 0 < mantissa')
    (enough : mantissa'.log2 + 1 ≤ mantissa.log2 + bits) :
    0 < mantissa * 2 ^ bits / mantissa' ∧
      totalExponent mantissa exponent - totalExponent mantissa' exponent' ≤
        totalExponent (mantissa * 2 ^ bits / mantissa') (exponent - exponent' - bits) := by
  have least : 2 ^ (mantissa.log2 + bits - mantissa'.log2 - 1) ≤ mantissa * 2 ^ bits / mantissa' := by
    rw [Nat.le_div_iff_mul_le positive']
    calc 2 ^ (mantissa.log2 + bits - mantissa'.log2 - 1) * mantissa'
        ≤ 2 ^ (mantissa.log2 + bits - mantissa'.log2 - 1) * 2 ^ (mantissa'.log2 + 1) :=
          Nat.mul_le_mul_left _ (Nat.le_of_lt Nat.lt_log2_self)
      _ = 2 ^ mantissa.log2 * 2 ^ bits := by
          rw [← Nat.pow_add, ← Nat.pow_add]
          congr 1
          omega
      _ ≤ mantissa * 2 ^ bits := Nat.mul_le_mul_right _ (Nat.log2_self_le positive.ne')
  have some_digit : 0 < mantissa * 2 ^ bits / mantissa' :=
    Nat.lt_of_lt_of_le (Nat.two_pow_pos _) least
  refine ⟨some_digit, ?_⟩
  have := (Nat.le_log2 some_digit.ne').2 least
  unfold totalExponent
  omega

/-- How many bits are put behind a dividend. -/
def lengthened (spec : Format) (mantissa : Nat) (exponent : Int) (mantissa' : Nat)
    (exponent' : Int) : Nat :=
  (exponent - exponent' - spec.targetExponent (totalExponent mantissa exponent -
    totalExponent mantissa' exponent')).toNat

section

variable {mantissa mantissa' : Nat} {exponent exponent' : Int}

theorem div_eq (spec : Format) (exponent exponent' : Int) (positive : 0 < mantissa)
    (positive' : 0 < mantissa') :
    UnpackedFloat.div spec (.finite .positive mantissa exponent positive)
        (.finite .positive mantissa' exponent' positive') =
      UnpackedFloat.roundWithAccuracy spec .positive
        (mantissa * 2 ^ lengthened spec mantissa exponent mantissa' exponent' / mantissa')
        (exponent - exponent' - lengthened spec mantissa exponent mantissa' exponent')
        (UnpackedFloat.accuracyOfFraction
          (mantissa * 2 ^ lengthened spec mantissa exponent mantissa' exponent' % mantissa')
          mantissa') := by
  have bits : (exponent - exponent' - min (exponent - exponent') (spec.targetExponent
      (totalExponent mantissa exponent - totalExponent mantissa' exponent'))).toNat =
        lengthened spec mantissa exponent mantissa' exponent' := by
    unfold lengthened
    omega
  have lowered : min (exponent - exponent') (spec.targetExponent
      (totalExponent mantissa exponent - totalExponent mantissa' exponent')) =
        exponent - exponent' - lengthened spec mantissa exponent mantissa' exponent' := by
    unfold lengthened
    omega
  rw [← lowered, ← bits, ← Nat.shiftLeft_eq]
  rfl

/-- The quotient of numbers that lie far enough apart for the format has a first digit. -/
theorem lengthened_enough (held : spec.minExponent <
      totalExponent mantissa exponent - totalExponent mantissa' exponent') :
    mantissa'.log2 + 1 ≤ mantissa.log2 + lengthened spec mantissa exponent mantissa' exponent' := by
  unfold lengthened Format.targetExponent Format.mantissaBits
  unfold totalExponent at *
  omega

theorem lowered_le (positive : 0 < mantissa) (positive' : 0 < mantissa') :
    exponent - exponent' - lengthened spec mantissa exponent mantissa' exponent' ≤
      spec.targetExponent (totalExponent
        (mantissa * 2 ^ lengthened spec mantissa exponent mantissa' exponent' / mantissa')
        (exponent - exponent' - lengthened spec mantissa exponent mantissa' exponent')) := by
  have low : exponent - exponent' - lengthened spec mantissa exponent mantissa' exponent' ≤
      spec.targetExponent (totalExponent mantissa exponent - totalExponent mantissa' exponent') := by
    unfold lengthened
    omega
  refine Int.le_trans low ?_
  rcases targetExponent_cases spec (totalExponent mantissa exponent -
    totalExponent mantissa' exponent') with lowest | ⟨held, -⟩
  · rw [lowest]
    exact minExponent_le_targetExponent spec _
  · exact targetExponent_mono
      (totalExponent_quotient exponent exponent' positive positive' (lengthened_enough held)).2

end

theorem IsZero.div (zero : IsZero x) (within : Within bound y) : IsZero (UnpackedFloat.div spec x y) := by
  cases zero with
  | zero sign =>
      cases within with
      | finite => exact .zero _

theorem Nonneg.div (nonneg : Nonneg x) (within : Within bound y) :
    Nonneg (UnpackedFloat.div spec x y) ∧ Canonical spec (UnpackedFloat.div spec x y) := by
  cases within with
  | finite below =>
      rename_i positive'
      cases nonneg with
      | zero sign => exact ⟨.zero _, trivial⟩
      | infinity => exact ⟨.infinity, trivial⟩
      | finite positive =>
          rw [div_eq spec _ _ positive positive']
          exact ⟨nonneg_roundWithAccuracy _ _ _,
            canonical_roundWithAccuracy .positive _ (lowered_le positive positive')⟩

theorem AtLeast.roundWithAccuracy {mantissa : Nat} {exponent : Int} (positive : 0 < mantissa)
    (above : place ≤ totalExponent mantissa exponent) (held : spec.minExponent < place)
    (accuracy : UnpackedFloat.Accuracy) :
    AtLeast place (UnpackedFloat.roundWithAccuracy spec .positive mantissa exponent accuracy) := by
  obtain ⟨last, final, some_left, round, total⟩ := roundWithAccuracy_finite positive
    (by omega : spec.minExponent < totalExponent mantissa exponent) .positive accuracy
  rw [round]
  exact .finite (by omega)

theorem atLeast_div {mantissa mantissa' : Nat} {exponent exponent' : Int} (positive : 0 < mantissa)
    (positive' : 0 < mantissa') (held : spec.minExponent < place)
    (apart : place ≤ totalExponent mantissa exponent - totalExponent mantissa' exponent') :
    AtLeast place (UnpackedFloat.div spec (.finite .positive mantissa exponent positive)
      (.finite .positive mantissa' exponent' positive')) := by
  have enough := lengthened_enough (Int.lt_of_lt_of_le held apart)
  obtain ⟨some_digit, reached⟩ :=
    totalExponent_quotient exponent exponent' positive positive' enough
  rw [div_eq spec exponent exponent' positive positive']
  exact AtLeast.roundWithAccuracy some_digit (Int.le_trans apart reached) held _

theorem AtLeast.div (least : AtLeast place x) (within : Within bound y)
    (held : spec.minExponent < place - bound) :
    AtLeast (place - bound) (UnpackedFloat.div spec x y) := by
  cases within with
  | finite below =>
      cases least with
      | infinity => exact .infinity
      | finite above => exact atLeast_div _ _ held (by omega)

/-- The quotient by a number that is not greater is one at least. -/
theorem AtMost.div (le : AtMost y x) : AtLeast 1 (UnpackedFloat.div spec x y) := by
  have lowest := minExponent_nonpos spec
  cases le with
  | lower below => exact atLeast_div _ _ (by omega) (by omega)
  | level same le =>
      rename_i mantissa' mantissa exponent' exponent positive' positive
      subst same
      rw [div_eq spec exponent' exponent' positive positive']
      generalize lengthened spec mantissa exponent' mantissa' exponent' = bits
      have least : 2 ^ bits ≤ mantissa * 2 ^ bits / mantissa' := by
        rw [Nat.le_div_iff_mul_le positive', Nat.mul_comm]
        exact Nat.mul_le_mul_right _ le
      have some_digit := Nat.lt_of_lt_of_le (Nat.two_pow_pos _) least
      have reached := (Nat.le_log2 some_digit.ne').2 least
      refine AtLeast.roundWithAccuracy some_digit ?_ (by omega) _
      unfold totalExponent
      omega

/-! ## Differences -/

/-- A number that is not positive. -/
inductive Nonpos : UnpackedFloat → Prop where
  | zero (sign : UnpackedFloat.Sign) : Nonpos (.zero sign)
  | finite {mantissa : Nat} {exponent : Int} (positive : 0 < mantissa) :
      Nonpos (.finite .negative mantissa exponent positive)
  | infinity : Nonpos (.infinity .negative)

theorem Nonpos.stored (nonpos : Nonpos x) (canonical : Canonical spec x) :
    Nonpos (stored spec x) := by
  cases nonpos with
  | zero sign =>
      rw [stored_zero]
      exact .zero sign
  | finite positive =>
      rw [stored_finite canonical]
      split
      · exact .finite positive
      · exact .infinity
  | infinity =>
      rw [stored_infinity]
      exact .infinity

theorem nonneg_normalize {mantissa : Int} (nonneg : 0 ≤ mantissa) (exponent : Int)
    (sign : UnpackedFloat.Sign) : Nonneg (UnpackedFloat.normalize spec mantissa exponent sign) := by
  unfold UnpackedFloat.normalize
  split
  · rename_i below
    rw [Int.compare_eq_lt] at below
    omega
  · exact .zero _
  · exact nonneg_round _

theorem nonpos_normalize {mantissa : Int} (nonpos : mantissa ≤ 0) (exponent : Int)
    (sign : UnpackedFloat.Sign) : Nonpos (UnpackedFloat.normalize spec mantissa exponent sign) := by
  unfold UnpackedFloat.normalize
  split
  · rw [UnpackedFloat.round, UnpackedFloat.decreaseExponent]
    dsimp only
    rw [roundWithAccuracy_eq .negative rfl]
    split
    · exact .zero _
    · exact .finite _
  · exact .zero _
  · rename_i above
    rw [Int.compare_eq_gt] at above
    omega

section

variable {mantissa mantissa' : Nat} {exponent exponent' : Int}

theorem sub_eq (positive : 0 < mantissa) (positive' : 0 < mantissa') :
    UnpackedFloat.sub spec (.finite .positive mantissa exponent positive)
        (.finite .positive mantissa' exponent' positive') =
      UnpackedFloat.normalize spec
        ((mantissa * 2 ^ (exponent - min exponent exponent').toNat : Nat) -
          (mantissa' * 2 ^ (exponent' - min exponent exponent').toNat : Nat))
        (min exponent exponent') .positive := by
  simp only [UnpackedFloat.sub, UnpackedFloat.decreaseExponent, UnpackedFloat.Sign.apply,
    Nat.shiftLeft_eq]

/-- The difference of two numbers that are not negative is a number, as long as the first one is
not infinite. -/
theorem sub_number (positive : 0 < mantissa) (nonneg : Nonneg y) :
    Nonneg (UnpackedFloat.sub spec (.finite .positive mantissa exponent positive) y) ∨
      Nonpos (UnpackedFloat.sub spec (.finite .positive mantissa exponent positive) y) := by
  cases nonneg with
  | zero => exact .inl (.finite _)
  | infinity => exact .inr .infinity
  | finite positive' =>
      rw [sub_eq]
      exact (Int.le_total 0 _).imp (nonneg_normalize · _ _) (nonpos_normalize · _ _)

end

theorem AtMost.sub (le : AtMost x y) : Nonpos (UnpackedFloat.sub spec x y) := by
  cases le with
  | lower below =>
      rename_i mantissa mantissa' exponent exponent' positive positive'
      rw [sub_eq]
      refine nonpos_normalize (Int.sub_nonpos_of_le (Int.ofNat_le.2 ?_)) _ _
      generalize bits : (exponent - min exponent exponent').toNat = k
      generalize bits' : (exponent' - min exponent exponent').toNat = k'
      calc mantissa * 2 ^ k
          ≤ 2 ^ (mantissa.log2 + 1) * 2 ^ k := Nat.mul_le_mul_right _ (Nat.le_of_lt Nat.lt_log2_self)
        _ = 2 ^ (mantissa.log2 + 1 + k) := (Nat.pow_add ..).symm
        _ ≤ 2 ^ (mantissa'.log2 + k') := by
          refine Nat.pow_le_pow_right (by decide) ?_
          unfold totalExponent at below
          omega
        _ = 2 ^ mantissa'.log2 * 2 ^ k' := Nat.pow_add ..
        _ ≤ mantissa' * 2 ^ k' := Nat.mul_le_mul_right _ (Nat.log2_self_le positive'.ne')
  | level same le =>
      subst same
      rw [sub_eq]
      exact nonpos_normalize (Int.sub_nonpos_of_le (Int.ofNat_le.2 (Nat.mul_le_mul_right _ le))) _ _

/-- A power of two is at most every number with its first digit at the same place or above. -/
theorem AtLeast.sub {mantissa : Nat} {exponent : Int} (positive : 0 < mantissa)
    (power : mantissa = 2 ^ mantissa.log2)
    (canonical : Canonical spec (.finite .positive mantissa exponent positive))
    (canonical' : Canonical spec y) (least : AtLeast (totalExponent mantissa exponent) y) :
    Nonpos (UnpackedFloat.sub spec (.finite .positive mantissa exponent positive) y) := by
  cases least with
  | infinity => exact .infinity
  | finite above =>
      rename_i mantissa' exponent' positive'
      refine AtMost.sub ?_
      rcases Int.lt_or_eq_of_le above with below | level
      · exact .lower below
      · have same : exponent = exponent' := by
          rw [Canonical] at canonical canonical'
          rw [canonical, canonical', level]
        have log2 : mantissa.log2 = mantissa'.log2 := by
          unfold totalExponent at level
          omega
        refine .level same ?_
        rw [power, log2]
        exact Nat.log2_self_le positive'.ne'

/-! ## Comparisons -/

theorem Nonneg.not_lt_zero (nonneg : Nonneg x) (zero : IsZero y) : x.lt y = false := by
  cases zero with
  | zero => cases nonneg <;> rfl

theorem Nonneg.zero_or_lt (nonneg : Nonneg x) (zero : IsZero y) : IsZero x ∨ y.lt x = true := by
  cases zero with
  | zero =>
      cases nonneg with
      | zero => exact .inl (.zero _)
      | finite | infinity => exact .inr rfl

theorem Nonpos.zero_or_lt (nonpos : Nonpos x) (zero : IsZero y) : IsZero x ∨ x.lt y = true := by
  cases zero with
  | zero =>
      cases nonpos with
      | zero => exact .inl (.zero _)
      | finite | infinity => exact .inr rfl

theorem AtLeast.lt (least : AtLeast place x) (zero : IsZero y) : y.lt x = true := by
  cases zero with
  | zero => cases least <;> rfl

theorem IsZero.lt_of_zero (zero : IsZero x) (zero' : IsZero y) : x.lt y = false := by
  cases zero with
  | zero => cases zero' with
    | zero => rfl

theorem IsZero.of_beq (nonneg : Nonneg x) (zero : IsZero y) (same : x.beq y = true) : IsZero x := by
  cases zero with
  | zero =>
      cases nonneg with
      | zero => exact .zero _
      | finite | infinity => cases same

end Kinds

end OverlayRouting.Decimal
