/-
# OverlayRouting.Proofs.Accuracy -- how far arithmetic in doubles is off

Every operation of doubles rounds its exact result, and moves it by no more than a share of
`roundOff`.  So a float that was worked out in a few operations is the exact number up to a small
share of it (`Near`), as long as that is far from the smallest and the largest double (`Moderate`).

A single has fewer bits than a double by far.  What is that near to a single, or on one side of it
but for a share that small, is rounded to it, or to that side of it (`Near.narrow_le`,
`Near.le_narrow`).
-/
import OverlayRouting.Proofs.Nearest
import OverlayRouting.Proofs.FloatOrder

namespace OverlayRouting.Decimal

set_option autoImplicit false

open Float.Model (Format UnpackedFloat totalExponent)

/-! ## Numbers up to a share -/

/-- The share of a number by which a double may be off. -/
def roundOff : ℚ := 1 / 2 ^ 53

/-- Zero, or a number between two powers of two. -/
def InRange (low high : Int) (number : ℚ) : Prop :=
  number = 0 ∨ 2 ^ low ≤ number ∧ number ≤ 2 ^ high

/-- Far from the smallest and the largest double. -/
def Moderate (number : ℚ) : Prop := InRange (-200) 200 number

/-- A float that is a number up to a share of it, and zero if the number is. -/
inductive Near (share number : ℚ) : UnpackedFloat → Prop where
  | zero (sign : UnpackedFloat.Sign) (nothing : number = 0) : Near share number (.zero sign)
  | finite {mantissa : Nat} {exponent : Int} {positive : 0 < mantissa}
      (low : (1 - share) * number ≤ scaled mantissa exponent)
      (high : scaled mantissa exponent ≤ (1 + share) * number) :
      Near share number (.finite .positive mantissa exponent positive)

section Doubles

variable {share share' total number number' exact : ℚ} {float : UnpackedFloat}
  {sign : UnpackedFloat.Sign} {x y : Float}

theorem minExponent_binary64 : Format.binary64.minExponent = -1074 := by decide

theorem mantissaBits_binary64 : Format.binary64.mantissaBits = 53 := rfl

theorem Near.stored_eq (near : Near share number float) (canonical : Canonical Format.binary64 float)
    (small : (1 + share) * number < 2 ^ (1000 : Int)) : stored Format.binary64 float = float := by
  cases near with
  | zero sign => exact stored_zero sign
  | finite low high =>
      rename_i mantissa exponent positive
      have place := (zpow_lt_zpow_iff_right₀ (by norm_num : (1 : ℚ) < 2)).1
        ((le_scaled _ positive).trans_lt (high.trans_lt small))
      have within : Within 1001 (.finite .positive mantissa exponent positive) := .finite (by omega)
      exact within.stored_eq canonical (by decide) (by decide)

/-- A number that is rounded is near to what it was near to before, but for the rounding. -/
theorem Rounds.near {low high : ℚ} (rounds : Rounds Format.binary64 .positive exact float)
    (normal : 2 ^ (-1000 : Int) ≤ exact) (nonneg : 0 ≤ number)
    (above : low * number ≤ exact) (below : exact ≤ high * number)
    (enough : high * (1 + roundOff) ≤ 1 + total) (enough' : 1 - total ≤ low * (1 - roundOff)) :
    Near total number float := by
  have lowest := minExponent_binary64
  have precise := mantissaBits_binary64
  obtain ⟨close, close'⟩ := rounds.close ((two_zpow_le (by omega)).trans normal)
  rw [precise, ← roundOff] at close close'
  have tiny : (0 : ℚ) < 1 - roundOff := by norm_num [roundOff]
  have large : (0 : ℚ) < 1 + roundOff := by norm_num [roundOff]
  have some_left : 0 < extent float :=
    (mul_pos ((two_zpow_pos _).trans_le normal) tiny).trans_le close
  rcases rounds.zero_or_finite with rfl | ⟨mantissa, exponent, positive, rfl⟩
  · exact absurd some_left (lt_irrefl 0)
  · refine .finite ?_ ?_
    · calc (1 - total) * number ≤ low * (1 - roundOff) * number := by gcongr
        _ = low * number * (1 - roundOff) := by ring
        _ ≤ exact * (1 - roundOff) := by gcongr
        _ ≤ scaled mantissa exponent := close
    · calc scaled mantissa exponent ≤ exact * (1 + roundOff) := close'
        _ ≤ high * number * (1 + roundOff) := by gcongr
        _ = high * (1 + roundOff) * number := by ring
        _ ≤ (1 + total) * number := by gcongr

theorem InRange.mono {low low' high high' : Int} (range : InRange low high number) (less : low' ≤ low)
    (more : high ≤ high') : InRange low' high' number :=
  range.imp_right fun bounds =>
    ⟨(two_zpow_le less).trans bounds.1, bounds.2.trans (two_zpow_le more)⟩

theorem InRange.nonneg {low high : Int} (range : InRange low high number) : 0 ≤ number :=
  range.elim ge_of_eq fun bounds => (two_zpow_pos _).le.trans bounds.1

theorem Moderate.nonneg (moderate : Moderate number) : 0 ≤ number := InRange.nonneg moderate

theorem Moderate.le (moderate : Moderate number) : number ≤ 2 ^ (200 : Int) :=
  moderate.elim (fun none => none.le.trans (two_zpow_pos _).le) And.right

/-- What is near to a moderate number is moderate as well. -/
theorem Moderate.approximate {value : ℚ} (moderate : Moderate number) (positive : 0 < value)
    (low : (1 - share) * number ≤ value) (high : value ≤ (1 + share) * number)
    (small : share ≤ 1 / 2) : 2 ^ (-201 : Int) ≤ value ∧ value ≤ 2 ^ (201 : Int) := by
  have nonneg := moderate.nonneg
  rcases moderate with rfl | ⟨least, most⟩
  · rw [mul_zero] at high
    exact absurd positive high.not_gt
  · constructor
    · calc (2 : ℚ) ^ (-201 : Int) = 2⁻¹ * 2 ^ (-200 : Int) := by norm_num
        _ ≤ (1 - share) * number := by gcongr <;> linarith
        _ ≤ value := low
    · calc value ≤ (1 + share) * number := high
        _ ≤ 2 * 2 ^ (200 : Int) := by gcongr; linarith
        _ = 2 ^ (201 : Int) := by norm_num

theorem Near.stored (near : Near share number float) (canonical : Canonical Format.binary64 float)
    (some_share : share ≤ 1) (nonneg : 0 ≤ number) (small : number ≤ 2 ^ (500 : Int)) :
    Near share number (stored Format.binary64 float) := by
  have held : (1 + share) * number < 2 ^ (1000 : Int) :=
    calc (1 + share) * number ≤ 2 * number := by gcongr; linarith
      _ ≤ 2 * 2 ^ (500 : Int) := by gcongr
      _ = 2 ^ (501 : Int) := (zpow_one_add₀ (by norm_num) 500).symm
      _ < 2 ^ (1000 : Int) := zpow_lt_zpow_right₀ (by norm_num) (by norm_num)
  rwa [near.stored_eq canonical held]

theorem Near.mono (near : Near share number float) (nonneg : 0 ≤ number) (le : share ≤ share') :
    Near share' number float := by
  cases near with
  | zero sign nothing => exact .zero sign nothing
  | finite low high =>
      refine .finite (le_trans ?_ low) (high.trans ?_)
      · gcongr
      · gcongr

theorem IsZero.near (zero : IsZero float) : Near share 0 (Decimal.stored Format.binary64 float) := by
  cases zero with
  | zero sign =>
      rw [stored_zero]
      exact .zero sign rfl

theorem Near.eq_zero (near : Near share number (.zero sign)) : number = 0 := by
  cases near with
  | zero _ nothing => exact nothing

theorem double_add (x y : Float) : double (x + y) = Decimal.stored Format.binary64
    (UnpackedFloat.add Format.binary64 (double x) (double y)) := rfl

theorem double_mul (x y : Float) : double (x * y) = Decimal.stored Format.binary64
    (UnpackedFloat.mul Format.binary64 (double x) (double y)) := rfl

theorem Near.add (near : Near share number (double x)) (near' : Near share number' (double y))
    (moderate : Moderate number) (moderate' : Moderate number')
    (enough : (1 + share) * (1 + roundOff) ≤ 1 + total)
    (enough' : 1 - total ≤ (1 - share) * (1 - roundOff)) (small : total ≤ 1 / 2) :
    Near total (number + number') (double (x + y)) := by
  have nonneg := moderate.nonneg
  have nonneg' := moderate'.nonneg
  have canonical := canonical_add (canonical_double x) (canonical_double y)
  have less : share ≤ total := by nlinarith [show (0 : ℚ) ≤ roundOff by norm_num [roundOff]]
  rw [double_add]
  refine Near.stored ?_ canonical (by linarith) (by linarith) ?_
  · generalize double x = float at near
    generalize double y = float' at near'
    cases float with
    | notANumber | infinity => cases near
    | zero sign =>
        cases near.eq_zero
        rw [zero_add]
        cases float' with
        | notANumber | infinity => cases near'
        | zero sign' => cases sign <;> cases sign' <;> exact .zero _ near'.eq_zero
        | finite => exact near'.mono nonneg' less
    | finite sign mantissa exponent positive =>
        cases float' with
        | notANumber | infinity => cases near'
        | zero sign' =>
            cases near'.eq_zero
            rw [add_zero]
            exact near.mono nonneg less
        | finite sign' mantissa' exponent' positive' =>
            cases near with
            | finite low high =>
                cases near' with
                | finite low' high' =>
                    have some_exact := scaled_pos positive exponent
                    have bounds := moderate.approximate some_exact low high (less.trans small)
                    refine (rounds_add positive positive' _).near ?_ (add_nonneg nonneg nonneg')
                      (mul_add (1 - share) number number' ▸ add_le_add low low')
                      (mul_add (1 + share) number number' ▸ add_le_add high high') enough enough'
                    refine le_trans ?_ (le_add_of_nonneg_right (scaled_pos positive' exponent').le)
                    exact (two_zpow_le (by norm_num)).trans bounds.1
  · refine (add_le_add moderate.le moderate'.le).trans ?_
    rw [← two_mul, ← zpow_one_add₀ (by norm_num)]
    exact two_zpow_le (by norm_num)

/-- A double that is not too small uses all bits of its mantissa. -/
theorem log2_of_moderate {mantissa : Nat} {exponent : Int} {positive : 0 < mantissa}
    (canonical : Canonical Format.binary64 (.finite sign mantissa exponent positive))
    (least : 2 ^ (-201 : Int) ≤ scaled mantissa exponent) : mantissa.log2 = 52 := by
  have lowest := minExponent_binary64
  have precise := mantissaBits_binary64
  have above := (zpow_lt_zpow_iff_right₀ (by norm_num : (1 : ℚ) < 2)).1
    (least.trans_lt ((scaled_lt_succ _ _).trans_le (succ_scaled_le mantissa exponent)))
  rw [Canonical, Format.targetExponent, totalExponent] at canonical
  rw [totalExponent] at above
  omega

/-- A product of full mantissas has no digit in lower places than the format. -/
theorem product_low {mantissa mantissa' : Nat} (exponent : Int) (positive : 0 < mantissa)
    (positive' : 0 < mantissa') (full : mantissa.log2 = 52) (full' : mantissa'.log2 = 52) :
    exponent ≤
      Format.binary64.targetExponent (totalExponent (mantissa * mantissa') exponent) := by
  have precise := mantissaBits_binary64
  have least := Nat.mul_le_mul (Nat.log2_self_le positive.ne') (Nat.log2_self_le positive'.ne')
  rw [full, full', ← Nat.pow_add] at least
  have digits := (Nat.le_log2 (Nat.mul_pos positive positive').ne').2 least
  rw [Format.targetExponent, totalExponent]
  omega

theorem Near.mul (near : Near share number (double x)) (near' : Near share' number' (double y))
    (moderate : Moderate number) (moderate' : Moderate number') (small : share ≤ 1 / 2)
    (small' : share' ≤ 1 / 2) (few : total ≤ 1 / 2)
    (enough : (1 + share) * (1 + share') * (1 + roundOff) ≤ 1 + total)
    (enough' : 1 - total ≤ (1 - share) * (1 - share') * (1 - roundOff)) :
    Near total (number * number') (double (x * y)) := by
  have nonneg := moderate.nonneg
  have nonneg' := moderate'.nonneg
  have canonical := canonical_double x
  have canonical' := canonical_double y
  rw [double_mul]
  generalize double x = float at near canonical
  generalize double y = float' at near' canonical'
  cases near with
  | zero sign nothing =>
      rw [nothing, zero_mul]
      cases near' with
      | zero | finite => exact (IsZero.zero _).near
  | finite low high =>
      rename_i mantissa exponent positive
      cases near' with
      | zero sign nothing =>
          rw [nothing, mul_zero]
          exact (IsZero.zero _).near
      | finite low' high' =>
          rename_i mantissa' exponent' positive'
          have bounds := moderate.approximate (scaled_pos positive exponent) low high small
          have bounds' := moderate'.approximate (scaled_pos positive' exponent') low' high' small'
          have rounds := rounds_mul positive positive' (product_low (exponent + exponent') positive
            positive' (log2_of_moderate canonical bounds.1) (log2_of_moderate canonical' bounds'.1))
          refine Near.stored ?_ rounds.canonical (by linarith) (mul_nonneg nonneg nonneg') ?_
          · refine rounds.near ?_ (mul_nonneg nonneg nonneg') ?_ ?_ enough enough'
            · refine le_trans ?_ (mul_le_mul bounds.1 bounds'.1 (two_zpow_pos _).le
                (scaled_pos positive exponent).le)
              rw [← zpow_add₀ (by norm_num)]
              exact two_zpow_le (by norm_num)
            · rw [mul_mul_mul_comm]
              exact mul_le_mul low low' (mul_nonneg (by linarith) nonneg')
                (scaled_pos positive exponent).le
            · rw [mul_mul_mul_comm (1 + share)]
              exact mul_le_mul high high' (scaled_pos positive' exponent').le
                ((scaled_pos positive exponent).le.trans high)
          · refine (mul_le_mul moderate.le moderate'.le nonneg' (two_zpow_pos _).le).trans ?_
            rw [← zpow_add₀ (by norm_num)]
            exact two_zpow_le (by norm_num)

theorem Near.div (near : Near share number (double x)) (near' : Near share' number' (double y))
    (moderate : Moderate number) (moderate' : Moderate number') (some_number' : 0 < number')
    (small : share ≤ 1 / 2) (small' : share' ≤ 1 / 2) (few : total ≤ 1 / 2)
    (enough : (1 + share) / (1 - share') * (1 + roundOff) ≤ 1 + total)
    (enough' : 1 - total ≤ (1 - share) / (1 + share') * (1 - roundOff)) :
    Near total (number / number') (double (x / y)) := by
  have nonneg := moderate.nonneg
  rw [double_div]
  generalize double x = float at near
  generalize double y = float' at near'
  cases near' with
  | zero sign nothing => exact absurd nothing some_number'.ne'
  | finite low' high' =>
      rename_i mantissa' exponent' positive'
      cases near with
      | zero sign nothing =>
          rw [nothing, zero_div]
          exact (IsZero.zero _).near
      | finite low high =>
          rename_i mantissa exponent positive
          have bounds := moderate.approximate (scaled_pos positive exponent) low high small
          have bounds' := moderate'.approximate (scaled_pos positive' exponent') low' high' small'
          have rounds := rounds_div positive positive' exponent exponent' Format.binary64
          refine Near.stored ?_ rounds.canonical (by linarith) (div_nonneg nonneg some_number'.le) ?_
          · refine rounds.near ?_ (div_nonneg nonneg some_number'.le) ?_ ?_ enough enough'
            · rw [le_div_iff₀ (scaled_pos positive' exponent')]
              refine (mul_le_mul_of_nonneg_left bounds'.2 (two_zpow_pos _).le).trans ?_
              rw [← zpow_add₀ (by norm_num)]
              exact (two_zpow_le (by norm_num)).trans bounds.1
            · rw [div_mul_div_comm]
              exact div_le_div₀ (scaled_pos positive exponent).le low
                (scaled_pos positive' exponent') high'
            · rw [div_mul_div_comm]
              exact div_le_div₀ ((scaled_pos positive exponent).le.trans high) high
                (mul_pos (by linarith) some_number') low'
          · rw [div_le_iff₀ some_number']
            refine le_trans ?_ (mul_le_mul_of_nonneg_left
              (moderate'.resolve_left some_number'.ne').1 (two_zpow_pos _).le)
            rw [← zpow_add₀ (by norm_num)]
            exact moderate.le.trans (two_zpow_le (by norm_num))

end Doubles

/-! ## Operands -/

section Operands

variable {x y : Float32} {number share : ℚ}

/-- The value of a single that is not negative. -/
def value (x : Float32) : ℚ := extent (single x)

theorem double_widen (x : Float32) : double (widen x) =
    stored Format.binary64 (stored Format.binary64 (rounded Format.binary64 (single x))) := rfl

theorem near_toFloat {count : UInt64} (positive : 0 < count) :
    Near roundOff count.toNat (double count.toFloat) := by
  have some_count : 0 < count.toNat := UInt64.lt_iff_toNat_lt.1 positive
  have same : scaled count.toNat 0 = count.toNat := by rw [scaled, zpow_zero, mul_one]
  rw [(double_toFloat_eq positive).1]
  have rounds := rounds_round some_count Format.binary64 0 .positive
  rw [same] at rounds
  refine rounds.near ?_ (Nat.cast_nonneg _) (one_mul _).le (one_mul _).ge (one_mul _).le (one_mul _).ge
  exact (zpow_le_one_of_nonpos₀ (by norm_num) (by norm_num)).trans (mod_cast some_count)

theorem zero_or_finite_of_nonneg (nonneg : 0 ≤ x) (finite : x.isFinite = true) :
    (∃ sign, single x = .zero sign) ∨
      ∃ mantissa exponent positive, single x = .finite .positive mantissa exponent positive := by
  rw [single_le] at nonneg
  change (single x).isFinite = true at finite
  generalize single x = float at nonneg finite
  cases float with
  | notANumber => cases nonneg
  | infinity sign => cases finite
  | zero sign => exact .inl ⟨sign, rfl⟩
  | finite sign mantissa exponent positive =>
      cases sign with
      | negative => cases nonneg
      | positive => exact .inr ⟨mantissa, exponent, positive, rfl⟩

theorem nonneg_single (nonneg : 0 ≤ x) (finite : x.isFinite = true) : Nonneg (single x) := by
  rcases zero_or_finite_of_nonneg nonneg finite with ⟨sign, same⟩ | ⟨_, _, positive, same⟩
  · exact same ▸ .zero sign
  · exact same ▸ .finite positive

theorem single_bounds {mantissa : Nat} {exponent : Int} {positive : 0 < mantissa}
    (same : single x = .finite .positive mantissa exponent positive) :
    -149 ≤ exponent ∧ exponent ≤ 104 ∧ mantissa < 2 ^ 24 := by
  have canonical := canonical_single x
  have small := exponent_unpack (by decide) same
  rw [same] at canonical
  have few := lt_two_pow_mantissaBits canonical positive
  have lowest : Format.binary32.minExponent = -149 := by decide
  have bias : Format.binary32.exponentBias = 127 := by decide
  have bits : Format.binary32.mantissaBitsWithoutImplicit = 23 := rfl
  have least := minExponent_le_targetExponent Format.binary32 (totalExponent mantissa exponent)
  rw [← canonical] at least
  exact ⟨by omega, by omega, few⟩

theorem inRange_value (nonneg : 0 ≤ x) (finite : x.isFinite = true) : InRange (-149) 128 (value x) := by
  rw [value]
  rcases zero_or_finite_of_nonneg nonneg finite with ⟨sign, same⟩ | ⟨mantissa, exponent, positive, same⟩
  · rw [same]
    exact .inl rfl
  · obtain ⟨least, most, few⟩ := single_bounds same
    rw [same]
    refine .inr ⟨?_, ?_⟩
    · calc (2 : ℚ) ^ (-149 : Int) ≤ 2 ^ exponent := two_zpow_le least
        _ = scaled 1 exponent := by rw [scaled, Nat.cast_one, one_mul]
        _ ≤ scaled mantissa exponent := scaled_le positive exponent
    · calc scaled mantissa exponent ≤ scaled (2 ^ 24) exponent := scaled_le few.le exponent
        _ = 2 ^ (24 + exponent) := scaled_two_pow 24 exponent
        _ ≤ 2 ^ (128 : Int) := two_zpow_le (by omega)

theorem near_widen (nonneg : 0 ≤ x) (finite : x.isFinite = true) :
    Near roundOff (value x) (double (widen x)) := by
  have range := inRange_value nonneg finite
  rw [double_widen]
  rcases zero_or_finite_of_nonneg nonneg finite with ⟨sign, same⟩ | ⟨mantissa, exponent, positive, same⟩
  · rw [value, same]
    exact (IsZero.zero sign).stored.near
  · have rounds := rounds_round positive Format.binary64 exponent .positive
    have exact : value x = scaled mantissa exponent := by rw [value, same]; rfl
    obtain ⟨least, most⟩ := range.resolve_left (exact ▸ (scaled_pos positive exponent).ne')
    rw [← exact] at rounds
    have near : Near roundOff (value x) (rounded Format.binary64 (single x)) := by
      rw [same]
      exact rounds.near ((two_zpow_le (by norm_num)).trans least) range.nonneg (one_mul _).le
        (one_mul _).ge (one_mul _).le (one_mul _).ge
    have small : value x ≤ 2 ^ (500 : Int) := most.trans (two_zpow_le (by norm_num))
    have some_share : roundOff ≤ 1 := by norm_num [roundOff]
    refine (near.stored ?_ some_share range.nonneg small).stored (canonical_unpack _) some_share
      range.nonneg small
    rw [same]
    exact rounds.canonical

/-! ## Narrowing -/

theorem height_le_of_scaled_le {spec : Format} {mantissa mantissa' : Nat} {exponent exponent' : Int}
    {positive : 0 < mantissa} {positive' : 0 < mantissa'}
    (canonical : Canonical spec (.finite .positive mantissa exponent positive))
    (canonical' : Canonical spec (.finite .positive mantissa' exponent' positive'))
    (le : scaled mantissa exponent ≤ scaled mantissa' exponent') :
    height (.finite .positive mantissa exponent positive) ≤
      height (.finite .positive mantissa' exponent' positive') := by
  have places : spec.targetExponent _ ≤ spec.targetExponent _ :=
    targetExponent_mono (totalExponent_le_of_scaled positive le)
  rw [← canonical, ← canonical'] at places
  rw [height, height, Prod.Lex.toLex_le_toLex, Prod.Lex.toLex_le_toLex]
  refine .inr ⟨rfl, places.lt_or_eq.imp_right fun level => ⟨level, ?_⟩⟩
  have same : exponent = exponent' := level
  rw [scaled, scaled, same, mul_le_mul_iff_left₀ (two_zpow_pos exponent')] at le
  exact Int.ofNat_le.2 (mod_cast le)

theorem le_of_height (nonneg : Nonneg (single x)) (nonneg' : Nonneg (single y))
    (le : height (single x) ≤ height (single y)) : x ≤ y :=
  (le_iff_height nonneg.isNaN nonneg'.isNaN).2 le

theorem height_zero_le {zero float : UnpackedFloat} (none : IsZero zero) (nonneg : Nonneg float) :
    height zero ≤ height float := by
  cases none with
  | zero =>
      cases nonneg with
      | zero => exact le_rfl
      | finite | infinity =>
          rw [height, height, Prod.Lex.toLex_le_toLex]
          exact .inl (by norm_num)

theorem Near.nonneg {float : UnpackedFloat} (near : Near share number float) : Nonneg float := by
  cases near with
  | zero sign => exact .zero sign
  | finite => exact .finite _

/-- A float that is stored twice is what it was, or infinite. -/
theorem stored_stored {spec : Format} {float : UnpackedFloat} (nonneg : Nonneg float)
    (canonical : Canonical spec float) :
    stored spec (stored spec float) = float ∨ stored spec (stored spec float) = .infinity .positive := by
  cases nonneg with
  | zero sign => exact .inl (by rw [stored_zero, stored_zero])
  | infinity => exact .inl (by rw [stored_infinity, stored_infinity])
  | finite positive =>
      rw [stored_finite canonical]
      split
      · rename_i small
        exact .inl (by rw [stored_finite canonical, if_pos small])
      · exact .inr (stored_infinity _)

theorem single_narrow_finite {u : Float} {mantissa : Nat} {exponent : Int} {positive : 0 < mantissa}
    (same : double u = .finite .positive mantissa exponent positive) : single (narrow u) =
      stored Format.binary32 (stored Format.binary32
        (UnpackedFloat.round Format.binary32 .positive mantissa exponent)) := by
  rw [single_narrow, same]
  rfl

/-- The share of a mantissa of a single that is less than half of a bit. -/
theorem share_mul_lt {mantissa : Nat} (few : mantissa < 2 ^ 24) (small : share ≤ 1 / 2 ^ 27) :
    share * mantissa ≤ 1 / 8 := by
  have whole : (mantissa : ℚ) ≤ 2 ^ 24 := mod_cast few.le
  calc share * mantissa ≤ 1 / 2 ^ 27 * 2 ^ 24 := by gcongr
    _ = 1 / 8 := by norm_num

theorem Near.le_narrow {u : Float} (near : Near share number (double u)) (nonneg : 0 ≤ x)
    (finite : x.isFinite = true) (small : share ≤ 1 / 2 ^ 27) (le : value x ≤ number) :
    x ≤ narrow u := by
  have canonical := canonical_single x
  have nonneg' := nonneg_narrow near.nonneg
  refine le_of_height (nonneg_single nonneg finite) nonneg' ?_
  rcases zero_or_finite_of_nonneg nonneg finite with ⟨sign, same⟩ | ⟨mantissa, exponent, positive, same⟩
  · have zero : IsZero (single x) := same ▸ .zero sign
    exact height_zero_le zero nonneg'
  · obtain ⟨-, -, few⟩ := single_bounds same
    have unit := two_zpow_pos exponent
    rw [value, same, extent] at le
    rw [same] at canonical ⊢
    have some_number := (scaled_pos positive exponent).trans_le le
    generalize found : double u = float at near
    cases near with
    | zero sign nothing => exact absurd nothing some_number.ne'
    | finite low high =>
        rename_i mantissa' exponent' positive'
        have rounds := rounds_round positive' Format.binary32 exponent' .positive
        have notBelow : NotBelow Format.binary32 mantissa exponent (scaled mantissa' exponent') := by
          have some_reach : (1 : ℚ) ≤ reach Format.binary32 mantissa exponent :=
            mod_cast (reach_le Format.binary32 mantissa exponent).1
          have off := share_mul_lt few small
          left
          calc (4 * mantissa - reach Format.binary32 mantissa exponent) * (2 : ℚ) ^ exponent
              < 4 * ((1 - share) * mantissa) * 2 ^ exponent := by gcongr; linarith
            _ = 4 * ((1 - share) * scaled mantissa exponent) := by rw [scaled]; ring
            _ ≤ 4 * ((1 - share) * number) := by gcongr; linarith
            _ ≤ 4 * scaled mantissa' exponent' := by gcongr
        have reached := rounds.le_extent canonical notBelow
        have canonical' := rounds.canonical
        rw [single_narrow_finite found]
        rcases stored_stored (nonneg_round exponent') canonical' with same | infinite
        · rw [same]
          rcases rounds.zero_or_finite with none | ⟨last, final, some_left, round⟩
          · rw [none] at reached
            exact absurd reached (scaled_pos positive exponent).not_ge
          · rw [round] at canonical' reached ⊢
            exact height_le_of_scaled_le canonical canonical' reached
        · rw [infinite, height, height, Prod.Lex.toLex_le_toLex]
          exact .inl (by norm_num)

theorem Near.narrow_le {u : Float} (near : Near share number (double u)) (nonneg : 0 ≤ x)
    (finite : x.isFinite = true) (some_share : 0 ≤ share) (small : share ≤ 1 / 2 ^ 27)
    (le : number ≤ value x) : narrow u ≤ x := by
  have canonical := canonical_single x
  have nonneg' := nonneg_single nonneg finite
  refine le_of_height (nonneg_narrow near.nonneg) nonneg' ?_
  generalize found : double u = float at near
  cases near with
  | zero sign nothing => exact height_zero_le (narrow_zero (found ▸ .zero sign)) nonneg'
  | finite low high =>
      rename_i mantissa' exponent' positive'
      have some_number : 0 < number :=
        pos_of_mul_pos_right ((scaled_pos positive' exponent').trans_le high) (by linarith)
      rcases zero_or_finite_of_nonneg nonneg finite with
        ⟨sign, same⟩ | ⟨mantissa, exponent, positive, same⟩
      · rw [value, same] at le
        exact absurd le some_number.not_ge
      · obtain ⟨-, most, few⟩ := single_bounds same
        have unit := two_zpow_pos exponent
        rw [value, same, extent] at le
        rw [same] at canonical nonneg' ⊢
        have rounds := rounds_round positive' Format.binary32 exponent' .positive
        have notAbove : NotAbove mantissa exponent (scaled mantissa' exponent') := by
          have off := share_mul_lt few small
          left
          calc 2 * scaled mantissa' exponent' ≤ 2 * ((1 + share) * number) := by gcongr
            _ ≤ 2 * ((1 + share) * scaled mantissa exponent) := by gcongr
            _ = 2 * ((1 + share) * mantissa) * 2 ^ exponent := by rw [scaled]; ring
            _ < (2 * mantissa + 1) * 2 ^ exponent := by gcongr; linarith
        have reached := rounds.extent_le canonical notAbove
        have canonical' := rounds.canonical
        rw [single_narrow_finite found]
        rcases rounds.zero_or_finite with none | ⟨last, final, some_left, round⟩
        · rw [none, stored_zero, stored_zero]
          exact height_zero_le (.zero _) nonneg'
        · rw [round] at canonical' reached ⊢
          have bits : Format.binary32.mantissaBitsWithoutImplicit = 23 := rfl
          have bias : Format.binary32.exponentBias = 127 := by decide
          have places : Format.binary32.targetExponent _ ≤ Format.binary32.targetExponent _ :=
            targetExponent_mono (totalExponent_le_of_scaled some_left reached)
          rw [← canonical', ← canonical] at places
          rw [stored_finite canonical', if_pos (by omega), stored_finite canonical',
            if_pos (by omega)]
          exact height_le_of_scaled_le canonical' canonical reached

end Operands

end OverlayRouting.Decimal
