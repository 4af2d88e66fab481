/-
# OverlayRouting.Proofs.Nearest -- a rounded number is the nearest one

A mantissa with its residual bits is before, at or behind every half as the number that it stands
for is (`Describes`), so what a float is rounded to depends on the number alone.  Every sum,
product and quotient `Rounds` its exact result.

A number is rounded to a float if it is neither below nor above what the float reaches
(`NotBelow`, `NotAbove`, `Rounds.eq_finite`), and rounding moves it by no more than half of the
last bit (`Rounds.close`).
-/
import OverlayRouting.Proofs.Magnitude

namespace OverlayRouting.Decimal

set_option autoImplicit false

open Float.Model (Format UnpackedFloat totalExponent)
open Float.Model.UnpackedFloat (ExtendedMantissa Accuracy)

/-! ## Values -/

/-- The number `mantissa * 2 ^ exponent`. -/
def scaled (mantissa : Nat) (exponent : Int) : ℚ := mantissa * 2 ^ exponent

/-- The value of a float without its sign; what is no finite number has none. -/
def extent : UnpackedFloat → ℚ
  | .finite _ mantissa exponent _ => scaled mantissa exponent
  | _ => 0

section Values

variable {mantissa : Nat} {exponent : Int}

theorem two_zpow_pos (exponent : Int) : (0 : ℚ) < 2 ^ exponent := zpow_pos (by norm_num) exponent

theorem two_zpow_le {low high : Int} (le : low ≤ high) : (2 : ℚ) ^ low ≤ 2 ^ high :=
  zpow_le_zpow_right₀ (by norm_num) le

theorem scaled_two_pow (bits : Nat) (exponent : Int) :
    scaled (2 ^ bits) exponent = 2 ^ (bits + exponent) := by
  rw [scaled, zpow_add₀ (by norm_num), zpow_natCast]
  push_cast
  rfl

theorem scaled_le {other : Nat} (le : mantissa ≤ other) (exponent : Int) :
    scaled mantissa exponent ≤ scaled other exponent :=
  mul_le_mul_of_nonneg_right (mod_cast le) (two_zpow_pos exponent).le

theorem scaled_lt_succ (mantissa : Nat) (exponent : Int) :
    scaled mantissa exponent < scaled (mantissa + 1) exponent :=
  mul_lt_mul_of_pos_right (mod_cast Nat.lt_succ_self mantissa) (two_zpow_pos exponent)

theorem succ_scaled_le (mantissa : Nat) (exponent : Int) :
    scaled (mantissa + 1) exponent ≤ 2 ^ totalExponent mantissa exponent := by
  have below : mantissa + 1 ≤ 2 ^ (mantissa.log2 + 1) := Nat.lt_log2_self
  refine (scaled_le below exponent).trans_eq ?_
  rw [scaled_two_pow, totalExponent]
  push_cast
  rfl

theorem scaled_mul_two_pow (mantissa : Nat) (exponent : Int) (bits : Nat) :
    scaled (mantissa * 2 ^ bits) (exponent - bits) = scaled mantissa exponent := by
  have room : (2 : ℚ) ^ bits ≠ 0 := pow_ne_zero _ (by norm_num)
  rw [scaled, scaled, zpow_sub₀ (by norm_num), zpow_natCast]
  push_cast
  field_simp

theorem scaled_mul_scaled (mantissa mantissa' : Nat) (exponent exponent' : Int) :
    scaled mantissa exponent * scaled mantissa' exponent' =
      scaled (mantissa * mantissa') (exponent + exponent') := by
  rw [scaled, scaled, scaled, zpow_add₀ (by norm_num)]
  push_cast
  ring

theorem le_scaled (exponent : Int) (positive : 0 < mantissa) :
    2 ^ (totalExponent mantissa exponent - 1) ≤ scaled mantissa exponent := by
  refine le_trans (le_of_eq ?_) (scaled_le (Nat.log2_self_le positive.ne') exponent)
  rw [scaled_two_pow, totalExponent]
  congr 1
  omega

theorem scaled_pos (positive : 0 < mantissa) (exponent : Int) : 0 < scaled mantissa exponent :=
  (two_zpow_pos _).trans_le (le_scaled exponent positive)

end Values

/-! ## A number between two mantissas -/

/-- A mantissa with its residual bits stands for a number: it is before, at or behind every half
as the number is. -/
def StandsFor (em : ExtendedMantissa) (w : ℚ) : Prop :=
  ∀ half : Nat, (place em < 2 * half ↔ 2 * w < half) ∧ (2 * half < place em ↔ (half : ℚ) < 2 * w)

theorem StandsFor.shiftRightOne {em : ExtendedMantissa} {w : ℚ} (stands : StandsFor em w) :
    StandsFor em.shiftRightOne (w / 2) := by
  intro half
  obtain ⟨before, behind⟩ := stands (2 * half)
  rw [place_shiftRightOne]
  push_cast at before behind
  constructor
  · rw [show 2 * (w / 2) < (half : ℚ) ↔ 2 * w < 2 * half by constructor <;> intro <;> linarith,
      ← before]
    omega
  · rw [show (half : ℚ) < 2 * (w / 2) ↔ (2 * half : ℚ) < 2 * w by constructor <;> intro <;> linarith,
      ← behind]
    omega

theorem StandsFor.shift {em : ExtendedMantissa} {w : ℚ} (stands : StandsFor em w) (bits : Nat) :
    StandsFor (em >>> bits) (w / 2 ^ bits) := by
  induction bits with
  | zero =>
      rw [pow_zero, div_one]
      exact stands
  | succ bits ih =>
      rw [shift_succ, pow_succ, ← div_div]
      exact ih.shiftRightOne

/-- The rounded mantissa is at most a number if there is at most half a unit between them, and
less if the number is odd. -/
theorem StandsFor.roundedMantissa_le_iff {em : ExtendedMantissa} {w : ℚ} (stands : StandsFor em w)
    (n : Nat) : em.roundedMantissa ≤ n ↔ 2 * w < 2 * n + 1 ∨ 2 * w = 2 * n + 1 ∧ n % 2 = 0 := by
  obtain ⟨before, behind⟩ := stands (2 * n + 1)
  push_cast at before behind
  have same : 2 * w = 2 * n + 1 ↔ place em = 2 * (2 * n + 1) := by
    constructor
    · intro equal
      have := mt before.1 equal.not_lt
      have := mt behind.1 equal.symm.not_lt
      omega
    · intro equal
      exact le_antisymm (not_lt.1 (mt behind.2 (by omega))) (not_lt.1 (mt before.2 (by omega)))
  rw [same, ← before, roundedMantissa_eq]
  omega

theorem StandsFor.bounds {em : ExtendedMantissa} {w : ℚ} (stands : StandsFor em w) :
    em.mantissa ≤ w ∧ w < em.mantissa + 1 := by
  have low := (stands (2 * em.mantissa)).1
  have high := (stands (2 * (em.mantissa + 1))).1
  push_cast at low high
  have some_bits : 4 * em.mantissa ≤ place em ∧ place em < 4 * (em.mantissa + 1) := by
    obtain ⟨mantissa, _ | _, _ | _⟩ := em <;> simp [place] <;> omega
  constructor
  · have := mt low.2 (by omega)
    linarith
  · have := high.1 (by omega)
    linarith

/-- A mantissa with some accuracy describes a number in units of `2 ^ exponent`. -/
def Describes (mantissa : Nat) (exponent : Int) (accuracy : Accuracy) (number : ℚ) : Prop :=
  StandsFor (.ofMantissaAndAccuracy mantissa accuracy) (number / 2 ^ exponent)

theorem describes_exact (mantissa : Nat) (exponent : Int) :
    Describes mantissa exponent .exact (scaled mantissa exponent) := by
  intro half
  have same : scaled mantissa exponent / 2 ^ exponent = mantissa :=
    mul_div_cancel_right₀ _ (two_zpow_pos exponent).ne'
  have whole : place (.ofMantissaAndAccuracy mantissa .exact) = 4 * mantissa := by
    simp [place, ExtendedMantissa.ofMantissaAndAccuracy]
  rw [same, whole]
  constructor
  · rw [show 4 * mantissa < 2 * half ↔ 2 * mantissa < half by omega]
    exact_mod_cast Iff.rfl
  · rw [show 2 * half < 4 * mantissa ↔ half < 2 * mantissa by omega]
    exact_mod_cast Iff.rfl

/-! ## Rounding -/

section Nearest

variable {spec : Format} {mantissa : Nat} {exponent : Int} {accuracy : Accuracy} {number : ℚ}

theorem Describes.lt (describes : Describes mantissa exponent accuracy number) :
    number < 2 ^ totalExponent mantissa exponent := by
  have below := describes.bounds.2
  rw [mantissa_ofMantissaAndAccuracy, div_lt_iff₀ (two_zpow_pos exponent)] at below
  refine below.trans_le ?_
  have le := succ_scaled_le mantissa exponent
  rwa [scaled, Nat.cast_succ] at le

theorem Describes.le (describes : Describes mantissa exponent accuracy number)
    (positive : 0 < mantissa) : 2 ^ (totalExponent mantissa exponent - 1) ≤ number := by
  have above := describes.bounds.1
  rw [mantissa_ofMantissaAndAccuracy, le_div_iff₀ (two_zpow_pos exponent)] at above
  exact (le_scaled _ positive).trans above

/-- The nearest mantissa is at most a number if there is at most half a unit between them, and less
if the number is odd. -/
theorem Describes.nearest_le_iff (describes : Describes mantissa exponent accuracy number)
    (spec : Format) (n : Nat) :
    nearest spec mantissa exponent accuracy ≤ n ↔
      2 * number < (2 * n + 1) * 2 ^ raised spec mantissa exponent ∨
        2 * number = (2 * n + 1) * 2 ^ raised spec mantissa exponent ∧ n % 2 = 0 := by
  have unit := two_zpow_pos (raised spec mantissa exponent)
  rw [nearest, (describes.shift _).roundedMantissa_le_iff, div_div, ← zpow_natCast,
    ← zpow_add₀ (by norm_num), ← raised, ← mul_div_assoc, div_lt_iff₀ unit, div_eq_iff unit.ne']

theorem Describes.le_nearest (describes : Describes mantissa exponent accuracy number) {n : Nat}
    (positive : 0 < n) (above : (2 * n - 1) * 2 ^ raised spec mantissa exponent < 2 * number ∨
      (2 * n - 1) * 2 ^ raised spec mantissa exponent = 2 * number ∧ n % 2 = 0) :
    n ≤ nearest spec mantissa exponent accuracy := by
  by_contra less
  obtain ⟨m, rfl⟩ : ∃ m, n = m + 1 := ⟨n - 1, by omega⟩
  rw [not_le, Nat.lt_succ_iff, describes.nearest_le_iff] at less
  push_cast at above
  rw [show (2 * ((m : ℚ) + 1) - 1) = 2 * m + 1 by ring] at above
  rcases above with above | ⟨above, even⟩ <;> rcases less with less | ⟨less, even'⟩
  · exact lt_asymm above less
  · exact above.ne less.symm
  · exact less.ne above.symm
  · omega

/-- The nearest mantissa is at most half a unit away. -/
theorem Describes.close_to_nearest (describes : Describes mantissa exponent accuracy number)
    (spec : Format) (nonneg : 0 ≤ number) :
    2 * number ≤ (2 * nearest spec mantissa exponent accuracy + 1) *
        2 ^ raised spec mantissa exponent ∧
      (2 * nearest spec mantissa exponent accuracy - 1) * 2 ^ raised spec mantissa exponent ≤
        2 * number := by
  have unit := two_zpow_pos (raised spec mantissa exponent)
  have above := (describes.nearest_le_iff spec _).1 le_rfl
  refine ⟨above.elim le_of_lt fun equal => equal.1.le, ?_⟩
  cases found : nearest spec mantissa exponent accuracy with
  | zero =>
      rw [Nat.cast_zero]
      linarith
  | succ n =>
      have below := mt (describes.nearest_le_iff spec n).2 (by omega)
      rw [not_or, not_lt] at below
      push_cast
      linarith [below.1]

theorem Describes.nearest_le (describes : Describes mantissa exponent accuracy number)
    (low : exponent ≤ spec.targetExponent (totalExponent mantissa exponent)) :
    nearest spec mantissa exponent accuracy ≤ 2 ^ spec.mantissaBits := by
  rw [describes.nearest_le_iff, raised_eq low]
  have room := Int.le_max_left (totalExponent mantissa exponent - spec.mantissaBits)
    spec.minExponent
  rw [← Format.targetExponent] at room
  have below : number < scaled (2 ^ spec.mantissaBits)
      (spec.targetExponent (totalExponent mantissa exponent)) := by
    rw [scaled_two_pow]
    exact describes.lt.trans_le (two_zpow_le (by omega))
  have unit := two_zpow_pos (spec.targetExponent (totalExponent mantissa exponent))
  rw [scaled] at below
  left
  linarith

/-- A number is rounded to the nearest mantissa in units of the format, which after a carry is
half as many units of twice the size. -/
theorem Describes.extent_rounded (describes : Describes mantissa exponent accuracy number)
    (low : exponent ≤ spec.targetExponent (totalExponent mantissa exponent))
    (sign : UnpackedFloat.Sign) :
    extent (UnpackedFloat.roundWithAccuracy spec sign mantissa exponent accuracy) =
      scaled (nearest spec mantissa exponent accuracy)
        (spec.targetExponent (totalExponent mantissa exponent)) := by
  have most := describes.nearest_le low
  have least := minExponent_le_targetExponent spec (totalExponent mantissa exponent)
  obtain ⟨rounded, found⟩ : ∃ rounded, nearest spec mantissa exponent accuracy = rounded := ⟨_, rfl⟩
  rw [roundWithAccuracy_eq sign found]
  rw [found] at most ⊢
  rw [raised_eq low]
  generalize spec.targetExponent (totalExponent mantissa exponent) = unit at least ⊢
  have dropped : excess spec rounded unit =
      (spec.targetExponent (rounded.log2 + 1 + unit) - unit).toNat := rfl
  rcases Nat.lt_or_eq_of_le most with below | carried
  · have none_dropped : excess spec rounded unit = 0 := by
      by_cases nothing : rounded = 0
      · rw [dropped, nothing, Nat.log2_zero, Format.targetExponent, Format.mantissaBits]
        omega
      · have := (Nat.log2_lt nothing).2 below
        rw [dropped, Format.targetExponent]
        omega
    rw [raised, none_dropped]
    by_cases nothing : rounded = 0
    · simp [nothing, extent, scaled]
    · simp [nothing, extent]
  · have one_dropped : excess spec rounded unit = 1 := by
      rw [dropped, carried, Nat.log2_two_pow, Format.targetExponent]
      omega
    have precise : spec.mantissaBits = spec.mantissaBitsWithoutImplicit + 1 := Nat.add_comm _ _
    have half : rounded / 2 ^ 1 = 2 ^ spec.mantissaBitsWithoutImplicit := by
      rw [carried, precise, Nat.pow_succ, Nat.pow_one, Nat.mul_div_cancel _ (by decide)]
    rw [raised, one_dropped, dif_neg (by rw [half]; exact (Nat.two_pow_pos _).ne'), extent, half,
      scaled_two_pow, carried, scaled_two_pow, precise]
    congr 1
    push_cast
    omega

end Nearest

/-! ## Numbers that round to a float or stop before it -/

/-- A number is at most half a unit above a mantissa, and less if that is odd. -/
def NotAbove (mantissa : Nat) (exponent : Int) (number : ℚ) : Prop :=
  2 * number < (2 * mantissa + 1) * 2 ^ exponent ∨
    2 * number = (2 * mantissa + 1) * 2 ^ exponent ∧ mantissa % 2 = 0

/-- How far down a mantissa reaches, in quarters of a unit: half a unit, but only a quarter where
the floats below it stand closer, as they do below a power of two. -/
def reach (spec : Format) (mantissa : Nat) (exponent : Int) : Nat :=
  if mantissa = 2 ^ spec.mantissaBitsWithoutImplicit ∧ spec.minExponent < exponent then 1 else 2

theorem reach_le (spec : Format) (mantissa : Nat) (exponent : Int) :
    0 < reach spec mantissa exponent ∧ reach spec mantissa exponent ≤ 2 := by
  rw [reach]
  split <;> omega

/-- A number is not below what a mantissa reaches, and above it if that is odd. -/
def NotBelow (spec : Format) (mantissa : Nat) (exponent : Int) (number : ℚ) : Prop :=
  (4 * mantissa - reach spec mantissa exponent) * 2 ^ exponent < 4 * number ∨
    (4 * mantissa - reach spec mantissa exponent) * 2 ^ exponent = 4 * number ∧ mantissa % 2 = 0

section Owned

variable {spec : Format} {mantissa : Nat} {exponent : Int} {accuracy : Accuracy} {number : ℚ}
  {mantissa' : Nat} {exponent' : Int}

theorem lt_two_pow_mantissaBits
    (canonical : exponent' = spec.targetExponent (totalExponent mantissa' exponent'))
    (positive' : 0 < mantissa') : mantissa' < 2 ^ spec.mantissaBits := by
  refine (Nat.log2_lt positive'.ne').1 ?_
  rw [Format.targetExponent, totalExponent] at canonical
  omega

/-- A number in coarser units than a float lies above all that rounds to the float. -/
theorem Describes.le_of_coarser (describes : Describes mantissa exponent accuracy number)
    (low : exponent ≤ spec.targetExponent (totalExponent mantissa exponent))
    (canonical : exponent' = spec.targetExponent (totalExponent mantissa' exponent'))
    (coarser : exponent' < spec.targetExponent (totalExponent mantissa exponent)) :
    2 ^ (spec.mantissaBits + spec.targetExponent (totalExponent mantissa exponent) - 1) ≤ number := by
  have least := minExponent_le_targetExponent spec (totalExponent mantissa' exponent')
  rcases targetExponent_cases spec (totalExponent mantissa exponent) with lowest | ⟨-, normal⟩
  · omega
  · have positive : 0 < mantissa := by
      by_contra none
      rw [Nat.eq_zero_of_not_pos none] at normal low
      have few := spec.hm
      simp only [totalExponent, Nat.log2_zero, Format.mantissaBits] at normal low
      omega
    refine le_trans (two_zpow_le ?_) (describes.le positive)
    omega

/-- What is not above a float is not rounded to anything above it. -/
theorem Describes.extent_le (describes : Describes mantissa exponent accuracy number)
    (low : exponent ≤ spec.targetExponent (totalExponent mantissa exponent))
    (canonical : exponent' = spec.targetExponent (totalExponent mantissa' exponent'))
    (positive' : 0 < mantissa') (notAbove : NotAbove mantissa' exponent' number)
    (sign : UnpackedFloat.Sign) :
    extent (UnpackedFloat.roundWithAccuracy spec sign mantissa exponent accuracy) ≤
      scaled mantissa' exponent' := by
  have few := lt_two_pow_mantissaBits canonical positive'
  have same := describes.nearest_le_iff spec mantissa'
  rw [describes.extent_rounded low]
  rw [raised_eq low] at same
  rcases Int.lt_trichotomy (spec.targetExponent (totalExponent mantissa exponent)) exponent'
    with finer | level | coarser
  · -- rounding does not carry beyond the next power of two
    have normal := targetExponent_cases spec (totalExponent mantissa' exponent')
    have least := minExponent_le_targetExponent spec (totalExponent mantissa exponent)
    refine (scaled_le (describes.nearest_le low) _).trans (le_trans ?_ (le_scaled _ positive'))
    rw [scaled_two_pow]
    exact two_zpow_le (by omega)
  · rw [level] at same ⊢
    exact scaled_le (same.2 notAbove) exponent'
  · exfalso
    have above : (2 : ℚ) ^ (spec.mantissaBits + exponent') ≤ number :=
      (two_zpow_le (by omega)).trans (describes.le_of_coarser low canonical coarser)
    have unit := two_zpow_pos exponent'
    rw [zpow_add₀ (by norm_num), zpow_natCast] at above
    have whole : (mantissa' : ℚ) + 1 ≤ 2 ^ spec.mantissaBits := mod_cast few
    have := mul_le_mul_of_nonneg_right whole unit.le
    rcases notAbove with less | ⟨equal, -⟩ <;> linarith

/-- Half a unit is the most that a float reaches down. -/
theorem NotBelow.half (notBelow : NotBelow spec mantissa' exponent' number) :
    (2 * mantissa' - 1) * 2 ^ exponent' < 2 * number ∨
      (2 * mantissa' - 1) * 2 ^ exponent' = 2 * number ∧ mantissa' % 2 = 0 := by
  have unit := two_zpow_pos exponent'
  rw [NotBelow, reach] at notBelow
  split at notBelow
  · left
    rcases notBelow with above | ⟨equal, -⟩ <;> push_cast at * <;> linarith
  · rcases notBelow with above | ⟨equal, even⟩
    · left
      push_cast at above
      linarith
    · refine .inr ⟨?_, even⟩
      push_cast at equal
      linarith

theorem NotBelow.pos (notBelow : NotBelow spec mantissa' exponent' number) (positive' : 0 < mantissa') :
    0 < number := by
  have some_unit : (1 : ℚ) ≤ mantissa' := mod_cast positive'
  have := mul_le_mul_of_nonneg_right some_unit (two_zpow_pos exponent').le
  have unit := two_zpow_pos exponent'
  rcases notBelow.half with half | ⟨half, -⟩ <;> linarith

/-- A number in finer units than a float that it is not below lies right below a power of two, and
its units are half as large. -/
theorem Describes.carried_of_finer (describes : Describes mantissa exponent accuracy number)
    (canonical : exponent' = spec.targetExponent (totalExponent mantissa' exponent'))
    (positive' : 0 < mantissa') (notBelow : NotBelow spec mantissa' exponent' number)
    (finer : spec.targetExponent (totalExponent mantissa exponent) < exponent') :
    mantissa' = 2 ^ spec.mantissaBitsWithoutImplicit ∧
      spec.targetExponent (totalExponent mantissa exponent) = exponent' - 1 ∧
      (4 * mantissa' - 1) * 2 ^ exponent' ≤ 4 * number := by
  have least := minExponent_le_targetExponent spec (totalExponent mantissa exponent)
  have normal := targetExponent_cases spec (totalExponent mantissa' exponent')
  have precise : spec.mantissaBits = spec.mantissaBitsWithoutImplicit + 1 := Nat.add_comm _ _
  have unit := two_zpow_pos exponent'
  have place : totalExponent mantissa' exponent' = mantissa'.log2 + 1 + exponent' := rfl
  have digits : mantissa'.log2 = spec.mantissaBitsWithoutImplicit := by omega
  have above : 2 ^ spec.mantissaBitsWithoutImplicit ≤ mantissa' :=
    digits ▸ Nat.log2_self_le positive'.ne'
  have lower : totalExponent mantissa exponent ≤ totalExponent mantissa' exponent' - 1 := by
    by_contra higher
    have level : totalExponent mantissa' exponent' ≤ totalExponent mantissa exponent := by omega
    have coarser : spec.targetExponent _ ≤ spec.targetExponent _ := targetExponent_mono level
    omega
  have below : number < 2 ^ spec.mantissaBitsWithoutImplicit * 2 ^ exponent' := by
    rw [← zpow_natCast, ← zpow_add₀ (by norm_num)]
    exact describes.lt.trans_le (two_zpow_le (by omega))
  have power : mantissa' = 2 ^ spec.mantissaBitsWithoutImplicit := by
    refine le_antisymm (not_lt.1 fun more => ?_) above
    have next : (2 : ℚ) ^ spec.mantissaBitsWithoutImplicit + 1 ≤ mantissa' := mod_cast more
    have := mul_le_mul_of_nonneg_right next unit.le
    rcases notBelow.half with half | ⟨half, -⟩ <;> linarith
  have close : (4 * mantissa' - 1) * 2 ^ exponent' ≤ 4 * number := by
    rw [NotBelow, reach, if_pos ⟨power, by omega⟩, Nat.cast_one] at notBelow
    exact notBelow.elim le_of_lt fun equal => equal.1.le
  refine ⟨power, ?_, close⟩
  -- the number has its first digit one place below that of the power of two
  have reached : (2 : ℚ) ^ (totalExponent mantissa' exponent' - 2) < 2 ^ totalExponent mantissa exponent := by
    have some_unit : (1 : ℚ) ≤ mantissa' := mod_cast positive'
    have := mul_le_mul_of_nonneg_right some_unit unit.le
    refine lt_of_lt_of_le ?_ describes.lt.le
    rw [show totalExponent mantissa' exponent' - 2 =
        spec.mantissaBitsWithoutImplicit + exponent' - 1 by omega, zpow_sub_one₀ (by norm_num),
      ← scaled_two_pow, ← power, scaled]
    linarith
  have next := (zpow_lt_zpow_iff_right₀ (by norm_num : (1 : ℚ) < 2)).1 reached
  have room := Int.le_max_left (totalExponent mantissa exponent - spec.mantissaBits)
    spec.minExponent
  rw [← Format.targetExponent] at room
  omega

/-- What is not below a float is not rounded to anything below it. -/
theorem Describes.le_extent (describes : Describes mantissa exponent accuracy number)
    (low : exponent ≤ spec.targetExponent (totalExponent mantissa exponent))
    (canonical : exponent' = spec.targetExponent (totalExponent mantissa' exponent'))
    (positive' : 0 < mantissa') (notBelow : NotBelow spec mantissa' exponent' number)
    (sign : UnpackedFloat.Sign) :
    scaled mantissa' exponent' ≤
      extent (UnpackedFloat.roundWithAccuracy spec sign mantissa exponent accuracy) := by
  have few := lt_two_pow_mantissaBits canonical positive'
  have precise : spec.mantissaBits = spec.mantissaBitsWithoutImplicit + 1 := Nat.add_comm _ _
  have unit := two_zpow_pos exponent'
  rw [describes.extent_rounded low]
  rcases Int.lt_trichotomy (spec.targetExponent (totalExponent mantissa exponent)) exponent'
    with finer | level | coarser
  · -- all the mantissas below the power of two are more than half a smaller unit away
    obtain ⟨power, half, close⟩ := describes.carried_of_finer canonical positive' notBelow finer
    have carried : 2 ^ spec.mantissaBits ≤ nearest spec mantissa exponent accuracy := by
      have doubled : (2 : ℚ) ^ spec.mantissaBits = 2 * mantissa' := by
        rw [power, precise, pow_succ]
        push_cast
        ring
      refine describes.le_nearest (Nat.two_pow_pos _) ?_
      rw [raised_eq low, half, zpow_sub_one₀ (by norm_num), Nat.cast_pow, Nat.cast_ofNat, doubled,
        precise, Nat.pow_succ, Nat.mul_mod_left]
      refine (lt_or_eq_of_le ?_).imp_right fun equal => ⟨equal, rfl⟩
      linarith
    rw [half]
    refine le_trans (le_of_eq ?_) (scaled_le carried _)
    rw [power, scaled_two_pow, scaled_two_pow, precise]
    congr 1
    push_cast
    omega
  · have reached : mantissa' ≤ nearest spec mantissa exponent accuracy := by
      refine describes.le_nearest positive' ?_
      rw [raised_eq low, level]
      exact notBelow.half
    rw [level]
    exact scaled_le reached exponent'
  · have above := describes.le_of_coarser low canonical coarser
    have reached : 2 ^ spec.mantissaBitsWithoutImplicit ≤ nearest spec mantissa exponent accuracy := by
      refine describes.le_nearest (Nat.two_pow_pos _) (.inl ?_)
      have smaller := two_zpow_pos (spec.targetExponent (totalExponent mantissa exponent))
      rw [show (spec.mantissaBits : Int) + spec.targetExponent (totalExponent mantissa exponent) - 1 =
          spec.mantissaBitsWithoutImplicit + spec.targetExponent (totalExponent mantissa exponent) by
        omega, ← scaled_two_pow, scaled] at above
      rw [raised_eq low]
      linarith
    refine le_trans ?_ (scaled_le reached _)
    refine (scaled_le few.le exponent').trans ?_
    rw [scaled_two_pow, scaled_two_pow]
    exact two_zpow_le (by omega)

theorem totalExponent_le_of_scaled (positive : 0 < mantissa)
    (le : scaled mantissa exponent ≤ scaled mantissa' exponent') :
    totalExponent mantissa exponent ≤ totalExponent mantissa' exponent' := by
  have below := (succ_scaled_le mantissa' exponent').trans_lt' (scaled_lt_succ mantissa' exponent')
  have := (zpow_lt_zpow_iff_right₀ (by norm_num : (1 : ℚ) < 2)).1
    ((le_scaled _ positive).trans_lt (le.trans_lt below))
  omega

/-- A format has one float for a value. -/
theorem scaled_inj (positive : 0 < mantissa) (positive' : 0 < mantissa')
    (canonical : exponent = spec.targetExponent (totalExponent mantissa exponent))
    (canonical' : exponent' = spec.targetExponent (totalExponent mantissa' exponent'))
    (same : scaled mantissa exponent = scaled mantissa' exponent') :
    mantissa = mantissa' ∧ exponent = exponent' := by
  have place := le_antisymm (totalExponent_le_of_scaled positive same.le)
    (totalExponent_le_of_scaled positive' same.ge)
  have exponents : exponent = exponent' := by rw [canonical, canonical', place]
  refine ⟨?_, exponents⟩
  rw [scaled, scaled, exponents, mul_left_inj' (two_zpow_pos exponent').ne'] at same
  exact_mod_cast same

end Owned

/-! ## Results of rounding -/

/-- A float is a number rounded to a format. -/
inductive Rounds (spec : Format) (sign : UnpackedFloat.Sign) (number : ℚ) : UnpackedFloat → Prop where
  | intro {mantissa : Nat} {exponent : Int} {accuracy : Accuracy}
      (describes : Describes mantissa exponent accuracy number)
      (low : exponent ≤ spec.targetExponent (totalExponent mantissa exponent)) :
      Rounds spec sign number (UnpackedFloat.roundWithAccuracy spec sign mantissa exponent accuracy)

section Results

variable {spec : Format} {sign : UnpackedFloat.Sign} {number : ℚ} {result : UnpackedFloat}
  {mantissa mantissa' : Nat} {exponent exponent' : Int}

theorem Rounds.canonical (rounds : Rounds spec sign number result) : Canonical spec result := by
  cases rounds with
  | intro describes low => exact canonical_roundWithAccuracy sign _ low

/-- Rounding gives zero or a finite number of the same sign. -/
theorem Rounds.zero_or_finite (rounds : Rounds spec sign number result) :
    result = .zero sign ∨ ∃ mantissa exponent positive,
      result = .finite sign mantissa exponent positive := by
  cases rounds with
  | intro describes low =>
      rw [roundWithAccuracy_eq sign rfl]
      split
      · exact .inl rfl
      · rename_i some_left
        exact .inr ⟨_, _, Nat.pos_of_ne_zero some_left, rfl⟩

theorem Rounds.extent_le (rounds : Rounds spec sign number result) {positive : 0 < mantissa}
    (canonical : Canonical spec (.finite sign mantissa exponent positive))
    (notAbove : NotAbove mantissa exponent number) : extent result ≤ scaled mantissa exponent := by
  cases rounds with
  | intro describes low => exact describes.extent_le low canonical positive notAbove sign

theorem Rounds.le_extent (rounds : Rounds spec sign number result) {positive : 0 < mantissa}
    (canonical : Canonical spec (.finite sign mantissa exponent positive))
    (notBelow : NotBelow spec mantissa exponent number) :
    scaled mantissa exponent ≤ extent result := by
  cases rounds with
  | intro describes low => exact describes.le_extent low canonical positive notBelow sign

/-- A number is rounded to the float that is neither below nor above it. -/
theorem Rounds.eq_finite (rounds : Rounds spec sign number result) {positive : 0 < mantissa}
    (canonical : Canonical spec (.finite sign mantissa exponent positive))
    (notBelow : NotBelow spec mantissa exponent number)
    (notAbove : NotAbove mantissa exponent number) :
    result = .finite sign mantissa exponent positive := by
  have same : extent result = scaled mantissa exponent :=
    le_antisymm (rounds.extent_le canonical notAbove) (rounds.le_extent canonical notBelow)
  have canonical' := rounds.canonical
  rcases rounds.zero_or_finite with rfl | ⟨mantissa', exponent', positive', rfl⟩
  · exact absurd same (scaled_pos positive exponent).ne
  · obtain ⟨rfl, rfl⟩ := scaled_inj positive' positive canonical' canonical same
    rfl

/-- Rounding moves a number by no more than half of the last bit that the format has for it. -/
theorem Rounds.close (rounds : Rounds spec sign number result)
    (normal : 2 ^ (spec.minExponent + spec.mantissaBits - 1) ≤ number) :
    number * (1 - 1 / 2 ^ spec.mantissaBits) ≤ extent result ∧
      extent result ≤ number * (1 + 1 / 2 ^ spec.mantissaBits) := by
  cases rounds with
  | intro describes low =>
      rename_i mantissa exponent accuracy
      have few := spec.hm
      have precise : spec.mantissaBits = spec.mantissaBitsWithoutImplicit + 1 := Nat.add_comm _ _
      have place := (zpow_lt_zpow_iff_right₀ (by norm_num : (1 : ℚ) < 2)).1
        (normal.trans_lt describes.lt)
      have unit : spec.targetExponent (totalExponent mantissa exponent) =
          totalExponent mantissa exponent - spec.mantissaBits := by
        rw [Format.targetExponent]
        omega
      have positive : 0 < mantissa := by
        by_contra none
        rw [Nat.eq_zero_of_not_pos none, totalExponent, Nat.log2_zero] at unit low
        omega
      -- the last bit is the first one, so many places further down
      have last : (2 : ℚ) ^ (totalExponent mantissa exponent - spec.mantissaBits) ≤
          2 * (number * (1 / 2 ^ spec.mantissaBits)) := by
        have first := describes.le positive
        rw [zpow_sub_one₀ (by norm_num)] at first
        rw [zpow_sub₀ (by norm_num), zpow_natCast, ← mul_assoc, mul_one_div]
        exact div_le_div_of_nonneg_right (by linarith) (by positivity)
      have some_number := lt_of_lt_of_le (two_zpow_pos _) normal
      obtain ⟨low', high'⟩ := describes.close_to_nearest spec some_number.le
      rw [describes.extent_rounded low, scaled]
      rw [raised_eq low] at low' high'
      rw [unit] at low' high' ⊢
      rw [mul_sub, mul_add, mul_one]
      constructor <;> linarith

/-! ### Operations -/

theorem rounds_round (positive : 0 < mantissa) (spec : Format) (exponent : Int)
    (sign : UnpackedFloat.Sign) :
    Rounds spec sign (scaled mantissa exponent) (UnpackedFloat.round spec sign mantissa exponent) := by
  obtain ⟨bits, enough, round, same⟩ := round_eq spec exponent sign positive
  rw [round, ← scaled_mul_two_pow mantissa exponent bits]
  exact .intro (describes_exact _ _) (by rw [same]; omega)

/-- The residual bits of a quotient tell how its remainder compares with half of the divisor. -/
theorem place_quotient (num : Nat) {den : Nat} (positive : 0 < den) :
    ∃ bits ≤ 3, place (.ofMantissaAndAccuracy (num / den)
        (UnpackedFloat.accuracyOfFraction (num % den) den)) = 4 * (num / den) + bits ∧
      (0 < bits ↔ 0 < num % den) ∧ (bits < 2 ↔ 2 * (num % den) < den) ∧
      (2 < bits ↔ den < 2 * (num % den)) := by
  rw [UnpackedFloat.accuracyOfFraction]
  split
  · rename_i exact
    exact ⟨0, by omega, by simp [place, ExtendedMantissa.ofMantissaAndAccuracy], by omega⟩
  · cases found : compare (2 * (num % den)) den with
    | lt =>
        rw [Nat.compare_eq_lt] at found
        exact ⟨1, by omega, by simp [place, ExtendedMantissa.ofMantissaAndAccuracy], by omega⟩
    | eq =>
        rw [Nat.compare_eq_eq] at found
        exact ⟨2, by omega, by simp [place, ExtendedMantissa.ofMantissaAndAccuracy], by omega⟩
    | gt =>
        rw [Nat.compare_eq_gt] at found
        exact ⟨3, by omega, by simp [place, ExtendedMantissa.ofMantissaAndAccuracy], by omega⟩

theorem describes_quotient (num : Nat) {den : Nat} (positive : 0 < den) (exponent : Int) :
    Describes (num / den) exponent (UnpackedFloat.accuracyOfFraction (num % den) den)
      (num / den * 2 ^ exponent) := by
  intro half
  obtain ⟨bits, few, stands, some_bit, low, high⟩ := place_quotient num positive
  have whole : den * (num / den) + num % den = num := Nat.div_add_mod num den
  have rest := Nat.mod_lt num positive
  have some_den : (0 : ℚ) < den := mod_cast positive
  rw [stands, mul_div_cancel_right₀ _ (two_zpow_pos exponent).ne', ← mul_div_assoc,
    div_lt_iff₀ some_den, lt_div_iff₀ some_den]
  norm_cast
  generalize num / den = quotient at *
  rcases Nat.lt_trichotomy half (2 * quotient) with below | same | above
  · have := Nat.mul_le_mul_left den (Nat.succ_le_of_lt below)
    rw [Nat.mul_succ, Nat.mul_left_comm] at this
    rw [Nat.mul_comm half]
    omega
  · rw [same, Nat.mul_comm _ den, Nat.mul_left_comm den]
    omega
  · rcases Nat.eq_or_lt_of_le (Nat.succ_le_of_lt above) with next | beyond
    · have middle : (2 * quotient + 1) * den = 2 * (den * quotient) + den := by ring
      rw [← next, middle]
      omega
    · have := Nat.mul_le_mul_left den (Nat.succ_le_of_lt beyond)
      rw [Nat.mul_succ, Nat.mul_succ, Nat.mul_left_comm] at this
      rw [Nat.mul_comm half]
      omega

theorem rounds_add (positive : 0 < mantissa) (positive' : 0 < mantissa') (spec : Format) :
    Rounds spec .positive (scaled mantissa exponent + scaled mantissa' exponent')
      (UnpackedFloat.add spec (.finite .positive mantissa exponent positive)
        (.finite .positive mantissa' exponent' positive')) := by
  obtain ⟨some_digit, sum⟩ := add_eq spec exponent exponent' positive positive'
  have low := Int.min_le_left exponent exponent'
  have low' := Int.min_le_right exponent exponent'
  have value : scaled mantissa exponent + scaled mantissa' exponent' =
      scaled (alignedSum mantissa exponent mantissa' exponent') (min exponent exponent') := by
    rw [← scaled_mul_two_pow mantissa exponent (exponent - min exponent exponent').toNat,
      ← scaled_mul_two_pow mantissa' exponent' (exponent' - min exponent exponent').toNat,
      Int.toNat_of_nonneg (by omega), Int.toNat_of_nonneg (by omega), sub_sub_cancel,
      sub_sub_cancel, scaled, scaled, scaled, alignedSum, ← add_mul]
    push_cast
    rfl
  rw [sum, value]
  exact rounds_round some_digit spec _ .positive

theorem rounds_mul (positive : 0 < mantissa) (positive' : 0 < mantissa')
    (low : exponent + exponent' ≤
      spec.targetExponent (totalExponent (mantissa * mantissa') (exponent + exponent'))) :
    Rounds spec .positive (scaled mantissa exponent * scaled mantissa' exponent')
      (UnpackedFloat.mul spec (.finite .positive mantissa exponent positive)
        (.finite .positive mantissa' exponent' positive')) := by
  rw [scaled_mul_scaled]
  exact .intro (describes_exact _ _) low

theorem rounds_div (positive : 0 < mantissa) (positive' : 0 < mantissa') (exponent exponent' : Int)
    (spec : Format) :
    Rounds spec .positive (scaled mantissa exponent / scaled mantissa' exponent')
      (UnpackedFloat.div spec (.finite .positive mantissa exponent positive)
        (.finite .positive mantissa' exponent' positive')) := by
  have value : scaled mantissa exponent / scaled mantissa' exponent' =
      (mantissa * 2 ^ lengthened spec mantissa exponent mantissa' exponent' : Nat) / mantissa' *
        2 ^ (exponent - exponent' - lengthened spec mantissa exponent mantissa' exponent') := by
    have room : (2 : ℚ) ^ lengthened spec mantissa exponent mantissa' exponent' ≠ 0 :=
      pow_ne_zero _ (by norm_num)
    rw [scaled, scaled, zpow_sub₀ (by norm_num), zpow_sub₀ (by norm_num), zpow_natCast]
    push_cast
    field_simp
  rw [div_eq spec exponent exponent' positive positive', value]
  exact .intro (describes_quotient _ positive' _) (lowered_le positive positive')

end Results

end OverlayRouting.Decimal
