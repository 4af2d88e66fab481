/-
# OverlayRouting.Proofs.Rounding -- what rounding keeps

A number is rounded to a format in two steps: the low bits that the format has no place for are
dropped, the rest is rounded to the nearest mantissa, ties to the even one, and if that carried
into one more bit, that bit is dropped as well.

Rounding is followed here by the place of the first digit of a number (its total exponent): the
first digit stays where it is or goes up by one, and then the mantissa is a power of two
(`totalExponent_nearest`, `roundWithAccuracy_finite`).  So powers of two are never passed.  The
dropped bits count only through a round bit and a sticky bit, and the `place` of a mantissa with
these two bits goes up with the number, so rounding keeps the order of numbers (`round_mono`).
-/
import Mathlib
import OverlayRouting.Decimal.Binary

namespace OverlayRouting.Decimal

set_option autoImplicit false

open Float.Model (Format UnpackedFloat totalExponent)

/-! ## The first digit -/

section Digits

variable {mantissa other : Nat}

theorem log2_mono (positive : 0 < mantissa) (le : mantissa ≤ other) : mantissa.log2 ≤ other.log2 :=
  (Nat.le_log2 (by omega)).2 (Nat.le_trans (Nat.log2_self_le (by omega)) le)

theorem log2_mul_two_pow (positive : 0 < mantissa) (bits : Nat) :
    (mantissa * 2 ^ bits).log2 = mantissa.log2 + bits := by
  have room : 0 < 2 ^ bits := Nat.two_pow_pos bits
  refine (Nat.log2_eq_iff (Nat.mul_pos positive room).ne').2 ⟨?_, ?_⟩
  · rw [Nat.pow_add]
    exact Nat.mul_le_mul_right _ (Nat.log2_self_le positive.ne')
  · rw [show mantissa.log2 + bits + 1 = mantissa.log2 + 1 + bits by omega, Nat.pow_add]
    exact Nat.mul_lt_mul_of_pos_right Nat.lt_log2_self room

theorem log2_div_two_pow {bits : Nat} (positive : 0 < mantissa) (fits : bits ≤ mantissa.log2) :
    0 < mantissa / 2 ^ bits ∧ (mantissa / 2 ^ bits).log2 = mantissa.log2 - bits := by
  have room : 0 < 2 ^ bits := Nat.two_pow_pos bits
  have least : 2 ^ (mantissa.log2 - bits) ≤ mantissa / 2 ^ bits := by
    rw [Nat.le_div_iff_mul_le room, ← Nat.pow_add, Nat.sub_add_cancel fits]
    exact Nat.log2_self_le positive.ne'
  have remains : 0 < mantissa / 2 ^ bits := Nat.lt_of_lt_of_le (Nat.two_pow_pos _) least
  refine ⟨remains, (Nat.log2_eq_iff remains.ne').2 ⟨least, ?_⟩⟩
  rw [Nat.div_lt_iff_lt_mul room, ← Nat.pow_add,
    show mantissa.log2 - bits + 1 + bits = mantissa.log2 + 1 by omega]
  exact Nat.lt_log2_self

theorem totalExponent_mono (exponent : Int) (positive : 0 < mantissa) (le : mantissa ≤ other) :
    totalExponent mantissa exponent ≤ totalExponent other exponent := by
  have := log2_mono positive le
  unfold totalExponent
  omega

theorem totalExponent_mul_two_pow (positive : 0 < mantissa) (exponent : Int) (bits : Nat) :
    totalExponent (mantissa * 2 ^ bits) (exponent - bits) = totalExponent mantissa exponent := by
  unfold totalExponent
  rw [log2_mul_two_pow positive]
  omega

end Digits

/-! ## Dropping bits -/

section Shift

open Float.Model.UnpackedFloat (ExtendedMantissa Accuracy)

theorem shift_succ (em : ExtendedMantissa) (bits : Nat) :
    em >>> (bits + 1) = (em >>> bits).shiftRightOne := rfl

theorem mantissa_shift (em : ExtendedMantissa) (bits : Nat) :
    (em >>> bits).mantissa = em.mantissa / 2 ^ bits := by
  induction bits with
  | zero => exact (Nat.div_one _).symm
  | succ bits ih =>
      rw [shift_succ, Nat.pow_succ, ← Nat.div_div_eq_div_mul, ← ih]
      rfl

/-- The place of a mantissa with its two residual bits among all of them. -/
def place (em : ExtendedMantissa) : Nat :=
  4 * em.mantissa + 2 * em.roundBit.toNat + em.stickyBit.toNat

theorem place_shiftRightOne (em : ExtendedMantissa) :
    place em.shiftRightOne = 2 * (place em / 4) + min 1 (place em % 4) := by
  obtain ⟨mantissa, _ | _, _ | _⟩ := em <;>
    · rcases Nat.mod_two_eq_zero_or_one mantissa with even | odd
      all_goals simp [place, ExtendedMantissa.shiftRightOne, *]; omega

theorem roundedMantissa_eq (em : ExtendedMantissa) :
    em.roundedMantissa = (place em + 1 + place em / 4 % 2) / 4 := by
  have whole : place em / 4 = em.mantissa := by
    obtain ⟨mantissa, _ | _, _ | _⟩ := em <;> simp [place] <;> omega
  rw [whole]
  obtain ⟨mantissa, _ | _, _ | _⟩ := em <;>
    simp [place, ExtendedMantissa.roundedMantissa, ExtendedMantissa.accuracy,
      Accuracy.roundToNearestEven] <;> omega

theorem place_shift_mono {em em' : ExtendedMantissa} (le : place em ≤ place em') (bits : Nat) :
    place (em >>> bits) ≤ place (em' >>> bits) := by
  induction bits with
  | zero => exact le
  | succ bits ih =>
      rw [shift_succ, shift_succ, place_shiftRightOne, place_shiftRightOne]
      omega

theorem roundedMantissa_mono {em em' : ExtendedMantissa} (le : place em ≤ place em') :
    em.roundedMantissa ≤ em'.roundedMantissa := by
  rw [roundedMantissa_eq, roundedMantissa_eq]
  rcases Nat.eq_or_lt_of_le (Nat.div_le_div_right (c := 4) le) with same | below
  · rw [same]
    omega
  · omega

theorem le_roundedMantissa (em : ExtendedMantissa) :
    em.mantissa ≤ em.roundedMantissa ∧ em.roundedMantissa ≤ em.mantissa + 1 := by
  obtain ⟨mantissa, _ | _, _ | _⟩ := em <;>
    simp [ExtendedMantissa.roundedMantissa, ExtendedMantissa.accuracy,
      Accuracy.roundToNearestEven]
  omega

/-! ## Rounding -/

variable (spec : Format)

/-- How many low bits of a mantissa the format has no place for. -/
def excess (mantissa : Nat) (exponent : Int) : Nat :=
  (spec.targetExponent (totalExponent mantissa exponent) - exponent).toNat

/-- The exponent of a mantissa without them. -/
def raised (mantissa : Nat) (exponent : Int) : Int := exponent + excess spec mantissa exponent

/-- A mantissa without the bits that the format has no place for, rounded. -/
def nearest (mantissa : Nat) (exponent : Int) (accuracy : Accuracy) : Nat :=
  (ExtendedMantissa.ofMantissaAndAccuracy mantissa accuracy >>>
    excess spec mantissa exponent).roundedMantissa

theorem mantissa_ofMantissaAndAccuracy (mantissa : Nat) (accuracy : Accuracy) :
    (ExtendedMantissa.ofMantissaAndAccuracy mantissa accuracy).mantissa = mantissa := by
  obtain _ | _ | _ | _ := accuracy <;> rfl

theorem minExponent_nonpos : spec.minExponent ≤ 0 := by
  have few := spec.hm
  have room : (0 : Int) < 2 ^ (spec.exponentBits - 1) := mod_cast Nat.two_pow_pos _
  unfold Format.minExponent Format.mantissaBits
  omega

theorem minExponent_le_targetExponent (total : Int) :
    spec.minExponent ≤ spec.targetExponent total := Int.le_max_right _ _

theorem targetExponent_cases (total : Int) :
    spec.targetExponent total = spec.minExponent ∨
      spec.minExponent < total ∧ spec.targetExponent total = total - spec.mantissaBits := by
  unfold Format.targetExponent
  omega

variable {spec} {mantissa other : Nat} {exponent : Int} {accuracy : Accuracy}

/-- The first digit of a number that the format can hold is not dropped. -/
theorem excess_le (held : spec.minExponent < totalExponent mantissa exponent) :
    excess spec mantissa exponent ≤ mantissa.log2 := by
  have : 0 < spec.mantissaBits := by
    unfold Format.mantissaBits
    omega
  unfold excess Format.targetExponent
  unfold totalExponent at *
  omega

theorem totalExponent_drop {bits : Nat} (exponent : Int) (positive : 0 < mantissa) (fits : bits ≤ mantissa.log2) :
    0 < mantissa / 2 ^ bits ∧
      totalExponent (mantissa / 2 ^ bits) (exponent + bits) = totalExponent mantissa exponent := by
  obtain ⟨remains, log2⟩ := log2_div_two_pow positive fits
  refine ⟨remains, ?_⟩
  unfold totalExponent
  rw [log2]
  omega

/-- Rounding leaves the first digit where it is, or carries it up by one place, and then
nothing else is left. -/
theorem totalExponent_nearest (positive : 0 < mantissa)
    (held : spec.minExponent < totalExponent mantissa exponent) {rounded : Nat}
    (found : nearest spec mantissa exponent accuracy = rounded) :
    0 < rounded ∧
      (totalExponent rounded (raised spec mantissa exponent) = totalExponent mantissa exponent ∨
        totalExponent rounded (raised spec mantissa exponent) =
            totalExponent mantissa exponent + 1 ∧ rounded = 2 ^ rounded.log2) := by
  obtain ⟨remains, kept⟩ := totalExponent_drop exponent positive (excess_le held)
  have bounds := le_roundedMantissa (ExtendedMantissa.ofMantissaAndAccuracy mantissa accuracy >>>
    excess spec mantissa exponent)
  rw [mantissa_shift, mantissa_ofMantissaAndAccuracy, ← nearest, found] at bounds
  generalize mantissa / 2 ^ excess spec mantissa exponent = whole at *
  have some_left : 0 < rounded := by omega
  refine ⟨some_left, ?_⟩
  by_cases carried : rounded < 2 ^ (whole.log2 + 1)
  · left
    have same : rounded.log2 = whole.log2 :=
      Nat.le_antisymm (Nat.lt_succ_iff.1 ((Nat.log2_lt some_left.ne').2 carried))
        (log2_mono remains bounds.1)
    rw [← kept]
    simp only [totalExponent, raised, same]
  · right
    have below : whole < 2 ^ (whole.log2 + 1) := Nat.lt_log2_self
    have all : rounded = 2 ^ (whole.log2 + 1) := by omega
    have log2 : rounded.log2 = whole.log2 + 1 := by rw [all, Nat.log2_two_pow]
    refine ⟨?_, by rw [log2, ← all]⟩
    rw [← kept]
    simp only [totalExponent, raised, log2]
    omega

theorem excess_congr (spec : Format)
    (same : totalExponent mantissa exponent = totalExponent other exponent) :
    excess spec mantissa exponent = excess spec other exponent ∧
      raised spec mantissa exponent = raised spec other exponent := by
  have dropped : excess spec mantissa exponent = excess spec other exponent := by
    rw [excess, excess, same]
  exact ⟨dropped, by rw [raised, raised, dropped]⟩

theorem raised_eq (low : exponent ≤ spec.targetExponent (totalExponent mantissa exponent)) :
    raised spec mantissa exponent = spec.targetExponent (totalExponent mantissa exponent) := by
  unfold raised excess
  omega

theorem nearest_mono (le : mantissa ≤ other)
    (same : excess spec mantissa exponent = excess spec other exponent) :
    nearest spec mantissa exponent .exact ≤ nearest spec other exponent .exact := by
  unfold nearest
  rw [same]
  refine roundedMantissa_mono (place_shift_mono ?_ _)
  simp only [place, ExtendedMantissa.ofMantissaAndAccuracy]
  omega

theorem roundWithAccuracy_eq (sign : UnpackedFloat.Sign) {rounded : Nat}
    (found : nearest spec mantissa exponent accuracy = rounded) :
    let dropped := excess spec rounded (raised spec mantissa exponent)
    UnpackedFloat.roundWithAccuracy spec sign mantissa exponent accuracy =
      if some_left : rounded / 2 ^ dropped = 0 then .zero sign
      else .finite sign (rounded / 2 ^ dropped)
        (raised spec rounded (raised spec mantissa exponent)) (Nat.pos_of_ne_zero some_left) := by
  subst found
  intro dropped
  have here : (ExtendedMantissa.ofMantissaAndAccuracy (nearest spec mantissa exponent accuracy)
      .exact >>> dropped).mantissa = nearest spec mantissa exponent accuracy / 2 ^ dropped := by
    rw [mantissa_shift, mantissa_ofMantissaAndAccuracy]
  simp only [← here]
  rfl

/-- A number that the format can hold is rounded to a finite one. -/
theorem roundWithAccuracy_held (positive : 0 < mantissa)
    (held : spec.minExponent < totalExponent mantissa exponent) (sign : UnpackedFloat.Sign)
    {rounded : Nat} (found : nearest spec mantissa exponent accuracy = rounded) :
    let dropped := excess spec rounded (raised spec mantissa exponent)
    let last := raised spec rounded (raised spec mantissa exponent)
    ∃ some_left, UnpackedFloat.roundWithAccuracy spec sign mantissa exponent accuracy =
        .finite sign (rounded / 2 ^ dropped) last some_left ∧
      totalExponent (rounded / 2 ^ dropped) last =
        totalExponent rounded (raised spec mantissa exponent) := by
  intro dropped last
  obtain ⟨some_left, place⟩ := totalExponent_nearest positive held found
  have still : spec.minExponent < totalExponent rounded (raised spec mantissa exponent) := by omega
  obtain ⟨remains, kept⟩ := totalExponent_drop _ some_left (excess_le still)
  refine ⟨remains, ?_, kept⟩
  rw [roundWithAccuracy_eq sign found, dif_neg remains.ne']

theorem roundWithAccuracy_finite (positive : 0 < mantissa)
    (held : spec.minExponent < totalExponent mantissa exponent) (sign : UnpackedFloat.Sign)
    (accuracy : Accuracy) :
    ∃ last final some_left,
      UnpackedFloat.roundWithAccuracy spec sign mantissa exponent accuracy =
        .finite sign last final some_left ∧
      (totalExponent last final = totalExponent mantissa exponent ∨
        totalExponent last final = totalExponent mantissa exponent + 1 ∧ last = 2 ^ last.log2) := by
  obtain ⟨rounded, found⟩ : ∃ rounded, nearest spec mantissa exponent accuracy = rounded := ⟨_, rfl⟩
  obtain ⟨positive', place⟩ := totalExponent_nearest positive held found
  obtain ⟨some_left, round, total⟩ := roundWithAccuracy_held positive held sign found
  refine ⟨_, _, some_left, round, ?_⟩
  rw [total]
  refine place.imp_right fun ⟨up, power⟩ => ⟨up, ?_⟩
  have fits : excess spec rounded (raised spec mantissa exponent) ≤ rounded.log2 :=
    excess_le (by omega)
  rw [(log2_div_two_pow positive' fits).2, ← Nat.pow_div fits (by decide), ← power]

/-- The exponent is the one at which the format has numbers of that size. -/
def Canonical (spec : Format) : UnpackedFloat → Prop
  | .finite _ mantissa exponent _ =>
      exponent = spec.targetExponent (totalExponent mantissa exponent)
  | _ => True

theorem canonical_roundWithAccuracy (sign : UnpackedFloat.Sign) (accuracy : Accuracy)
    (low : exponent ≤ spec.targetExponent (totalExponent mantissa exponent)) :
    Canonical spec (UnpackedFloat.roundWithAccuracy spec sign mantissa exponent accuracy) := by
  obtain ⟨rounded, found⟩ : ∃ rounded, nearest spec mantissa exponent accuracy = rounded := ⟨_, rfl⟩
  rw [roundWithAccuracy_eq sign found]
  split
  · trivial
  · rename_i some_left
    have positive : 0 < rounded := by
      by_contra none_left
      simp [Nat.eq_zero_of_not_pos none_left] at some_left
    have fits : excess spec rounded (raised spec mantissa exponent) ≤ rounded.log2 := by
      rw [Nat.le_log2 positive.ne']
      by_contra less
      exact some_left (Nat.div_eq_of_lt (Nat.lt_of_not_le less))
    have coarser : raised spec mantissa exponent ≤
        spec.targetExponent (totalExponent rounded (raised spec mantissa exponent)) := by
      have here := raised_eq low
      rcases targetExponent_cases spec (totalExponent mantissa exponent)
        with lowest | ⟨held, normal⟩
      · rw [here, lowest]
        exact minExponent_le_targetExponent spec _
      · have some_digit : 0 < mantissa := by
          by_contra none
          have few := spec.hm
          simp [Nat.eq_zero_of_not_pos none, totalExponent, Format.mantissaBits] at normal low
          omega
        obtain ⟨-, place⟩ := totalExponent_nearest some_digit held found
        have room := Int.le_max_left (totalExponent rounded (raised spec mantissa exponent) -
          spec.mantissaBits) spec.minExponent
        rw [← Format.targetExponent] at room
        omega
    obtain ⟨-, kept⟩ := totalExponent_drop (raised spec mantissa exponent) positive fits
    rw [← raised] at kept
    rw [Canonical, kept, raised_eq coarser]

/-- A number is first lengthened, so that it can be rounded by dropping bits. -/
theorem round_eq (spec : Format) (exponent : Int) (sign : UnpackedFloat.Sign) (positive : 0 < mantissa) :
    ∃ bits : Nat, bits = (exponent -
          spec.targetExponent (totalExponent mantissa exponent)).toNat ∧
      UnpackedFloat.round spec sign mantissa exponent =
        UnpackedFloat.roundWithAccuracy spec sign (mantissa * 2 ^ bits) (exponent - bits) .exact ∧
      totalExponent (mantissa * 2 ^ bits) (exponent - bits) = totalExponent mantissa exponent := by
  refine ⟨_, rfl, ?_, ?_⟩
  · rw [UnpackedFloat.round, UnpackedFloat.decreaseExponent, Nat.shiftLeft_eq]
  · exact totalExponent_mul_two_pow positive exponent _

theorem canonical_round (spec : Format) (exponent : Int) (sign : UnpackedFloat.Sign) (positive : 0 < mantissa) :
    Canonical spec (UnpackedFloat.round spec sign mantissa exponent) := by
  obtain ⟨bits, enough, round, same⟩ := round_eq spec exponent sign positive
  rw [round]
  refine canonical_roundWithAccuracy sign .exact ?_
  rw [same]
  omega

/-- A number that the format can hold is rounded to one with its first digit in the same place,
or to the power of two above. -/
theorem round_held (positive : 0 < mantissa)
    (held : spec.minExponent < totalExponent mantissa exponent) (sign : UnpackedFloat.Sign) :
    ∃ last final some_left,
      UnpackedFloat.round spec sign mantissa exponent = .finite sign last final some_left ∧
      (totalExponent last final = totalExponent mantissa exponent ∨
        totalExponent last final = totalExponent mantissa exponent + 1 ∧ last = 2 ^ last.log2) := by
  obtain ⟨bits, -, round, same⟩ := round_eq spec exponent sign positive
  rw [round, ← same]
  exact roundWithAccuracy_finite (Nat.mul_pos positive (Nat.two_pow_pos _)) (same ▸ held) sign .exact

/-- The order of positive floats. -/
inductive AtMost : UnpackedFloat → UnpackedFloat → Prop where
  /-- The first digit is at a lower place. -/
  | lower {mantissa mantissa' : Nat} {exponent exponent' : Int} {positive : 0 < mantissa}
      {positive' : 0 < mantissa'}
      (below : totalExponent mantissa exponent < totalExponent mantissa' exponent') :
      AtMost (.finite .positive mantissa exponent positive)
        (.finite .positive mantissa' exponent' positive')
  | level {mantissa mantissa' : Nat} {exponent exponent' : Int} {positive : 0 < mantissa}
      {positive' : 0 < mantissa'} (same : exponent = exponent') (le : mantissa ≤ mantissa') :
      AtMost (.finite .positive mantissa exponent positive)
        (.finite .positive mantissa' exponent' positive')

theorem roundWithAccuracy_mono (positive : 0 < mantissa) (le : mantissa ≤ other)
    (held : spec.minExponent < totalExponent mantissa exponent)
    (same : totalExponent mantissa exponent = totalExponent other exponent) :
    AtMost (UnpackedFloat.roundWithAccuracy spec .positive mantissa exponent .exact)
      (UnpackedFloat.roundWithAccuracy spec .positive other exponent .exact) := by
  obtain ⟨dropped, up⟩ := excess_congr spec same
  have nearer := nearest_mono le dropped
  generalize found : nearest spec mantissa exponent .exact = rounded at nearer
  generalize found' : nearest spec other exponent .exact = rounded' at nearer
  obtain ⟨some_left, -⟩ := totalExponent_nearest positive held found
  obtain ⟨_, round, total⟩ := roundWithAccuracy_held positive held .positive found
  obtain ⟨_, round', total'⟩ := roundWithAccuracy_held (Nat.lt_of_lt_of_le positive le)
    (same ▸ held) .positive found'
  rw [round, round']
  simp only [up] at total ⊢
  rcases Int.lt_or_eq_of_le (totalExponent_mono (raised spec other exponent)
    some_left nearer) with below | level
  · exact .lower (by omega)
  · obtain ⟨dropped', up'⟩ := excess_congr spec level
    exact .level up' (dropped' ▸ Nat.div_le_div_right nearer)

/-- Rounding keeps the order of numbers that the format can hold. -/
theorem round_mono (positive : 0 < mantissa) (le : mantissa ≤ other)
    (held : spec.minExponent < totalExponent mantissa exponent) :
    AtMost (UnpackedFloat.round spec .positive mantissa exponent)
      (UnpackedFloat.round spec .positive other exponent) := by
  have positive' : 0 < other := Nat.lt_of_lt_of_le positive le
  rcases Int.lt_or_eq_of_le (totalExponent_mono exponent positive le)
    with below | same
  · have canonical := canonical_round spec exponent .positive positive
    have canonical' := canonical_round spec exponent .positive positive'
    obtain ⟨last, final, some_left, round, place⟩ := round_held positive held .positive
    obtain ⟨last', final', some_left', round', place'⟩ :=
      round_held positive' (by omega : spec.minExponent < totalExponent other exponent) .positive
    rw [round] at canonical ⊢
    rw [round'] at canonical' ⊢
    simp only [Canonical] at canonical canonical'
    by_cases lower : totalExponent last final < totalExponent last' final'
    · exact .lower lower
    · -- the smaller one was carried up to the power of two below the greater one
      have level : totalExponent last final = totalExponent last' final' := by omega
      have finals : final = final' := by rw [canonical, canonical', level]
      have power : last = 2 ^ last.log2 := by omega
      have log2 : last.log2 = last'.log2 := by
        unfold totalExponent at level
        omega
      refine .level finals ?_
      rw [power, log2]
      exact Nat.log2_self_le some_left'.ne'
  · obtain ⟨bits, enough, round, kept⟩ :=
      round_eq spec exponent .positive positive
    obtain ⟨bits', enough', round', kept'⟩ :=
      round_eq spec exponent .positive positive'
    rw [← same, ← enough] at enough'
    subst enough'
    rw [round, round']
    exact roundWithAccuracy_mono (Nat.mul_pos positive (Nat.two_pow_pos _))
      (Nat.mul_le_mul_right _ le) (kept ▸ held) (kept.trans (same.trans kept'.symm))

end Shift

end OverlayRouting.Decimal
