/-
# OverlayRouting.Proofs.ShortestDigits -- the shortest digits belong to their float

The search for the shortest digits of a double ends with a decimal that is neither below nor above
it (`shortest_owned`), so rounding the decimal gives the double.

A hit is inside by the very test that makes it one (`contains_iff`).  That there is one at all
is a matter of distance: on the grid of seventeen digits the two points around a double are closer
to each other than the ends of its interval, so they are not both outside (`onGrid_isSome`).
-/
import OverlayRouting.Decimal.Shortest
import OverlayRouting.Proofs.Nearest

namespace OverlayRouting.Decimal

set_option autoImplicit false

open Float.Model (Format)
open Text (tenTo)

/-! ## Decimals -/

/-- The number `digits * 10 ^ exponent`. -/
def Scaled.value (point : Scaled) : ℚ := point.digits * 10 ^ point.exponent

theorem ten_zpow_pos (exponent : Int) : (0 : ℚ) < 10 ^ exponent := zpow_pos (by norm_num) exponent

theorem cast_tenTo (zeros : Nat) : (tenTo zeros : ℚ) = 10 ^ zeros := by
  rw [tenTo]
  exact Nat.cast_pow 10 zeros

theorem tenTo_pos (zeros : Nat) : 0 < tenTo zeros := Nat.pow_pos (by decide)

/-- A power of ten is a quotient of two, one of which is one. -/
theorem ten_zpow_eq (exponent : Int) :
    (10 : ℚ) ^ exponent = tenTo exponent.toNat / tenTo (-exponent).toNat := by
  rw [cast_tenTo, cast_tenTo, ← zpow_natCast, ← zpow_natCast, ← zpow_sub₀ (by norm_num)]
  congr 1
  omega

theorem tenTo_le_iff (num : Nat) {den : Nat} (some_den : 0 < den) (exponent : Int) :
    den * tenTo exponent.toNat ≤ num * tenTo (-exponent).toNat ↔ (10 : ℚ) ^ exponent ≤ num / den := by
  have scale : (0 : ℚ) < tenTo (-exponent).toNat := mod_cast tenTo_pos _
  have parts : (0 : ℚ) < den := mod_cast some_den
  rw [ten_zpow_eq, div_le_div_iff₀ scale parts, mul_comm _ (den : ℚ)]
  exact_mod_cast Iff.rfl

/-- With enough places behind the point a decimal is a whole number of the last one. -/
theorem Scaled.value_eq (point : Scaled) (places : Nat) (enough : 0 ≤ point.exponent + places) :
    point.value = (point.digits * tenTo (point.exponent + places).toNat : Nat) / 10 ^ places := by
  rw [value, eq_div_iff (pow_ne_zero _ (by norm_num)), Nat.cast_mul, cast_tenTo, mul_assoc,
    ← zpow_natCast, ← zpow_natCast, ← zpow_add₀ (by norm_num), Int.toNat_of_nonneg enough]

theorem value_trimmed (fuel : Nat) (point : Scaled) :
    (point.trimmed fuel).value = point.value ∧ point.exponent ≤ (point.trimmed fuel).exponent := by
  induction fuel generalizing point with
  | zero => exact ⟨rfl, le_rfl⟩
  | succ fuel ih =>
      rw [Scaled.trimmed]
      split
      · rename_i zero
        obtain ⟨same, le⟩ := ih ⟨point.digits / 10, point.exponent + 1⟩
        refine ⟨same.trans ?_, by simp only at le; omega⟩
        have digits : point.digits = point.digits / 10 * 10 := by omega
        rw [Scaled.value, Scaled.value, zpow_add_one₀ (by norm_num)]
        conv_rhs => rw [digits]
        push_cast
        ring
      · exact ⟨rfl, le_rfl⟩

/-! ## The first digit -/

theorem lt_tenTo_digitCount (n : Nat) : n < 10 ^ digitCount n :=
  (Nat.length_toDigits_le_iff (by decide) (List.length_pos_iff.2 Nat.toDigits_ne_nil)).1 le_rfl

theorem tenTo_digitCount_le {n : Nat} (positive : 0 < n) : 10 ^ (digitCount n - 1) ≤ n := by
  by_cases single : digitCount n = 1
  · rw [single]
    exact positive
  · have some_digit : 0 < digitCount n := List.length_pos_iff.2 Nat.toDigits_ne_nil
    refine not_lt.1 fun less => ?_
    have := (Nat.length_toDigits_le_iff (by decide) (by omega)).2 less
    rw [← digitCount] at this
    omega

section FirstPlace

variable {num den : Nat}

/-- The place of the first digit is not too high. -/
theorem ten_zpow_firstPlace_le (positive : 0 < num) (some_den : 0 < den) :
    (10 : ℚ) ^ (firstPlace num den - 1) ≤ num / den := by
  have parts : (0 : ℚ) < den := mod_cast some_den
  rw [firstPlace]
  split
  · rename_i reached
    rw [tenTo_le_iff _ some_den] at reached
    rwa [add_sub_cancel_right]
  · have low : ((10 ^ (digitCount num - 1) : Nat) : ℚ) ≤ num := mod_cast tenTo_digitCount_le positive
    have high : (den : ℚ) ≤ (10 ^ digitCount den : Nat) := mod_cast (lt_tenTo_digitCount den).le
    have some_digit : 0 < digitCount num := List.length_pos_iff.2 Nat.toDigits_ne_nil
    rw [le_div_iff₀ parts]
    push_cast at low high
    calc (10 : ℚ) ^ ((digitCount num : Int) - digitCount den - 1) * den
        ≤ 10 ^ ((digitCount num : Int) - digitCount den - 1) * 10 ^ digitCount den := by gcongr
      _ = 10 ^ (digitCount num - 1) := by
          rw [← zpow_natCast, ← zpow_natCast, ← zpow_add₀ (by norm_num)]
          congr 1
          omega
      _ ≤ num := low

theorem le_firstPlace {places : Nat} (some_place : 0 < places) (small : den < 10 ^ places) :
    1 - (places : Int) ≤ firstPlace num den := by
  have few : digitCount den ≤ places := (Nat.length_toDigits_le_iff (by decide) some_place).2 small
  have some_digit : 0 < digitCount num := List.length_pos_iff.2 Nat.toDigits_ne_nil
  rw [firstPlace]
  split <;> omega

end FirstPlace

/-! ## Intervals -/

namespace Owned

/-- The lower end of an interval. -/
def low (interval : Owned) : ℚ := (interval.num - interval.down) / interval.den

/-- The upper end of an interval. -/
def high (interval : Owned) : ℚ := (interval.num + interval.up) / interval.den

/-- An interval of positive numbers around its own. -/
structure Sound (interval : Owned) : Prop where
  some_den : 0 < interval.den
  room : interval.down ≤ interval.num
  some_down : 0 < interval.down
  some_up : 0 < interval.up

section Interval

variable {interval : Owned}

theorem Sound.inside (sound : interval.Sound) : interval.low < interval.num / interval.den ∧
    (interval.num / interval.den : ℚ) < interval.high := by
  have parts : (0 : ℚ) < interval.den := mod_cast sound.some_den
  have down : (0 : ℚ) < interval.down := mod_cast sound.some_down
  have up : (0 : ℚ) < interval.up := mod_cast sound.some_up
  exact ⟨div_lt_div_of_pos_right (by linarith) parts, div_lt_div_of_pos_right (by linarith) parts⟩

theorem contains_iff (sound : interval.Sound) (point : Scaled) : interval.contains point = true ↔
    (interval.low < point.value ∨ interval.low = point.value ∧ interval.closed = true) ∧
    (point.value < interval.high ∨ point.value = interval.high ∧ interval.closed = true) := by
  have parts : (0 : ℚ) < interval.den := mod_cast sound.some_den
  have scale : (0 : ℚ) < tenTo (-point.exponent).toNat := mod_cast tenTo_pos _
  have value : point.value =
      point.digits * tenTo point.exponent.toNat / tenTo (-point.exponent).toNat := by
    rw [Scaled.value, ten_zpow_eq, mul_div_assoc]
  rw [low, high, value, ← Nat.cast_sub sound.room, ← Nat.cast_add, div_lt_div_iff₀ parts scale,
    div_lt_div_iff₀ scale parts, div_eq_div_iff parts.ne' scale.ne',
    div_eq_div_iff scale.ne' parts.ne']
  simp only [contains]
  norm_cast
  cases interval.closed
  · simp
  · simp
    omega

/-- A hit is on its grid and in the interval. -/
theorem contains_of_onGrid {exponent : Int} {point : Scaled}
    (hit : interval.onGrid exponent = some point) :
    interval.contains point = true ∧ point.exponent = exponent := by
  simp only [onGrid] at hit
  split at hit
  · split at hit <;> cases hit
    · exact ⟨‹_›, rfl⟩
    · exact ⟨‹_›, rfl⟩
  · cases hit
    exact ⟨‹_›, rfl⟩
  · cases hit
    exact ⟨‹_›, rfl⟩
  · cases hit

/-- A grid that is finer than the interval is wide has a hit. -/
theorem onGrid_isSome (sound : interval.Sound) {exponent : Int}
    (fine : 10 ^ exponent < interval.high - interval.low) :
    (interval.onGrid exponent).isSome = true := by
  have parts : (0 : ℚ) < interval.den := mod_cast sound.some_den
  have step := ten_zpow_pos exponent
  have inside := sound.inside
  have scale : 0 < interval.den * tenTo exponent.toNat := Nat.mul_pos sound.some_den (tenTo_pos _)
  obtain ⟨quotient, found⟩ :
      ∃ quotient, interval.num * tenTo (-exponent).toNat / (interval.den * tenTo exponent.toNat) =
        quotient := ⟨_, rfl⟩
  have around : quotient * 10 ^ exponent ≤ (interval.num / interval.den : ℚ) ∧
      (interval.num / interval.den : ℚ) < (quotient + 1) * 10 ^ exponent := by
    have below := (Nat.le_div_iff_mul_le scale).1 found.ge
    have above := (Nat.div_lt_iff_lt_mul scale).1 (Nat.lt_succ_of_le found.le)
    have unit : (0 : ℚ) < tenTo (-exponent).toNat := mod_cast tenTo_pos _
    rw [ten_zpow_eq, ← mul_div_assoc, ← mul_div_assoc, div_le_div_iff₀ unit parts,
      div_lt_div_iff₀ parts unit, mul_assoc, mul_assoc, mul_comm (tenTo _ : ℚ)]
    exact_mod_cast And.intro below above
  have value (digits : Nat) : (⟨digits, exponent⟩ : Scaled).value = digits * 10 ^ exponent := rfl
  simp only [onGrid, found]
  cases below : interval.contains ⟨quotient, exponent⟩ <;>
    cases above : interval.contains ⟨quotient + 1, exponent⟩
  · -- then the two points are on either side of the interval
    exfalso
    rw [← Bool.not_eq_true, contains_iff sound, value] at below above
    push_cast at above
    have left : quotient * 10 ^ exponent ≤ interval.low := by
      refine not_lt.1 fun more => below ⟨.inl more, .inl (around.1.trans_lt inside.2)⟩
    have right : interval.high ≤ (quotient + 1) * 10 ^ exponent := by
      refine not_lt.1 fun less => above ⟨.inl (inside.1.trans around.2), .inl less⟩
    linarith
  all_goals rfl

end Interval

end Owned

/-! ## The interval of a float -/

section OfFloat

variable {spec : Format} {mantissa : Nat} {exponent : Int}

theorem ratio_one (exponent : Int) : 0 < (ratio 1 exponent).1 ∧ 0 < (ratio 1 exponent).2 ∧
    ((ratio 1 exponent).1 : ℚ) = 2 ^ exponent * (ratio 1 exponent).2 := by
  have power (bits : Nat) : 0 < Nat.pow 2 bits := Nat.pow_pos (by decide)
  rw [ratio]
  split
  · rename_i nonneg
    obtain ⟨bits, rfl⟩ := Int.eq_ofNat_of_zero_le nonneg
    exact ⟨Nat.mul_pos Nat.one_pos (power _), Nat.one_pos, by simp⟩
  · rename_i negative
    obtain ⟨bits, found⟩ := Int.eq_ofNat_of_zero_le (show 0 ≤ -exponent by omega)
    obtain rfl : exponent = -bits := by omega
    exact ⟨Nat.one_pos, power _, by simp⟩

theorem ratio_eq (mantissa : Nat) (exponent : Int) :
    ratio mantissa exponent = (mantissa * (ratio 1 exponent).1, (ratio 1 exponent).2) := by
  rw [ratio, ratio]
  split <;> simp

/-- A quarter of the unit of a float, in the units of its interval. -/
def quarter (exponent : Int) : Nat := (ratio 1 (exponent - 2)).1

/-- How many units of its interval a float has for one. -/
def parts (exponent : Int) : Nat := (ratio 1 (exponent - 2)).2

theorem quarter_pos (exponent : Int) : 0 < quarter exponent := (ratio_one _).1

theorem parts_pos (exponent : Int) : 0 < parts exponent := (ratio_one _).2.1

theorem four_mul_quarter (exponent : Int) : (4 * quarter exponent : ℚ) = 2 ^ exponent * parts exponent := by
  rw [quarter, (ratio_one _).2.2, zpow_sub₀ (by norm_num), parts]
  ring

/-- The interval of a float reaches as far as the float, upwards half a unit. -/
theorem owned_eq (spec : Format) (mantissa : Nat) (exponent : Int) : owned spec mantissa exponent =
    { num := 4 * mantissa * quarter exponent, den := parts exponent,
      down := reach spec mantissa exponent * quarter exponent, up := 2 * quarter exponent,
      closed := mantissa % 2 = 0 } := by
  rw [owned, ratio_eq]
  simp only [reach, Nat.pow_eq, quarter, parts]
  split <;> simp

theorem sound_owned (spec : Format) (positive : 0 < mantissa) (exponent : Int) :
    (owned spec mantissa exponent).Sound := by
  obtain ⟨some_reach, few⟩ := reach_le spec mantissa exponent
  rw [owned_eq]
  exact
    { some_den := parts_pos exponent
      room := Nat.mul_le_mul_right _ (by omega)
      some_down := Nat.mul_pos some_reach (quarter_pos exponent)
      some_up := Nat.mul_pos (by decide) (quarter_pos exponent) }

theorem owned_value (spec : Format) (mantissa : Nat) (exponent : Int) :
    ((owned spec mantissa exponent).num / (owned spec mantissa exponent).den : ℚ) =
      scaled mantissa exponent := by
  have some_part : (parts exponent : ℚ) ≠ 0 := mod_cast (parts_pos exponent).ne'
  rw [owned_eq, scaled, div_eq_iff some_part]
  push_cast
  linear_combination (mantissa : ℚ) * four_mul_quarter exponent

theorem four_mul_low (spec : Format) (mantissa : Nat) (exponent : Int) :
    4 * (owned spec mantissa exponent).low =
      (4 * mantissa - reach spec mantissa exponent) * 2 ^ exponent := by
  have some_part : (parts exponent : ℚ) ≠ 0 := mod_cast (parts_pos exponent).ne'
  rw [Owned.low, owned_eq, ← mul_div_assoc, div_eq_iff some_part]
  push_cast
  linear_combination (4 * mantissa - reach spec mantissa exponent : ℚ) * four_mul_quarter exponent

theorem two_mul_high (spec : Format) (mantissa : Nat) (exponent : Int) :
    2 * (owned spec mantissa exponent).high = (2 * mantissa + 1) * 2 ^ exponent := by
  have some_part : (parts exponent : ℚ) ≠ 0 := mod_cast (parts_pos exponent).ne'
  rw [Owned.high, owned_eq, ← mul_div_assoc, div_eq_iff some_part]
  push_cast
  linear_combination (2 * mantissa + 1 : ℚ) * four_mul_quarter exponent

/-- What is in the interval of a float is neither below nor above the float. -/
theorem owned_contains (positive : 0 < mantissa) {point : Scaled}
    (inside : (owned spec mantissa exponent).contains point = true) :
    NotBelow spec mantissa exponent point.value ∧ NotAbove mantissa exponent point.value := by
  have closed : (owned spec mantissa exponent).closed = true ↔ mantissa % 2 = 0 := decide_eq_true_iff
  rw [Owned.contains_iff (sound_owned spec positive exponent), closed] at inside
  have low := four_mul_low spec mantissa exponent
  have high := two_mul_high spec mantissa exponent
  rw [NotBelow, NotAbove, ← low, ← high]
  refine ⟨inside.1.imp (fun less => by linarith) (And.imp_left fun equal => by rw [equal]),
    inside.2.imp (fun less => by linarith) (And.imp_left fun equal => by rw [equal])⟩

/-! ## Doubles -/

/-- Seventeen digits of a double have their unit in its interval. -/
theorem seventeen_digits (few : mantissa < 2 ^ 53) {place : Int}
    (first : 10 ^ (place - 1) ≤ scaled mantissa exponent) :
    10 ^ (place - 17) < (owned Format.binary64 mantissa exponent).high -
      (owned Format.binary64 mantissa exponent).low := by
  have low := four_mul_low Format.binary64 mantissa exponent
  have high := two_mul_high Format.binary64 mantissa exponent
  have unit := two_zpow_pos exponent
  have last : (10 : ℚ) ^ (place - 17) * 10 ^ 16 ≤ mantissa * 2 ^ exponent := by
    refine le_of_eq_of_le ?_ first
    rw [← zpow_natCast, ← zpow_add₀ (by norm_num)]
    congr 1
    omega
  have wide : (mantissa : ℚ) * 2 ^ exponent * 4 <
      10 ^ 16 * ((reach Format.binary64 mantissa exponent + 2) * 2 ^ exponent) := by
    have some_bits : Format.binary64.mantissaBitsWithoutImplicit = 52 := rfl
    rw [reach, some_bits]
    split
    · rename_i power
      rw [power.1]
      push_cast
      linarith
    · have less : (mantissa : ℚ) < 2 ^ 53 := mod_cast few
      have := mul_lt_mul_of_pos_right less unit
      push_cast
      linarith
  linarith

/-- The search for the shortest digits ends with a hit. -/
theorem Owned.shortest_hit {interval : Owned} (sound : interval.Sound)
    (fine : (10 : ℚ) ^ (firstPlace interval.num interval.den - 17) < interval.high - interval.low) :
    ∃ point, interval.contains point = true ∧ interval.shortest.value = point.value ∧
      firstPlace interval.num interval.den - 17 ≤ interval.shortest.exponent := by
  rw [shortest]
  cases found : (List.range 17).findSome? fun (count : Nat) =>
      interval.onGrid (firstPlace interval.num interval.den - ((count : Int) + 1)) with
  | none =>
      have missed := List.findSome?_eq_none_iff.1 found 16 (by decide)
      have hit := onGrid_isSome sound fine
      rw [show firstPlace interval.num interval.den - (((16 : Nat) : Int) + 1) =
        firstPlace interval.num interval.den - 17 by omega] at missed
      rw [missed] at hit
      cases hit
  | some point =>
      obtain ⟨count, member, hit⟩ := List.exists_of_findSome?_eq_some found
      obtain ⟨inside, grid⟩ := contains_of_onGrid hit
      obtain ⟨same, le⟩ := value_trimmed 20 point
      have := List.mem_range.1 member
      exact ⟨point, inside, same, by rw [Option.getD_some]; omega⟩

theorem parts_lt {bits : Nat} (some_bits : bits ≠ 0) (least : 2 - (bits : Int) ≤ exponent) :
    parts exponent < 10 ^ bits := by
  rw [parts, ratio]
  split
  · exact Nat.one_lt_pow some_bits (by decide)
  · exact (Nat.pow_le_pow_right (by decide) (by omega)).trans_lt
      (Nat.pow_lt_pow_left (by decide) some_bits)

/-- The shortest digits of a double are neither below nor above it. -/
theorem shortest_owned (positive : 0 < mantissa) (few : mantissa < 2 ^ 53) (least : -1074 ≤ exponent) :
    NotBelow Format.binary64 mantissa exponent (owned Format.binary64 mantissa exponent).shortest.value ∧
      NotAbove mantissa exponent (owned Format.binary64 mantissa exponent).shortest.value ∧
      -1092 ≤ (owned Format.binary64 mantissa exponent).shortest.exponent := by
  have sound := sound_owned Format.binary64 positive exponent
  have first := ten_zpow_firstPlace_le (sound.some_down.trans_le sound.room) sound.some_den
  rw [owned_value] at first
  obtain ⟨point, inside, same, le⟩ := Owned.shortest_hit sound (seventeen_digits few first)
  have place : 1 - ((1076 : Nat) : Int) ≤ firstPlace (owned Format.binary64 mantissa exponent).num _ :=
    le_firstPlace (by decide) (show (owned Format.binary64 mantissa exponent).den < _ by
      rw [owned_eq]
      exact parts_lt (by decide) (by omega))
  rw [same]
  exact ⟨(owned_contains positive inside).1, (owned_contains positive inside).2, by omega⟩

end OfFloat

end OverlayRouting.Decimal
