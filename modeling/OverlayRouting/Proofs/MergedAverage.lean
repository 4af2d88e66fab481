/-
# OverlayRouting.Proofs.MergedAverage -- a merged average between the averages

Averages are weighted with the replies that they stand for, and divided by the replies that the
merged tally counts.  These are fewer if the counter stops, so the quotient is never below both
averages; it is above both if the replies that are not counted weigh more than the distance of
the lower average from the higher one (`exactAverage_le_iff`).

The floats keep to what holds of the exact quotient (`merged_average`), as the doubles in which the
average is worked out are off by less than a single can tell (`near_weighted`).
-/
import OverlayRouting.Proofs.Accuracy
import OverlayRouting.Tallies

namespace OverlayRouting

set_option autoImplicit false

open Decimal

namespace Tally

/-- The replies of two tallies that their sum does not count. -/
def uncounted (a b : Tally) : Nat := a.received.toNat + b.received.toNat - countLimit

/-- What the average of two tallies is before any rounding. -/
def exactAverage (a b : Tally) : ℚ :=
  (value a.average * a.received.toNat + value b.average * b.received.toNat) /
    (cappedSum a.received b.received).toNat

variable {a b : Tally}

/-! ## The exact average -/

theorem counted_pos (received : 0 < a.received) (b : Tally) :
    0 < cappedSum a.received b.received := by
  rw [UInt64.lt_iff_toNat_lt, UInt64.toNat_zero] at received ⊢
  rw [toNat_cappedSum, countLimit]
  have : 0 < UInt64.size - 1 := by decide
  omega

theorem counted_add_uncounted (a b : Tally) :
    ((cappedSum a.received b.received).toNat : ℚ) + uncounted a b =
      a.received.toNat + b.received.toNat := by
  rw [toNat_cappedSum, uncounted]
  generalize countLimit = limit
  norm_cast
  omega

theorem le_exactAverage (received : 0 < a.received) (nonneg : 0 ≤ value a.average)
    (nonneg' : 0 ≤ value b.average) : min (value a.average) (value b.average) ≤ exactAverage a b := by
  have some_counted : (0 : ℚ) < (cappedSum a.received b.received).toNat :=
    mod_cast UInt64.lt_iff_toNat_lt.1 (counted_pos received b)
  have all := counted_add_uncounted a b
  have some_least := le_min nonneg nonneg'
  rw [exactAverage, le_div_iff₀ some_counted]
  calc min (value a.average) (value b.average) * (cappedSum a.received b.received).toNat
      ≤ min (value a.average) (value b.average) * (a.received.toNat + b.received.toNat) := by
        rw [← all]
        gcongr
        exact le_add_of_nonneg_right (Nat.cast_nonneg _)
    _ ≤ value a.average * a.received.toNat + value b.average * b.received.toNat := by
        rw [mul_add]
        gcongr
        · exact min_le_left _ _
        · exact min_le_right _ _

theorem exactAverage_le_iff (received : 0 < a.received) (most : ℚ) :
    exactAverage a b ≤ most ↔ uncounted a b * most ≤
      a.received.toNat * (most - value a.average) + b.received.toNat * (most - value b.average) := by
  have some_counted : (0 : ℚ) < (cappedSum a.received b.received).toNat :=
    mod_cast UInt64.lt_iff_toNat_lt.1 (counted_pos received b)
  have all := counted_add_uncounted a b
  rw [exactAverage, div_le_iff₀ some_counted, eq_sub_of_add_eq all]
  constructor <;> intro le <;> linarith

/-! ## The average in floats -/

section Floats

variable (nonneg : 0 ≤ a.average) (finite : a.average.isFinite = true) (received : 0 < a.received)
  (nonneg' : 0 ≤ b.average) (finite' : b.average.isFinite = true) (received' : 0 < b.received)

theorem inRange_count {count : UInt64} (positive : 0 < count) :
    (1 : ℚ) ≤ count.toNat ∧ InRange 0 64 count.toNat := by
  have some_count : (1 : ℚ) ≤ count.toNat := mod_cast UInt64.lt_iff_toNat_lt.1 positive
  exact ⟨some_count, .inr ⟨some_count, mod_cast count.toNat_lt.le⟩⟩

include nonneg finite received in
/-- The average of a tally, as often as it has replies. -/
theorem near_weight :
    Near (4 * roundOff) (value a.average * a.received.toNat)
        (double (widen a.average * a.received.toFloat)) ∧
      InRange (-149) 192 (value a.average * a.received.toNat) := by
  have range := inRange_value nonneg finite
  obtain ⟨one, range'⟩ := inRange_count received
  constructor
  · refine (near_widen nonneg finite).mul (near_toFloat received)
      (range.mono (by norm_num) (by norm_num)) (range'.mono (by norm_num) (by norm_num)) ?_ ?_ ?_ ?_ ?_
    all_goals norm_num [roundOff]
  · have at_least := range.nonneg
    rcases range with none | ⟨least, most⟩
    · exact .inl (by rw [none, zero_mul])
    refine .inr ⟨?_, ?_⟩
    · exact least.trans (le_mul_of_one_le_right at_least one)
    · have count := (range'.resolve_left (zero_lt_one.trans_le one).ne').2
      calc value a.average * a.received.toNat ≤ 2 ^ (128 : Int) * 2 ^ (64 : Int) := by gcongr
        _ = 2 ^ (192 : Int) := by norm_num

theorem moderate_sum {v w : ℚ} (range : InRange (-149) 192 v) (range' : InRange (-149) 192 w) :
    Moderate (v + w) := by
  have high : (2 : ℚ) ^ (192 : Int) + 2 ^ (192 : Int) ≤ 2 ^ (200 : Int) := by norm_num
  have low : (2 : ℚ) ^ (-200 : Int) ≤ 2 ^ (-149 : Int) := two_zpow_le (by norm_num)
  have some_v := range.nonneg
  have some_w := range'.nonneg
  rcases range with rfl | ⟨least, most⟩
  · rw [zero_add]
    exact range'.mono (by norm_num) (by norm_num)
  · refine .inr ⟨by linarith, ?_⟩
    rcases range' with rfl | ⟨-, most'⟩ <;> linarith

include nonneg finite received nonneg' finite' received' in
theorem near_weighted : Near (9 * roundOff) (exactAverage a b)
    (double ((widen a.average * a.received.toFloat + widen b.average * b.received.toFloat) /
      (cappedSum a.received b.received).toFloat)) := by
  obtain ⟨near, range⟩ := near_weight nonneg finite received
  obtain ⟨near', range'⟩ := near_weight nonneg' finite' received'
  have counted := counted_pos received b
  obtain ⟨one, count⟩ := inRange_count counted
  have sum : Near (6 * roundOff) _ _ := near.add near' (range.mono (by norm_num) (by norm_num))
    (range'.mono (by norm_num) (by norm_num)) (by norm_num [roundOff]) (by norm_num [roundOff])
    (by norm_num [roundOff])
  refine sum.div (near_toFloat counted) (moderate_sum range range')
    (count.mono (by norm_num) (by norm_num)) (zero_lt_one.trans_le one) ?_ ?_ ?_ ?_ ?_
  all_goals norm_num [roundOff]

end Floats

/-! ## Merged tallies -/

theorem average_merge (received : 0 < a.received) (received' : 0 < b.received) :
    (a.merge b).average =
      narrow ((widen a.average * a.received.toFloat + widen b.average * b.received.toFloat) /
        (cappedSum a.received b.received).toFloat) := by
  have some_reply {count : UInt64} (positive : 0 < count) : count ≠ 0 := by
    rintro rfl
    exact absurd positive (by decide)
  rw [merge, mergedAverage, if_neg (some_reply received'), if_neg (some_reply received)]

end Tally

open Tally

/-- The average of merged tallies is never below both averages.  It is not above both of them if
the exact one is not, and so if the counter holds all replies. -/
theorem merged_average {earlier later : Tallies} {address : Address} {a b : Tally}
    (known : earlier.get? address = some a) (known' : later.get? address = some b)
    (received : 0 < a.received) (received' : 0 < b.received)
    (nonneg : 0 ≤ a.average) (finite : a.average.isFinite = true)
    (nonneg' : 0 ≤ b.average) (finite' : b.average.isFinite = true) :
    ∃ merged, (earlier.merge later).get? address = some merged ∧
      min (value a.average) (value b.average) ≤ exactAverage a b ∧
      (exactAverage a b ≤ max (value a.average) (value b.average) ↔
        uncounted a b * max (value a.average) (value b.average) ≤
          a.received.toNat * (max (value a.average) (value b.average) - value a.average) +
            b.received.toNat * (max (value a.average) (value b.average) - value b.average)) ∧
      (a.average ≤ merged.average ∨ b.average ≤ merged.average) ∧
      (exactAverage a b ≤ max (value a.average) (value b.average) →
        merged.average ≤ a.average ∨ merged.average ≤ b.average) ∧
      (a.received.toNat + b.received.toNat ≤ countLimit →
        merged.average ≤ a.average ∨ merged.average ≤ b.average) := by
  have some_value := (inRange_value nonneg finite).nonneg
  have some_value' := (inRange_value nonneg' finite').nonneg
  have near := near_weighted nonneg finite received nonneg' finite' received'
  have least := le_exactAverage received some_value some_value'
  have bound := exactAverage_le_iff (b := b) received (max (value a.average) (value b.average))
  have tiny : 9 * roundOff ≤ 1 / 2 ^ 27 := by norm_num [roundOff]
  have not_above (within : exactAverage a b ≤ max (value a.average) (value b.average)) :
      (a.merge b).average ≤ a.average ∨ (a.merge b).average ≤ b.average := by
    rw [average_merge received received']
    refine (le_max_iff.1 within).imp (near.narrow_le nonneg finite ?_ tiny)
      (near.narrow_le nonneg' finite' ?_ tiny) <;> norm_num [roundOff]
  refine ⟨a.merge b, ?_, least, bound, ?_, not_above, fun all => not_above (bound.2 ?_)⟩
  · rw [Tallies.get?_merge, known', Tallies.tally, known]
    rfl
  · rw [average_merge received received']
    exact (min_le_iff.1 least).imp (near.le_narrow nonneg finite tiny)
      (near.le_narrow nonneg' finite' tiny)
  · rw [uncounted, Nat.sub_eq_zero_of_le all, Nat.cast_zero, zero_mul]
    have := le_max_left (value a.average) (value b.average)
    have := le_max_right (value a.average) (value b.average)
    positivity

namespace Sample

/-- A place that tells of one address only. -/
def measured (tally : Tally) : Tallies := (∅ : Tallies).update (.v4 0x0A000001#32) fun _ => tally

/-- As many replies as are ever counted. -/
def saturated : Tally := ⟨0xFFFFFFFFFFFFFFFF, 0xFFFFFFFFFFFFFFFF, 10, 10⟩

end Sample

/-- One reply of a hundred milliseconds and two of forty. -/
theorem merged_average_of_three :
    ∃ merged, ((Sample.measured ⟨1, 1, 100, 100⟩).merge (Sample.measured ⟨2, 2, 40, 40⟩)).get?
        (.v4 0x0A000001#32) = some merged ∧
      ((100 : Float32) ≤ merged.average ∨ 40 ≤ merged.average) ∧
      (merged.average ≤ (100 : Float32) ∨ merged.average ≤ 40) := by
  have known : (Sample.measured ⟨1, 1, 100, 100⟩).get? (.v4 0x0A000001#32) = some ⟨1, 1, 100, 100⟩ := rfl
  have known' : (Sample.measured ⟨2, 2, 40, 40⟩).get? (.v4 0x0A000001#32) = some ⟨2, 2, 40, 40⟩ := rfl
  obtain ⟨merged, found, -, -, above, -, below⟩ := merged_average known known' (by decide)
    (by decide) (by decide) (by decide) (by decide) (by decide)
  exact ⟨merged, found, above, below (by decide)⟩

/-- Two places have counted all replies that there may be, with ten milliseconds on average, and
the average of both is twenty. -/
theorem average_doubled :
    (Sample.measured Sample.saturated).get? (.v4 0x0A000001#32) = some Sample.saturated ∧
    0 < Sample.saturated.received ∧ Sample.saturated.average = 10 ∧
    ∃ merged, ((Sample.measured Sample.saturated).merge (Sample.measured Sample.saturated)).get?
      (.v4 0x0A000001#32) = some merged ∧ merged.average = 20 ∧
      ¬ merged.average ≤ Sample.saturated.average := by
  refine ⟨rfl, by decide, rfl, Sample.saturated.merge Sample.saturated, rfl, ?_, ?_⟩
  · decide +kernel
  · decide +kernel

end OverlayRouting
