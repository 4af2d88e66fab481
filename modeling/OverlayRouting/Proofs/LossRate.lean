/-
# OverlayRouting.Proofs.LossRate -- the loss of a tally and the mean loss of a window

The loss of a tally is worked out in doubles from two counts that may have no exact double.
Still it is never negative and always a number (`Tally.nonneg_loss`), it is zero as soon as there
are as many replies as probes (`Tally.loss_zero`), and one without a reply (`Tally.loss_one`).

The mean over a window is a sum of singles divided by the number of slots, both rounded.  It is
zero if no slot has a loss (`Window.loss_zero`), and positive, however many slots there are, if
some slot has lost all (`Window.loss_positive_of_slot`).
-/
import OverlayRouting.Proofs.Magnitude
import OverlayRouting.Peer
import OverlayRouting.Tally

namespace OverlayRouting

set_option autoImplicit false

open Float.Model (Format UnpackedFloat totalExponent)

namespace Decimal

/-! ## Singles and doubles -/

/-- What a single stands for. -/
def single (x : Float32) : UnpackedFloat := UnpackedFloat.unpack Format.binary32 x.toBits.toBitVec

/-- What a double stands for. -/
def double (x : Float) : UnpackedFloat := UnpackedFloat.unpack Format.binary64 x.toBits.toBitVec

theorem canonical_single (x : Float32) : Canonical Format.binary32 (single x) := canonical_unpack _

theorem canonical_double (x : Float) : Canonical Format.binary64 (double x) := canonical_unpack _

section Operations

variable (x y : Float32) (u v : Float) (count : UInt64)

theorem single_add : single (x + y) =
    stored Format.binary32 (UnpackedFloat.add Format.binary32 (single x) (single y)) := rfl

theorem single_mul : single (x * y) =
    stored Format.binary32 (UnpackedFloat.mul Format.binary32 (single x) (single y)) := rfl

theorem double_div : double (u / v) =
    stored Format.binary64 (UnpackedFloat.div Format.binary64 (double u) (double v)) := rfl

theorem single_lt : x < y ↔ (single x).lt (single y) = true := decide_eq_true_iff

theorem double_lt : u < v ↔ (double u).lt (double v) = true := decide_eq_true_iff

theorem single_toFloat32 : single count.toFloat32 =
    stored Format.binary32 (UnpackedFloat.normalize Format.binary32 count.toNat 0 .positive) := rfl

theorem double_toFloat : double count.toFloat =
    stored Format.binary64 (UnpackedFloat.normalize Format.binary64 count.toNat 0 .positive) := rfl

theorem single_narrow : single (narrow u) =
    stored Format.binary32 (stored Format.binary32 (rounded Format.binary32 (double u))) := rfl

theorem single_negZero : single (-0) = .zero .negative := rfl

end Operations

/-! ## Counts -/

theorem single_ofNat_small {n : Nat} (small : n < 2 ^ 23) :
    single (Float32.ofNat n) = stored Format.binary32 (UnpackedFloat.mul Format.binary32
      (stored Format.binary32 (UnpackedFloat.normalize Format.binary32 (n % 2 ^ 64 : Nat) 0 .positive))
      (.finite .positive (2 ^ 23) (-23) (by decide))) := by
  have simple : n < 2 ^ 23 ∧ 0 ≤ 10 := ⟨small, by decide⟩
  change single (Float32.ofScientific n false 0) = _
  rw [Float32.ofScientific, dif_pos simple]
  change single (n.toUInt64.toFloat32 * Float32.ofBits 0x3F800000) = _
  rw [single_mul, single_toFloat32]
  have one : single (Float32.ofBits 0x3F800000) = .finite .positive (2 ^ 23) (-23) (by decide) := rfl
  rw [one, UInt64.toNat_ofNat']

theorem single_ofNat_large {n : Nat} (large : 2 ^ 23 ≤ n) :
    single (Float32.ofNat n) = stored Format.binary32 (UnpackedFloat.ofScientific Format.binary32 n 0) := by
  change single (Float32.ofScientific n false 0) = _
  rw [Float32.ofScientific, dif_neg (by omega)]
  rfl

/-- A number whose first digit is not too high is stored as a finite one. -/
theorem within_stored {spec : Format} {mantissa : Nat} {exponent bound : Int}
    (positive : 0 < mantissa) (held : spec.minExponent < totalExponent mantissa exponent)
    (low : exponent ≤ spec.targetExponent (totalExponent mantissa exponent))
    (below : totalExponent mantissa exponent < bound) (small : bound ≤ spec.exponentBias + 1)
    (signed : 0 < spec.exponentBias) (accuracy : UnpackedFloat.Accuracy) :
    Within bound (stored spec
      (UnpackedFloat.roundWithAccuracy spec .positive mantissa exponent accuracy)) := by
  have canonical := canonical_roundWithAccuracy .positive accuracy low
  obtain ⟨last, final, some_left, round, total⟩ :=
    roundWithAccuracy_finite positive held .positive accuracy
  rw [round] at canonical ⊢
  have within : Within bound (.finite .positive last final some_left) := .finite (by omega)
  rwa [within.stored_eq canonical small signed]

theorem ofScientific_zero (spec : Format) {mantissa : Nat} (positive : 0 < mantissa) :
    UnpackedFloat.ofScientific spec mantissa 0 =
      UnpackedFloat.roundWithAccuracy spec .positive (mantissa * 2 ^ spec.mantissaBits)
        (0 - spec.mantissaBits) .exact := by
  have bounded : ¬ (0 : Int) > 2 ^ spec.exponentBits :=
    Int.not_lt.2 (mod_cast Nat.zero_le (2 ^ spec.exponentBits))
  have bounded' : ¬ (0 : Int) < -(2 ^ spec.exponentBits + mantissa.log2) := by omega
  rw [UnpackedFloat.ofScientific, dif_neg positive.ne', if_neg bounded, if_neg bounded',
    if_pos (Int.le_refl 0)]
  simp only [UnpackedFloat.mul, Nat.shiftLeft_eq, Int.toNat_zero, Nat.pow_zero, Nat.mul_one,
    Int.add_zero, Int.zero_sub]
  rfl

theorem ofNat_within {n : Nat} (positive : 0 < n) (small : n < 2 ^ 64) :
    Within 66 (single (Float32.ofNat n)) := by
  have digits : n.log2 < 64 := (Nat.log2_lt positive.ne').2 small
  have total : totalExponent n 0 = n.log2 + 1 := by simp [totalExponent]
  have lowest : Format.binary32.minExponent = -149 := by decide
  by_cases few : n < 2 ^ 23
  · have held : Format.binary32.minExponent < totalExponent n 0 := by omega
    have canonical := canonical_round Format.binary32 0 .positive positive
    obtain ⟨last, final, some_left, round, place⟩ := round_held positive held .positive
    rw [single_ofNat_small few, Nat.mod_eq_of_lt small, normalize_natCast positive, round]
    rw [round] at canonical
    have within : Within 66 (.finite .positive last final some_left) := .finite (by omega)
    rw [within.stored_eq canonical (by decide) (by decide)]
    have same : totalExponent (last * 2 ^ 23) (final + -23) = totalExponent last final :=
      totalExponent_mul_two_pow some_left final 23
    rw [Canonical] at canonical
    exact within_stored (Nat.mul_pos some_left (by decide)) (by omega)
      (by rw [same]; omega) (by omega) (by decide) (by decide) .exact
  · have same := totalExponent_mul_two_pow positive 0 Format.binary32.mantissaBits
    have precise : Format.binary32.mantissaBits = 24 := by decide
    have room := Int.le_max_left (totalExponent n 0 - Format.binary32.mantissaBits)
      Format.binary32.minExponent
    rw [← Format.targetExponent] at room
    rw [single_ofNat_large (Nat.le_of_not_lt few), ofScientific_zero _ positive]
    exact within_stored (Nat.mul_pos positive (Nat.two_pow_pos _)) (by omega)
      (by rw [same]; omega) (by omega) (by decide) (by decide) .exact

theorem double_toFloat_eq {count : UInt64} (positive : 0 < count) :
    double count.toFloat = UnpackedFloat.round Format.binary64 .positive count.toNat 0 ∧
      Within 66 (double count.toFloat) := by
  have some_count : 0 < count.toNat := UInt64.lt_iff_toNat_lt.1 positive
  have digits : count.toNat.log2 < 64 := (Nat.log2_lt some_count.ne').2 count.toNat_lt
  have total : totalExponent count.toNat 0 = count.toNat.log2 + 1 := by simp [totalExponent]
  have lowest : Format.binary64.minExponent = -1074 := by decide
  have canonical := canonical_round Format.binary64 0 .positive some_count
  obtain ⟨last, final, some_left, round, place⟩ := round_held some_count
    (by omega : Format.binary64.minExponent < totalExponent count.toNat 0) .positive
  rw [double_toFloat, normalize_natCast some_count]
  rw [round] at canonical ⊢
  have within : Within 66 (.finite .positive last final some_left) := .finite (by omega)
  rw [within.stored_eq canonical (by decide) (by decide)]
  exact ⟨rfl, within⟩

theorem toFloat_mono {count count' : UInt64} (positive : 0 < count) (le : count ≤ count') :
    AtMost (double count.toFloat) (double count'.toFloat) := by
  have some_count : 0 < count.toNat := UInt64.lt_iff_toNat_lt.1 positive
  have lowest : Format.binary64.minExponent = -1074 := by decide
  rw [(double_toFloat_eq positive).1, (double_toFloat_eq (UInt64.lt_of_lt_of_le positive le)).1]
  refine round_mono some_count (UInt64.le_iff_toNat_le.1 le) ?_
  unfold totalExponent
  omega

theorem nonneg_toFloat (count : UInt64) : Nonneg (double count.toFloat) := by
  by_cases positive : 0 < count
  · exact (double_toFloat_eq positive).2.nonneg
  · have none : count = 0 := by
      rw [UInt64.lt_iff_toNat_lt, UInt64.toNat_zero, Nat.not_lt, Nat.le_zero] at positive
      exact UInt64.toNat_inj.1 positive
    rw [none]
    exact .zero .positive

/-! ## Narrowing -/

theorem Nonneg.rounded (spec : Format) {x : UnpackedFloat} (nonneg : Nonneg x) :
    Nonneg (rounded spec x) ∧ Canonical spec (rounded spec x) := by
  cases nonneg with
  | zero sign => exact ⟨.zero sign, trivial⟩
  | finite positive => exact ⟨nonneg_round _, canonical_round spec _ .positive positive⟩
  | infinity => exact ⟨.infinity, trivial⟩

theorem nonneg_narrow {x : Float} (nonneg : Nonneg (double x)) : Nonneg (single (narrow x)) := by
  obtain ⟨rounds, canonical⟩ := nonneg.rounded Format.binary32
  rw [single_narrow]
  exact (rounds.stored canonical).stored (canonical_unpack _)

theorem IsZero.rounded {spec : Format} {x : UnpackedFloat} (zero : IsZero x) :
    IsZero (rounded spec x) := by
  cases zero with
  | zero sign => exact .zero sign

theorem narrow_zero {x : Float} (zero : IsZero (double x)) : IsZero (single (narrow x)) := by
  rw [single_narrow]
  exact zero.rounded.stored.stored

end Decimal

namespace Tally

open Decimal

variable {tally : Tally}

/-- The share of lost probes before it is brought into its bounds. -/
def lost (tally : Tally) : Float := 1 - tally.received.toFloat / tally.sent.toFloat

theorem loss_eq (probed : 0 < tally.sent) :
    tally.loss = narrow (if tally.lost < 0 then 0 else if 1 < tally.lost then 1 else tally.lost) := by
  have some_sent : tally.sent ≠ 0 := by
    rintro none
    rw [none] at probed
    exact absurd probed (by decide)
  rw [loss, if_neg some_sent]
  rfl

/-- The share of answered probes. -/
def answered (tally : Tally) : Float := tally.received.toFloat / tally.sent.toFloat

theorem double_lost (tally : Tally) :
    double tally.lost = stored Format.binary64 (UnpackedFloat.sub Format.binary64
      (.finite .positive (2 ^ 52) (-52) (by decide)) (double tally.answered)) := rfl

theorem canonical_one : Canonical Format.binary64 (.finite .positive (2 ^ 52) (-52) (by decide)) :=
  canonical_double 1

theorem canonical_lost (tally : Tally) :
    Canonical Format.binary64 (UnpackedFloat.sub Format.binary64
      (.finite .positive (2 ^ 52) (-52) (by decide)) (double tally.answered)) :=
  canonical_sub canonical_one (canonical_double _)

theorem nonneg_answered (probed : 0 < tally.sent) :
    let ratio := UnpackedFloat.div Format.binary64 (double tally.received.toFloat)
      (double tally.sent.toFloat)
    Canonical Format.binary64 ratio ∧ Nonneg (double tally.answered) := by
  obtain ⟨nonneg, canonical⟩ := (nonneg_toFloat tally.received).div (double_toFloat_eq probed).2
  exact ⟨canonical, nonneg.stored canonical⟩

/-- A tally never counts less than no loss, and its loss is a number. -/
theorem nonneg_loss (tally : Tally) : Nonneg (single tally.loss) := by
  by_cases probed : 0 < tally.sent
  · have number : Nonneg (double tally.lost) ∨ Nonpos (double tally.lost) :=
      (sub_number (by decide) (nonneg_answered probed).2).imp (·.stored (canonical_lost tally))
        (·.stored (canonical_lost tally))
    rw [loss_eq probed]
    refine nonneg_narrow ?_
    split
    · exact .zero _
    · rename_i least
      split
      · exact .finite _
      · rcases number with nonneg | nonpos
        · exact nonneg
        · rw [double_lt] at least
          exact ((nonpos.zero_or_lt (.zero .positive)).resolve_right least).nonneg
  · have none : tally.sent = 0 := by
      rw [UInt64.lt_iff_toNat_lt, UInt64.toNat_zero, Nat.not_lt, Nat.le_zero] at probed
      exact UInt64.toNat_inj.1 probed
    rw [loss, if_pos none]
    exact .zero .positive

/-- With as many replies as probes, or more, there is no loss. -/
theorem loss_zero (probed : 0 < tally.sent) (replied : tally.sent ≤ tally.received) :
    IsZero (single tally.loss) := by
  have whole : AtLeast 1 (double tally.answered) :=
    (toFloat_mono probed replied).div.stored (nonneg_answered probed).1
  have nonpos : Nonpos (double tally.lost) := by
    rw [double_lost]
    exact (AtLeast.sub (by decide) (by rw [Nat.log2_two_pow]) canonical_one (canonical_double _)
      whole).stored (canonical_lost tally)
  rw [loss_eq probed]
  refine narrow_zero ?_
  split
  · exact .zero _
  · rename_i least
    rw [double_lt] at least
    have zero := (nonpos.zero_or_lt (.zero .positive)).resolve_right least
    have small : ¬ 1 < tally.lost := by
      rw [double_lt]
      generalize double tally.lost = lost at zero
      cases zero with
      | zero => exact Bool.false_ne_true
    rwa [if_neg small]

/-- Without a reply every probe is lost. -/
theorem loss_one (probed : 0 < tally.sent) (silent : tally.received = 0) :
    AtLeast 1 (single tally.loss) := by
  have none_answered : IsZero (double tally.answered) := by
    rw [answered, double_div, silent]
    exact ((IsZero.zero .positive).div (double_toFloat_eq probed).2).stored
  have all_lost : double tally.lost = double 1 := by
    rw [double_lost]
    generalize double tally.answered = ratio at none_answered
    cases none_answered with
    | zero sign => rfl
  have number : ¬ tally.lost < 0 := by
    rw [double_lt, all_lost]
    exact Bool.false_ne_true
  have bounded : ¬ 1 < tally.lost := by
    rw [double_lt, all_lost]
    exact Bool.false_ne_true
  rw [loss_eq probed, if_neg number, if_neg bounded, single_narrow, all_lost]
  exact .finite (by decide)

end Tally

namespace Window

open Decimal

variable {window : Window}

theorem single_sum (losses : List Float32) {start : Float32}
    (begins : Nonneg (single start)) (nonneg : ∀ loss ∈ losses, Nonneg (single loss)) :
    Nonneg (single (losses.foldl (· + ·) start)) := by
  induction losses generalizing start with
  | nil => exact begins
  | cons loss rest ih =>
      obtain ⟨first, others⟩ := List.forall_mem_cons.1 nonneg
      refine ih ?_ others
      rw [single_add]
      exact (begins.add first).stored (canonical_add (canonical_single _) (canonical_single _))

theorem sum_zero (losses : List Float32) {start : Float32}
    (begins : IsZero (single start)) (zero : ∀ loss ∈ losses, IsZero (single loss)) :
    IsZero (single (losses.foldl (· + ·) start)) := by
  induction losses generalizing start with
  | nil => exact begins
  | cons loss rest ih =>
      obtain ⟨first, others⟩ := List.forall_mem_cons.1 zero
      refine ih ?_ others
      rw [single_add]
      exact (begins.add first).stored

theorem sum_atLeast (losses : List Float32) {start : Float32} {place : Int}
    (held : Format.binary32.minExponent < place) (begins : Nonneg (single start))
    (nonneg : ∀ loss ∈ losses, Nonneg (single loss))
    (reaches : AtLeast place (single start) ∨ ∃ loss ∈ losses, AtLeast place (single loss)) :
    AtLeast place (single (losses.foldl (· + ·) start)) := by
  induction losses generalizing start with
  | nil => simpa using reaches
  | cons loss rest ih =>
      obtain ⟨first, others⟩ := List.forall_mem_cons.1 nonneg
      have canonical : Canonical Format.binary32
          (UnpackedFloat.add Format.binary32 (single start) (single loss)) :=
        canonical_add (canonical_single _) (canonical_single _)
      have grown : AtLeast place (single start) ∨ AtLeast place (single loss) →
          AtLeast place (single (start + loss)) := fun reached =>
        (AtLeast.add begins first held reached).stored canonical
      refine ih ((begins.add first).stored canonical) others ?_
      simp only [List.mem_cons, exists_eq_or_imp] at reaches
      rcases reaches with before | here | later
      · exact .inl (grown (.inl before))
      · exact .inl (grown (.inr here))
      · exact .inr later

theorem nonneg_start : Nonneg (single (-0)) := by
  rw [single_negZero]
  exact .zero .negative

theorem zero_start : IsZero (single (-0)) := by
  rw [single_negZero]
  exact .zero .negative

/-- The sum of the losses of all slots. -/
def totalLoss (window : Window) : Float32 := (window.slots.map Measurement.loss).foldl (· + ·) (-0)

theorem single_loss (window : Window) :
    single window.loss = stored Format.binary32 (UnpackedFloat.div Format.binary32
      (single window.totalLoss) (single (Float32.ofNat window.size))) := rfl

theorem nonneg_loss (held : window.size < 2 ^ 64)
    (nonneg : ∀ slot ∈ window.slots, Nonneg (single slot.loss)) : Nonneg (single window.loss) := by
  have total : Nonneg (single window.totalLoss) :=
    single_sum _ nonneg_start (List.forall_mem_map.2 nonneg)
  obtain ⟨quotient, canonical⟩ := total.div (ofNat_within window.size_pos held)
  rw [single_loss]
  exact quotient.stored canonical

theorem loss_zero (held : window.size < 2 ^ 64)
    (zero : ∀ slot ∈ window.slots, IsZero (single slot.loss)) : IsZero (single window.loss) := by
  have total : IsZero (single window.totalLoss) :=
    sum_zero _ zero_start (List.forall_mem_map.2 zero)
  rw [single_loss]
  exact (total.div (ofNat_within window.size_pos held)).stored

/-- The mean of the losses of a window in which all probes of some round were lost is positive. -/
theorem loss_positive_of_slot (held : window.size < 2 ^ 64)
    (nonneg : ∀ slot ∈ window.slots, Nonneg (single slot.loss))
    (lost : ∃ slot ∈ window.slots, AtLeast 1 (single slot.loss)) :
    AtLeast (-65) (single window.loss) := by
  have lowest : Format.binary32.minExponent = -149 := by decide
  have within := ofNat_within window.size_pos held
  have total : AtLeast 1 (single window.totalLoss) := by
    obtain ⟨slot, member, lost⟩ := lost
    exact sum_atLeast _ (by omega) nonneg_start (List.forall_mem_map.2 nonneg)
      (.inr ⟨_, List.mem_map_of_mem member, lost⟩)
  have mean := total.div within (by omega : Format.binary32.minExponent < 1 - 66)
  rw [single_loss]
  exact mean.stored (total.nonneg.div within).2

/-- The mean of the losses of a window in which all probes were lost is positive. -/
theorem loss_positive (held : window.size < 2 ^ 64)
    (lost : ∀ slot ∈ window.slots, AtLeast 1 (single slot.loss)) :
    AtLeast (-65) (single window.loss) :=
  loss_positive_of_slot held (fun slot member => (lost slot member).nonneg)
    ⟨_, List.getElem_mem window.cursor_lt, lost _ (List.getElem_mem window.cursor_lt)⟩

end Window

end OverlayRouting
