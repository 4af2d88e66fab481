/-
# OverlayRouting.Proofs.FloatOrder -- numbers in the order of floats

Two floats are compared by their signs, then by their exponents and then by their mantissas, and
what is not a number compares with nothing.  So every number has a `height` in a linear order,
the same one for both zeros, and two numbers compare as their heights do (`compare_eq`).  What
holds in a linear order holds of numbers then: of two of them one is not above the other, and
being less is transitive.

What is above zero, or not below one, is a number of known kind (`nonneg_of_pos`,
`atLeast_of_one_le`).
-/
import OverlayRouting.Proofs.LossRate

namespace OverlayRouting.Decimal

set_option autoImplicit false

open Float.Model (Format UnpackedFloat)

/-! ## Heights -/

/-- The place of a number among all of them: its sign, or beyond that for an infinity, its
exponent and its mantissa.  A negative number is the lower the larger these are. -/
def height : UnpackedFloat → ℤ ×ₗ ℤ ×ₗ ℤ
  | .notANumber | .zero _ => toLex (0, toLex (0, 0))
  | .infinity .positive => toLex (2, toLex (0, 0))
  | .infinity .negative => toLex (-2, toLex (0, 0))
  | .finite .positive mantissa exponent _ => toLex (1, toLex (exponent, (mantissa : ℤ)))
  | .finite .negative mantissa exponent _ => toLex (-1, toLex (-exponent, -(mantissa : ℤ)))

theorem compare_natCast (m n : Nat) : compare (m : Int) n = compare m n := by
  rw [← cmp_eq_compare, ← cmp_eq_compare]
  exact Nat.strictMono_cast.cmp_map_eq m n

theorem compare_neg (m n : Int) : compare (-m) (-n) = (compare m n).swap := by
  rw [← cmp_eq_compare, ← cmp_eq_compare, cmp_swap]
  exact StrictAnti.cmp_map_eq (fun _ _ => Int.neg_lt_neg) m n

section

variable {x y : UnpackedFloat}

theorem compare_eq (number : x.isNaN = false) (number' : y.isNaN = false) :
    x.compare y = some (compare (height x) (height y)) := by
  cases x with
  | notANumber => cases number
  | infinity sign =>
      cases y with
      | notANumber => cases number'
      | infinity sign' | finite sign' => cases sign <;> cases sign' <;> rfl
      | zero => cases sign <;> rfl
  | zero =>
      cases y with
      | notANumber => cases number'
      | infinity sign' | finite sign' => cases sign' <;> rfl
      | zero => rfl
  | finite sign mantissa exponent =>
      cases y with
      | notANumber => cases number'
      | infinity sign' => cases sign <;> cases sign' <;> rfl
      | zero => cases sign <;> rfl
      | finite sign' mantissa' exponent' =>
          cases sign <;> cases sign'
          · -- of two negative numbers the one with the larger figures is the lower one
            change some ((compare exponent exponent').then (compare mantissa mantissa')).swap =
              some ((compare (-exponent) (-exponent')).then
                (compare (-(mantissa : ℤ)) (-(mantissa' : ℤ))))
            rw [compare_neg, compare_neg, compare_natCast, Ordering.swap_then]
          · rfl
          · rfl
          · change some ((compare exponent exponent').then (compare mantissa mantissa')) =
              some ((compare exponent exponent').then (compare (mantissa : ℤ) (mantissa' : ℤ)))
            rw [compare_natCast]

theorem Nonneg.isNaN (nonneg : Nonneg x) : x.isNaN = false := by
  cases nonneg <;> rfl

end

/-! ## Singles -/

section

variable {x y : Float32}

theorem single_le : x ≤ y ↔ (single x).le (single y) = true := decide_eq_true_iff

theorem single_beq : (x == y) = (single x).beq (single y) := rfl

theorem compare_single (number : x.isNaN = false) (number' : y.isNaN = false) :
    (single x).compare (single y) = some (compare (height (single x)) (height (single y))) :=
  compare_eq number number'

theorem lt_iff_height (number : x.isNaN = false) (number' : y.isNaN = false) :
    x < y ↔ height (single x) < height (single y) := by
  rw [single_lt, UnpackedFloat.lt, compare_single number number', beq_iff_eq, Option.some_inj]
  exact compare_lt_iff_lt

theorem le_iff_height (number : x.isNaN = false) (number' : y.isNaN = false) :
    x ≤ y ↔ height (single x) ≤ height (single y) := by
  rw [single_le, UnpackedFloat.le, compare_single number number', Option.any_some,
    Ordering.isLE_iff_ne_gt]
  exact compare_le_iff_le

theorem beq_iff_height (number : x.isNaN = false) (number' : y.isNaN = false) :
    (x == y) = true ↔ height (single x) = height (single y) := by
  rw [single_beq, UnpackedFloat.beq, compare_single number number', beq_iff_eq, Option.some_inj]
  exact compare_eq_iff_eq

theorem nonneg_of_pos (positive : 0 < x) : Nonneg (single x) := by
  rw [single_lt] at positive
  generalize single x = value at positive
  cases value with
  | notANumber => cases positive
  | infinity sign =>
      cases sign with
      | negative => cases positive
      | positive => exact .infinity
  | zero sign => exact .zero sign
  | finite sign mantissa exponent some_digit =>
      cases sign with
      | negative => cases positive
      | positive => exact .finite some_digit

/-- A single of one or more has its first digit before the point. -/
theorem atLeast_of_one_le (large : 1 ≤ x) : AtLeast 1 (single x) := by
  have canonical := canonical_single x
  rw [single_le] at large
  generalize single x = value at large canonical
  cases value with
  | notANumber => cases large
  | infinity sign =>
      cases sign with
      | negative => cases large
      | positive => exact .infinity
  | zero => cases large
  | finite sign mantissa exponent some_digit =>
      cases sign with
      | negative => cases large
      | positive =>
          -- one is `2 ^ 23 * 2 ^ (-23)`, so the exponent is no lower than that
          have one : single 1 = .finite .positive (2 ^ 23) (-23) (by decide) := rfl
          rw [one, UnpackedFloat.le, compare_eq rfl rfl, Option.any_some,
            Ordering.isLE_iff_ne_gt] at large
          have above := compare_le_iff_le.1 large
          rw [height, height, Prod.Lex.toLex_le_toLex] at above
          have reached : -23 ≤ exponent := by
            rcases above with below | ⟨-, further⟩
            · exact absurd below (lt_irrefl _)
            · rw [Prod.Lex.toLex_le_toLex] at further
              omega
          have lowest : Format.binary32.minExponent = -149 := by decide
          have precise : Format.binary32.mantissaBits = 24 := by decide
          rw [Canonical, Format.targetExponent] at canonical
          exact .finite (by omega)

end

end OverlayRouting.Decimal
