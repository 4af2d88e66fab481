/-
# OverlayRouting.Decimal.Fixed -- a number with a fixed count of decimal places

The exact binary value is rounded to a whole number of units of the last place,
a tie to the even one, and never written with an exponent.  A negative number
keeps its sign even if it rounds to zero.
-/
import OverlayRouting.Decimal.Binary
import OverlayRouting.Text.Digits

namespace OverlayRouting.Decimal

set_option autoImplicit false

/-- The whole number nearest to `num / den`; of two equally near, the even one. -/
def roundDiv (num den : Nat) : Nat :=
  let quotient := num / den
  let doubled := 2 * (num % den)
  if doubled < den then quotient
  else if den < doubled then quotient + 1
  else if quotient % 2 = 0 then quotient else quotient + 1

/-- The value `mantissa · 2 ^ exponent` as a quotient of two naturals. -/
def ratio (mantissa : Nat) (exponent : Int) : Nat × Nat :=
  if 0 ≤ exponent then (mantissa * Nat.pow 2 exponent.toNat, 1) else (mantissa, Nat.pow 2 (-exponent).toNat)

/-- A whole number of units of the last of `places` places, as decimal text. -/
def unitsText (places units : Nat) : String :=
  let digits := Nat.toDigits 10 units
  let padded := List.replicate (places + 1 - digits.length) '0' ++ digits
  let whole := padded.take (padded.length - places)
  let fraction := padded.drop (padded.length - places)
  String.ofList (if places = 0 then whole else whole ++ '.' :: fraction)

example : unitsText 1 0 = "0.0" ∧ unitsText 3 12 = "0.012" ∧ unitsText 1 1234 = "123.4" := by decide

/-- The value with `places` decimal places. -/
def fixed (places : Nat) : Binary → String
  | .notANumber => "NaN"
  | .infinite negative => (if negative then "-" else "") ++ "inf"
  | .finite negative mantissa exponent =>
      let (num, den) := ratio mantissa exponent
      (if negative then "-" else "") ++ unitsText places (roundDiv (num * Text.tenTo places) den)

/-- A single with `places` decimal places. -/
def fixedSingle (places : Nat) (x : Float32) : String := fixed places (Binary.ofSingle x)

end OverlayRouting.Decimal
