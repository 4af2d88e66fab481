/-
# OverlayRouting.Decimal.Shortest -- the fewest digits that read back

A float owns an interval of reals, those that round to it; its ends belong to it
when its mantissa is even.  Among the decimals in the interval the ones with the
fewest digits are chosen, and of those the one nearest to the float, a tie going
up.  The search walks the decimal grids from coarse to fine and looks at the two
grid points around the float; the first grid with a hit wins.
-/
import OverlayRouting.Decimal.Fixed

namespace OverlayRouting.Decimal

set_option autoImplicit false

open Float.Model (Format)
open Text (tenTo)

/-- A decimal `digits · 10 ^ exponent`. -/
structure Scaled where
  digits : Nat
  exponent : Int
  deriving DecidableEq

/-- How many decimal digits a number has; zero has one. -/
def digitCount (n : Nat) : Nat := (Nat.toDigits 10 n).length

/-- A positive number `num / den` and, in units of `1 / den`, how far its interval
reaches down and up. -/
structure Owned where
  num : Nat
  den : Nat
  down : Nat
  up : Nat
  closed : Bool

/-- The interval of a positive float.  It reaches half a unit to both sides, and
below a power of two, where the floats stand closer, a quarter. -/
def owned (format : Format) (mantissa : Nat) (exponent : Int) : Owned :=
  let (num, den) := ratio (4 * mantissa) (exponent - 2)
  let quarter := (ratio 1 (exponent - 2)).1
  let narrowBelow := mantissa = Nat.pow 2 format.mantissaBitsWithoutImplicit ∧ format.minExponent < exponent
  { num, den, down := if narrowBelow then quarter else 2 * quarter, up := 2 * quarter,
    closed := mantissa % 2 = 0 }

/-- Is `digits · 10 ^ exponent` in the interval? -/
def Owned.contains (interval : Owned) (point : Scaled) : Bool :=
  let scale := tenTo (-point.exponent).toNat
  let value := point.digits * tenTo point.exponent.toNat * interval.den
  let low := (interval.num - interval.down) * scale
  let high := (interval.num + interval.up) * scale
  if interval.closed then low ≤ value && value ≤ high else low < value && value < high

/-- The place of the first digit: the number lies in `10 ^ (place - 1)` up to, but
without, `10 ^ place`. -/
def firstPlace (num den : Nat) : Int :=
  let guess : Int := (digitCount num : Int) - (digitCount den : Int)
  if den * tenTo guess.toNat ≤ num * tenTo (-guess).toNat then guess + 1 else guess

/-- The hit on the grid of step `10 ^ exponent`, if there is one. -/
def Owned.onGrid (interval : Owned) (exponent : Int) : Option Scaled :=
  let num := interval.num * tenTo (-exponent).toNat
  let den := interval.den * tenTo exponent.toNat
  let below : Scaled := ⟨num / den, exponent⟩
  let above : Scaled := ⟨num / den + 1, exponent⟩
  match interval.contains below, interval.contains above with
  | true, true => some (if 2 * (num % den) < den then below else above)
  | true, false => some below
  | false, true => some above
  | false, false => none

/-- Drop the zeros at the end of the digits. -/
def Scaled.trimmed : (fuel : Nat) → Scaled → Scaled
  | 0, point => point
  | fuel + 1, point =>
      if point.digits ≠ 0 ∧ point.digits % 10 = 0 then
        trimmed fuel ⟨point.digits / 10, point.exponent + 1⟩
      else point

/-- Seventeen digits tell all doubles apart, so the search ends with a hit. -/
def Owned.shortest (interval : Owned) : Scaled :=
  let place := firstPlace interval.num interval.den
  let hit := (List.range 17).findSome? fun (count : Nat) =>
    interval.onGrid (place - ((count : Int) + 1))
  (hit.getD ⟨interval.num / interval.den, 0⟩).trimmed 20

/-! ## Written forms -/

/-- `digits · 10 ^ exponent` without an exponent and with at least `places`
places behind the point. -/
def Scaled.positional (places : Nat) (point : Scaled) : String :=
  let behind := max places (-point.exponent).toNat
  unitsText behind (point.digits * tenTo (point.exponent + behind).toNat)

/-- One digit in front of the point, the others behind it, and the power of ten. -/
def Scaled.scientific (point : Scaled) : String :=
  let digits := Nat.toDigits 10 point.digits
  let power := point.exponent + (digits.length - 1)
  let fraction := digits.drop 1
  String.ofList (digits.take 1 ++ if fraction.isEmpty then [] else '.' :: fraction) ++ "e" ++ toString power

example : (⟨15, 15⟩ : Scaled).scientific = "1.5e16" ∧ (⟨1, -5⟩ : Scaled).scientific = "1e-5" := by decide
example : (⟨11, -1⟩ : Scaled).positional 1 = "1.1" ∧ (⟨1, 2⟩ : Scaled).positional 1 = "100.0" := by decide

end OverlayRouting.Decimal
