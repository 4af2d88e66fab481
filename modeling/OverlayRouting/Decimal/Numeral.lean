/-
# OverlayRouting.Decimal.Numeral -- numbers from decimal text

A numeral is a sign, digits with or without a point among them, and perhaps a power
of ten.  `Numeral.double` and `Numeral.single` are the floats nearest to it, each
rounded once; beyond the largest float they are infinite.
-/
import OverlayRouting.Text.Digits

namespace OverlayRouting.Decimal

set_option autoImplicit false

open Text (numberOf)

/-- The number `± digits · 10 ^ exponent`. -/
structure Numeral where
  negative : Bool
  digits : Nat
  exponent : Int
  deriving DecidableEq

/-- A sign at the front, if there is one: is it a minus? -/
def signed : List Char → Bool × List Char
  | '-' :: rest => (true, rest)
  | '+' :: rest => (false, rest)
  | cs => (false, cs)

/-- A whole number with a sign or without. -/
def whole? (cs : List Char) : Option Int :=
  let (negative, digits) := signed cs
  if digits.isEmpty || !digits.all Char.isDigit then none
  else some (if negative then -numberOf 10 digits else numberOf 10 digits)

namespace Numeral

/-- The power of ten behind the digits, to the end of the text. -/
def power? : List Char → Option Int
  | [] => some 0
  | c :: rest => if c = 'e' ∨ c = 'E' then whole? rest else none

/-- The digits behind the point, and the text behind them. -/
def places : List Char → List Char × List Char
  | '.' :: rest => (rest.takeWhile Char.isDigit, rest.dropWhile Char.isDigit)
  | cs => ([], cs)

/-- There has to be a digit, before the point or behind it. -/
def ofChars? (cs : List Char) : Option Numeral := do
  let (negative, cs) := signed cs
  let before := cs.takeWhile Char.isDigit
  let (behind, cs) := places (cs.dropWhile Char.isDigit)
  guard (!(before ++ behind).isEmpty)
  let power ← power? cs
  some ⟨negative, numberOf 10 (before ++ behind), power - behind.length⟩

def double (numeral : Numeral) : Float :=
  let magnitude := Float.ofScientific numeral.digits (numeral.exponent < 0) numeral.exponent.natAbs
  if numeral.negative then -magnitude else magnitude

def single (numeral : Numeral) : Float32 :=
  let magnitude := Float32.ofScientific numeral.digits (numeral.exponent < 0) numeral.exponent.natAbs
  if numeral.negative then -magnitude else magnitude

example : ofChars? "-1.50e3".toList = some ⟨true, 150, 1⟩ := by decide
example : ofChars? ".5".toList = some ⟨false, 5, -1⟩ ∧ ofChars? "5.".toList = some ⟨false, 5, 0⟩ := by decide
example : ofChars? ".".toList = none ∧ ofChars? "e5".toList = none ∧ ofChars? "5e".toList = none := by decide

end Numeral

/-- A single from text: a numeral, or `inf`, `infinity` or `nan` in any case. -/
def single? (cs : List Char) : Option Float32 :=
  let (negative, body) := signed cs
  let special (x : Float32) : Float32 := if negative then -x else x
  match String.ofList (body.map Char.toLower) with
  | "inf" | "infinity" => some (special (1 / 0))
  | "nan" => some (special (0 / 0))
  | _ => (Numeral.ofChars? cs).map Numeral.single

end OverlayRouting.Decimal
