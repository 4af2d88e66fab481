/-
# OverlayRouting.Toml.Scalar -- values without quotes or brackets

A flag, a number, or a date or time is a word: a row of letters, digits and a few
signs.  Only a date and a time that belongs to it may have a blank between them.

Underscores may stand between digits.  A whole number has a sign or a base, not both,
no zero in front, and 64 bits with a sign.  A number with a fraction or a power of ten
is the nearest double, which must not be `inf`.
-/
import OverlayRouting.Decimal.Numeral
import OverlayRouting.Text.Blank
import OverlayRouting.Text.Front
import OverlayRouting.Toml.Value

namespace OverlayRouting.Toml

set_option autoImplicit false

open Text (expect? isDigitOf numberOf)

namespace Scalar

/-- Characters of words. -/
def isWordChar (c : Char) : Bool := c.isAlphanum || c ∈ ['_', '+', '-', '.', ':']

/-! ## Numbers -/

/-- Digits with single underscores between them. -/
def digits? (base : Nat) (cs : List Char) : Option (List Char) :=
  let groups := Text.splitChars (· == '_') cs
  if groups.all fun group => !group.isEmpty && group.all (isDigitOf base) then some groups.flatten
  else none

/-- Decimal digits that do not start with a zero, a zero alone excepted. -/
def decimal? (cs : List Char) : Option (List Char) := do
  let digits ← digits? 10 cs
  guard (digits.length = 1 ∨ digits.head? ≠ some '0')
  some digits

def bases : List (Char × Nat) := [('x', 16), ('o', 8), ('b', 2)]

/-- A whole number that fits 64 bits with a sign. -/
def whole? (negative : Bool) (magnitude : Nat) : Option Value :=
  let n : Int := if negative then -magnitude else magnitude
  if -0x8000000000000000 ≤ n ∧ n < 0x8000000000000000 then some (.whole n) else none

/-- A number behind `0x`, `0o` or `0b`. -/
def based? (cs : List Char) : Option Value := do
  let (letter, digits) ← match cs with
    | '0' :: letter :: rest => some (letter, rest)
    | _ => none
  let base ← bases.lookup letter
  whole? false (numberOf base (← digits? base digits))

/-- A whole number in decimal digits. -/
def plain? (cs : List Char) : Option Value := do
  let (negative, body) := Decimal.signed cs
  whole? negative (numberOf 10 (← decimal? body))

/-- Are these digits, behind a sign perhaps? -/
def isPower (cs : List Char) : Bool := (digits? 10 (Decimal.signed cs).2).isSome

/-- Is this the rest of a number behind its whole part: a fraction, a power of ten,
or both? -/
def isTail (cs : List Char) : Bool :=
  let inside (c : Char) : Bool := c.isDigit || c == '_'
  match cs with
  | '.' :: rest =>
      (digits? 10 (rest.takeWhile inside)).isSome &&
        match rest.dropWhile inside with
        | [] => true
        | c :: power => (c == 'e' || c == 'E') && isPower power
  | c :: power => (c == 'e' || c == 'E') && isPower power
  | [] => false

/-- A number that need not be whole. -/
def real? (cs : List Char) : Option Value := do
  let body := (Decimal.signed cs).2
  let inside (c : Char) : Bool := c.isDigit || c == '_'
  guard ((decimal? (body.takeWhile inside)).isSome && isTail (body.dropWhile inside))
  let numeral ← Decimal.Numeral.ofChars? (cs.filter (· != '_'))
  guard (numeral.double != 1 / 0)
  some (.real numeral.double)

/-- Words with a meaning of their own. -/
def special? (cs : List Char) : Option Value :=
  let (negative, body) := Decimal.signed cs
  let signed (x : Float) : Float := if negative then -x else x
  match String.ofList body with
  | "inf" => some (.real (signed (1 / 0)))
  | "nan" => some (.real (signed (0 / 0)))
  | _ => none

def flag? (cs : List Char) : Option Value :=
  match String.ofList cs with
  | "true" => some (.flag true)
  | "false" => some (.flag false)
  | _ => none

/-! ## Dates and times -/

/-- A number of just `count` digits, from `low` to `high`. -/
def field? (count low high : Nat) (cs : List Char) : Option (Nat × List Char) :=
  let digits := cs.take count
  let n := numberOf 10 digits
  if digits.length = count ∧ digits.all Char.isDigit ∧ low ≤ n ∧ n ≤ high then some (n, cs.drop count)
  else none

def monthLength (year month : Nat) : Nat :=
  if month = 2 then if year % 4 = 0 ∧ (year % 100 ≠ 0 ∨ year % 400 = 0) then 29 else 28
  else if month ∈ [4, 6, 9, 11] then 30
  else 31

/-- What is behind a date. -/
def afterDate? (cs : List Char) : Option (List Char) := do
  let (year, cs) ← field? 4 0 9999 cs
  let (month, cs) ← field? 2 1 12 (← expect? '-' cs)
  let (_, cs) ← field? 2 1 (monthLength year month) (← expect? '-' cs)
  some cs

/-- What is behind a time of the day, whose last second may be a leap second. -/
def afterTime? (cs : List Char) : Option (List Char) := do
  let (_, cs) ← field? 2 0 23 cs
  let (_, cs) ← field? 2 0 59 (← expect? ':' cs)
  let (_, cs) ← field? 2 0 60 (← expect? ':' cs)
  match cs with
  | '.' :: c :: rest => if c.isDigit then some (rest.dropWhile Char.isDigit) else none
  | cs => some cs

/-- Is this how far a time is from universal time, or nothing? -/
def isOffset : List Char → Bool
  | [] => true
  | c :: rest =>
      if c = 'Z' ∨ c = 'z' then rest.isEmpty
      else if c = '+' ∨ c = '-' then
        let minutes := do
          let (_, cs) ← field? 2 0 23 rest
          let (_, cs) ← field? 2 0 59 (← expect? ':' cs)
          some cs
        minutes = some []
      else false

/-- Is this a time that belongs to a date? -/
def isDatedTime (cs : List Char) : Bool := (afterTime? cs).any isOffset

/-- Is the word a date, a date with a time, or a time? -/
def isMoment (word : List Char) : Bool :=
  match afterDate? word with
  | some [] => true
  | some (c :: time) => (c == 'T' || c == 't') && isDatedTime time
  | none => afterTime? word = some []

/-! ## Words -/

def ofWord? (word : List Char) : Option Value :=
  if isMoment word then some .moment
  else (flag? word).or ((special? word).or ((based? word).or ((plain? word).or (real? word))))

/-- A value at the front of a text, and the text behind it. -/
def read? (cs : List Char) : Option (Value × List Char) := do
  let word := cs.takeWhile isWordChar
  let rest := cs.dropWhile isWordChar
  let value ← ofWord? word
  match afterDate? word, rest with
  | some [], ' ' :: more =>
      if isDatedTime (more.takeWhile isWordChar) then some (value, more.dropWhile isWordChar)
      else some (value, rest)
  | _, _ => some (value, rest)

end Scalar

end OverlayRouting.Toml
