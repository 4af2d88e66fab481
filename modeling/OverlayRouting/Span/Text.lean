/-
# OverlayRouting.Span.Text -- spans of time as text

A span is written as a sum of terms, such as `1h 30m`: a number and a unit, and
blanks between terms or not.

This is one way of writing spans, and nothing that is said of settings depends on it
(`OverlayRouting.Settings.Formats`).

Reading takes the units in any order and several spellings of each.  A number may
have a fraction, if what it adds is whole: nanoseconds for the units below an hour
and seconds from there on.  These are the two grains in which amounts are added, and no
amount may outgrow 64 bits of its grain.  Terms are added one by one, so of several
faults the first one counts.  Writing breaks a span into units from years down to
nanoseconds, each as often as it fits.
-/
import OverlayRouting.Span
import OverlayRouting.Text.Blank
import OverlayRouting.Text.Digits

namespace OverlayRouting

set_option autoImplicit false

open Text (isBlank numberOf decimal tenTo)

namespace Span

/-- In what an amount is counted. -/
inductive Grain where
  | second
  | nanosecond
  deriving DecidableEq

def Grain.nanos : Grain → Nat
  | .second => 1000000000
  | .nanosecond => 1

/-- Add `count` grains.  Together with the nanoseconds that a span has besides whole
seconds, nanoseconds to add must fit 64 bits.  Exactly one second of them is carried
blindly, all other sums beyond the largest span are seen. -/
def plus (span : Span) (grain : Grain) (count : Nat) : Except Fault Span :=
  let besides := match grain with
    | .second => 0
    | .nanosecond => span.nanos % 1000000000
  if UInt64.size ≤ besides + count then .error .unfit
  else
    match ofNanos? (span.nanos + count * grain.nanos) with
    | some sum => .ok sum
    | none =>
        .error (if grain = .nanosecond ∧ besides + count = 1000000000 then .overrun else .unfit)

end Span

inductive TimeUnit where
  | nanosecond
  | microsecond
  | millisecond
  | second
  | minute
  | hour
  | day
  | week
  | month
  | year
  deriving DecidableEq

namespace TimeUnit

def all : List TimeUnit :=
  [.nanosecond, .microsecond, .millisecond, .second, .minute, .hour, .day, .week, .month, .year]

/-- How a unit may be spelled; case counts. -/
def names : TimeUnit → List String
  | .nanosecond => ["nanos", "nsec", "ns"]
  | .microsecond => ["usec", "us", "µs"]
  | .millisecond => ["millis", "msec", "ms"]
  | .second => ["seconds", "second", "secs", "sec", "s"]
  | .minute => ["minutes", "minute", "min", "mins", "m"]
  | .hour => ["hours", "hour", "hrs", "hr", "h"]
  | .day => ["days", "day", "d"]
  | .week => ["weeks", "week", "wks", "wk", "w"]
  | .month => ["months", "month", "M"]
  | .year => ["years", "year", "yrs", "yr", "y"]

/-- A month has 30.44 days and a year 365.25. -/
def nanos : TimeUnit → Nat
  | .nanosecond => 1
  | .microsecond => 1000
  | .millisecond => 1000000
  | .second => 1000000000
  | .minute => 60 * 1000000000
  | .hour => 3600 * 1000000000
  | .day => 86400 * 1000000000
  | .week => 604800 * 1000000000
  | .month => 2630016 * 1000000000
  | .year => 31557600 * 1000000000

example : nanos .month * 100 = nanos .day * 3044 ∧ nanos .year * 100 = nanos .day * 36525 := by decide

def ofName? (name : String) : Option TimeUnit := all.find? fun unit => name ∈ unit.names

/-- In what whole units are counted. -/
def grain : TimeUnit → Span.Grain
  | .nanosecond | .microsecond | .millisecond => .nanosecond
  | _ => .second

/-- In what parts of a unit are counted; the smallest unit has none. -/
def partGrain? : TimeUnit → Option Span.Grain
  | .nanosecond => none
  | .microsecond | .millisecond | .second | .minute => some .nanosecond
  | _ => some .second

/-- Letters that names of units consist of. -/
def isLetter (c : Char) : Bool := c.isAlpha || c == 'µ'

end TimeUnit

namespace Span

/-! ## Reading -/

/-- What stands behind a decimal point: a number and how many digits it takes. -/
structure Fraction where
  number : Nat
  places : Nat

/-- A number of units, `whole` ones and perhaps a fraction. -/
structure Term where
  whole : Nat
  fraction : Option Fraction
  unit : TimeUnit

/-- The digits at the front of a text, wherever blanks stand among them, and the
text behind them. -/
def digitRun (cs : List Char) : List Char × List Char :=
  let inside (c : Char) : Bool := c.isDigit || isBlank c
  ((cs.takeWhile inside).filter Char.isDigit, cs.dropWhile inside)

theorem digitRun_length_le (cs : List Char) :
    (digitRun cs).1.length + (digitRun cs).2.length ≤ cs.length := by
  have filtered := List.length_filter_le Char.isDigit (cs.takeWhile fun c => c.isDigit || isBlank c)
  have whole := congrArg List.length
    (List.takeWhile_append_dropWhile (p := fun c : Char => c.isDigit || isBlank c) (l := cs))
  simp only [List.length_append] at whole
  simp only [digitRun]
  omega

/-- The fraction behind a point; there need be none, but there is none without
digits. -/
def fraction? : List Char → Option (Option Fraction × List Char)
  | '.' :: rest =>
      let (digits, rest) := digitRun rest
      if digits.isEmpty || UInt64.size ≤ tenTo digits.length then none
      else some (some ⟨numberOf 10 digits, digits.length⟩, rest)
  | cs => some (none, cs)

theorem fraction?_length_le {cs rest : List Char} {fraction : Option Fraction}
    (found : fraction? cs = some (fraction, rest)) : rest.length ≤ cs.length := by
  unfold fraction? at found
  split at found
  · rename_i inner
    simp only at found
    split at found
    · cases found
    · cases found
      have := digitRun_length_le inner
      simp only [List.length_cons]
      omega
  · cases found
    exact Nat.le_refl _

/-- Does a text go on as it may behind a unit? -/
def endsTerm (cs : List Char) : Bool := cs.head?.all fun c => c.isDigit || isBlank c

/-- The term at the front of a text, blanks in front of it included. -/
def term? (cs : List Char) : Option (Term × List Char) :=
  let (digits, rest) := digitRun cs
  if digits.isEmpty then none
  else
    match fraction? rest with
    | none => none
    | some (fraction, rest) =>
        match TimeUnit.ofName? (String.ofList (rest.takeWhile TimeUnit.isLetter)) with
        | none => none
        | some unit =>
            let behind := rest.dropWhile TimeUnit.isLetter
            if endsTerm behind then some (⟨numberOf 10 digits, fraction, unit⟩, behind) else none

theorem term?_length_lt {cs rest : List Char} {term : Term} (found : term? cs = some (term, rest)) :
    rest.length < cs.length := by
  have run := digitRun_length_le cs
  simp only [term?] at found
  split at found
  · cases found
  · rename_i some_digit
    have : 0 < (digitRun cs).1.length := by
      cases digits : (digitRun cs).1 with
      | nil => simp [digits] at some_digit
      | cons _ _ => simp
    split at found
    · cases found
    · rename_i fraction inner behind
      have := fraction?_length_le behind
      split at found
      · cases found
      · split at found
        · cases found
          have := (List.dropWhile_sublist TimeUnit.isLetter (l := inner)).length_le
          omega
        · cases found

/-- How many grains a fraction of a unit is, if that is a whole number. -/
def Fraction.grains? (fraction : Fraction) (unit : TimeUnit) (grain : Grain) : Option Nat :=
  let scaled := fraction.number * (unit.nanos / grain.nanos)
  if scaled < UInt64.size ∧ scaled % tenTo fraction.places = 0 then some (scaled / tenTo fraction.places)
  else none

/-- What a fraction of a unit adds, and its grain. -/
def Fraction.part? (fraction : Fraction) (unit : TimeUnit) : Option (Grain × Nat) := do
  let grain ← unit.partGrain?
  return (grain, ← fraction.grains? unit grain)

/-- Add a term, its whole units first. -/
def plusTerm (span : Span) (term : Term) : Except Fault Span :=
  if UInt64.size ≤ term.whole then .error .unfit
  else do
    let grain := term.unit.grain
    let span ← span.plus grain (term.whole * (term.unit.nanos / grain.nanos))
    match term.fraction with
    | none => .ok span
    | some fraction =>
        match fraction.part? term.unit with
        | none => .error .unfit
        | some (grain, count) => span.plus grain count

/-- Add the terms of a text, to its end. -/
def plusTerms (span : Span) (cs : List Char) : Except Fault Span :=
  if cs.all isBlank then .ok span
  else
    match found : term? cs with
    | none => .error .unfit
    | some (term, rest) =>
        have := term?_length_lt found
        span.plusTerm term >>= fun sum => plusTerms sum rest
termination_by cs.length

/-- A zero needs no unit; a text without a term is no span. -/
def ofText (text : String) : Except Fault Span :=
  if text = "0" then .ok zero
  else if text.toList.all isBlank then .error .unfit
  else zero.plusTerms text.toList

/-! ## Writing -/

/-- The units that are written, from the largest one, and how one and several of
them are spelled. -/
def writtenUnits : List (TimeUnit × String × String) :=
  [(.year, "year", "years"), (.month, "month", "months"), (.day, "day", "days"), (.hour, "h", "h"),
    (.minute, "m", "m"), (.second, "s", "s"), (.millisecond, "ms", "ms"), (.microsecond, "us", "us"),
    (.nanosecond, "ns", "ns")]

/-- Each unit as often as it fits into what the units before it have left. -/
def writtenTerms : List (TimeUnit × String × String) → (nanos : Nat) → List (List Char)
  | [], _ => []
  | (unit, one, several) :: units, nanos =>
      let count := nanos / unit.nanos
      let name := if count = 1 then one else several
      let later := writtenTerms units (nanos % unit.nanos)
      if count = 0 then later else (decimal count ++ name.toList) :: later

def text (span : Span) : String :=
  if span.nanos = 0 then "0s"
  else String.ofList (List.intercalate [' '] (writtenTerms writtenUnits span.nanos))

example : (seconds 5).text = "5s" := by decide
example : (seconds 31557601).text = "1year 1s" := by decide

end Span

end OverlayRouting
