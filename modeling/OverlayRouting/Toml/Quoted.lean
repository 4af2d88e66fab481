/-
# OverlayRouting.Toml.Quoted -- strings in quotes

A string stands in double quotes, where a backslash starts an escape, or in single
quotes, where every character stands for itself.  With three quotes at either end it
may have several lines; then one or two quotes may stand in it, a line feed right
behind the opening quotes is dropped, every line ends in a line feed alone, and a
backslash at the end of a line drops the blanks up to the next text.

`turn` is what one character does to a string that is being read, and `run` reads to
the closing quotes.
-/
import OverlayRouting.Text.Digits

namespace OverlayRouting.Toml

set_option autoImplicit false

/-- A way to put a string in quotes. -/
structure Style where
  quote : Char
  escapes : Bool
  /-- Three quotes at either end. -/
  triple : Bool
  deriving DecidableEq

namespace Style

def basic : Style := ⟨'"', true, false⟩
def literal : Style := ⟨'\'', false, false⟩
def basicLines : Style := ⟨'"', true, true⟩
def literalLines : Style := ⟨'\'', false, true⟩

def delimiter (style : Style) : List Char := List.replicate (if style.triple then 3 else 1) style.quote

end Style

/-- Characters that no line may hold as they are. -/
def isControl (c : Char) : Bool := (c.toNat < 0x20 && c != '\t') || c.toNat == 0x7F

def isSpace (c : Char) : Bool := c == ' ' || c == '\t'

namespace Quoted

/-- Where a reader is in a string. -/
inductive Mode where
  | plain
  /-- Behind a carriage return, which needs a line feed. -/
  | carriage
  /-- Behind a backslash. -/
  | escape
  /-- In the number of a character: hexadecimal digits to come, and its value up to here. -/
  | code (left value : Nat)
  /-- In blanks that are dropped: did a line end among them? -/
  | gap (ended : Bool)
  | gapCarriage
  /-- Behind some quotes, which close the string or belong to it. -/
  | quotes (count : Nat)

/-- What a character does: it says something of the string, ends it, shows that it
ended before, or has no place in it. -/
inductive Turn where
  | next (mode : Mode) (said : List Char)
  | last
  | before (said : List Char)
  | refused

/-- Say something more in front. -/
def Turn.after (said : List Char) : Turn → Turn
  | .next mode more => .next mode (said ++ more)
  | .before more => .before (said ++ more)
  | other => other

def onPlain (style : Style) (c : Char) : Turn :=
  if c = style.quote then if style.triple then .next (.quotes 1) [] else .last
  else if style.escapes ∧ c = '\\' then .next .escape []
  else if style.triple ∧ c = '\n' then .next .plain ['\n']
  else if style.triple ∧ c = '\r' then .next .carriage []
  else if isControl c then .refused
  else .next .plain [c]

/-- In blanks behind a backslash; `other` is what any further character does. -/
def onGap (ended : Bool) (c : Char) (other : Turn) : Turn :=
  if isSpace c then .next (.gap ended) []
  else if c = '\n' then .next (.gap true) []
  else if c = '\r' then .next .gapCarriage []
  else other

/-- The characters that letters behind a backslash stand for. -/
def shortEscapes : List (Char × Char) :=
  [('b', '\x08'), ('f', '\x0c'), ('n', '\n'), ('r', '\r'), ('t', '\t'), ('"', '"'), ('\\', '\\')]

def onEscape (style : Style) (c : Char) : Turn :=
  match shortEscapes.lookup c with
  | some meant => .next .plain [meant]
  | none =>
      if c = 'u' then .next (.code 4 0) []
      else if c = 'U' then .next (.code 8 0) []
      else if style.triple then onGap false c .refused
      else .refused

/-- A number has to be that of a character. -/
def onCode (left value : Nat) (c : Char) : Turn :=
  if !Text.isDigitOf 16 c then .refused
  else
    let value := value * 16 + Text.digitValue c
    if 1 < left then .next (.code (left - 1) value) []
    else if value.isValidChar then .next .plain [Char.ofNat value]
    else .refused

/-- Three quotes close a string, two more at most in front of them belong to it. -/
def onQuotes (style : Style) (count : Nat) (c : Char) : Turn :=
  if c = style.quote then if count < 5 then .next (.quotes (count + 1)) [] else .refused
  else if 3 ≤ count then .before (List.replicate (count - 3) style.quote)
  else (onPlain style c).after (List.replicate count style.quote)

def turn (style : Style) (mode : Mode) (c : Char) : Turn :=
  match mode with
  | .plain => onPlain style c
  | .carriage => if c = '\n' then .next .plain ['\n'] else .refused
  | .escape => onEscape style c
  | .code left value => onCode left value c
  | .gap ended => onGap ended c (if ended then onPlain style c else .refused)
  | .gapCarriage => if c = '\n' then .next (.gap true) [] else .refused
  | .quotes count => onQuotes style count c

/-- What the end of the text does. -/
def atEnd (style : Style) : Mode → Option (List Char)
  | .quotes count => if 3 ≤ count then some (List.replicate (count - 3) style.quote) else none
  | _ => none

/-- The string up to its closing quotes, and the text behind them. -/
def run (style : Style) (mode : Mode) : List Char → Option (List Char × List Char)
  | [] => (atEnd style mode).map fun said => (said, [])
  | c :: rest =>
      match turn style mode c with
      | .next mode said => (run style mode rest).map fun found => (said ++ found.1, found.2)
      | .last => some ([], rest)
      | .before said => some (said, c :: rest)
      | .refused => none

/-- A line feed at the front is dropped. -/
def dropLineFeed : List Char → List Char
  | '\n' :: rest => rest
  | '\r' :: '\n' :: rest => rest
  | cs => cs

/-- A string at the front of a text, in the first of the styles that its quotes fit. -/
def read? (styles : List Style) (cs : List Char) : Option (List Char × List Char) := do
  let style ← styles.find? fun style => style.delimiter.isPrefixOf cs
  let inside := cs.drop style.delimiter.length
  run style .plain (if style.triple then dropLineFeed inside else inside)

/-- The styles of a string on one line, and all styles. -/
def lineStyles : List Style := [.basic, .literal]
def allStyles : List Style := [.basicLines, .literalLines] ++ lineStyles

example : read? allStyles "\"a\\u00e9\" b".toList = some ("aé".toList, " b".toList) := by decide
example : read? allStyles "'''\na'b''''' c".toList = some ("a'b''".toList, " c".toList) := by decide
example : read? allStyles "\"\"\"a\\\n  b\"\"\"".toList = some ("ab".toList, []) := by decide

end Quoted

end OverlayRouting.Toml
