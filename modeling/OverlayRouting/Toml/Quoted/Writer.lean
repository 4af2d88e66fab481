/-
# OverlayRouting.Toml.Quoted.Writer -- putting strings in quotes

Of the four styles the plainest one is taken that needs no escape: double quotes,
single quotes, three double quotes, three single quotes.  A string that needs escapes
in all of them gets double quotes, three if it has several lines.
-/
import OverlayRouting.Toml.Quoted

namespace OverlayRouting.Toml.Quoted

set_option autoImplicit false

/-- The length of the longest row of a character. -/
def longestRow (c : Char) : (current : Nat) → List Char → Nat
  | current, [] => current
  | current, d :: rest => if d = c then longestRow c (current + 1) rest else max current (longestRow c 0 rest)

def hasLines (cs : List Char) : Bool := cs.contains '\n'

def styleFor (cs : List Char) : Style :=
  let lines := hasLines cs
  let plain := cs.all fun c => !isControl c || c == '\n'
  let noEscapes := plain && !cs.contains '\\'
  let doubles := longestRow '"' 0 cs
  let singles := longestRow '\'' 0 cs
  if noEscapes && !lines && doubles == 0 then .basic
  else if plain && !lines && singles == 0 then .literal
  else if noEscapes && doubles ≤ 2 then .basicLines
  else if plain && singles ≤ 2 then .literalLines
  else if lines then .basicLines
  else .basic

/-- The number of a character as an escape. -/
def codeEscape (c : Char) : List Char :=
  '\\' :: 'u' :: (Text.digits 16 4 c.toNat).map fun digit => (Nat.digitChar digit).toUpper

/-- A character other than a quote, in a string with escapes. -/
def escapeChar (style : Style) (c : Char) : List Char :=
  if style.triple && c == '\n' then [c]
  else
    match shortEscapes.find? fun entry => entry.2 = c with
    | some entry => ['\\', entry.1]
    | none => if isControl c then codeEscape c else [c]

/-- Between three quotes there may be two quotes in a row as they are. -/
def barePairs (style : Style) : Nat := if style.triple then 2 else 0

/-- The text of a string with escapes; `row` quotes stand right before it. -/
def escaped (style : Style) : (row : Nat) → List Char → List Char
  | _, [] => []
  | row, c :: rest =>
      if c = style.quote then
        if row < barePairs style then c :: escaped style (row + 1) rest
        else '\\' :: c :: escaped style 0 rest
      else escapeChar style c ++ escaped style 0 rest

/-- A string in quotes; one with several lines starts on a line of its own. -/
def write (cs : List Char) : List Char :=
  let style := styleFor cs
  style.delimiter ++ (if style.triple && hasLines cs then ['\n'] else []) ++
    (if style.escapes then escaped style 0 cs else cs) ++ style.delimiter

example : write "info".toList = "\"info\"".toList := by decide
example : write "say \"hi\"".toList = "'say \"hi\"'".toList := by decide
example : write "\"'\"".toList = "\"\"\"\"'\"\"\"\"".toList := by decide
example : write "\x01".toList = "\"\\u0001\"".toList := by decide

end OverlayRouting.Toml.Quoted
