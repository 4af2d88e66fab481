/-
# OverlayRouting.Toml.Writer -- writing TOML documents

What is written has one form: sections with an empty line between each two, a header
and then one entry a line.
-/
import OverlayRouting.Decimal.Shortest
import OverlayRouting.Toml.Quoted.Writer

namespace OverlayRouting.Toml

set_option autoImplicit false

namespace Written

def text (content : String) : List Char := Quoted.write content.toList

def natural (n : Nat) : List Char := Text.decimal n

def flag (value : Bool) : List Char := if value then "true".toList else "false".toList

/-- A double with the fewest digits that read back, with a point and without a power
of ten. -/
def real (x : Float) : List Char :=
  let signed (negative : Bool) (text : String) : List Char :=
    if negative then '-' :: text.toList else text.toList
  match Decimal.Binary.ofDouble x with
  | .notANumber => "nan".toList
  | .infinite negative => signed negative "inf"
  | .finite negative mantissa exponent =>
      if mantissa = 0 then signed negative "0.0"
      else
        signed negative
          ((Decimal.owned Float.Model.Format.binary64 mantissa exponent).shortest.positional 1)

end Written

/-- A section to write: its name and its entries, the values written out. -/
structure Section where
  name : String
  entries : List (String × List Char)

def entryLine (entry : String × List Char) : List Char :=
  entry.1.toList ++ " = ".toList ++ entry.2 ++ ['\n']

def Section.lines (part : Section) : List Char :=
  '[' :: part.name.toList ++ ']' :: '\n' :: part.entries.flatMap entryLine

/-- A document of sections. -/
def documentText (parts : List Section) : List Char :=
  List.intercalate ['\n'] (parts.map Section.lines)

end OverlayRouting.Toml
