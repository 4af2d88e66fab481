/-
# OverlayRouting.Text.Front -- what a text starts with

The smallest steps of a reader: `expect?` takes a character that has to come next,
and `cutAt?` takes what stands in front of the first such character.
-/
namespace OverlayRouting.Text

set_option autoImplicit false

/-- Drop a character that has to come next. -/
def expect? (c : Char) : List Char → Option (List Char)
  | [] => none
  | d :: rest => if c = d then some rest else none

/-- The texts in front of and behind the first `c`. -/
def cutAt? (c : Char) : List Char → Option (List Char × List Char)
  | [] => none
  | d :: rest =>
      if c = d then some ([], rest)
      else (cutAt? c rest).map fun parts => (d :: parts.1, parts.2)

end OverlayRouting.Text
