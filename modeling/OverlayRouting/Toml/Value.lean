/-
# OverlayRouting.Toml.Value -- what a TOML document holds

TOML is one format that settings can be kept in; what is said of settings holds for others
too (`OverlayRouting.Settings.Formats`).

A document is a table: entries with different keys, in the order in which a reader
meets them.  A table remembers where it came from, since that decides who may still
add to it (`OverlayRouting.Toml.Assembly`).  Of a date or a time only its being one is kept.
-/
namespace OverlayRouting.Toml

set_option autoImplicit false

/-- What made a table. -/
inductive Origin where
  /-- Its own header. -/
  | header
  /-- A header of a table inside it; its own header may still come. -/
  | passing
  /-- Keys with points. -/
  | dotted
  /-- Braces: it is complete. -/
  | closed
  deriving DecidableEq

inductive Value where
  | text (content : String)
  | whole (n : Int)
  | real (x : Float)
  | flag (value : Bool)
  /-- A date, a time, or both. -/
  | moment
  | list (items : List Value)
  | table (origin : Origin) (entries : List (String × Value))
  /-- The tables of headers in double brackets. -/
  | tables (elements : List (List (String × Value)))

abbrev Entries := List (String × Value)

/-- The table that an entry is looked up in, whatever made it. -/
def Value.entries : Value → Entries
  | .table _ entries => entries
  | _ => []

end OverlayRouting.Toml
