/-
# OverlayRouting.Settings.Formats -- the formats that settings are kept in

A settings file is a document of tables in some text format, and the spans in it are
texts of their own.  How either is written and read is not fixed here: whoever loads or
saves settings says with which formats.  `OverlayRouting.Settings.Standard` has those
that the agent uses.
-/
import OverlayRouting.Span
import OverlayRouting.Wire.Data

namespace OverlayRouting

set_option autoImplicit false

/-- A text format for documents, each the fields of one record, and one for spans. -/
class Formats where
  /-- The text of a document, if it has one. -/
  write? : List (String × Data) → Option String
  /-- The document that a text holds. -/
  read? : String → Option (List (String × Data))
  spanText : Span → String
  readSpan : String → Except Span.Fault Span

/-- A document of sections, each with its fields. -/
abbrev Sections := List (String × List (String × Data))

def Sections.document (parts : Sections) : List (String × Data) :=
  parts.map fun part => (part.1, .record part.2)

end OverlayRouting
