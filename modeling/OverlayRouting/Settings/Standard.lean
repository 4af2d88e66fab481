/-
# OverlayRouting.Settings.Standard -- TOML documents and spans as sums of units

The formats that the agent uses.  They stand for libraries, so what is said of settings
does not rest on them: they are one instance of `Formats`, for running and as an example.

Every TOML document can be read as data.  What can be written are sections of texts,
numbers from zero on and flags, with names that need no quotes; a whole number must fit
the 64 bits with a sign that TOML has.
-/
import OverlayRouting.Settings.Formats
import OverlayRouting.Span.Text
import OverlayRouting.Toml.Reader
import OverlayRouting.Toml.Writer

namespace OverlayRouting

set_option autoImplicit false

namespace Toml

/-! ## Reading -/

mutual

/-- What a value holds.  A date and time is a record that nobody reads. -/
def Value.data : Value → Data
  | .text content => .text content
  | .whole n => .whole n
  | .real x => .real x
  | .flag value => .flag value
  | .moment => .record []
  | .list items => .list (itemsData items)
  | .table _ entries => .record (entriesData entries)
  | .tables elements => .list (elementsData elements)

def itemsData : List Value → List Data
  | [] => []
  | item :: items => item.data :: itemsData items

def entriesData : List (String × Value) → List (String × Data)
  | [] => []
  | (name, value) :: entries => (name, value.data) :: entriesData entries

def elementsData : List (List (String × Value)) → List Data
  | [] => []
  | entries :: elements => .record (entriesData entries) :: elementsData elements

end

def read? (text : String) : Option (List (String × Data)) := (document? text).map entriesData

/-! ## Writing -/

/-- A value on the line of its entry. -/
def word? : Data → Option (List Char)
  | .text content => some (Written.text content)
  | .whole (.ofNat n) => if n < 0x8000000000000000 then some (Written.natural n) else none
  | .real x => some (Written.real x)
  | .flag value => some (Written.flag value)
  | _ => none

def fieldText? (field : String × Data) : Option (String × List Char) :=
  if IsBare field.1 then (word? field.2).map (field.1, ·) else none

def section? : String × Data → Option Section
  | (name, .record fields) =>
      if IsBare name then (fields.mapM fieldText?).map (⟨name, ·⟩) else none
  | _ => none

def write? (document : List (String × Data)) : Option String :=
  (document.mapM section?).map fun parts => String.ofList (documentText parts)

end Toml

namespace Formats

instance standard : Formats where
  write? := Toml.write?
  read? := Toml.read?
  spanText := Span.text
  readSpan := Span.ofText

end Formats

end OverlayRouting
