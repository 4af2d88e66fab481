/-
# OverlayRouting.Toml.Assembly -- a document from its statements

A header opens a table, and the entries below it go there.  A key with points
leads through tables inside that one.  Tables that are missing on the way are made,
and no table is opened twice: a header opens only what is new or what a longer
header passed through before, and keys with points add only to tables that such
keys made.  No key is given twice.

Entries stand in the order in which they were first mentioned, but a table that a
longer header passed through stands where its own header comes.
-/
import OverlayRouting.Toml.Value

namespace OverlayRouting.Toml

set_option autoImplicit false

inductive Statement where
  /-- A header in brackets. -/
  | header (path : List String)
  /-- A header in double brackets. -/
  | element (path : List String)
  /-- A value for a key; `path` are the parts of the key before the last one. -/
  | entry (path : List String) (key : String) (value : Value)

/-- How a path leads through tables: which ones it may enter, and what it makes of
those that are missing. -/
structure Passage where
  mayEnter : Origin → Bool
  made : Origin

def Passage.ofHeader : Passage := ⟨(· ≠ .closed), .passing⟩

def Passage.ofKey : Passage := ⟨fun origin => origin = .passing ∨ origin = .dotted, .dotted⟩

namespace Entries

/-- Give a key that is there another value. -/
def replace (key : String) (value : Value) (entries : Entries) : Entries :=
  entries.map fun entry => if entry.1 = key then (key, value) else entry

def without (key : String) (entries : Entries) : Entries := entries.filter (·.1 ≠ key)

/-- Change the table at the end of a path.  Of the tables of double brackets the
path enters the last one. -/
def alter (passage : Passage) (change : Origin → Entries → Option Entries) :
    (path : List String) → Origin → Entries → Option Entries
  | [], origin, entries => change origin entries
  | key :: path, _, entries =>
      match entries.lookup key with
      | none => do
          let inner ← alter passage change path passage.made []
          some (entries ++ [(key, .table passage.made inner)])
      | some (.table origin inner) => do
          guard (passage.mayEnter origin)
          let inner ← alter passage change path origin inner
          some (entries.replace key (.table origin inner))
      | some (.tables elements) => do
          let inner ← alter passage change path .header (← elements.getLast?)
          some (entries.replace key (.tables (elements.dropLast ++ [inner])))
      | some _ => none

/-- Add an entry.  A path with points ends in a table that such a path made. -/
def add (path : List String) (key : String) (value : Value) (entries : Entries) : Option Entries :=
  alter .ofKey (fun origin entries => do
    guard (path = [] ∨ origin = .dotted)
    guard (entries.lookup key).isNone
    some (entries ++ [(key, value)])) path .header entries

/-- Open the table of a header. -/
def openTable (key : String) (entries : Entries) : Option Entries :=
  match entries.lookup key with
  | none => some (entries ++ [(key, .table .header [])])
  | some (.table .passing inner) => some (entries.without key ++ [(key, .table .header inner)])
  | some _ => none

/-- Open one more table of a header in double brackets. -/
def openElement (key : String) (entries : Entries) : Option Entries :=
  match entries.lookup key with
  | none => some (entries ++ [(key, .tables [[]])])
  | some (.tables elements) => some (entries.replace key (.tables (elements ++ [[]])))
  | some _ => none

/-- Open something at the end of a header's path. -/
def atHeader (change : String → Entries → Option Entries) (path : List String) (entries : Entries) :
    Option Entries := do
  let key ← path.getLast?
  alter .ofHeader (fun _ entries => change key entries) path.dropLast .header entries

end Entries

/-- A document in the making: its entries and the path of the header that is open. -/
structure Draft where
  entries : Entries := []
  current : List String := []

def Draft.state? (draft : Draft) : Statement → Option Draft
  | .header path => do
      let entries ← draft.entries.atHeader Entries.openTable path
      some ⟨entries, path⟩
  | .element path => do
      let entries ← draft.entries.atHeader Entries.openElement path
      some ⟨entries, path⟩
  | .entry path key value => do
      let entries ← draft.entries.alter .ofHeader (fun _ entries => entries.add path key value)
        draft.current .header
      some { draft with entries }

/-- The entries of a document. -/
def assemble? (statements : List Statement) : Option Entries := do
  let draft ← statements.foldlM Draft.state? {}
  some draft.entries

/-- The table that braces hold. -/
def braced? (pairs : List (List String × String × Value)) : Option Value := do
  let entries ← pairs.foldlM (fun entries (pair : List String × String × Value) =>
    Entries.add pair.1 pair.2.1 pair.2.2 entries) []
  some (.table .closed entries)

end OverlayRouting.Toml
