/-
# OverlayRouting.Wire.Data -- self-describing data

The values that messages are made of, and the two ways to give a record: by the
names of its fields, where others may stand beside them, or as the list of its fields
in order.
-/
import OverlayRouting.Decimal.Binary

namespace OverlayRouting

set_option autoImplicit false

inductive Data where
  | null
  | flag (value : Bool)
  | whole (value : Int)
  | real (value : Float)
  | text (value : String)
  | list (items : List Data)
  | record (fields : List (String × Data))
  deriving Inhabited

/-- Types that can be written as data and read back. -/
class Wire (α : Type) where
  encode : α → Data
  decode? : Data → Option α

export Wire (encode decode?)

namespace Data

def isNull : Data → Bool
  | .null => true
  | _ => false

def isEmptyRecord : Data → Bool
  | .record [] => true
  | _ => false

/-- The field of a record that has this name. -/
def field? (name : String) (fields : List (String × Data)) : Option Data :=
  (fields.find? (·.1 = name)).map Prod.snd

/-- The fields of a record, in the order of `names`. -/
def fields? (names : List String) : Data → Option (List (Option Data))
  | .record fields => some (names.map (field? · fields))
  | .list items => if items.length = names.length then some (items.map some) else none
  | _ => none

/-- The fields of a record that may be missing, in the order of `names`.  A list may
leave out those at its end. -/
def leadingFields? (names : List String) : Data → Option (List (Option Data))
  | .record fields => some (names.map (field? · fields))
  | .list items =>
      if items.length ≤ names.length then
        some (items.map some ++ List.replicate (names.length - items.length) none)
      else none
  | _ => none

/-- A field that has to be there. -/
def required? {α : Type} [Wire α] (data : Option Data) : Option α := data.bind decode?

/-- A field that may be missing. -/
def optional? {α : Type} [Wire α] (data : Option Data) : Option (Option α) :=
  match data with
  | none | some .null => some none
  | some data => (decode? data).map some

/-- A field that keeps its default if it is missing, but may not be null. -/
def orDefault? {α : Type} [Wire α] (default : α) : Option Data → Option α
  | none => some default
  | some data => decode? data

end Data

/-! ## Plain values -/

instance : Wire Bool where
  encode := .flag
  decode?
    | .flag value => some value
    | _ => none

instance : Wire String where
  encode := .text
  decode?
    | .text value => some value
    | _ => none

/-- A whole number from zero up to, but without, `bound`. -/
def Data.natural? (bound : Nat) : Data → Option Nat
  | .whole (.ofNat n) => if n < bound then some n else none
  | _ => none

instance : Wire UInt32 where
  encode n := .whole n.toNat
  decode? data := (data.natural? UInt32.size).map UInt32.ofNat

instance : Wire UInt64 where
  encode n := .whole n.toNat
  decode? data := (data.natural? UInt64.size).map UInt64.ofNat

/-- Whole numbers are rounded once if a machine word holds them. -/
instance : Wire Float32 where
  encode x := if x.isFinite then .real (Decimal.widen x) else .null
  decode?
    | .whole n =>
        some (if -0x8000000000000000 ≤ n ∧ n < UInt64.size then Float32.ofInt n else Decimal.narrow (Float.ofInt n))
    | .real x => some (Decimal.narrow x)
    | _ => none

instance {α : Type} [Wire α] : Wire (Option α) where
  encode
    | none => .null
    | some value => encode value
  decode?
    | .null => some none
    | data => (decode? data).map some

instance {α : Type} [Wire α] : Wire (List α) where
  encode values := .list (values.map encode)
  decode?
    | .list items => items.mapM decode?
    | _ => none

end OverlayRouting
