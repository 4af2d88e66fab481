/-
# OverlayRouting.Prefix -- address prefixes

A prefix is an address with the number of leading bits that count.  The bits
behind them are kept: `10.0.0.1/24` and `10.0.0.0/24` are two prefixes.  The order
is by address, then by length.
-/
import OverlayRouting.Address.Reader

namespace OverlayRouting

set_option autoImplicit false

structure Prefix where
  address : Address
  length : Nat
  length_le : length ≤ address.width
  deriving DecidableEq

namespace Prefix

def number (net : Prefix) : Nat := net.address.number * 256 + net.length

theorem number_inj {a b : Prefix} (same : a.number = b.number) : a = b := by
  have ha := Nat.le_trans a.length_le a.address.width_le
  have hb := Nat.le_trans b.length_le b.address.width_le
  simp only [number] at same
  have address : a.address = b.address := Address.number_inj (by omega)
  have length : a.length = b.length := by omega
  cases a
  cases b
  cases address
  cases length
  rfl

instance : Ranked Prefix := ⟨number, number_inj⟩

/-- The prefix that holds one address. -/
def host (address : Address) : Prefix := ⟨address, address.width, Nat.le_refl _⟩

theorem host_inj {a b : Address} (same : host a = host b) : a = b :=
  congrArg Prefix.address same

/-- A default route holds every address of its family. -/
def isDefault (net : Prefix) : Bool := net.length = 0

theorem host_not_default (address : Address) : (host address).isDefault = false := by
  cases address <;> rfl

def text (net : Prefix) : String := net.address.text ++ "/" ++ toString net.length

instance : ToString Prefix := ⟨text⟩

/-! ## Reading -/

def ofLength? (address : Address) (length : Nat) : Option Prefix :=
  if h : length ≤ address.width then some ⟨address, length, h⟩ else none

/-- What stands behind the address of a prefix: a slash and a length, written
with no more digits than the longest one needs. -/
def lengthBehind? (address : Address) (cs : List Char) : Option Prefix := do
  let cs ← Text.expect? '/' cs
  let most := match address with
    | .v4 _ => 2
    | .v6 _ => 3
  let (length, rest) ← Address.number? 10 most (address.width + 1) true cs
  if rest.isEmpty then ofLength? address length else none

/-- The prefix that a text holds from end to end. -/
def ofText? (text : String) : Option Prefix := do
  let (address, cs) ← Address.read? .inPrefix text.toList
  lengthBehind? address cs

end Prefix

end OverlayRouting
