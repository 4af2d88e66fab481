/-
# OverlayRouting.Address -- IP addresses

An address is 32 or 128 bits.  Addresses are ordered with IPv4 first and by value
within a family; `rank` is that order as a number.

An IPv6 address is written as eight groups of hexadecimal digits, the first of
the longest runs of at least two zero groups as `::`; an IPv4 address that was
mapped into IPv6 keeps its dotted form.
-/
import OverlayRouting.Ranked
import OverlayRouting.Text.Digits

namespace OverlayRouting

set_option autoImplicit false

inductive Address where
  | v4 (bits : BitVec 32)
  | v6 (bits : BitVec 128)
  deriving DecidableEq

namespace Address

/-- The number of bits. -/
def width : Address → Nat
  | .v4 _ => 32
  | .v6 _ => 128

theorem width_le (address : Address) : address.width ≤ 128 := by
  cases address <;> simp [width]

def number : Address → Nat
  | .v4 bits => bits.toNat
  | .v6 bits => UInt32.size + bits.toNat

theorem number_inj {a b : Address} (same : a.number = b.number) : a = b := by
  cases a with
  | v4 x =>
      cases b with
      | v4 y => exact congrArg v4 (BitVec.eq_of_toNat_eq same)
      | v6 y =>
          have := x.isLt
          simp only [number, UInt32.size] at same
          omega
  | v6 x =>
      cases b with
      | v4 y =>
          have := y.isLt
          simp only [number, UInt32.size] at same
          omega
      | v6 y =>
          simp only [number] at same
          exact congrArg v6 (BitVec.eq_of_toNat_eq (by omega))

instance : Ranked Address := ⟨number, number_inj⟩

/-! ## Parts -/

open Text (digits)

/-- The four octets of 32 bits. -/
def octets (bits : Nat) : List Nat := digits 256 4 bits

/-- The eight groups of 128 bits. -/
def groups (bits : Nat) : List Nat := digits 65536 8 bits

/-! ## Text -/

/-- Texts with a separator between each two. -/
def joined (separator : String) (texts : List String) : String :=
  separator.intercalate texts

def dotted (bits : Nat) : String := joined "." ((octets bits).map toString)

def hexGroup (group : Nat) : String := String.ofList (Nat.toDigits 16 group)

/-- A run of zero groups: where it starts and how long it is. -/
structure ZeroRun where
  start : Nat
  length : Nat

/-- The first of the longest runs of zeros among the groups from position
`start` on; `current` is the run that ends right before it. -/
def longestRun (start : Nat) (current best : ZeroRun) : List Nat → ZeroRun
  | [] => best
  | group :: rest =>
      if group = 0 then
        let run : ZeroRun :=
          if current.length = 0 then ⟨start, 1⟩ else ⟨current.start, current.length + 1⟩
        longestRun (start + 1) run (if best.length < run.length then run else best) rest
      else longestRun (start + 1) ⟨0, 0⟩ best rest

def colons (parts : List Nat) : String := joined ":" (parts.map hexGroup)

def v6Text (bits : Nat) : String :=
  let parts := groups bits
  let run := longestRun 0 ⟨0, 0⟩ ⟨0, 0⟩ parts
  if bits / UInt32.size = 0xFFFF then "::ffff:" ++ dotted (bits % UInt32.size)
  else if 1 < run.length then
    colons (parts.take run.start) ++ "::" ++ colons (parts.drop (run.start + run.length))
  else colons parts

def text : Address → String
  | .v4 bits => dotted bits.toNat
  | .v6 bits => v6Text bits.toNat

instance : ToString Address := ⟨text⟩

end Address

end OverlayRouting
