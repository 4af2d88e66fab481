/-
# OverlayRouting.Address.Reader -- addresses from text

IPv4 is four decimal octets.  IPv6 is eight groups of up to four hexadecimal
digits; one `::` may stand for the zero groups that are missing, and the last two
groups may be written as an IPv4 address.

Two spellings of addresses are in use and differ in two points, which a `Spelling`
settles: whether an octet may start with a zero, and whether `::` may stand for
nothing at all.
-/
import OverlayRouting.Address
import OverlayRouting.Text.Front

namespace OverlayRouting.Address

set_option autoImplicit false

open Text (digits ofDigits isDigitOf numberOf expect?)

structure Spelling where
  zeroMayLead : Bool
  gapMayBeEmpty : Bool

/-- Addresses that stand alone. -/
def Spelling.plain : Spelling := ⟨false, false⟩

/-- Addresses in front of a prefix length. -/
def Spelling.inPrefix : Spelling := ⟨true, true⟩

/-! ## Numbers -/

/-- All the digits at the front: at least one, at most `most`, and their value
below `bound`. -/
def number? (base most bound : Nat) (zeroMayLead : Bool) (cs : List Char) :
    Option (Nat × List Char) :=
  let digits := cs.takeWhile (isDigitOf base)
  let value := numberOf base digits
  if digits.isEmpty || decide (most < digits.length) || decide (bound ≤ value) then none
  else if !zeroMayLead && decide (1 < digits.length) && digits.head? == some '0' then none
  else some (value, cs.dropWhile (isDigitOf base))

/-! ## Families -/

/-- The remaining octets, each behind a point. -/
def moreOctets? (spelling : Spelling) : (count : Nat) → List Char → Option (List Nat × List Char)
  | 0, cs => some ([], cs)
  | count + 1, cs => do
      let cs ← expect? '.' cs
      let (octet, cs) ← number? 10 3 256 spelling.zeroMayLead cs
      let (octets, cs) ← moreOctets? spelling count cs
      some (octet :: octets, cs)

def v4? (spelling : Spelling) (cs : List Char) : Option (BitVec 32 × List Char) := do
  let (octet, cs) ← number? 10 3 256 spelling.zeroMayLead cs
  let (octets, cs) ← moreOctets? spelling 3 cs
  some (BitVec.ofNat 32 (ofDigits 256 (octet :: octets)), cs)

/-- A colon stands in front of every group but the first. -/
def afterColon? (first : Bool) (cs : List Char) : Option (List Char) :=
  if first then some cs else expect? ':' cs

structure Groups where
  parts : List Nat
  endsInV4 : Bool
  rest : List Char

/-- As many groups as there are, but at most `room`.  An IPv4 address ends them
and takes the room of two. -/
def someGroups (spelling : Spelling) : (room : Nat) → (first : Bool) → List Char → Groups
  | 0, _, cs => ⟨[], false, cs⟩
  | room + 1, first, cs =>
      let embedded := if 0 < room then afterColon? first cs >>= v4? spelling else none
      match embedded with
      | some (bits, rest) => ⟨digits 65536 2 bits.toNat, true, rest⟩
      | none =>
          match afterColon? first cs >>= number? 16 4 65536 true with
          | some (group, rest) =>
              let more := someGroups spelling room false rest
              { more with parts := group :: more.parts }
          | none => ⟨[], false, cs⟩

def v6? (spelling : Spelling) (cs : List Char) : Option (BitVec 128 × List Char) := do
  let head := someGroups spelling 8 true cs
  if head.parts.length = 8 then
    some (BitVec.ofNat 128 (ofDigits 65536 head.parts), head.rest)
  else if head.endsInV4 then none
  else
    let cs ← expect? ':' head.rest
    let cs ← expect? ':' cs
    let room := if spelling.gapMayBeEmpty then 8 - head.parts.length else 7 - head.parts.length
    let tail := someGroups spelling room true cs
    let zeros := List.replicate (8 - head.parts.length - tail.parts.length) 0
    some (BitVec.ofNat 128 (ofDigits 65536 (head.parts ++ zeros ++ tail.parts)), tail.rest)

/-- An address at the front of a text. -/
def read? (spelling : Spelling) (cs : List Char) : Option (Address × List Char) :=
  match v4? spelling cs with
  | some (bits, rest) => some (.v4 bits, rest)
  | none => (v6? spelling cs).map fun found => (.v6 found.1, found.2)

/-- The address that a text holds from end to end. -/
def ofText? (text : String) : Option Address :=
  match read? .plain text.toList with
  | some (address, []) => some address
  | _ => none

end OverlayRouting.Address
