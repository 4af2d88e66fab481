/-
# OverlayRouting.Decimal.Binary -- what a float is, exactly

A float is a number `± mantissa · 2 ^ exponent`, an infinity, or not a number.
`Binary` says which; `widen` and `narrow` change a float's format, the first
without loss and the second to the nearest value, ties to the even mantissa.
-/
namespace OverlayRouting.Decimal

set_option autoImplicit false

open Float.Model (Format UnpackedFloat)

/-- The value of a float. -/
inductive Binary where
  | notANumber
  | infinite (negative : Bool)
  | finite (negative : Bool) (mantissa : Nat) (exponent : Int)
  deriving DecidableEq

namespace Binary

def isNegative : UnpackedFloat.Sign → Bool
  | .positive => false
  | .negative => true

def ofUnpacked : UnpackedFloat → Binary
  | .notANumber => .notANumber
  | .infinity sign => .infinite (isNegative sign)
  | .zero sign => .finite (isNegative sign) 0 0
  | .finite sign mantissa exponent _ => .finite (isNegative sign) mantissa exponent

def ofSingle (x : Float32) : Binary :=
  ofUnpacked (UnpackedFloat.unpack Format.binary32 x.toBits.toBitVec)

def ofDouble (x : Float) : Binary :=
  ofUnpacked (UnpackedFloat.unpack Format.binary64 x.toBits.toBitVec)

end Binary

/-- The float of another format nearest to an unpacked one. -/
def rounded (format : Format) : UnpackedFloat → UnpackedFloat
  | .finite sign mantissa exponent _ => UnpackedFloat.round format sign mantissa exponent
  | other => other

/-- A single as a double: the same value. -/
def widen (x : Float32) : Float :=
  Float.ofBits (UInt64.ofBitVec (UnpackedFloat.pack Format.binary64
    (rounded Format.binary64 (UnpackedFloat.unpack Format.binary32 x.toBits.toBitVec))))

/-- The single nearest to a double; beyond the largest single it is infinite. -/
def narrow (x : Float) : Float32 :=
  Float32.ofBits (UInt32.ofBitVec (UnpackedFloat.pack Format.binary32
    (rounded Format.binary32 (UnpackedFloat.unpack Format.binary64 x.toBits.toBitVec))))

end OverlayRouting.Decimal
