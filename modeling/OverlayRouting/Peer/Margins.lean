/-
# OverlayRouting.Peer.Margins -- how much better a new gateway has to be

Traffic is not moved for a small gain: with margins, a challenger has to be faster
than the incumbent by an amount and by a ratio.
-/
namespace OverlayRouting

set_option autoImplicit false

structure Margins where
  /-- In milliseconds. -/
  diff : Float32 := 0
  ratio : Float32 := 0
  deriving DecidableEq

namespace Margins

def none : Margins := { diff := 0, ratio := 0 }

/-- A ratio up to one asks for nothing by itself. -/
def isEnabled (margins : Margins) : Bool := 0 < margins.diff || 1 < margins.ratio

/-- Is `challenger` faster than `incumbent` by both margins? -/
def met (margins : Margins) (incumbent challenger : Float32) : Bool :=
  challenger + margins.diff ≤ incumbent && challenger * margins.ratio ≤ incumbent

/-- Numerically equal margins. -/
def same (a b : Margins) : Bool := a.diff == b.diff && a.ratio == b.ratio

end Margins

end OverlayRouting
