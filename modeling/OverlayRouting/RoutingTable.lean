/-
# OverlayRouting.RoutingTable -- what is asked of a routing table

A routing table adds, removes and replaces the route to exactly one destination,
and says whether there is such a route and which interface carries it.  Every
call takes the table and gives the table after it, so that a run is a value.

A table either makes a change or refuses it; repeating a change that was made is
no error.
-/
import OverlayRouting.Error

namespace OverlayRouting

set_option autoImplicit false

/-- The three ways to change a route. -/
inductive Change where
  | add
  | remove
  | replace
  deriving DecidableEq

def Change.verb : Change → String
  | .add => "add"
  | .remove => "del"
  | .replace => "replace"

/-- Something that a routing table was asked to do, or gave up on. -/
abbrev Outcome := Except Error Unit

/-- The calls of a routing table whose state is `σ`. -/
class RoutingTable (σ : Type) where
  /-- Route a destination through an interface. -/
  add (ifname : String) (gateway : Option Address) (destination : Prefix) (table : σ) : Outcome × σ
  /-- Withdraw the route that goes through the interface. -/
  remove (ifname : String) (destination : Prefix) (table : σ) : Outcome × σ
  /-- Move the route of a destination to an interface in one step. -/
  replace (ifname : String) (gateway : Option Address) (destination : Prefix) (table : σ) : Outcome × σ
  /-- Is there a route to exactly this destination? -/
  holds (destination : Prefix) (table : σ) : Bool × σ
  /-- The interface that carries the route to exactly this destination. -/
  carrier (destination : Prefix) (table : σ) : Option String × σ

end OverlayRouting
