/-
# OverlayRouting.Link -- connection groups and the links to their peers

The controller numbers connections and puts each into a group; a link is one
tunnel connection to one peer.  The peer's tunnel address is the gateway for
everything behind it.
-/
import OverlayRouting.Prefix

namespace OverlayRouting

set_option autoImplicit false

/-- A connection group: within one group an address may be claimed many times,
across groups once. -/
structure GroupId where
  number : UInt32
  deriving DecidableEq

instance : Ranked GroupId where
  rank group := group.number.toNat
  rank_inj {a b} same := by
    cases a
    cases b
    exact congrArg GroupId.mk (UInt32.toNat_inj.1 same)

instance : ToString GroupId := ⟨fun group => toString group.number.toNat⟩

/-- One tunnel connection, as the controller numbers it. -/
structure ConnectionId where
  number : UInt32
  deriving DecidableEq

instance : ToString ConnectionId := ⟨fun connection => toString connection.number.toNat⟩

structure Link where
  ifname : String
  publicKey : String
  gateway : Address
  connection : ConnectionId
  group : GroupId
  deriving DecidableEq

namespace Link

/-- The prefix of the peer's own address. -/
def host (link : Link) : Prefix := .host link.gateway

def text (link : Link) : String :=
  s!"{link.gateway} via {link.ifname} [conn:{link.connection} group:{link.group}]"

end Link

end OverlayRouting
