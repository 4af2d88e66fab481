/-
# OverlayRouting.Peer -- a candidate gateway

A peer is added, then active while the route to its own address is installed,
then removed; it leaves only after its route is gone.  A peer whose address is
claimed by another group is disabled and never installed.
-/
import OverlayRouting.Peer.Window
import OverlayRouting.Decimal.Fixed
import OverlayRouting.Link

namespace OverlayRouting

set_option autoImplicit false

namespace Peer

inductive State where
  /-- Admitted; its route is not installed yet. -/
  | joining
  /-- Its route is installed, and it may be selected. -/
  | active
  /-- Its route is installed and to be withdrawn. -/
  | leaving
  /-- Another group claims its address. -/
  | disabled
  deriving DecidableEq

end Peer

structure Peer where
  link : Link
  state : Peer.State
  window : Window
  deriving DecidableEq

namespace Peer

def enroll (link : Link) (windowSize : Nat) (disabled : Bool) : Peer :=
  { link, state := if disabled then .disabled else .joining, window := .empty windowSize }

def gateway (peer : Peer) : Address := peer.link.gateway

def host (peer : Peer) : Prefix := peer.link.host

/-- Does the peer hold its address against other groups? -/
def claimsAddress (peer : Peer) : Bool := peer.state = .joining || peer.state = .active

/-- Is the route to the peer's address installed? -/
def isInstalled (peer : Peer) : Bool := peer.state = .active || peer.state = .leaving

/-- Only an active peer that was measured may be selected. -/
def isEligible (peer : Peer) : Bool := peer.state = .active && peer.window.isMeasured

def latency (peer : Peer) : Float32 := peer.window.latency

def loss (peer : Peer) : Float32 := peer.window.loss

/-- Less loss ranks first, and with equal loss less latency. -/
def outranks (a b : Peer) : Bool :=
  a.loss < b.loss || (a.loss == b.loss && a.latency < b.latency)

def text (peer : Peer) : String :=
  let loss := Decimal.fixedSingle 3 peer.loss
  let latency := Decimal.fixedSingle 1 peer.latency
  s!"{peer.gateway} via {peer.link.ifname} loss: {loss} latency: {latency}"

end Peer

end OverlayRouting
