/-
# OverlayRouting.Probe.Device -- tunnel interfaces and their peers

A peer is probed at the address of its first allowed prefix; a peer that is allowed
none is not probed.
-/
import OverlayRouting.Prefix

namespace OverlayRouting

set_option autoImplicit false

structure TunnelPeer where
  publicKey : String
  allowed : List Prefix
  deriving DecidableEq

structure Device where
  ifname : String
  publicKey : String
  peers : List TunnelPeer
  deriving DecidableEq

/-- The addresses to probe through a device. -/
def Device.targets (device : Device) : List Address :=
  device.peers.filterMap fun peer => peer.allowed.head?.map Prefix.address

end OverlayRouting
