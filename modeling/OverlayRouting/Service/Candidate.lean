/-
# OverlayRouting.Service.Candidate -- one possible route to a destination

A candidate is added, committed, and removed.  Of the committed candidates of a
destination one is active, that is installed in the routing table, and the others
stand by.  A candidate that is to leave remembers whether it is installed.
-/
import OverlayRouting.Link

namespace OverlayRouting

set_option autoImplicit false

namespace Candidate

inductive State where
  /-- Admitted, not committed yet. -/
  | joining
  /-- Committed, not carrying traffic. -/
  | standby
  /-- Installed in the routing table. -/
  | active
  /-- To be removed. -/
  | leaving (installed : Bool)
  /-- Another group claims the destination. -/
  | disabled
  deriving DecidableEq

def State.text : State → String
  | .joining => "PendingAdd"
  | .standby => "Standby"
  | .active => "Active"
  | .leaving installed => "PendingDel \x7b active: " ++ (if installed then "true" else "false") ++ " \x7d"
  | .disabled => "Disabled"

end Candidate

structure Candidate where
  link : Link
  state : Candidate.State
  deriving DecidableEq

namespace Candidate

def gateway (candidate : Candidate) : Address := candidate.link.gateway

def connection (candidate : Candidate) : ConnectionId := candidate.link.connection

/-- Is its route in the routing table? -/
def isInstalled (candidate : Candidate) : Bool :=
  candidate.state = .active || candidate.state = .leaving true

def isLeaving (candidate : Candidate) : Bool :=
  match candidate.state with
  | .leaving _ => true
  | _ => false

def text (candidate : Candidate) : String :=
  let link := candidate.link
  s!"{link.gateway} via {link.ifname} [conn:{link.connection}] {candidate.state.text}"

end Candidate

end OverlayRouting
