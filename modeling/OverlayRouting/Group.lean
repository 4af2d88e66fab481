/-
# OverlayRouting.Group -- one connection group

A group is its peers and the destinations behind them.  It claims an address as the
address of a peer or as a destination; across groups a claim is exclusive.
-/
import OverlayRouting.Peers
import OverlayRouting.Services

namespace OverlayRouting

set_option autoImplicit false

structure Group where
  peers : Peers
  services : Services
  deriving DecidableEq

namespace Group

def empty (id : GroupId) (windowSize : Nat) (margins : Margins) : Group :=
  { peers := { group := id, windowSize, margins }, services := { group := id } }

def claims (group : Group) (net : Prefix) : Bool :=
  group.peers.claims net || group.services.claims net

/-- The connection that carries a destination: that of the installed candidate if
the destination is known, else that of the active peer with this address. -/
def carrying (group : Group) (net : Prefix) : Option ConnectionId :=
  match group.services.roster? net with
  | some roster => roster.installed?.map Candidate.connection
  | none =>
      (group.peers.list.find? fun peer => peer.host = net && peer.state = .active).map
        fun peer => peer.link.connection

/-- What one walk over the groups makes of a group, and what it reports. -/
structure Settled where
  /-- None if the group is dropped. -/
  kept : Option Group
  statuses : List RouteStatus := []
  changes : List ActiveChange := []

variable {σ : Type} [RoutingTable σ]

/-- Commit the peers, then the destinations.  A group without peers is given up: its
destinations are withdrawn, and it goes with the last of them. -/
def commit (group : Group) (table : σ) : Settled × σ :=
  let (_, peers, table) := group.peers.commit table
  let (selected, peers) := peers.select
  let (swept, table) := group.services.commit (selected.map Peer.gateway) table
  if peers.isEmpty then
    let (services, table) := swept.services.withdrawAll table
    (⟨if services.isEmpty then none else some ⟨peers, services⟩, swept.statuses, swept.changes⟩, table)
  else (⟨some ⟨peers, swept.services⟩, swept.statuses, swept.changes⟩, table)

/-- Feed a probe round into the peers and follow the selected one. -/
def ping (group : Group) (tallies : Tallies) (table : σ) : Settled × σ :=
  let (selected, peers) := (group.peers.ping tallies).select
  let (changes, services, table) := group.services.reroute (selected.map Peer.gateway) table
  (⟨some ⟨peers, services⟩, [], changes⟩, table)

/-- Withdraw all routes of the group. -/
def close (group : Group) (table : σ) : σ :=
  (group.peers.close (group.services.close table).2).2

end Group

end OverlayRouting
