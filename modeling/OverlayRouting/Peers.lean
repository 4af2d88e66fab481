/-
# OverlayRouting.Peers -- the candidate gateways of one group

The peers of a group stand in the order in which they were admitted.  `commit`
installs and withdraws the routes to their addresses, `ping` feeds a probe round
into their windows, and `select` picks the gateway that should carry traffic.

The incumbent, the gateway picked last, keeps the traffic while it is eligible,
unless the peer that ranks first has less loss, or both windows are complete and
its latency is lower by the margins (`shouldMove`).
-/
import OverlayRouting.Peer
import OverlayRouting.Peer.Margins
import OverlayRouting.Tallies
import OverlayRouting.RoutingTable

namespace OverlayRouting

set_option autoImplicit false

structure Peers where
  group : GroupId
  windowSize : Nat
  margins : Margins
  list : List Peer := []
  /-- The gateway that was selected last. -/
  incumbent : Option Address := none
  deriving DecidableEq

namespace Peers

def size (peers : Peers) : Nat := peers.list.length

def isEmpty (peers : Peers) : Bool := peers.list.isEmpty

def peer? (peers : Peers) (gateway : Address) : Option Peer :=
  peers.list.find? (·.gateway = gateway)

/-! ## Admission -/

/-- Admit the peer of a link, unless its gateway is known; says whether it did. -/
def add (peers : Peers) (link : Link) (disabled : Bool) : Bool × Peers :=
  match peers.peer? link.gateway with
  | some _ => (false, peers)
  | none =>
      (true, { peers with list := peers.list ++ [.enroll link peers.windowSize disabled] })

/-- Does the agent break down when it admits the peer of a link?  It does if that needs
a window that cannot be held. -/
def breaksDown (peers : Peers) (link : Link) : Bool :=
  !Window.canHold peers.windowSize && (peers.peer? link.gateway).isNone

/-- What is left of a peer that is to go: one whose route is installed stays until
that is withdrawn. -/
def dismissed (peer : Peer) : Option Peer :=
  match peer.state with
  | .active | .leaving => some { peer with state := .leaving }
  | .joining | .disabled => none

/-- Let the peer with this gateway go; says whether there is one. -/
def remove (peers : Peers) (gateway : Address) : Bool × Peers :=
  match peers.peer? gateway with
  | none => (false, peers)
  | some _ =>
      (true, { peers with
        list := peers.list.filterMap fun peer =>
          if peer.gateway = gateway then dismissed peer else some peer })

/-- Does the group claim this prefix as the address of a peer? -/
def claims (peers : Peers) (net : Prefix) : Bool :=
  peers.list.any fun peer => peer.claimsAddress && peer.host = net

/-- The prefixes of the peers that another group kept out. -/
def disabled (peers : Peers) : List Prefix :=
  (peers.list.filter (·.state = .disabled)).map Peer.host

/-- Admit a disabled peer again; says whether there was one. -/
def enable (peers : Peers) (net : Prefix) : Bool × Peers :=
  if peers.list.any fun peer => peer.state = .disabled && peer.host = net then
    (true, { peers with
      list := peers.list.map fun peer =>
        if peer.state = .disabled && peer.host = net then { peer with state := .joining }
        else peer })
  else (false, peers)

/-! ## Measuring -/

/-- Feed a round into one peer.  A round that did not probe it says nothing. -/
def measured (tallies : Tallies) (peer : Peer) : Peer :=
  match tallies.get? peer.gateway with
  | none => peer
  | some tally =>
      if peer.state = .active && tally.isValid then
        { peer with window := peer.window.push ⟨tally.latency, tally.loss⟩ }
      else peer

def ping (peers : Peers) (tallies : Tallies) : Peers :=
  { peers with list := peers.list.map (measured tallies) }

/-! ## Selection -/

/-- The first of the peers that no other one outranks. -/
def ranked : List Peer → Option Peer
  | [] => none
  | peer :: rest => some (rest.foldl (fun best other => if other.outranks best then other else best) peer)

def topRanked (peers : Peers) : Option Peer := ranked (peers.list.filter Peer.isEligible)

/-- The peer selected last, if it may still be selected. -/
def eligibleIncumbent (peers : Peers) : Option Peer :=
  peers.incumbent.bind fun gateway =>
    peers.list.find? fun peer => peer.gateway = gateway && peer.isEligible

/-- Is the challenger so much better that traffic should move?  Less loss decides
at once, even with gaps in a window: a link that stopped answering only ever fills
its window with losses. -/
def shouldMove (margins : Margins) (incumbent challenger : Peer) : Bool :=
  if challenger.loss < incumbent.loss then true
  else if !(incumbent.window.isComplete && challenger.window.isComplete) then false
  else if !margins.isEnabled then true
  else margins.met incumbent.latency challenger.latency

/-- The peer to carry traffic now; it becomes the incumbent. -/
def select (peers : Peers) : Option Peer × Peers :=
  match peers.topRanked with
  | none => (none, { peers with incumbent := none })
  | some challenger =>
      let chosen :=
        match peers.eligibleIncumbent with
        | none => challenger
        | some incumbent =>
            if incumbent.gateway = challenger.gateway ∨ shouldMove peers.margins incumbent challenger
            then challenger
            else incumbent
      (some chosen, { peers with incumbent := some chosen.gateway })

/-! ## Commit -/

section

variable {σ : Type} [RoutingTable σ]

/-- What became of one peer in a commit. -/
structure Settled where
  /-- The peer after it; none if it is gone. -/
  kept : Option Peer
  failure : Option Error := none

/-- Bring the table into line with one peer.  If the table refuses, the peer stays
as it is for the next commit. -/
def settle (peer : Peer) (table : σ) : Settled × σ :=
  match peer.state with
  | .joining =>
      match RoutingTable.add peer.link.ifname none peer.host table with
      | (.ok _, table) => (⟨some { peer with state := .active }, none⟩, table)
      | (.error cause, table) => (⟨some peer, some cause⟩, table)
  | .leaving =>
      match RoutingTable.remove peer.link.ifname peer.host table with
      | (.ok _, table) => (⟨none, none⟩, table)
      | (.error cause, table) => (⟨some peer, some cause⟩, table)
  | .active | .disabled => (⟨some peer, none⟩, table)

def settleAll : List Peer → σ → (List Settled) × σ
  | [], table => ([], table)
  | peer :: rest, table =>
      let (settled, table) := settle peer table
      let (others, table) := settleAll rest table
      (settled :: others, table)

/-- Install and withdraw what is pending.  Every peer is attended to; of several
failures the last one is reported. -/
def commit (peers : Peers) (table : σ) : Outcome × Peers × σ :=
  let (settled, table) := settleAll peers.list table
  let outcome := match (settled.filterMap Settled.failure).getLast? with
    | none => .ok ()
    | some cause => .error cause
  (outcome, { peers with list := settled.filterMap Settled.kept }, table)

/-- Forget all peers. -/
def flush (peers : Peers) : Peers := { peers with list := [], incumbent := none }

/-- Withdraw every installed route, whatever the table says to it, and forget all
peers. -/
def close (peers : Peers) (table : σ) : Peers × σ :=
  (peers.flush, (peers.list.filter Peer.isInstalled).foldl
    (fun table peer => (RoutingTable.remove peer.link.ifname peer.host table).2) table)

end

end Peers

end OverlayRouting
