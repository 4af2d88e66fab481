/-
# OverlayRouting.Services -- the destinations behind the peers of one group

Each destination has a roster of the links that reach it.  What the controller asks
for is only written down in the rosters; `commit` brings the routing table into
line, `reroute` follows the selected gateway, and `withdrawAll` takes everything
back.  All three walk the destinations in order and settle each by itself (`sweep`).
-/
import OverlayRouting.Service.Commit
import OverlayRouting.SortedMap

namespace OverlayRouting

set_option autoImplicit false

structure Services where
  group : GroupId
  rosters : SortedMap Prefix Roster := ∅
  deriving DecidableEq

namespace Services

def size (services : Services) : Nat := services.rosters.size

def isEmpty (services : Services) : Bool := services.rosters.isEmpty

def roster? (services : Services) (net : Prefix) : Option Roster := services.rosters.get? net

/-! ## Admission -/

/-- Admit a link as a candidate for a destination; says whether it is a new one.
Whether a destination is disabled is settled by its first candidate. -/
def add (services : Services) (link : Link) (net : Prefix) (disabled : Bool) : Bool × Services :=
  let roster := (services.roster? net).getD { disabled }
  let (added, roster) := roster.add link
  (added, { services with rosters := services.rosters.insert net roster })

/-- Let the candidate of a link go.  A roster without candidates is dropped. -/
def remove (services : Services) (link : Link) (net : Prefix) : Outcome × Services :=
  match services.roster? net with
  | none => (.error (.unknownDestination net), services)
  | some roster =>
      let left := roster.remove link.gateway
      let rosters :=
        if left.isEmpty then services.rosters.erase net else services.rosters.insert net left
      (.ok (), { services with rosters })

/-- Does the group claim this destination?  One that is only waiting to be
withdrawn is free for others. -/
def claims (services : Services) (net : Prefix) : Bool :=
  match services.roster? net with
  | none => false
  | some roster => !roster.disabled && !(roster.pending = (0, roster.size))

/-- The destinations that another group kept out. -/
def disabled (services : Services) : List Prefix :=
  services.rosters.entries.filterMap fun entry => if entry.2.disabled then some entry.1 else none

/-- Admit a disabled destination again; says whether there was one. -/
def enable (services : Services) (net : Prefix) : Bool × Services :=
  match services.roster? net with
  | none => (false, services)
  | some roster =>
      if roster.disabled then
        (true, { services with rosters := services.rosters.insert net roster.enable })
      else (false, services)

/-! ## Sweeps -/

/-- The services after a walk over the destinations, and what it reported. -/
structure Swept where
  services : Services
  statuses : List RouteStatus
  changes : List ActiveChange

variable {σ : Type} [RoutingTable σ]

/-- Settle every destination, in order. -/
def sweep (services : Services) (visit : Roster → Destination → σ → Settlement × σ) (table : σ) :
    Swept × σ :=
  let (settled, table) := services.rosters.traverse
    (fun net roster table => visit roster ⟨services.group, net⟩ table) table
  let rosters := settled.filterMap fun _ settlement => settlement.roster
  (⟨{ services with rosters }, settled.values.flatMap Settlement.statuses,
    settled.values.flatMap Settlement.changes⟩, table)

/-- Commit what is pending, given the group's selected gateway. -/
def commit (services : Services) (selected : Option Address) (table : σ) : Swept × σ :=
  services.sweep (fun roster destination => roster.commit destination selected) table

/-- Follow the group's selected gateway, if there is one. -/
def reroute (services : Services) (selected : Option Address) (table : σ) :
    List ActiveChange × Services × σ :=
  match selected with
  | none => ([], services, table)
  | some gateway =>
      let (swept, table) :=
        services.sweep (fun roster destination => roster.reroute destination gateway) table
      (swept.changes, swept.services, table)

/-- Withdraw everything.  What could not be withdrawn stays. -/
def withdrawAll (services : Services) (table : σ) : Services × σ :=
  let (swept, table) := services.sweep Roster.giveUp table
  (swept.services, table)

/-- Forget all destinations. -/
def flush (services : Services) : Services := { services with rosters := ∅ }

/-- Withdraw everything as far as possible and forget all destinations. -/
def close (services : Services) (table : σ) : Services × σ :=
  (services.flush, (services.withdrawAll table).2)

end Services

end OverlayRouting
