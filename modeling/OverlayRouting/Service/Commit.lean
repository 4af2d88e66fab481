/-
# OverlayRouting.Service.Commit -- bringing the table into line with a roster

There are three cases.  If all candidates are new, the destination is installed; if
all are to leave, it is withdrawn; otherwise the route moves from the old candidate
to a new one.  A roster changes only after the table has accepted, so a destination
whose change was refused stays as it was and is tried again.
-/
import OverlayRouting.Service.Roster
import OverlayRouting.Event
import OverlayRouting.RoutingTable

namespace OverlayRouting

set_option autoImplicit false

/-- What an operation made of one destination. -/
structure Settlement where
  /-- The roster after it; none if the destination is dropped. -/
  roster : Option Roster
  statuses : List RouteStatus := []
  changes : List ActiveChange := []

/-- A destination of a group, and what is reported about it. -/
structure Destination where
  group : GroupId
  net : Prefix

namespace Destination

def status (destination : Destination) (candidate : Candidate) (outcome : Outcome) : RouteStatus :=
  .ofOutcome candidate.connection destination.group destination.net outcome

def change (destination : Destination) (previous current : Option Candidate) : ActiveChange :=
  ⟨previous.map Candidate.connection, current.map Candidate.connection, destination.group⟩

end Destination

namespace Roster

variable {σ : Type} [RoutingTable σ]

/-- The roster with `candidate` installed where nothing was. -/
def attached (roster : Roster) (destination : Destination) (candidate : Candidate) : Settlement :=
  { roster := some (roster.settle (some candidate.gateway))
    statuses := [destination.status candidate (.ok ())]
    changes := [destination.change none (some candidate)] }

def failed (roster : Roster) (destination : Destination) (candidate : Candidate) (cause : Error) :
    Settlement :=
  { roster := some roster, statuses := [destination.status candidate (.error cause)] }

/-- Install a destination for the first time.  A route that goes through one of its
own interfaces is taken over as it is; any other one is left alone. -/
def install (roster : Roster) (destination : Destination) (table : σ) : Settlement × σ :=
  match roster.default? with
  | none => ({ roster := some roster }, table)
  | some first =>
      match RoutingTable.carrier destination.net table with
      | (none, table) =>
          match RoutingTable.add first.link.ifname none destination.net table with
          | (.ok _, table) => (roster.attached destination first, table)
          | (.error cause, table) => (roster.failed destination first cause, table)
      | (some ifname, table) =>
          match roster.candidates.find? (·.link.ifname = ifname) with
          | some own => (roster.attached destination own, table)
          | none =>
              (roster.failed destination first (.foreignRoute destination.net ifname), table)

/-- Withdraw a destination and drop it. -/
def withdraw (roster : Roster) (destination : Destination) (table : σ) : Settlement × σ :=
  match roster.installed? with
  | none => ({ roster := none }, table)
  | some candidate =>
      match RoutingTable.remove candidate.link.ifname destination.net table with
      | (.ok _, table) =>
          ({ roster := none, changes := [destination.change (some candidate) none] }, table)
      | (.error _, table) => ({ roster := some roster }, table)

/-- Move a destination from one candidate to another.  Between a candidate and
itself there is nothing to do, and then there is no change. -/
def move (destination : Destination) (old new : Option Candidate) (table : σ) :
    Except Error (Option ActiveChange) × σ :=
  let done (asked : Outcome × σ) : Except Error (Option ActiveChange) × σ :=
    (asked.1.map fun _ => some (destination.change old new), asked.2)
  match old, new with
  | none, none => (.ok none, table)
  | some old, none => done (RoutingTable.remove old.link.ifname destination.net table)
  | none, some new => done (RoutingTable.add new.link.ifname none destination.net table)
  | some old, some new =>
      if old.gateway = new.gateway then (.ok none, table)
      else done (RoutingTable.replace new.link.ifname none destination.net table)

/-- The candidate to carry a destination from now on: the one of the selected
gateway, else the installed one, else the first, always among those that stay. -/
def successor (roster : Roster) (selected : Option Address) : Option Candidate :=
  let staying (candidate : Option Candidate) := candidate.filter fun c => !c.isLeaving
  ((staying (selected.bind roster.candidate?)).or (staying roster.installed?)).or roster.default?

/-- Settle a destination with candidates that stay and others that come or go. -/
def reconfigure (roster : Roster) (destination : Destination) (selected : Option Address) (table : σ) :
    Settlement × σ :=
  let old := roster.installed?
  let new := roster.successor selected
  let concerned := (new.or old).toList
  match move destination old new table with
  | (.ok change, table) =>
      ({ roster := some (roster.settle (new.map Candidate.gateway))
         statuses := if change.isSome then concerned.map (destination.status · (.ok ())) else []
         changes := change.toList }, table)
  | (.error cause, table) =>
      ({ roster := some roster, statuses := concerned.map (destination.status · (.error cause)) },
        table)

/-- Commit what is pending for a destination. -/
def commit (roster : Roster) (destination : Destination) (selected : Option Address) (table : σ) :
    Settlement × σ :=
  if roster.disabled || !roster.hasPending then ({ roster := some roster }, table)
  else
    let (joining, leaving) := roster.pending
    if joining = roster.size ∧ leaving = 0 then roster.install destination table
    else if leaving = roster.size ∧ joining = 0 then roster.withdraw destination table
    else roster.reconfigure destination selected table

/-- Move a committed destination to the selected gateway, if that serves it.  One
with pending work is left to the next commit. -/
def reroute (roster : Roster) (destination : Destination) (selected : Address) (table : σ) :
    Settlement × σ :=
  if roster.disabled || roster.hasPending then ({ roster := some roster }, table)
  else
    match roster.candidate? selected with
    | none => ({ roster := some roster }, table)
    | some candidate =>
        match move destination roster.installed? (some candidate) table with
        | (.ok (some change), table) =>
            ({ roster := some (roster.settle (some selected)), changes := [change] }, table)
        | (_, table) => ({ roster := some roster }, table)

/-- Give a destination up; it stays only if its route could not be withdrawn.  What
was installed is not reported, since the whole group goes. -/
def giveUp (roster : Roster) (destination : Destination) (table : σ) : Settlement × σ :=
  if roster.disabled then ({ roster := none }, table)
  else
    let (settlement, table) := roster.withdraw destination table
    ({ settlement with changes := [] }, table)

end Roster

end OverlayRouting
