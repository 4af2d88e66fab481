/-
# OverlayRouting.RoutingTable.Memory -- a routing table in memory

It holds one route for a destination, keeps a history of the changes it was asked
to make, and can be told to refuse every change of a destination.  A refused
change leaves the routes as they are.

Adding a route that is there is accepted if it goes through the same interface.
Removing is accepted always, and takes away only a route through the interface
that is named.
-/
import OverlayRouting.RoutingTable
import OverlayRouting.SortedMap

namespace OverlayRouting

set_option autoImplicit false

structure Route where
  ifname : String
  gateway : Option Address := none
  deriving DecidableEq

/-- A change that a table was asked to make. -/
structure Call where
  change : Change
  ifname : String
  destination : Prefix
  deriving DecidableEq

structure MemoryTable where
  routes : SortedMap Prefix Route := ∅
  /-- What was asked, the latest first. -/
  history : List Call := []
  /-- The destinations whose changes are refused. -/
  failing : List Prefix := []
  deriving DecidableEq

namespace MemoryTable

/-- What was asked, the earliest first. -/
def calls (table : MemoryTable) : List Call := table.history.reverse

def forgetCalls (table : MemoryTable) : MemoryTable := { table with history := [] }

/-- Refuse every change of the destination. -/
def failOn (table : MemoryTable) (destination : Prefix) : MemoryTable :=
  { table with failing := destination :: table.failing }

def clearFailures (table : MemoryTable) : MemoryTable := { table with failing := [] }

/-- A route that somebody else installed. -/
def existing (table : MemoryTable) (destination : Prefix) (ifname : String) : MemoryTable :=
  { table with routes := table.routes.insert destination { ifname } }

/-- The interface that carries the route to a destination. -/
def via? (table : MemoryTable) (destination : Prefix) : Option String :=
  (table.routes.get? destination).map Route.ifname

/-- What is to become of the routes, as if no change were refused. -/
def changed (routes : SortedMap Prefix Route) (call : Call) (gateway : Option Address) :
    Except String (SortedMap Prefix Route) :=
  match call.change with
  | .add =>
      match routes.get? call.destination with
      | none => .ok (routes.insert call.destination ⟨call.ifname, gateway⟩)
      | some route =>
          if route.ifname = call.ifname then .ok routes
          else .error s!"File exists (dev {route.ifname})"
  | .remove =>
      match routes.get? call.destination with
      | none => .ok routes
      | some route =>
          .ok (if route.ifname = call.ifname then routes.erase call.destination else routes)
  | .replace => .ok (routes.insert call.destination ⟨call.ifname, gateway⟩)

/-- The report of a change that was not made. -/
def refusal (call : Call) (reason : String) : Error :=
  .tableRefused s!"{call.change.verb} {call.destination}: {reason}"

/-- Write the call down, then make the change if that is possible. -/
def perform (call : Call) (gateway : Option Address) (table : MemoryTable) :
    Outcome × MemoryTable :=
  let noted := { table with history := call :: table.history }
  if call.destination ∈ table.failing then (.error (refusal call "injected failure"), noted)
  else
    match changed table.routes call gateway with
    | .error reason => (.error (refusal call reason), noted)
    | .ok routes => (.ok (), { noted with routes })

instance : RoutingTable MemoryTable where
  add ifname gateway destination := perform ⟨.add, ifname, destination⟩ gateway
  remove ifname destination := perform ⟨.remove, ifname, destination⟩ none
  replace ifname gateway destination := perform ⟨.replace, ifname, destination⟩ gateway
  holds destination table := (table.routes.contains destination, table)
  carrier destination table := (table.via? destination, table)

/-! ## What a call changes -/

theorem perform_failing (call : Call) (gateway : Option Address) (table : MemoryTable) :
    (perform call gateway table).2.failing = table.failing := by
  simp only [perform]
  split
  · rfl
  · split <;> rfl

end MemoryTable

end OverlayRouting
