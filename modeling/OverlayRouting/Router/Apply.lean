/-
# OverlayRouting.Router.Apply -- committing all groups

A pass commits every group and then admits again what other groups had kept out and
have let go.  What was admitted again is committed by the next pass.  The number of
passes is bounded; what is contested after the last one stays disabled.
-/
import OverlayRouting.Router

namespace OverlayRouting

set_option autoImplicit false

namespace Router

/-- Two groups that fight over an address must not keep the router busy. -/
def mostPasses : Nat := 3

/-- What a commit did. -/
structure Report where
  statuses : List RouteStatus := []
  changes : List ActiveChange := []
  passes : Nat := 0
  deriving DecidableEq

namespace Report

/-- Nothing was committed. -/
def isEmpty (report : Report) : Bool := report.statuses.isEmpty && report.changes.isEmpty

/-- What the controller hears about it. -/
def events (report : Report) : List Event :=
  Event.sent [.statuses report.statuses, .changes report.changes]

end Report

/-! ## Admitting again -/

/-- Disabled addresses of one kind, and how to admit one of them again. -/
structure Held where
  addresses : Group → List Prefix
  enable : Group → Prefix → Bool × Group

def heldPeers : Held where
  addresses group := group.peers.disabled
  enable group net :=
    let (enabled, peers) := group.peers.enable net
    (enabled, { group with peers })

def heldServices : Held where
  addresses group := group.services.disabled
  enable group net :=
    let (enabled, services) := group.services.enable net
    (enabled, { group with services })

/-- Admit an address of a group again unless another group claims it; counts. -/
def restore (held : Held) (id : GroupId) (progress : Nat × Router) (net : Prefix) : Nat × Router :=
  let (count, router) := progress
  if router.hasConflict net id then progress
  else
    match router.groups.get? id with
    | none => progress
    | some group =>
        let (enabled, group) := held.enable group net
        (if enabled then count + 1 else count, router.setGroup id group)

/-- Admit the free addresses of a group again, its peers first.  Each one counts for
those that come after it, so that an address is given once. -/
def restoreGroup (progress : Nat × Router) (id : GroupId) : Nat × Router :=
  match progress.2.groups.get? id with
  | none => progress
  | some group =>
      let progress := (heldPeers.addresses group).foldl (restore heldPeers id) progress
      (heldServices.addresses group).foldl (restore heldServices id) progress

/-- Admit all free addresses again, and count them. -/
def resolve (router : Router) : Nat × Router :=
  router.groups.keys.foldl restoreGroup (0, router)

/-! ## Passes -/

variable {σ : Type} [RoutingTable σ]

/-- Commit every group once. -/
def commitOnce (router : Router) (table : σ) : Walked × σ := router.walk Group.commit table

/-- Commit until nothing is admitted again, in at most `fuel` passes. -/
def commitPasses : (fuel : Nat) → Report → Router → σ → Report × Router × σ
  | 0, report, router, table => (report, router, table)
  | fuel + 1, report, router, table =>
      let (walked, table) := router.commitOnce table
      let report : Report :=
        { statuses := report.statuses ++ walked.statuses
          changes := report.changes ++ walked.changes
          passes := report.passes + 1 }
      let (resolved, router) := walked.router.resolve
      if resolved = 0 then (report, router, table) else commitPasses fuel report router table

/-- Commit what is pending in all groups. -/
def apply (router : Router) (table : σ) : Report × Router × σ :=
  commitPasses mostPasses {} router table

end Router

end OverlayRouting
