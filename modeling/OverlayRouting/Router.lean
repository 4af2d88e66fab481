/-
# OverlayRouting.Router -- all connection groups

The router is the one entrance for changes.  The controller admits links with the
destinations behind them, and lets them go; `apply` commits what is pending, and
`ping` feeds a probe round to every group.

An address that another group claims is admitted as disabled, and admitted again by
`apply` once the other claim is gone.
-/
import OverlayRouting.Group
import OverlayRouting.Settings
import OverlayRouting.Decimal.Shortest

namespace OverlayRouting

set_option autoImplicit false

structure Router where
  settings : RouterSettings := {}
  groups : SortedMap GroupId Group := ∅
  deriving DecidableEq

/-- The answer to one destination of a request: why it was not accepted, if it was
not. -/
structure Admission where
  destination : Prefix
  refusal : Option Error := none
  deriving DecidableEq

def Admission.result (admission : Admission) : RouteResult :=
  ⟨admission.destination, admission.refusal.map Error.message⟩

namespace Router

/-! ## Questions -/

/-- Does a group other than `id` claim the address? -/
def hasConflict (router : Router) (net : Prefix) (id : GroupId) : Bool :=
  router.groups.entries.any fun entry => entry.1 ≠ id && entry.2.claims net

/-- Does any group claim the address? -/
def hasRoute (router : Router) (net : Prefix) : Bool :=
  router.groups.entries.any fun entry => entry.2.claims net

/-- The connection that carries a destination of a group. -/
def carrying (router : Router) (id : GroupId) (net : Prefix) : Option ConnectionId :=
  (router.groups.get? id).bind (·.carrying net)

/-- The group with this number; a new one is empty and has the router's settings. -/
def group (router : Router) (id : GroupId) : Group :=
  (router.groups.get? id).getD
    (.empty id router.settings.windowSize.toNat router.settings.margins)

def setGroup (router : Router) (id : GroupId) (group : Group) : Router :=
  { router with groups := router.groups.insert id group }

/-! ## Admission -/

/-- What a destination of a request stands for: the first one is the peer's own
address, the others lie behind the peer. -/
inductive Place where
  | peer
  | service
  deriving DecidableEq

/-- The destinations of a request with their places. -/
def placed : List Prefix → List (Place × Prefix)
  | [] => []
  | first :: rest => (.peer, first) :: rest.map (.service, ·)

/-- Default routes are for VPN clients only. -/
def rejects (router : Router) (net : Prefix) : Bool := net.isDefault && !router.settings.vpnClient

/-- Does the agent break down when it admits these destinations of a link? -/
def breaksDown (router : Router) (link : Link) (nets : List Prefix) : Bool :=
  nets.head?.any fun net => !router.rejects net && (router.group link.group).peers.breaksDown link

/-- Admit one destination of a link. -/
def accept (router : Router) (link : Link) (place : Place) (net : Prefix) : Admission × Router :=
  if router.rejects net then
    (⟨net, some (.defaultRoute net)⟩, router)
  else
    let conflict := router.hasConflict net link.group
    let group := router.group link.group
    let group := match place with
      | .peer => { group with peers := (group.peers.add link conflict).2 }
      | .service => { group with services := (group.services.add link net conflict).2 }
    (⟨net, if conflict then some (.claimedElsewhere net) else none⟩, router.setGroup link.group group)

def acceptAll (link : Link) : List (Place × Prefix) → Router → List Admission × Router
  | [], router => ([], router)
  | (place, net) :: rest, router =>
      let (admission, router) := router.accept link place net
      let (others, router) := acceptAll link rest router
      (admission :: others, router)

/-- Admit the destinations that are reached through a link.  Nothing is committed. -/
def add (router : Router) (link : Link) (nets : List Prefix) : List Admission × Router :=
  acceptAll link (placed nets) router

/-- Let one destination of a link go. -/
def dismiss (group : Group) (link : Link) (place : Place) (net : Prefix) : Admission × Group :=
  match place with
  | .peer => (⟨net, none⟩, { group with peers := (group.peers.remove link.gateway).2 })
  | .service =>
      match group.services.remove link net with
      | (.ok _, services) => (⟨net, none⟩, { group with services })
      | (.error cause, services) => (⟨net, some cause⟩, { group with services })

def dismissAll (link : Link) : List (Place × Prefix) → Group → List Admission × Group
  | [], group => ([], group)
  | (place, net) :: rest, group =>
      let (admission, group) := dismiss group link place net
      let (others, group) := dismissAll link rest group
      (admission :: others, group)

/-- Let the destinations that are reached through a link go.  For a group that is
not known there is nothing to do. -/
def remove (router : Router) (link : Link) (nets : List Prefix) : List Admission × Router :=
  match router.groups.get? link.group with
  | none => (nets.map (⟨·, none⟩), router)
  | some group =>
      let (admissions, group) := dismissAll link (placed nets) group
      (admissions, router.setGroup link.group group)

/-- Change the margins of the groups there are and of those to come. -/
def setMargins (router : Router) (margins : Margins) : Router :=
  { settings := router.settings.withMargins margins
    groups := router.groups.map fun _ group => { group with peers := { group.peers with margins } } }

/-! ## Walks over the groups -/

variable {σ : Type} [RoutingTable σ]

/-- The groups after a walk, and what it reported. -/
structure Walked where
  router : Router
  statuses : List RouteStatus
  changes : List ActiveChange

/-- Visit every group, in order. -/
def walk (router : Router) (visit : Group → σ → Group.Settled × σ) (table : σ) : Walked × σ :=
  let (settled, table) := router.groups.traverse (fun _ group table => visit group table) table
  let groups := settled.filterMap fun _ settled => settled.kept
  (⟨{ router with groups }, settled.values.flatMap Group.Settled.statuses,
    settled.values.flatMap Group.Settled.changes⟩, table)

/-- Feed a probe round to every group and follow the selected gateways. -/
def ping (router : Router) (tallies : Tallies) (table : σ) : List ActiveChange × Router × σ :=
  let (walked, table) := router.walk (fun group => group.ping tallies) table
  (walked.changes, walked.router, table)

/-- Forget all groups and leave the routing table as it is. -/
def flush (router : Router) : Router := { router with groups := ∅ }

/-- Forget all groups; withdraw their routes before, if that is what the settings
say. -/
def close (router : Router) (table : σ) : Router × σ :=
  if router.settings.cleanupOnExit then
    (router.flush, router.groups.entries.foldl (fun table entry => entry.2.close table) table)
  else (router.flush, table)

/-! ## Description -/

/-- A single with the fewest digits that read back: with a point from a ten-thousandth
up to ten to the sixteenth, with a power of ten outside. -/
def singleText (x : Float32) : String :=
  match Decimal.Binary.ofSingle x with
  | .notANumber => "NaN"
  | .infinite negative => if negative then "-inf" else "inf"
  | .finite negative mantissa exponent =>
      let sign := if negative then "-" else ""
      if mantissa = 0 then sign ++ "0.0"
      else
        let point := (Decimal.owned Float.Model.Format.binary32 mantissa exponent).shortest
        let magnitude := point.exponent + Decimal.digitCount point.digits
        sign ++ if -4 < magnitude ∧ magnitude ≤ 16 then point.positional 1 else point.scientific

/-- One line about the router: how many groups it has and its settings. -/
def description (router : Router) : String :=
  let settings := router.settings
  let parts := [("window_size", toString settings.windowSize.toNat),
    ("reroute_diff", singleText settings.rerouteDiff),
    ("reroute_ratio", singleText settings.rerouteRatio),
    ("cleanup_on_exit", if settings.cleanupOnExit then "true" else "false"),
    ("vpn_client", if settings.vpnClient then "true" else "false")]
  let fields := ", ".intercalate (parts.map fun part => part.1 ++ ": " ++ part.2)
  "Router \x7b groups: " ++ toString router.groups.size ++
    ", config: RouterConfig \x7b " ++ fields ++ " \x7d, .. \x7d"

end Router

end OverlayRouting
