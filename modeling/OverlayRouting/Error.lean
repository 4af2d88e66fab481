/-
# OverlayRouting.Error -- what can go wrong

One constructor for each cause.  `message` is the only place that words them.
Two questions decide how a failure is handled: whether trying again may clear it
(`isTransient`) and whether it was raised while configuration from the controller
was admitted (`isAdmission`).
-/
import OverlayRouting.Link

namespace OverlayRouting

set_option autoImplicit false

inductive Error where
  /-- Somebody else routes the destination, through `ifname`. -/
  | foreignRoute (destination : Prefix) (ifname : String)
  /-- The routing table refused a change and said why. -/
  | tableRefused (report : String)
  | unsupported
  /-- Another group holds the address. -/
  | claimedElsewhere (destination : Prefix)
  | defaultRoute (destination : Prefix)
  | unknownDestination (destination : Prefix)
  | unknownGroup (group : GroupId)
  | probeFailed (ifname reason : String)
  | probeTimeout (ifname : String)
  | configuration (report : String)
  /-- A setting has a value that it must not have. -/
  | setting (report : String)
  | io (report : String)
  | internal (report : String)
  | other (report : String)
  deriving DecidableEq

namespace Error

def message : Error → String
  | .foreignRoute destination ifname => s!"route to {destination} exists on {ifname}"
  | .tableRefused report => s!"route command failed: {report}"
  | .unsupported => "route adapter not supported on this platform"
  | .claimedElsewhere destination =>
      s!"address {destination} is already claimed by another connection group"
  | .defaultRoute destination =>
      s!"default route {destination} rejected: agent is not configured as a VPN client"
  | .unknownDestination destination => s!"no such address {destination}"
  | .unknownGroup group => s!"connection group {group} does not exist"
  | .probeFailed ifname reason => s!"probe failed on {ifname}: {reason}"
  | .probeTimeout ifname => s!"probe on {ifname} timed out"
  | .configuration report => s!"configuration error: {report}"
  | .setting report => s!"invalid configuration: {report}"
  | .io report => s!"IO error: {report}"
  | .internal report => s!"internal error: {report}"
  | .other report => report

/-- May the next commit or probe round clear it? -/
def isTransient : Error → Bool
  | .tableRefused _ | .foreignRoute .. | .probeFailed .. | .probeTimeout _ | .io _ => true
  | _ => false

/-- Was it raised while configuration from the controller was admitted? -/
def isAdmission : Error → Bool
  | .claimedElsewhere _ | .defaultRoute _ | .unknownDestination _ | .unknownGroup _ => true
  | _ => false

end Error

/-- Where a route operation failed. -/
structure RouteContext where
  operation : String
  destination : Prefix
  group : Option GroupId := none
  ifname : Option String := none

/-- The known parts only, in a fixed order. -/
def RouteContext.text (context : RouteContext) : String :=
  let parts := [("operation", some context.operation), ("destination", some context.destination.text),
    ("group", context.group.map toString), ("ifname", context.ifname)]
  ", ".intercalate (parts.filterMap fun part => part.2.map fun value => part.1 ++ "=" ++ value)

end OverlayRouting
