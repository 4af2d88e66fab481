/-
# OverlayRouting.Settings -- how the agent is configured

There are three sections: the router's, the prober's and the log's.  Every setting
has a default.  `check` names the first setting with a value that it must not have.
-/
import OverlayRouting.Error
import OverlayRouting.Peer.Margins
import OverlayRouting.Span

namespace OverlayRouting

set_option autoImplicit false

structure RouterSettings where
  /-- How many probe rounds are kept for a peer. -/
  windowSize : UInt64 := 24
  /-- How many milliseconds a better path must win by. -/
  rerouteDiff : Float32 := 0
  /-- How many times faster a better path must be. -/
  rerouteRatio : Float32 := 0
  /-- Withdraw installed routes at the end. -/
  cleanupOnExit : Bool := false
  /-- All traffic goes through the overlay, so default routes are welcome. -/
  vpnClient : Bool := false
  deriving DecidableEq

structure ProbeSettings where
  /-- Between two probe rounds. -/
  interval : Span := .seconds 5
  /-- For the probes of one interface. -/
  timeout : Span := .seconds 3
  /-- Between two commits. -/
  applyInterval : Span := .seconds 10
  /-- Probes to every target in a round. -/
  count : UInt32 := 3
  deriving DecidableEq

structure LogSettings where
  level : String := "info"
  format : String := "text"
  color : Bool := true
  deriving DecidableEq

structure Settings where
  router : RouterSettings := {}
  probe : ProbeSettings := {}
  log : LogSettings := {}
  deriving DecidableEq

/-! ## Names, in order -/

def RouterSettings.names : List String :=
  ["window_size", "reroute_diff", "reroute_ratio", "cleanup_on_exit", "vpn_client"]

def ProbeSettings.names : List String := ["interval", "timeout", "apply_interval", "count"]

def LogSettings.names : List String := ["level", "format", "color"]

/-! ## The router's settings -/

namespace RouterSettings

def margins (settings : RouterSettings) : Margins := ⟨settings.rerouteDiff, settings.rerouteRatio⟩

def withMargins (settings : RouterSettings) (margins : Margins) : RouterSettings :=
  { settings with rerouteDiff := margins.diff, rerouteRatio := margins.ratio }

/-- Numerically equal settings. -/
def same (a b : RouterSettings) : Bool :=
  a.windowSize = b.windowSize && a.margins.same b.margins &&
    a.cleanupOnExit = b.cleanupOnExit && a.vpnClient = b.vpnClient

end RouterSettings

namespace Settings

/-- Settings that show how the agent is tuned. -/
def sample : Settings :=
  { router := { rerouteDiff := 10, rerouteRatio := 1.1, cleanupOnExit := true }
    probe := { interval := .seconds 10 } }

/-- A setting with a value that it must not have. -/
inductive Fault where
  | windowSize
  | margins
  | intervals
  | timeout
  | count
  | logFormat (format : String)
  deriving DecidableEq

def Fault.message : Fault → String
  | .windowSize => "router.window_size must be positive"
  | .margins => "router reroute thresholds must not be negative"
  | .intervals => "probe intervals must be positive"
  | .timeout => "probe.timeout must be positive"
  | .count => "probe.count must be positive"
  | .logFormat format => s!"Unknown log format: {format}"

def Fault.error (fault : Fault) : Error := .setting fault.message

/-- Margins are at least zero, which nothing is that is no number. -/
def marginsHold (settings : RouterSettings) : Bool :=
  0 ≤ settings.rerouteDiff && 0 ≤ settings.rerouteRatio

def logFormats : List String := ["text", "json"]

/-- The faults of settings, in the order in which they are looked for. -/
def faults (settings : Settings) : List Fault :=
  let found (bad : Bool) (fault : Fault) : List Fault := if bad then [fault] else []
  let probe := settings.probe
  found (settings.router.windowSize = 0) .windowSize ++
  found (!marginsHold settings.router) .margins ++
  found (probe.interval.nanos = 0 || probe.applyInterval.nanos = 0) .intervals ++
  found (probe.timeout.nanos = 0) .timeout ++
  found (probe.count = 0) .count ++
  found (!(settings.log.format ∈ logFormats)) (.logFormat settings.log.format)

def check (settings : Settings) : Except Error Unit :=
  match settings.faults with
  | [] => .ok ()
  | fault :: _ => .error fault.error

end Settings

end OverlayRouting
