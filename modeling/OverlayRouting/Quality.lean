/-
# OverlayRouting.Quality -- the reported health of a path

A path that loses everything is offline, one that loses at least one probe in a
hundred or answers slower than half a second gets a warning, and all others are
connected.  Loss is looked at before latency.
-/
import OverlayRouting.Decimal.Fixed
import OverlayRouting.Address
import OverlayRouting.Tally

namespace OverlayRouting

set_option autoImplicit false

open Decimal (fixedSingle)

inductive Health where
  | connected
  | warning (reason : String)
  | offline (reason : String)
  deriving DecidableEq

namespace Health

/-- Above this latency, in milliseconds, a path gets a warning. -/
def slowAbove : Float32 := 500

/-- From this share of lost probes on a path gets a warning. -/
def lossyFrom : Float32 := 0.01

def classify (latency loss : Float32) : Health :=
  if 1 ≤ loss then .offline "Packet loss 100%"
  else if lossyFrom ≤ loss then .warning "Packet loss higher than 1%"
  else if slowAbove < latency then .warning "Latency higher than 500ms"
  else .connected

def isConnected : Health → Bool
  | .connected => true
  | _ => false

def text : Health → String
  | .connected => "connected"
  | .warning reason => s!"warning ({reason})"
  | .offline reason => s!"offline ({reason})"

instance : ToString Health := ⟨text⟩

end Health

/-- The quality of the path to one probed address. -/
structure Quality where
  address : Address
  latency : Float32
  loss : Float32
  health : Health
  deriving DecidableEq

namespace Quality

def ofTally (address : Address) (tally : Tally) : Quality :=
  { address, latency := tally.latency, loss := tally.loss,
    health := .classify tally.latency tally.loss }

/-- One line: the loss is in percent. -/
def summary (quality : Quality) : String :=
  let latency := fixedSingle 1 quality.latency
  let percent := fixedSingle 1 (quality.loss * 100)
  s!"{quality.address} latency={latency}ms loss={percent}% {quality.health}"

end Quality

end OverlayRouting
