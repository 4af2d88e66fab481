/-
# OverlayRouting.Probe.Round -- probing all devices at once

Every device with something to probe is probed by itself, all of them at the same
time, and each one has the same time limit.  What comes back is merged in the order
in which the devices finish.  The targets of a device that failed or was too slow
count as probed and lost.
-/
import OverlayRouting.Probe.Device
import OverlayRouting.Settings
import OverlayRouting.Tallies

namespace OverlayRouting

set_option autoImplicit false

/-- What probing through one interface leads to. -/
structure Answer where
  /-- How long it takes. -/
  delay : Span
  /-- What it says in the end; none if it breaks off and says nothing at all. -/
  outcome : Option (Except Error Tallies)

/-- Something that probes targets through an interface, each one `count` times. -/
abbrev Pinger := (ifname : String) → (targets : List Address) → (count : UInt32) → Answer

namespace Round

/-- What one device adds to a round. -/
inductive Contribution where
  | answered (tallies : Tallies)
  /-- Every target counts as probed `count` times without a reply. -/
  | lost (targets : List Address) (count : UInt32)

def Contribution.addTo (tallies : Tallies) : Contribution → Tallies
  | .answered results => tallies.merge results
  | .lost targets count =>
      targets.foldl (fun tallies target => tallies.send target count.toUInt64) tallies

/-- The tallies of a round, from the contributions in the order in which they came. -/
def merge (contributions : List Contribution) : Tallies :=
  contributions.foldl Contribution.addTo ∅

/-- One device's part in a round: when it is over and what it adds. -/
structure Part where
  finished : Span
  contribution : Option Contribution

/-- A device that answers right at the limit is in time. -/
def part (pinger : Pinger) (count : UInt32) (timeout : Span) (device : Device) : Part :=
  let answer := pinger device.ifname device.targets count
  if timeout.nanos < answer.delay.nanos then ⟨timeout, some (.lost device.targets count)⟩
  else
    ⟨answer.delay, answer.outcome.map fun
      | .ok tallies => .answered tallies
      | .error _ => .lost device.targets count⟩

end Round

/-- A finished round: how long it took and what it measured. -/
structure Round where
  duration : Span
  tallies : Tallies

namespace Round

/-- The parts in the order in which they finish; of two that finish at once the
device that is listed first comes first. -/
def inOrder (parts : List Part) : List Part :=
  parts.mergeSort fun a b => a.finished.nanos ≤ b.finished.nanos

def run (pinger : Pinger) (devices : List Device) (count : UInt32) (timeout : Span) : Round :=
  let parts := inOrder ((devices.filter fun device => !device.targets.isEmpty).map
    (part pinger count timeout))
  { duration := (parts.map Part.finished).foldl Span.longer .zero
    tallies := merge (parts.filterMap Part.contribution) }

end Round

end OverlayRouting
