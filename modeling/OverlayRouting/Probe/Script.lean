/-
# OverlayRouting.Probe.Script -- probes with prepared results

A script says for each interface how its probes end.  An interface that it does not
mention is down.
-/
import OverlayRouting.Probe.Round

namespace OverlayRouting

set_option autoImplicit false

namespace Script

/-- How the probes of one interface end. -/
inductive Result where
  /-- They break off. -/
  | aborts
  | fails (reason : String)
  /-- They give these tallies, whatever the targets are. -/
  | gives (tallies : Tallies)
  /-- Every target answers after `rtt`, except for the first `lost` probes. -/
  | replies (rtt : Float32) (lost : Nat)

structure Entry where
  delay : Span
  result : Result

/-- Probe a target `count` times. -/
def probed (rtt : Float32) (lost : Nat) (count : UInt32) (tallies : Tallies) (target : Address) :
    Tallies :=
  (tallies.send target count.toUInt64).replies target rtt (count.toNat - lost)

def Result.outcome (ifname : String) (targets : List Address) (count : UInt32) :
    Result → Option (Except Error Tallies)
  | .aborts => none
  | .fails reason => some (.error (.probeFailed ifname reason))
  | .gives tallies => some (.ok tallies)
  | .replies rtt lost => some (.ok (targets.foldl (probed rtt lost count) ∅))

end Script

/-- How the probes of the known interfaces end. -/
abbrev Script := List (String × Script.Entry)

def Script.pinger (script : Script) : Pinger := fun ifname targets count =>
  match script.lookup ifname with
  | none => ⟨.zero, some (.error (.probeFailed ifname "interface down"))⟩
  | some entry => ⟨entry.delay, entry.result.outcome ifname targets count⟩

end OverlayRouting
