import OverlayRouting.Probe.Script
import OverlayRouting.Probe.Station
import OverlayRouting.RoutingTable.IpTool
import OverlayRouting.RoutingTable.Memory
import OverlayRouting.RoutingTable.Unreliable
import OverlayRouting.Settings.Environment
import OverlayRouting.Settings.File
import OverlayRouting.Settings.Location
import OverlayRouting.Wire.Records
import OverlayRouting.Proofs.Roster
import OverlayRouting.Proofs.Claims
import OverlayRouting.Proofs.Run
import OverlayRouting.Proofs.Apply
import OverlayRouting.Proofs.Exclusion
import OverlayRouting.Proofs.Sound
import OverlayRouting.Proofs.Holdings
import OverlayRouting.Proofs.Trail
import OverlayRouting.Proofs.Installed
import OverlayRouting.Proofs.Keeps
import OverlayRouting.Proofs.Convergence
import OverlayRouting.Proofs.Turn
import OverlayRouting.Proofs.Pass
import OverlayRouting.Proofs.HandOver
import OverlayRouting.Proofs.Mirror
import OverlayRouting.Proofs.Admission
import OverlayRouting.Proofs.Recorded
import OverlayRouting.Proofs.Closing
import OverlayRouting.Proofs.Requests
import OverlayRouting.Proofs.Guarded
import OverlayRouting.Proofs.Foreign
import OverlayRouting.Proofs.Told
import OverlayRouting.Proofs.Balances
import OverlayRouting.Proofs.Accounting
import OverlayRouting.Proofs.PeerRun
import OverlayRouting.Proofs.Hysteresis
import OverlayRouting.Proofs.Scope
import OverlayRouting.Proofs.Resending
import OverlayRouting.Proofs.FirstCommit
import OverlayRouting.Proofs.Adoption
import OverlayRouting.Proofs.PeerMirror
import OverlayRouting.Proofs.Succession
import OverlayRouting.Proofs.Rounding
import OverlayRouting.Proofs.Magnitude
import OverlayRouting.Proofs.LossRate
import OverlayRouting.Proofs.DeadPath
import OverlayRouting.Proofs.Forgetting
import OverlayRouting.Proofs.AddressText
import OverlayRouting.Proofs.Iproute
import OverlayRouting.Proofs.Interchange
import OverlayRouting.Proofs.Errand
import OverlayRouting.Proofs.Agree
import OverlayRouting.Proofs.Independence
import OverlayRouting.Proofs.Refusal
import OverlayRouting.Proofs.Detour
import OverlayRouting.Proofs.Takeover
import OverlayRouting.Proofs.Passes
import OverlayRouting.Proofs.Peerless
import OverlayRouting.Proofs.Failures
import OverlayRouting.Proofs.Idempotence
import OverlayRouting.Proofs.Origin
import OverlayRouting.Proofs.Silence
import OverlayRouting.Proofs.FloatOrder
import OverlayRouting.Proofs.Ranking
import OverlayRouting.Proofs.Switching
import OverlayRouting.Proofs.RoundOrder
import OverlayRouting.Proofs.Gathering
import OverlayRouting.Proofs.Nearest
import OverlayRouting.Proofs.Overrides
import OverlayRouting.Proofs.Accuracy
import OverlayRouting.Proofs.MergedAverage
import OverlayRouting.Proofs.QuotedText
import OverlayRouting.Proofs.ShortestDigits
import OverlayRouting.Proofs.SpanText
import OverlayRouting.Proofs.FloatReading
import OverlayRouting.Proofs.ScalarText
import OverlayRouting.Proofs.DocumentText
import OverlayRouting.Proofs.SettingsFile
