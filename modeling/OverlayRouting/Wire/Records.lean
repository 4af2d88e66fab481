/-
# OverlayRouting.Wire.Records -- the messages of the agent as data

Each record names its fields once for writing and once for reading.  A health is a
record with its own two fields, and within a quality these stand beside the others.
-/
import OverlayRouting.Wire.Data
import OverlayRouting.Event
import OverlayRouting.Peer.Margins
import OverlayRouting.Probe.Device
import OverlayRouting.Settings

namespace OverlayRouting

set_option autoImplicit false

open Data (required? optional? orDefault?)

/-! ## Numbers and addresses -/

instance : Wire GroupId where
  encode id := encode id.number
  decode? data := (decode? data).map GroupId.mk

instance : Wire ConnectionId where
  encode id := encode id.number
  decode? data := (decode? data).map ConnectionId.mk

instance : Wire Address where
  encode address := .text address.text
  decode? data := decode? data >>= Address.ofText?

instance : Wire Prefix where
  encode net := .text net.text
  decode? data := decode? data >>= Prefix.ofText?

/-! ## Links and results -/

instance : Wire Link where
  encode link := .record [("ifname", encode link.ifname), ("public_key", encode link.publicKey),
    ("gateway", encode link.gateway), ("connection_id", encode link.connection),
    ("group_id", encode link.group)]
  decode? data := do
    match ← data.fields? ["ifname", "public_key", "gateway", "connection_id", "group_id"] with
    | [ifname, publicKey, gateway, connection, group] =>
        some ⟨← required? ifname, ← required? publicKey, ← required? gateway,
          ← required? connection, ← required? group⟩
    | _ => none

instance : Wire RouteResult where
  encode result := .record [("destination", encode result.destination), ("error", encode result.error)]
  decode? data := do
    match ← data.fields? ["destination", "error"] with
    | [destination, error] => some ⟨← required? destination, ← optional? error⟩
    | _ => none

instance : Wire RouteStatus where
  encode status := .record [("connection_id", encode status.connection),
    ("group_id", encode status.group), ("destination", encode status.destination),
    ("error", encode status.error)]
  decode? data := do
    match ← data.fields? ["connection_id", "group_id", "destination", "error"] with
    | [connection, group, destination, error] =>
        some ⟨← required? connection, ← required? group, ← required? destination, ← optional? error⟩
    | _ => none

/-! ## Changes with their time -/

/-- A point in time, counted from the start of 1970. -/
structure Timestamp where
  seconds : Nat
  nanos : Nat
  deriving DecidableEq

/-- Whole seconds among the nanoseconds count as seconds; the clock ends with the
largest signed word. -/
def Timestamp.ofParts? (seconds nanos : Nat) : Option Timestamp :=
  let total := seconds + nanos / 1000000000
  if total < 0x8000000000000000 then some ⟨total, nanos % 1000000000⟩ else none

instance : Wire Timestamp where
  encode time := .record [("secs_since_epoch", .whole time.seconds),
    ("nanos_since_epoch", .whole time.nanos)]
  decode? data := do
    let names := ["secs_since_epoch", "nanos_since_epoch"]
    match data with
    | .record fields => if fields.all (·.1 ∈ names) then pure () else none
    | _ => pure ()
    match ← data.fields? names with
    | [seconds, nanos] =>
        Timestamp.ofParts? (← seconds >>= Data.natural? UInt64.size) (← nanos >>= Data.natural? UInt32.size)
    | _ => none

/-- An active change and when it happened. -/
structure StampedChange where
  change : ActiveChange
  time : Timestamp
  deriving DecidableEq

instance : Wire StampedChange where
  encode stamped := .record [("previous", encode stamped.change.previous),
    ("current", encode stamped.change.current), ("group_id", encode stamped.change.group),
    ("timestamp", encode stamped.time)]
  decode? data := do
    match ← data.fields? ["previous", "current", "group_id", "timestamp"] with
    | [previous, current, group, time] =>
        some ⟨⟨← optional? previous, ← optional? current, ← required? group⟩, ← required? time⟩
    | _ => none

/-! ## Measurements -/

namespace Health

/-- The fields that tell a health: its name, and the reason unless connected. -/
def fields : Health → List (String × Data)
  | .connected => [("status", .text "CONNECTED")]
  | .warning reason => [("status", .text "WARNING"), ("reason", .text reason)]
  | .offline reason => [("status", .text "OFFLINE"), ("reason", .text reason)]

/-- A name stands by itself, or as the only field of a record with nothing in it. -/
def name? (isNothing : Data → Bool) : Data → Option String
  | .text name => some name
  | .record [(name, content)] => if isNothing content then some name else none
  | _ => none

def ofFields? (name : Option String) (reason : Option Data) : Option Health := do
  match ← name, reason with
  | "CONNECTED", none | "CONNECTED", some .null => some .connected
  | "WARNING", some (.text reason) => some (.warning reason)
  | "OFFLINE", some (.text reason) => some (.offline reason)
  | _, _ => none

end Health

instance : Wire Health where
  encode health := .record health.fields
  decode? data := do
    match ← data.fields? ["status", "reason"] with
    | [name, reason] => Health.ofFields? (name >>= Health.name? Data.isNull) reason
    | _ => none

/-- A quality is never given as a list, since its fields and those of its health
have no common order.  In the name of its health an empty record is nothing too. -/
instance : Wire Quality where
  encode quality := .record ([("address", encode quality.address),
    ("latency_ms", encode quality.latency), ("loss", encode quality.loss)] ++ quality.health.fields)
  decode?
    | .record fields => do
        let required {α : Type} [Wire α] (name : String) : Option α := required? (Data.field? name fields)
        let name := Data.field? "status" fields >>= Health.name? fun data => data.isNull || data.isEmptyRecord
        some ⟨← required "address", ← required "latency_ms", ← required "loss",
          ← Health.ofFields? name (Data.field? "reason" fields)⟩
    | _ => none

instance : Wire Tally where
  encode tally := .record [("tx", encode tally.sent), ("rx", encode tally.received),
    ("rtt", encode tally.rtt), ("avg_rtt", encode tally.average)]
  decode? data := do
    match ← data.fields? ["tx", "rx", "rtt", "avg_rtt"] with
    | [sent, received, rtt, average] =>
        some ⟨← required? sent, ← required? received, ← required? rtt, ← required? average⟩
    | _ => none

instance : Wire Margins where
  encode margins := .record [("diff", encode margins.diff), ("ratio", encode margins.ratio)]
  decode? data := do
    match ← data.fields? ["diff", "ratio"] with
    | [diff, ratio] => some ⟨← required? diff, ← required? ratio⟩
    | _ => none

/-! ## Devices -/

instance : Wire TunnelPeer where
  encode peer := .record [("public_key", encode peer.publicKey), ("allowed_ips", encode peer.allowed)]
  decode? data := do
    match ← data.fields? ["public_key", "allowed_ips"] with
    | [publicKey, allowed] => some ⟨← required? publicKey, ← required? allowed⟩
    | _ => none

instance : Wire Device where
  encode device := .record [("ifname", encode device.ifname), ("public_key", encode device.publicKey),
    ("peers", encode device.peers)]
  decode? data := do
    match ← data.fields? ["ifname", "public_key", "peers"] with
    | [ifname, publicKey, peers] => some ⟨← required? ifname, ← required? publicKey, ← required? peers⟩
    | _ => none

/-! ## Settings -/

/-- What is missing keeps its default. -/
instance : Wire RouterSettings where
  encode settings := .record [("window_size", encode settings.windowSize),
    ("reroute_diff", encode settings.rerouteDiff), ("reroute_ratio", encode settings.rerouteRatio),
    ("cleanup_on_exit", encode settings.cleanupOnExit), ("vpn_client", encode settings.vpnClient)]
  decode? data := do
    let plain : RouterSettings := {}
    match ← data.leadingFields? RouterSettings.names with
    | [windowSize, rerouteDiff, rerouteRatio, cleanupOnExit, vpnClient] =>
        some {
          windowSize := ← orDefault? plain.windowSize windowSize
          rerouteDiff := ← orDefault? plain.rerouteDiff rerouteDiff
          rerouteRatio := ← orDefault? plain.rerouteRatio rerouteRatio
          cleanupOnExit := ← orDefault? plain.cleanupOnExit cleanupOnExit
          vpnClient := ← orDefault? plain.vpnClient vpnClient }
    | _ => none

end OverlayRouting
