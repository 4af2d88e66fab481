/-
# OverlayRouting.Probe.Station -- the agent in time

A station probes the devices of its inventory at intervals, feeds each round to the
router, and lets the router commit at intervals.  It may do so in several loops, of
which the one that was started last can be waited for.

Time is a number that only these functions move.  `runBefore` does everything that
comes before a time, so that what falls due at the end of a span is left to the next
one.
-/
import OverlayRouting.Probe.Round
import OverlayRouting.Probe.Loop
import OverlayRouting.Router.Apply

namespace OverlayRouting

set_option autoImplicit false

/-- An agent whose routing table has the state `σ`. -/
structure Station (σ : Type) where
  router : Router
  table : σ
  settings : ProbeSettings
  /-- The devices to probe, or why they are not known. -/
  inventory : Except Error (List Device) := .ok []
  pinger : Pinger
  clock : Nat := 0
  /-- The loops that are running, in the order in which they were started. -/
  loops : List Loop := []
  /-- Did the loop that was started last begin to run?  Nothing is known without one. -/
  latest : Option Bool := none

namespace Station

variable {σ : Type} [RoutingTable σ]

/-! ## Tasks -/

/-- A round over the devices there are. -/
def round (station : Station σ) : Except Error Round :=
  station.inventory.map fun devices =>
    Round.run station.pinger devices station.settings.count station.settings.timeout

/-- Feed a finished round to the router. -/
def deliver (station : Station σ) (tallies : Tallies) : List Event × Station σ :=
  let (changes, router, table) := station.router.ping tallies station.table
  (Event.sent [.changes changes, .qualities tallies.report], { station with router, table })

/-- Commit what is pending. -/
def apply (station : Station σ) : Router.Report × Station σ :=
  let (report, router, table) := station.router.apply station.table
  (report, { station with router, table })

/-- The round that begins now; there is none without devices. -/
def begin (station : Station σ) : Option Underway :=
  match station.inventory with
  | .ok (_ :: _) =>
      match station.round with
      | .ok round => some ⟨station.clock + round.duration.nanos, round.tallies⟩
      | .error _ => none
  | _ => none

/-- The round that a task begins. -/
def begun (station : Station σ) : Loop.Task → Option Underway
  | .probe => station.begin
  | _ => none

omit [RoutingTable σ] in
theorem begun_eq_none_or (station : Station σ) (task : Loop.Task) :
    station.begun task = none ∨ ∀ tallies, task ≠ .finish tallies := by
  cases task with
  | probe => exact .inr fun _ h => nomatch h
  | apply => exact .inl rfl
  | finish tallies => exact .inl rfl

/-- Do a task. -/
def perform (station : Station σ) : Loop.Task → List Event × Station σ
  | .probe => ([], station)
  | .apply =>
      let (report, station) := station.apply
      (report.events, station)
  | .finish tallies => station.deliver tallies

/-! ## Time -/

/-- Do what comes before `limit`. -/
def runBefore (limit : Nat) (station : Station σ) : List Event × Station σ :=
  match found : Loop.turn? station.clock limit station.loops with
  | none => ([], station)
  | some turn =>
      let now := { station with clock := turn.next.time }
      let loops := turn.loops (now.begun turn.next.task)
      have : Loop.work limit loops < Loop.work limit station.loops :=
        Loop.work_turn found _ (now.begun_eq_none_or turn.next.task)
      let (events, after) := now.perform turn.next.task
      let (later, after) := runBefore limit { after with loops }
      (events ++ later, after)
termination_by Loop.work limit station.loops

/-- Let a time span pass.  What falls due right at its end is not done yet. -/
def advance (station : Station σ) (span : Span) : List Event × Station σ :=
  let target := station.clock + span.nanos
  let (events, station) := station.runBefore target
  (events, { station with clock := target })

/-! ## Control -/

/-- Begin to probe and commit at intervals.  With an interval of no length the loop
breaks off before it does anything.  Loops that are running go on. -/
def start (station : Station σ) : Station σ :=
  let loop := Loop.start? station.clock station.settings
  { station with loops := station.loops ++ loop.toList, latest := some loop.isSome }

/-- Run one round by itself, wait for it, and feed it to the router.  What the loops
do meanwhile, up to its very end, comes first. -/
def runOnce (station : Station σ) : Except Error Tallies × List Event × Station σ :=
  match station.inventory, station.round with
  | .error cause, _ => (.error cause, [], station)
  | .ok [], _ => (.ok ∅, [], station)
  | .ok _, .error cause => (.error cause, [], station)
  | .ok _, .ok round =>
      let target := station.clock + round.duration.nanos
      let (before, station) := station.runBefore (target + 1)
      let (events, station) := { station with clock := target }.deliver round.tallies
      (.ok round.tallies, before ++ events, station)

/-- End all loops, each one after the round it has under way, and wait for the one
that was started last.  The answer is whether that one did run. -/
def shutdown (station : Station σ) : Option Bool × List Event × Station σ :=
  let awaited := if station.latest = some true then station.loops.getLast? else none
  let ended := { station with loops := station.loops.filterMap Loop.stop, latest := none }
  match awaited.bind Loop.underway with
  | none => (station.latest, [], ended)
  | some round =>
      let (events, ended) := ended.runBefore (round.ends + 1)
      (station.latest, events, { ended with clock := max station.clock round.ends })

end Station

end OverlayRouting
