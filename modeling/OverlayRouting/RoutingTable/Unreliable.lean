/-
# OverlayRouting.RoutingTable.Unreliable -- a table that fails a few times

Around another table, this one fails the next changes of chosen destinations and
hands nothing on to the inner table while it does.
-/
import OverlayRouting.RoutingTable
import OverlayRouting.SortedMap

namespace OverlayRouting

set_option autoImplicit false

structure Unreliable (σ : Type) where
  inner : σ
  /-- How many changes of a destination are still to fail. -/
  failures : SortedMap Prefix Nat := ∅

namespace Unreliable

variable {σ : Type}

/-- Fail the next `times` changes of a destination, instead of as many as were
asked for before. -/
def failNext (table : Unreliable σ) (destination : Prefix) (times : Nat) : Unreliable σ :=
  { table with failures := table.failures.insert destination times }

/-- Let a change of `destination` through, or fail it. -/
def attempt (change : Change) (destination : Prefix) (make : σ → Outcome × σ)
    (table : Unreliable σ) : Outcome × Unreliable σ :=
  match table.failures.get? destination with
  | some (left + 1) =>
      (.error (.tableRefused s!"{change.verb} {destination}: flaky"),
        { table with failures := table.failures.insert destination left })
  | _ =>
      let (outcome, inner) := make table.inner
      (outcome, { table with inner })

/-- Put a question to the inner table. -/
def ask {α : Type} (question : σ → α × σ) (table : Unreliable σ) : α × Unreliable σ :=
  let (answer, inner) := question table.inner
  (answer, { table with inner })

instance [RoutingTable σ] : RoutingTable (Unreliable σ) where
  add ifname gateway destination :=
    attempt .add destination (RoutingTable.add ifname gateway destination)
  remove ifname destination := attempt .remove destination (RoutingTable.remove ifname destination)
  replace ifname gateway destination :=
    attempt .replace destination (RoutingTable.replace ifname gateway destination)
  holds destination := ask (RoutingTable.holds destination)
  carrier destination := ask (RoutingTable.carrier destination)

end Unreliable

end OverlayRouting
