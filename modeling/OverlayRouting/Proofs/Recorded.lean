/-
# OverlayRouting.Proofs.Recorded -- a table that writes down its answers

Around any table, this one writes down what it was asked to change and what it answered, and
hands everything on.  So what happens during a call of the router, and not only what the call
leaves, can be said of the record after it.

The record only grows (`Recorded.record_grows`), so what was written down since some moment is
its new part (`Recorded.since`).  Around a lawful table the recorded one is lawful and has the
same routes.
-/
import OverlayRouting.Proofs.Keeps
import OverlayRouting.Proofs.Table

namespace OverlayRouting

set_option autoImplicit false

structure Recorded (σ : Type) where
  inner : σ
  /-- What was asked and what came of it, the latest first. -/
  record : List (Call × Outcome) := []

namespace Recorded

variable {σ : Type}

/-- Hand a change on and write it down. -/
def note (call : Call) (make : σ → Outcome × σ) (table : Recorded σ) : Outcome × Recorded σ :=
  let (outcome, inner) := make table.inner
  (outcome, ⟨inner, (call, outcome) :: table.record⟩)

/-- Hand a question on. -/
def ask {α : Type} (question : σ → α × σ) (table : Recorded σ) : α × Recorded σ :=
  let (answer, inner) := question table.inner
  (answer, { table with inner })

variable [RoutingTable σ]

instance : RoutingTable (Recorded σ) where
  add ifname gateway net := note ⟨.add, ifname, net⟩ (RoutingTable.add ifname gateway net)
  remove ifname net := note ⟨.remove, ifname, net⟩ (RoutingTable.remove ifname net)
  replace ifname gateway net :=
    note ⟨.replace, ifname, net⟩ (RoutingTable.replace ifname gateway net)
  holds net := ask (RoutingTable.holds net)
  carrier net := ask (RoutingTable.carrier net)

/-- What was written down once stays, whatever is asked later. -/
theorem record_grows (entry : Call × Outcome) :
    RoutingTable.Keeps fun table : Recorded σ => entry ∈ table.record where
  add _ _ _ _ listed := List.mem_cons_of_mem _ listed
  remove _ _ _ listed := List.mem_cons_of_mem _ listed
  replace _ _ _ _ listed := List.mem_cons_of_mem _ listed
  carrier _ _ listed := listed

/-! ### What was written down since -/

omit [RoutingTable σ] in
/-- What was written down between two moments. -/
def since (before after : Recorded σ) : List (Call × Outcome) :=
  after.record.take (after.record.length - before.record.length)

omit [RoutingTable σ] in
theorem since_of_append {before after : Recorded σ} {asked : List (Call × Outcome)}
    (noted : after.record = asked ++ before.record) : before.since after = asked := by
  rw [since, noted, List.length_append, Nat.add_sub_cancel, List.take_left]

theorem record_extends (before : Recorded σ) :
    RoutingTable.Keeps fun table : Recorded σ => before.record <:+ table.record where
  add _ _ _ _ behind := behind.trans (List.suffix_cons ..)
  remove _ _ _ behind := behind.trans (List.suffix_cons ..)
  replace _ _ _ _ behind := behind.trans (List.suffix_cons ..)
  carrier _ _ behind := behind

omit [RoutingTable σ] in
/-- The record between two moments has what was written down first, and then what came later. -/
theorem since_trans {first second third : Recorded σ} (one : first.record <:+ second.record)
    (two : second.record <:+ third.record) :
    first.since third = second.since third ++ first.since second := by
  obtain ⟨early, one⟩ := one
  obtain ⟨late, two⟩ := two
  rw [since_of_append one.symm, since_of_append two.symm]
  exact since_of_append (by rw [← two, ← one, List.append_assoc])

omit [RoutingTable σ] in
theorem mem_since_of_extends {first second third : Recorded σ} {entry : Call × Outcome}
    (one : first.record <:+ second.record) (two : second.record <:+ third.record)
    (listed : entry ∈ first.since second) : entry ∈ first.since third := by
  rw [since_trans one two]
  exact List.mem_append_right _ listed

/-- What was written down since some moment stays written down since then. -/
theorem since_grows (before : Recorded σ) (entry : Call × Outcome) :
    RoutingTable.Keeps fun table : Recorded σ =>
      before.record <:+ table.record ∧ entry ∈ before.since table where
  add _ _ _ _ noted := ⟨noted.1.trans (List.suffix_cons ..),
    mem_since_of_extends noted.1 (List.suffix_cons ..) noted.2⟩
  remove _ _ _ noted := ⟨noted.1.trans (List.suffix_cons ..),
    mem_since_of_extends noted.1 (List.suffix_cons ..) noted.2⟩
  replace _ _ _ _ noted := ⟨noted.1.trans (List.suffix_cons ..),
    mem_since_of_extends noted.1 (List.suffix_cons ..) noted.2⟩
  carrier _ _ noted := noted

open RoutingTable in
instance [Lawful σ] : Lawful (Recorded σ) where
  routes table := Lawful.routes table.inner
  carrier_spec net table := Lawful.carrier_spec net table.inner
  add_spec ifname gateway net table := Lawful.add_spec ifname gateway net table.inner
  remove_spec ifname net table := Lawful.remove_spec ifname net table.inner
  replace_spec ifname gateway net table := Lawful.replace_spec ifname gateway net table.inner

end Recorded

end OverlayRouting
