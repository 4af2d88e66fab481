/-
# OverlayRouting.Proofs.Independence -- destinations do not influence each other

A sweep threads one table through all destinations, so the turn of one sees what the turns
before it have left.  What they leave is about other prefixes, and with a table in memory the
turn of a destination sees nothing of that: it goes as if it were the first, and the turns
behind it leave the route that it leaves (`Services.settled_turn`).

So an errand does to each destination what it does to that destination alone
(`Services.independent`).
-/
import OverlayRouting.Proofs.Agree

namespace OverlayRouting

set_option autoImplicit false

namespace Services

/-- The group with one destination alone. -/
def only (services : Services) (net : Prefix) : Services :=
  { services with
    rosters := services.rosters.filterMap fun other roster =>
      if other = net then some roster else none }

theorem roster?_only (services : Services) (net : Prefix) :
    (services.only net).roster? net = services.roster? net := by
  rw [roster?, only, SortedMap.get?_filterMap]
  simp only [if_true, Option.bind_fun_some]
  rfl

section Alone

variable (services : Services) (errand : Errand) (table : MemoryTable)

/-- The turn of a destination, with the table as it was before all turns. -/
def turn (net : Prefix) (roster : Roster) : Settlement × MemoryTable :=
  errand.visit roster ⟨services.group, net⟩ table

/-- Each destination has its turn with a table that is, for all that the turn sees and does, the
one before all turns; and the turns behind it leave its route. -/
theorem settled_turn {net : Prefix} {roster : Roster} (found : services.roster? net = some roster) :
    (services.settled errand.visit table).get? net =
        some (services.turn errand table net roster).1 ∧
      MemoryTable.Alike net (services.turn errand table net roster).2
        (services.carryOut errand table).2 := by
  obtain ⟨seen, settled, turn⟩ := services.rosters.traverse_turn
    (fun net roster table => errand.visit roster ⟨services.group, net⟩ table) table found
  -- the turns before this one keep the table like the first, those behind it like what it leaves
  have elsewhere := fun first => turn (MemoryTable.Alike net first)
    fun other rival _ differs table alike =>
      (MemoryTable.alike_kept net first).visit errand rival ⟨services.group, other⟩ table differs
        alike
  have here := (elsewhere table).1 ⟨rfl, rfl⟩
  have same := (MemoryTable.agree net).visit ⟨services.group, net⟩ roster here errand
  refine ⟨settled.trans (congrArg some same.answer.symm), ?_⟩
  rw [carryOut_eq]
  exact (elsewhere _).2 same.left

theorem alike_untracked {net : Prefix} (absent : services.roster? net = none) :
    MemoryTable.Alike net table (services.carryOut errand table).2 := by
  rw [carryOut_eq]
  refine services.sweep_keeps table ⟨rfl, rfl⟩ fun other rival found seen alike => ?_
  refine (MemoryTable.alike_kept net table).visit errand rival ⟨services.group, other⟩ seen ?_ alike
  rintro rfl
  cases absent.symm.trans found

/-- What an errand leaves and reports of one destination, told by its turn. -/
theorem carryOut_at (net : Prefix) :
    let made := services.carryOut errand table
    let turn := services.turn errand table net
    made.1.services.roster? net =
        (services.roster? net).bind (fun roster => (turn roster).1.roster) ∧
      made.2.routes.get? net = (services.roster? net).elim (table.routes.get? net)
        (fun roster => (turn roster).2.routes.get? net) ∧
      made.1.statuses.filter (·.destination = net) =
        (services.roster? net).elim [] (fun roster => (turn roster).1.statuses) := by
  intro made turn
  have swept : made.1 = (services.sweep errand.visit table).1 := by rw [← carryOut_eq]
  rw [swept, roster?_sweep_settled, services.filter_statuses_sweep table errand.destination_visit]
  cases found : services.roster? net with
  | none =>
      have alike := services.alike_untracked errand table found
      rw [services.get?_settled_of_absent _ table found]
      exact ⟨rfl, alike.route.symm, rfl⟩
  | some roster =>
      obtain ⟨settled, alike⟩ := services.settled_turn errand table found
      rw [settled]
      exact ⟨rfl, alike.route.symm, rfl⟩

/-- A group with one destination reports about that one only. -/
theorem statuses_only (net : Prefix) :
    let alone := (services.only net).carryOut errand table
    alone.1.statuses.filter (·.destination = net) = alone.1.statuses := by
  refine List.filter_eq_self.2 fun status reported => decide_eq_true ?_
  rw [carryOut_eq] at reported
  obtain ⟨other, roster, seen, found, own, -⟩ := of_mem_statuses_sweep reported
  rw [errand.destination_visit _ _ _ status own]
  by_contra differs
  simp only [roster?, only, SortedMap.get?_filterMap, if_neg differs, Option.bind_fun_none] at found
  cases found

/-- An errand leaves each destination, and the route of it, as if the group had that destination
alone, and reports the same about it.  Where the group has nothing, it changes no route. -/
theorem independent (net : Prefix) :
    let together := services.carryOut errand table
    let alone := (services.only net).carryOut errand table
    together.1.services.roster? net = alone.1.services.roster? net ∧
      together.2.routes.get? net = alone.2.routes.get? net ∧
      together.1.statuses.filter (·.destination = net) = alone.1.statuses ∧
      (services.roster? net = none → together.2.routes.get? net = table.routes.get? net) := by
  intro together alone
  obtain ⟨left, routed, reported⟩ := services.carryOut_at errand table net
  obtain ⟨left_alone, routed_alone, reported_alone⟩ :=
    (services.only net).carryOut_at errand table net
  rw [roster?_only] at left_alone routed_alone reported_alone
  refine ⟨left.trans left_alone.symm, routed.trans routed_alone.symm, ?_, fun absent => ?_⟩
  · exact (reported.trans reported_alone.symm).trans (services.statuses_only errand table net)
  · rw [absent] at routed
    exact routed

/-- The table refuses the first of two destinations.  The second is installed as it would be alone,
and the route to a prefix that nobody tracks stays. -/
theorem independent_of_refusal :
    let link := Sample.link "wg1" 0x0A000001#32 1 1
    let other := Sample.link "wg2" 0x0A000002#32 2 1
    let services := ((({ group := ⟨1⟩ } : Services).add link Sample.lan false).2.add link
      link.host false).2
    let table := (({} : MemoryTable).existing other.host "eth0").failOn link.host
    let together := services.carryOut (.commit none) table
    let alone := (services.only Sample.lan).carryOut (.commit none) table
    together.1.services.roster? Sample.lan = alone.1.services.roster? Sample.lan ∧
      together.1.statuses.filter (·.destination = Sample.lan) = alone.1.statuses ∧
      alone.1.statuses = [⟨link.connection, ⟨1⟩, Sample.lan, none⟩] ∧
      together.2.routes.get? other.host = some ⟨"eth0", none⟩ := by
  intro link other services table together alone
  have here := services.independent (.commit none) table Sample.lan
  have absent : services.roster? other.host = none := by decide +kernel
  have untracked := (services.independent (.commit none) table other.host).2.2.2 absent
  have stood : table.routes.get? other.host = some ⟨"eth0", none⟩ := by decide +kernel
  exact ⟨here.1, here.2.2.1, by decide +kernel, untracked.trans stood⟩

end Alone

end Services

end OverlayRouting
