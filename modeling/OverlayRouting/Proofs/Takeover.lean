/-
# OverlayRouting.Proofs.Takeover -- a first commit that finds a route

After a restart the table may hold routes that the group left there.  If all candidates of a
destination are new, its commit takes over a route through any of their interfaces
(`Roster.install_of_routed`).  If somebody has left in the meantime, the commit adds the route of
the heir as if the table were empty, and the table refuses that unless the route goes through the
very interface of the heir (`Roster.Uncommitted.commit_of_mixed`).

So whether a route is taken over depends on the way that the commit goes
(`Services.taken_over_iff`), and a candidate that left before the commit can leave the destination
waiting behind a route of its own (`Services.waits_behind_own_route`).
-/
import OverlayRouting.Proofs.Adoption
import OverlayRouting.Proofs.Independence
import OverlayRouting.Proofs.Succession

namespace OverlayRouting

set_option autoImplicit false

/-! ## Adding a route where there is one -/

namespace MemoryTable

variable {table : MemoryTable} {net : Prefix} {ifname : String}

/-- To add a route again changes nothing. -/
theorem Willing.add_again (willing : table.Willing) (carried : table.via? net = some ifname)
    (gateway : Option Address) :
    ∃ left, RoutingTable.add ifname gateway net table = (.ok (), left) ∧
      left.routes = table.routes := by
  obtain ⟨route, found, name⟩ := Option.map_eq_some_iff.1 carried
  refine ⟨{ table with history := ⟨.add, ifname, net⟩ :: table.history }, ?_, rfl⟩
  simp only [RoutingTable.add, perform, changed, found, name, if_true]
  rw [if_neg (willing.not_failing net)]

/-- To add a route where another interface has one is refused. -/
theorem Willing.add_taken (willing : table.Willing) {other : String}
    (carried : table.via? net = some other) (differs : other ≠ ifname) (gateway : Option Address) :
    ∃ cause left, RoutingTable.add ifname gateway net table = (.error cause, left) ∧
      left.routes = table.routes := by
  obtain ⟨route, found, name⟩ := Option.map_eq_some_iff.1 carried
  refine ⟨refusal ⟨.add, ifname, net⟩ s!"File exists (dev {other})",
    { table with history := ⟨.add, ifname, net⟩ :: table.history }, ?_, rfl⟩
  simp only [RoutingTable.add, perform, changed, found, name, if_neg differs]
  rw [if_neg (willing.not_failing net)]

end MemoryTable

/-! ## The turn of a destination -/

namespace Roster

/-- Nothing of it was committed yet: its candidates come, or left before they were installed, and
somebody comes. -/
structure Uncommitted (roster : Roster) : Prop where
  enabled : roster.disabled = false
  fresh : ∀ c ∈ roster.candidates, c.state = .joining ∨ c.state = .leaving false
  awaited : ∃ c ∈ roster.candidates, c.state = .joining

/-- The way of the commit leads to a candidate with the interface: all candidates are new, or the
heir has it. -/
def LeadsTo (roster : Roster) (selected : Option Address) (ifname : String) : Prop :=
  (∀ c ∈ roster.candidates, c.state = .joining) ∨
    ∃ heir, roster.heir? selected = some heir ∧ heir.link.ifname = ifname

namespace Uncommitted

variable {roster : Roster} (uncommitted : roster.Uncommitted)

include uncommitted

theorem hasPending : roster.hasPending = true := by
  obtain ⟨c, member, joining⟩ := uncommitted.awaited
  exact (hasPending_iff roster).2 ⟨c, member, .inl joining⟩

theorem wanted : roster.Wanted := by
  obtain ⟨c, member, joining⟩ := uncommitted.awaited
  exact ⟨c, member, by simp [Candidate.isLeaving, joining]⟩

theorem bare : roster.installed? = none := by
  refine (installed?_eq_none_iff roster).2 fun c member => ?_
  rcases uncommitted.fresh c member with state | state <;> simp [Candidate.isInstalled, state]

/-- Where somebody has left, the commit adds the route of the heir. -/
theorem commit_of_mixed {σ : Type} [RoutingTable σ] (sound : roster.Sound)
    (mixed : ¬ ∀ c ∈ roster.candidates, c.state = .joining) (destination : Destination)
    (selected : Option Address) (table : σ) :
    ∃ heir ∈ roster.candidates, heir.isLeaving = false ∧ roster.heir? selected = some heir ∧
      roster.commit destination selected table =
        match RoutingTable.add heir.link.ifname none destination.net table with
        | (.ok _, table) => (roster.attached destination heir, table)
        | (.error cause, table) => (roster.failed destination heir cause, table) := by
  obtain ⟨heir, chosen⟩ := Option.isSome_iff_exists.1 (successor_isSome uncommitted.wanted selected)
  obtain ⟨member, stays⟩ := mem_of_successor chosen
  refine ⟨heir, member, stays, ?_, ?_⟩
  · rw [heir?, if_neg mixed, ← sound.successor_eq, chosen]
  · have way : roster.commit destination selected table =
        roster.reconfigure destination selected table := by
      refine commit_cases (motive := (· = _)) roster destination selected table ?_ ?_ ?_ ?_
      · rintro (disabled | quiet)
        · cases uncommitted.enabled.symm.trans disabled
        · cases uncommitted.hasPending.symm.trans quiet
      · exact fun _ _ joining => absurd joining mixed
      · exact fun _ _ unwanted => absurd uncommitted.wanted unwanted
      · exact fun _ _ _ => rfl
    simp only [way, reconfigure, chosen, uncommitted.bare, move]
    generalize RoutingTable.add heir.link.ifname none destination.net table = asked
    obtain ⟨outcome, left⟩ := asked
    cases outcome <;> rfl

/-- The commit of a destination that is routed through one of its own interfaces leaves the route,
and is refused unless its way leads to that interface. -/
theorem commit_of_routed (sound : roster.Sound) (destination : Destination) {table : MemoryTable}
    (willing : table.Willing) (selected : Option Address) {own : Candidate}
    (member : own ∈ roster.candidates)
    (carried : table.via? destination.net = some own.link.ifname) :
    let turn := roster.commit destination selected table
    turn.2.routes = table.routes ∧
      ((roster.LeadsTo selected own.link.ifname ∧ ∃ c ∈ roster.candidates, c.isLeaving = false ∧
          c.link.ifname = own.link.ifname ∧ turn.1 = roster.attached destination c) ∨
        (¬ roster.LeadsTo selected own.link.ifname ∧ ∃ c cause,
          turn.1 = roster.failed destination c cause)) := by
  intro turn
  by_cases joining : ∀ c ∈ roster.candidates, c.state = .joining
  · -- an installation looks for a route first
    obtain ⟨c, listed, name, installed⟩ := install_of_routed uncommitted.wanted member carried
    have made : turn = (roster.attached destination c, table) :=
      (commit_of_joining uncommitted.enabled uncommitted.hasPending joining ..).trans installed
    have stays : c.isLeaving = false := by simp [Candidate.isLeaving, joining c listed]
    rw [made]
    exact ⟨rfl, .inl ⟨.inl joining, c, listed, stays, name, rfl⟩⟩
  · obtain ⟨heir, listed, stays, chosen, way⟩ :=
      uncommitted.commit_of_mixed sound joining destination selected table
    have leads_iff :
        roster.LeadsTo selected own.link.ifname ↔ heir.link.ifname = own.link.ifname := by
      simp [LeadsTo, joining, chosen]
    rw [leads_iff]
    by_cases name : heir.link.ifname = own.link.ifname
    · obtain ⟨left, added, same⟩ := willing.add_again (carried.trans (congrArg some name.symm)) none
      have made : turn = (roster.attached destination heir, left) := by simp only [turn, way, added]
      rw [made]
      exact ⟨same, .inl ⟨name, heir, listed, stays, name, rfl⟩⟩
    · obtain ⟨cause, left, refused, same⟩ := willing.add_taken carried (Ne.symm name) none
      have made : turn = (roster.failed destination heir cause, left) := by
        simp only [turn, way, refused]
      rw [made]
      exact ⟨same, .inr ⟨name, heir, cause, rfl⟩⟩

end Uncommitted

end Roster

/-! ## All destinations -/

namespace Services

/-- A commit took the destination over: it reports nothing but one success about it, leaves
nothing pending there, and the table routes it through the interface of an active candidate. -/
structure TakenOver (made : Swept × MemoryTable) (net : Prefix) : Prop where
  reported : ∃ status, made.1.statuses.filter (·.destination = net) = [status] ∧ status.isOk = true
  settled : ∃ after, made.1.services.roster? net = some after ∧ after.hasPending = false ∧
    ∃ c ∈ after.candidates, c.state = .active ∧ made.2.via? net = some c.link.ifname

/-- A destination that was never committed, and is routed through one of its own interfaces already,
is taken over if the way of the commit leads to that interface; else it waits as it is, with the
route in its way.  The route stays in any case. -/
theorem taken_over_iff {services : Services} (sound : services.Sound) (selected : Option Address)
    {table : MemoryTable} (willing : table.Willing) {net : Prefix} {roster : Roster}
    (found : services.roster? net = some roster) (uncommitted : roster.Uncommitted)
    {own : Candidate} (member : own ∈ roster.candidates)
    (carried : table.via? net = some own.link.ifname) :
    let made := services.commit selected table
    (TakenOver made net ↔ roster.LeadsTo selected own.link.ifname) ∧
      (¬ TakenOver made net → made.1.services.roster? net = some roster ∧
        ∃ status, made.1.statuses.filter (·.destination = net) = [status] ∧ status.isOk = false) ∧
      made.2.routes.get? net = table.routes.get? net := by
  intro made
  obtain ⟨left, routed, reported⟩ := services.carryOut_at (.commit selected) table net
  change made.1.services.roster? net = _ at left
  change made.2.routes.get? net = _ at routed
  change made.1.statuses.filter _ = _ at reported
  rw [found] at left routed reported
  obtain ⟨same, way⟩ := uncommitted.commit_of_routed (sound net roster found).1
    ⟨services.group, net⟩ willing selected member carried
  have kept : made.2.routes.get? net = table.routes.get? net :=
    routed.trans (congrArg (SortedMap.get? · net) same)
  rcases way with ⟨leads, c, listed, here, name, turn⟩ | ⟨astray, c, cause, turn⟩
  · have taken : TakenOver made net := by
      refine ⟨⟨_, reported.trans (congrArg Settlement.statuses turn), rfl⟩, _,
        left.trans (congrArg Settlement.roster turn), Roster.quiet_settle ..,
        { c with state := .active }, Roster.mem_settle.2 ⟨c, listed, here, by simp⟩, rfl, ?_⟩
      rw [MemoryTable.via?, kept, name]
      exact carried
    exact ⟨iff_of_true taken leads, fun missed => absurd taken missed, kept⟩
  · have waits : made.1.services.roster? net = some roster :=
      left.trans (congrArg Settlement.roster turn)
    have missed : ¬ TakenOver made net := by
      rintro ⟨-, after, stands, quiet, -⟩
      cases waits.symm.trans stands
      cases uncommitted.hasPending.symm.trans quiet
    exact ⟨iff_of_false missed astray,
      fun _ => ⟨waits, _, reported.trans (congrArg Settlement.statuses turn), rfl⟩, kept⟩

/-- The first of three new candidates has left, and the destination is still routed through the
interface of the last.  The commit follows the selected gateway there, so the route is taken
over. -/
theorem taken_over_by_selected :
    let first := Sample.link "wg1" 0x0A000001#32 1 1
    let second := Sample.link "wg2" 0x0A000002#32 2 1
    let third := Sample.link "wg3" 0x0A000003#32 3 1
    let services := (run [.add first Sample.lan false, .add second Sample.lan false,
        .add third Sample.lan false, .remove first Sample.lan]
      ({ group := ⟨1⟩ }, ({} : MemoryTable))).1
    let table := ({} : MemoryTable).existing Sample.lan "wg3"
    TakenOver (services.commit (some third.gateway) table) Sample.lan ∧
      (services.commit (some third.gateway) table).2.routes.get? Sample.lan =
        table.routes.get? Sample.lan := by
  intro first second third services table
  have sound : services.Sound := run_sound ⟨1⟩ ({} : MemoryTable) _
  let roster : Roster :=
    { candidates := [⟨first, .leaving false⟩, ⟨second, .joining⟩, ⟨third, .joining⟩] }
  have found : services.roster? Sample.lan = some roster := by decide +kernel
  have uncommitted : roster.Uncommitted := ⟨rfl, by decide +kernel, by decide +kernel⟩
  have heir : roster.heir? (some third.gateway) = some ⟨third, .joining⟩ := by decide +kernel
  have listed : (⟨third, .joining⟩ : Candidate) ∈ roster.candidates := by simp [roster]
  have willing : table.Willing := rfl
  have made := taken_over_iff sound (some third.gateway) willing found uncommitted listed
    (by decide +kernel)
  exact ⟨made.1.2 (.inr ⟨_, heir, rfl⟩), made.2.2⟩

/-- With nobody selected the same commit tries the second candidate.  The table refuses that, so
the destination waits behind a route through an interface of its own. -/
theorem waits_behind_own_route :
    let first := Sample.link "wg1" 0x0A000001#32 1 1
    let second := Sample.link "wg2" 0x0A000002#32 2 1
    let third := Sample.link "wg3" 0x0A000003#32 3 1
    let services := (run [.add first Sample.lan false, .add second Sample.lan false,
        .add third Sample.lan false, .remove first Sample.lan]
      ({ group := ⟨1⟩ }, ({} : MemoryTable))).1
    let table := ({} : MemoryTable).existing Sample.lan "wg3"
    ∃ roster own, services.roster? Sample.lan = some roster ∧ roster.Uncommitted ∧
      own ∈ roster.candidates ∧ own.isLeaving = false ∧
      table.via? Sample.lan = some own.link.ifname ∧ table.failing = [] ∧
      ¬ TakenOver (services.commit none table) Sample.lan := by
  intro first second third services table
  let roster : Roster :=
    { candidates := [⟨first, .leaving false⟩, ⟨second, .joining⟩, ⟨third, .joining⟩] }
  refine ⟨roster, ⟨third, .joining⟩, by decide +kernel, ⟨rfl, by decide +kernel, by decide +kernel⟩,
    by simp [roster], rfl, by decide +kernel, rfl, ?_⟩
  rintro ⟨-, after, stands, quiet, -⟩
  have waits : (services.commit none table).1.services.roster? Sample.lan = some roster := by
    decide +kernel
  cases waits.symm.trans stands
  exact absurd quiet (by decide +kernel)

end Services

end OverlayRouting
