/-
# OverlayRouting.Proofs.Succession -- who carries a destination after a commit

A commit that nothing stands in the way of gives every destination with something pending to one
candidate (`Roster.heir?`): to the first one where all are new, else to that of the selected
gateway, to the one that carries it already, or to the first, whoever of them stays.

Three ways lead there.  New candidates are installed, a route is moved, or it is withdrawn, and
the roster is read again to find the candidate by its gateway.  That the three have one outcome
rests on two facts: gateways are distinct, so a look-up and the removal of those who leave may
be done in any order (`Roster.Sound.successor_eq`); and the table has the route that the roster
knows of, so no call can be refused (`Roster.Sound.commit_made`).

The turns of the other destinations are about other prefixes, so they neither prepare nor undo
the turn of this one (`Services.commit_at_turn`).
-/
import OverlayRouting.Proofs.Independence
import OverlayRouting.Proofs.ServiceRun

namespace OverlayRouting

set_option autoImplicit false

/-! ## Look-ups that find one member at most -/

theorem find?_eq_some_iff_of_single {α : Type} {list : List α} {wanted : α → Bool}
    (single : ∀ x ∈ list, ∀ y ∈ list, wanted x = true → wanted y = true → x = y) {x : α} :
    list.find? wanted = some x ↔ x ∈ list ∧ wanted x = true := by
  constructor
  · intro found
    exact ⟨List.mem_of_find?_eq_some found, List.find?_some found⟩
  · rintro ⟨member, here⟩
    obtain ⟨y, found⟩ := Option.isSome_iff_exists.1 (List.find?_isSome.2 ⟨x, member, here⟩)
    rw [found, single y (List.mem_of_find?_eq_some found) x member (List.find?_some found) here]

/-- Such a look-up may be made before or after others are sorted out. -/
theorem filter_find?_of_single {α : Type} {list : List α} {wanted : α → Bool}
    (single : ∀ x ∈ list, ∀ y ∈ list, wanted x = true → wanted y = true → x = y)
    (stays : α → Bool) :
    (list.find? wanted).filter stays = (list.filter stays).find? wanted := by
  refine Option.ext fun x => ?_
  have single_left : ∀ x ∈ list.filter stays, ∀ y ∈ list.filter stays, wanted x = true →
      wanted y = true → x = y := fun x member y also =>
    single x (List.mem_of_mem_filter member) y (List.mem_of_mem_filter also)
  rw [Option.filter_eq_some_iff, find?_eq_some_iff_of_single single,
    find?_eq_some_iff_of_single single_left, List.mem_filter]
  tauto

namespace Roster

variable {roster : Roster}

/-! ## The candidate that is to carry a destination -/

/-- Those who are not on the way out, in the order in which they came. -/
def staying (roster : Roster) : List Candidate := roster.candidates.filter fun c => !c.isLeaving

/-- The candidate that a commit gives the destination to. -/
def heir? (roster : Roster) (selected : Option Address) : Option Candidate :=
  if ∀ c ∈ roster.candidates, c.state = .joining then roster.candidates.head?
  else ((selected.bind fun gateway => roster.staying.find? (·.gateway = gateway)).or
    (roster.staying.find? (·.state = .active))).or roster.staying.head?

theorem default?_of_bare (bare : roster.installed? = none) :
    roster.default? = roster.staying.head? := by
  rw [default?, bare, staying, List.head?_filter]
  rfl

theorem Sound.staying_candidate? (sound : roster.Sound) (gateway : Address) :
    (roster.candidate? gateway).filter (fun c => !c.isLeaving) =
      roster.staying.find? (·.gateway = gateway) := by
  refine filter_find?_of_single ?_ _
  intro c member other also here there
  simp only [decide_eq_true_eq] at here there
  exact sound.eq_of_gateway member also (here.trans there.symm)

/-- Who carries a destination and stays is active. -/
theorem Sound.staying_installed? (sound : roster.Sound) :
    roster.installed?.filter (fun c => !c.isLeaving) = roster.staying.find? (·.state = .active) := by
  rw [installed?, filter_find?_of_single fun c member other also =>
    sound.single c member other also, staying, List.find?_filter, List.find?_filter]
  congr 1
  funext c
  cases state : c.state <;> simp [Candidate.isInstalled, Candidate.isLeaving, state]

theorem Sound.successor_eq (sound : roster.Sound) (selected : Option Address) :
    roster.successor selected =
      ((selected.bind fun gateway => roster.staying.find? (·.gateway = gateway)).or
        (roster.staying.find? (·.state = .active))).or roster.staying.head? := by
  have chosen : (selected.bind roster.candidate?).filter (fun c => !c.isLeaving) =
      selected.bind fun gateway => roster.staying.find? (·.gateway = gateway) := by
    cases selected with
    | none => rfl
    | some gateway => exact sound.staying_candidate? gateway
  have first : roster.candidates.find? (fun c => !c.isLeaving) = roster.staying.head? :=
    (List.head?_filter ..).symm
  -- the default tries the installed candidate again, which adds nothing
  have twice (a b c : Option Candidate) : (a.or b).or (b.or c) = (a.or b).or c := by
    cases a <;> cases b <;> rfl
  simp only [successor, default?]
  rw [chosen, sound.staying_installed?, first, twice]

/-! ## One destination at its turn -/

section Turn

variable {destination : Destination} {table : MemoryTable}

theorem install_made (willing : table.Willing) {c : Candidate} (first : roster.default? = some c)
    (free : table.via? destination.net = none) :
    (roster.install destination table).1.roster = some (roster.settle (some c.gateway)) ∧
      (roster.install destination table).2.via? destination.net = some c.link.ifname := by
  have asked : RoutingTable.carrier destination.net table = (none, table) := Prod.ext free rfl
  obtain ⟨left, added, routed⟩ := willing.add_free free c.link.ifname none
  simp only [install, first, asked, added]
  exact ⟨rfl, routed⟩

theorem withdraw_made (willing : table.Willing)
    (routed : table.via? destination.net = roster.installed?.map (·.link.ifname)) :
    (roster.withdraw destination table).1.roster = none ∧
      (roster.withdraw destination table).2.via? destination.net = none := by
  refine ⟨withdraw_turn roster destination willing, ?_⟩
  unfold withdraw
  cases found : roster.installed? with
  | none => simpa [found] using routed
  | some c =>
      have carried : table.via? destination.net = some c.link.ifname := by rw [routed, found]; rfl
      obtain ⟨left, done⟩ := willing.remove_ok c.link.ifname destination.net
      rcases MemoryTable.remove_spec c.link.ifname destination.net table with
        ⟨cause, refused, -⟩ | ⟨-, changed⟩
      · rw [done] at refused
        cases refused
      · rw [if_pos carried, done] at changed
        simp only [done, changed, Function.update_self]

/-- A route moves from the candidate that has it, or is added where nobody has one. -/
theorem move_made (willing : table.Willing) {old : Option Candidate} {new : Candidate}
    (routed : table.via? destination.net = old.map (·.link.ifname))
    (same : ∀ c, old = some c → c.gateway = new.gateway → c = new) :
    ∃ change left, move destination old (some new) table = (.ok change, left) ∧
      left.via? destination.net = some new.link.ifname := by
  cases old with
  | none =>
      obtain ⟨left, added, carried⟩ := willing.add_free routed new.link.ifname none
      exact ⟨_, left, by simp only [move, added]; rfl, carried⟩
  | some c =>
      by_cases again : c.gateway = new.gateway
      · refine ⟨none, table, by simp only [move, if_pos again], ?_⟩
        rw [routed, same c rfl again]
        rfl
      · have done := willing.replace_ok new.link.ifname none destination.net
        rcases MemoryTable.replace_spec new.link.ifname none destination.net table with
          ⟨cause, refused, -⟩ | ⟨-, changed⟩
        · cases done.symm.trans refused
        · refine ⟨_, _, by simp only [move, if_neg again, done]; rfl, ?_⟩
          rw [changed, Function.update_self]

/-- What a commit makes of a destination with something pending, if the table has the route that
the destination knows of. -/
theorem Sound.commit_made (sound : roster.Sound) (enabled : roster.disabled = false)
    (pending : roster.hasPending = true) (destination : Destination) (selected : Option Address)
    (willing : table.Willing)
    (routed : table.via? destination.net = roster.installed?.map (·.link.ifname)) :
    let made := roster.commit destination selected table
    (¬ roster.Wanted → made.1.roster = none ∧ made.2.via? destination.net = none) ∧
    (roster.Wanted → ∃ c ∈ roster.candidates, c.isLeaving = false ∧
      roster.heir? selected = some c ∧ made.1.roster = some (roster.settle (some c.gateway)) ∧
        made.2.via? destination.net = some c.link.ifname) := by
  by_cases joining : ∀ c ∈ roster.candidates, c.state = .joining
  · -- there is a candidate, since something is pending, and none has a route
    obtain ⟨c, member, -⟩ := (hasPending_iff roster).1 pending
    have wanted : roster.Wanted := ⟨c, member, by simp [Candidate.isLeaving, joining c member]⟩
    have bare := bare_of_joining joining
    obtain ⟨first, found⟩ := Option.isSome_iff_exists.1 (default?_isSome wanted)
    obtain ⟨listed, stays⟩ := mem_of_default? found
    rw [bare] at routed
    simp only [commit_of_joining enabled pending joining]
    refine ⟨fun unwanted => absurd wanted unwanted, fun _ => ⟨first, listed, stays, ?_,
      install_made willing found routed⟩⟩
    have everybody : roster.staying = roster.candidates :=
      List.filter_eq_self.2 fun c member => by simp [Candidate.isLeaving, joining c member]
    rw [heir?, if_pos joining, ← everybody, ← default?_of_bare bare, found]
  · refine commit_cases (motive := fun made =>
      (¬ roster.Wanted → made.1.roster = none ∧ made.2.via? destination.net = none) ∧
      (roster.Wanted → ∃ c ∈ roster.candidates, c.isLeaving = false ∧
        roster.heir? selected = some c ∧ made.1.roster = some (roster.settle (some c.gateway)) ∧
          made.2.via? destination.net = some c.link.ifname))
      roster destination selected table ?_ ?_ ?_ ?_
    · rintro (disabled | quiet)
      · cases enabled.symm.trans disabled
      · cases pending.symm.trans quiet
    · exact fun _ _ all => absurd all joining
    · exact fun _ _ unwanted => ⟨fun _ => withdraw_made willing routed,
        fun wanted => absurd wanted unwanted⟩
    · intro _ _ wanted
      obtain ⟨new, chosen⟩ := Option.isSome_iff_exists.1 (successor_isSome wanted selected)
      obtain ⟨member, stays⟩ := mem_of_successor chosen
      have itself : ∀ c, roster.installed? = some c → c.gateway = new.gateway → c = new :=
        fun c found same => sound.eq_of_gateway (mem_of_installed? found).1 member same
      obtain ⟨change, left, moved, carried⟩ := move_made willing routed itself
      refine ⟨fun unwanted => absurd wanted unwanted, fun _ => ⟨new, member, stays, ?_, ?_⟩⟩
      · rw [heir?, if_neg joining, ← sound.successor_eq, chosen]
      · simp only [reconfigure, chosen, moved]
        exact ⟨rfl, carried⟩

end Turn

/-- What is left of a destination that a commit gave to `c`: those who stay, in their order, with
nothing pending, and `c` as the only active one. -/
structure GivenTo (before after : Roster) (c : Candidate) : Prop where
  links : after.candidates.map Candidate.link = before.staying.map Candidate.link
  enabled : after.disabled = false
  quiet : after.hasPending = false
  carrier : ⟨c.link, .active⟩ ∈ after.candidates
  single : after.candidates.countP (·.state = .active) = 1

theorem Sound.givenTo_settle (sound : roster.Sound) {c : Candidate} (member : c ∈ roster.candidates)
    (stays : c.isLeaving = false) (enabled : roster.disabled = false) :
    GivenTo roster (roster.settle (some c.gateway)) c := by
  have carrier : ⟨c.link, .active⟩ ∈ (roster.settle (some c.gateway)).candidates :=
    mem_settle.2 ⟨c, member, stays, by rw [if_pos rfl]⟩
  have order := (sound.settle member stays enabled).orderly (List.ne_nil_of_mem carrier)
  have quiet := quiet_settle roster (some c.gateway)
  refine ⟨?_, enabled, quiet, carrier, order.served enabled quiet⟩
  simp only [Roster.settle, staying, List.map_map]
  rfl

end Roster

/-! ## All destinations -/

namespace Services

/-- A destination is committed with the route that it had before all turns, and keeps the route
that its own turn leaves. -/
theorem commit_at_turn (services : Services) (selected : Option Address) {table : MemoryTable}
    (willing : table.Willing) {net : Prefix} {roster : Roster}
    (found : services.roster? net = some roster) :
    ∃ seen : MemoryTable, seen.Willing ∧ seen.routes.get? net = table.routes.get? net ∧
      let turn := roster.commit ⟨services.group, net⟩ selected seen
      (services.commit selected table).1.services.roster? net = turn.1.roster ∧
        (services.commit selected table).2.routes.get? net = turn.2.routes.get? net := by
  obtain ⟨left, routed, -⟩ := services.carryOut_at (.commit selected) table net
  rw [found] at left routed
  exact ⟨table, willing, rfl, left, routed⟩

/-- Where nothing is committed, nothing changes. -/
theorem commit_elsewhere (services : Services) (selected : Option Address) {table : MemoryTable}
    {net : Prefix} (idle : ∀ roster, services.roster? net = some roster →
      roster.disabled = true ∨ roster.hasPending = false) :
    (services.commit selected table).1.services.roster? net = services.roster? net ∧
      (services.commit selected table).2.routes.get? net = table.routes.get? net := by
  obtain ⟨left, routed, -⟩ := services.carryOut_at (.commit selected) table net
  cases found : services.roster? net with
  | none =>
      rw [found] at left routed
      exact ⟨left, routed⟩
  | some roster =>
      have still := Roster.commit_idle (idle roster found) ⟨services.group, net⟩ selected table
      rw [found] at left routed
      exact ⟨left.trans (congrArg (·.1.roster) still),
        routed.trans (congrArg (·.2.routes.get? net) still)⟩

/-- A commit of a group that has a willing table, with the routes that the group knows of.  A
destination that everybody leaves is dropped.  Any other one with something pending is given to
its heir, and its route goes through the interface of the heir.  All others stay as they are. -/
theorem given_to_heirs {σ : Type} [RoutingTable σ] (group : GroupId) (start : σ)
    (ops : List (Operation σ)) (selected : Option Address) {table : MemoryTable}
    (willing : table.Willing)
    (routed : ∀ net roster, (run ops ({ group }, start)).1.roster? net = some roster →
      roster.disabled = false → table.via? net = roster.installed?.map (·.link.ifname))
    (net : Prefix) :
    let services := (run ops ({ group }, start)).1
    let made := services.commit selected table
    (∀ roster, services.roster? net = some roster → roster.disabled = false →
      roster.hasPending = true →
      ((∀ c ∈ roster.candidates, c.isLeaving = true) →
        made.1.services.roster? net = none ∧ made.2.via? net = none) ∧
      ((∃ c ∈ roster.candidates, c.isLeaving = false) →
        ∃ c after, roster.heir? selected = some c ∧ made.1.services.roster? net = some after ∧
          roster.GivenTo after c ∧ made.2.via? net = some c.link.ifname)) ∧
    ((∀ roster, services.roster? net = some roster →
        roster.disabled = true ∨ roster.hasPending = false) →
      made.1.services.roster? net = services.roster? net ∧
        made.2.routes.get? net = table.routes.get? net) := by
  intro services made
  refine ⟨fun roster found enabled pending => ?_, services.commit_elsewhere selected⟩
  have sound := (run_sound group start ops net roster found).1
  obtain ⟨seen, seen_willing, before, left, behind⟩ :=
    services.commit_at_turn selected willing found
  have known : seen.via? net = roster.installed?.map (·.link.ifname) := by
    rw [MemoryTable.via?, before]
    exact routed net roster found enabled
  have carried : made.2.via? net = _ := congrArg (Option.map Route.ifname) behind
  obtain ⟨dropped, given⟩ :=
    sound.commit_made enabled pending ⟨services.group, net⟩ selected seen_willing known
  refine ⟨fun nobody => ?_, fun wanted => ?_⟩
  · obtain ⟨gone, unrouted⟩ := dropped ((roster.not_wanted_iff).2 nobody)
    exact ⟨left.trans gone, carried.trans unrouted⟩
  · obtain ⟨c, member, stays, chosen, settled, through⟩ := given wanted
    exact ⟨c, _, chosen, left.trans settled, sound.givenTo_settle member stays enabled,
      carried.trans through⟩

/-- The selected gateway is on the way out, so the destination falls to the candidate that stands
by, and not to the new one; another destination of the group stays as it is. -/
theorem given_to_the_second :
    let first := Sample.link "wg1" 0x0A000001#32 1 1
    let second := Sample.link "wg2" 0x0A000002#32 2 1
    let third := Sample.link "wg3" 0x0A000003#32 3 1
    let ops : List (Operation MemoryTable) :=
      [.add first Sample.lan false, .add second Sample.lan false, .add first third.host false,
        .commit none, .remove first Sample.lan, .add third Sample.lan false]
    let table := (({} : MemoryTable).existing Sample.lan "wg1").existing third.host "wg1"
    let services := (run ops ({ group := ⟨1⟩ }, {})).1
    let made := services.commit (some first.gateway) table
    (∃ before c after, services.roster? Sample.lan = some before ∧
      made.1.services.roster? Sample.lan = some after ∧ before.GivenTo after c ∧
        c.link = second ∧ made.2.via? Sample.lan = some c.link.ifname) ∧
    made.1.services.roster? third.host = services.roster? third.host ∧
      made.2.routes.get? third.host = table.routes.get? third.host := by
  intro first second third ops table
  have routed : ∀ net roster, (run ops ({ group := ⟨1⟩ }, {})).1.roster? net = some roster →
      roster.disabled = false → table.via? net = roster.installed?.map (·.link.ifname) := by
    have all : ∀ entry ∈ (run ops ({ group := ⟨1⟩ }, {})).1.rosters.entries,
        entry.2.disabled = false →
          table.via? entry.1 = entry.2.installed?.map (·.link.ifname) := by decide +kernel
    exact fun net roster found => all (net, roster) ((SortedMap.mem_entries_iff _ net roster).2 found)
  have willing : table.Willing := rfl
  have given := given_to_heirs ⟨1⟩ ({} : MemoryTable) ops (some first.gateway) willing routed
  have facts : ((run ops ({ group := ⟨1⟩ }, {})).1.roster? Sample.lan).map (fun before =>
      (before.disabled, before.hasPending, before.candidates.any (!·.isLeaving),
        (before.heir? first.gateway).map Candidate.link)) = some (false, true, true, some second) := by
    decide +kernel
  obtain ⟨before, found, known⟩ := Option.map_eq_some_iff.1 facts
  simp only [Prod.mk.injEq] at known
  obtain ⟨enabled, pending, wanted, heir⟩ := known
  obtain ⟨c, after, chosen, left, by_rule, through⟩ :=
    ((given Sample.lan).1 before found enabled pending).2 (by simpa using wanted)
  rw [chosen] at heir
  refine ⟨⟨before, c, after, found, left, by_rule, Option.some.inj heir, through⟩, ?_⟩
  refine (given third.host).2 fun roster found => ?_
  have quiet : ((run ops ({ group := ⟨1⟩ }, {})).1.roster? third.host).map Roster.hasPending =
      some false := by decide +kernel
  rw [found] at quiet
  exact .inr (Option.some.inj quiet)

end Services

end OverlayRouting
