/-
# OverlayRouting.Proofs.Adoption -- a router that finds back what is installed

A router forgets its groups, is configured as before and commits.  The table still has the
routes of the time before, which probe rounds have moved from interface to interface.

A first commit that reports no failure leaves every destination served: some candidate of it is
installed, and its interface carries the route (`Roster.Served`).  A probe round moves a route
only within the candidates of its destination, so it keeps that, and leaves the addresses of the
peers routed (`Router.Upheld`).  The destinations of the groups are different, and a round calls
the table for destinations only, so the turn of one destination does not touch the route of
another one.

When the same configuration is committed again, it meets a table that routes whatever it asks
for.  So no call changes a route, and each destination takes over the route that it finds, for
the first of its candidates on that interface (`Router.Upheld.again`).  This need not be the
candidate of before: two of them may have one interface.
-/
import OverlayRouting.Proofs.FirstCommit
import OverlayRouting.Proofs.Hysteresis

namespace OverlayRouting

set_option autoImplicit false

open RoutingTable (AddsKeep KeepsWithin Lawful)

/-! ## Calls about routed prefixes -/

namespace MemoryTable

/-- Where a route stands, adding another one changes nothing. -/
theorem routes_add_of_routed {table : MemoryTable} {net : Prefix} {ifname : String}
    (routed : table.via? net = some ifname) (own : String) (gateway : Option Address) :
    (RoutingTable.add own gateway net table).2.routes = table.routes := by
  obtain ⟨route, found, -⟩ := Option.map_eq_some_iff.1 routed
  refine perform_cases (motive := fun result => result.2.routes = table.routes)
    ⟨.add, own, net⟩ gateway table (fun _ _ _ same => same) (fun _ _ _ _ same => same) ?_
  intro left made
  simp only [changed, found] at made
  split at made
  · exact (Except.ok.inj made).symm
  · cases made

/-- Adding routes where routes stand keeps the routes as they are. -/
theorem routes_kept (table : MemoryTable) :
    AddsKeep (fun net => ∃ ifname, table.via? net = some ifname)
      fun left : MemoryTable => left.routes = table.routes where
  add own gateway net left routed same := by
    obtain ⟨ifname, carried⟩ := routed
    exact (routes_add_of_routed ((congrFun (via?_congr same) net).trans carried) own gateway).trans
      same
  carrier _ _ _ same := same

end MemoryTable

/-! ## One destination -/

namespace Roster

variable {roster now : Roster} {destination : Destination} {table : MemoryTable}

theorem settle_settle (roster : Roster) (first second : Option Address) :
    (roster.settle first).settle second = roster.settle second := by
  have staying : (roster.settle first).candidates.filter (fun c => !c.isLeaving) =
      (roster.settle first).candidates := List.filter_eq_self.2 fun c member => by
    simp [stays_of_quiet (quiet_settle roster first) member]
  rw [settle, staying]
  simp only [settle, List.map_map]
  rfl

/-- A destination that was installed: one of the candidates that it was configured with is the
installed one, and the table has its route. -/
def Served (configured now : Roster) (net : Prefix) (table : MemoryTable) : Prop :=
  ∃ c ∈ configured.candidates, now = configured.settle (some c.gateway) ∧
    table.via? net = some c.link.ifname

theorem Served.routed {net : Prefix} (served : Served roster now net table) :
    ∃ ifname, table.via? net = some ifname := by
  obtain ⟨c, -, -, routed⟩ := served
  exact ⟨c.link.ifname, routed⟩

/-- A route through an interface of a candidate is taken over without a change. -/
theorem install_of_routed (wanted : roster.Wanted) {c : Candidate} (member : c ∈ roster.candidates)
    (routed : table.via? destination.net = some c.link.ifname) :
    ∃ own ∈ roster.candidates, own.link.ifname = c.link.ifname ∧
      roster.install destination table = (roster.attached destination own, table) := by
  obtain ⟨first, found⟩ := Option.isSome_iff_exists.1 (default?_isSome wanted)
  have asked : RoutingTable.carrier destination.net table = (some c.link.ifname, table) :=
    Prod.ext routed rfl
  have listed : (roster.candidates.find? (·.link.ifname = c.link.ifname)).isSome :=
    List.find?_isSome.2 ⟨c, member, by simp⟩
  obtain ⟨own, chosen⟩ := Option.isSome_iff_exists.1 listed
  refine ⟨own, List.mem_of_find?_eq_some chosen, by simpa using List.find?_some chosen, ?_⟩
  simp only [install, found, asked, chosen]

/-- An installation that reports no failure serves the destination. -/
theorem New.served_install (new : roster.New)
    (reported : ∀ status ∈ (roster.install destination table).1.statuses, status.isOk = true) :
    ∃ after, (roster.install destination table).1.roster = some after ∧
      Served roster after destination.net (roster.install destination table).2 := by
  obtain ⟨first, found⟩ := Option.isSome_iff_exists.1 (default?_isSome new.wanted)
  have refused : ∀ cause left, roster.install destination table =
      (roster.failed destination first cause, left) → False := by
    intro cause left failed
    have told := reported (destination.status first (.error cause)) (by rw [failed]; simp [Roster.failed])
    simp [Destination.status, RouteStatus.ofOutcome, RouteStatus.isOk] at told
  cases carried : table.via? destination.net with
  | none =>
      have asked : RoutingTable.carrier destination.net table = (none, table) :=
        Prod.ext carried rfl
      rcases Lawful.add_cases first.link.ifname none destination.net table with
        ⟨cause, left, answered, -⟩ | ⟨left, answered, -, changed⟩
      · exact (refused cause left (by simp only [install, found, asked, answered])).elim
      · have made : roster.install destination table = (roster.attached destination first, left) := by
          simp only [install, found, asked, answered]
        rw [made]
        refine ⟨_, rfl, first, (mem_of_default? found).1, rfl, ?_⟩
        exact (congrFun changed destination.net).trans (Function.update_self ..)
  | some ifname =>
      have asked : RoutingTable.carrier destination.net table = (some ifname, table) :=
        Prod.ext carried rfl
      cases listed : roster.candidates.find? (·.link.ifname = ifname) with
      | none =>
          exact (refused (.foreignRoute destination.net ifname) table
            (by simp only [install, found, asked, listed])).elim
      | some own =>
          have name : own.link.ifname = ifname := by simpa using List.find?_some listed
          have routed : table.via? destination.net = some own.link.ifname :=
            carried.trans (congrArg some name.symm)
          obtain ⟨taken, member, same, made⟩ :=
            install_of_routed new.wanted (List.mem_of_find?_eq_some listed) routed
          rw [made]
          exact ⟨_, rfl, taken, member, rfl, routed.trans (congrArg some same.symm)⟩

/-- A probe round moves the route to another candidate or leaves it. -/
theorem Served.reroute (new : roster.New) (sound : roster.Sound) (willing : table.Willing)
    (served : Served roster now destination.net table) (selected : Address) :
    ∃ after, (now.reroute destination selected table).1.roster = some after ∧
      Served roster after destination.net (now.reroute destination selected table).2 := by
  obtain ⟨c, member, rfl, routed⟩ := served
  have same : Served roster (roster.settle (some c.gateway)) destination.net table :=
    ⟨c, member, rfl, routed⟩
  have idle : ((roster.settle (some c.gateway)).disabled ||
      (roster.settle (some c.gateway)).hasPending) = false := by
    rw [quiet_settle, Bool.or_false]
    exact new.enabled
  have installed := sound.installed?_settle member (new.stays member) new.enabled
  rw [Roster.reroute, idle, if_neg Bool.false_ne_true]
  cases listed : (roster.settle (some c.gateway)).candidate? selected with
  | none => exact ⟨_, rfl, same⟩
  | some candidate =>
      obtain ⟨next, stood, -, became⟩ := mem_settle.1 (List.mem_of_find?_eq_some listed)
      have link : candidate.link = next.link := by rw [became]
      have chosen : candidate.gateway = selected := by simpa using List.find?_some listed
      have gateway : next.gateway = selected := (congrArg Link.gateway link).symm.trans chosen
      by_cases here : c.gateway = candidate.gateway
      · have stays : move destination (some { c with state := .active }) (some candidate) table =
            (.ok none, table) := if_pos here
        simp only [installed, stays]
        exact ⟨_, rfl, same⟩
      · rcases Lawful.replace_cases candidate.link.ifname none destination.net table with
          ⟨cause, left, answered, -⟩ | ⟨left, answered, changed⟩
        · cases (willing.replace_ok candidate.link.ifname none destination.net).symm.trans
            (congrArg Prod.fst answered)
        · have moves : move destination (some { c with state := .active }) (some candidate) table =
              (.ok (some (destination.change (some { c with state := .active }) (some candidate))),
                left) := by
            rw [move]
            simp only [answered]
            exact if_neg here
          simp only [installed, moves]
          refine ⟨_, rfl, next, stood, ?_, ?_⟩
          · rw [settle_settle, gateway]
          · exact (congrFun changed destination.net).trans (link ▸ Function.update_self ..)

end Roster

/-! ## What a first apply leaves, and probe rounds keep -/

/-- A destination that stands after a walk stood before it, if every visit sees to that. -/
theorem Router.of_roster?_walk {σ : Type} {router : Router} {visit : Group → σ → Group.Settled × σ}
    {table : σ}
    (known : ∀ group seen after net roster, (visit group seen).1.kept = some after →
      after.services.roster? net = some roster → ∃ before, group.services.roster? net = some before)
    {id : GroupId} {net : Prefix} {roster : Roster}
    (stands : (router.walk visit table).1.router.roster? id net = some roster) :
    ∃ before, router.roster? id net = some before := by
  obtain ⟨after, left, found⟩ := (roster?_eq_some_iff _ id net roster).1 stands
  obtain ⟨group, seen, stood, kept⟩ := of_get?_walk left
  obtain ⟨before, listed⟩ := known group seen after net roster kept found
  exact ⟨before, (router.roster?_eq_some_iff id net before).2 ⟨group, stood, listed⟩⟩

/-- The turn of a served destination in a probe round of its group. -/
theorem Group.served_ping {group : Group} {net : Prefix} {configured roster : Roster}
    {table : MemoryTable} (new : configured.New) (sound : configured.Sound)
    (willing : table.Willing) (found : group.services.roster? net = some roster)
    (served : configured.Served roster net table) (tallies : Tallies) :
    ∃ after left, (group.ping tallies table).1.kept = some after ∧
      after.services.roster? net = some left ∧
      configured.Served left net (group.ping tallies table).2 := by
  simp only [ping, Services.reroute]
  split
  · exact ⟨_, roster, rfl, found, served⟩
  · rename_i gateway _
    obtain ⟨seen, left, -, turn⟩ := group.services.sweep_turn
      (fun roster destination => roster.reroute destination gateway) table found
    have seen_willing : seen.Willing := (turn MemoryTable.Willing fun _ rival _ _ table =>
      MemoryTable.willing_kept.everywhere.reroute rival _ table gateway trivial).1 willing
    have turn : ∀ ifname, _ := fun ifname => turn (fun table => table.via? net = some ifname)
      fun other rival _ differs table =>
        (MemoryTable.elsewhere_kept net (some ifname)).reroute rival _ table gateway differs
    obtain ⟨c, member, same, routed⟩ := served
    have served : configured.Served roster (Destination.mk group.services.group net).net seen :=
      ⟨c, member, same, (turn c.link.ifname).1 routed⟩
    obtain ⟨after, became, next, listed, settled, carried⟩ :=
      served.reroute new sound seen_willing gateway
    exact ⟨_, after, rfl, left.trans became, next, listed, settled,
      (turn next.link.ifname).2 carried⟩

namespace Router

/-- The address of every peer is routed, whoever has the route. -/
def HostsRouted (router : Router) (table : MemoryTable) : Prop :=
  ∀ id group, router.groups.get? id = some group → ∀ peer ∈ group.peers.list,
    ∃ ifname, table.via? peer.host = some ifname

/-- What is left of a configuration that was applied: it serves its destinations and no others,
and the addresses of its peers are routed. -/
structure Upheld (configured now : Router) (table : MemoryTable) : Prop where
  willing : table.Willing
  settings : now.settings = configured.settings
  known : ∀ id net roster, now.roster? id net = some roster →
    ∃ before, configured.roster? id net = some before
  served : ∀ id net before, configured.roster? id net = some before →
    ∃ roster, now.roster? id net = some roster ∧ before.Served roster net table
  hosts : configured.HostsRouted table

variable {configured now : Router} {table : MemoryTable}

theorem New.roster (new : configured.New) {id : GroupId} {net : Prefix} {roster : Roster}
    (found : configured.roster? id net = some roster) : roster.New ∧ roster.Sound := by
  obtain ⟨group, stands, listed⟩ := (configured.roster?_eq_some_iff id net roster).1 found
  exact ⟨(new.groups id group stands).services net roster listed,
    ((new.sound id group stands).services net roster listed).1⟩

/-- A first apply without a failure leaves the configuration upheld. -/
theorem New.upheld (new : configured.New) (willing : table.Willing)
    (reported : ∀ status ∈ (configured.apply table).1.statuses, status.isOk = true) :
    Upheld configured (configured.apply table).2.1 (configured.apply table).2.2 := by
  rw [new.apply_eq] at reported ⊢
  refine ⟨MemoryTable.willing_kept.commitOnce configured table willing, rfl, ?_, ?_, ?_⟩
  · exact fun _ _ _ stands => of_roster?_walk
      (fun _ _ _ _ _ kept found => Group.of_roster?_commit kept found) stands
  · intro id net before found
    obtain ⟨destination, seen, rfl, left, told, turn⟩ := new.install_turn table found
    obtain ⟨after, became, c, member, settled, routed⟩ :=
      (new.roster found).1.served_install fun status own => reported status (told status own)
    refine ⟨after, left.trans became, c, member, settled, ?_⟩
    exact (turn _ _ (MemoryTable.routed_kept destination.net c.link.ifname)
      fun _ group _ => group.within_everywhere).2 routed
  · exact fun _ _ stands _ member => new.hosts_routed willing stands member

/-- A probe round keeps a configuration upheld. -/
theorem Upheld.ping (new : configured.New) (upheld : Upheld configured now table)
    (tallies : Tallies) :
    Upheld configured (now.ping tallies table).2.1 (now.ping tallies table).2.2 := by
  have served : ∀ id net before, configured.roster? id net = some before →
      ∃ roster, (now.ping tallies table).2.1.roster? id net = some roster ∧
        before.Served roster net (now.ping tallies table).2.2 := by
    intro id net before stood
    obtain ⟨roster, found, c, member, same, routed⟩ := upheld.served id net before stood
    obtain ⟨group, stands, listed⟩ := (now.roster?_eq_some_iff id net roster).1 found
    obtain ⟨seen, kept, -, turn⟩ := now.walk_turn (fun group => group.ping tallies) table stands
    have seen_willing : seen.Willing := (turn MemoryTable.Willing fun _ rival _ _ table =>
      MemoryTable.willing_kept.everywhere.pingGroup table rival tallies
        fun _ _ _ => trivial).1 upheld.willing
    have turn : ∀ ifname, _ := fun ifname => turn (fun table => table.via? net = some ifname)
      fun other rival rivalStands differs table =>
        (MemoryTable.elsewhere_kept net (some ifname)).pingGroup table rival tallies <| by
          intro there roster found here
          rw [here] at found
          -- nobody else serves this destination
          obtain ⟨first, was⟩ := upheld.known other net roster
            ((now.roster?_eq_some_iff other net roster).2 ⟨rival, rivalStands, found⟩)
          exact differs (new.unshared other id net first before was stood)
    obtain ⟨newly, sound⟩ := new.roster stood
    obtain ⟨after, left, became, there, next, listed, settled, carried⟩ := Group.served_ping newly
      sound seen_willing listed ⟨c, member, same, (turn c.link.ifname).1 routed⟩ tallies
    refine ⟨left, ?_, next, listed, settled, (turn next.link.ifname).2 carried⟩
    exact (roster?_eq_some_iff _ id net left).2 ⟨after, kept.trans became, there⟩
  refine ⟨MemoryTable.willing_kept.ping now tallies table upheld.willing, upheld.settings, ?_,
    served, ?_⟩
  · intro id net roster stands
    obtain ⟨before, found⟩ := of_roster?_walk
      (fun _ _ _ _ _ kept found => Group.of_roster?_ping kept found) stands
    exact upheld.known id net before found
  · intro id group stands peer member
    by_cases destination : ∃ other before, configured.roster? other peer.host = some before
    · obtain ⟨other, before, found⟩ := destination
      obtain ⟨roster, -, here⟩ := served other peer.host before found
      exact here.routed
    · obtain ⟨ifname, routed⟩ := upheld.hosts id group stands peer member
      refine ⟨ifname, now.walk_keeps table routed fun other rival rivalStands table =>
        (MemoryTable.elsewhere_kept peer.host (some ifname)).pingGroup table rival tallies ?_⟩
      rintro _ roster found rfl
      obtain ⟨before, was⟩ := upheld.known other peer.host roster
        ((now.roster?_eq_some_iff other peer.host roster).2 ⟨rival, rivalStands, found⟩)
      exact destination ⟨other, before, was⟩

theorem Upheld.rounds (new : configured.New) (upheld : Upheld configured now table)
    (rounds : List Tallies) :
    Upheld configured (run (rounds.map .ping) (now, table)).1
      (run (rounds.map .ping) (now, table)).2 := by
  refine run_induction (motive := fun state => Upheld configured state.1 state.2) _ upheld ?_
  intro op member state before
  obtain ⟨tallies, -, rfl⟩ := List.mem_map.1 member
  exact before.ping new tallies

/-! ## Applying it again -/

/-- A destination of a group has an active candidate on this interface. -/
def ActiveOn (router : Router) (id : GroupId) (net : Prefix) (ifname : String) : Prop :=
  ∃ roster c, router.roster? id net = some roster ∧ roster.installed? = some c ∧
    c.state = .active ∧ c.link.ifname = ifname

theorem activeOn_of_settled {router : Router} {id : GroupId} {net : Prefix} {before : Roster}
    (new : before.New) (sound : before.Sound) {c : Candidate} (member : c ∈ before.candidates)
    (found : router.roster? id net = some (before.settle (some c.gateway))) :
    router.ActiveOn id net c.link.ifname :=
  ⟨_, _, found, sound.installed?_settle member (new.stays member) new.enabled, rfl, rfl⟩

/-- Where a configuration is upheld, applying it anew changes no route and fails nowhere, and
every destination takes over its route. -/
theorem Upheld.again (new : configured.New) (upheld : Upheld configured now table) :
    let applied := configured.apply table
    applied.2.2.routes = table.routes ∧ (∀ status ∈ applied.1.statuses, status.isOk = true) ∧
      ∀ id net before, configured.roster? id net = some before → ∃ ifname,
        table.via? net = some ifname ∧ now.ActiveOn id net ifname ∧
          applied.2.1.ActiveOn id net ifname := by
  intro applied
  have once : applied = _ := new.apply_eq table
  rw [once]
  have keeps := MemoryTable.routes_kept table
  have within : configured.Within fun net => ∃ ifname, table.via? net = some ifname := by
    refine fun id group stands => ⟨upheld.hosts id group stands, fun net roster found => ?_⟩
    obtain ⟨left, -, served⟩ := upheld.served id net roster
      ((configured.roster?_eq_some_iff id net roster).2 ⟨group, stands, found⟩)
    exact served.routed
  refine ⟨?_, fun status told => ?_, fun id net before found => ?_⟩
  · exact keeps.commitOnce new within table rfl
  · obtain ⟨id, net, roster, destination, seen, found, rfl, told, reached⟩ :=
      new.reported table told
    have same := reached _ _ keeps within rfl
    obtain ⟨left, -, c, member, -, routed⟩ := upheld.served id destination.net roster found
    obtain ⟨own, -, -, made⟩ := Roster.install_of_routed (new.roster found).1.wanted member
      ((congrFun (MemoryTable.via?_congr same) destination.net).trans routed)
    rw [made] at told
    cases List.mem_singleton.1 told
    rfl
  · obtain ⟨newly, sound⟩ := new.roster found
    obtain ⟨roster, stands, c, member, rfl, routed⟩ := upheld.served id net before found
    obtain ⟨destination, seen, rfl, left, -, turn⟩ := new.install_turn table found
    have same := (turn _ _ keeps within).1 rfl
    obtain ⟨own, listed, name, made⟩ := Roster.install_of_routed newly.wanted member
      ((congrFun (MemoryTable.via?_congr same) destination.net).trans routed)
    rw [made] at left
    exact ⟨c.link.ifname, routed, activeOn_of_settled newly sound member stands,
      name ▸ activeOn_of_settled newly sound listed left⟩

end Router

/-- Let all requests to a router without groups be accepted and applied without a failure, and
probe rounds follow.  If the router then forgets its groups, is sent the requests again and
applies them, the routes stay as they are, no failure is reported, and every destination, what
was requested among them, has an active candidate on the interface that it was on before. -/
theorem adopted (settings : RouterSettings) (requests : List (Link × List Prefix))
    (rounds : List Tallies)
    (accepted : ∀ answer ∈ (Router.addEach requests { settings }).1, answer.result.isOk = true)
    (applied : ∀ status ∈ ((Router.addEach requests { settings }).2.apply
      ({} : MemoryTable)).1.statuses, status.isOk = true) :
    let first := (Router.addEach requests { settings }).2.apply ({} : MemoryTable)
    let before := run (rounds.map .ping) first.2
    let again := (Router.addEach requests before.1.flush).2.apply before.2
    again.2.2.routes = before.2.routes ∧ (∀ status ∈ again.1.statuses, status.isOk = true) ∧
      (∀ request ∈ requests, ∀ net ∈ request.2.tail,
        (before.1.roster? request.1.group net).isSome) ∧
      ∀ id net, (before.1.roster? id net).isSome → ∃ ifname, before.2.via? net = some ifname ∧
        before.1.ActiveOn id net ifname ∧ again.2.1.ActiveOn id net ifname := by
  intro first before again
  let configured := (Router.addEach requests { settings }).2
  have new : configured.New := (Router.new_fresh settings).addEach requests accepted
  have upheld : Router.Upheld configured before.1 before.2 :=
    (new.upheld (rfl : MemoryTable.Willing {}) applied).rounds new rounds
  have rebuilt : before.1.flush = { settings } := congrArg (fun settings => ({ settings } : Router))
    (upheld.settings.trans (Router.settings_addEach requests { settings }))
  have twice : again = configured.apply before.2 := by
    show (Router.addEach requests before.1.flush).2.apply before.2 = _
    rw [rebuilt]
  obtain ⟨routes, statuses, taken⟩ := upheld.again new
  rw [twice]
  refine ⟨routes, statuses, fun request member net asked => ?_, fun id net tracked => ?_⟩
  · obtain ⟨roster, found⟩ := Router.roster?_of_requested accepted member asked
    obtain ⟨now, stands, -⟩ := upheld.served request.1.group net roster found
    rw [stands]
    rfl
  · obtain ⟨now, stands⟩ := Option.isSome_iff_exists.1 tracked
    obtain ⟨roster, found⟩ := upheld.known id net now stands
    exact taken id net roster found

namespace Sample

/-- Two peers of a group, and a network that lies behind both. -/
def twoWays : List (Link × List Prefix) :=
  let first := link "wg1" 0x0A000001#32 1 1
  let second := link "wg2" 0x0A000002#32 2 1
  [(first, [first.host, lan]), (second, [second.host, lan])]

end Sample

/-- The network was installed through the first peer, is moved to the second one by a probe round,
and is found there, where a commit without a route would choose the first one again. -/
theorem adopted_where_moved :
    let settings : RouterSettings := { windowSize := 1 }
    let first := (Router.addEach Sample.twoWays { settings }).2.apply ({} : MemoryTable)
    let before := run ([Sample.racing 50 40].map .ping) first.2
    let again := (Router.addEach Sample.twoWays before.1.flush).2.apply before.2
    first.2.2.via? Sample.lan = some "wg1" ∧ before.2.via? Sample.lan = some "wg2" ∧
      again.2.2.routes = before.2.routes ∧ again.2.1.ActiveOn ⟨1⟩ Sample.lan "wg2" := by
  intro settings first before again
  have accepted : ∀ answer ∈ (Router.addEach Sample.twoWays { settings }).1,
      answer.result.isOk = true := by decide +kernel
  have applied : ∀ status ∈ ((Router.addEach Sample.twoWays { settings }).2.apply
      ({} : MemoryTable)).1.statuses, status.isOk = true := by decide +kernel
  have moved : before.2.via? Sample.lan = some "wg2" := by decide +kernel
  have tracked : (before.1.roster? ⟨1⟩ Sample.lan).isSome := by decide +kernel
  obtain ⟨routes, -, -, taken⟩ :=
    adopted settings Sample.twoWays [Sample.racing 50 40] accepted applied
  obtain ⟨ifname, carried, -, active⟩ := taken ⟨1⟩ Sample.lan tracked
  obtain rfl : ifname = "wg2" := Option.some.inj (carried.symm.trans moved)
  refine ⟨by decide +kernel, moved, ?_⟩
  simp only [again, before, first]
  exact ⟨routes, active⟩

end OverlayRouting
