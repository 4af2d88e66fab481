/-
# OverlayRouting.Proofs.Origin -- where the routes after an apply come from

A call changes the route of its own destination only, so the route of a prefix after an apply is
the one before it, or the one that the last turn which changed it has left.  `Group.Origin` says
what such a turn is: a peer of the group joins or leaves; a destination is committed, and that is
reported; or a destination is given up, since the group is left without peers.

Of these only the commit of a destination is reported (`Destination.Announced`).
-/
import OverlayRouting.Proofs.Errand
import OverlayRouting.Proofs.Passes
import OverlayRouting.Proofs.PeerMirror
import OverlayRouting.Proofs.Turn

namespace OverlayRouting

set_option autoImplicit false

/-! ## Calls -/

namespace MemoryTable

/-- The route that a call leaves at its destination, if it is made. -/
def leaves (call : Call) : Option Route :=
  match call.change with
  | .add | .replace => some ⟨call.ifname, none⟩
  | .remove => none

/-- A call leaves the route of its destination as it is, or it is made. -/
theorem get?_perform (call : Call) (table : MemoryTable) :
    let made := perform call none table
    made.2.routes.get? call.destination = table.routes.get? call.destination ∨
      (made.1 = .ok () ∧ made.2.routes.get? call.destination = leaves call) := by
  refine perform_cases (motive := fun made =>
    made.2.routes.get? call.destination = table.routes.get? call.destination ∨
      (made.1 = .ok () ∧ made.2.routes.get? call.destination = leaves call)) call none table
    (fun _ _ _ same => .inl (by rw [same])) (fun _ _ _ _ same => .inl (by rw [same])) ?_
  intro left made
  obtain ⟨change, ifname, net⟩ := call
  cases change with
  | add =>
      simp only [changed] at made
      split at made
      · exact .inr ⟨rfl, by rw [← Except.ok.inj made, SortedMap.get?_insert_self]; rfl⟩
      · split at made
        · exact .inl (by rw [← Except.ok.inj made])
        · cases made
  | remove =>
      simp only [changed] at made
      split at made
      · exact .inl (by rw [← Except.ok.inj made])
      · split at made
        · exact .inr ⟨rfl, by rw [← Except.ok.inj made, SortedMap.get?_erase, if_pos rfl]; rfl⟩
        · exact .inl (by rw [← Except.ok.inj made])
  | replace =>
      exact .inr ⟨rfl, by rw [← Except.ok.inj made, SortedMap.get?_insert_self]; rfl⟩

variable (ifname : String) (net : Prefix) (table : MemoryTable)

theorem get?_add :
    let made := RoutingTable.add ifname none net table
    made.2.routes.get? net = table.routes.get? net ∨
      (made.1 = .ok () ∧ made.2.routes.get? net = some ⟨ifname, none⟩) :=
  get?_perform ⟨.add, ifname, net⟩ table

theorem get?_remove :
    let made := RoutingTable.remove ifname net table
    made.2.routes.get? net = table.routes.get? net ∨
      (made.1 = .ok () ∧ made.2.routes.get? net = none) :=
  get?_perform ⟨.remove, ifname, net⟩ table

theorem get?_replace :
    let made := RoutingTable.replace ifname none net table
    made.2.routes.get? net = table.routes.get? net ∨
      (made.1 = .ok () ∧ made.2.routes.get? net = some ⟨ifname, none⟩) :=
  get?_perform ⟨.replace, ifname, net⟩ table

theorem make_eq_perform (call : Call) : call.make = perform call none := by
  obtain ⟨change, ifname, net⟩ := call
  cases change <;> rfl

end MemoryTable

/-! ## Peers -/

/-- The route that a turn of the peer leaves at its address. -/
inductive Peer.Places (peer : Peer) : Option Route → Prop
  | installed (joining : peer.state = .joining) : Places peer (some ⟨peer.link.ifname, none⟩)
  | withdrawn (leaving : peer.state = .leaving) : Places peer none

namespace Peers

theorem route_settle (peer : Peer) (table : MemoryTable) (net : Prefix) :
    let left := (settle peer table).2.routes.get? net
    left = table.routes.get? net ∨ (peer.host = net ∧ peer.Places left) := by
  cases pending : peer.pendingCall? with
  | none =>
      rw [settle_idle pending]
      exact .inl rfl
  | some call =>
      rw [(settle_asks pending table).1, MemoryTable.make_eq_perform]
      by_cases here : call.destination = net
      · subst here
        refine (MemoryTable.get?_perform call table).imp_right fun made => ?_
        simp only [made.2]
        cases state : peer.state with
        | joining =>
            simp only [Peer.pendingCall?, state, Option.some.injEq] at pending
            exact pending ▸ ⟨rfl, .installed state⟩
        | leaving =>
            simp only [Peer.pendingCall?, state, Option.some.injEq] at pending
            exact pending ▸ ⟨rfl, .withdrawn state⟩
        | active | disabled => simp [Peer.pendingCall?, state] at pending
      · exact .inl (MemoryTable.get?_perform_of_ne here none table)

/-- The route of a prefix after a commit of peers is the one before it, or a peer with this
address has placed it. -/
theorem route_settleAll (list : List Peer) (table : MemoryTable) (net : Prefix) :
    let left := (settleAll list table).2.routes.get? net
    left = table.routes.get? net ∨ ∃ peer ∈ list, peer.host = net ∧ peer.Places left := by
  induction list generalizing table with
  | nil => exact .inl rfl
  | cons peer rest ih =>
      rcases ih (settle peer table).2 with same | ⟨other, member, origin⟩
      · refine (route_settle peer table net).imp same.trans fun origin => ?_
        exact ⟨peer, List.mem_cons_self, origin.1, same.symm ▸ origin.2⟩
      · exact .inr ⟨other, List.mem_cons_of_mem _ member, origin⟩

end Peers

/-! ## Destinations -/

/-- A route of the destination is reported: as a change of the carrier, and unless it is gone, as
the status of its candidate. -/
inductive Destination.Announced (destination : Destination) (statuses : List RouteStatus)
    (changes : List ActiveChange) : Option Route → Prop
  | carried (previous : Option Candidate) (c : Candidate)
      (status : destination.status c (.ok ()) ∈ statuses)
      (change : destination.change previous (some c) ∈ changes) :
      Announced destination statuses changes (some ⟨c.link.ifname, none⟩)
  | withdrawn (c : Candidate) (change : destination.change (some c) none ∈ changes) :
      Announced destination statuses changes none

theorem Destination.Announced.mono {destination : Destination} {statuses more : List RouteStatus}
    {changes others : List ActiveChange} {route : Option Route}
    (announced : destination.Announced statuses changes route) (kept : statuses ⊆ more)
    (told : changes ⊆ others) : destination.Announced more others route := by
  cases announced with
  | carried previous c status change => exact .carried previous c (kept status) (told change)
  | withdrawn c change => exact .withdrawn c (told change)

/-- After a turn of the destination its route is as it was, or it was changed, and that is
reported. -/
def Destination.Reported (destination : Destination) (table : MemoryTable)
    (made : Settlement × MemoryTable) : Prop :=
  let left := made.2.routes.get? destination.net
  left = table.routes.get? destination.net ∨
    destination.Announced made.1.statuses made.1.changes left

namespace Roster

variable (roster : Roster) (destination : Destination) (table : MemoryTable)

theorem reported_install : destination.Reported table (roster.install destination table) := by
  unfold install
  split
  · exact .inl rfl
  · rename_i first _
    split
    · rename_i asked
      cases congrArg Prod.snd asked
      have made := MemoryTable.get?_add first.link.ifname destination.net table
      split <;> rename_i answered <;> rw [answered] at made
      · refine made.imp_right fun made => ?_
        simp only [made.2]
        exact .carried none first List.mem_cons_self List.mem_cons_self
      · exact .inl (made.resolve_right fun made => nomatch made.1)
    · rename_i asked
      cases congrArg Prod.snd asked
      split <;> exact .inl rfl

theorem reported_withdraw : destination.Reported table (roster.withdraw destination table) := by
  unfold withdraw
  split
  · exact .inl rfl
  · rename_i c _
    have made := MemoryTable.get?_remove c.link.ifname destination.net table
    split <;> rename_i answered <;> rw [answered] at made
    · refine made.imp_right fun made => ?_
      simp only [made.2]
      exact .withdrawn c List.mem_cons_self
    · exact .inl (made.resolve_right fun made => nomatch made.1)

omit roster in
/-- A move leaves a route as it is, or it is done, and gives the change from one carrier to the
other. -/
theorem route_move (old new : Option Candidate) :
    let moved := move destination old new table
    let left := moved.2.routes.get? destination.net
    left = table.routes.get? destination.net ∨
      (moved.1 = .ok (some (destination.change old new)) ∧
        left = new.map fun c => ⟨c.link.ifname, none⟩) := by
  cases old with
  | none =>
      cases new with
      | none => exact .inl rfl
      | some new =>
          refine (MemoryTable.get?_add new.link.ifname destination.net table).imp_right fun made => ?_
          exact ⟨by simp only [move, made.1]; rfl, made.2⟩
  | some old =>
      cases new with
      | none =>
          refine (MemoryTable.get?_remove old.link.ifname destination.net table).imp_right fun made => ?_
          exact ⟨by simp only [move, made.1]; rfl, made.2⟩
      | some new =>
          simp only [move]
          split
          · exact .inl rfl
          · refine (MemoryTable.get?_replace new.link.ifname destination.net table).imp_right
              fun made => ?_
            exact ⟨by simp only [made.1]; rfl, made.2⟩

theorem reported_reconfigure (selected : Option Address) (wanted : roster.Wanted) :
    destination.Reported table (roster.reconfigure destination selected table) := by
  obtain ⟨new, chosen⟩ := Option.isSome_iff_exists.1 (successor_isSome wanted selected)
  have moved := route_move destination table roster.installed? (some new)
  simp only [reconfigure, chosen]
  split <;> rename_i answered <;> rw [answered] at moved
  · refine moved.imp_right fun moved => ?_
    cases moved.1
    simp only [moved.2]
    exact .carried roster.installed? new List.mem_cons_self List.mem_cons_self
  · exact .inl (moved.resolve_right fun moved => by cases moved.1)

theorem reported_commit (selected : Option Address) :
    destination.Reported table (roster.commit destination selected table) :=
  commit_cases roster destination selected table (fun _ => .inl rfl)
    (fun _ _ _ => reported_install ..) (fun _ _ _ => reported_withdraw ..)
    (fun _ _ wanted => reported_reconfigure roster destination table selected wanted)

/-- Giving a destination up withdraws the route that it has, and nothing is reported. -/
theorem route_giveUp :
    let left := (roster.giveUp destination table).2.routes.get? destination.net
    left = table.routes.get? destination.net ∨ (roster.installed?.isSome ∧ left = none) := by
  unfold giveUp
  split
  · exact .inl rfl
  · simp only [withdraw]
    split
    · exact .inl rfl
    · rename_i c found
      have made := MemoryTable.get?_remove c.link.ifname destination.net table
      split <;> rename_i answered <;> rw [answered] at made
      · exact made.imp_right fun made => ⟨by rw [found]; rfl, made.2⟩
      · exact .inl (made.resolve_right fun made => nomatch made.1)

end Roster

namespace Services

variable (services : Services) (table : MemoryTable) (net : Prefix)

/-- The route of a prefix after an errand is the one before it, or the one that the turn of this
destination has left. -/
theorem route_sweep (errand : Errand) :
    let swept := services.sweep errand.visit table
    let left := swept.2.routes.get? net
    left = table.routes.get? net ∨ ∃ roster, ∃ seen : MemoryTable,
      services.roster? net = some roster ∧
      let made := errand.visit roster ⟨services.group, net⟩ seen
      left = made.2.routes.get? net ∧ left ≠ seen.routes.get? net ∧
        made.1.statuses ⊆ swept.1.statuses ∧ made.1.changes ⊆ swept.1.changes := by
  let visit := fun net roster => errand.visit (σ := MemoryTable) roster ⟨services.group, net⟩
  rcases services.rosters.last_turn visit (·.routes.get? net) table with
    same | ⟨key, roster, found, left, changed⟩
  · exact .inl same
  · by_cases here : key = net
    · subst here
      exact .inr ⟨roster, _, found, left, changed,
        services.rosters.reports_of_turn visit table found Settlement.statuses,
        services.rosters.reports_of_turn visit table found Settlement.changes⟩
    · -- the turn of another destination does not change this route
      refine absurd ?_ changed
      exact left.trans ((MemoryTable.route_elsewhere_kept net _).visit errand roster _ _ here rfl)

theorem route_commit (selected : Option Address) :
    let made := services.commit selected table
    let left := made.2.routes.get? net
    left = table.routes.get? net ∨ (services.roster? net).isSome ∧
      Destination.Announced ⟨services.group, net⟩ made.1.statuses made.1.changes left := by
  rcases services.route_sweep table net (.commit selected) with
    same | ⟨roster, seen, found, left, changed, statuses, changes⟩
  · exact .inl same
  · have reported := (roster.reported_commit ⟨services.group, net⟩ seen selected).resolve_left
      fun same => changed (left.trans same)
    refine .inr ⟨by rw [found]; rfl, ?_⟩
    exact Destination.Announced.mono (left ▸ reported) statuses changes

/-- Only what is installed is given up. -/
theorem route_withdrawAll :
    let left := (services.withdrawAll table).2.routes.get? net
    left = table.routes.get? net ∨
      (((services.roster? net).bind Roster.installed?).isSome ∧ left = none) := by
  rcases services.route_sweep table net .withdrawAll with
    same | ⟨roster, seen, found, left, changed, -⟩
  · exact .inl same
  · have given := (roster.route_giveUp ⟨services.group, net⟩ seen).resolve_left
      fun same => changed (left.trans same)
    exact .inr ⟨by rw [found]; exact given.1, left.trans given.2⟩

end Services

/-! ## Groups -/

namespace Group

/-- Where a route that was changed at the turn of a group comes from. -/
inductive Origin (group : Group) (seen : MemoryTable) (net : Prefix) : Option Route → Prop
  /-- A peer joins or leaves. -/
  | peer {route : Option Route} (peer : Peer) (member : peer ∈ group.peers.list)
      (here : peer.host = net) (places : peer.Places route) : Origin group seen net route
  /-- A destination is committed. -/
  | reported {route : Option Route} (listed : (group.services.roster? net).isSome)
      (announced : Destination.Announced ⟨group.services.group, net⟩ (group.commit seen).1.statuses
        (group.commit seen).1.changes route) : Origin group seen net route
  /-- A destination is given up, since no peers are left. -/
  | abandoned (alone : (group.settledPeers seen).isEmpty = true)
      (carried : (((group.sweptServices seen).1.services.roster? net).bind
        Roster.installed?).isSome) : Origin group seen net none

/-- The route of a prefix after a commit of a group is the one before it, or it has its origin in
this commit. -/
theorem route_commit (group : Group) (seen : MemoryTable) (net : Prefix) :
    let left := (group.commit seen).2.routes.get? net
    left = seen.routes.get? net ∨ group.Origin seen net left := by
  obtain ⟨statuses, changes⟩ := group.reports_commit seen
  have swept : (group.sweptServices seen).2.routes.get? net = seen.routes.get? net ∨
      group.Origin seen net ((group.sweptServices seen).2.routes.get? net) := by
    rcases group.services.route_commit (group.peers.commit seen).2.2 net
      (group.selectedGateway seen) with same | ⟨listed, announced⟩
    · refine (Peers.route_settleAll group.peers.list seen net).imp same.trans ?_
      rintro ⟨peer, member, here, places⟩
      exact .peer peer member here (show peer.Places _ from same.symm ▸ places)
    · exact .inr (.reported listed (by rw [statuses, changes]; exact announced))
  cases alone : (group.settledPeers seen).isEmpty with
  | false =>
      have ends : (group.commit seen).2 = (group.sweptServices seen).2 := by
        simp only [commit_eq, alone, Bool.false_eq_true, if_false]
      rwa [ends]
  | true =>
      have ends : (group.commit seen).2 = ((group.sweptServices seen).1.services.withdrawAll
          (group.sweptServices seen).2).2 := by
        simp only [commit_eq, alone, if_true]
      rw [ends]
      rcases (group.sweptServices seen).1.services.route_withdrawAll (group.sweptServices seen).2
        net with same | ⟨carried, left⟩
      · rwa [same]
      · simp only [left]
        exact .inr (.abandoned alone carried)

end Group

/-! ## The router -/

namespace Router

/-- The route of a prefix after an apply is the one before it, or it has its origin in the commit
of some group in one of the passes. -/
theorem route_apply (router : Router) (table : MemoryTable) (net : Prefix) :
    let left := (router.apply table).2.2.routes.get? net
    left = table.routes.get? net ∨ ∃ start ∈ passStarts mostPasses (router, table), ∃ id group,
      start.1.groups.get? id = some group ∧
        group.Origin (start.1.turnOf id start.2) net left := by
  rcases last_changing_pass (·.routes.get? net) router table with
    same | ⟨start, begun, left, changed⟩
  · exact .inl same
  · rcases start.1.groups.last_turn (fun _ group table => Group.commit group table)
      (·.routes.get? net) start.2 with same | ⟨id, group, found, last, differs⟩
    · exact absurd (left.trans same) changed
    · have origin := (group.route_commit _ net).resolve_left fun same => differs (last.trans same)
      have here := left.trans last
      exact .inr ⟨start, begun, id, group, found, here ▸ origin⟩

end Router

end OverlayRouting
