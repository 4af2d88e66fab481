/-
# OverlayRouting.Proofs.Scope -- the prefixes that a router touches

A prefix comes to a router in one way only: a request names it as a destination, or as the
address of its link, and the router does not reject it.  Commits, probe rounds, withdrawals and
admissions after a conflict work on the entries there are (`Group.Within.commit`,
`Group.Within.ping`, `Group.steady_within`).  So if whatever passes the admission lies in a
scope, every group stays within that scope, and the table is never called for a prefix outside
of it (`scoped_run`).

The prefixes that are no default route are the scope of a router that is not a VPN client
(`no_default_route`).
-/
import OverlayRouting.Proofs.Admission
import OverlayRouting.Proofs.Closing
import OverlayRouting.Proofs.Requests
import OverlayRouting.Proofs.Resolve

namespace OverlayRouting

set_option autoImplicit false

variable {scope : Prefix → Prop}

/-! ## Entries in a scope -/

theorem Services.of_roster?_remove {services : Services} {link : Link} {net other : Prefix}
    {left : Roster} (stands : (services.remove link net).2.roster? other = some left) :
    ∃ roster, services.roster? other = some roster := by
  unfold remove at stands
  split at stands
  · exact ⟨left, stands⟩
  · rename_i roster found
    simp only [roster?] at stands found ⊢
    split at stands
    · rw [SortedMap.get?_erase] at stands
      split at stands
      · cases stands
      · exact ⟨left, stands⟩
    · rw [SortedMap.get?_insert] at stands
      split at stands
      · rename_i here
        exact ⟨roster, rank_inj here ▸ found⟩
      · exact ⟨left, stands⟩

/-- Requests bring in what they name, and nothing else does. -/
theorem Group.steady_within (scope : Prefix → Prop) :
    Group.Steady (fun link net => scope link.host ∧ scope net) fun _ group => group.Within scope where
  empty _ _ _ := ⟨nofun, fun _ _ stands => nomatch stands⟩
  addPeer group link net disabled permitted within := by
    refine ⟨fun peer member => ?_, within.services⟩
    simp only [Peers.add] at member
    split at member
    · exact within.peers peer member
    · rcases List.mem_append.1 member with stood | added
      · exact within.peers peer stood
      · cases List.mem_singleton.1 added
        exact permitted.1
  addService group link net disabled permitted within := by
    refine ⟨within.peers, fun other roster stands => ?_⟩
    rw [Services.roster?_add] at stands
    split at stands
    · rename_i here
      exact here ▸ permitted.2
    · exact within.services other roster stands
  removePeer _ group gateway within := by
    refine ⟨fun left member => ?_, within.services⟩
    obtain ⟨peer, stood, same, -⟩ := Peers.mem_remove member
    rw [Peer.host, same]
    exact within.peers peer stood
  removeService _ group link net within := by
    refine ⟨within.peers, fun other left stands => ?_⟩
    obtain ⟨roster, stood⟩ := Services.of_roster?_remove stands
    exact within.services other roster stood
  enablePeer _ group net within := by
    refine ⟨fun after member => ?_, within.services⟩
    obtain ⟨peer, stood, rfl | ⟨-, rfl⟩⟩ := Peers.mem_enable member
    · exact within.peers after stood
    · exact within.peers peer stood
  enableService _ group net within := by
    refine ⟨within.peers, fun other after stands => ?_⟩
    rcases Services.of_roster?_enable stands with ⟨same, -⟩ | ⟨rfl, roster, stood, -⟩
    · exact within.services other after same
    · exact within.services _ roster stood
  margins _ group margins within := ⟨within.peers, within.services⟩

section Visits

variable {σ : Type} [RoutingTable σ] {services : Services} {group after : Group} {net : Prefix}
  {roster : Roster} {table : σ}

theorem Services.of_roster?_reroute {selected : Option Address}
    (stands : (services.reroute selected table).2.1.roster? net = some roster) :
    ∃ before, services.roster? net = some before := by
  unfold reroute at stands
  split at stands
  · exact ⟨roster, stands⟩
  · rename_i gateway
    have stands : (services.sweep (fun roster destination =>
        roster.reroute destination gateway) table).1.services.roster? net = some roster := stands
    obtain ⟨before, -, stood, -⟩ := of_roster?_sweep stands
    exact ⟨before, stood⟩

theorem Group.of_roster?_commit (kept : (group.commit table).1.kept = some after)
    (stands : after.services.roster? net = some roster) :
    ∃ before, group.services.roster? net = some before := by
  have swept : ∀ left, (group.sweptServices table).1.services.roster? net = some left →
      ∃ before, group.services.roster? net = some before := fun left found => by
    obtain ⟨before, -, stood, -⟩ := Services.of_roster?_sweep found
    exact ⟨before, stood⟩
  rcases (kept_commit kept).2 with same | withdrawn
  · exact swept roster (same ▸ stands)
  · rw [withdrawn] at stands
    obtain ⟨left, -, found, -⟩ := Services.of_roster?_sweep stands
    exact swept left found

theorem Group.of_roster?_ping {tallies : Tallies}
    (kept : (group.ping tallies table).1.kept = some after)
    (stands : after.services.roster? net = some roster) :
    ∃ before, group.services.roster? net = some before := by
  rw [(kept_ping kept).2] at stands
  exact Services.of_roster?_reroute stands

theorem Group.Within.commit (within : group.Within scope)
    (kept : (group.commit table).1.kept = some after) : after.Within scope := by
  refine ⟨fun peer member => ?_, fun net roster stands => ?_⟩
  · rw [(kept_commit kept).1, settledPeers, Peers.list_select] at member
    obtain ⟨before, stood, seen, settled⟩ := Peers.mem_commit group.peers table member
    rw [Peer.host, (Peers.claims_settle settled).2]
    exact within.peers before stood
  · obtain ⟨before, stood⟩ := of_roster?_commit kept stands
    exact within.services net before stood

theorem Group.Within.ping (within : group.Within scope) {tallies : Tallies}
    (kept : (group.ping tallies table).1.kept = some after) : after.Within scope := by
  refine ⟨fun peer member => ?_, fun net roster stands => ?_⟩
  · rw [(kept_ping kept).1, Peers.list_select] at member
    obtain ⟨before, stood, rfl⟩ := List.mem_map.1 member
    rw [Peer.host, Peers.link_measured]
    exact within.peers before stood
  · obtain ⟨before, stood⟩ := of_roster?_ping kept stands
    exact within.services net before stood

end Visits

/-! ## Runs -/

namespace Router

/-- Every group is within the scope. -/
abbrev Within (scope : Prefix → Prop) : Router → Prop := Each fun _ group => group.Within scope

theorem scope_of_closing {router : Router} (within : router.Within scope) {holding : Holding}
    (member : holding ∈ router.closing) : scope holding.net := by
  obtain ⟨id, group, stands, entry⟩ :=
    (router.mem_holdings_iff holding).1 ((router.mem_closing_iff holding).1 member)
  obtain ⟨peers, services⟩ := within id group stands
  rcases entry with ⟨peer, listed, held⟩ | ⟨net, roster, found, held⟩
  · obtain ⟨-, rfl⟩ := (peer.mem_holdings_iff holding).1 held
    exact peers peer listed
  · obtain ⟨-, c, -, rfl⟩ := (roster.mem_holdings_iff net holding).1 held
    exact services net roster found

end Router

section Runs

variable {σ : Type} [RoutingTable σ] {holds : σ → Prop}

open RoutingTable (KeepsWithin)

/-- Whatever a request names and the router does not reject is in the scope, and what happens
outside keeps the property of the table. -/
def Operation.Inside (scope : Prefix → Prop) (holds : σ → Prop) (vpnClient : Bool) : Operation σ → Prop
  | .add link nets => scope link.host ∧ ∀ net ∈ nets, (net.isDefault && !vpnClient) = false → scope net
  | .outside change => ∀ table, holds table → holds (change table)
  | _ => True

/-- The groups are within the scope, and the table has the property. -/
structure Scoped (scope : Prefix → Prop) (holds : σ → Prop) (state : Router × σ) : Prop where
  within : state.1.Within scope
  table : holds state.2

theorem Operation.scoped_step (keeps : KeepsWithin scope holds) {op : Operation σ}
    {state : Router × σ} (inside : op.Inside scope holds state.1.settings.vpnClient)
    (before : Scoped scope holds state) : Scoped scope holds (op.step state) := by
  obtain ⟨router, table⟩ := state
  obtain ⟨within, stands⟩ := before
  have steady := Group.steady_within scope
  have forgotten : router.flush.Within scope := Router.each_fresh _ router.settings
  cases op with
  | add link nets =>
      exact ⟨steady.add within link nets fun net named admitted =>
        ⟨inside.1, inside.2 net named admitted⟩, stands⟩
  | remove link nets => exact ⟨steady.remove within link nets, stands⟩
  | apply =>
      refine Router.apply_induction (motive := Scoped scope holds) router table ⟨within, stands⟩ ?_ ?_
      · refine fun router table before => ⟨?_, ?_⟩
        · exact before.within.walk fun _ _ _ _ within => within.commit
        · exact router.walk_keeps table before.table fun id group found table =>
            keeps.commitGroup table group (before.within id group found)
      · exact fun router table before => ⟨steady.resolve before.within, before.table⟩
  | ping tallies =>
      refine ⟨within.walk fun _ _ _ _ within => within.ping, ?_⟩
      exact router.walk_keeps table stands fun id group found table =>
        keeps.pingGroup table group tallies (within id group found).services
  | setMargins margins => exact ⟨steady.setMargins within margins, stands⟩
  | flush => exact ⟨forgotten, stands⟩
  | close =>
      simp only [step, Router.close_eq]
      refine ⟨forgotten, ?_⟩
      split
      · exact keeps.withdrawEach _ (fun _ => Router.scope_of_closing within) table stands
      · exact stands
  | outside change => exact ⟨within, inside table stands⟩

theorem vpnClient_run (ops : List (Operation σ)) (start : Router × σ) :
    (run ops start).1.settings.vpnClient = start.1.settings.vpnClient := by
  have same := settings_run ops start start.1.settings.margins
  exact (congrArg RouterSettings.vpnClient same :)

/-- If whatever passes the admission is in a scope, the router stays in it. -/
theorem scoped_run (keeps : KeepsWithin scope holds) (settings : RouterSettings) {table : σ}
    (stands : holds table) (ops : List (Operation σ))
    (inside : ∀ op ∈ ops, op.Inside scope holds settings.vpnClient) :
    Scoped scope holds (run ops (Router.fresh settings table)) := by
  have begins : Scoped scope holds (Router.fresh settings table) :=
    ⟨Router.each_fresh _ settings, stands⟩
  refine (run_induction (motive := fun state =>
    state.1.settings.vpnClient = settings.vpnClient ∧ Scoped scope holds state) ops
    ⟨rfl, begins⟩ fun op member state before => ?_).2
  obtain ⟨same, before⟩ := before
  refine ⟨(vpnClient_run [op] state).trans same, op.scoped_step keeps ?_ before⟩
  rw [same]
  exact inside op member

end Runs

/-! ## Default routes -/

/-- A table that recorded no change of a default route records none in a call about another
prefix. -/
theorem Recorded.keeps_no_default {σ : Type} [RoutingTable σ] :
    RoutingTable.KeepsWithin (fun net => net.length ≠ 0)
      fun table : Recorded σ => ∀ entry ∈ table.record, entry.1.destination.length ≠ 0 where
  add _ _ _ _ here before := List.forall_mem_cons.2 ⟨here, before⟩
  remove _ _ _ here before := List.forall_mem_cons.2 ⟨here, before⟩
  replace _ _ _ _ here before := List.forall_mem_cons.2 ⟨here, before⟩
  carrier _ _ _ before := before

theorem Prefix.length_host_ne (address : Address) : (host address).length ≠ 0 := by
  simpa [isDefault] using host_not_default address

/-- Nobody else writes into the record of the table. -/
def Operation.Unforged {σ : Type} : Operation (Recorded σ) → Prop
  | .outside change => ∀ table, (change table).record = table.record
  | _ => True

/-- A router that is not a VPN client never asks its table to change a default route, whatever
the table answers, and has neither a peer nor a destination for one; a request for one is
refused and changes nothing. -/
theorem no_default_route {σ : Type} [RoutingTable σ] (settings : RouterSettings)
    (closed : settings.vpnClient = false) (table : σ) (ops : List (Operation (Recorded σ)))
    (unforged : ∀ op ∈ ops, op.Unforged) :
    let state := run ops (Router.fresh settings ⟨table, []⟩)
    (∀ entry ∈ state.2.record, entry.1.destination.length ≠ 0) ∧
      (∀ id group, state.1.groups.get? id = some group →
        (∀ peer ∈ group.peers.list, peer.host.length ≠ 0) ∧
          ∀ net, net.length = 0 → group.services.roster? net = none) ∧
      ∀ link place net, net.length = 0 →
        state.1.accept link place net = (⟨net, some (.defaultRoute net)⟩, state.1) := by
  intro state
  have kept : Scoped (fun net => net.length ≠ 0)
      (fun table : Recorded σ => ∀ entry ∈ table.record, entry.1.destination.length ≠ 0) state := by
    refine scoped_run Recorded.keeps_no_default settings (List.forall_mem_nil _) ops
      fun op member => ?_
    cases op with
    | add link nets =>
        refine ⟨Prefix.length_host_ne link.gateway, fun net _ admitted => ?_⟩
        simpa [closed, Prefix.isDefault] using admitted
    | outside change =>
        intro table clean
        rw [unforged _ member table]
        exact clean
    | _ => trivial
  refine ⟨kept.table, fun id group stands => ?_, fun link place net default => ?_⟩
  · obtain ⟨peers, services⟩ := kept.within id group stands
    refine ⟨peers, fun net default => ?_⟩
    by_contra tracked
    obtain ⟨roster, found⟩ := Option.ne_none_iff_exists'.1 tracked
    exact services net roster found default
  · have vpnClient : state.1.settings.vpnClient = false :=
      (vpnClient_run ops (Router.fresh settings ⟨table, []⟩)).trans closed
    simp [Router.accept, Router.rejects, Prefix.isDefault, default, vpnClient]

namespace Sample

/-- The default route of IPv4. -/
def everything : Prefix := ⟨.v4 0#32, 0, by decide⟩

/-- Requests in which a default route stands first, in the middle and last, one of them by a
group that is kept out of the network at first. -/
def greedy : List (Operation (Recorded MemoryTable)) :=
  let first := link "wg1" 0x0A000001#32 1 1
  let second := link "wg2" 0x0A000002#32 2 2
  [.add first [first.host, everything, lan, everything], .add first [everything, lan],
    .add second [second.host, lan, everything], .apply, .ping ∅,
    .remove first [first.host, everything, lan], .apply, .apply, .close]

end Sample

/-- Of what they ask for, everything is installed and withdrawn but the default routes. -/
theorem no_default_route_for_greedy :
    let settings : RouterSettings := { cleanupOnExit := true }
    (run Sample.greedy (Router.fresh settings ⟨{}, []⟩)).2.record.length = 8 ∧
      ∀ entry ∈ (run Sample.greedy (Router.fresh settings ⟨{}, []⟩)).2.record,
        entry.1.destination.length ≠ 0 := by
  intro settings
  have unforged : ∀ op ∈ Sample.greedy, op.Unforged := by
    simp only [Sample.greedy, List.forall_mem_cons, Operation.Unforged, true_and]
    exact List.forall_mem_nil _
  exact ⟨by decide +kernel, (no_default_route settings rfl ({} : MemoryTable) Sample.greedy unforged).1⟩

end OverlayRouting
