/-
# OverlayRouting.Proofs.Keeps -- what every call of a table keeps

The router touches its table only by calls, and each of them is about a prefix that it has an
entry for: a peer's own address, or a destination (`Group.Within`).  So a property of tables
that every call about such a prefix keeps is kept by every visit of an entry and every walk
(`RoutingTable.KeepsWithin`).

A property that every call keeps, whatever it is about, is kept by every commit and every run in
which nobody else touches the table (`RoutingTable.Keeps`).
-/
import OverlayRouting.Proofs.Apply
import OverlayRouting.RoutingTable.Memory

namespace OverlayRouting

set_option autoImplicit false

variable {σ : Type} [RoutingTable σ]

/-- Every call keeps the property. -/
structure RoutingTable.Keeps (holds : σ → Prop) : Prop where
  add : ∀ ifname gateway net table, holds table →
    holds (RoutingTable.add ifname gateway net table).2
  remove : ∀ ifname net table, holds table → holds (RoutingTable.remove ifname net table).2
  replace : ∀ ifname gateway net table, holds table →
    holds (RoutingTable.replace ifname gateway net table).2
  carrier : ∀ net table, holds table → holds (RoutingTable.carrier net table).2

/-- Adding routes to these prefixes, and asking who carries them, keeps the property. -/
structure RoutingTable.AddsKeep (scope : Prefix → Prop) (holds : σ → Prop) : Prop where
  add : ∀ ifname gateway net table, scope net → holds table →
    holds (RoutingTable.add ifname gateway net table).2
  carrier : ∀ net table, scope net → holds table → holds (RoutingTable.carrier net table).2

/-- Every call about one of these prefixes keeps the property. -/
structure RoutingTable.KeepsWithin (scope : Prefix → Prop) (holds : σ → Prop) : Prop
    extends RoutingTable.AddsKeep scope holds where
  remove : ∀ ifname net table, scope net → holds table →
    holds (RoutingTable.remove ifname net table).2
  replace : ∀ ifname gateway net table, scope net → holds table →
    holds (RoutingTable.replace ifname gateway net table).2

/-- The prefixes that a group has an entry for are all in the scope. -/
structure Group.Within (scope : Prefix → Prop) (group : Group) : Prop where
  peers : ∀ peer ∈ group.peers.list, scope peer.host
  services : ∀ net roster, group.services.roster? net = some roster → scope net

theorem Group.within_everywhere (group : Group) : group.Within fun _ => True :=
  ⟨fun _ _ => trivial, fun _ _ _ => trivial⟩

omit [RoutingTable σ] in
theorem Services.sweep_keeps {holds : σ → Prop} {visit : Roster → Destination → σ → Settlement × σ}
    (services : Services) (table : σ) (before : holds table)
    (each : ∀ net roster, services.roster? net = some roster → ∀ table, holds table →
      holds (visit roster ⟨services.group, net⟩ table).2) :
    holds (services.sweep visit table).2 :=
  Entries.traverse_keeps_of_mem _ table before fun entry member =>
    each entry.1 entry.2 ((services.rosters.mem_entries_iff entry.1 entry.2).1 member)

omit [RoutingTable σ] in
theorem Router.walk_keeps {holds : σ → Prop} {visit : Group → σ → Group.Settled × σ}
    (router : Router) (table : σ) (before : holds table)
    (each : ∀ id group, router.groups.get? id = some group → ∀ table, holds table →
      holds (visit group table).2) :
    holds (router.walk visit table).2 :=
  Entries.traverse_keeps_of_mem _ table before fun entry member =>
    each entry.1 entry.2 ((router.groups.mem_entries_iff entry.1 entry.2).1 member)

/-! ## Calls in a scope -/

/-- A peer that joins only adds a route. -/
theorem RoutingTable.AddsKeep.settle {scope : Prefix → Prop} {holds : σ → Prop}
    (keeps : AddsKeep scope holds) (peer : Peer) (table : σ) (joining : peer.state = .joining)
    (here : scope peer.host) (before : holds table) : holds (Peers.settle peer table).2 := by
  have after := keeps.add peer.link.ifname none peer.host table here before
  simp only [Peers.settle, joining]
  split <;> rename_i asked <;> rw [asked] at after <;> exact after

/-- An installation only adds a route. -/
theorem RoutingTable.AddsKeep.install {scope : Prefix → Prop} {holds : σ → Prop}
    (keeps : AddsKeep scope holds) (roster : Roster) (destination : Destination) (table : σ)
    (here : scope destination.net) (before : holds table) :
    holds (roster.install destination table).2 := by
  unfold Roster.install
  split
  · exact before
  · rename_i first found
    have seen := keeps.carrier destination.net table here before
    split <;> rename_i asked <;> rw [asked] at seen
    · have after := keeps.add first.link.ifname none destination.net _ here seen
      split <;> rename_i added <;> rw [added] at after <;> exact after
    · split <;> exact seen

namespace RoutingTable.KeepsWithin

variable {scope : Prefix → Prop} {holds : σ → Prop} (keeps : KeepsWithin scope holds)

include keeps

/-! ### One entry -/

theorem settle (peer : Peer) (table : σ) (here : scope peer.host) (before : holds table) :
    holds (Peers.settle peer table).2 := by
  cases state : peer.state with
  | joining => exact keeps.toAddsKeep.settle peer table state here before
  | leaving =>
      have after := keeps.remove peer.link.ifname peer.host table here before
      simp only [Peers.settle, state]
      split <;> rename_i asked <;> rw [asked] at after <;> exact after
  | active | disabled =>
      simp only [Peers.settle, state]
      exact before

variable (roster : Roster) (destination : Destination) (table : σ)

theorem withdraw (here : scope destination.net) (before : holds table) :
    holds (roster.withdraw destination table).2 := by
  unfold Roster.withdraw
  split
  · exact before
  · rename_i c found
    have after := keeps.remove c.link.ifname destination.net table here before
    split <;> rename_i asked <;> rw [asked] at after <;> exact after

theorem move (old new : Option Candidate) (here : scope destination.net) (before : holds table) :
    holds (Roster.move destination old new table).2 := by
  unfold Roster.move
  simp only
  split
  · exact before
  · exact keeps.remove _ _ table here before
  · exact keeps.add _ _ _ table here before
  · split
    · exact before
    · exact keeps.replace _ _ _ table here before

theorem commit (selected : Option Address) (here : scope destination.net) (before : holds table) :
    holds (roster.commit destination selected table).2 := by
  refine Roster.commit_cases (motive := fun result => holds result.2) roster destination selected
    table ?_ ?_ ?_ ?_
  · exact fun _ => before
  · exact fun _ _ _ => keeps.install roster destination table here before
  · exact fun _ _ _ => keeps.withdraw roster destination table here before
  · intro _ _ _
    have after :=
      keeps.move destination table roster.installed? (roster.successor selected) here before
    simp only [Roster.reconfigure]
    split <;> rename_i moved <;> rw [moved] at after <;> exact after

theorem reroute (selected : Address) (here : scope destination.net) (before : holds table) :
    holds (roster.reroute destination selected table).2 := by
  unfold Roster.reroute
  split
  · exact before
  · split
    · exact before
    · rename_i candidate found
      have after := keeps.move destination table roster.installed? (some candidate) here before
      generalize Roster.move destination roster.installed? (some candidate) table = moved at after
      obtain ⟨outcome, left⟩ := moved
      cases outcome with
      | error cause => exact after
      | ok change => cases change <;> exact after

theorem giveUp (here : scope destination.net) (before : holds table) :
    holds (roster.giveUp destination table).2 := by
  unfold Roster.giveUp
  split
  · exact before
  · exact keeps.withdraw roster destination table here before

/-! ### Walks -/

omit roster destination in
theorem settleAll (list : List Peer) (here : ∀ peer ∈ list, scope peer.host)
    (before : holds table) : holds (Peers.settleAll list table).2 := by
  induction list generalizing table with
  | nil => exact before
  | cons peer rest ih =>
      exact ih _ (fun other member => here other (List.mem_cons_of_mem _ member))
        (keeps.settle peer table (here peer List.mem_cons_self) before)

omit roster destination in
theorem commitServices (services : Services) (selected : Option Address)
    (within : ∀ net roster, services.roster? net = some roster → scope net) (before : holds table) :
    holds (services.commit selected table).2 :=
  services.sweep_keeps table before fun net roster found table =>
    keeps.commit roster _ table selected (within net roster found)

omit roster destination in
theorem sweptServices (group : Group) (within : group.Within scope) (before : holds table) :
    holds (group.sweptServices table).2 :=
  keeps.commitServices _ group.services _ within.services
    (keeps.settleAll table group.peers.list within.peers before)

omit roster destination in
theorem withdrawAll (services : Services)
    (within : ∀ net roster, services.roster? net = some roster → scope net) (before : holds table) :
    holds (services.withdrawAll table).2 :=
  services.sweep_keeps table before fun net roster found table =>
    keeps.giveUp roster _ table (within net roster found)

omit roster destination in
theorem commitGroup (group : Group) (within : group.Within scope) (before : holds table) :
    holds (group.commit table).2 := by
  have swept := keeps.sweptServices table group within before
  rw [Group.commit_eq]
  simp only
  split
  · refine keeps.withdrawAll _ _ (fun net roster found => ?_) swept
    obtain ⟨stood, -, listed, -⟩ := Services.of_roster?_sweep found
    exact within.services net stood listed
  · exact swept

omit roster destination in
/-- A probe round calls the table for destinations only. -/
theorem pingGroup (group : Group) (tallies : Tallies)
    (within : ∀ net roster, group.services.roster? net = some roster → scope net)
    (before : holds table) : holds (group.ping tallies table).2 := by
  simp only [Group.ping, Services.reroute]
  split
  · exact before
  · rename_i gateway _
    show holds (group.services.sweep
      (fun roster destination => roster.reroute destination gateway) table).2
    exact group.services.sweep_keeps table before fun net roster found table =>
      keeps.reroute roster _ table gateway (within net roster found)

end RoutingTable.KeepsWithin

/-! ## Calls anywhere -/

namespace RoutingTable.Keeps

variable {holds : σ → Prop} (keeps : Keeps holds)

include keeps

theorem everywhere : KeepsWithin (fun _ => True) holds where
  add ifname gateway net table _ := keeps.add ifname gateway net table
  remove ifname net table _ := keeps.remove ifname net table
  replace ifname gateway net table _ := keeps.replace ifname gateway net table
  carrier net table _ := keeps.carrier net table

theorem settle (peer : Peer) (table : σ) (before : holds table) :
    holds (Peers.settle peer table).2 :=
  keeps.everywhere.settle peer table trivial before

theorem commit (roster : Roster) (destination : Destination) (selected : Option Address) (table : σ)
    (before : holds table) : holds (roster.commit destination selected table).2 :=
  keeps.everywhere.commit roster destination table selected trivial before

theorem giveUp (roster : Roster) (destination : Destination) (table : σ) (before : holds table) :
    holds (roster.giveUp destination table).2 :=
  keeps.everywhere.giveUp roster destination table trivial before

theorem settleAll (list : List Peer) (table : σ) (before : holds table) :
    holds (Peers.settleAll list table).2 :=
  keeps.everywhere.settleAll table list (fun _ _ => trivial) before

theorem sweptServices (group : Group) (table : σ) (before : holds table) :
    holds (group.sweptServices table).2 :=
  keeps.everywhere.sweptServices table group group.within_everywhere before

theorem commitGroup (group : Group) (table : σ) (before : holds table) :
    holds (group.commit table).2 :=
  keeps.everywhere.commitGroup table group group.within_everywhere before

/-! ## Runs -/

theorem commitOnce (router : Router) (table : σ) (before : holds table) :
    holds (router.commitOnce table).2 :=
  Entries.traverse_keeps _ _ before fun _ group table => keeps.commitGroup group table

theorem apply (router : Router) (table : σ) (before : holds table) :
    holds (router.apply table).2.2 :=
  Router.apply_induction (motive := fun state => holds state.2) router table before
    (fun router table => keeps.commitOnce router table) (fun _ _ before => before)

theorem ping (router : Router) (tallies : Tallies) (table : σ) (before : holds table) :
    holds (router.ping tallies table).2.2 :=
  Entries.traverse_keeps _ _ before fun _ group table =>
    keeps.everywhere.pingGroup table group tallies fun _ _ _ => trivial

end RoutingTable.Keeps

/-- A table in memory goes on refusing what it was told to refuse. -/
theorem MemoryTable.failing_kept (nets : List Prefix) :
    RoutingTable.Keeps fun table : MemoryTable => table.failing = nets where
  add _ _ _ table same := (perform_failing _ _ table).trans same
  remove _ _ table same := (perform_failing _ _ table).trans same
  replace _ _ _ table same := (perform_failing _ _ table).trans same
  carrier _ _ same := same

end OverlayRouting
