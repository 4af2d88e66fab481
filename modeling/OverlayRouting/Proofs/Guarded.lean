/-
# OverlayRouting.Proofs.Guarded -- routes that only their owner can touch

A table guards the route to a destination through an interface if only a call that names this
interface, or one that replaces the route of this very destination, can change it
(`RoutingTable.Guards`).  The table in memory guards each of its routes, to the last field
(`MemoryTable.guards`), and a table that fails now and then guards what its inner one does.

An entry of the router that does not use the interface, and has nothing installed for the
destination, cannot come to have it: an `add` is refused, what is found in the table is no
candidate of its own, and nothing is replaced where nothing is installed.  So each visit of it
leaves the route as it is (`Peers.settle_avoids`, `Roster.commit_avoids`,
`Roster.reroute_avoids`, `Roster.giveUp_avoids`).
-/
import OverlayRouting.Proofs.Sound
import OverlayRouting.Proofs.Table

namespace OverlayRouting

set_option autoImplicit false

/-! ## Guarded routes -/

/-- Calls for other interfaces and other destinations keep the route to `net` through
`ifname`, and the table knows its interface. -/
structure RoutingTable.Guards {σ : Type} [RoutingTable σ] (net : Prefix) (ifname : String)
    (holds : σ → Prop) : Prop where
  carrier : ∀ other table, holds table → holds (RoutingTable.carrier other table).2
  carries : ∀ table, holds table → (RoutingTable.carrier net table).1 = some ifname
  add : ∀ own gateway other table, own ≠ ifname → holds table →
    holds (RoutingTable.add own gateway other table).2
  taken : ∀ own gateway table, own ≠ ifname → holds table →
    ∃ cause, (RoutingTable.add own gateway net table).1 = .error cause
  remove : ∀ own other table, own ≠ ifname → holds table →
    holds (RoutingTable.remove own other table).2
  replace : ∀ own gateway other table, other ≠ net → holds table →
    holds (RoutingTable.replace own gateway other table).2

namespace MemoryTable

variable {net : Prefix} {route : Route} {table : MemoryTable}

/-- A call keeps a route if the routes that it would make have it. -/
theorem route_of_perform (call : Call) (gateway : Option Address)
    (stands : table.routes.get? net = some route)
    (made : ∀ routes, changed table.routes call gateway = .ok routes →
      routes.get? net = some route) :
    (perform call gateway table).2.routes.get? net = some route := by
  refine perform_cases (motive := fun result => result.2.routes.get? net = some route) call gateway
    table ?_ ?_ ?_
  · exact fun _ left _ same => same ▸ stands
  · exact fun _ _ left _ same => same ▸ stands
  · exact fun left accepted => made left.routes accepted

/-- A table in memory guards each of its routes, with all that it knows of it. -/
theorem guards (net : Prefix) (route : Route) :
    RoutingTable.Guards net route.ifname fun table : MemoryTable =>
      table.routes.get? net = some route where
  carrier _ _ stands := stands
  carries table stands := by
    show table.via? net = _
    rw [via?, stands]
    rfl
  add own gateway other table differs stands := by
    refine route_of_perform _ gateway stands fun routes accepted => ?_
    simp only [changed] at accepted
    split at accepted
    · rename_i absent
      have elsewhere : other ≠ net := fun here => by
        rw [here, stands] at absent
        cases absent
      rw [← Except.ok.inj accepted, SortedMap.get?_insert_of_ne _ _ elsewhere, stands]
    · split at accepted
      · rw [← Except.ok.inj accepted, stands]
      · cases accepted
  taken own gateway table differs stands := by
    refine perform_cases (motive := fun result => ∃ cause, result.1 = .error cause)
      ⟨.add, own, net⟩ gateway table ?_ ?_ ?_
    · exact fun cause _ _ _ => ⟨cause, rfl⟩
    · exact fun cause _ _ _ _ => ⟨cause, rfl⟩
    · intro left accepted
      simp only [changed, stands] at accepted
      rw [if_neg (Ne.symm differs)] at accepted
      cases accepted
  remove own other table differs stands := by
    refine route_of_perform _ none stands fun routes accepted => ?_
    simp only [changed] at accepted
    split at accepted
    · rw [← Except.ok.inj accepted, stands]
    · rename_i there found
      split at accepted
      · rename_i named
        have elsewhere : other ≠ net := fun here => by
          rw [here, stands] at found
          cases found
          exact differs named.symm
        rw [← Except.ok.inj accepted, SortedMap.get?_erase, if_neg (rank_ne elsewhere), stands]
      · rw [← Except.ok.inj accepted, stands]
  replace own gateway other table elsewhere stands := by
    refine route_of_perform _ gateway stands fun routes accepted => ?_
    rw [← Except.ok.inj accepted, SortedMap.get?_insert_of_ne _ _ elsewhere, stands]

end MemoryTable

section Guarded

variable {σ : Type} [RoutingTable σ] {net : Prefix} {ifname : String} {holds : σ → Prop}

/-- A table that fails now and then guards what the inner one guards. -/
theorem RoutingTable.Guards.unreliable (guards : Guards net ifname holds) :
    Guards net ifname fun table : Unreliable σ => holds table.inner where
  carrier other table stands := guards.carrier other table.inner stands
  carries table stands := guards.carries table.inner stands
  add own gateway other table differs stands := by
    rcases Unreliable.attempt_cases .add other (RoutingTable.add own gateway other) table with
      ⟨-, -, same⟩ | ⟨-, same⟩
    · exact same ▸ stands
    · exact same ▸ guards.add own gateway other table.inner differs stands
  taken own gateway table differs stands := by
    rcases Unreliable.attempt_cases .add net (RoutingTable.add own gateway net) table with
      ⟨cause, refused, -⟩ | ⟨same, -⟩
    · exact ⟨cause, refused⟩
    · obtain ⟨cause, refused⟩ := guards.taken own gateway table.inner differs stands
      exact ⟨cause, same.trans refused⟩
  remove own other table differs stands := by
    rcases Unreliable.attempt_cases .remove other (RoutingTable.remove own other) table with
      ⟨-, -, same⟩ | ⟨-, same⟩
    · exact same ▸ stands
    · exact same ▸ guards.remove own other table.inner differs stands
  replace own gateway other table elsewhere stands := by
    rcases Unreliable.attempt_cases .replace other (RoutingTable.replace own gateway other) table
      with ⟨-, -, same⟩ | ⟨-, same⟩
    · exact same ▸ stands
    · exact same ▸ guards.replace own gateway other table.inner elsewhere stands

/-- An accepted `add` was one for another destination. -/
theorem RoutingTable.Guards.ne_of_added (guards : Guards net ifname holds) {own : String}
    {gateway : Option Address} {other : Prefix} {table left : σ} (differs : own ≠ ifname)
    (stands : holds table) (added : RoutingTable.add own gateway other table = (.ok (), left)) :
    other ≠ net := by
  rintro rfl
  obtain ⟨cause, refused⟩ := guards.taken own gateway table differs stands
  rw [added] at refused
  cases refused

end Guarded

/-! ## One entry -/

/-- A link does not use the interface, and has no route of the destination installed. -/
structure Avoids (net : Prefix) (ifname : String) (link : Link) (here : Prefix)
    (installed : Bool) : Prop where
  interface : link.ifname ≠ ifname
  nothing : here = net → installed = false

def Peer.Avoids (net : Prefix) (ifname : String) (peer : Peer) : Prop :=
  OverlayRouting.Avoids net ifname peer.link peer.host peer.isInstalled

def Roster.Avoids (net : Prefix) (ifname : String) (here : Prefix) (roster : Roster) : Prop :=
  ∀ c ∈ roster.candidates, OverlayRouting.Avoids net ifname c.link here c.isInstalled

def Settlement.Avoids (net : Prefix) (ifname : String) (here : Prefix) (settlement : Settlement) :
    Prop :=
  ∀ roster, settlement.roster = some roster → roster.Avoids net ifname here

/-- What a visit leaves of an entry has one property, and the table after it the other. -/
def Leaves {β σ : Type} (left : β → Prop) (holds : σ → Prop) (result : β × σ) : Prop :=
  left result.1 ∧ holds result.2

section Entries

variable {σ : Type} [RoutingTable σ] {net : Prefix} {ifname : String} {holds : σ → Prop}

open RoutingTable (Guards)

theorem Peers.settle_avoids (guards : Guards net ifname holds) {peer : Peer} {table : σ}
    (avoids : peer.Avoids net ifname) (stands : holds table) :
    Leaves (fun settled => ∀ after, settled.kept = some after → after.Avoids net ifname) holds
      (settle peer table) := by
  unfold settle
  split
  · have after := guards.add _ none peer.host table avoids.interface stands
    split <;> rename_i asked <;> rw [asked] at after
    · have elsewhere := guards.ne_of_added avoids.interface stands asked
      refine ⟨fun active kept => ?_, after⟩
      cases kept
      exact ⟨avoids.interface, fun here => absurd here elsewhere⟩
    · exact ⟨fun _ kept => Option.some.inj kept ▸ avoids, after⟩
  · have after := guards.remove _ peer.host table avoids.interface stands
    split <;> rename_i asked <;> rw [asked] at after
    · exact ⟨nofun, after⟩
    · exact ⟨fun _ kept => Option.some.inj kept ▸ avoids, after⟩
  all_goals exact ⟨fun _ kept => Option.some.inj kept ▸ avoids, stands⟩

namespace Roster

variable {roster : Roster} {here : Prefix}

omit [RoutingTable σ] in
theorem Avoids.kept (avoids : roster.Avoids net ifname here) {statuses : List RouteStatus}
    {changes : List ActiveChange} :
    Settlement.Avoids net ifname here { roster := some roster, statuses, changes } :=
  fun _ kept => Option.some.inj kept ▸ avoids

omit [RoutingTable σ] in
theorem Avoids.installed?_eq_none (avoids : roster.Avoids net ifname net) :
    roster.installed? = none :=
  (installed?_eq_none_iff roster).2 fun c member => (avoids c member).nothing rfl

omit [RoutingTable σ] in
/-- A roster may be settled that serves another destination, or with nothing installed. -/
theorem Avoids.settle (avoids : roster.Avoids net ifname here) {active : Option Address}
    (idle : here = net → active = none) : (roster.settle active).Avoids net ifname here := by
  intro left listed
  obtain ⟨c, member, -, rfl⟩ := mem_settle.1 listed
  refine ⟨(avoids c member).interface, fun same => ?_⟩
  simp [Candidate.isInstalled, idle same]

theorem install_avoids (guards : Guards net ifname holds) {destination : Destination} {table : σ}
    (avoids : roster.Avoids net ifname destination.net) (stands : holds table) :
    Leaves (Settlement.Avoids net ifname destination.net) holds
      (roster.install destination table) := by
  have settled : ∀ c : Candidate, destination.net ≠ net →
      Settlement.Avoids net ifname destination.net (roster.attached destination c) :=
    fun c elsewhere _ kept => Option.some.inj kept ▸
      avoids.settle fun same => absurd same elsewhere
  unfold install
  split
  · exact ⟨avoids.kept, stands⟩
  · rename_i first found
    have interface := (avoids first (mem_of_default? found).1).interface
    have known := guards.carrier destination.net table stands
    have carries := guards.carries table stands
    split <;> rename_i asked <;> rw [asked] at known
    · have after := guards.add _ none destination.net _ interface known
      split <;> rename_i added <;> rw [added] at after
      · exact ⟨settled first (guards.ne_of_added interface known added), after⟩
      · exact ⟨avoids.kept, after⟩
    · split
      · rename_i own listed
        refine ⟨settled own fun same => ?_, known⟩
        -- the carrier of the guarded route is no interface of a candidate
        rw [← same, asked] at carries
        have uses := List.find?_some listed
        rw [decide_eq_true_eq] at uses
        exact (avoids own (List.mem_of_find?_eq_some listed)).interface
          (uses.trans (Option.some.inj carries))
      · exact ⟨avoids.kept, known⟩

theorem withdraw_avoids (guards : Guards net ifname holds) {destination : Destination} {table : σ}
    (avoids : roster.Avoids net ifname destination.net) (stands : holds table) :
    Leaves (Settlement.Avoids net ifname destination.net) holds
      (roster.withdraw destination table) := by
  unfold withdraw
  split
  · exact ⟨nofun, stands⟩
  · rename_i c found
    have interface := (avoids c (mem_of_installed? found).1).interface
    have after := guards.remove _ destination.net table interface stands
    split <;> rename_i asked <;> rw [asked] at after
    · exact ⟨nofun, after⟩
    · exact ⟨avoids.kept, after⟩

/-- A move keeps the guarded route; for its destination it is refused, or there is nothing to
move to. -/
theorem move_avoids (guards : Guards net ifname holds) {destination : Destination} {table : σ}
    (avoids : roster.Avoids net ifname destination.net) (stands : holds table)
    (new : Option Candidate) (listed : ∀ c ∈ new, c ∈ roster.candidates) :
    Leaves (fun outcome => destination.net = net → ∀ change, outcome = .ok change → new = none)
      holds (move destination roster.installed? new table) := by
  cases found : roster.installed? with
  | none =>
      cases new with
      | none => exact ⟨fun _ _ _ => rfl, stands⟩
      | some c =>
          have interface := (avoids c (listed c rfl)).interface
          refine ⟨fun same change done => ?_, guards.add _ none _ table interface stands⟩
          obtain ⟨cause, refused⟩ := guards.taken c.link.ifname none table interface stands
          simp only [move, same, refused, Except.map] at done
          cases done
  | some old =>
      have elsewhere : destination.net ≠ net := fun same => by
        rw [same] at avoids
        rw [avoids.installed?_eq_none] at found
        cases found
      have interface := (avoids old (mem_of_installed? found).1).interface
      refine ⟨fun same => absurd same elsewhere, ?_⟩
      cases new with
      | none => exact guards.remove _ _ table interface stands
      | some c =>
          simp only [move]
          split
          · exact stands
          · exact guards.replace _ none _ table elsewhere stands

theorem reconfigure_avoids (guards : Guards net ifname holds) {destination : Destination}
    {table : σ} (selected : Option Address) (avoids : roster.Avoids net ifname destination.net)
    (stands : holds table) :
    Leaves (Settlement.Avoids net ifname destination.net) holds
      (roster.reconfigure destination selected table) := by
  have moved := move_avoids guards avoids stands (roster.successor selected)
    fun c chosen => (mem_of_successor chosen).1
  simp only [reconfigure]
  generalize move destination roster.installed? (roster.successor selected) table = result at moved
  obtain ⟨outcome, left⟩ := result
  cases outcome with
  | error cause => exact ⟨avoids.kept, moved.2⟩
  | ok change =>
      refine ⟨fun after kept => Option.some.inj kept ▸ avoids.settle fun same => ?_, moved.2⟩
      rw [moved.1 same change rfl]
      rfl

theorem commit_avoids (guards : Guards net ifname holds) {destination : Destination} {table : σ}
    (selected : Option Address) (avoids : roster.Avoids net ifname destination.net)
    (stands : holds table) :
    Leaves (Settlement.Avoids net ifname destination.net) holds
      (roster.commit destination selected table) := by
  refine commit_cases
    (motive := Leaves (Settlement.Avoids net ifname destination.net) holds)
    roster destination selected table ?_ ?_ ?_ ?_
  · exact fun _ => ⟨avoids.kept, stands⟩
  · exact fun _ _ _ => install_avoids guards avoids stands
  · exact fun _ _ _ => withdraw_avoids guards avoids stands
  · exact fun _ _ _ => reconfigure_avoids guards selected avoids stands

theorem reroute_avoids (guards : Guards net ifname holds) {destination : Destination} {table : σ}
    (selected : Address) (avoids : roster.Avoids net ifname destination.net)
    (stands : holds table) :
    Leaves (Settlement.Avoids net ifname destination.net) holds
      (roster.reroute destination selected table) := by
  unfold reroute
  split
  · exact ⟨avoids.kept, stands⟩
  · split
    · exact ⟨avoids.kept, stands⟩
    · rename_i new listed
      have moved := move_avoids guards avoids stands (some new) fun c same =>
        Option.some.inj same ▸ List.mem_of_find?_eq_some listed
      generalize move destination roster.installed? (some new) table = result at moved
      obtain ⟨outcome, left⟩ := result
      split
      · rename_i change done
        cases done
        refine ⟨fun after kept => Option.some.inj kept ▸ avoids.settle fun same => ?_, moved.2⟩
        cases moved.1 same _ rfl
      · rename_i same
        cases same
        exact ⟨avoids.kept, moved.2⟩

theorem giveUp_avoids (guards : Guards net ifname holds) {destination : Destination} {table : σ}
    (avoids : roster.Avoids net ifname destination.net) (stands : holds table) :
    Leaves (Settlement.Avoids net ifname destination.net) holds
      (roster.giveUp destination table) := by
  unfold giveUp
  split
  · exact ⟨nofun, stands⟩
  · exact withdraw_avoids guards avoids stands

end Roster

end Entries

end OverlayRouting
