/-
# OverlayRouting.Proofs.Turn -- one entry at its turn, when nothing is refused at will

A table in memory that is told to refuse nothing refuses one thing only: to add a route
where another interface has one (`MemoryTable.add_spec`).  So at its turn every entry gets
what it wants, unless the route of its address is taken: a peer that is to go is gone
(`Peers.settle_turn`), and a destination that still has something pending has no route
(`Roster.commit_turn`).  In both cases somebody else's route to the address stands.
-/
import OverlayRouting.Proofs.Keeps
import OverlayRouting.Proofs.Trail

namespace OverlayRouting

set_option autoImplicit false

namespace MemoryTable

/-- Nothing is refused that can be done. -/
def Willing (table : MemoryTable) : Prop := table.failing = []

theorem willing_kept : RoutingTable.Keeps Willing := failing_kept []

variable {table : MemoryTable}

theorem Willing.not_failing (willing : table.Willing) (net : Prefix) : net ∉ table.failing := by
  rw [Willing] at willing
  simp [willing]

theorem Willing.taken_of_add (willing : table.Willing) {ifname : String}
    {gateway : Option Address} {net : Prefix} {cause : Error}
    (refused : (RoutingTable.add ifname gateway net table).1 = .error cause) :
    ∃ other, table.via? net = some other := by
  rcases add_spec ifname gateway net table with ⟨-, -, failing | ⟨other, taken, -⟩, -⟩ | ⟨done, -⟩
  · exact absurd failing (willing.not_failing net)
  · exact ⟨other, taken⟩
  · cases refused.symm.trans done

theorem Willing.add_free (willing : table.Willing) {net : Prefix} (free : table.via? net = none)
    (ifname : String) (gateway : Option Address) :
    ∃ left, RoutingTable.add ifname gateway net table = (.ok (), left) ∧
      left.via? net = some ifname := by
  rcases add_spec ifname gateway net table with ⟨cause, refused, -⟩ | ⟨done, -, changed⟩
  · obtain ⟨other, taken⟩ := willing.taken_of_add refused
    cases free.symm.trans taken
  · exact ⟨_, Prod.ext done rfl, by rw [changed, Function.update_self]⟩

theorem Willing.remove_ok (willing : table.Willing) (ifname : String) (net : Prefix) :
    ∃ left, RoutingTable.remove ifname net table = (.ok (), left) := by
  rcases remove_spec ifname net table with ⟨-, -, failing, -⟩ | ⟨done, -⟩
  · exact absurd failing (willing.not_failing net)
  · exact ⟨_, Prod.ext done rfl⟩

theorem Willing.replace_ok (willing : table.Willing) (ifname : String) (gateway : Option Address)
    (net : Prefix) : (RoutingTable.replace ifname gateway net table).1 = .ok () := by
  rcases replace_spec ifname gateway net table with ⟨-, -, failing, -⟩ | ⟨done, -⟩
  · exact absurd failing (willing.not_failing net)
  · exact done

/-! A call about another prefix leaves the route of this one. -/

theorem get?_perform_of_ne {call : Call} {net : Prefix} (differs : call.destination ≠ net)
    (gateway : Option Address) (table : MemoryTable) :
    (perform call gateway table).2.routes.get? net = table.routes.get? net := by
  refine perform_cases (motive := fun result => result.2.routes.get? net = table.routes.get? net)
    call gateway table (fun _ _ _ same => by rw [same]) (fun _ _ _ _ same => by rw [same]) ?_
  intro left made
  unfold changed at made
  split at made
  · split at made
    · rw [← Except.ok.inj made, SortedMap.get?_insert_of_ne _ _ differs]
    · split at made
      · rw [← Except.ok.inj made]
      · cases made
  · split at made
    · rw [← Except.ok.inj made]
    · split at made
      · rw [← Except.ok.inj made, SortedMap.get?_erase, if_neg (rank_ne differs)]
      · rw [← Except.ok.inj made]
  · rw [← Except.ok.inj made, SortedMap.get?_insert_of_ne _ _ differs]

theorem route_elsewhere_kept (net : Prefix) (route : Option Route) :
    RoutingTable.KeepsWithin (· ≠ net) fun table : MemoryTable => table.routes.get? net = route where
  add _ _ _ table differs stood := (get?_perform_of_ne differs _ table).trans stood
  remove _ _ table differs stood := (get?_perform_of_ne differs _ table).trans stood
  replace _ _ _ table differs stood := (get?_perform_of_ne differs _ table).trans stood
  carrier _ _ _ stood := stood

theorem elsewhere_kept (net : Prefix) (carrier : Option String) :
    RoutingTable.KeepsWithin (· ≠ net) fun table : MemoryTable => table.via? net = carrier := by
  have kept := route_elsewhere_kept net
  exact {
    add := fun ifname gateway other table differs routed => by
      rw [via?, (kept _).add ifname gateway other table differs rfl, ← via?, routed]
    remove := fun ifname other table differs routed => by
      rw [via?, (kept _).remove ifname other table differs rfl, ← via?, routed]
    replace := fun ifname gateway other table differs routed => by
      rw [via?, (kept _).replace ifname gateway other table differs rfl, ← via?, routed]
    carrier := fun _ _ _ routed => routed }

end MemoryTable

/-! ## Peers -/

/-- What a peer is after its turn: none that leaves, and one that joins only where a route to
its address was in the way. -/
theorem Peers.settle_turn {peer after : Peer} {table : MemoryTable} (willing : table.Willing)
    (kept : (settle peer table).1.kept = some after) :
    after.link = peer.link ∧ after.state ≠ .leaving ∧
      (after.state = .joining → peer.state = .joining ∧ ∃ other, table.via? peer.host = some other) := by
  refine ⟨(claims_settle kept).2, ?_⟩
  unfold settle at kept
  split at kept
  · rename_i joining
    split at kept
    · cases kept
      exact ⟨by simp, by simp⟩
    · rename_i cause left refused
      cases kept
      refine ⟨by simp [joining], fun _ => ⟨joining, ?_⟩⟩
      exact willing.taken_of_add (congrArg Prod.fst refused)
  · obtain ⟨left, done⟩ := willing.remove_ok peer.link.ifname peer.host
    rw [done] at kept
    cases kept
  all_goals
    rename_i state
    cases kept
    simp [state]

/-! ## Destinations -/

namespace Roster

variable {roster : Roster}

theorem quiet_settle (roster : Roster) (active : Option Address) :
    (roster.settle active).hasPending = false := by
  by_contra pending
  obtain ⟨c, member, state⟩ := (hasPending_iff _).1 (by simpa using pending)
  obtain ⟨before, -, -, rfl⟩ := mem_settle.1 member
  simp only [Candidate.isLeaving] at state
  split at state <;> simp at state

/-- What a destination is after its turn: it is wanted, and if it has something pending
still, it has no route, and a route was in the way. -/
structure Turn (before after : Roster) (net : Prefix) (table : MemoryTable) : Prop where
  wanted : after.Wanted
  waits : after.hasPending = true → after = before ∧ after.installed? = none ∧
    ∃ other, table.via? net = some other

theorem turn_settle {c : Candidate} (member : c ∈ roster.candidates) (stays : c.isLeaving = false)
    (net : Prefix) (table : MemoryTable) :
    Turn roster (roster.settle (some c.gateway)) net table where
  wanted := wanted_settle member stays _
  waits pending := by
    rw [quiet_settle] at pending
    cases pending

theorem install_turn {after : Roster} {destination : Destination} {table : MemoryTable}
    (willing : table.Willing) (wanted : roster.Wanted)
    (joining : ∀ c ∈ roster.candidates, c.state = .joining)
    (result : (roster.install destination table).1.roster = some after) :
    Turn roster after destination.net table := by
  have stays : ∀ c ∈ roster.candidates, c.isLeaving = false := fun c member => by
    simp [Candidate.isLeaving, joining c member]
  have bare := bare_of_joining joining
  have blocked : ∀ other, table.via? destination.net = some other →
      Turn roster roster destination.net table := fun other taken =>
    ⟨wanted, fun _ => ⟨rfl, bare, other, taken⟩⟩
  obtain ⟨first, found⟩ := Option.isSome_iff_exists.1 (default?_isSome wanted)
  simp only [install, found] at result
  cases carried : table.via? destination.net with
  | none =>
      have asked : RoutingTable.carrier destination.net table = (none, table) :=
        Prod.ext carried rfl
      rw [asked] at result
      simp only at result
      split at result
      · cases result
        exact turn_settle (mem_of_default? found).1 (mem_of_default? found).2 _ _
      · rename_i cause left refused
        obtain ⟨other, taken⟩ := willing.taken_of_add (congrArg Prod.fst refused)
        cases carried.symm.trans taken
  | some ifname =>
      have asked : RoutingTable.carrier destination.net table = (some ifname, table) :=
        Prod.ext carried rfl
      rw [asked] at result
      simp only at result
      split at result
      · rename_i own listed
        cases result
        have member := List.mem_of_find?_eq_some listed
        exact turn_settle member (stays own member) _ _
      · cases result
        exact blocked ifname carried

theorem withdraw_turn (roster : Roster) (destination : Destination) {table : MemoryTable}
    (willing : table.Willing) : (roster.withdraw destination table).1.roster = none := by
  unfold withdraw
  split
  · rfl
  · rename_i c found
    obtain ⟨left, done⟩ := willing.remove_ok c.link.ifname destination.net
    rw [done]

theorem reconfigure_turn {after : Roster} {destination : Destination} {selected : Option Address}
    {table : MemoryTable} (willing : table.Willing) (wanted : roster.Wanted)
    (result : (roster.reconfigure destination selected table).1.roster = some after) :
    Turn roster after destination.net table := by
  obtain ⟨new, chosen⟩ := Option.isSome_iff_exists.1 (successor_isSome wanted selected)
  obtain ⟨member, stays⟩ := mem_of_successor chosen
  simp only [reconfigure, chosen] at result
  split at result
  · cases result
    exact turn_settle member stays _ _
  · -- only a route that is added where nothing was installed can be refused
    rename_i cause left refused
    cases result
    cases bare : roster.installed? with
    | none =>
        rw [bare] at refused
        have asked := congrArg Prod.fst refused
        simp only [move] at asked
        have failed : ∃ cause, (RoutingTable.add new.link.ifname none destination.net table).1 =
            .error cause := by
          cases outcome : (RoutingTable.add new.link.ifname none destination.net table).1 with
          | error cause => exact ⟨cause, rfl⟩
          | ok done => simp [outcome, Except.map] at asked
        obtain ⟨cause, failed⟩ := failed
        exact ⟨wanted, fun _ => ⟨rfl, bare, willing.taken_of_add failed⟩⟩
    | some old =>
        rw [bare] at refused
        have asked := congrArg Prod.fst refused
        simp only [move] at asked
        split at asked
        · cases asked
        · rw [willing.replace_ok] at asked
          cases asked

theorem commit_turn {after : Roster} {destination : Destination} {selected : Option Address}
    {table : MemoryTable} (listed : roster.candidates ≠ []) (enabled : roster.disabled = false)
    (willing : table.Willing)
    (result : (roster.commit destination selected table).1.roster = some after) :
    Turn roster after destination.net table := by
  revert result
  refine commit_cases (motive := fun made => made.1.roster = some after →
    Turn roster after destination.net table) roster destination selected table ?_ ?_ ?_ ?_
  · rintro (disabled | quiet) result
    · cases enabled.symm.trans disabled
    · cases result
      obtain ⟨c, member⟩ := List.exists_mem_of_ne_nil _ listed
      refine ⟨⟨c, member, stays_of_quiet quiet member⟩, fun pending => ?_⟩
      cases quiet.symm.trans pending
  · intro _ _ joining result
    obtain ⟨c, member⟩ := List.exists_mem_of_ne_nil _ listed
    have wanted : roster.Wanted := ⟨c, member, by simp [Candidate.isLeaving, joining c member]⟩
    exact install_turn willing wanted joining result
  · intro _ _ _ result
    rw [withdraw_turn roster destination willing] at result
    cases result
  · exact fun _ _ wanted result => reconfigure_turn willing wanted result

theorem giveUp_turn (roster : Roster) (destination : Destination) {table : MemoryTable}
    (willing : table.Willing) : (roster.giveUp destination table).1.roster = none := by
  unfold giveUp
  split
  · rfl
  · exact withdraw_turn roster destination willing

end Roster

end OverlayRouting
