/-
# OverlayRouting.Proofs.Balances -- each change of a group's destinations is told

A connection carries as many destinations of a group as have their installed candidate on it
(`Services.carriedBy`).  A call and its changes balance if the number after the call and the
changes that lead away from the connection are as many as the number before it and the changes
that lead to it (`Balances`).

Each visit of a destination tells of what it did, in one change, or did nothing
(`Settlement.Reports`), whatever the table answers, and balances add up over the destinations of
a group (`Services.Honest.sweep`).  There is one exception: a group that is left without peers
gives up its destinations silently (`Group.abandoned`, `Group.commit_accounts`).
-/
import OverlayRouting.Proofs.Told

namespace OverlayRouting

set_option autoImplicit false

/-! ## Balances -/

/-- How many changes of a group lead away from a connection. -/
def departures (changes : List ActiveChange) (id : GroupId) (c : ConnectionId) : Nat :=
  changes.countP fun change => change.group = id ∧ change.previous = some c

/-- How many changes of a group lead to a connection. -/
def arrivals (changes : List ActiveChange) (id : GroupId) (c : ConnectionId) : Nat :=
  changes.countP fun change => change.group = id ∧ change.current = some c

/-- The changes account for what a connection carries of a group before and after them. -/
def Balances (id : GroupId) (c : ConnectionId) (before after : Nat) (changes : List ActiveChange) :
    Prop :=
  after + departures changes id c = before + arrivals changes id c

instance (id : GroupId) (c : ConnectionId) (before after : Nat) (changes : List ActiveChange) :
    Decidable (Balances id c before after changes) :=
  inferInstanceAs (Decidable (_ = _))

namespace Balances

variable {id : GroupId} {c : ConnectionId} {before middle after others left : Nat}
  {changes more : List ActiveChange}

theorem refl (id : GroupId) (c : ConnectionId) (carried : Nat) : Balances id c carried carried [] :=
  rfl

theorem append (here : Balances id c before after changes) (there : Balances id c others left more) :
    Balances id c (before + others) (after + left) (changes ++ more) := by
  simp only [Balances, departures, arrivals, List.countP_append] at here there ⊢
  omega

/-- The second call starts where the first one ended, but for what is lost already. -/
theorem trans {lost : Nat} (first : Balances id c before (lost + middle) changes)
    (second : Balances id c middle after more) :
    Balances id c before (lost + after) (changes ++ more) := by
  simp only [Balances, departures, arrivals, List.countP_append] at first second ⊢
  omega

/-- Changes of another group account for nothing. -/
theorem of_foreign {other : GroupId} (elsewhere : other ≠ id)
    (named : ∀ change ∈ changes, change.group = other) : Balances id c 0 0 changes := by
  have none_of : ∀ property : ActiveChange → Prop, ∀ [DecidablePred property],
      changes.countP (fun change => change.group = id ∧ property change) = 0 := by
    intro property _
    refine List.countP_eq_zero.2 fun change member => ?_
    simp [named change member, elsewhere]
  simp only [Balances, departures, arrivals, none_of]

end Balances

/-! ## One destination -/

/-- The connection that carries a destination. -/
def Roster.connection? (roster : Roster) : Option ConnectionId :=
  roster.installed?.map Candidate.connection

def Settlement.connection? (settlement : Settlement) : Option ConnectionId :=
  settlement.roster.bind Roster.connection?

/-- A visit left a destination with the connection that it had and reported nothing, or it
reported the one change that it made. -/
inductive Settlement.Reports (group : GroupId) (before : Option ConnectionId)
    (settlement : Settlement) : Prop
  | still (same : settlement.connection? = before) (silent : settlement.changes = [])
  | told (changes : settlement.changes = [⟨before, settlement.connection?, group⟩])

namespace Settlement.Reports

variable {group : GroupId} {before : Option ConnectionId} {settlement : Settlement}

theorem named (reports : settlement.Reports group before) :
    ∀ change ∈ settlement.changes, change.group = group := by
  cases reports with
  | still same silent => simp [silent]
  | told changes => simp [changes]

theorem balances (reports : settlement.Reports group before) (c : ConnectionId) :
    Balances group c (if before = some c then 1 else 0)
      (if settlement.connection? = some c then 1 else 0) settlement.changes := by
  cases reports with
  | still same silent =>
      rw [same, silent]
      exact .refl _ _ _
  | told changes =>
      simp [Balances, departures, arrivals, changes, Nat.add_comm]

end Settlement.Reports

/-- Who tells of a change of the link tells of the connections. -/
theorem Settlement.Tells.reports {destination : Destination} {roster : Roster}
    {settlement : Settlement} (tells : settlement.Tells destination roster) :
    settlement.Reports destination.group roster.connection? := by
  have connection (carrier : Option Candidate) :
      carrier.map Candidate.connection = (carrier.map Candidate.link).map Link.connection := by
    rw [Option.map_map]
    rfl
  have after : settlement.connection? =
      (settlement.roster.bind Roster.installed?).map Candidate.connection := by
    cases h : settlement.roster <;> simp [Settlement.connection?, h, Roster.connection?]
  rw [Settlement.Tells, Destination.told] at tells
  split at tells
  · rename_i same
    refine .still ?_ tells
    rw [after, Roster.connection?, connection, connection, same]
  · refine .told ?_
    rw [tells, after]
    rfl

namespace Roster

variable {roster : Roster}

theorem Sound.connection?_disabled (sound : roster.Sound) (disabled : roster.disabled = true) :
    roster.connection? = none := by
  rw [connection?, (installed?_eq_none_iff roster).2 fun c member => by
    simp [Candidate.isInstalled, (sound.held c member).2 disabled]]
  rfl

theorem Sound.connection?_enable (sound : roster.Sound) (disabled : roster.disabled = true) :
    roster.enable.connection? = none := by
  rw [connection?, (installed?_eq_none_iff roster.enable).2 fun c member => by
    simp [Candidate.isInstalled, sound.joining_enable disabled member]]
  rfl

variable {σ : Type} [RoutingTable σ]

theorem commit_reports (sound : roster.Sound) (destination : Destination)
    (selected : Option Address) (table : σ) :
    (roster.commit destination selected table).1.Reports destination.group roster.connection? :=
  (sound.tells_commit selected table).reports

theorem reroute_reports (sound : roster.Sound) (destination : Destination) (selected : Address)
    (table : σ) :
    (roster.reroute destination selected table).1.Reports destination.group roster.connection? :=
  (sound.tells_reroute selected table).reports

/-- A destination that is given up goes or stays as it is. -/
theorem giveUp_left_or_gone (roster : Roster) (destination : Destination) (table : σ) :
    (roster.giveUp destination table).1.roster = none ∨
      (roster.giveUp destination table).1.roster = some roster := by
  have withdrawn : (roster.withdraw destination table).1.roster = none ∨
      (roster.withdraw destination table).1.roster = some roster := by
    unfold withdraw
    split
    · exact .inl rfl
    · split
      · exact .inl rfl
      · exact .inr rfl
  unfold giveUp
  split
  · exact .inl rfl
  · exact withdrawn

end Roster

/-! ## The destinations of a group -/

/-- Putting a value where one is changes that value and no other. -/
theorem SortedMap.insert_eq_map {κ α : Type} [Ranked κ] {map : SortedMap κ α} {key : κ} {old : α}
    (found : map.get? key = some old) (value : α) :
    map.insert key value = map.map fun other x => if rank other = rank key then value else x := by
  refine SortedMap.ext fun other => ?_
  rw [get?_insert, get?_map]
  by_cases same : rank key = rank other
  · rw [if_pos same, ← rank_inj same, found]
    simp
  · rw [if_neg same]
    simp [Ne.symm same]

/-- How many of the values of a map that are chosen from those of another one are counted. -/
theorem SortedMap.countP_filterMap {κ α β : Type} [Ranked κ] (map : SortedMap κ α)
    (choose : κ → α → Option β) (counted : β → Bool) :
    (map.filterMap choose).entries.countP (fun entry => counted entry.2) =
      map.entries.countP fun entry => (choose entry.1 entry.2).any counted := by
  rw [filterMap, List.countP_filterMap]
  refine List.countP_congr fun entry _ => ?_
  cases choose entry.1 entry.2 <;> simp

namespace Services

/-- How many destinations a connection carries. -/
def carriedBy (services : Services) (c : ConnectionId) : Nat :=
  services.rosters.entries.countP fun entry => entry.2.connection? = some c

theorem carriedBy_of_isEmpty {services : Services} (nothing : services.isEmpty = true)
    (c : ConnectionId) : services.carriedBy c = 0 := by
  rw [carriedBy, List.isEmpty_iff.1 nothing]
  rfl

variable {σ : Type}

/-- Visits of sound destinations report what they do. -/
def Honest (visit : Roster → Destination → σ → Settlement × σ) : Prop :=
  ∀ (roster : Roster), roster.Sound → ∀ destination table,
    (visit roster destination table).1.Reports destination.group roster.connection?

theorem Honest.traverse {visit : Roster → Destination → σ → Settlement × σ} (honest : Honest visit)
    (group : GroupId) (c : ConnectionId) (entries : List (Prefix × Roster))
    (sound : ∀ entry ∈ entries, entry.2.Sound) (table : σ) :
    let settled := (Entries.traverse (fun net roster table => visit roster ⟨group, net⟩ table)
      entries table).1
    Balances group c (entries.countP fun entry => entry.2.connection? = some c)
        (settled.countP fun entry => entry.2.connection? = some c)
        (settled.flatMap fun entry => entry.2.changes) ∧
      ∀ change ∈ settled.flatMap (fun entry => entry.2.changes), change.group = group := by
  induction entries generalizing table with
  | nil => exact ⟨.refl _ _ _, nofun⟩
  | cons head rest ih =>
      have here := honest head.2 (sound head List.mem_cons_self) ⟨group, head.1⟩ table
      obtain ⟨balances, named⟩ := ih (fun entry member => sound entry (List.mem_cons_of_mem _ member))
        (visit head.2 ⟨group, head.1⟩ table).2
      simp only [Entries.traverse, List.flatMap_cons, List.countP_cons, decide_eq_true_eq]
      constructor
      · rw [Nat.add_comm, Nat.add_comm (List.countP _ _)]
        exact (here.balances c).append balances
      · intro change member
        rcases List.mem_append.1 member with own | behind
        · exact here.named change own
        · exact named change behind

/-- A walk over the destinations reports what becomes of them. -/
theorem Honest.sweep {visit : Roster → Destination → σ → Settlement × σ} (honest : Honest visit)
    {services : Services} (sound : services.Sound) (table : σ) (c : ConnectionId) :
    let swept := (services.sweep visit table).1
    Balances services.group c (services.carriedBy c) (swept.services.carriedBy c) swept.changes ∧
      ∀ change ∈ swept.changes, change.group = services.group := by
  have walked := honest.traverse services.group c services.rosters.entries
    (fun entry member =>
      (sound entry.1 entry.2 ((services.rosters.mem_entries_iff entry.1 entry.2).1 member)).1) table
  have left : (services.sweep visit table).1.services.carriedBy c =
      (Entries.traverse (fun net roster table => visit roster ⟨services.group, net⟩ table)
        services.rosters.entries table).1.countP fun entry => entry.2.connection? = some c := by
    refine (SortedMap.countP_filterMap _ _ fun roster : Roster => roster.connection? = some c).trans ?_
    refine List.countP_congr fun entry _ => ?_
    cases kept : entry.2.roster <;> simp [Settlement.connection?, kept]
  have told : (services.sweep visit table).1.changes =
      (Entries.traverse (fun net roster table => visit roster ⟨services.group, net⟩ table)
        services.rosters.entries table).1.flatMap fun entry => entry.2.changes := by
    simp only [Services.sweep, SortedMap.values, List.flatMap_map]
    rfl
  simp only [left, told]
  exact walked

/-- Who is admitted again was not carried, and is not yet. -/
theorem carriedBy_enable {services : Services} (sound : services.Sound) (net : Prefix)
    (c : ConnectionId) : (services.enable net).2.carriedBy c = services.carriedBy c := by
  unfold enable
  split
  · rfl
  · rename_i roster found
    split
    · rename_i disabled
      have here := (sound net roster found).1
      rw [carriedBy, carriedBy, SortedMap.insert_eq_map found, SortedMap.map, List.countP_map]
      refine List.countP_congr fun entry member => ?_
      simp only [Function.comp_apply]
      split
      · rename_i same
        have own : entry.2 = roster := by
          have stands := (services.rosters.mem_entries_iff entry.1 entry.2).1 member
          rw [rank_inj same] at stands
          exact Option.some.inj (stands.symm.trans found)
        rw [own, here.connection?_enable disabled, here.connection?_disabled disabled]
      · rfl
    · rfl

/-- What is left of each destination that is given up: nothing, or all of it. -/
theorem roster?_withdrawAll [RoutingTable σ] (services : Services) (table : σ) (net : Prefix) :
    (services.withdrawAll table).1.roster? net = none ∨
      (services.withdrawAll table).1.roster? net = services.roster? net := by
  obtain ⟨seen, left⟩ := services.roster?_sweep Roster.giveUp table net
  have left : (services.withdrawAll table).1.roster? net = _ := left
  rw [left]
  cases services.roster? net with
  | none => exact .inl rfl
  | some roster => exact roster.giveUp_left_or_gone ⟨services.group, net⟩ seen

/-- How many destinations that a connection carries are gone from what is left. -/
def goneFrom (services left : Services) (c : ConnectionId) : Nat :=
  services.rosters.entries.countP fun entry =>
    entry.2.connection? = some c ∧ left.roster? entry.1 = none

/-- What a connection carries is what it carries of those that stay, and those that go. -/
theorem carriedBy_of_remains {services left : Services}
    (remains : ∀ net, left.roster? net = none ∨ left.roster? net = services.roster? net)
    (c : ConnectionId) : services.carriedBy c = services.goneFrom left c + left.carriedBy c := by
  have chosen : left.rosters = services.rosters.filterMap fun net _ => left.roster? net := by
    refine SortedMap.ext fun net => ?_
    rw [SortedMap.get?_filterMap]
    show left.roster? net = (services.roster? net).bind fun _ => left.roster? net
    rcases remains net with is_left | is_left <;> rw [is_left] <;>
      cases services.roster? net <;> rfl
  have stays : left.carriedBy c = services.rosters.entries.countP fun entry =>
      entry.2.connection? = some c && (left.roster? entry.1).isSome := by
    rw [carriedBy, chosen]
    refine (SortedMap.countP_filterMap _ _ fun roster : Roster => roster.connection? = some c).trans ?_
    refine List.countP_congr fun entry member => ?_
    have found := (services.rosters.mem_entries_iff entry.1 entry.2).1 member
    rcases remains entry.1 with gone | same
    · simp [gone]
    · have same : left.roster? entry.1 = some entry.2 := same.trans found
      simp [same]
  rw [Nat.add_comm, stays, carriedBy, goneFrom, List.countP_eq_length_filter,
    List.length_eq_countP_add_countP fun entry => (left.roster? entry.1).isSome,
    List.countP_filter, List.countP_filter]
  simp [Bool.and_comm]

end Services

/-! ## Groups -/

namespace Group

variable {σ : Type} [RoutingTable σ] {group : Group}

/-- How many destinations a connection carries of what is left of a group. -/
def Settled.carriedBy (settled : Settled) (c : ConnectionId) : Nat :=
  settled.kept.elim 0 (·.services.carriedBy c)

/-- How many destinations that a connection carries a group gives up in a commit because it is
left without peers. -/
def abandoned (c : ConnectionId) (group : Group) (table : σ) : Nat :=
  if (group.settledPeers table).isEmpty then
    let (swept, table) := group.sweptServices table
    swept.services.goneFrom (swept.services.withdrawAll table).1 c
  else 0

/-- A visit reports what it does to what a connection carries of a group, but for `silent`
destinations. -/
def Accounts (visit : Group → σ → Settled × σ) (c : ConnectionId) (silent : Group → σ → Nat) : Prop :=
  ∀ (group : Group), group.Sound → ∀ table,
    Balances group.services.group c (group.services.carriedBy c)
        (silent group table + (visit group table).1.carriedBy c) (visit group table).1.changes ∧
      ∀ change ∈ (visit group table).1.changes, change.group = group.services.group

omit [RoutingTable σ] in
/-- A group that is dropped because nothing of it is left carries nothing. -/
theorem carriedBy_dropped_if_empty (peers : Peers) (services : Services)
    (statuses : List RouteStatus) (changes : List ActiveChange) (c : ConnectionId) :
    Settled.carriedBy ⟨if services.isEmpty then none else some ⟨peers, services⟩, statuses,
      changes⟩ c = services.carriedBy c := by
  unfold Settled.carriedBy
  split
  · rename_i nothing
    exact (Services.carriedBy_of_isEmpty nothing c).symm
  · rfl

theorem commit_accounts (c : ConnectionId) : Accounts (σ := σ) commit c (abandoned c) := by
  intro group sound table
  obtain ⟨balances, named⟩ := Services.Honest.sweep (fun roster sound destination seen =>
    Roster.commit_reports sound destination (group.selectedGateway table) seen)
    sound.services (group.peers.commit table).2.2 c
  change Balances group.services.group c _ ((group.sweptServices table).1.services.carriedBy c)
    (group.sweptServices table).1.changes at balances
  rw [commit_eq, abandoned]
  simp only
  split
  · refine ⟨?_, named⟩
    -- the sweep is told, and the withdrawal that follows it is not
    generalize (group.sweptServices table).1.services = services at balances
    have remains := Services.carriedBy_of_remains
      (services.roster?_withdrawAll (group.sweptServices table).2) c
    rw [carriedBy_dropped_if_empty, ← remains]
    exact balances
  · rw [Nat.zero_add]
    exact ⟨balances, named⟩

theorem ping_accounts (tallies : Tallies) (c : ConnectionId) :
    Accounts (σ := σ) (·.ping tallies) c fun _ _ => 0 := by
  intro group sound table
  simp only [ping, Services.reroute, Nat.zero_add]
  cases (group.peers.ping tallies).select.1 with
  | none => exact ⟨.refl _ _ _, nofun⟩
  | some peer =>
      exact Services.Honest.sweep (fun roster sound destination table =>
        Roster.reroute_reports sound destination peer.gateway table) sound.services table c

end Group

end OverlayRouting
