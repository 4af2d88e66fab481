/-
# OverlayRouting.Proofs.Pass -- one pass over a willing table

A pass settles everything but what is blocked.  What it leaves is cleared
(`Group.Cleared`): no peer leaves, no group is without peers, every enabled destination is
wanted, and one with something pending has no route.  And if a peer still joins, or a
destination still has something pending, another entry held the address at its turn:
another entry of the group, one of a group before it, or one of a group behind it that was
not settled yet (`Router.pass_turn`).
-/
import OverlayRouting.Proofs.Convergence
import OverlayRouting.Proofs.Turn

namespace OverlayRouting

set_option autoImplicit false

open RoutingTable (Lawful)

/-! ## Whose route it is -/

theorem Peer.net_of_mem_holdings {peer : Peer} {holding : Holding}
    (member : holding ∈ peer.holdings) : holding.net = peer.host := by
  unfold Peer.holdings at member
  split at member
  · cases List.mem_singleton.1 member
    rfl
  · cases member

theorem Peers.net_of_mem_settled {peer : Peer} {table : MemoryTable} {holding : Holding}
    (member : holding ∈ (settle peer table).1.holdings) : holding.net = peer.host := by
  obtain ⟨after, kept, held⟩ := List.mem_flatMap.1 member
  rw [Peer.net_of_mem_holdings held, Peer.host,
    (claims_settle (Option.mem_toList.1 kept)).2, Peer.host]

theorem Roster.net_of_mem_holdings {roster : Roster} {net : Prefix} {holding : Holding}
    (member : holding ∈ roster.holdings net) : holding.net = net := by
  unfold Roster.holdings at member
  split at member
  · cases member
  · obtain ⟨c, -, rfl⟩ := List.mem_map.1 member
    rfl

/-! ## Peers -/

/-- After a commit no peer leaves, and if one joins, somebody else holds its address. -/
theorem Peers.commit_turn {peers : Peers} (sound : peers.Sound) {table : MemoryTable}
    (willing : table.Willing) {ahead behind : List Holding}
    (owned : Ledger.Owned ⟨ahead ++ peers.holdings ++ behind, Lawful.routes table⟩) {after : Peer}
    (member : after ∈ (peers.commit table).2.1.list) :
    after.state ≠ .leaving ∧
      (after.state = .joining → ∃ holding ∈ ahead ++ behind, holding.net = after.host) := by
  obtain ⟨settled, made, kept⟩ := List.mem_filterMap.1 member
  rw [settleAll_eq] at made
  obtain ⟨first, peer, second, list, rfl⟩ := visitAll_split made
  have seen_willing : (visitAll settle first table).2.Willing := by
    rw [← settleAll_eq]
    exact MemoryTable.willing_kept.settleAll first table willing
  obtain ⟨link, stays, waits⟩ := settle_turn seen_willing kept
  refine ⟨stays, fun joining => ?_⟩
  obtain ⟨joined, other, taken⟩ := waits joining
  rw [holdings, list] at owned
  have turn := owned_turn settle Peer.holdings Settled.holdings _
    (fun peer _ table => .one (settle_step peer table)) owned
  obtain ⟨holding, held, here, -⟩ := turn peer.host other taken
  -- within the group only this peer has its address, and it holds nothing yet
  have alone : ∀ rival ∈ first ++ second, rival.host ≠ peer.host := by
    intro rival there same
    have gateway : rival.gateway = peer.gateway := Prefix.host_inj same
    rw [Sound, list, List.map_append, List.map_cons] at sound
    refine (List.nodup_cons.1 (List.nodup_middle.1 sound)).1 ?_
    rw [← List.map_append, ← gateway]
    exact List.mem_map_of_mem there
  have nothing : peer.holdings = [] := by simp [Peer.holdings, Peer.isInstalled, joined]
  refine ⟨holding, ?_, here.trans (by rw [Peer.host, Peer.host, link])⟩
  simp only [List.flatMap_cons, nothing, List.nil_append, List.mem_append, or_assoc] at held
  rcases held with early | settled | waiting | late
  · exact List.mem_append_left _ early
  · obtain ⟨result, made, held⟩ := List.mem_flatMap.1 settled
    obtain ⟨_, rival, _, rfl, rfl⟩ := visitAll_split made
    refine absurd ((net_of_mem_settled held).symm.trans here) (alone rival ?_)
    simp
  · obtain ⟨rival, there, held⟩ := List.mem_flatMap.1 waiting
    exact absurd ((Peer.net_of_mem_holdings held).symm.trans here)
      (alone rival (List.mem_append_right _ there))
  · exact List.mem_append_right _ late

/-! ## Destinations -/

namespace Services

/-- A destination that is left by a walk is what its turn made of it. -/
theorem sweep_split {σ : Type} {services : Services}
    {visit : Roster → Destination → σ → Settlement × σ} {table : σ} {net : Prefix} {after : Roster}
    (found : (services.sweep visit table).1.services.roster? net = some after) :
    ∃ first roster second, services.rosters.entries = first ++ (net, roster) :: second ∧
      (visit roster ⟨services.group, net⟩ (Entries.traverse
        (fun net roster table => visit roster ⟨services.group, net⟩ table) first table).2).1.roster =
          some after := by
  simp only [sweep, roster?, SortedMap.get?_filterMap] at found
  obtain ⟨settlement, made, left⟩ := Option.bind_eq_some_iff.1 found
  have member := (SortedMap.mem_entries_iff _ net settlement).2 made
  simp only [SortedMap.traverse, traverse_eq] at member
  obtain ⟨first, ⟨key, roster⟩, second, list, same⟩ := visitAll_split member
  obtain ⟨rfl, rfl⟩ := Prod.mk.inj same
  exact ⟨first, roster, second, list, by rw [traverse_eq]; exact left⟩

/-- No other destination of the group has the address, so if this one holds nothing at its
turn, then nobody of the group does. -/
theorem not_own_at_turn {σ : Type} {services : Services} {net : Prefix} {roster : Roster}
    {first second : List (Prefix × Roster)} {visit : Prefix → Roster → σ → Settlement × σ} {table : σ}
    {ahead behind : List Holding} {holding : Holding}
    (list : services.rosters.entries = first ++ (net, roster) :: second)
    (nothing : roster.holdings net = []) (here : holding.net = net)
    (held : holding ∈ ahead ++ ((visitAll (onEntry visit) first table).1.flatMap
      (fun entry => entry.2.holdings entry.1) ++ ((net, roster) :: second).flatMap
        fun entry => entry.2.holdings entry.1) ++ behind) : holding ∈ ahead ++ behind := by
  obtain ⟨smaller, greater⟩ := SortedMap.rank_of_split list
  simp only [List.flatMap_cons, nothing, List.nil_append, List.mem_append, or_assoc] at held
  rcases held with early | settled | waiting | late
  · exact List.mem_append_left _ early
  · obtain ⟨⟨key, settlement⟩, made, held⟩ := List.mem_flatMap.1 settled
    obtain ⟨before, rival, between, rfl, same⟩ := visitAll_split made
    obtain ⟨left, -, held⟩ := List.mem_flatMap.1 held
    have key_net : key = net := (Roster.net_of_mem_holdings held).symm.trans here
    have below := smaller rival (by simp)
    rw [← (Prod.mk.inj same).1, key_net] at below
    exact absurd below (Nat.lt_irrefl _)
  · obtain ⟨rival, there, held⟩ := List.mem_flatMap.1 waiting
    have key_net : rival.1 = net := (Roster.net_of_mem_holdings held).symm.trans here
    have above := greater rival there
    rw [key_net] at above
    exact absurd above (Nat.lt_irrefl _)
  · exact List.mem_append_right _ late

/-- After a commit an enabled destination is wanted, and if it has something pending, it has
no route, and somebody else holds its address. -/
theorem commit_turn {services : Services} (sound : services.Sound) {table : MemoryTable}
    (willing : table.Willing) {ahead behind : List Holding}
    (owned : Ledger.Owned ⟨ahead ++ services.holdings ++ behind, Lawful.routes table⟩)
    {selected : Option Address} {net : Prefix} {after : Roster}
    (found : (services.commit selected table).1.services.roster? net = some after)
    (enabled : after.disabled = false) :
    after.Wanted ∧ (after.hasPending = true → after.installed? = none ∧
      ∃ holding ∈ ahead ++ behind, holding.net = net) := by
  obtain ⟨first, roster, second, list, left⟩ := sweep_split found
  have stood : services.roster? net = some roster :=
    (services.rosters.mem_entries_iff net roster).1 (by simp [list])
  obtain ⟨here, listed⟩ := sound net roster stood
  have was_enabled : roster.disabled = false := by
    cases left ▸ roster.commit_after ⟨services.group, net⟩ selected _ with
    | kept => exact enabled
    | settled c member stays open_roster => exact open_roster
  have seen_willing : MemoryTable.Willing (Entries.traverse (fun net roster table =>
      roster.commit ⟨services.group, net⟩ selected table) first table).2 :=
    Entries.traverse_keeps _ _ willing fun _ roster table =>
      MemoryTable.willing_kept.commit roster _ _ table
  obtain ⟨wanted, waits⟩ := Roster.commit_turn listed was_enabled seen_willing left
  refine ⟨wanted, fun pending => ?_⟩
  obtain ⟨rfl, bare, other, taken⟩ := waits pending
  refine ⟨bare, ?_⟩
  rw [holdings, list] at owned
  rw [traverse_eq] at taken
  have turn := owned_turn
    (onEntry fun net roster table => Roster.commit roster ⟨services.group, net⟩ selected table)
    (fun entry => entry.2.holdings entry.1)
    (fun entry : Prefix × Settlement => entry.2.holdings entry.1) _
    (fun entry member table => .one (entry.2.commit_step (sound entry.1 entry.2
      ((services.rosters.mem_entries_iff _ _).1 (by simp [list, member]))).1
      ⟨services.group, entry.1⟩ selected table)) owned
  obtain ⟨holding, held, here, -⟩ := turn net other taken
  have nothing : after.holdings net = [] := by simp [Roster.holdings, bare]
  exact ⟨holding, not_own_at_turn list nothing here held, here⟩

/-- Over a willing table everything can be withdrawn. -/
theorem isEmpty_withdrawAll (services : Services) {table : MemoryTable} (willing : table.Willing) :
    (services.withdrawAll table).1.isEmpty = true := by
  by_contra some_left
  have listed : (services.withdrawAll table).1.rosters.entries ≠ [] := fun nothing => some_left (by
    rw [isEmpty, SortedMap.isEmpty, nothing]
    rfl)
  obtain ⟨⟨net, after⟩, member⟩ := List.exists_mem_of_ne_nil _ listed
  have found := (SortedMap.mem_entries_iff _ net after).1 member
  obtain ⟨first, roster, second, -, left⟩ := sweep_split found
  rw [Roster.giveUp_turn] at left
  · cases left
  · exact Entries.traverse_keeps _ _ willing fun _ roster table =>
      MemoryTable.willing_kept.giveUp roster _ table

end Services

/-! ## Groups -/

namespace Group

/-- What a pass leaves of a group: nobody is on the way out, and what still has something
pending has no route. -/
structure Cleared (group : Group) : Prop where
  peopled : group.peers.list ≠ []
  staying : ∀ peer ∈ group.peers.list, peer.state ≠ .leaving
  wanted : ∀ net roster, group.services.roster? net = some roster → roster.disabled = false →
    roster.Wanted
  bare : ∀ net roster, group.services.roster? net = some roster → roster.disabled = false →
    roster.hasPending = true → roster.installed? = none

/-- A cleared group claims what it has a route to. -/
theorem Cleared.claims_of_holding {group : Group} (cleared : group.Cleared) {holding : Holding}
    (member : holding ∈ group.holdings) : group.claims holding.net = true := by
  rw [claims_iff]
  rcases List.mem_append.1 member with held | held
  · obtain ⟨peer, listed, in_peer⟩ := List.mem_flatMap.1 held
    obtain ⟨installed, rfl⟩ := (peer.mem_holdings_iff holding).1 in_peer
    have active : peer.state = .active := by
      simpa [Peer.isInstalled, cleared.staying peer listed] using installed
    exact .inl ((Peers.claims_iff _ _).2 ⟨peer, listed, by simp [Peer.claimsAddress, active], rfl⟩)
  · obtain ⟨⟨net, roster⟩, listed, in_roster⟩ := List.mem_flatMap.1 held
    have found : group.services.roster? net = some roster :=
      (group.services.rosters.mem_entries_iff net roster).1 listed
    obtain ⟨enabled, -⟩ := (roster.mem_holdings_iff net holding).1 in_roster
    rw [Roster.net_of_mem_holdings in_roster]
    exact .inr ((Services.claims_iff _ net).2
      ⟨roster, found, enabled, cleared.wanted net roster found enabled⟩)

/-- Over a willing table a group that is left has peers. -/
theorem kept_peopled {group after : Group} {table : MemoryTable} (willing : table.Willing)
    (kept : (group.commit table).1.kept = some after) :
    after = ⟨group.settledPeers table, (group.sweptServices table).1.services⟩ ∧
      after.peers.list ≠ [] := by
  have swept_willing : (group.sweptServices table).2.Willing :=
    MemoryTable.willing_kept.sweptServices group table willing
  rw [commit_eq] at kept
  simp only at kept
  split at kept
  · rename_i nobody
    rw [if_pos (Services.isEmpty_withdrawAll _ swept_willing)] at kept
    cases kept
  · rename_i somebody
    cases kept
    refine ⟨rfl, fun nobody => somebody ?_⟩
    rw [Peers.isEmpty, nobody]
    rfl

theorem commit_turn {group after : Group} (sound : group.Sound) {table : MemoryTable}
    (willing : table.Willing) {ahead behind : List Holding}
    (owned : Ledger.Owned ⟨ahead ++ group.holdings ++ behind, Lawful.routes table⟩)
    (kept : (group.commit table).1.kept = some after) :
    after.Cleared ∧
      (∀ peer ∈ after.peers.list, peer.state = .joining →
        ∃ holding ∈ ahead ++ group.services.holdings ++ behind, holding.net = peer.host) ∧
      ∀ net roster, after.services.roster? net = some roster → roster.disabled = false →
        roster.hasPending = true →
          ∃ holding ∈ ahead ++ after.peers.holdings ++ behind, holding.net = net := by
  obtain ⟨rfl, peopled⟩ := kept_peopled willing kept
  have peers : ∀ peer ∈ (group.settledPeers table).list, peer.state ≠ .leaving ∧
      (peer.state = .joining →
        ∃ holding ∈ ahead ++ (group.services.holdings ++ behind), holding.net = peer.host) := by
    intro peer member
    rw [settledPeers, Peers.list_select] at member
    refine Peers.commit_turn sound.peers willing ?_ member
    simpa only [holdings, List.append_assoc] using owned
  have seen_willing := MemoryTable.willing_kept.settleAll group.peers.list table willing
  have settled := (((group.peers.commit_leads table).behind group.services.holdings).beside ahead
    behind).owned owned
  rw [← Peers.holdings_select] at settled
  have services : ∀ net roster,
      (group.sweptServices table).1.services.roster? net = some roster →
      roster.disabled = false → roster.Wanted ∧ (roster.hasPending = true →
        roster.installed? = none ∧ ∃ holding ∈
          (ahead ++ (group.settledPeers table).holdings) ++ behind, holding.net = net) := by
    intro net roster found enabled
    refine Services.commit_turn sound.services seen_willing ?_ found enabled
    simp only [Ledger.beside, List.append_assoc] at settled ⊢
    exact settled
  refine ⟨⟨peopled, fun peer member => (peers peer member).1, fun net roster found enabled =>
      (services net roster found enabled).1, fun net roster found enabled pending =>
        ((services net roster found enabled).2 pending).1⟩, ?_, ?_⟩
  · intro peer member joining
    simpa only [List.append_assoc] using (peers peer member).2 joining
  · exact fun net roster found enabled pending =>
      ((services net roster found enabled).2 pending).2

section Keeps

variable {σ : Type} [RoutingTable σ] {group : Group}

theorem Cleared.settledPeers_peopled (cleared : group.Cleared) (table : σ) :
    (group.settledPeers table).isEmpty = false := by
  obtain ⟨peer, member⟩ := List.exists_mem_of_ne_nil _ cleared.peopled
  obtain ⟨seen, outcome⟩ := Peers.exists_mem_commit group.peers table member
  obtain ⟨after, kept⟩ :=
    Option.isSome_iff_exists.1 (Peers.kept_of_stays (cleared.staying peer member) seen)
  have listed : (group.settledPeers table).list = (group.peers.commit table).2.1.list :=
    Peers.list_select _
  rw [Peers.isEmpty, listed, List.isEmpty_eq_false_iff]
  exact List.ne_nil_of_mem (outcome after kept)

theorem Cleared.peers_keep (cleared : group.Cleared) (table : σ) {holding : Holding}
    (held : holding ∈ group.peers.holdings) : holding ∈ (group.settledPeers table).holdings := by
  obtain ⟨peer, member, in_peer⟩ := List.mem_flatMap.1 held
  obtain ⟨installed, -⟩ := (peer.mem_holdings_iff holding).1 in_peer
  have active : peer.state = .active := by
    simpa [Peer.isInstalled, cleared.staying peer member] using installed
  obtain ⟨seen, outcome⟩ := Peers.exists_mem_commit group.peers table member
  rw [settledPeers, Peers.holdings_select]
  exact List.mem_flatMap.2 ⟨peer, outcome peer (by simp [Peers.settle, active]), in_peer⟩

theorem Cleared.services_keep (cleared : group.Cleared) (table : σ) {holding : Holding}
    (held : holding ∈ group.services.holdings) :
    holding ∈ (group.sweptServices table).1.services.holdings := by
  obtain ⟨⟨net, roster⟩, member, in_roster⟩ := List.mem_flatMap.1 held
  have found : group.services.roster? net = some roster :=
    (group.services.rosters.mem_entries_iff net roster).1 member
  obtain ⟨enabled, c, carries, -⟩ := (roster.mem_holdings_iff net holding).1 in_roster
  have quiet : roster.hasPending = false := by
    by_contra pending
    have bare := cleared.bare net roster found enabled (by simpa using pending)
    cases bare.symm.trans carries
  obtain ⟨seen, swept⟩ := roster?_sweptServices table found
  have left : (group.sweptServices table).1.services.roster? net = some roster :=
    swept.trans (by simp [Roster.commit, quiet])
  exact List.mem_flatMap.2 ⟨(net, roster), (SortedMap.mem_entries_iff _ net roster).2 left, in_roster⟩

/-- A commit takes nothing from a group that is cleared, whatever the table answers. -/
theorem commit_keeps (cleared : group.Cleared) (table : σ) :
    ∃ after, (group.commit table).1.kept = some after ∧
      (∀ holding ∈ group.peers.holdings, holding ∈ after.peers.holdings) ∧
      (∀ holding ∈ group.services.holdings, holding ∈ after.services.holdings) ∧
      ∀ net, group.claims net = true → after.claims net = true := by
  exact ⟨_, commit_of_peopled (cleared.settledPeers_peopled table),
    fun _ => cleared.peers_keep table, fun _ => cleared.services_keep table,
    fun _ => claims_settled table⟩

end Keeps

end Group

/-! ## Passes -/

namespace Router

def Cleared (router : Router) : Prop :=
  ∀ id group, router.groups.get? id = some group → group.Cleared

/-- A group has a route to the address. -/
def Reaches (router : Router) (id : GroupId) (net : Prefix) : Prop :=
  ∃ group, router.groups.get? id = some group ∧ ∃ holding ∈ group.holdings, holding.net = net

/-- Another group has a route to the address, or one behind `id` had one before. -/
def Elsewhere (before after : Router) (id : GroupId) (net : Prefix) : Prop :=
  (∃ other, other ≠ id ∧ after.Reaches other net) ∨
    ∃ other, rank id < rank other ∧ before.Reaches other net

/-- Who still waits for a route, waits because another entry has or had it. -/
def Blocked (before after : Router) : Prop :=
  ∀ id group, after.groups.get? id = some group →
    (∀ peer ∈ group.peers.list, peer.state = .joining →
      (∃ holding ∈ (before.group id).services.holdings ++ group.services.holdings,
        holding.net = peer.host) ∨ Elsewhere before after id peer.host) ∧
    ∀ net roster, group.services.roster? net = some roster → roster.disabled = false →
      roster.hasPending = true →
        (∃ holding ∈ group.peers.holdings, holding.net = net) ∨ Elsewhere before after id net

/-- A group that is left by a walk is what its turn made of it. -/
theorem walk_split {σ : Type} {router : Router} {visit : Group → σ → Group.Settled × σ} {table : σ}
    {id : GroupId} {after : Group}
    (found : (router.walk visit table).1.router.groups.get? id = some after) :
    ∃ first group second, router.groups.entries = first ++ (id, group) :: second ∧
      (visit group (Entries.traverse (fun _ group table => visit group table) first table).2).1.kept =
        some after := by
  simp only [walk, SortedMap.get?_filterMap] at found
  obtain ⟨settled, made, kept⟩ := Option.bind_eq_some_iff.1 found
  have member := (SortedMap.mem_entries_iff _ id settled).2 made
  simp only [SortedMap.traverse, traverse_eq] at member
  obtain ⟨first, ⟨key, group⟩, second, list, same⟩ := visitAll_split member
  obtain ⟨rfl, rfl⟩ := Prod.mk.inj same
  exact ⟨first, group, second, list, by rw [traverse_eq]; exact kept⟩

/-- What a walk made of the groups before a turn, it leaves. -/
theorem get?_walk_of_first {σ : Type} {router : Router} {visit : Group → σ → Group.Settled × σ}
    {table : σ} {first second : List (GroupId × Group)} {id : GroupId} {settled : Group.Settled}
    {after : Group} (list : router.groups.entries = first ++ second)
    (made : (id, settled) ∈
      (Entries.traverse (fun _ group table => visit group table) first table).1)
    (kept : settled.kept = some after) :
    (router.walk visit table).1.router.groups.get? id = some after := by
  simp only [walk, SortedMap.get?_filterMap]
  refine Option.bind_eq_some_iff.2 ⟨settled, ?_, kept⟩
  refine (SortedMap.mem_entries_iff _ id settled).1 ?_
  simp only [SortedMap.traverse, list, Entries.traverse_append]
  exact List.mem_append_left _ made

section Turns

variable {router : Router} {table : MemoryTable} {id : GroupId} {group : Group}
  {first second : List (GroupId × Group)}

/-- At the turn of a group every route has a holder: a group before it that was settled, the
group itself, or a group behind it. -/
theorem owned_group_turn (sound : router.Sound) (owned : (router.ledger table).Owned)
    (list : router.groups.entries = first ++ (id, group) :: second) :
    let settled := visitAll (onEntry fun _ group table => Group.commit group table) first table
    Ledger.Owned ⟨settled.1.flatMap (fun entry => entry.2.holdings) ++ group.holdings ++
      second.flatMap (fun entry => entry.2.holdings), Lawful.routes settled.2⟩ := by
  have whole : Ledger.Owned ⟨[] ++ (first ++ (id, group) :: second).flatMap
      (fun entry => entry.2.holdings) ++ [], Lawful.routes table⟩ := by
    rw [← list, List.nil_append, List.append_nil]
    exact owned
  have turn := owned_turn (onEntry fun _ group table => Group.commit group table)
    (fun entry => entry.2.holdings) (fun entry : GroupId × Group.Settled => entry.2.holdings)
    (fun entry table => entry.2.commitTrail table)
    (fun entry member table => entry.2.commit_leads (sound entry.1 entry.2
      ((router.groups.mem_entries_iff _ _).1 (by simp [list, member]))) table) whole
  simpa only [List.nil_append, List.append_nil, List.flatMap_cons, ← List.append_assoc] using turn

/-- What a group that was settled before holds, it holds after the pass. -/
theorem elsewhere_of_first (list : router.groups.entries = first ++ (id, group) :: second)
    {holding : Holding} (held : holding ∈ (visitAll
      (onEntry fun _ group table => Group.commit group table) first table).1.flatMap
        fun entry => entry.2.holdings) :
    Elsewhere router (router.commitOnce table).1.router id holding.net := by
  obtain ⟨⟨key, settled⟩, made, in_settled⟩ := List.mem_flatMap.1 held
  obtain ⟨left, kept, in_left⟩ := List.mem_flatMap.1 in_settled
  have stands : (router.commitOnce table).1.router.groups.get? key = some left :=
    get?_walk_of_first list (by rw [traverse_eq]; exact made) (Option.mem_toList.1 kept)
  obtain ⟨before, rival, behind, rfl, result⟩ := visitAll_split made
  have below := (SortedMap.rank_of_split list).1 rival (by simp)
  rw [← (Prod.mk.inj result).1] at below
  exact .inl ⟨key, fun equal => Nat.lt_irrefl _ (equal ▸ below), left, stands, holding, in_left, rfl⟩

/-- What a group behind holds at the turn, it held before the pass. -/
theorem elsewhere_of_second (list : router.groups.entries = first ++ (id, group) :: second)
    {after : Router} {holding : Holding}
    (held : holding ∈ second.flatMap fun entry => entry.2.holdings) :
    Elsewhere router after id holding.net := by
  obtain ⟨⟨key, rival⟩, member, held⟩ := List.mem_flatMap.1 held
  have stands := (router.groups.mem_entries_iff key rival).1 (by simp [list, member])
  exact .inr ⟨key, (SortedMap.rank_of_split list).2 _ member, rival, stands, holding, held, rfl⟩

end Turns

/-- One pass over a willing table clears every group, and whoever waits still is blocked. -/
theorem pass_turn {router : Router} (sound : router.Sound) {table : MemoryTable}
    (willing : table.Willing) (owned : (router.ledger table).Owned) :
    (router.commitOnce table).1.router.Cleared ∧
      Blocked router (router.commitOnce table).1.router := by
  have turn : ∀ id after, (router.commitOnce table).1.router.groups.get? id = some after →
      after.Cleared ∧
      (∀ peer ∈ after.peers.list, peer.state = .joining →
        (∃ holding ∈ (router.group id).services.holdings ++ after.services.holdings,
          holding.net = peer.host) ∨
          Elsewhere router (router.commitOnce table).1.router id peer.host) ∧
      ∀ net roster, after.services.roster? net = some roster → roster.disabled = false →
        roster.hasPending = true → (∃ holding ∈ after.peers.holdings, holding.net = net) ∨
          Elsewhere router (router.commitOnce table).1.router id net := by
    intro id after found
    obtain ⟨first, group, second, list, kept⟩ := walk_split found
    have stood : router.groups.get? id = some group :=
      (router.groups.mem_entries_iff id group).1 (by simp [list])
    have seen_willing : MemoryTable.Willing (Entries.traverse
        (fun _ group table => Group.commit group table) first table).2 :=
      Entries.traverse_keeps _ _ willing fun _ group table =>
        MemoryTable.willing_kept.commitGroup group table
    rw [traverse_eq] at seen_willing kept
    obtain ⟨cleared, peers, services⟩ := Group.commit_turn (sound id group stood) seen_willing
      (owned_group_turn sound owned list) kept
    refine ⟨cleared, fun peer member joining => ?_, fun net roster found enabled pending => ?_⟩
    · obtain ⟨holding, held, same⟩ := peers peer member joining
      rw [← same, group_of_get? stood]
      rcases List.mem_append.1 held with held | behind
      · rcases List.mem_append.1 held with ahead | own
        · exact .inr (elsewhere_of_first list ahead)
        · exact .inl ⟨holding, List.mem_append_left _ own, rfl⟩
      · exact .inr (elsewhere_of_second list behind)
    · obtain ⟨holding, held, rfl⟩ := services net roster found enabled pending
      rcases List.mem_append.1 held with held | behind
      · rcases List.mem_append.1 held with ahead | own
        · exact .inr (elsewhere_of_first list ahead)
        · exact .inl ⟨holding, own, rfl⟩
      · exact .inr (elsewhere_of_second list behind)
  exact ⟨fun id after found => (turn id after found).1, fun id after found => (turn id after found).2⟩

end Router

end OverlayRouting
