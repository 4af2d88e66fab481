/-
# OverlayRouting.Proofs.Claims -- what each operation does to the claims of a group

A group claims the addresses of the peers that join or are active, and the destinations
that are enabled and wanted.  Commits, probe rounds and removals claim nothing new, and a
commit frees no address of a peer (`Peers.claims_commit`).  Only admission can add a
claim, and it adds at most the address it names, with one exception: a peer is claimed
under its gateway, whatever destination was asked for (`Peers.claims_add`).
-/
import OverlayRouting.Proofs.Roster

namespace OverlayRouting

set_option autoImplicit false

variable {σ : Type} [RoutingTable σ]

/-! ## Peers -/

namespace Peers

theorem claims_iff (peers : Peers) (net : Prefix) :
    peers.claims net = true ↔
      ∃ peer ∈ peers.list, peer.claimsAddress = true ∧ peer.host = net := by
  simp [claims]

theorem claims_add (peers : Peers) (link : Link) (disabled : Bool) (net : Prefix) :
    (peers.add link disabled).2.claims net = true ↔
      peers.claims net = true ∨
        (peers.peer? link.gateway = none ∧ disabled = false ∧ link.host = net) := by
  unfold add
  split
  · rename_i known
    simp [known]
  · rename_i unknown
    have enrolled : (Peer.enroll link peers.windowSize disabled).claimsAddress = true ↔
        disabled = false := by
      cases disabled <;> simp [Peer.enroll, Peer.claimsAddress]
    simp only [claims_iff, List.mem_append, List.mem_singleton, or_and_right, exists_or,
      exists_eq_left, enrolled, unknown, true_and]
    exact Iff.rfl

theorem claims_of_remove {peers : Peers} {gateway : Address} {net : Prefix}
    (claimed : (peers.remove gateway).2.claims net = true) : peers.claims net = true := by
  unfold remove at claimed
  split at claimed
  · exact claimed
  · obtain ⟨peer, member, claims, host⟩ := (claims_iff _ net).1 claimed
    obtain ⟨before, stood, left⟩ := List.mem_filterMap.1 member
    split at left
    · -- a peer that was let go claims nothing, so nothing of it is among the claims
      unfold dismissed at left
      split at left <;> cases left
      · simp [Peer.claimsAddress] at claims
      · simp [Peer.claimsAddress] at claims
    · cases left
      exact (claims_iff peers net).2 ⟨peer, stood, claims, host⟩

theorem claims_enable (peers : Peers) (net other : Prefix) :
    (peers.enable net).2.claims other = true ↔
      peers.claims other = true ∨ (other = net ∧ net ∈ peers.disabled) := by
  have held : net ∈ peers.disabled ↔
      ∃ peer ∈ peers.list, peer.state = .disabled ∧ peer.host = net := by
    simp [disabled, and_assoc]
  unfold enable
  split
  · rename_i some_disabled
    simp only [claims_iff, held, List.mem_map]
    constructor
    · rintro ⟨_, ⟨peer, member, rfl⟩, claims, host⟩
      split at claims
      · rename_i frees
        rw [if_pos frees] at host
        obtain ⟨state, here⟩ : peer.state = .disabled ∧ peer.host = net := by simpa using frees
        exact .inr ⟨host.symm.trans here, peer, member, state, here⟩
      · rename_i stays
        rw [if_neg stays] at host
        exact .inl ⟨peer, member, claims, host⟩
    · rintro (⟨peer, member, claims, host⟩ | ⟨rfl, peer, member, state, host⟩)
      · have enabled : peer.state ≠ .disabled := fun state => by
          simp [Peer.claimsAddress, state] at claims
        exact ⟨_, ⟨peer, member, rfl⟩, by simpa [enabled] using claims, by simpa [enabled] using host⟩
      · refine ⟨_, ⟨peer, member, rfl⟩, ?_⟩
        rw [if_pos (by simp [state, host])]
        exact ⟨rfl, host⟩
  · rename_i none_disabled
    refine ⟨.inl, Or.rec id fun here => absurd ?_ none_disabled⟩
    obtain ⟨peer, member, state, host⟩ := held.1 here.2
    exact List.any_eq_true.2 ⟨peer, member, by simp [state, host]⟩

/-- A commit changes no claim: who joins claims its address before and after. -/
theorem claims_settle {peer after : Peer} {table : σ}
    (kept : (settle peer table).1.kept = some after) :
    after.claimsAddress = peer.claimsAddress ∧ after.link = peer.link := by
  unfold settle at kept
  split at kept
  · rename_i joining
    split at kept <;> cases kept <;> simp [Peer.claimsAddress, joining]
  · split at kept <;> cases kept
    exact ⟨rfl, rfl⟩
  all_goals
    cases kept
    exact ⟨rfl, rfl⟩

/-- Only a peer that leaves goes. -/
theorem kept_of_stays {peer : Peer} (stays : peer.state ≠ .leaving) (table : σ) :
    (settle peer table).1.kept.isSome := by
  unfold settle
  split
  · split <;> rfl
  · rename_i leaving
    exact absurd leaving stays
  all_goals rfl

theorem claims_commit (peers : Peers) (table : σ) (net : Prefix) :
    (peers.commit table).2.1.claims net = true ↔ peers.claims net = true := by
  simp only [claims_iff]
  constructor
  · rintro ⟨peer, member, claims, host⟩
    obtain ⟨before, stood, seen, kept⟩ := mem_commit peers table member
    obtain ⟨same, link⟩ := claims_settle kept
    exact ⟨before, stood, same ▸ claims, by rw [← host, Peer.host, Peer.host, link]⟩
  · rintro ⟨peer, stood, claims, host⟩
    obtain ⟨seen, outcome⟩ := exists_mem_commit peers table stood
    have stays : peer.state ≠ .leaving := fun leaving => by
      simp [Peer.claimsAddress, leaving] at claims
    obtain ⟨after, kept⟩ := Option.isSome_iff_exists.1 (kept_of_stays stays seen)
    obtain ⟨same, link⟩ := claims_settle kept
    exact ⟨after, outcome after kept, same ▸ claims, by rw [← host, Peer.host, Peer.host, link]⟩

theorem claims_select (peers : Peers) (net : Prefix) :
    peers.select.2.claims net = peers.claims net := by
  rw [claims, claims, list_select]

theorem claims_ping (peers : Peers) (tallies : Tallies) (net : Prefix) :
    (peers.ping tallies).claims net = peers.claims net := by
  have same : ∀ peer : Peer, (measured tallies peer).claimsAddress = peer.claimsAddress ∧
      (measured tallies peer).host = peer.host := fun peer => by
    unfold measured
    split
    · exact ⟨rfl, rfl⟩
    · split <;> exact ⟨rfl, rfl⟩
  simp only [claims, ping, List.any_map, Function.comp_def, (same _).1, (same _).2]

end Peers

/-! ## Destinations -/

namespace Services

/-- Admitting a link claims a destination anew in two cases: it is new and not kept out,
or it is enabled and the link is a new candidate for it. -/
theorem claims_add (services : Services) (link : Link) (net other : Prefix) (disabled : Bool) :
    (services.add link net disabled).2.claims other = true ↔
      services.claims other = true ∨ (other = net ∧
        ((services.roster? net = none ∧ disabled = false) ∨
          ∃ roster, services.roster? net = some roster ∧ roster.disabled = false ∧
            roster.candidate? link.gateway = none)) := by
  by_cases here : net = other
  · subst here
    have stands : (services.add link net disabled).2.roster? net =
        some (((services.roster? net).getD { disabled }).add link).2 :=
      SortedMap.get?_insert_self _ _ _
    rw [claims_iff, stands, claims_iff]
    cases found : services.roster? net with
    | none =>
        cases disabled <;>
          simp [Roster.add, Roster.candidate?, Roster.Wanted, Candidate.isLeaving]
    | some roster =>
        cases listed : roster.candidate? link.gateway with
        | none =>
            cases enabled : roster.disabled <;>
              simp [Roster.add, Roster.Wanted, Candidate.isLeaving, listed, enabled]
        | some c => simp [Roster.add, listed]
  · have stands : (services.add link net disabled).2.roster? other = services.roster? other :=
      SortedMap.get?_insert_of_ne _ _ here
    rw [claims_iff, stands, ← claims_iff]
    simp [Ne.symm here]

theorem wanted_of_remove {roster : Roster} {gateway : Address}
    (wanted : (roster.remove gateway).Wanted) : roster.Wanted := by
  obtain ⟨c, member, stays⟩ := wanted
  obtain ⟨before, stood, left⟩ := List.mem_filterMap.1 member
  split at left
  · -- what is left of a dismissed candidate leaves
    unfold Roster.dismissed at left
    split at left <;> cases left <;> simp_all [Candidate.isLeaving]
  · cases left
    exact ⟨c, stood, stays⟩

theorem claims_of_remove {services : Services} {link : Link} {net other : Prefix}
    (claimed : (services.remove link net).2.claims other = true) :
    services.claims other = true := by
  unfold remove at claimed
  split at claimed
  · exact claimed
  · rename_i roster found
    obtain ⟨left, stands, enabled, wanted⟩ := (claims_iff _ other).1 claimed
    refine (claims_iff services other).2 ?_
    simp only [roster?] at stands
    split at stands
    · rw [SortedMap.get?_erase] at stands
      split at stands
      · cases stands
      · exact ⟨left, stands, enabled, wanted⟩
    · rw [SortedMap.get?_insert] at stands
      split at stands
      · rename_i here
        cases rank_inj here
        cases stands
        exact ⟨roster, found, enabled, wanted_of_remove wanted⟩
      · exact ⟨left, stands, enabled, wanted⟩

/-- Admitting a destination again claims nothing but it. -/
theorem claims_of_enable {services : Services} {net other : Prefix}
    (claimed : (services.enable net).2.claims other = true) :
    services.claims other = true ∨ other = net := by
  obtain ⟨after, stands, enabled, wanted⟩ := (claims_iff _ other).1 claimed
  rcases of_roster?_enable stands with ⟨same, -⟩ | ⟨here, -⟩
  · exact .inl ((claims_iff services other).2 ⟨after, same, enabled, wanted⟩)
  · exact .inr here

/-- What a settled roster claims, it claimed before. -/
theorem wanted_of_after {roster after : Roster} (outcome : roster.After (some after))
    (enabled : after.disabled = false) (wanted : after.Wanted) :
    roster.disabled = false ∧ roster.Wanted := by
  cases outcome with
  | kept => exact ⟨enabled, wanted⟩
  | settled c member stays enabled => exact ⟨enabled, c, member, stays⟩

omit [RoutingTable σ] in
theorem claims_of_sweep {services : Services} {visit : Roster → Destination → σ → Settlement × σ}
    {table : σ} {net : Prefix}
    (outcome : ∀ (roster : Roster) destination table,
      roster.After (visit roster destination table).1.roster)
    (claimed : (services.sweep visit table).1.services.claims net = true) :
    services.claims net = true := by
  obtain ⟨after, stands, enabled, wanted⟩ := (claims_iff _ net).1 claimed
  obtain ⟨roster, seen, found, became⟩ := Services.of_roster?_sweep stands
  obtain ⟨was_enabled, was_wanted⟩ :=
    wanted_of_after (became ▸ outcome roster ⟨services.group, net⟩ seen) enabled wanted
  exact (claims_iff services net).2 ⟨roster, found, was_enabled, was_wanted⟩

theorem claims_of_reroute {services : Services} {selected : Option Address} {table : σ}
    {net : Prefix} (claimed : (services.reroute selected table).2.1.claims net = true) :
    services.claims net = true := by
  unfold reroute at claimed
  split at claimed
  · exact claimed
  · exact claims_of_sweep (fun roster destination table =>
      roster.reroute_after destination _ table) claimed

end Services

/-! ## Groups -/

namespace Group

theorem claims_iff (group : Group) (net : Prefix) :
    group.claims net = true ↔ group.peers.claims net = true ∨ group.services.claims net = true := by
  simp [claims]

/-- The addresses that a group claims. -/
def claimed (group : Group) : List Prefix :=
  (group.peers.list.map Peer.host ++ group.services.rosters.keys).filter group.claims

theorem mem_claimed_iff (group : Group) (net : Prefix) :
    net ∈ group.claimed ↔ group.claims net = true := by
  have listed : group.claims net = true →
      net ∈ group.peers.list.map Peer.host ++ group.services.rosters.keys := by
    intro claims
    rcases (claims_iff group net).1 claims with peers | services
    · obtain ⟨peer, member, -, rfl⟩ := (Peers.claims_iff _ net).1 peers
      exact List.mem_append_left _ (List.mem_map_of_mem member)
    · obtain ⟨roster, found, -⟩ := (Services.claims_iff _ net).1 services
      refine List.mem_append_right _ ((SortedMap.mem_keys_iff _ net).2 ?_)
      exact Option.isSome_iff_exists.2 ⟨roster, found⟩
  rw [claimed, List.mem_filter]
  exact ⟨And.right, fun claims => ⟨listed claims, claims⟩⟩

theorem not_claims_empty (id : GroupId) (windowSize : Nat) (margins : Margins) (net : Prefix) :
    (empty id windowSize margins).claims net = false := rfl

/-- A group that is left has its committed peers and its committed destinations, or what
of those could not be withdrawn. -/
theorem kept_commit {group after : Group} {table : σ}
    (kept : (group.commit table).1.kept = some after) :
    after.peers = group.settledPeers table ∧
      let swept := group.sweptServices table
      after.services = swept.1.services ∨
        after.services = (swept.1.services.withdrawAll swept.2).1 := by
  rw [commit_eq] at kept
  simp only at kept
  split at kept
  · simp only at kept
    split at kept
    · cases kept
    · cases kept
      exact ⟨rfl, .inr rfl⟩
  · cases kept
    exact ⟨rfl, .inl rfl⟩

theorem kept_ping {group after : Group} {tallies : Tallies} {table : σ}
    (kept : (group.ping tallies table).1.kept = some after) :
    let selected := (group.peers.ping tallies).select
    after.peers = selected.2 ∧
      after.services = (group.services.reroute (selected.1.map Peer.gateway) table).2.1 := by
  cases kept
  exact ⟨rfl, rfl⟩

theorem claims_of_commit {group after : Group} {table : σ} {net : Prefix}
    (kept : (group.commit table).1.kept = some after) (claimed : after.claims net = true) :
    group.claims net = true := by
  obtain ⟨peers, services⟩ := kept_commit kept
  have swept : (group.sweptServices table).1.services.claims net = true →
      group.services.claims net = true :=
    Services.claims_of_sweep fun roster destination table =>
      roster.commit_after destination _ table
  rw [claims_iff] at claimed ⊢
  refine claimed.imp (fun claims => ?_) fun claims => swept ?_
  · rwa [peers, settledPeers, Peers.claims_select, Peers.claims_commit] at claims
  · rcases services with same | withdrawn
    · rwa [← same]
    · rw [withdrawn] at claims
      exact Services.claims_of_sweep Roster.giveUp_after claims

theorem claims_of_ping {group after : Group} {tallies : Tallies} {table : σ} {net : Prefix}
    (kept : (group.ping tallies table).1.kept = some after) (claimed : after.claims net = true) :
    group.claims net = true := by
  obtain ⟨peers, services⟩ := kept_ping kept
  rw [claims_iff] at claimed ⊢
  refine claimed.imp (fun claims => ?_) fun claims => ?_
  · rwa [peers, Peers.claims_select, Peers.claims_ping] at claims
  · rw [services] at claims
    exact Services.claims_of_reroute claims

end Group

/-! ## Requests -/

theorem Router.group_of_get? {router : Router} {id : GroupId} {group : Group}
    (found : router.groups.get? id = some group) : router.group id = group := by
  simp [Router.group, found]

theorem Router.dismiss_service (group : Group) (link : Link) (net : Prefix) :
    (Router.dismiss group link .service net).2 =
      { group with services := (group.services.remove link net).2 } := by
  simp only [Router.dismiss]
  split <;> rename_i left <;> rw [left]

end OverlayRouting
