/-
# OverlayRouting.Proofs.Convergence -- how an apply comes to rest

An apply ends with a resolution.  So whatever is disabled after it is claimed by somebody
else, and by one group only if claims excluded each other before (`Router.kept_out_by_one`).
This holds whatever the table answers.

Over a table that refuses the same destinations all the time, the first pass withdraws all
that can be withdrawn at all.  What is left on the way out is stuck (`Group.Stuck`): its
destination is among those that are refused.  So a second pass frees no claim, nothing that
was contested becomes free, and the resolution after it admits nothing.  Two passes are
enough, and the bound on their number is never felt (`Router.passes_suffice`).
-/
import OverlayRouting.Proofs.Keeps
import OverlayRouting.Proofs.Resolve
import OverlayRouting.Proofs.Sound
import OverlayRouting.Proofs.Table

namespace OverlayRouting

set_option autoImplicit false

/-! ## What a commit does to claims and to disabled addresses -/

section Commits

variable {σ : Type} [RoutingTable σ]

omit [RoutingTable σ] in
theorem Services.of_mem_disabled_sweep {services : Services}
    {visit : Roster → Destination → σ → Settlement × σ} {table : σ} {net : Prefix}
    (outcome : ∀ (roster : Roster) destination table,
      roster.After (visit roster destination table).1.roster)
    (member : net ∈ (services.sweep visit table).1.services.disabled) :
    net ∈ services.disabled := by
  obtain ⟨after, stands, disabled⟩ := (mem_disabled_iff _ net).1 member
  obtain ⟨roster, seen, found, became⟩ := of_roster?_sweep stands
  refine (mem_disabled_iff _ net).2 ⟨roster, found, ?_⟩
  cases became ▸ outcome roster ⟨services.group, net⟩ seen with
  | kept => exact disabled
  | settled c member stays enabled => exact disabled

/-- A commit disables nothing. -/
theorem Router.Held.of_mem_commit {held : Held} (kind : held.Kind) {group after : Group} {table : σ}
    (kept : (group.commit table).1.kept = some after) {net : Prefix}
    (member : net ∈ held.addresses after) : net ∈ held.addresses group := by
  obtain ⟨peers, services⟩ := Group.kept_commit kept
  cases kind with
  | peers =>
      obtain ⟨peer, listed, state, host⟩ := (Peers.mem_disabled_iff _ net).1 member
      rw [peers, Group.settledPeers, Peers.list_select] at listed
      obtain ⟨before, stood, seen, left⟩ := Peers.mem_commit _ _ listed
      have was : before.state = .disabled := by
        unfold Peers.settle at left
        split at left
        · split at left <;> cases left <;> simp_all
        · split at left <;> cases left
          simp_all
        all_goals
          cases left
          exact state
      have link := (Peers.claims_settle left).2
      exact (Peers.mem_disabled_iff _ net).2
        ⟨before, stood, was, by rw [← host, Peer.host, Peer.host, link]⟩
  | services =>
      have swept : net ∈ (group.sweptServices table).1.services.disabled →
          net ∈ group.services.disabled :=
        Services.of_mem_disabled_sweep fun roster destination table =>
          roster.commit_after destination _ table
      rcases services with same | withdrawn
      · exact swept (same ▸ member)
      · have left : net ∈ after.services.disabled := member
        rw [withdrawn] at left
        exact swept (Services.of_mem_disabled_sweep Roster.giveUp_after left)

namespace Group

theorem roster?_sweptServices {group : Group} (table : σ) {net : Prefix} {roster : Roster}
    (found : group.services.roster? net = some roster) :
    ∃ seen : σ, (group.sweptServices table).1.services.roster? net =
      (roster.commit ⟨group.services.group, net⟩ (group.selectedGateway table) seen).1.roster := by
  obtain ⟨seen, swept⟩ := group.services.roster?_sweep (fun roster destination =>
    roster.commit destination (group.selectedGateway table)) (group.peers.commit table).2.2 net
  rw [found] at swept
  exact ⟨seen, swept⟩

/-- Before anything is given up, a commit frees no claim. -/
theorem claims_settled {group : Group} (table : σ) {net : Prefix} (claimed : group.claims net = true) :
    claims ⟨group.settledPeers table, (group.sweptServices table).1.services⟩ net = true := by
  rw [claims_iff] at claimed ⊢
  refine claimed.imp (fun claims => ?_) fun claims => ?_
  · simpa only [settledPeers, Peers.claims_select, Peers.claims_commit] using claims
  · obtain ⟨roster, found, enabled, wanted⟩ := (Services.claims_iff _ net).1 claims
    obtain ⟨seen, swept⟩ := roster?_sweptServices table found
    obtain ⟨after, left, still⟩ :=
      roster.commit_wanted ⟨group.services.group, net⟩ (group.selectedGateway table) seen enabled wanted
    exact (Services.claims_iff _ net).2 ⟨after, swept.trans left, still⟩

/-- A group that has peers left gives nothing up. -/
theorem commit_of_peopled {group : Group} {table : σ}
    (peopled : (group.settledPeers table).isEmpty = false) :
    (group.commit table).1.kept =
      some ⟨group.settledPeers table, (group.sweptServices table).1.services⟩ := by
  simp only [commit_eq, peopled, Bool.false_eq_true, if_false]

/-- A group without peers is left with what could not be withdrawn. -/
theorem commit_of_alone {group : Group} {table : σ}
    (alone : (group.settledPeers table).isEmpty = true)
    (some_left : ((group.sweptServices table).1.services.withdrawAll
      (group.sweptServices table).2).1.isEmpty = false) :
    (group.commit table).1.kept = some ⟨group.settledPeers table,
      ((group.sweptServices table).1.services.withdrawAll (group.sweptServices table).2).1⟩ := by
  simp only [commit_eq, alone, if_true, some_left, Bool.false_eq_true, if_false]

end Group

/-- If a pass frees no claim, then whatever was contested is contested after it. -/
theorem Router.Contested.commitOnce {router : Router} (contested : router.Contested) {table : σ}
    (keeps : ∀ id group net, router.groups.get? id = some group → group.claims net = true →
      ∃ left, (router.commitOnce table).1.router.groups.get? id = some left ∧
        left.claims net = true) :
    (router.commitOnce table).1.router.Contested := by
  intro held kind id net member
  cases stands : (router.commitOnce table).1.router.groups.get? id with
  | none =>
      rw [Router.group, stands] at member
      cases kind <;> cases member
  | some after =>
      rw [group_of_get? stands] at member
      obtain ⟨group, seen, stood, kept⟩ := of_get?_walk stands
      have before := Held.of_mem_commit kind kept member
      rw [← group_of_get? stood] at before
      obtain ⟨other, rival, differs, rivalStood, claims⟩ :=
        (hasConflict_iff router net id).1 (contested held kind id net before)
      obtain ⟨left, rivalStands, still⟩ := keeps other rival net rivalStood claims
      exact (hasConflict_iff _ net id).2 ⟨other, left, differs, rivalStands, still⟩

end Commits

/-! ## Who is kept out after an apply -/

/-- The group asked for the address and is kept out of it: it is that of a disabled peer, or a
disabled destination. -/
def Group.KeptOut (group : Group) (net : Prefix) : Prop :=
  (∃ peer ∈ group.peers.list, peer.state = .disabled ∧ peer.host = net) ∨
    ∃ roster, group.services.roster? net = some roster ∧ roster.disabled = true

namespace Router

theorem Contested.hasConflict {router : Router} (contested : router.Contested) {id : GroupId}
    {group : Group} {net : Prefix} (stands : router.groups.get? id = some group)
    (keptOut : group.KeptOut net) : router.hasConflict net id = true := by
  have same : router.group id = group := group_of_get? stands
  rcases keptOut with peer | roster
  · refine contested _ .peers id net ?_
    rw [same]
    exact (Peers.mem_disabled_iff group.peers net).2 peer
  · refine contested _ .services id net ?_
    rw [same]
    exact (Services.mem_disabled_iff group.services net).2 roster

section Passes

variable {σ : Type} [RoutingTable σ]

theorem commitPasses_contested (fuel : Nat) (report : Report) (router : Router) (table : σ) :
    (commitPasses (fuel + 1) report router table).2.1.Contested := by
  induction fuel generalizing report router table with
  | zero =>
      simp only [commitPasses]
      split <;> exact resolve_contested _
  | succ fuel ih =>
      rw [commitPasses]
      simp only
      split
      · exact resolve_contested _
      · exact ih _ _ _

/-- After an apply claims exclude each other if they did before, and an address that a group is
kept out of is claimed by exactly one other group, whatever the table answers. -/
theorem kept_out_by_one {router : Router} (exclusive : router.Exclusive) (table : σ) :
    let after := (router.apply table).2.1
    after.Exclusive ∧ ∀ id group net, after.groups.get? id = some group → group.KeptOut net →
      ∃! other, other ≠ id ∧
        ∃ rival, after.groups.get? other = some rival ∧ rival.claims net = true := by
  intro after
  have still : after.Exclusive := exclusive.apply table
  have contested : after.Contested := commitPasses_contested _ {} router table
  refine ⟨still, fun id group net stands keptOut => ?_⟩
  obtain ⟨other, rival, differs, rivalStands, claims⟩ :=
    (hasConflict_iff after net id).1 (contested.hasConflict stands keptOut)
  refine ⟨other, ⟨differs, rival, rivalStands, claims⟩, ?_⟩
  rintro another ⟨-, also, alsoStands, alsoClaims⟩
  exact still net another other also rival alsoStands rivalStands alsoClaims claims

/-- Two groups wait for the network of a third one that leaves.  The first of them gets it, and
that alone keeps the other one out. -/
theorem kept_out_by_the_first :
    let link id := Sample.link "wg" (BitVec.ofNat 32 id) (UInt32.ofNat id) (UInt32.ofNat id)
    let router := (run [.add (link 1) [(link 1).host, Sample.lan],
      .add (link 2) [(link 2).host, Sample.lan], .add (link 3) [(link 3).host, Sample.lan],
      .remove (link 1) [(link 1).host, Sample.lan]] (Router.fresh {} ({} : MemoryTable))).1
    let after := (router.apply ({} : MemoryTable)).2.1
    router.Exclusive ∧ (after.group ⟨3⟩).KeptOut Sample.lan ∧
      ∃! other, other ≠ ⟨3⟩ ∧
        ∃ rival, after.groups.get? other = some rival ∧ rival.claims Sample.lan = true := by
  intro link router after
  have exclusive : router.Exclusive := by decide +kernel
  have stands : after.groups.get? ⟨3⟩ = some (after.group ⟨3⟩) := by decide +kernel
  have disabled : Sample.lan ∈ (after.group ⟨3⟩).services.disabled := by decide +kernel
  have keptOut : (after.group ⟨3⟩).KeptOut Sample.lan :=
    .inr ((Services.mem_disabled_iff _ Sample.lan).1 disabled)
  exact ⟨exclusive, keptOut, (kept_out_by_one exclusive _).2 ⟨3⟩ _ Sample.lan stands keptOut⟩

end Passes

end Router

/-! ## What is stuck -/

theorem MemoryTable.remove_of_failing {table : MemoryTable} {net : Prefix}
    (failing : net ∈ table.failing) (ifname : String) :
    ∃ cause left, RoutingTable.remove ifname net table = (.error cause, left) :=
  ⟨_, _, if_pos failing⟩

theorem MemoryTable.failing_of_remove {table : MemoryTable} {ifname : String} {net : Prefix}
    {cause : Error} (refused : (RoutingTable.remove ifname net table).1 = .error cause) :
    net ∈ table.failing := by
  rcases remove_spec ifname net table with ⟨-, -, failing, -⟩ | ⟨done, -⟩
  · exact failing
  · cases refused.symm.trans done

/-- A peer that is on the way out after its turn could not be withdrawn. -/
theorem Peers.settle_leaving {peer after : Peer} {table : MemoryTable}
    (kept : (settle peer table).1.kept = some after) (leaving : after.state = .leaving) :
    after.host ∈ table.failing := by
  unfold settle at kept
  split at kept
  · rename_i joining
    split at kept <;> cases kept
    · cases leaving
    · cases joining.symm.trans leaving
  · split at kept
    · cases kept
    · rename_i cause left asked
      cases kept
      exact MemoryTable.failing_of_remove (congrArg Prod.fst asked)
  all_goals
    rename_i state
    cases kept
    cases state.symm.trans leaving

/-- A peer stays that could not be withdrawn. -/
theorem Peers.settle_stuck {peer : Peer} {table : MemoryTable}
    (stuck : peer.state = .leaving → peer.host ∈ table.failing) :
    ∃ after, (settle peer table).1.kept = some after := by
  by_cases leaving : peer.state = .leaving
  · obtain ⟨cause, left, asked⟩ :=
      MemoryTable.remove_of_failing (stuck leaving) peer.link.ifname
    exact ⟨peer, by simp only [settle, leaving, asked]⟩
  · exact Option.isSome_iff_exists.1 (kept_of_stays leaving table)

namespace Roster

/-- The destination may be served, and it is. -/
def Carried (roster : Roster) : Prop := roster.disabled = false ∧ roster.installed?.isSome

theorem carried_settle {roster : Roster} {c : Candidate} (member : c ∈ roster.candidates)
    (stays : c.isLeaving = false) (enabled : roster.disabled = false) :
    (roster.settle (some c.gateway)).Carried := by
  refine ⟨enabled, List.find?_isSome.2 ⟨_, mem_settle.2 ⟨c, member, stays, rfl⟩, ?_⟩⟩
  simp [Candidate.isInstalled]

variable {roster : Roster} {destination : Destination} {table : MemoryTable}

theorem withdraw_of_failing (carried : roster.Carried) (failing : destination.net ∈ table.failing) :
    (roster.withdraw destination table).1.roster = some roster := by
  obtain ⟨c, installed⟩ := Option.isSome_iff_exists.1 carried.2
  obtain ⟨cause, left, asked⟩ := MemoryTable.remove_of_failing failing c.link.ifname
  simp only [withdraw, installed, asked]

theorem giveUp_of_failing (carried : roster.Carried) (failing : destination.net ∈ table.failing) :
    (roster.giveUp destination table).1.roster = some roster := by
  unfold giveUp
  rw [if_neg (by simp [carried.1])]
  exact withdraw_of_failing carried failing

/-- What is left of a destination that was given up could not be withdrawn. -/
theorem giveUp_left {after : Roster}
    (left : (roster.giveUp destination table).1.roster = some after) :
    after.Carried ∧ destination.net ∈ table.failing := by
  unfold giveUp at left
  split at left
  · cases left
  · rename_i enabled
    have left : (roster.withdraw destination table).1.roster = some after := left
    unfold withdraw at left
    split at left
    · cases left
    · rename_i c installed
      split at left
      · cases left
      · rename_i cause refused asked
        cases left
        refine ⟨⟨by simpa using enabled, by rw [installed]; rfl⟩, ?_⟩
        exact MemoryTable.failing_of_remove (congrArg Prod.fst asked)

/-- A destination that cannot be withdrawn is carried after its turn, and by the same route. -/
theorem commit_of_failing {selected : Option Address} (carried : roster.Carried)
    (failing : destination.net ∈ table.failing) {after : Roster}
    (left : (roster.commit destination selected table).1.roster = some after) : after.Carried := by
  revert left
  refine commit_cases (motive := fun made => made.1.roster = some after → after.Carried)
    roster destination selected table ?_ ?_ ?_ ?_
  · intro _ left
    cases left
    exact carried
  · intro _ _ joining _
    obtain ⟨c, installed⟩ := Option.isSome_iff_exists.1 carried.2
    obtain ⟨member, carries⟩ := mem_of_installed? installed
    simp [Candidate.isInstalled, joining c member] at carries
  · intro _ _ _ left
    cases (withdraw_of_failing carried failing).symm.trans left
    exact carried
  · intro enabled _ wanted left
    obtain ⟨new, chosen⟩ := Option.isSome_iff_exists.1 (successor_isSome wanted selected)
    obtain ⟨member, stays⟩ := mem_of_successor chosen
    simp only [reconfigure, chosen] at left
    split at left <;> cases left
    · exact carried_settle member stays enabled
    · exact carried

end Roster

namespace Group

/-- What a pass leaves of a group over a table that refuses these destinations: who is on the
way out still cannot go. -/
structure Stuck (nets : List Prefix) (group : Group) : Prop where
  leaving : ∀ peer ∈ group.peers.list, peer.state = .leaving → peer.host ∈ nets
  alone : group.peers.list = [] → ∀ net roster, group.services.roster? net = some roster →
    roster.Carried ∧ net ∈ nets

variable {nets : List Prefix} {group : Group} {table : MemoryTable}

theorem stuck_commit {after : Group} (failing : table.failing = nets)
    (kept : (group.commit table).1.kept = some after) : after.Stuck nets := by
  have committed := kept
  rw [commit_eq] at committed
  refine ⟨fun peer member leaving => ?_, fun nobody net roster stands => ?_⟩
  · rw [(kept_commit kept).1, settledPeers, Peers.list_select] at member
    obtain ⟨before, -, seen, same, became⟩ := Peers.mem_commit_within _
      (MemoryTable.failing_kept nets).settle group.peers failing member
    exact same ▸ Peers.settle_leaving became leaving
  · rw [(kept_commit kept).1] at nobody
    have alone : (group.settledPeers table).isEmpty = true := List.isEmpty_iff.2 nobody
    simp only [alone, if_true] at committed
    split at committed
    · cases committed
    · cases committed
      have swept := (MemoryTable.failing_kept nets).sweptServices group table failing
      obtain ⟨seen, same, left⟩ := (group.sweptServices table).1.services.roster?_sweep_within _
        (MemoryTable.failing_kept nets).giveUp swept net
      obtain ⟨before, -, became⟩ := Option.bind_eq_some_iff.1 (left.symm.trans stands)
      exact same ▸ Roster.giveUp_left became

theorem Stuck.settledPeers_peopled (stuck : group.Stuck nets) (failing : table.failing = nets)
    (somebody : group.peers.list ≠ []) : (group.settledPeers table).isEmpty = false := by
  obtain ⟨peer, member⟩ := List.exists_mem_of_ne_nil _ somebody
  obtain ⟨seen, same, outcome⟩ := Peers.exists_mem_commit_within _
    (MemoryTable.failing_kept nets).settle group.peers failing member
  obtain ⟨after, kept⟩ : ∃ after, (Peers.settle peer seen).1.kept = some after :=
    Peers.settle_stuck fun leaving => same ▸ stuck.leaving peer member leaving
  have listed : after ∈ (group.settledPeers table).list := by
    rw [settledPeers, Peers.list_select]
    exact outcome after kept
  rw [Peers.isEmpty, List.isEmpty_eq_false_iff]
  exact List.ne_nil_of_mem listed

/-- Without peers the destinations of a stuck group are given up, and none of them goes. -/
theorem Stuck.commit_alone (stuck : group.Stuck nets) (failing : table.failing = nets)
    (nobody : group.peers.list = []) {net : Prefix} (claimed : group.services.claims net = true) :
    ∃ after, (group.commit table).1.kept = some after ∧ after.services.claims net = true := by
  obtain ⟨roster, found, enabled, wanted⟩ := (Services.claims_iff _ net).1 claimed
  obtain ⟨carried, refused⟩ := stuck.alone nobody net roster found
  have keeps := MemoryTable.failing_kept nets
  -- the commit leaves the destination wanted and carried
  obtain ⟨seen, same, swept⟩ := group.services.roster?_sweep_within _
    (fun roster destination => keeps.commit roster destination (group.selectedGateway table))
    (keeps.settleAll group.peers.list table failing) net
  rw [found, Option.bind_some] at swept
  obtain ⟨left, became, wanted_still⟩ :=
    roster.commit_wanted ⟨group.services.group, net⟩ (group.selectedGateway table) seen enabled wanted
  have carries : left.Carried := Roster.commit_of_failing carried (same ▸ refused) became
  have standing : (group.sweptServices table).1.services.roster? net = some left :=
    swept.trans became
  -- and the withdrawal that follows is refused
  obtain ⟨later, also, withdrawn⟩ := (group.sweptServices table).1.services.roster?_sweep_within _
    keeps.giveUp (keeps.sweptServices group table failing) net
  rw [standing, Option.bind_some, Roster.giveUp_of_failing carries (also ▸ refused)] at withdrawn
  have alone : (group.settledPeers table).isEmpty = true := by
    rw [Peers.isEmpty, settledPeers, Peers.list_select, Peers.commit, nobody]
    rfl
  have some_left : ((group.sweptServices table).1.services.withdrawAll
      (group.sweptServices table).2).1.isEmpty = false := by
    have listed := (SortedMap.mem_entries_iff _ net left).2 withdrawn
    exact List.isEmpty_eq_false_iff.2 (List.ne_nil_of_mem listed)
  exact ⟨_, commit_of_alone alone some_left,
    (Services.claims_iff _ net).2 ⟨left, withdrawn, wanted_still⟩⟩

/-- A commit frees no claim of a group that is stuck. -/
theorem Stuck.commit_keeps (stuck : group.Stuck nets) (failing : table.failing = nets)
    {net : Prefix} (claimed : group.claims net = true) :
    ∃ after, (group.commit table).1.kept = some after ∧ after.claims net = true := by
  by_cases nobody : group.peers.list = []
  · have services : group.services.claims net = true := by
      rcases (claims_iff group net).1 claimed with claims | claims
      · simp [Peers.claims, nobody] at claims
      · exact claims
    obtain ⟨after, kept, claims⟩ := stuck.commit_alone failing nobody services
    exact ⟨after, kept, (claims_iff after net).2 (.inr claims)⟩
  · exact ⟨_, commit_of_peopled (stuck.settledPeers_peopled failing nobody),
      claims_settled table claimed⟩

theorem Stuck.enable {held : Router.Held} (kind : held.Kind) (stuck : group.Stuck nets)
    (net : Prefix) : (held.enable group net).2.Stuck nets := by
  cases kind with
  | peers =>
      refine ⟨fun peer member leaving => ?_, fun nobody =>
        stuck.alone ((group.peers.list_enable_eq_nil_iff net).1 nobody)⟩
      obtain ⟨before, stood, rfl | ⟨-, rfl⟩⟩ := Peers.mem_enable member
      · exact stuck.leaving peer stood leaving
      · cases leaving
  | services =>
      refine ⟨stuck.leaving, fun nobody other after stands => ?_⟩
      -- a group without peers has no destination that could be admitted again
      rcases Services.of_roster?_enable stands with ⟨same, -⟩ | ⟨-, roster, found, disabled, -⟩
      · exact stuck.alone nobody other after same
      · have enabled := (stuck.alone nobody net roster found).1.1
        cases enabled.symm.trans disabled

end Group

/-! ## Passes over a table that goes on refusing the same -/

namespace Router

/-- All groups are stuck. -/
def Stuck (nets : List Prefix) (router : Router) : Prop :=
  ∀ id group, router.groups.get? id = some group → group.Stuck nets

variable {router : Router} {nets : List Prefix} {table : MemoryTable}

theorem stuck_commitOnce (router : Router) (failing : table.failing = nets) :
    (router.commitOnce table).1.router.Stuck nets := by
  intro id after stands
  obtain ⟨seen, same, walked⟩ := router.get?_walk_within _
    (MemoryTable.failing_kept nets).commitGroup failing id
  obtain ⟨group, -, kept⟩ := Option.bind_eq_some_iff.1 (walked.symm.trans stands)
  exact Group.stuck_commit same kept

theorem Stuck.resolve (stuck : router.Stuck nets) : router.resolve.2.Stuck nets := by
  refine resolve_induction (motive := fun progress => progress.2.Stuck nets) router stuck ?_
  intro held kind id net count router group _ found stuck other after stands
  rw [get?_setGroup] at stands
  split at stands
  · cases stands
    exact (stuck id group found).enable kind net
  · exact stuck other after stands

/-- A pass over stuck groups frees nothing, so there is nothing to admit after it. -/
theorem Stuck.idle (stuck : router.Stuck nets) (failing : table.failing = nets)
    (contested : router.Contested) : (router.commitOnce table).1.router.resolve.1 = 0 := by
  have still : (router.commitOnce table).1.router.Contested := by
    refine contested.commitOnce fun id group net stood claims => ?_
    obtain ⟨seen, same, walked⟩ := router.get?_walk_within _
      (MemoryTable.failing_kept nets).commitGroup failing id
    rw [stood, Option.bind_some] at walked
    obtain ⟨left, kept, keeps⟩ := (stuck id group stood).commit_keeps same claims
    exact ⟨left, walked.trans kept, keeps⟩
  rw [resolve_of_contested still]

/-- How many addresses each pass of an apply admits again. -/
def resolutions {σ : Type} [RoutingTable σ] : (fuel : Nat) → Router → σ → List Nat
  | 0, _, _ => []
  | fuel + 1, router, table =>
      let (walked, left) := router.commitOnce table
      let (resolved, after) := walked.router.resolve
      resolved :: if resolved = 0 then [] else resolutions fuel after left

theorem passes_commitPasses {σ : Type} [RoutingTable σ] (fuel : Nat) (report : Report)
    (router : Router) (table : σ) :
    (commitPasses fuel report router table).1.passes =
      report.passes + (resolutions fuel router table).length := by
  induction fuel generalizing report router table with
  | zero => rfl
  | succ fuel ih =>
      simp only [commitPasses, resolutions, List.length_cons]
      split
      · rfl
      · rw [ih, Nat.add_assoc, Nat.add_comm 1]

/-- A pass after which nothing is admitted is the last one. -/
theorem commitPasses_of_idle {σ : Type} [RoutingTable σ] {router : Router} {table : σ}
    (idle : (router.commitOnce table).1.router.resolve.1 = 0) (fuel : Nat) (report : Report) :
    commitPasses (fuel + 1) report router table = commitPasses 1 report router table := by
  simp only [commitPasses, idle, if_true]

theorem resolutions_of_idle {σ : Type} [RoutingTable σ] {router : Router} {table : σ}
    (idle : (router.commitOnce table).1.router.resolve.1 = 0) (fuel : Nat) :
    resolutions (fuel + 1) router table = [0] := by
  simp only [resolutions, idle, if_true]

/-- Whatever the table is told to refuse, an apply takes at most two passes, the last of which
admits nothing again, and it would be the same with any larger bound. -/
theorem passes_suffice (router : Router) (table : MemoryTable) :
    let counts := resolutions mostPasses router table
    (router.apply table).1.passes = counts.length ∧ counts.length ≤ 2 ∧
      counts.getLast? = some 0 ∧ (router.apply table).2.2.failing = table.failing ∧
      ∀ fuel, commitPasses (fuel + 2) {} router table = router.apply table := by
  intro counts
  have failing : (router.commitOnce table).2.failing = table.failing :=
    (MemoryTable.failing_kept table.failing).commitOnce router table rfl
  have second : ((router.commitOnce table).1.router.resolve.2.commitOnce
      (router.commitOnce table).2).1.router.resolve.1 = 0 :=
    (stuck_commitOnce router rfl).resolve.idle failing (resolve_contested _)
  have bounded : ∀ fuel, commitPasses (fuel + 2) {} router table = commitPasses 2 {} router table := by
    intro fuel
    rw [commitPasses, commitPasses]
    simp only
    split
    · rfl
    · exact commitPasses_of_idle second fuel _
  have turns : counts = [0] ∨ ∃ count, counts = [count, 0] := by
    by_cases first : (router.commitOnce table).1.router.resolve.1 = 0
    · exact .inl (resolutions_of_idle first _)
    · refine .inr ⟨(router.commitOnce table).1.router.resolve.1, ?_⟩
      rw [← resolutions_of_idle second 1]
      simp only [counts, mostPasses, resolutions, first, if_false]
  refine ⟨?_, ?_, ?_, ?_, fun fuel => ?_⟩
  · rw [Router.apply, passes_commitPasses]
    exact Nat.zero_add _
  · rcases turns with once | ⟨count, twice⟩
    · simp [once]
    · simp [twice]
  · rcases turns with once | ⟨count, twice⟩
    · simp [once]
    · simp [twice]
  · exact (MemoryTable.failing_kept table.failing).apply router table rfl
  · rw [bounded fuel]
    exact (bounded 1).symm

-- Two passes are needed where the first one frees a network for which a group waits.
example :
    let first := Sample.link "wg1" 0x0A000001#32 1 1
    let second := Sample.link "wg2" 0x0A000101#32 2 2
    let state := run [.add first [first.host, Sample.lan], .add second [second.host, Sample.lan],
      .remove first [first.host, Sample.lan]] (Router.fresh {} ({} : MemoryTable))
    (state.1.apply state.2).1.passes = 2 := by
  decide +kernel

end Router

end OverlayRouting
