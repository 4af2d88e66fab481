/-
# OverlayRouting.Proofs.FirstCommit -- a router that was only configured

If every request to a router without groups is accepted, everything in it joins and no
destination is shared (`Router.New`): the requests have groups with peers in them, and a group
that asks for a destination of another one is refused.

The first apply of such a router takes one pass (`New.apply_eq`), and it only adds routes.  So
what adding keeps, holds at the turn of each destination if it held before, and holds in the end
if it holds after that turn (`New.install_turn`).  After its turn the address of every peer is
routed, whoever has the route (`New.hosts_routed`).
-/
import OverlayRouting.Proofs.HandOver
import OverlayRouting.Proofs.Resending
import OverlayRouting.Proofs.Scope

namespace OverlayRouting

set_option autoImplicit false

/-! ## Everything joins -/

/-- A destination that was never committed. -/
structure Roster.New (roster : Roster) : Prop where
  enabled : roster.disabled = false
  listed : roster.candidates ≠ []
  joining : ∀ c ∈ roster.candidates, c.state = .joining

theorem Roster.New.stays {roster : Roster} (new : roster.New) {c : Candidate}
    (member : c ∈ roster.candidates) : c.isLeaving = false := by
  simp [Candidate.isLeaving, new.joining c member]

theorem Roster.New.wanted {roster : Roster} (new : roster.New) : roster.Wanted := by
  obtain ⟨c, member⟩ := List.exists_mem_of_ne_nil _ new.listed
  exact ⟨c, member, new.stays member⟩

theorem Roster.new_add {roster : Roster} (enabled : roster.disabled = false)
    (joining : ∀ c ∈ roster.candidates, c.state = .joining) (link : Link) :
    (roster.add link).2.New := by
  unfold add
  split
  · rename_i known
    exact ⟨enabled, List.ne_nil_of_mem (List.mem_of_find?_eq_some known), joining⟩
  · refine ⟨enabled, by simp, fun c member => ?_⟩
    rcases List.mem_append.1 member with stood | added
    · exact joining c stood
    · cases List.mem_singleton.1 added
      simp [enabled]

/-- A group in which everything joins. -/
structure Group.Joining (group : Group) : Prop where
  peers : ∀ peer ∈ group.peers.list, peer.state = .joining
  services : ∀ net roster, group.services.roster? net = some roster → roster.New

/-- A group that was never committed: it has peers, and everything joins. -/
structure Group.New (group : Group) : Prop extends group.Joining where
  peopled : group.peers.list ≠ []

namespace Group

theorem joining_empty (id : GroupId) (windowSize : Nat) (margins : Margins) :
    (empty id windowSize margins).Joining :=
  ⟨nofun, fun _ _ stands => nomatch stands⟩

theorem Joining.join_peer {group : Group} (joining : group.Joining) (link : Link) (net : Prefix) :
    (group.join link net false .peer).New := by
  simp only [join, Peers.add]
  split
  · rename_i listed
    exact ⟨⟨joining.peers, joining.services⟩,
      List.ne_nil_of_mem (List.mem_of_find?_eq_some listed)⟩
  · refine ⟨⟨fun peer member => ?_, joining.services⟩, by simp⟩
    rcases List.mem_append.1 member with stood | added
    · exact joining.peers peer stood
    · cases List.mem_singleton.1 added
      rfl

theorem New.join_service {group : Group} (new : group.New) (link : Link) (net : Prefix) :
    (group.join link net false .service).New := by
  refine ⟨⟨new.peers, fun other roster stands => ?_⟩, new.peopled⟩
  rw [join, Services.roster?_add] at stands
  split at stands
  · cases stands
    cases found : group.services.roster? net with
    | none => exact Roster.new_add rfl (List.forall_mem_nil _) link
    | some before =>
        have here := new.services net before found
        exact Roster.new_add here.enabled here.joining link
  · exact new.services other roster stands

/-- Who is new is as good as cleared: nobody goes, and nothing is installed. -/
theorem New.cleared {group : Group} (new : group.New) : group.Cleared where
  peopled := new.peopled
  staying peer member := by simp [new.peers peer member]
  wanted net roster found _ := (new.services net roster found).wanted
  bare net roster found _ _ := (Roster.installed?_eq_none_iff roster).2 fun c member => by
    simp [Candidate.isInstalled, (new.services net roster found).joining c member]

end Group

/-! ## A first configuration -/

theorem Admission.isOk_result_iff (admission : Admission) :
    admission.result.isOk = true ↔ admission.refusal = none := by
  simp [result, RouteResult.isOk]

namespace Router

/-- The candidates of a group for a destination. -/
def roster? (router : Router) (id : GroupId) (net : Prefix) : Option Roster :=
  (router.groups.get? id).bind (·.services.roster? net)

theorem roster?_eq_some_iff (router : Router) (id : GroupId) (net : Prefix) (roster : Roster) :
    router.roster? id net = some roster ↔
      ∃ group, router.groups.get? id = some group ∧ group.services.roster? net = some roster :=
  Option.bind_eq_some_iff

theorem services_group (router : Router) (id : GroupId) (net : Prefix) :
    (router.group id).services.roster? net = router.roster? id net := by
  rw [roster?, Router.group]
  cases router.groups.get? id <;> rfl

theorem roster?_setGroup (router : Router) (id other : GroupId) (group : Group) (net : Prefix) :
    (router.setGroup id group).roster? other net =
      if id = other then group.services.roster? net else router.roster? other net := by
  rw [roster?, get?_setGroup]
  split <;> rfl

/-- A router that was only configured: in each group everything joins, and no two groups serve
one destination. -/
structure New (router : Router) : Prop where
  sound : router.Sound
  groups : ∀ id group, router.groups.get? id = some group → group.New
  unshared : ∀ id other net roster rival, router.roster? id net = some roster →
    router.roster? other net = some rival → id = other

theorem new_fresh (settings : RouterSettings) : New { settings } where
  sound := sound_fresh settings
  groups _ _ stands := nomatch stands
  unshared _ _ _ _ _ stands := nomatch stands

variable {router : Router} {demand : Demand} {link : Link}

theorem New.group (new : router.New) (id : GroupId) : (router.group id).Joining := by
  rw [Router.group]
  cases found : router.groups.get? id with
  | none => exact Group.joining_empty id _ _
  | some group => exact (new.groups id group found).toJoining

/-- Whoever serves a destination claims it against the other groups. -/
theorem New.unclaimed (new : router.New) {id other : GroupId} {net : Prefix} {rival : Roster}
    (free : router.hasConflict net id = false) (served : router.roster? other net = some rival) :
    id = other := by
  obtain ⟨group, stands, found⟩ := (router.roster?_eq_some_iff other net rival).1 served
  have here := (new.groups other group stands).services net rival found
  by_contra differs
  have conflict : router.hasConflict net id = true := by
    refine (hasConflict_iff router net id).2 ⟨other, group, Ne.symm differs, stands, ?_⟩
    rw [Group.claims_iff]
    exact .inr ((Services.claims_iff _ net).2 ⟨rival, found, here.enabled, here.wanted⟩)
  simp [free] at conflict

theorem New.setGroup (new : router.New) {id : GroupId} {group : Group} (sound : group.Sound)
    (here : group.New) (served : ∀ net roster, group.services.roster? net = some roster →
      (∃ before, router.roster? id net = some before) ∨ router.hasConflict net id = false) :
    (router.setGroup id group).New := by
  have own : ∀ other net roster rival, group.services.roster? net = some roster →
      router.roster? other net = some rival → id = other := by
    intro other net roster rival found rivalFound
    rcases served net roster found with ⟨before, stood⟩ | free
    · exact new.unshared id other net before rival stood rivalFound
    · exact new.unclaimed free rivalFound
  refine ⟨new.sound.setGroup id sound, fun other found stands => ?_, ?_⟩
  · rw [get?_setGroup] at stands
    split at stands
    · cases stands
      exact here
    · exact new.groups other found stands
  · intro first second net roster rival stands rivalStands
    rw [roster?_setGroup] at stands rivalStands
    split at stands <;> split at rivalStands <;> rename_i one other
    · exact one.symm.trans other
    · exact one.symm.trans (own second net roster rival stands rivalStands)
    · exact (own first net rival roster rivalStands stands).symm.trans other
    · exact new.unshared first second net roster rival stands rivalStands

theorem meet_of_answered (answered : router.answer demand.link.group demand.net = none) :
    router.meet demand = router.setGroup demand.link.group
      ((router.group demand.link.group).join demand.link demand.net false demand.place) := by
  obtain ⟨admitted, free⟩ := (router.answer_eq_none_iff _ _).1 answered
  rw [meet_eq, admitted, free, if_neg Bool.false_ne_true]

/-- An accepted demand leaves the router new, if it is for a peer or the group is known. -/
theorem New.meet (new : router.New) (answered : router.answer demand.link.group demand.net = none)
    (ready : demand.place = .peer ∨ ∃ group, router.groups.get? demand.link.group = some group) :
    (router.meet demand).New ∧
      ∃ group, (router.meet demand).groups.get? demand.link.group = some group := by
  have sound : (router.meet demand).Sound :=
    new.sound.accept demand.link demand.place demand.net
  have met := meet_of_answered answered
  have known : (router.meet demand).groups.get? demand.link.group =
      some ((router.group demand.link.group).join demand.link demand.net false demand.place) := by
    rw [met, get?_setGroup, if_pos rfl]
  refine ⟨?_, _, known⟩
  rw [met]
  refine new.setGroup (sound _ _ known) ?_ fun net roster stands => ?_
  · cases place : demand.place with
    | peer => exact (new.group demand.link.group).join_peer _ _
    | service =>
        rcases ready with peer | ⟨group, found⟩
        · cases place.symm.trans peer
        · rw [group_of_get? found]
          exact (new.groups _ group found).join_service _ _
  · cases place : demand.place with
    | peer =>
        rw [place] at stands
        exact .inl ⟨roster, (router.services_group _ net).symm.trans stands⟩
    | service =>
        rw [place, Group.join, Services.roster?_add] at stands
        split at stands
        · rename_i here
          exact .inr (here ▸ ((router.answer_eq_none_iff _ _).1 answered).2)
        · exact .inl ⟨roster, (router.services_group _ net).symm.trans stands⟩

theorem answer_of_isOk {place : Place} {net : Prefix}
    (accepted : (router.accept link place net).1.result.isOk = true) :
    router.answer link.group net = none := by
  rw [accept_fst] at accepted
  exact (Admission.isOk_result_iff _).1 accepted

theorem New.acceptAll (new : router.New) (nets : List Prefix)
    (known : ∃ group, router.groups.get? link.group = some group)
    (accepted : ∀ answer ∈ (acceptAll link (nets.map (Place.service, ·)) router).1,
      answer.result.isOk = true) :
    (Router.acceptAll link (nets.map (Place.service, ·)) router).2.New := by
  induction nets generalizing router with
  | nil => exact new
  | cons net rest ih =>
      have first : (router.accept link .service net).1.result.isOk = true :=
        accepted _ List.mem_cons_self
      obtain ⟨met, still⟩ : (router.meet ⟨link, .service, net⟩).New ∧ _ :=
        new.meet (answer_of_isOk first) (.inr known)
      exact ih met still fun answer member => accepted answer (List.mem_cons_of_mem _ member)

theorem New.add (new : router.New) (nets : List Prefix)
    (accepted : ∀ answer ∈ (router.add link nets).1, answer.result.isOk = true) :
    (router.add link nets).2.New := by
  cases nets with
  | nil => exact new
  | cons first rest =>
      have peer : (router.accept link .peer first).1.result.isOk = true :=
        accepted _ List.mem_cons_self
      obtain ⟨met, known⟩ : (router.meet ⟨link, .peer, first⟩).New ∧ _ :=
        new.meet (answer_of_isOk peer) (.inl rfl)
      exact met.acceptAll rest known fun answer member =>
        accepted answer (List.mem_cons_of_mem _ member)

/-- What is accepted is not rejected. -/
theorem admitted_of_accepted {requests : List (Link × List Prefix)}
    (accepted : ∀ answer ∈ (Router.addEach requests router).1, answer.result.isOk = true)
    {request : Link × List Prefix} (member : request ∈ requests) {net : Prefix}
    (asked : net ∈ request.2) : router.rejects net = false := by
  induction requests generalizing router with
  | nil => cases member
  | cons first rest ih =>
      rcases List.mem_cons.1 member with rfl | behind
      · have answered : (⟨net, router.answer request.1.group net⟩ : Admission) ∈
            (router.add request.1 request.2).1 := by
          rw [add_fst]
          exact List.mem_map_of_mem asked
        have free := accepted _ (List.mem_append_left _ answered)
        exact ((router.answer_eq_none_iff _ _).1 ((Admission.isOk_result_iff _).1 free)).1
      · have same : (router.add first.1 first.2).2.rejects net = router.rejects net := by
          rw [rejects, rejects, settings_add]
        exact same.symm.trans
          (ih (fun answer told => accepted answer (List.mem_append_right _ told)) behind)

/-- Every destination that was requested and accepted is served. -/
theorem roster?_of_requested {requests : List (Link × List Prefix)}
    (accepted : ∀ answer ∈ (Router.addEach requests router).1, answer.result.isOk = true)
    {request : Link × List Prefix} (member : request ∈ requests) {net : Prefix}
    (asked : net ∈ request.2.tail) :
    ∃ roster, (Router.addEach requests router).2.roster? request.1.group net = some roster := by
  have demanded : (⟨request.1, .service, net⟩ : Demand) ∈ demands requests := by
    refine List.mem_flatMap.2 ⟨request, member, List.mem_map.2 ⟨(.service, net), ?_, rfl⟩⟩
    cases asks : request.2 with
    | nil => simp [asks] at asked
    | cons first rest =>
        rw [asks] at asked
        exact List.mem_cons_of_mem _ (List.mem_map_of_mem asked)
  rcases met_addEach demanded router with rejected | ⟨group, stands, roster, found, -⟩
  · have admitted := admitted_of_accepted accepted member (List.mem_of_mem_tail asked)
    rw [rejects, settings_addEach] at rejected
    cases rejected.symm.trans admitted
  · exact ⟨roster, (roster?_eq_some_iff _ _ net roster).2 ⟨group, stands, found⟩⟩

/-- Requests that are all accepted leave a new router new. -/
theorem New.addEach (new : router.New) (requests : List (Link × List Prefix))
    (accepted : ∀ answer ∈ (addEach requests router).1, answer.result.isOk = true) :
    (Router.addEach requests router).2.New := by
  induction requests generalizing router with
  | nil => exact new
  | cons first rest ih =>
      exact ih (new.add first.2 fun answer member => accepted answer (List.mem_append_left _ member))
        fun answer member => accepted answer (List.mem_append_right _ member)

end Router

/-! ## The first pass -/

section Pass

variable {σ : Type} [RoutingTable σ] {scope : Prefix → Prop} {holds : σ → Prop}
  {roster : Roster} {group : Group} {router : Router}

open RoutingTable (AddsKeep)

theorem Roster.New.commit_eq (new : roster.New) (destination : Destination)
    (selected : Option Address) (table : σ) :
    roster.commit destination selected table = roster.install destination table := by
  obtain ⟨c, member⟩ := List.exists_mem_of_ne_nil _ new.listed
  have busy := (hasPending_iff roster).2 ⟨c, member, .inl (new.joining c member)⟩
  exact commit_of_joining new.enabled busy new.joining destination selected table

theorem Group.New.commit_eq (new : group.New) (table : σ) :
    group.commit table =
      let swept := group.sweptServices table
      (⟨some ⟨group.settledPeers table, swept.1.services⟩, swept.1.statuses, swept.1.changes⟩,
        swept.2) := by
  simp only [Group.commit_eq, new.cleared.settledPeers_peopled table, Bool.false_eq_true, if_false]

namespace RoutingTable.AddsKeep

variable (keeps : AddsKeep scope holds)

include keeps

theorem settleAll (list : List Peer) (joining : ∀ peer ∈ list, peer.state = .joining)
    (inside : ∀ peer ∈ list, scope peer.host) (table : σ) (before : holds table) :
    holds (Peers.settleAll list table).2 := by
  induction list generalizing table with
  | nil => exact before
  | cons peer rest ih =>
      have next := keeps.settle peer table (joining peer List.mem_cons_self)
        (inside peer List.mem_cons_self) before
      exact ih (fun other member => joining other (List.mem_cons_of_mem _ member))
        (fun other member => inside other (List.mem_cons_of_mem _ member)) _ next

theorem commitServices (new : group.New) (within : group.Within scope) (selected : Option Address)
    {net : Prefix} {roster : Roster} (found : group.services.roster? net = some roster) (table : σ)
    (before : holds table) :
    holds (roster.commit ⟨group.services.group, net⟩ selected table).2 := by
  rw [(new.services net roster found).commit_eq]
  exact keeps.install roster _ table (within.services net roster found) before

/-- What holds when the peers of a group are settled, holds after its commit. -/
theorem commitSettled (new : group.New) (within : group.Within scope) (table : σ)
    (settled : holds (Peers.settleAll group.peers.list table).2) : holds (group.commit table).2 := by
  rw [new.commit_eq]
  show holds (group.sweptServices table).2
  exact group.services.sweep_keeps _ settled fun net roster found =>
    keeps.commitServices new within (group.selectedGateway table) found

theorem commitGroup (new : group.New) (within : group.Within scope) (table : σ)
    (before : holds table) : holds (group.commit table).2 :=
  keeps.commitSettled new within table
    (keeps.settleAll group.peers.list new.peers within.peers table before)

theorem commitOnce (new : router.New) (within : router.Within scope) (table : σ)
    (before : holds table) : holds (router.commitOnce table).2 :=
  router.walk_keeps table before fun id group stands table =>
    keeps.commitGroup (new.groups id group stands) (within id group stands) table

end RoutingTable.AddsKeep

namespace Router

/-- The turn of a destination in the first pass: it is installed, and what adding routes keeps
holds there if it held before, and in the end if it holds after it. -/
theorem New.install_turn (new : router.New) (table : σ) {id : GroupId} {net : Prefix}
    (found : router.roster? id net = some roster) :
    ∃ destination seen, destination.net = net ∧
      let installed := roster.install destination seen
      let pass := router.commitOnce table
      pass.1.router.roster? id net = installed.1.roster ∧
        (∀ status ∈ installed.1.statuses, status ∈ pass.1.statuses) ∧
        ∀ scope holds, AddsKeep scope holds → router.Within scope →
          (holds table → holds seen) ∧ (holds installed.2 → holds pass.2) := by
  obtain ⟨group, stands, listed⟩ := (router.roster?_eq_some_iff id net roster).1 found
  have here := new.groups id group stands
  obtain ⟨early, kept, reported, outer⟩ := router.walk_turn Group.commit table stands
  obtain ⟨seen, left, own, inner⟩ := group.services.sweep_turn
    (fun roster destination => roster.commit destination (group.selectedGateway early))
    (group.peers.commit early).2.2 listed
  simp only [(here.services net roster listed).commit_eq] at left own inner
  rw [here.commit_eq] at kept reported outer
  refine ⟨⟨group.services.group, net⟩, seen, rfl, ?_, fun status told => ?_, ?_⟩
  · rw [← left]
    exact congrArg (·.bind (·.services.roster? net)) kept
  · exact reported status (own status told)
  · intro scope holds keeps within
    obtain ⟨before, after⟩ := outer holds fun other rival rivalStands _ =>
      keeps.commitGroup (new.groups other rival rivalStands) (within other rival rivalStands)
    obtain ⟨earlier, later⟩ := inner holds fun other rival rivalFound _ =>
      keeps.commitServices here (within id group stands) _ rivalFound
    refine ⟨fun begins => earlier ?_, fun ends => after (later ends)⟩
    exact keeps.settleAll group.peers.list here.peers (within id group stands).peers early
      (before begins)

/-- Whatever the first pass reports, a destination reported at its turn. -/
theorem New.reported (new : router.New) (table : σ) {status : RouteStatus}
    (told : status ∈ (router.commitOnce table).1.statuses) :
    ∃ id net roster destination seen, router.roster? id net = some roster ∧
      destination.net = net ∧ status ∈ (roster.install destination seen).1.statuses ∧
      ∀ scope holds, AddsKeep scope holds → router.Within scope → holds table → holds seen := by
  obtain ⟨id, group, early, stands, told, outer⟩ := of_mem_statuses_walk told
  have here := new.groups id group stands
  rw [here.commit_eq] at told
  have told : status ∈ (group.services.sweep (fun roster destination =>
      roster.commit destination (group.selectedGateway early))
      (group.peers.commit early).2.2).1.statuses := told
  obtain ⟨net, roster, seen, listed, told, inner⟩ := Services.of_mem_statuses_sweep told
  rw [(here.services net roster listed).commit_eq] at told
  refine ⟨id, net, roster, ⟨group.services.group, net⟩, seen,
    (router.roster?_eq_some_iff id net roster).2 ⟨group, stands, listed⟩, rfl, told, ?_⟩
  intro scope holds keeps within begins
  have reached := outer holds (fun other rival rivalStands _ =>
    keeps.commitGroup (new.groups other rival rivalStands) (within other rival rivalStands)) begins
  refine inner holds (fun other rival rivalFound _ =>
    keeps.commitServices here (within id group stands) _ rivalFound) ?_
  exact keeps.settleAll group.peers.list here.peers (within id group stands).peers early reached

/-- Nothing is disabled in a new router, so nothing waits for another pass. -/
theorem New.apply_eq (new : router.New) (table : σ) :
    router.apply table =
      let pass := router.commitOnce table
      ({ statuses := pass.1.statuses, changes := pass.1.changes, passes := 1 }, pass.1.router,
        pass.2) := by
  have contested : router.Contested := by
    intro held kind id net disabled
    have joining := new.group id
    cases kind with
    | peers =>
        obtain ⟨peer, listed, state, -⟩ := (Peers.mem_disabled_iff _ net).1 disabled
        cases state.symm.trans (joining.peers peer listed)
    | services =>
        obtain ⟨roster, found, state⟩ := (Services.mem_disabled_iff _ net).1 disabled
        cases state.symm.trans (joining.services net roster found).enabled
  have idle := resolve_of_contested
    (contested.pass (fun id group stands => (new.groups id group stands).cleared) table)
  simp [apply, mostPasses, commitPasses, idle]

end Router

end Pass

/-! ## The first pass over a table in memory -/

namespace MemoryTable

open RoutingTable (AddsKeep)

theorem via?_add_of_routed {table : MemoryTable} {ifname own : String} {gateway : Option Address}
    {net other : Prefix} (routed : table.via? net = some ifname) :
    (RoutingTable.add own gateway other table).2.via? net = some ifname := by
  rcases add_spec own gateway other table with ⟨-, -, -, same⟩ | ⟨-, free, changed⟩
  · rw [same, routed]
  · rw [changed]
    by_cases here : net = other
    · rw [← here] at free
      rw [← here, Function.update_self]
      rcases free with absent | carried
      · cases absent.symm.trans routed
      · exact carried.symm.trans routed
    · rw [Function.update_of_ne here, routed]

/-- Adding routes never moves one. -/
theorem routed_kept (net : Prefix) (ifname : String) :
    AddsKeep (fun _ => True) fun table : MemoryTable => table.via? net = some ifname where
  add _ _ _ _ _ routed := via?_add_of_routed routed
  carrier _ _ _ routed := routed

end MemoryTable

/-- After its turn the address of a peer is routed, through its own interface or another one. -/
theorem Peers.routed_settle {peer : Peer} {table : MemoryTable} (willing : table.Willing)
    (joining : peer.state = .joining) :
    ∃ ifname, (settle peer table).2.via? peer.host = some ifname := by
  have routed : ∃ ifname, (RoutingTable.add peer.link.ifname none peer.host table).2.via?
      peer.host = some ifname := by
    rcases MemoryTable.add_spec peer.link.ifname none peer.host table with
      ⟨cause, refused, -, same⟩ | ⟨-, -, changed⟩
    · rw [same]
      exact willing.taken_of_add refused
    · exact ⟨peer.link.ifname, by rw [changed, Function.update_self]⟩
  simp only [settle, joining]
  split <;> rename_i asked <;> rw [asked] at routed <;> exact routed

theorem Peers.routed_settleAll {list : List Peer} {table : MemoryTable} (willing : table.Willing)
    (joining : ∀ peer ∈ list, peer.state = .joining) {peer : Peer} (member : peer ∈ list) :
    ∃ ifname, (settleAll list table).2.via? peer.host = some ifname := by
  induction list generalizing table with
  | nil => cases member
  | cons first rest ih =>
      have next : (settle first table).2.Willing :=
        MemoryTable.willing_kept.settle first table willing
      have behind : ∀ other ∈ rest, other.state = .joining := fun other listed =>
        joining other (List.mem_cons_of_mem _ listed)
      rcases List.mem_cons.1 member with rfl | later
      · obtain ⟨ifname, routed⟩ := routed_settle willing (joining peer List.mem_cons_self)
        exact ⟨ifname, (MemoryTable.routed_kept peer.host ifname).settleAll rest behind
          (fun _ _ => trivial) _ routed⟩
      · exact ih next behind later

/-- After the first pass the address of every peer is routed. -/
theorem Router.New.hosts_routed {router : Router} (new : router.New) {table : MemoryTable}
    (willing : table.Willing) {id : GroupId} {group : Group}
    (stands : router.groups.get? id = some group) {peer : Peer} (member : peer ∈ group.peers.list) :
    ∃ ifname, (router.commitOnce table).2.via? peer.host = some ifname := by
  have here := new.groups id group stands
  obtain ⟨seen, -, -, turn⟩ := router.walk_turn Group.commit table stands
  have seen_willing : seen.Willing := (turn _ fun _ rival _ _ =>
    MemoryTable.willing_kept.commitGroup rival).1 willing
  obtain ⟨ifname, settled⟩ := Peers.routed_settleAll seen_willing here.peers member
  have keeps := MemoryTable.routed_kept peer.host ifname
  have after := keeps.commitSettled here group.within_everywhere seen settled
  exact ⟨ifname, (turn _ fun other rival rivalStands _ =>
    keeps.commitGroup (new.groups other rival rivalStands) rival.within_everywhere).2 after⟩

end OverlayRouting
