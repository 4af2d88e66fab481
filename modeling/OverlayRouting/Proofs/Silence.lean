/-
# OverlayRouting.Proofs.Silence -- what an apply changes without a word

The routes of peers are not reported, and neither is what is given up.  So an apply that reports
nothing still installs the route of a peer that joins and withdraws that of a peer that leaves,
and it withdraws what a group has installed that loses its last peer.  It changes no other route
(`Router.changed_in_silence`, `Router.withdrawn_in_silence`).

In a pass that reports nothing no destination gets a carrier, and a peer can only join, become
active, or go (`Group.Evolves`).  So what a later pass does is known from the groups before the
first one.
-/
import OverlayRouting.Proofs.Balances
import OverlayRouting.Proofs.Origin
import OverlayRouting.Proofs.Refusal

namespace OverlayRouting

set_option autoImplicit false

/-! ## Peers -/

/-- What can become of a peer that is not gone. -/
structure Peer.Evolves (old new : Peer) : Prop where
  link : new.link = old.link
  leaving : new.state = .leaving ↔ old.state = .leaving
  active : old.state = .active → new.state = .active

theorem Peer.Evolves.refl (peer : Peer) : peer.Evolves peer := ⟨rfl, .rfl, id⟩

theorem Peer.Evolves.trans {first second third : Peer} (one : first.Evolves second)
    (two : second.Evolves third) : first.Evolves third where
  link := two.link.trans one.link
  leaving := two.leaving.trans one.leaving
  active := two.active ∘ one.active

/-- A peer that was to be installed or withdrawn was so before, or it was kept out then. -/
theorem Peer.Evolves.places {old new : Peer} (evolves : old.Evolves new) {route : Option Route}
    (places : new.Places route) : old.state ≠ .active ∧
      route = if old.state = .leaving then none else some ⟨old.link.ifname, none⟩ := by
  refine ⟨fun active => ?_, ?_⟩
  · cases places with
    | installed joining | withdrawn joining => cases joining.symm.trans (evolves.active active)
  · cases places with
    | installed joining =>
        have stays : old.state ≠ .leaving := fun leaving => by
          cases joining.symm.trans (evolves.leaving.2 leaving)
        rw [if_neg stays, evolves.link]
    | withdrawn leaving => rw [if_pos (evolves.leaving.1 leaving)]

/-- Every peer comes from one that stood before, and only those go that were leaving. -/
structure Peers.Evolves (before after : Peers) : Prop where
  came : ∀ new ∈ after.list, ∃ old ∈ before.list, old.Evolves new
  stayed : ∀ old ∈ before.list, old.state ≠ .leaving → ∃ new ∈ after.list, old.Evolves new

namespace Peers

theorem Evolves.refl (peers : Peers) : peers.Evolves peers where
  came peer member := ⟨peer, member, .refl peer⟩
  stayed peer member _ := ⟨peer, member, .refl peer⟩

theorem Evolves.trans {first second third : Peers} (one : first.Evolves second)
    (two : second.Evolves third) : first.Evolves third where
  came new member := by
    obtain ⟨middle, stood, later⟩ := two.came new member
    obtain ⟨old, first_stood, before⟩ := one.came middle stood
    exact ⟨old, first_stood, before.trans later⟩
  stayed old member stays := by
    obtain ⟨middle, stands, before⟩ := one.stayed old member stays
    obtain ⟨new, there, later⟩ := two.stayed middle stands fun leaving =>
      stays (before.leaving.1 leaving)
    exact ⟨new, there, before.trans later⟩

theorem evolves_enable (peers : Peers) (net : Prefix) : peers.Evolves (peers.enable net).2 := by
  have joins : ∀ peer : Peer, peer.state = .disabled →
      peer.Evolves { peer with state := .joining } := fun peer disabled =>
    ⟨rfl, by simp [disabled], by simp [disabled]⟩
  constructor
  · intro new member
    obtain ⟨old, stood, rfl | ⟨disabled, rfl⟩⟩ := mem_enable member
    · exact ⟨new, stood, .refl new⟩
    · exact ⟨old, stood, joins old disabled⟩
  · intro old stood _
    unfold enable
    split
    · refine ⟨_, List.mem_map_of_mem stood, ?_⟩
      split
      · rename_i held
        obtain ⟨disabled, -⟩ : old.state = .disabled ∧ old.host = net := by simpa using held
        exact joins old disabled
      · exact .refl old
    · exact ⟨old, stood, .refl old⟩

section Commits

variable {σ : Type} [RoutingTable σ]

theorem evolves_settle {peer left : Peer} {table : σ}
    (kept : (settle peer table).1.kept = some left) : peer.Evolves left := by
  cases state : peer.state with
  | joining =>
      simp only [settle, state] at kept
      split at kept <;> cases kept
      · exact ⟨rfl, by simp [state], by simp [state]⟩
      · exact .refl peer
  | leaving =>
      simp only [settle, state] at kept
      split at kept <;> cases kept
      exact .refl peer
  | active | disabled =>
      simp only [settle, state] at kept
      cases kept
      exact .refl peer

theorem evolves_commit (peers : Peers) (table : σ) :
    peers.Evolves (peers.commit table).2.1.select.2 := by
  constructor
  · intro new member
    rw [list_select] at member
    obtain ⟨old, stood, seen, kept⟩ := mem_commit peers table member
    exact ⟨old, stood, evolves_settle kept⟩
  · intro old stood stays
    rw [list_select]
    obtain ⟨seen, outcome⟩ := exists_mem_commit peers table stood
    obtain ⟨new, kept⟩ := Option.isSome_iff_exists.1 (kept_of_stays stays seen)
    exact ⟨new, outcome new kept, evolves_settle kept⟩

end Commits

/-- If no peer is left, all were leaving. -/
theorem Evolves.leaving_of_isEmpty {before after : Peers} (evolves : before.Evolves after)
    (nobody : after.isEmpty = true) : ∀ peer ∈ before.list, peer.state = .leaving := by
  intro peer member
  by_contra stays
  obtain ⟨new, there, -⟩ := evolves.stayed peer member stays
  rw [List.isEmpty_iff.1 nobody] at there
  cases there

end Peers

/-! ## Destinations -/

namespace Services

/-- The destination is installed, as far as the group knows. -/
def Carries (services : Services) (net : Prefix) : Prop :=
  ((services.roster? net).bind Roster.installed?).isSome

variable {services : Services} {net : Prefix}

theorem carries_iff : services.Carries net ↔
    ∃ roster, services.roster? net = some roster ∧ roster.installed?.isSome := by
  rw [Carries, Option.isSome_bind, Option.any_eq_true]

/-- Who is admitted again is not carried yet. -/
theorem Sound.carries_of_enable (sound : services.Sound) {admitted : Prefix}
    (carries : (services.enable admitted).2.Carries net) : services.Carries net := by
  obtain ⟨roster, stands, installed⟩ := carries_iff.1 carries
  rcases of_roster?_enable stands with ⟨same, -⟩ | ⟨-, before, found, disabled, rfl⟩
  · exact carries_iff.2 ⟨roster, same, installed⟩
  · have joining := fun c => (sound admitted before found).1.joining_enable disabled (c := c)
    rw [Roster.bare_of_joining joining] at installed
    cases installed

section Sweeps

variable {σ : Type} [RoutingTable σ]

/-- What carries a destination after a commit that reports no change carried it before. -/
theorem Sound.carries_of_commit (sound : services.Sound) {selected : Option Address} {table : σ}
    (silent : (services.commit selected table).1.changes = [])
    (carries : (services.commit selected table).1.services.Carries net) : services.Carries net := by
  obtain ⟨left, stands, -⟩ := carries_iff.1 carries
  obtain ⟨roster, -, found, -⟩ := of_roster?_sweep stands
  have told := sound.changes_sweep (fun _ sound _ table => sound.tells_commit selected table) table
  have nothing := List.filterMap_eq_nil_iff.1 (told.symm.trans silent) net
    ((SortedMap.mem_keys_iff _ net).2 (by rw [← roster?, found]; rfl))
  simp only [changeAt, Destination.told, ite_eq_left_iff, reduceCtorEq, imp_false,
    Decidable.not_not] at nothing
  rw [Carries, ← Option.isSome_map (f := Candidate.link), nothing, Option.isSome_map]
  exact carries

theorem carries_of_withdrawAll {table : σ} (carries : (services.withdrawAll table).1.Carries net) :
    services.Carries net := by
  rcases services.roster?_withdrawAll table net with gone | same
  · rw [Carries, gone] at carries
    cases carries
  · rwa [Carries, same] at carries

end Sweeps

end Services

/-! ## Groups -/

namespace Group

/-- What can become of a group of which nothing is reported. -/
structure Evolves (before after : Group) : Prop where
  peers : before.peers.Evolves after.peers
  carried : ∀ net, after.services.Carries net → before.services.Carries net

theorem Evolves.refl (group : Group) : group.Evolves group := ⟨.refl _, fun _ => id⟩

theorem Evolves.trans {first second third : Group} (one : first.Evolves second)
    (two : second.Evolves third) : first.Evolves third :=
  ⟨one.peers.trans two.peers, fun net => one.carried net ∘ two.carried net⟩

theorem Sound.evolves_commit {σ : Type} [RoutingTable σ] {group after : Group} {seen : σ}
    (sound : group.Sound) (silent : (group.commit seen).1.changes = [])
    (kept : (group.commit seen).1.kept = some after) : group.Evolves after := by
  obtain ⟨peers, services⟩ := kept_commit kept
  rw [(group.reports_commit seen).2] at silent
  refine ⟨peers ▸ group.peers.evolves_commit seen, fun net carries => ?_⟩
  refine sound.services.carries_of_commit silent ?_
  rcases services with same | withdrawn
  · exact same ▸ carries
  · exact Services.carries_of_withdrawAll (withdrawn ▸ carries)

/-- A commit that reports no change places a route for a peer, or gives a destination up since all
peers leave. -/
theorem Sound.of_origin {group : Group} (sound : group.Sound) {seen : MemoryTable}
    (silent : (group.commit seen).1.changes = []) {net : Prefix} {route : Option Route}
    (origin : group.Origin seen net route) :
    (∃ peer ∈ group.peers.list, peer.host = net ∧ peer.Places route) ∨
      ((∀ peer ∈ group.peers.list, peer.state = .leaving) ∧ group.services.Carries net ∧
        route = none) := by
  cases origin with
  | peer peer member here places => exact .inl ⟨peer, member, here, places⟩
  | reported listed announced =>
      rw [silent] at announced
      cases announced with
      | carried previous c status change => cases change
      | withdrawn c change => cases change
  | abandoned alone carried =>
      rw [(group.reports_commit seen).2] at silent
      exact .inr ⟨(group.peers.evolves_commit seen).leaving_of_isEmpty alone,
        sound.services.carries_of_commit silent carried, rfl⟩

theorem Sound.evolves_enable {group : Group} (sound : group.Sound) {held : Router.Held}
    (kind : held.Kind) (net : Prefix) : group.Evolves (held.enable group net).2 := by
  cases kind with
  | peers => exact ⟨group.peers.evolves_enable net, fun _ => id⟩
  | services => exact ⟨.refl _, fun _ => sound.services.carries_of_enable⟩

end Group

/-! ## The router -/

namespace Router

/-- Every group comes from one that stood before. -/
def Evolves (before after : Router) : Prop :=
  ∀ id new, after.groups.get? id = some new →
    ∃ old, before.groups.get? id = some old ∧ old.Evolves new

theorem Evolves.trans {first second third : Router} (one : first.Evolves second)
    (two : second.Evolves third) : first.Evolves third := by
  intro id new stands
  obtain ⟨middle, stood, later⟩ := two id new stands
  obtain ⟨old, first_stood, before⟩ := one id middle stood
  exact ⟨old, first_stood, before.trans later⟩

theorem Sound.evolves_resolve {router : Router} (sound : router.Sound) :
    router.Evolves router.resolve.2 := by
  refine (resolve_induction (motive := fun progress =>
    progress.2.Sound ∧ router.Evolves progress.2) router
    ⟨sound, fun _ group found => ⟨group, found, .refl group⟩⟩ ?_).2
  rintro held kind other net count progress group _ found ⟨sound, evolves⟩
  have here := sound other group found
  refine ⟨sound.setGroup other (Held.sound_enable kind here net), evolves.trans ?_⟩
  intro id new stands
  rw [get?_setGroup] at stands
  split at stands
  · rename_i same
    subst same
    cases stands
    exact ⟨group, found, here.evolves_enable kind net⟩
  · exact ⟨new, stands, .refl new⟩

theorem Sound.evolves_commitOnce {σ : Type} [RoutingTable σ] {router : Router} (sound : router.Sound)
    {table : σ} (silent : (router.commitOnce table).1.changes = []) :
    router.Evolves (router.commitOnce table).1.router := by
  intro id new stands
  rw [get?_commitOnce] at stands
  obtain ⟨old, stood, kept⟩ := Option.bind_eq_some_iff.1 stands
  have told := (reports_of_turn stood table).2
  rw [silent] at told
  exact ⟨old, stood, (sound id old stood).evolves_commit (List.subset_nil.1 told) kept⟩

/-- The groups where a pass of an apply begins that reports nothing. -/
theorem evolves_passStarts {σ : Type} [RoutingTable σ] {router : Router} (sound : router.Sound)
    {table : σ} (silent : (router.apply table).1.isEmpty = true) :
    ∀ start ∈ passStarts mostPasses (router, table), router.Evolves start.1 := by
  refine (passStarts_induction mostPasses (router, table) (motive := fun state =>
    router.Evolves state.1) (fun _ group found => ⟨group, found, .refl group⟩) ?_).1
  intro start begun evolves
  have here := sound.passStarts _ table start begun
  have committed := here.evolves_commitOnce (silent_of_isEmpty silent begun).2
  exact (evolves.trans committed).trans (here.commitOnce start.2).evolves_resolve

/-- In every state that a run reaches, and over every table in memory, if an apply reports
nothing, then it leaves the route of each prefix as it is, with two exceptions.  The route to a
peer's own address may be installed, or withdrawn if the peer leaves; and a destination that a
group has installed may be withdrawn if all peers of the group leave. -/
theorem changed_in_silence {σ : Type} [RoutingTable σ] (settings : RouterSettings) (start : σ)
    (ops : List (Operation σ)) (table : MemoryTable) :
    let router := (run ops (Router.fresh settings start)).1
    let applied := router.apply table
    applied.1.isEmpty = true → ∀ net,
      let route := applied.2.2.routes.get? net
      route = table.routes.get? net ∨ ∃ id group, router.groups.get? id = some group ∧
        ((∃ peer ∈ group.peers.list, peer.host = net ∧ peer.state ≠ .active ∧
            route = if peer.state = .leaving then none else some ⟨peer.link.ifname, none⟩) ∨
          ((∀ peer ∈ group.peers.list, peer.state = .leaving) ∧ group.services.Carries net ∧
            route = none)) := by
  intro router
  have sound : router.Sound := run_sound settings start ops
  -- how the router came about does not matter from here on
  clear_value router
  intro applied silent net route
  refine (route_apply router table net).imp_right ?_
  rintro ⟨pass, begun, id, group, found, origin⟩
  obtain ⟨quiet, unchanged⟩ := silent_of_isEmpty silent begun
  obtain ⟨old, stood, evolves⟩ := evolves_passStarts sound silent pass begun id group found
  obtain ⟨-, changes⟩ := reports_of_turn found pass.2
  have unsaid : (group.commit (pass.1.turnOf id pass.2)).1.changes = [] :=
    List.subset_nil.1 (unchanged ▸ changes)
  refine ⟨id, old, stood, ?_⟩
  have here := sound.passStarts _ table pass begun id group found
  rcases here.of_origin unsaid origin with ⟨peer, member, host, places⟩ | ⟨leaving, carries, gone⟩
  · obtain ⟨before, listed, same⟩ := evolves.peers.came peer member
    refine .inl ⟨before, listed, ?_, same.places places⟩
    rw [← host, Peer.host, Peer.host, same.link]
  · refine .inr ⟨fun peer member => ?_, evolves.carried net carries, gone⟩
    by_contra stays
    obtain ⟨later, there, same⟩ := evolves.peers.stayed peer member stays
    exact stays (same.leaving.1 (leaving later there))

/-- A network is withdrawn without a word, since the only peer of its group leaves. -/
theorem withdrawn_in_silence :
    let peer := Sample.link "wg1" 0x0A000001#32 1 1
    let ops : List (Operation MemoryTable) :=
      [.add peer [peer.host, Sample.lan], .apply, .remove peer [peer.host]]
    let state := run ops (Router.fresh {} ({} : MemoryTable))
    let applied := state.1.apply state.2
    applied.1.isEmpty = true ∧
      applied.2.2.routes.get? Sample.lan ≠ state.2.routes.get? Sample.lan ∧
      ∃ id group, state.1.groups.get? id = some group ∧
        (∀ peer ∈ group.peers.list, peer.state = .leaving) ∧ group.services.Carries Sample.lan := by
  intro peer ops state applied
  have silent : applied.1.isEmpty = true := by decide +kernel
  have differs : applied.2.2.routes.get? Sample.lan ≠ state.2.routes.get? Sample.lan := by
    decide +kernel
  have forsaken : ∃ entry ∈ state.1.groups.entries, (∀ peer ∈ entry.2.peers.list,
      peer.state = .leaving) ∧ (entry.2.services.roster? Sample.lan).any (·.installed?.isSome) := by
    decide +kernel
  obtain ⟨⟨id, group⟩, member, leaving, carries⟩ := forsaken
  refine ⟨silent, differs, id, group, (SortedMap.mem_entries_iff _ id group).1 member, leaving, ?_⟩
  rwa [Services.Carries, Option.isSome_bind]

/-- The route to a new peer is installed without a word. -/
theorem installed_in_silence :
    let peer := Sample.link "wg1" 0x0A000001#32 1 1
    let ops : List (Operation MemoryTable) := [.add peer [peer.host]]
    let state := run ops (Router.fresh {} ({} : MemoryTable))
    let applied := state.1.apply state.2
    applied.1.isEmpty = true ∧
      applied.2.2.routes.get? peer.host ≠ state.2.routes.get? peer.host ∧
      ∃ id group, state.1.groups.get? id = some group ∧
        ∃ joining ∈ group.peers.list, joining.host = peer.host ∧ joining.state ≠ .active := by
  intro peer ops state applied
  have silent : applied.1.isEmpty = true := by decide +kernel
  have differs : applied.2.2.routes.get? peer.host ≠ state.2.routes.get? peer.host := by
    decide +kernel
  have stays : ∀ entry ∈ state.1.groups.entries, ¬ ∀ peer ∈ entry.2.peers.list,
      peer.state = .leaving := by decide +kernel
  refine ⟨silent, differs, ?_⟩
  -- the run is over; what follows must not compute it again
  have reached : run ops (Router.fresh {} ({} : MemoryTable)) = state := rfl
  clear_value state ops
  subst reached
  obtain ⟨id, group, found, ⟨joining, listed, here, inactive, -⟩ | ⟨leaving, -, -⟩⟩ :=
    (changed_in_silence {} ({} : MemoryTable) ops _ silent peer.host).resolve_left differs
  · exact ⟨id, group, found, joining, listed, here, inactive⟩
  · exact absurd leaving (stays _ ((SortedMap.mem_entries_iff _ id group).2 found))

end Router

end OverlayRouting
