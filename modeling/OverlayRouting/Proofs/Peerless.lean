/-
# OverlayRouting.Proofs.Peerless -- groups that are left without peers

A group whose last peer is gone is given up: its destinations are withdrawn, and it goes with the
last of them.  So it goes only if nothing of it is left in the table, destination by destination
(`Group.commit_gone`), and while it stays, it stays for routes whose withdrawal was refused
(`Group.commit_peerless`).

Over an apply this is said of the turn of the group in a pass (`Router.turnOf`): the groups that
are left are those of the last pass, since admitting addresses again leaves a group without peers
alone (`Router.resolve_peerless`), and only a pass drops a group (`Router.gone_completely`).
-/
import OverlayRouting.Proofs.Refusal
import OverlayRouting.Proofs.Convergence
import OverlayRouting.Proofs.Passes

namespace OverlayRouting

set_option autoImplicit false

/-! ## Destinations -/

namespace Roster

/-- If a route is installed for the destination, it was withdrawn by these calls. -/
def Released (roster : Roster) (net : Prefix) (asked : List (Call × Outcome)) : Prop :=
  ∀ c, roster.installed? = some c → (⟨.remove, c.link.ifname, net⟩, .ok ()) ∈ asked

/-- A route is installed for the destination, and its withdrawal was refused. -/
def Detained (roster : Roster) (net : Prefix) (asked : List (Call × Outcome)) : Prop :=
  ∃ c cause, roster.installed? = some c ∧ (⟨.remove, c.link.ifname, net⟩, .error cause) ∈ asked

section Turns

variable {σ : Type} [RoutingTable σ] (roster : Roster) (destination : Destination)
  {first table : Recorded σ} (behind : first.record <:+ table.record)

include behind

/-- A destination that is withdrawn is dropped if its route is released, and stays as it is if
that was refused. -/
theorem withdraw_released :
    let made := roster.withdraw destination table
    match made.1.roster with
    | none => roster.Released destination.net (first.since made.2)
    | some left => left = roster ∧ roster.Detained destination.net (first.since made.2) := by
  obtain ⟨early, noted⟩ := behind
  unfold withdraw
  split
  · rename_i bare
    exact fun c found => nomatch bare.symm.trans found
  · rename_i c found
    have asked := table.record_remove c.link.ifname destination.net
    simp only [← noted, ← List.cons_append] at asked
    have since := Recorded.since_of_append asked
    split <;> rename_i answered <;> rw [answered] at since
    · refine fun other same => ?_
      cases found.symm.trans same
      exact since ▸ List.mem_cons_self
    · rename_i cause _
      exact ⟨rfl, c, cause, found, since ▸ List.mem_cons_self⟩

theorem giveUp_released :
    let made := roster.giveUp destination table
    match made.1.roster with
    | none => roster.disabled = true ∨ roster.Released destination.net (first.since made.2)
    | some left => left = roster ∧ roster.disabled = false ∧
        roster.Detained destination.net (first.since made.2) := by
  unfold giveUp
  split
  · rename_i disabled
    exact .inl disabled
  · rename_i enabled
    have withdrawn := roster.withdraw_released destination behind
    simp only at withdrawn ⊢
    split <;> rename_i left <;> rw [left] at withdrawn
    · exact .inr withdrawn
    · exact ⟨withdrawn.1, by simpa using enabled, withdrawn.2⟩

/-- A commit drops a destination only with its route. -/
theorem commit_released (selected : Option Address)
    (dropped : (roster.commit destination selected table).1.roster = none) :
    roster.Released destination.net
      (first.since (roster.commit destination selected table).2) := by
  revert dropped
  refine commit_cases (motive := fun made => made.1.roster = none →
    roster.Released destination.net (first.since made.2)) roster destination selected table ?_ ?_ ?_ ?_
  · exact fun _ dropped => nomatch dropped
  · intro enabled pending joining _ c found
    cases (bare_of_joining joining).symm.trans found
  · intro _ _ _ dropped
    have withdrawn := roster.withdraw_released destination behind
    simp only [dropped] at withdrawn
    exact withdrawn
  · intro _ _ _ dropped
    simp only [reconfigure] at dropped
    split at dropped <;> cases dropped

end Turns

end Roster

section Sweeps

variable {σ : Type} [RoutingTable σ]

/-- What a destination asks at its turn in an errand, the errand has asked. -/
theorem Services.Errand.turn_since (errand : Errand) {services : Services} {net : Prefix}
    {roster : Roster} (found : services.roster? net = some roster) {first table : Recorded σ}
    (behind : first.record <:+ table.record) :
    ∃ seen, first.record <:+ seen.record ∧
      let settled := errand.visit roster ⟨services.group, net⟩ seen
      let swept := services.sweep errand.visit table
      swept.1.services.roster? net = settled.1.roster ∧
        first.since settled.2 ⊆ first.since swept.2 := by
  obtain ⟨seen, left, -, turn⟩ := services.sweep_turn errand.visit table found
  have others : ∀ {holds : Recorded σ → Prop}, RoutingTable.Keeps holds →
      (holds table → holds seen) ∧
        (holds (errand.visit roster ⟨services.group, net⟩ seen).2 →
          holds (services.sweep errand.visit table).2) :=
    fun keeps => turn _ fun other rival _ _ table =>
      keeps.everywhere.visit errand rival _ table trivial
  have begun := (others (Recorded.record_extends first)).1 behind
  refine ⟨seen, begun, left, fun entry asked => ?_⟩
  have settled := (Recorded.record_extends first).everywhere.visit errand roster
    ⟨services.group, net⟩ seen trivial begun
  exact ((others (Recorded.since_grows first entry)).2 ⟨settled, asked⟩).2

end Sweeps

theorem Services.roster?_of_isEmpty {services : Services} (nothing : services.isEmpty = true)
    (net : Prefix) : services.roster? net = none := by
  rw [roster?, SortedMap.get?, List.isEmpty_iff.1 nothing]
  rfl

/-! ## Groups -/

namespace Group

variable {σ : Type} [RoutingTable σ] (group : Group) (seen : Recorded σ)

/-- What a commit of the group asks of the table for its destinations. -/
def askedForServices : List (Call × Outcome) :=
  (group.peers.commit seen).2.2.since (group.commit seen).2

variable {group seen}

variable (group seen) in
theorem sweptServices_extends :
    (group.peers.commit seen).2.2.record <:+ (group.sweptServices seen).2.record :=
  (Recorded.record_extends _).everywhere.commitServices _ group.services _ (fun _ _ _ => trivial)
    (List.suffix_refl _)

/-- A destination that is left to a group without peers, and what is asked to give it up. -/
theorem giveUp_turn (alone : (group.settledPeers seen).isEmpty = true) {net : Prefix}
    {roster : Roster} (left : (group.sweptServices seen).1.services.roster? net = some roster) :
    ∃ table : Recorded σ, (group.peers.commit seen).2.2.record <:+ table.record ∧
      let settled := roster.giveUp ⟨group.services.group, net⟩ table
      ((group.sweptServices seen).1.services.withdrawAll (group.sweptServices seen).2).1.roster? net =
          settled.1.roster ∧
        (group.peers.commit seen).2.2.since settled.2 ⊆ group.askedForServices seen := by
  obtain ⟨table, behind, settled, asked⟩ :=
    Services.Errand.withdrawAll.turn_since left (group.sweptServices_extends seen)
  refine ⟨table, behind, settled, ?_⟩
  rw [askedForServices, commit_eq]
  simp only [alone, if_true]
  exact asked

/-- A destination that goes in the commit itself, before anything is given up. -/
theorem released_of_swept (alone : (group.settledPeers seen).isEmpty = true) {net : Prefix}
    {roster : Roster} (found : group.services.roster? net = some roster)
    (dropped : (group.sweptServices seen).1.services.roster? net = none) :
    roster.Released net (group.askedForServices seen) := by
  obtain ⟨table, behind, settled, asked⟩ := (Services.Errand.commit
    (group.selectedGateway seen)).turn_since found
      (List.suffix_refl (group.peers.commit seen).2.2.record)
  have released := roster.commit_released ⟨group.services.group, net⟩ behind
    (group.selectedGateway seen) (settled.symm.trans dropped)
  have withdrawn := (Recorded.record_extends (group.sweptServices seen).2).everywhere.withdrawAll _
    (group.sweptServices seen).1.services (fun _ _ _ => trivial) (List.suffix_refl _)
  intro c installed
  rw [askedForServices, commit_eq]
  simp only [alone, if_true]
  exact Recorded.mem_since_of_extends (group.sweptServices_extends seen) withdrawn
    (asked (released c installed))

/-- A group goes only if no peer is left and nothing of its destinations: each is kept out by
another group, or its route, if it has one, is withdrawn. -/
theorem commit_gone (gone : (group.commit seen).1.kept = none) :
    (group.settledPeers seen).isEmpty = true ∧
      ∀ net roster, group.services.roster? net = some roster →
        let left := ((group.sweptServices seen).1.services.roster? net).getD roster
        left.disabled = true ∨ left.Released net (group.askedForServices seen) := by
  have alone : (group.settledPeers seen).isEmpty = true := by
    by_contra peopled
    rw [commit_of_peopled (by simpa using peopled)] at gone
    cases gone
  have nothing : ((group.sweptServices seen).1.services.withdrawAll
      (group.sweptServices seen).2).1.isEmpty = true := by
    by_contra some_left
    rw [commit_of_alone alone (by simpa using some_left)] at gone
    cases gone
  refine ⟨alone, fun net roster found => ?_⟩
  cases left : (group.sweptServices seen).1.services.roster? net with
  | none => exact .inr (released_of_swept alone found left)
  | some after =>
      obtain ⟨table, behind, settled, asked⟩ := giveUp_turn alone left
      have dropped := settled.symm.trans (Services.roster?_of_isEmpty nothing net)
      have given := after.giveUp_released ⟨group.services.group, net⟩ behind
      simp only [dropped] at given
      exact given.imp_right fun released c installed => asked (released c installed)

/-- A group that is left without peers has a destination left, and each of those has a route
whose withdrawal was refused. -/
theorem commit_peerless {after : Group} (kept : (group.commit seen).1.kept = some after)
    (alone : after.peers.isEmpty = true) :
    after.services.isEmpty = false ∧
      ∀ net roster, after.services.roster? net = some roster →
        roster.disabled = false ∧ roster.Detained net (group.askedForServices seen) := by
  rw [(kept_commit kept).1] at alone
  have left : after.services = ((group.sweptServices seen).1.services.withdrawAll
      (group.sweptServices seen).2).1 ∧ after.services.isEmpty = false := by
    rw [commit_eq] at kept
    simp only [alone, if_true] at kept
    split at kept
    · cases kept
    · rename_i some_left
      cases kept
      exact ⟨rfl, by simpa using some_left⟩
  refine ⟨left.2, fun net roster stands => ?_⟩
  rw [left.1] at stands
  obtain ⟨before, -, swept, -⟩ := Services.of_roster?_sweep stands
  obtain ⟨table, behind, settled, asked⟩ := giveUp_turn alone swept
  have given := before.giveUp_released ⟨group.services.group, net⟩ behind
  simp only [settled.symm.trans stands] at given
  obtain ⟨rfl, enabled, c, cause, installed, refused⟩ := given
  exact ⟨enabled, c, cause, installed, asked refused⟩

end Group

/-! ## The router -/

namespace Router

variable {σ : Type} [RoutingTable σ]

/-! ### Resolutions -/

omit [RoutingTable σ] in
/-- Admitting addresses again drops no group. -/
theorem known_resolve (router : Router) (id : GroupId) :
    (router.resolve.2.groups.get? id).isSome = (router.groups.get? id).isSome := by
  refine resolve_induction (motive := fun progress =>
    (progress.2.groups.get? id).isSome = (router.groups.get? id).isSome) router rfl ?_
  intro held _ other net count left group _ found same
  rw [get?_setGroup]
  split
  · rename_i here
    rw [← same, ← here, found]
    rfl
  · exact same

omit [RoutingTable σ] in
theorem Held.idle_of_peerless {held : Held} (kind : held.Kind) {group : Group} {net : Prefix}
    (alone : group.peers.isEmpty = true)
    (enabled : ∀ roster, group.services.roster? net = some roster → roster.disabled = false) :
    (held.enable group net).1 = false := by
  cases kind with
  | peers => simp [heldPeers, Peers.enable, List.isEmpty_iff.1 alone]
  | services =>
      simp only [heldServices, Services.enable]
      split
      · rfl
      · rename_i roster found
        simp [enabled roster found]

omit [RoutingTable σ] in
/-- Admitting addresses again leaves a group alone that has no peers and keeps no destination
out. -/
theorem resolve_peerless {router : Router} {id : GroupId} {after : Group}
    (stands : router.resolve.2.groups.get? id = some after) (alone : after.peers.isEmpty = true)
    (enabled : ∀ group net roster, router.groups.get? id = some group →
      group.peers.isEmpty = true → group.services.roster? net = some roster →
        roster.disabled = false) : router.groups.get? id = some after := by
  revert after
  refine resolve_induction (motive := fun progress => ∀ {after : Group},
    progress.2.groups.get? id = some after → after.peers.isEmpty = true →
      router.groups.get? id = some after) router (fun found _ => found) ?_
  intro held kind other net count left group _ found same after stands alone
  rw [get?_setGroup] at stands
  split at stands
  · rename_i here
    subst here
    cases stands
    have peerless : group.peers.isEmpty = true := by
      cases kind with
      | peers =>
          have nobody := (group.peers.list_enable_eq_nil_iff net).1 (List.isEmpty_iff.1 alone)
          exact List.isEmpty_iff.2 nobody
      | services => exact alone
    have stood := same found peerless
    rwa [Held.enable_eq_self kind (Held.idle_of_peerless kind peerless fun roster listed =>
      enabled group net roster stood peerless listed)]
  · exact same stands alone

/-! ### Applies -/

/-- A group that stands before an apply and not after it went in one of the passes. -/
theorem dropped_in_pass {router : Router} {table : σ} {id : GroupId}
    (stood : (router.groups.get? id).isSome)
    (gone : (router.apply table).2.1.groups.get? id = none) :
    ∃ start ∈ passStarts mostPasses (router, table), (start.1.groups.get? id).isSome ∧
      (start.1.commitOnce start.2).1.router.groups.get? id = none := by
  by_contra kept
  push Not at kept
  have known := (passStarts_induction mostPasses (router, table)
    (motive := fun state => (state.1.groups.get? id).isSome) stood fun start begun here => by
      rw [pass, known_resolve]
      exact Option.isSome_iff_ne_none.2 (kept start begun here)).2 {}
  rw [Router.apply] at gone
  simp [gone] at known

theorem commitOnce_peerless {router : Router} {table : Recorded σ} {id : GroupId} {group : Group}
    (stands : (router.commitOnce table).1.router.groups.get? id = some group)
    (alone : group.peers.isEmpty = true) :
    ∃ before, router.groups.get? id = some before ∧ group.services.isEmpty = false ∧
      ∀ net roster, group.services.roster? net = some roster → roster.disabled = false ∧
        roster.Detained net (before.askedForServices (router.turnOf id table)) := by
  rw [get?_commitOnce] at stands
  obtain ⟨before, found, kept⟩ := Option.bind_eq_some_iff.1 stands
  exact ⟨before, found, Group.commit_peerless kept alone⟩

/-- Over any table, a group is gone completely or not at all.

After an apply every group has a peer or a destination, and each destination of a group without
peers has a route whose withdrawal was refused in the last pass, at the turn of its group.  A
group goes only in a pass that leaves it no peer, and in which at its turn each of its
destinations is kept out by another group, or has its route withdrawn if it has one. -/
theorem gone_completely (router : Router) (table : σ) :
    let fresh : Recorded σ := ⟨table, []⟩
    let watched := router.apply fresh
    (watched.1, watched.2.1, watched.2.2.inner) = router.apply table ∧
    (∃ last, (passStarts mostPasses (router, fresh)).getLast? = some last ∧
      ∀ id group, watched.2.1.groups.get? id = some group →
        (group.peers.isEmpty = false ∨ group.services.isEmpty = false) ∧
        (group.peers.isEmpty = true → ∃ before, last.1.groups.get? id = some before ∧
          ∀ net roster, group.services.roster? net = some roster → roster.disabled = false ∧
            roster.Detained net (before.askedForServices (last.1.turnOf id last.2)))) ∧
    ∀ id, (router.groups.get? id).isSome → watched.2.1.groups.get? id = none →
      ∃ start ∈ passStarts mostPasses (router, fresh), ∃ group,
        start.1.groups.get? id = some group ∧
        (start.1.commitOnce start.2).1.router.groups.get? id = none ∧
        let seen := start.1.turnOf id start.2
        (group.settledPeers seen).isEmpty = true ∧
        ∀ net roster, group.services.roster? net = some roster →
          let left := ((group.sweptServices seen).1.services.roster? net).getD roster
          left.disabled = true ∨ left.Released net (group.askedForServices seen) := by
  intro fresh watched
  refine ⟨Recorded.apply_eq router fresh, ?_, fun id stood gone => ?_⟩
  · obtain ⟨last, ends, ended⟩ := apply_last_pass (router, fresh)
    refine ⟨last, ends, fun id group stands => ?_⟩
    cases alone : group.peers.isEmpty with
    | false => exact ⟨.inl rfl, nofun⟩
    | true =>
        rw [show watched.2 = pass last from ended] at stands
        have committed := resolve_peerless stands alone fun group net roster found alone listed =>
          have ⟨_, _, _, detained⟩ := commitOnce_peerless found alone
          (detained net roster listed).1
        obtain ⟨before, found, listed, detained⟩ := commitOnce_peerless committed alone
        exact ⟨.inr listed, fun _ => ⟨before, found, detained⟩⟩
  · obtain ⟨start, begun, stands, dropped⟩ := dropped_in_pass stood gone
    obtain ⟨group, found⟩ := Option.isSome_iff_exists.1 stands
    refine ⟨start, begun, group, found, dropped, Group.commit_gone ?_⟩
    rw [get?_commitOnce, found] at dropped
    exact dropped

/-- Two groups lose their peers.  The first is left with the network that the table keeps, the
second goes. -/
theorem gone_or_detained :
    let one := Sample.link "wg1" 0x0A000001#32 1 1
    let two := Sample.link "wg2" 0x0A000101#32 2 2
    let other : Prefix := ⟨.v4 0xC0A80200#32, 24, by decide⟩
    let state := run [.add one [one.host, Sample.lan], .add two [two.host, other], .apply,
      .remove one [one.host], .remove two [two.host], .outside (·.failOn Sample.lan)]
      (Router.fresh {} ({} : MemoryTable))
    let fresh : Recorded MemoryTable := ⟨state.2, []⟩
    let after := (state.1.apply fresh).2.1
    (∃ last before roster, (passStarts mostPasses (state.1, fresh)).getLast? = some last ∧
      last.1.groups.get? ⟨1⟩ = some before ∧
      (after.group ⟨1⟩).services.roster? Sample.lan = some roster ∧
      roster.Detained Sample.lan (before.askedForServices (last.1.turnOf ⟨1⟩ last.2))) ∧
    ∃ start ∈ passStarts mostPasses (state.1, fresh), ∃ group,
      start.1.groups.get? ⟨2⟩ = some group ∧
      (group.settledPeers (start.1.turnOf ⟨2⟩ start.2)).isEmpty = true := by
  intro one two other state fresh after
  have stands : after.groups.get? ⟨1⟩ = some (after.group ⟨1⟩) := by decide +kernel
  have peerless : (after.group ⟨1⟩).peers.isEmpty = true := by decide +kernel
  have listed : ((after.group ⟨1⟩).services.roster? Sample.lan).isSome := by decide +kernel
  have stood : (state.1.groups.get? ⟨2⟩).isSome := by decide +kernel
  have gone : after.groups.get? ⟨2⟩ = none := by decide +kernel
  -- the run is over; what follows must not compute it again
  clear_value state
  obtain ⟨-, ⟨last, ends, left⟩, removed⟩ := gone_completely state.1 state.2
  obtain ⟨before, found, detained⟩ := (left ⟨1⟩ _ stands).2 peerless
  obtain ⟨roster, listed⟩ := Option.isSome_iff_exists.1 listed
  obtain ⟨start, begun, group, found_there, -, alone, -⟩ := removed ⟨2⟩ stood gone
  exact ⟨⟨last, before, roster, ends, found, listed, (detained Sample.lan roster listed).2⟩,
    start, begun, group, found_there, alone⟩

end Router

end OverlayRouting
