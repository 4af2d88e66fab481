/-
# OverlayRouting.Proofs.HandOver -- what an apply over a willing table leaves

An apply over a table that refuses nothing at will takes one pass, or two if the first one
frees addresses that others were kept out of.  Afterwards nobody is on the way out, and who
has no route yet was blocked at its turn (`handed_over`).

An address that one group has released and another one has claimed is handed over by the
same apply if the old owner comes first.  If it comes behind, the new one finds the old
route in its way and waits (`handover_waits`).  The next apply installs it, unless somebody
holds the address still, and that cannot be where claims exclude each other
(`Router.Blocked.quiet`).
-/
import OverlayRouting.Proofs.Pass

namespace OverlayRouting

set_option autoImplicit false

open RoutingTable (Lawful)

namespace Router

/-! ## Resolutions -/

theorem Held.cleared_enable {held : Held} (kind : held.Kind) {group : Group} (sound : group.Sound)
    (cleared : group.Cleared) (net : Prefix) : (held.enable group net).2.Cleared := by
  cases kind with
  | peers =>
      refine ⟨fun nobody => cleared.peopled ((group.peers.list_enable_eq_nil_iff net).1 nobody),
        fun peer member => ?_, cleared.wanted, cleared.bare⟩
      obtain ⟨before, stood, rfl | ⟨-, rfl⟩⟩ := Peers.mem_enable member
      · exact cleared.staying peer stood
      · simp
  | services =>
      refine ⟨cleared.peopled, cleared.staying, fun other after stands enabled => ?_,
        fun other after stands enabled pending => ?_⟩
      · rcases Services.of_roster?_enable stands with ⟨same, -⟩ | ⟨-, roster, found, disabled, rfl⟩
        · exact cleared.wanted other after same enabled
        · obtain ⟨here, listed⟩ := sound.services net roster found
          have some_listed : roster.enable.candidates ≠ [] := fun nothing =>
            listed (List.map_eq_nil_iff.1 nothing)
          obtain ⟨c, member⟩ := List.exists_mem_of_ne_nil _ some_listed
          exact ⟨c, member, by simp [Candidate.isLeaving, here.joining_enable disabled member]⟩
      · rcases Services.of_roster?_enable stands with ⟨same, -⟩ | ⟨-, roster, found, disabled, rfl⟩
        · exact cleared.bare other after same enabled pending
        · have here := (sound.services net roster found).1
          refine (Roster.installed?_eq_none_iff _).2 fun c member => ?_
          simp [Candidate.isInstalled, here.joining_enable disabled member]

theorem Cleared.resolve {router : Router} (sound : router.Sound) (cleared : router.Cleared) :
    router.resolve.2.Cleared := by
  refine (resolve_induction (motive := fun progress => progress.2.Sound ∧ progress.2.Cleared) router
    ⟨sound, cleared⟩ ?_).2
  rintro held kind id net count left group _ found ⟨sound, cleared⟩
  have here := sound id group found
  refine ⟨sound.setGroup id (Held.sound_enable kind here net), fun other after stands => ?_⟩
  rw [get?_setGroup] at stands
  split at stands
  · cases stands
    exact Held.cleared_enable kind here (cleared id group found) net
  · exact cleared other after stands

/-! ## Passes after the first -/

section Commits

variable {σ : Type} [RoutingTable σ]

/-- What a pass over cleared groups leaves to each: its routes and its claims. -/
theorem pass_keeps {router : Router} (cleared : router.Cleared) (table : σ) {id : GroupId}
    {group : Group} (stood : router.groups.get? id = some group) :
    ∃ after, (router.commitOnce table).1.router.groups.get? id = some after ∧
      (∀ holding ∈ group.peers.holdings, holding ∈ after.peers.holdings) ∧
      (∀ holding ∈ group.services.holdings, holding ∈ after.services.holdings) ∧
      ∀ net, group.claims net = true → after.claims net = true := by
  obtain ⟨seen, walked⟩ := router.get?_walk Group.commit table id
  obtain ⟨after, kept, keeps⟩ := Group.commit_keeps (cleared id group stood) seen
  refine ⟨after, walked.trans ?_, keeps⟩
  rw [stood]
  exact kept

theorem Contested.pass {router : Router} (contested : router.Contested) (cleared : router.Cleared)
    (table : σ) : (router.commitOnce table).1.router.Contested := by
  refine contested.commitOnce fun id group net stood claims => ?_
  obtain ⟨left, stands, -, -, keeps⟩ := pass_keeps cleared table stood
  exact ⟨left, stands, keeps net claims⟩

end Commits

/-! ## Who blocks whom -/

/-- If every route is kept, then who was in the way is in the way still. -/
theorem Blocked.of_keeps {before after : Router} (blocked : Blocked before after)
    (known : ∀ id group, after.groups.get? id = some group →
      ∃ stood, before.groups.get? id = some stood)
    (keeps : ∀ id group, before.groups.get? id = some group → ∃ left,
      after.groups.get? id = some left ∧
        (∀ holding ∈ group.peers.holdings, holding ∈ left.peers.holdings) ∧
        ∀ holding ∈ group.services.holdings, holding ∈ left.services.holdings) :
    Blocked after after := by
  have elsewhere : ∀ id net, Elsewhere before after id net → Elsewhere after after id net := by
    rintro id net (now | ⟨other, behind, group, stood, holding, member, same⟩)
    · exact .inl now
    · obtain ⟨left, stands, peers, services⟩ := keeps other group stood
      refine .inl ⟨other, fun equal => Nat.lt_irrefl _ (equal ▸ behind), left, stands, holding, ?_, same⟩
      exact (List.mem_append.1 member).elim
        (fun member => List.mem_append_left _ (peers holding member))
        fun member => List.mem_append_right _ (services holding member)
  intro id group stands
  obtain ⟨peers, services⟩ := blocked id group stands
  refine ⟨fun peer member joining => ?_, fun net roster found enabled pending => ?_⟩
  · refine (peers peer member joining).imp ?_ (elsewhere id peer.host)
    rintro ⟨holding, held, same⟩
    refine ⟨holding, List.mem_append_right _ ?_, same⟩
    rcases List.mem_append.1 held with earlier | now
    · obtain ⟨stood, was⟩ := known id group stands
      obtain ⟨left, also, -, services⟩ := keeps id stood was
      cases stands.symm.trans also
      rw [group_of_get? was] at earlier
      exact services holding earlier
    · exact now
  · exact (services net roster found enabled pending).imp_right (elsewhere id net)

/-- Who is blocked by what there is was not blocked by less. -/
theorem Blocked.since {before after : Router} (blocked : Blocked after after) :
    Blocked before after := by
  have elsewhere : ∀ id net, Elsewhere after after id net → Elsewhere before after id net := by
    rintro id net (now | ⟨other, behind, now⟩)
    · exact .inl now
    · exact .inl ⟨other, fun equal => Nat.lt_irrefl _ (equal ▸ behind), now⟩
  intro id group stands
  obtain ⟨peers, services⟩ := blocked id group stands
  refine ⟨fun peer member joining => ?_, fun net roster found enabled pending =>
    (services net roster found enabled pending).imp_right (elsewhere id net)⟩
  refine (peers peer member joining).imp ?_ (elsewhere id peer.host)
  rintro ⟨holding, held, same⟩
  rw [group_of_get? stands] at held
  exact ⟨holding, List.mem_append_right _ ((List.mem_append.1 held).elim (fun here => here) fun here => here), same⟩

/-! ## When nobody is blocked -/

/-- No peer is on the way in or out, and no destination that may be served has anything
pending. -/
def Quiet (router : Router) : Prop :=
  ∀ id group, router.groups.get? id = some group →
    (∀ peer ∈ group.peers.list, peer.state ≠ .joining ∧ peer.state ≠ .leaving) ∧
    ∀ net roster, group.services.roster? net = some roster → roster.disabled = false →
      roster.hasPending = false

/-- No group serves the address of one of its own peers as a destination. -/
def Apart (router : Router) : Prop :=
  ∀ id group, router.groups.get? id = some group → ∀ peer ∈ group.peers.list, ∀ roster,
    group.services.roster? peer.host = some roster → roster.disabled = true

/-- Claims that exclude each other block nobody, across groups or within one. -/
theorem Blocked.quiet {router : Router} (blocked : Blocked router router)
    (cleared : router.Cleared) (exclusive : router.Exclusive) (apart : router.Apart) :
    router.Quiet := by
  have alone : ∀ id group net, router.groups.get? id = some group → group.claims net = true →
      ¬ Elsewhere router router id net := by
    rintro id group net stands claims (⟨other, differs, rival, rivalStands, holding, member, rfl⟩ |
      ⟨other, behind, rival, rivalStands, holding, member, rfl⟩)
    · have rivalClaims := (cleared other rival rivalStands).claims_of_holding member
      exact differs (exclusive _ other id rival group rivalStands stands rivalClaims claims)
    · have rivalClaims := (cleared other rival rivalStands).claims_of_holding member
      have same := exclusive _ other id rival group rivalStands stands rivalClaims claims
      exact Nat.lt_irrefl _ (same ▸ behind)
  intro id group stands
  obtain ⟨peers, services⟩ := blocked id group stands
  have here := cleared id group stands
  refine ⟨fun peer member => ⟨fun joining => ?_, here.staying peer member⟩,
    fun net roster found enabled => ?_⟩
  · rcases peers peer member joining with ⟨holding, held, same⟩ | elsewhere
    · rw [group_of_get? stands] at held
      have own : holding ∈ group.services.holdings :=
        (List.mem_append.1 held).elim (fun before => before) fun after => after
      obtain ⟨⟨net, roster⟩, listed, in_roster⟩ := List.mem_flatMap.1 own
      have found : group.services.roster? net = some roster :=
        (group.services.rosters.mem_entries_iff net roster).1 listed
      obtain ⟨enabled, -⟩ := (roster.mem_holdings_iff net holding).1 in_roster
      have address : net = peer.host := (Roster.net_of_mem_holdings in_roster).symm.trans same
      have disabled := apart id group stands peer member roster (by rw [← address]; exact found)
      cases enabled.symm.trans disabled
    · refine alone id group peer.host stands ?_ elsewhere
      rw [Group.claims_iff]
      exact .inl ((Peers.claims_iff _ _).2
        ⟨peer, member, by simp [Peer.claimsAddress, joining], rfl⟩)
  · by_contra pending
    rcases services net roster found enabled (by simpa using pending) with
      ⟨holding, held, same⟩ | elsewhere
    · obtain ⟨peer, member, in_peer⟩ := List.mem_flatMap.1 held
      have address : peer.host = net := (Peer.net_of_mem_holdings in_peer).symm.trans same
      have disabled := apart id group stands peer member roster (by rw [address]; exact found)
      cases enabled.symm.trans disabled
    · refine alone id group net stands ?_ elsewhere
      rw [Group.claims_iff]
      exact .inr ((Services.claims_iff _ net).2
        ⟨roster, found, enabled, here.wanted net roster found enabled⟩)

/-! ## An apply -/

/-- The state in which an apply over a willing table can start. -/
structure Ready (router : Router) (table : MemoryTable) : Prop where
  sound : router.Sound
  willing : table.Willing
  owned : (router.ledger table).Owned

variable {router : Router} {table : MemoryTable}

theorem Ready.pass (ready : router.Ready table) :
    (router.commitOnce table).1.router.Ready (router.commitOnce table).2 where
  sound := ready.sound.commitOnce table
  willing := MemoryTable.willing_kept.commitOnce router table ready.willing
  owned := (walk_leads ready.sound table fun group sound table =>
    group.commit_leads sound table).owned ready.owned

theorem Ready.resolve (ready : router.Ready table) : router.resolve.2.Ready table where
  sound := ready.sound.resolve
  willing := ready.willing
  owned := Ledger.Step.owned (.relax (relaxed_resolve ready.sound)) ready.owned

/-- A pass over cleared groups keeps in the way who was. -/
theorem blocked_pass (ready : router.Ready table) (cleared : router.Cleared) :
    let after := (router.commitOnce table).1.router
    Blocked after after := by
  refine (pass_turn ready.sound ready.willing ready.owned).2.of_keeps (fun id group stands => ?_)
    fun id group stood => ?_
  · obtain ⟨stood, -, was, -⟩ := of_get?_walk stands
    exact ⟨stood, was⟩
  · obtain ⟨left, stands, peers, services, -⟩ := pass_keeps cleared table stood
    exact ⟨left, stands, peers, services⟩

/-- A pass that admits nothing is the last one. -/
theorem commitPasses_succ (fuel : Nat) (report : Report) (router : Router) (table : MemoryTable) :
    let after := (router.commitOnce table).1.router
    let left := (router.commitOnce table).2
    ∃ next, (commitPasses (fuel + 1) report router table).2 =
      if after.resolve.1 = 0 then (after, left)
      else (commitPasses fuel next after.resolve.2 left).2 := by
  simp only [commitPasses]
  split
  · rename_i nothing
    exact ⟨report, by rw [resolve_eq_self nothing]⟩
  · exact ⟨_, rfl⟩

/-- Nothing is on the way out in a pass over cleared groups, so it frees no address for
another pass. -/
theorem commitPasses_of_cleared (fuel : Nat) (report : Report) {router : Router} (table : MemoryTable)
    (cleared : router.Cleared) (contested : router.Contested) :
    (commitPasses (fuel + 1) report router table).2 =
      ((router.commitOnce table).1.router, (router.commitOnce table).2) := by
  obtain ⟨next, passes⟩ := commitPasses_succ fuel report router table
  have idle := resolve_of_contested (contested.pass cleared table)
  rw [passes, if_pos (congrArg Prod.fst idle)]

/-- What an apply leaves. -/
structure Applied (before after : Router) (left : MemoryTable) : Prop where
  ready : after.Ready left
  cleared : after.Cleared
  blocked : Blocked before after
  /-- If nothing was on the way out before, then whoever is in the way now stays there. -/
  still : before.Cleared → Blocked after after

theorem Ready.apply (ready : router.Ready table) :
    Applied router (router.apply table).2.1 (router.apply table).2.2 := by
  obtain ⟨cleared, blocked⟩ := pass_turn ready.sound ready.willing ready.owned
  have once := ready.pass
  obtain ⟨report, passes⟩ := commitPasses_succ 2 {} router table
  rw [Router.apply, mostPasses, passes]
  by_cases nothing : (router.commitOnce table).1.router.resolve.1 = 0
  · rw [if_pos nothing]
    exact ⟨once, cleared, blocked, fun before => blocked_pass ready before⟩
  · rw [if_neg nothing]
    have again := once.resolve
    have resolved := Cleared.resolve once.sound cleared
    have still := blocked_pass again resolved
    rw [commitPasses_of_cleared 1 report _ resolved (resolve_contested _)]
    exact ⟨again.pass, (pass_turn again.sound again.willing again.owned).1, still.since,
      fun _ => still⟩

end Router

/-! ## Runs over a willing table -/

/-- A call that neither forgets entries nor changes the table behind the router's back. -/
def Operation.Plain {σ : Type} : Operation σ → Prop
  | .flush | .close | .outside _ => False
  | _ => True

theorem Operation.Plain.careful {σ : Type} [RoutingTable σ] [Lawful σ] {op : Operation σ}
    (plain : op.Plain) : op.Careful := by
  cases op with
  | flush | close | outside change => exact plain.elim
  | _ => trivial

theorem Operation.Plain.willing {op : Operation MemoryTable} (plain : op.Plain)
    (state : Router × MemoryTable) (willing : state.2.Willing) : (op.step state).2.Willing := by
  cases op with
  | add link nets => exact willing
  | remove link nets => exact willing
  | setMargins margins => exact willing
  | apply => exact MemoryTable.willing_kept.apply state.1 state.2 willing
  | ping tallies => exact MemoryTable.willing_kept.ping state.1 tallies state.2 willing
  | flush | close | outside change => exact plain.elim

theorem Router.Ready.applied {state : Router × MemoryTable} (ready : state.1.Ready state.2) :
    Router.Applied state.1 (Operation.apply.step state).1 (Operation.apply.step state).2 :=
  ready.apply

section Runs

variable (settings : RouterSettings) (ops : List (Operation MemoryTable))

theorem ready_run (plain : ∀ op ∈ ops, op.Plain) :
    let state := run ops (Router.fresh settings ({} : MemoryTable))
    state.1.Ready state.2 := by
  intro state
  have begins : (Router.fresh settings ({} : MemoryTable)).1.Sound := Router.sound_fresh settings
  refine ⟨run_sound settings {} ops, ?_, ?_⟩
  · have fresh : (Router.fresh settings ({} : MemoryTable)).2.Willing := rfl
    exact run_induction (motive := fun state => state.2.Willing) ops fresh
      fun op member state willing => (plain op member).willing state willing
  · have leads := run_leads (fun op member => (plain op member).careful) begins
    exact leads.owned fun net ifname routed => nomatch routed

/-- What an apply leaves over a table that refuses nothing at will: nobody is on the way out,
an enabled destination with nothing pending is installed, and whoever waits for a route was
blocked at its turn.  After a second apply, whoever waits is blocked by what there is, and
so nobody waits if claims exclude each other. -/
theorem handed_over (plain : ∀ op ∈ ops, op.Plain) :
    let before := run ops (Router.fresh settings ({} : MemoryTable))
    let after := Operation.apply.step before
    let again := Operation.apply.step after
    (∀ id group, after.1.groups.get? id = some group →
      (∀ peer ∈ group.peers.list, peer.state ≠ .leaving) ∧
      ∀ net roster, group.services.roster? net = some roster → roster.disabled = false →
        roster.hasPending = false → roster.installed?.isSome) ∧
    Router.Blocked before.1 after.1 ∧ Router.Blocked again.1 again.1 ∧
    (again.1.Exclusive → again.1.Apart → again.1.Quiet) := by
  intro before after again
  have once : Router.Applied before.1 after.1 after.2 := (ready_run settings ops plain).applied
  have twice : Router.Applied after.1 again.1 again.2 := once.ready.applied
  have still := twice.still once.cleared
  refine ⟨fun id group stands => ⟨(once.cleared id group stands).staying, ?_⟩, once.blocked, still,
    still.quiet twice.cleared⟩
  intro net roster found enabled quiet
  obtain ⟨sound, listed⟩ := (once.ready.sound id group stands).services net roster found
  exact sound.served listed enabled quiet

/-- The old owner comes first: the new one, which was refused, gets the address from the
apply that takes it from the old one. -/
theorem handed_over_in_order :
    let old := Sample.link "wg1" 0x0A000001#32 1 1
    let new := Sample.link "wg2" 0x0A000101#32 2 2
    let before := run [.add old [old.host, Sample.lan], .add new [new.host, Sample.lan], .apply,
      .remove old [old.host, Sample.lan]] (Router.fresh {} ({} : MemoryTable))
    let after := Operation.apply.step before
    Router.Blocked before.1 after.1 ∧ after.1.carrying ⟨2⟩ Sample.lan = some ⟨2⟩ := by
  intro old new before after
  refine ⟨(handed_over {} _ ?_).2.1, by decide +kernel⟩
  simp only [List.forall_mem_cons, Operation.Plain, true_and]
  exact nofun

end Runs

/-- The old owner comes behind: the new one finds the old route in its way and waits, though
nothing was refused at will and the address is free at the end of the apply. -/
theorem handover_waits :
    let old := Sample.link "wg1" 0x0A000001#32 1 2
    let new := Sample.link "wg2" 0x0A000101#32 2 1
    ¬ (run [.add old [old.host, Sample.lan], .apply, .remove old [old.host, Sample.lan],
      .add new [new.host, Sample.lan], .apply] (Router.fresh {} ({} : MemoryTable))).1.Quiet := by
  intro old new quiet
  have waits : ∀ router : Router, ((router.groups.get? ⟨1⟩).bind fun group =>
      group.services.roster? Sample.lan).any (fun roster => !roster.disabled && roster.hasPending) →
      ¬ router.Quiet := by
    intro router found quiet
    obtain ⟨roster, stands, pending⟩ := (Option.any_eq_true _ _).1 found
    obtain ⟨group, known, listed⟩ := Option.bind_eq_some_iff.1 stands
    rw [Bool.and_eq_true, Bool.not_eq_true'] at pending
    have settled := (quiet ⟨1⟩ group known).2 Sample.lan roster listed pending.1
    exact absurd pending.2 (by simp [settled])
  exact waits _ (by decide +kernel) quiet

end OverlayRouting
