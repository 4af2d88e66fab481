/-
# OverlayRouting.Proofs.Idempotence -- after a clean apply there is nothing to do

A group rests if it has peers, none of them joins or leaves, the selected gateway is the one that
a selection would pick again, and no destination has anything pending (`Group.Rests`).  A commit
of a group at rest does nothing, whatever the table is (`Group.Rests.commit`), so an apply over
groups at rest does nothing but look (`Router.Rests.apply`).

What keeps a group from rest after a commit is a change that the table refused, or somebody else's
route in the way, which is told of as an error (`Group.rests_commit`).  So an apply in which
nothing is refused and no error is told leaves every group at rest (`Router.apply_again`).
-/
import OverlayRouting.Proofs.Failures
import OverlayRouting.Proofs.Hysteresis
import OverlayRouting.Proofs.PeerMirror
import OverlayRouting.Proofs.Peerless
import OverlayRouting.Proofs.Ranking

namespace OverlayRouting

set_option autoImplicit false

namespace Peers

variable {peers : Peers}

/-! ## Peers without a pending call -/

section Commits

variable {σ : Type} [RoutingTable σ]

theorem settleAll_idle {list : List Peer} (idle : ∀ peer ∈ list, peer.pendingCall? = none)
    (table : σ) : settleAll list table = (list.map fun peer => ⟨some peer, none⟩, table) := by
  induction list with
  | nil => rfl
  | cons peer rest ih =>
      have others := ih fun other member => idle other (List.mem_cons_of_mem _ member)
      simp only [settleAll, settle_idle (idle peer List.mem_cons_self), others, List.map_cons]

theorem commit_idle (idle : ∀ peer ∈ peers.list, peer.pendingCall? = none) (table : σ) :
    peers.commit table = (.ok (), peers, table) := by
  simp [commit, settleAll_idle idle, List.filterMap_map]

/-- A peer is left with a pending call only if the table refused it. -/
theorem settle_accepted {peer left : Peer} {table : Recorded σ}
    (accepted : ∀ entry ∈ (settle peer table).2.record, entry.2 = .ok ())
    (kept : (settle peer table).1.kept = some left) : left.pendingCall? = none := by
  cases state : peer.state with
  | joining =>
      have noted := table.record_add peer.link.ifname none peer.host
      simp only [settle, state] at accepted kept noted
      split at kept <;> rename_i answered <;> simp only [answered] at accepted noted
      · cases kept
        rfl
      · rw [noted] at accepted
        cases accepted _ List.mem_cons_self
  | leaving =>
      have noted := table.record_remove peer.link.ifname peer.host
      simp only [settle, state] at accepted kept noted
      split at kept <;> rename_i answered <;> simp only [answered] at accepted noted
      · cases kept
      · rw [noted] at accepted
        cases accepted _ List.mem_cons_self
  | active | disabled =>
      simp only [settle, state] at kept
      cases kept
      simp [Peer.pendingCall?, state]

theorem settleAll_accepted {list : List Peer} {table : Recorded σ}
    (accepted : ∀ entry ∈ (settleAll list table).2.record, entry.2 = .ok ()) {settled : Settled}
    (member : settled ∈ (settleAll list table).1) {left : Peer} (kept : settled.kept = some left) :
    left.pendingCall? = none := by
  induction list generalizing table with
  | nil => cases member
  | cons peer rest ih =>
      rcases List.mem_cons.1 member with rfl | behind
      · refine settle_accepted (fun entry noted => accepted entry ?_) kept
        exact (Recorded.record_grows entry).settleAll rest _ noted
      · exact ih accepted behind

end Commits

end Peers

/-! ## Groups -/

theorem Services.exists_of_not_isEmpty {services : Services} (some_left : services.isEmpty = false) :
    ∃ net roster, services.roster? net = some roster := by
  have listed : services.rosters.entries ≠ [] := fun none_left => by
    simp [isEmpty, SortedMap.isEmpty, none_left] at some_left
  obtain ⟨⟨net, roster⟩, member⟩ := List.exists_mem_of_ne_nil _ listed
  exact ⟨net, roster, (services.rosters.mem_entries_iff net roster).1 member⟩

namespace Group

variable {σ : Type} [RoutingTable σ] {group after : Group}

/-- Nothing is to be done for the group. -/
structure Rests (group : Group) : Prop where
  peopled : group.peers.isEmpty = false
  idle : ∀ peer ∈ group.peers.list, peer.pendingCall? = none
  selected : group.peers.select.2 = group.peers
  quiet : ∀ net roster, group.services.roster? net = some roster →
    roster.disabled = true ∨ roster.hasPending = false

theorem Rests.commit (rests : group.Rests) (table : σ) :
    group.commit table = (⟨some group, [], []⟩, table) := by
  have peers : group.settledPeers table = group.peers := by
    rw [settledPeers, Peers.commit_idle rests.idle]
    exact rests.selected
  have swept : group.sweptServices table = (⟨group.services, [], []⟩, table) := by
    rw [sweptServices, Peers.commit_idle rests.idle]
    exact group.services.sweep_still (fun net roster found table =>
      Roster.commit_idle (rests.quiet net roster found) _ _ table) table
  rw [commit_eq, peers, swept]
  simp only [rests.peopled, Bool.false_eq_true, if_false]

theorem commit_extends (group : Group) (seen : Recorded σ) :
    (group.sweptServices seen).2.record <:+ (group.commit seen).2.record := by
  rw [commit_eq]
  simp only
  split
  · exact (Recorded.record_extends _).everywhere.withdrawAll _ (group.sweptServices seen).1.services
      (fun _ _ _ => trivial) (List.suffix_refl _)
  · exact List.suffix_refl _

/-- A destination that a commit leaves rests, if nothing is refused and no error is told. -/
theorem quiet_swept {seen : Recorded σ}
    (accepted : ∀ entry ∈ (group.sweptServices seen).2.record, entry.2 = .ok ())
    (fine : ∀ status ∈ (group.sweptServices seen).1.statuses, status.error = none)
    {net : Prefix} {left : Roster}
    (stands : (group.sweptServices seen).1.services.roster? net = some left) :
    left.disabled = true ∨ left.hasPending = false := by
  obtain ⟨roster, -, found, -⟩ := Services.of_roster?_sweep stands
  obtain ⟨table, settled, reported, turn⟩ := group.services.sweep_turn (fun roster destination =>
    roster.commit destination (group.selectedGateway seen)) (group.peers.commit seen).2.2 found
  have noted := fun entry => (turn _ fun other rival _ _ table =>
    (Recorded.record_grows entry).commit rival ⟨group.services.group, other⟩ _ table).2
  cases roster.commit_ends ⟨group.services.group, net⟩ (group.selectedGateway seen) table with
  | done _ _ _ _ rests => exact rests left (settled.symm.trans stands)
  | refused change ifname cause asked =>
      cases accepted _ (noted _ (asked ▸ List.mem_cons_self))
  | blocked ifname _ _ _ told =>
      obtain ⟨c, -, told⟩ := told
      have error := fine _ (reported _ (told ▸ List.mem_singleton_self _))
      cases error

/-- A commit in which nothing is refused and no error is told leaves the group at rest, if it
leaves the group. -/
theorem rests_commit {seen : Recorded σ}
    (accepted : ∀ entry ∈ (group.commit seen).2.record, entry.2 = .ok ())
    (fine : ∀ status ∈ (group.commit seen).1.statuses, status.error = none)
    (kept : (group.commit seen).1.kept = some after) : after.Rests := by
  have swept : ∀ entry ∈ (group.sweptServices seen).2.record, entry.2 = .ok () :=
    fun entry noted => accepted entry ((group.commit_extends seen).subset noted)
  have peers := (kept_commit kept).1
  have peopled : after.peers.isEmpty = false := by
    by_contra alone
    obtain ⟨some_left, detained⟩ := commit_peerless kept (by simpa using alone)
    obtain ⟨net, roster, stands⟩ := Services.exists_of_not_isEmpty some_left
    obtain ⟨-, c, cause, -, refused⟩ := detained net roster stands
    cases accepted _ (List.mem_of_mem_take refused)
  refine ⟨peopled, fun peer listed => ?_, ?_, fun net roster stands => ?_⟩
  · rw [peers, settledPeers, Peers.list_select] at listed
    obtain ⟨settled, member, left⟩ := List.mem_filterMap.1 listed
    exact Peers.settleAll_accepted
      (fun entry noted => swept entry ((group.sweptServices_extends seen).subset noted)) member left
  · rw [peers, settledPeers, Peers.select_select]
  · rw [peers] at peopled
    rw [commit_of_peopled peopled] at kept
    cases kept
    exact quiet_swept swept ((group.reports_commit seen).1 ▸ fine) stands

end Group

/-! ## The router -/

namespace Router

/-- Nothing is to be done for any group. -/
def Rests (router : Router) : Prop :=
  ∀ id group, router.groups.get? id = some group → group.Rests

section Passes

variable {σ : Type} [RoutingTable σ]

theorem Rests.apply {router : Router} (rests : router.Rests)
    (contested : router.resolve = (0, router)) (table : σ) :
    router.apply table = ({ passes := 1 }, router, table) := by
  have once : router.commitOnce table = (⟨router, [], []⟩, table) :=
    router.walk_still (fun id group found => (rests id group found).commit) table
  simp only [Router.apply, mostPasses, commitPasses, once, contested, if_true]
  rfl

theorem rests_commitOnce {router : Router} {table : Recorded σ}
    (accepted : ∀ entry ∈ (router.commitOnce table).2.record, entry.2 = .ok ())
    (fine : ∀ status ∈ (router.commitOnce table).1.statuses, status.error = none) :
    (router.commitOnce table).1.router.Rests := by
  intro id after stands
  obtain ⟨group, -, found, -⟩ := of_get?_walk stands
  obtain ⟨seen, left, reported, turn⟩ := router.walk_turn Group.commit table found
  refine Group.rests_commit (fun entry noted => accepted entry ?_)
    (fun status told => fine status (reported status told)) (left.symm.trans stands)
  exact (turn _ fun _ rival _ _ table => (Recorded.record_grows entry).commitGroup rival table).2 noted

theorem resolutions_eq (fuel : Nat) (router : Router) (table : σ) :
    resolutions fuel router table = (passStarts fuel (router, table)).map fun start =>
      (start.1.commitOnce start.2).1.router.resolve.1 := by
  induction fuel generalizing router table with
  | zero => rfl
  | succ fuel ih =>
      simp only [resolutions, passStarts, List.map_cons]
      split
      · rfl
      · exact congrArg _ (ih _ _)

/-- The passes over a recorded table are those over the table inside. -/
theorem passStarts_inner (fuel : Nat) (router : Router) (table : Recorded σ) :
    passStarts fuel (router, table.inner) =
      (passStarts fuel (router, table)).map fun start => (start.1, start.2.inner) := by
  induction fuel generalizing router table with
  | zero => rfl
  | succ fuel ih =>
      have same := @RoutingTable.Agree.commitOnce _ _ _ _ _ Recorded.agree router table table.inner rfl
      have next : pass (router, table.inner) =
          ((pass (router, table)).1, (pass (router, table)).2.inner) := by
        simp only [pass, same.answer]
        exact Prod.ext rfl same.left.symm
      simp only [passStarts, List.map_cons, same.answer, next]
      split
      · rfl
      · exact congrArg _ (ih _ _)

end Passes

/-- The last pass over a table in memory admits nothing again. -/
theorem idle_last_pass {router : Router} {table : Recorded MemoryTable}
    {last : Router × Recorded MemoryTable}
    (ends : (passStarts mostPasses (router, table)).getLast? = some last) :
    (last.1.commitOnce last.2).1.router.resolve.1 = 0 := by
  obtain ⟨-, -, final, -⟩ := passes_suffice router table.inner
  rw [resolutions_eq, passStarts_inner, List.getLast?_map, List.getLast?_map, ends] at final
  have same := @RoutingTable.Agree.commitOnce _ _ _ _ _ Recorded.agree last.1 last.2 last.2.inner rfl
  rw [same.answer]
  exact Option.some.inj final

/-- In every state that a run reaches, and over every table in memory, if an apply is not refused
anything and tells of no error, then another one that follows at once asks for no change, takes one
pass, reports nothing and leaves everything as it is. -/
theorem apply_again {σ : Type} [RoutingTable σ] (settings : RouterSettings) (start : σ)
    (ops : List (Operation σ)) (table : MemoryTable) :
    let router := (run ops (Router.fresh settings start)).1
    let applied := router.apply table
    let watched := router.apply (⟨table, []⟩ : Recorded MemoryTable)
    (∀ entry ∈ watched.2.2.record, entry.2 = .ok ()) →
    (∀ status ∈ watched.1.statuses, status.error = none) →
    (watched.1, watched.2.1, watched.2.2.inner) = applied ∧
      watched.2.1.apply watched.2.2 = ({ passes := 1 }, watched.2.1, watched.2.2) ∧
      applied.2.1.apply applied.2.2 = ({ passes := 1 }, applied.2.1, applied.2.2) := by
  intro router
  -- how the router came about does not matter from here on
  clear_value router
  intro applied watched accepted fine
  have same := Recorded.apply_eq router (⟨table, []⟩ : Recorded MemoryTable)
  obtain ⟨last, ends, ended⟩ := apply_last_pass (router, (⟨table, []⟩ : Recorded MemoryTable))
  have begun := List.mem_of_getLast? ends
  have idle := idle_last_pass ends
  have left : watched.2.1 = (last.1.commitOnce last.2).1.router := by
    rw [← resolve_eq_self idle]
    exact congrArg Prod.fst ended
  have rests : watched.2.1.Rests := by
    rw [left]
    refine rests_commitOnce (fun entry noted => ?_)
      fun status told => fine status (statuses_of_mem_passStarts begun told)
    refine accepted entry ?_
    rw [show watched.2 = pass last from ended]
    exact noted
  have contested : watched.2.1.resolve = (0, watched.2.1) := by
    have settled := resolve_of_contested (resolve_contested (last.1.commitOnce last.2).1.router)
    rwa [resolve_eq_self idle, ← left] at settled
  refine ⟨same, rests.apply contested _, ?_⟩
  have router_same : watched.2.1 = applied.2.1 := congrArg (·.2.1) same
  rw [← router_same]
  exact rests.apply contested _

/-- A network passes from one group to the other, which takes two passes; then there is nothing
to do. -/
theorem apply_again_after_two :
    let old := Sample.link "wg1" 0x0A000001#32 1 1
    let new := Sample.link "wg2" 0x0A000101#32 2 2
    let ops : List (Operation MemoryTable) := [.add old [old.host, Sample.lan],
      .add new [new.host, Sample.lan], .apply, .remove old [old.host, Sample.lan]]
    let state := run ops (Router.fresh {} {})
    let applied := state.1.apply state.2
    applied.1.passes = 2 ∧
      applied.2.1.apply applied.2.2 = ({ passes := 1 }, applied.2.1, applied.2.2) := by
  intro old new ops state applied
  have passes : applied.1.passes = 2 := by decide +kernel
  have accepted : ∀ entry ∈ (state.1.apply (⟨state.2, []⟩ : Recorded MemoryTable)).2.2.record,
      entry.2 = .ok () := by decide +kernel
  have fine : ∀ status ∈ (state.1.apply (⟨state.2, []⟩ : Recorded MemoryTable)).1.statuses,
      status.error = none := by decide +kernel
  -- the run is over; what follows must not compute it again
  have reached : run ops (Router.fresh {} {}) = state := rfl
  clear_value state ops
  subst reached
  obtain ⟨-, -, again⟩ := apply_again {} ({} : MemoryTable) ops _ accepted fine
  exact ⟨passes, again⟩

end Router

end OverlayRouting
