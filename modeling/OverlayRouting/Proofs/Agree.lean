/-
# OverlayRouting.Proofs.Agree -- visits that see the same do the same

The turn of a destination depends on the table only through the answers of its own calls.  Two
tables agree about a destination, under a relation that says in what they are alike, if every
call about it has the same answer in both and leaves them alike (`RoutingTable.Agree`); the
tables need not even be of one kind.  Then the turn has the same outcome in both, and leaves
them alike (`Agree.visit`), and tables that agree about every destination go through whole
errands, commits of groups and applies alike (`Agree.carryOut`, `Agree.apply`).

Two tables in memory agree about a destination if they have the same route for it and refuse the
same (`MemoryTable.agree`).  A recorded table agrees with the table inside about everything
(`Recorded.agree`, `Recorded.apply_eq`).
-/
import OverlayRouting.Proofs.Errand
import OverlayRouting.Proofs.Recorded
import OverlayRouting.Proofs.Turn

namespace OverlayRouting

set_option autoImplicit false

/-- The same answer, and tables behind it that are alike. -/
structure Same {α σ τ : Type} (alike : σ → τ → Prop) (one : α × σ) (other : α × τ) : Prop where
  answer : one.1 = other.1
  left : alike one.2 other.2

theorem Same.cases {α σ τ : Type} {alike : σ → τ → Prop} {one : α × σ} {other : α × τ}
    (same : Same alike one other) :
    ∃ answer left behind, one = (answer, left) ∧ other = (answer, behind) ∧ alike left behind :=
  ⟨one.1, one.2, other.2, rfl, Prod.ext same.answer.symm rfl, same.left⟩

/-- Every call about the destination has the same answer in tables that are alike, and leaves
them alike. -/
structure RoutingTable.Agree {σ τ : Type} [RoutingTable σ] [RoutingTable τ] (net : Prefix)
    (alike : σ → τ → Prop) : Prop where
  add : ∀ ifname gateway one other, alike one other →
    Same alike (RoutingTable.add ifname gateway net one) (RoutingTable.add ifname gateway net other)
  remove : ∀ ifname one other, alike one other →
    Same alike (RoutingTable.remove ifname net one) (RoutingTable.remove ifname net other)
  replace : ∀ ifname gateway one other, alike one other →
    Same alike (RoutingTable.replace ifname gateway net one)
      (RoutingTable.replace ifname gateway net other)
  carrier : ∀ one other, alike one other →
    Same alike (RoutingTable.carrier net one) (RoutingTable.carrier net other)

namespace RoutingTable.Agree

/-! ## One destination -/

section Turns

variable {σ τ : Type} [RoutingTable σ] [RoutingTable τ] {alike : σ → τ → Prop}
  {destination : Destination} (agree : Agree destination.net alike) (roster : Roster) {one : σ}
  {other : τ} (here : alike one other)

include agree here

theorem install :
    Same alike (roster.install destination one) (roster.install destination other) := by
  unfold Roster.install
  cases roster.default? with
  | none => exact ⟨rfl, here⟩
  | some first =>
      obtain ⟨carrier, seen, met, asked, again, here⟩ := (agree.carrier one other here).cases
      simp only [asked, again]
      cases carrier with
      | none =>
          obtain ⟨outcome, left, behind, added, again, alike⟩ :=
            (agree.add first.link.ifname none seen met here).cases
          simp only [added, again]
          cases outcome <;> exact ⟨rfl, alike⟩
      | some ifname =>
          simp only
          split <;> exact ⟨rfl, here⟩

theorem withdraw :
    Same alike (roster.withdraw destination one) (roster.withdraw destination other) := by
  unfold Roster.withdraw
  cases roster.installed? with
  | none => exact ⟨rfl, here⟩
  | some c =>
      obtain ⟨outcome, left, behind, asked, again, alike⟩ :=
        (agree.remove c.link.ifname one other here).cases
      simp only [asked, again]
      cases outcome <;> exact ⟨rfl, alike⟩

omit roster in
theorem move (old new : Option Candidate) :
    Same alike (Roster.move destination old new one) (Roster.move destination old new other) := by
  have mapped : ∀ {asked : Outcome × σ} {again : Outcome × τ}, Same alike asked again →
      ∀ change : ActiveChange, Same alike (asked.1.map fun _ => some change, asked.2)
        (again.1.map fun _ => some change, again.2) :=
    fun same change => ⟨congrArg (Except.map fun _ => some change) same.answer, same.left⟩
  cases old with
  | none =>
      cases new with
      | none => exact ⟨rfl, here⟩
      | some new => exact mapped (agree.add _ _ _ _ here) _
  | some old =>
      cases new with
      | none => exact mapped (agree.remove _ _ _ here) _
      | some new =>
          simp only [Roster.move]
          split
          · exact ⟨rfl, here⟩
          · exact mapped (agree.replace _ _ _ _ here) _

theorem commit (selected : Option Address) :
    Same alike (roster.commit destination selected one)
      (roster.commit destination selected other) := by
  unfold Roster.commit
  split
  · exact ⟨rfl, here⟩
  · simp only
    split
    · exact agree.install roster here
    · split
      · exact agree.withdraw roster here
      · obtain ⟨outcome, left, behind, moved, again, alike⟩ :=
          (agree.move here roster.installed? (roster.successor selected)).cases
        simp only [Roster.reconfigure, moved, again]
        cases outcome <;> exact ⟨rfl, alike⟩

theorem reroute (selected : Address) :
    Same alike (roster.reroute destination selected one)
      (roster.reroute destination selected other) := by
  unfold Roster.reroute
  split
  · exact ⟨rfl, here⟩
  · split
    · exact ⟨rfl, here⟩
    · rename_i candidate listed
      obtain ⟨outcome, left, behind, moved, again, alike⟩ :=
        (agree.move here roster.installed? (some candidate)).cases
      simp only [moved, again]
      rcases outcome with cause | (_ | change) <;> exact ⟨rfl, alike⟩

theorem giveUp :
    Same alike (roster.giveUp destination one) (roster.giveUp destination other) := by
  unfold Roster.giveUp
  split
  · exact ⟨rfl, here⟩
  · have same := agree.withdraw roster here
    exact ⟨congrArg (fun settlement => { settlement with changes := [] }) same.answer, same.left⟩

variable (destination) in
theorem visit (errand : Services.Errand) :
    Same alike (errand.visit roster destination one) (errand.visit roster destination other) :=
  match errand with
  | .commit selected => agree.commit roster here selected
  | .reroute none => ⟨rfl, here⟩
  | .reroute (some gateway) => agree.reroute roster here gateway
  | .withdrawAll => agree.giveUp roster here

end Turns

end RoutingTable.Agree

/-! ## All destinations -/

section Walks

variable {σ τ : Type} {alike : σ → τ → Prop}

theorem Entries.traverse_same {κ α β : Type} {visit : κ → α → σ → β × σ}
    {again : κ → α → τ → β × τ}
    (each : ∀ key x one other, alike one other → Same alike (visit key x one) (again key x other))
    (entries : List (κ × α)) {one : σ} {other : τ} (here : alike one other) :
    Same alike (traverse visit entries one) (traverse again entries other) := by
  induction entries generalizing one other with
  | nil => exact ⟨rfl, here⟩
  | cons head rest ih =>
      have first := each head.1 head.2 one other here
      have others := ih first.left
      exact ⟨by simp only [traverse, first.answer, others.answer], others.left⟩

variable [RoutingTable σ] [RoutingTable τ]

theorem RoutingTable.Agree.carryOut (agree : ∀ net, RoutingTable.Agree net alike)
    (services : Services) (errand : Services.Errand) (one : σ) (other : τ)
    (here : alike one other) :
    Same alike (services.carryOut errand one) (services.carryOut errand other) := by
  have walked := Entries.traverse_same
    (fun net roster one other here => (agree net).visit ⟨services.group, net⟩ roster
      here errand) services.rosters.entries here
  have settled : services.settled errand.visit one = services.settled errand.visit other :=
    SortedMap.ext_entries walked.answer
  rw [Services.carryOut_eq, Services.carryOut_eq]
  exact ⟨by rw [Services.sweep_eq, Services.sweep_eq, settled], walked.left⟩

end Walks

/-! ## All groups -/

namespace RoutingTable.Agree

section Groups

variable {σ τ : Type} [RoutingTable σ] [RoutingTable τ] {alike : σ → τ → Prop}
  (agree : ∀ net, Agree net alike)

include agree

theorem settle (peer : Peer) {one : σ} {other : τ} (here : alike one other) :
    Same alike (Peers.settle peer one) (Peers.settle peer other) := by
  unfold Peers.settle
  cases peer.state with
  | joining =>
      obtain ⟨outcome, left, behind, asked, again, alike⟩ :=
        ((agree peer.host).add peer.link.ifname none one other here).cases
      simp only [asked, again]
      cases outcome <;> exact ⟨rfl, alike⟩
  | leaving =>
      obtain ⟨outcome, left, behind, asked, again, alike⟩ :=
        ((agree peer.host).remove peer.link.ifname one other here).cases
      simp only [asked, again]
      cases outcome <;> exact ⟨rfl, alike⟩
  | active | disabled => exact ⟨rfl, here⟩

theorem settleAll (list : List Peer) {one : σ} {other : τ} (here : alike one other) :
    Same alike (Peers.settleAll list one) (Peers.settleAll list other) := by
  induction list generalizing one other with
  | nil => exact ⟨rfl, here⟩
  | cons peer rest ih =>
      have first := settle agree peer here
      have others := ih first.left
      exact ⟨by simp only [Peers.settleAll, first.answer, others.answer], others.left⟩

theorem commitGroup (group : Group) {one : σ} {other : τ} (here : alike one other) :
    Same alike (group.commit one) (group.commit other) := by
  have listed := settleAll agree group.peers.list here
  have peers : (group.peers.commit one).2.1 = (group.peers.commit other).2.1 := by
    simp only [Peers.commit, listed.answer]
  have settled : group.settledPeers one = group.settledPeers other := by
    rw [Group.settledPeers, Group.settledPeers, peers]
  have selected : group.selectedGateway one = group.selectedGateway other := by
    rw [Group.selectedGateway, Group.selectedGateway, peers]
  have swept : Same alike (group.sweptServices one) (group.sweptServices other) := by
    rw [Group.sweptServices, Group.sweptServices, selected]
    exact carryOut agree group.services (.commit _) _ _ listed.left
  have withdrawn := carryOut agree (group.sweptServices other).1.services .withdrawAll _ _ swept.left
  rw [Group.commit_eq, Group.commit_eq, settled]
  simp only [swept.answer]
  split
  · have left := congrArg Services.Swept.services withdrawn.answer
    simp only [Services.carryOut] at left
    exact ⟨by simp only [left], withdrawn.left⟩
  · exact ⟨rfl, swept.left⟩

theorem commitOnce (router : Router) {one : σ} {other : τ} (here : alike one other) :
    Same alike (router.commitOnce one) (router.commitOnce other) := by
  have walked := Entries.traverse_same (fun _ group one other => commitGroup agree group)
    router.groups.entries here
  have settled : (router.groups.traverse (fun _ group table => Group.commit group table) one).1 =
      (router.groups.traverse (fun _ group table => Group.commit group table) other).1 :=
    SortedMap.ext_entries walked.answer
  exact ⟨by simp only [Router.commitOnce, Router.walk, settled], walked.left⟩

theorem apply (router : Router) {one : σ} {other : τ} (here : alike one other) :
    (router.apply one).1 = (router.apply other).1 ∧
      (router.apply one).2.1 = (router.apply other).2.1 ∧
      alike (router.apply one).2.2 (router.apply other).2.2 := by
  unfold Router.apply
  generalize Router.mostPasses = fuel, ({} : Router.Report) = report
  induction fuel generalizing report router one other with
  | zero => exact ⟨rfl, rfl, here⟩
  | succ fuel ih =>
      have once := commitOnce agree router here
      simp only [Router.commitPasses, once.answer]
      split
      · exact ⟨rfl, rfl, once.left⟩
      · exact ih _ once.left _

end Groups

end RoutingTable.Agree

/-! ## Tables in memory -/

namespace MemoryTable

/-- Two tables have the same route for a destination and refuse the same. -/
structure Alike (net : Prefix) (one other : MemoryTable) : Prop where
  route : one.routes.get? net = other.routes.get? net
  failing : one.failing = other.failing

/-- What becomes of the route of a destination depends on that route alone. -/
theorem changed_congr {call : Call} {routes others : SortedMap Prefix Route}
    (gateway : Option Address)
    (same : routes.get? call.destination = others.get? call.destination) :
    (∃ reason, changed routes call gateway = .error reason ∧
      changed others call gateway = .error reason) ∨
    ∃ made left, changed routes call gateway = .ok made ∧ changed others call gateway = .ok left ∧
      made.get? call.destination = left.get? call.destination := by
  have inserted : (routes.insert call.destination ⟨call.ifname, gateway⟩).get? call.destination =
      (others.insert call.destination ⟨call.ifname, gateway⟩).get? call.destination := by
    rw [SortedMap.get?_insert_self, SortedMap.get?_insert_self]
  have erased : (routes.erase call.destination).get? call.destination =
      (others.erase call.destination).get? call.destination := by
    rw [SortedMap.get?_erase, SortedMap.get?_erase, if_pos rfl, if_pos rfl]
  unfold changed
  cases call.change with
  | add =>
      simp only [same]
      cases found : others.get? call.destination with
      | none => exact .inr ⟨_, _, rfl, rfl, inserted⟩
      | some route =>
          by_cases own : route.ifname = call.ifname
          · simp only [if_pos own]
            exact .inr ⟨_, _, rfl, rfl, same⟩
          · simp only [if_neg own]
            exact .inl ⟨_, rfl, rfl⟩
  | remove =>
      simp only [same]
      cases found : others.get? call.destination with
      | none => exact .inr ⟨_, _, rfl, rfl, same⟩
      | some route =>
          by_cases own : route.ifname = call.ifname
          · simp only [if_pos own]
            exact .inr ⟨_, _, rfl, rfl, erased⟩
          · simp only [if_neg own]
            exact .inr ⟨_, _, rfl, rfl, same⟩
  | replace => exact .inr ⟨_, _, rfl, rfl, inserted⟩

theorem Alike.perform (call : Call) (gateway : Option Address) {one other : MemoryTable}
    (alike : Alike call.destination one other) :
    Same (Alike call.destination) (perform call gateway one) (perform call gateway other) := by
  obtain ⟨route, failing⟩ := alike
  unfold MemoryTable.perform
  simp only [failing]
  split
  · exact ⟨rfl, route, rfl⟩
  · rcases changed_congr gateway route with
      ⟨reason, refused, again⟩ | ⟨made, left, done, again, same⟩
    · simp only [refused, again]
      exact ⟨rfl, route, rfl⟩
    · simp only [done, again]
      exact ⟨rfl, same, rfl⟩

theorem agree (net : Prefix) : RoutingTable.Agree net (Alike net) where
  add ifname gateway _ _ alike := Alike.perform ⟨.add, ifname, net⟩ gateway alike
  remove ifname _ _ alike := Alike.perform ⟨.remove, ifname, net⟩ none alike
  replace ifname gateway _ _ alike := Alike.perform ⟨.replace, ifname, net⟩ gateway alike
  carrier _ _ alike := ⟨congrArg (Option.map Route.ifname) alike.route, alike⟩

/-- A call about another destination leaves a table like the one before it. -/
theorem Alike.perform_elsewhere {call : Call} {net : Prefix} (differs : call.destination ≠ net)
    (gateway : Option Address) {first table : MemoryTable} (alike : Alike net first table) :
    Alike net first (MemoryTable.perform call gateway table).2 where
  route := alike.route.trans (get?_perform_of_ne differs gateway table).symm
  failing := alike.failing.trans (perform_failing call gateway table).symm

theorem alike_kept (net : Prefix) (first : MemoryTable) :
    RoutingTable.KeepsWithin (· ≠ net) (Alike net first) where
  add _ gateway _ _ differs alike := alike.perform_elsewhere differs gateway
  remove _ _ _ differs alike := alike.perform_elsewhere differs none
  replace _ gateway _ _ differs alike := alike.perform_elsewhere differs gateway
  carrier _ _ _ alike := alike

end MemoryTable

/-! ## Recorded tables -/

theorem Recorded.agree {σ : Type} [RoutingTable σ] (net : Prefix) :
    RoutingTable.Agree net fun (recorded : Recorded σ) (plain : σ) => recorded.inner = plain where
  add _ _ _ _ same := by subst same; exact ⟨rfl, rfl⟩
  remove _ _ _ same := by subst same; exact ⟨rfl, rfl⟩
  replace _ _ _ _ same := by subst same; exact ⟨rfl, rfl⟩
  carrier _ _ same := by subst same; exact ⟨rfl, rfl⟩

/-- Writing down what is asked changes nothing of an apply. -/
theorem Recorded.apply_eq {σ : Type} [RoutingTable σ] (router : Router) (table : Recorded σ) :
    ((router.apply table).1, (router.apply table).2.1, (router.apply table).2.2.inner) =
      router.apply table.inner := by
  obtain ⟨report, left, inner⟩ :=
    @RoutingTable.Agree.apply _ _ _ _ _ Recorded.agree router table table.inner rfl
  exact Prod.ext report (Prod.ext left inner)

end OverlayRouting
