/-
# OverlayRouting.Proofs.Closing -- what a close leaves in the table

A close that cleans up withdraws what the router believes to be installed, one group after the
other, in each its destinations before its peers.  It is one walk down a list of holdings
(`Router.close_eq`), and it does not look at the answers.

A withdrawal takes a route away only if it names the interface of it.  The router knows the
interface of every route, whatever was refused before (`owned_run`).  So each route that a
close leaves is one whose withdrawal was refused (`refused_of_left`), and nothing is left if
none was (`nothing_left`).
-/
import OverlayRouting.Proofs.Installed
import OverlayRouting.Proofs.Recorded

namespace OverlayRouting

set_option autoImplicit false

open RoutingTable (Lawful)

/-! ## Withdrawing a list of routes -/

section Withdrawals

variable {σ : Type} [RoutingTable σ]

/-- Withdraw routes one after the other, whatever the table says to it. -/
def withdrawEach (list : List Holding) (table : σ) : σ :=
  list.foldl (fun table holding => (RoutingTable.remove holding.ifname holding.net table).2) table

theorem withdrawEach_cons (holding : Holding) (rest : List Holding) (table : σ) :
    withdrawEach (holding :: rest) table =
      withdrawEach rest (RoutingTable.remove holding.ifname holding.net table).2 := rfl

theorem withdrawEach_append (first second : List Holding) (table : σ) :
    withdrawEach (first ++ second) table = withdrawEach second (withdrawEach first table) :=
  List.foldl_append

theorem withdrawEach_flatMap {α : Type} (held : α → List Holding) (list : List α) (table : σ) :
    withdrawEach (list.flatMap held) table =
      list.foldl (fun table x => withdrawEach (held x) table) table :=
  List.foldl_flatMap

theorem RoutingTable.KeepsWithin.withdrawEach {scope : Prefix → Prop} {holds : σ → Prop}
    (keeps : KeepsWithin scope holds) (list : List Holding)
    (inside : ∀ holding ∈ list, scope holding.net) (table : σ) (before : holds table) :
    holds (withdrawEach list table) :=
  List.foldlRecOn list _ before fun table holds holding member =>
    keeps.remove holding.ifname holding.net table (inside holding member) holds

theorem RoutingTable.Keeps.withdrawEach {holds : σ → Prop} (keeps : Keeps holds)
    (list : List Holding) (table : σ) (before : holds table) :
    holds (withdrawEach list table) :=
  keeps.everywhere.withdrawEach list (fun _ _ => trivial) table before

/-- A recording table hands every withdrawal on. -/
theorem inner_withdrawEach (list : List Holding) (table : Recorded σ) :
    (withdrawEach list table).inner = withdrawEach list table.inner := by
  induction list generalizing table with
  | nil => rfl
  | cons holding rest ih => exact ih _

/-- A route that is left was there before; if its withdrawal was asked for, it was refused. -/
theorem left_of_withdrawEach [Lawful σ] (list : List Holding) (table : Recorded σ) {net : Prefix}
    {ifname : String} (left : Lawful.routes (withdrawEach list table) net = some ifname) :
    Lawful.routes table net = some ifname ∧
      ∀ holding ∈ list, holding.net = net → holding.ifname = ifname →
        ∃ cause, (⟨.remove, ifname, net⟩, .error cause) ∈ (withdrawEach list table).record := by
  induction list generalizing table with
  | nil => exact ⟨left, nofun⟩
  | cons first rest ih =>
      rw [withdrawEach_cons] at left ⊢
      obtain ⟨still, others⟩ := ih _ left
      rcases Lawful.remove_spec first.ifname first.net table with
        ⟨cause, refused, unchanged⟩ | ⟨-, changed⟩
      · refine ⟨by rw [← unchanged, still], fun holding member here own => ?_⟩
        rcases List.mem_cons.1 member with rfl | behind
        · refine ⟨cause, (Recorded.record_grows _).withdrawEach rest _ ?_⟩
          rw [← here, ← own, ← refused]
          exact List.mem_cons_self
        · exact others holding behind here own
      · -- an accepted withdrawal took its own route, so the one that is left is another
        have another : Lawful.routes table net = some ifname ∧
            ¬ (first.net = net ∧ first.ifname = ifname) := by
          rw [changed] at still
          split at still
          · rename_i carried
            by_cases here : net = first.net
            · rw [here, Function.update_self] at still
              cases still
            · rw [Function.update_of_ne here] at still
              exact ⟨still, fun same => here same.1.symm⟩
          · rename_i not_carried
            exact ⟨still, fun same => not_carried (by rw [same.1, same.2, still])⟩
        refine ⟨another.1, fun holding member here own => ?_⟩
        rcases List.mem_cons.1 member with rfl | behind
        · exact absurd ⟨here, own⟩ another.2
        · exact others holding behind here own

end Withdrawals

/-! ## A close is a list of withdrawals -/

section Close

variable {σ : Type} [RoutingTable σ]

theorem Roster.table_giveUp (roster : Roster) (destination : Destination) (table : σ) :
    (roster.giveUp destination table).2 = withdrawEach (roster.holdings destination.net) table := by
  unfold giveUp holdings
  split
  · rfl
  · unfold withdraw
    cases roster.installed? with
    | none => rfl
    | some c =>
        simp only
        split <;> rename_i asked <;> exact (congrArg Prod.snd asked).symm

theorem Entries.table_giveUp (group : GroupId) (entries : List (Prefix × Roster)) (table : σ) :
    (traverse (fun net roster table => Roster.giveUp roster ⟨group, net⟩ table) entries table).2 =
      withdrawEach (entries.flatMap fun entry => entry.2.holdings entry.1) table := by
  induction entries generalizing table with
  | nil => rfl
  | cons head rest ih =>
      rw [List.flatMap_cons, withdrawEach_append, ← head.2.table_giveUp ⟨group, head.1⟩]
      exact ih _

theorem Services.table_close (services : Services) (table : σ) :
    (services.close table).2 = withdrawEach services.holdings table :=
  Entries.table_giveUp services.group services.rosters.entries table

theorem Peers.table_close (peers : Peers) (table : σ) :
    (peers.close table).2 = withdrawEach peers.holdings table := by
  rw [Peers.close, Peers.holdings, withdrawEach_flatMap, List.foldl_filter]
  refine congrArg (fun visit => peers.list.foldl visit table) ?_
  funext table peer
  unfold Peer.holdings
  split <;> rfl

/-- What a group withdraws when it closes, in order. -/
def Group.closing (group : Group) : List Holding := group.services.holdings ++ group.peers.holdings

theorem Group.close_eq (group : Group) (table : σ) :
    group.close table = withdrawEach group.closing table := by
  rw [close, Peers.table_close, Services.table_close, closing, withdrawEach_append]

namespace Router

/-- What the router withdraws when it closes, in order. -/
def closing (router : Router) : List Holding :=
  router.groups.entries.flatMap fun entry => entry.2.closing

theorem mem_closing_iff (router : Router) (holding : Holding) :
    holding ∈ router.closing ↔ holding ∈ router.holdings := by
  simp only [closing, holdings, Group.closing, Group.holdings, List.mem_flatMap, List.mem_append,
    or_comm]

theorem close_eq (router : Router) (table : σ) :
    router.close table =
      (router.flush,
        if router.settings.cleanupOnExit then withdrawEach router.closing table else table) := by
  unfold close
  split
  · rw [closing, withdrawEach_flatMap]
    simp only [Group.close_eq]
  · rfl

/-- A close forgets all groups, whether it cleans up or not. -/
theorem groups_close (router : Router) (table : σ) : (router.close table).1.groups = ∅ := by
  rw [close_eq]
  rfl

/-- A route that a close leaves, although the router held it, is one whose withdrawal was
refused. -/
theorem refused_of_left [Lawful σ] {router : Router} {table : σ}
    (cleans : router.settings.cleanupOnExit = true) (owned : (router.ledger table).Owned)
    {net : Prefix} {ifname : String}
    (left : Lawful.routes (router.close table).2 net = some ifname) :
    ∃ cause, (⟨.remove, ifname, net⟩, .error cause) ∈
      (router.close (⟨table, []⟩ : Recorded σ)).2.record := by
  rw [close_eq, cleans] at left ⊢
  simp only [if_true] at left ⊢
  rw [show table = (⟨table, []⟩ : Recorded σ).inner from rfl, ← inner_withdrawEach] at left
  obtain ⟨stood, refused⟩ := left_of_withdrawEach router.closing _ left
  obtain ⟨holding, member, here, own⟩ := owned net ifname stood
  exact refused holding ((router.mem_closing_iff holding).2 member) here own

end Router

end Close

/-! ## Runs over a table in memory -/

section Runs

variable (settings : RouterSettings) (ops : List (Operation (Unreliable MemoryTable)))

/-- After a run that starts with nothing installed, every route has an entry that holds it. -/
theorem owned_run (careful : ∀ op ∈ ops, op.Careful) :
    let state := run ops (Router.fresh settings Unreliable.empty)
    (state.1.ledger state.2).Owned := by
  intro state
  have sound : (Router.fresh settings Unreliable.empty).1.Sound := Router.sound_fresh settings
  refine (run_leads careful sound).owned fun other carrier routed => ?_
  cases routed

/-- A close that cleans up leaves neither groups nor routes if no call of it is refused,
whatever was refused before. -/
theorem nothing_left (cleans : settings.cleanupOnExit = true) (careful : ∀ op ∈ ops, op.Careful)
    (accepted :
      let state := run ops (Router.fresh settings Unreliable.empty)
      ∀ entry ∈ (state.1.close (⟨state.2, []⟩ : Recorded (Unreliable MemoryTable))).2.record,
        entry.2 = .ok ()) :
    let state := run ops (Router.fresh settings Unreliable.empty)
    (state.1.close state.2).1.groups = ∅ ∧ (state.1.close state.2).2.inner.routes = ∅ := by
  intro state
  have cleans_still : state.1.settings.cleanupOnExit = true := by
    have same := settings_run ops (Router.fresh settings Unreliable.empty) settings.margins
    exact (congrArg RouterSettings.cleanupOnExit same).trans cleans
  refine ⟨state.1.groups_close state.2, SortedMap.ext fun net => ?_⟩
  by_contra routed
  obtain ⟨ifname, left⟩ : ∃ ifname, (state.1.close state.2).2.inner.via? net = some ifname :=
    Option.ne_none_iff_exists'.1 (mt (MemoryTable.via?_eq_none_iff _ net).1 routed)
  obtain ⟨cause, listed⟩ :=
    Router.refused_of_left cleans_still (owned_run settings ops careful) left
  cases accepted _ listed

/-- A route whose withdrawal was refused is still installed, and goes with the close. -/
theorem nothing_left_after_refusal :
    let peer := Sample.link "wg1" 0x0A000001#32 1 1
    let ops : List (Operation (Unreliable MemoryTable)) :=
      [.add peer [peer.host, Sample.lan], .outside (·.failNext peer.host 1), .apply, .apply,
        .remove peer [peer.host, Sample.lan], .outside (·.failNext Sample.lan 2), .apply]
    let settings : RouterSettings := { cleanupOnExit := true }
    let state := run ops (Router.fresh settings Unreliable.empty)
    Lawful.routes state.2 Sample.lan = some "wg1" ∧
      (state.1.close state.2).1.groups = ∅ ∧ (state.1.close state.2).2.inner.routes = ∅ := by
  intro peer ops settings
  have careful : ∀ op ∈ ops, op.Careful := by
    simp only [ops, List.forall_mem_cons, Operation.Careful, true_and]
    exact ⟨fun _ => rfl, fun _ => rfl, List.forall_mem_nil _⟩
  exact ⟨by decide +kernel, nothing_left settings ops rfl careful (by decide +kernel)⟩

end Runs

end OverlayRouting
