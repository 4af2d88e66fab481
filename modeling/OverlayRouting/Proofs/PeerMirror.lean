/-
# OverlayRouting.Proofs.PeerMirror -- the peers of a group that have a table for themselves

If nobody else uses the table, the peers of a group mirror it: the address of a peer is routed
through its interface while the peer is active or leaves, and nothing else is routed
(`Peers.mirrored_peers`).  Peers come, go, and come again in any order, and the table may
refuse what it likes.

The peers have different addresses, so each of them writes its own route: what `settle` does
to the table is told by what is left of the peer (`Peers.routes_settle`), and a commit leaves
the routes of the peers that it leaves (`Peers.routes_settleAll`).

What a commit asks the table for is known beforehand, a call for each peer that joins or
leaves and none for the others (`Peers.settleAll_asks`).
-/
import OverlayRouting.Proofs.Mirror
import OverlayRouting.Proofs.PeerRun

namespace OverlayRouting

set_option autoImplicit false

open RoutingTable (Lawful)

/-! ## What a commit asks for -/

/-- Make the change, to a route without a gateway. -/
def Call.make {σ : Type} [RoutingTable σ] (call : Call) : σ → Outcome × σ :=
  match call.change with
  | .add => RoutingTable.add call.ifname none call.destination
  | .remove => RoutingTable.remove call.ifname call.destination
  | .replace => RoutingTable.replace call.ifname none call.destination

def Outcome.cause? : Outcome → Option Error
  | .ok _ => none
  | .error cause => some cause

theorem Outcome.cause?_eq_some_iff (outcome : Outcome) (cause : Error) :
    Outcome.cause? outcome = some cause ↔ outcome = .error cause := by
  cases outcome <;> simp [cause?]

/-- The call that would bring the table into line with the peer. -/
def Peer.pendingCall? (peer : Peer) : Option Call :=
  match peer.state with
  | .joining => some ⟨.add, peer.link.ifname, peer.host⟩
  | .leaving => some ⟨.remove, peer.link.ifname, peer.host⟩
  | .active | .disabled => none

namespace Peers

section Calls

variable {σ : Type} [RoutingTable σ]

theorem settle_idle {peer : Peer} (idle : peer.pendingCall? = none) (table : σ) :
    settle peer table = (⟨some peer, none⟩, table) := by
  cases state : peer.state with
  | joining | leaving => simp [Peer.pendingCall?, state] at idle
  | active | disabled => simp [settle, state]

theorem settle_asks {peer : Peer} {call : Call} (pending : peer.pendingCall? = some call)
    (table : σ) : (settle peer table).2 = (call.make table).2 ∧
      (settle peer table).1.failure = Outcome.cause? (call.make table).1 := by
  cases state : peer.state with
  | joining | leaving =>
      simp only [Peer.pendingCall?, state, Option.some.injEq] at pending
      simp only [settle, state, Call.make, ← pending]
      split <;> rename_i answer <;> simp [answer, Outcome.cause?]
  | active | disabled => simp [Peer.pendingCall?, state] at pending

/-- A commit makes the pending calls in the order of the peers, and no others. -/
theorem settleAll_asks (list : List Peer) (table : σ) :
    let asked := visitAll Call.make (list.filterMap Peer.pendingCall?) table
    (settleAll list table).2 = asked.2 ∧
      (settleAll list table).1.filterMap Settled.failure = asked.1.filterMap Outcome.cause? := by
  induction list generalizing table with
  | nil => exact ⟨rfl, rfl⟩
  | cons peer rest ih =>
      cases pending : peer.pendingCall? with
      | none =>
          simp only [settleAll, settle_idle pending, List.filterMap_cons, pending]
          exact ih table
      | some call =>
          obtain ⟨left, cause⟩ := settle_asks pending table
          obtain ⟨left_behind, causes⟩ := ih (call.make table).2
          simp only [settleAll, List.filterMap_cons, pending, visitAll, left, cause, left_behind,
            causes, true_and]

/-- A commit fails exactly if one of its calls does. -/
theorem commit_fails_iff (peers : Peers) (table : σ) :
    (∃ cause, (peers.commit table).1 = .error cause) ↔
      ∃ answer ∈ (visitAll Call.make (peers.list.filterMap Peer.pendingCall?) table).1,
        ∃ cause, answer = .error cause := by
  obtain ⟨-, causes⟩ := settleAll_asks peers.list table
  simp only [commit, causes]
  cases last : ((visitAll Call.make (peers.list.filterMap Peer.pendingCall?) table).1.filterMap
      Outcome.cause?).getLast? with
  | none =>
      have none_failed := List.filterMap_eq_nil_iff.1 (List.getLast?_eq_none_iff.1 last)
      constructor
      · rintro ⟨cause, done⟩
        cases done
      · rintro ⟨answer, member, cause, rfl⟩
        cases none_failed _ member
  | some cause =>
      obtain ⟨answer, member, failed⟩ := List.mem_filterMap.1 (List.mem_of_getLast? last)
      exact iff_of_true ⟨cause, rfl⟩
        ⟨answer, member, cause, (Outcome.cause?_eq_some_iff answer cause).1 failed⟩

end Calls

end Peers

/-! ## The routes of the peers -/

/-- The interface through which the peer's address is routed, as far as the peer knows. -/
def Peer.carrier? (peer : Peer) : Option String :=
  if peer.isInstalled then some peer.link.ifname else none

theorem Peer.single_holdings (peer : Peer) : Single peer.host peer.carrier? peer.holdings := by
  unfold carrier? holdings
  split
  · exact .some peer.link.ifname _
  · exact .none

namespace Peers

section Commit

variable {σ : Type} [RoutingTable σ] [Lawful σ]

/-- What becomes of a peer that knows its route is written to the table. -/
theorem routes_settle {peer : Peer} {table : σ}
    (known : Lawful.routes table peer.host = peer.carrier?) :
    Lawful.routes (settle peer table).2 =
      Function.update (Lawful.routes table) peer.host
        ((settle peer table).1.kept.bind Peer.carrier?) := by
  refine (settle_step peer table).routes_eq peer.single_holdings ?_ known
  unfold Settled.holdings
  cases kept : (settle peer table).1.kept with
  | none => exact .none
  | some left =>
      have same : left.host = peer.host := congrArg Link.host (claims_settle kept).2
      rw [Option.toList_some, List.flatMap_singleton, Option.bind_some, ← same]
      exact left.single_holdings

/-- A commit of peers that know their routes leaves the routes of the peers that it leaves, and
those that are nobody's. -/
theorem routes_settleAll {list : List Peer} (distinct : (list.map Peer.host).Nodup) {table : σ}
    (known : ∀ peer ∈ list, Lawful.routes table peer.host = peer.carrier?) (net : Prefix)
    (ifname : String) :
    Lawful.routes (settleAll list table).2 net = some ifname ↔
      (∃ left ∈ (settleAll list table).1.filterMap Settled.kept,
        left.host = net ∧ left.carrier? = some ifname) ∨
      (Lawful.routes table net = some ifname ∧ ∀ peer ∈ list, peer.host ≠ net) := by
  induction list generalizing table with
  | nil => simp [settleAll]
  | cons peer rest ih =>
      rw [List.map_cons, List.nodup_cons] at distinct
      obtain ⟨fresh, distinct_behind⟩ := distinct
      have others : ∀ other ∈ rest, other.host ≠ peer.host := fun other member same =>
        fresh (List.mem_map.2 ⟨other, member, same⟩)
      have here := routes_settle (known peer List.mem_cons_self)
      have known_still : ∀ other ∈ rest,
          Lawful.routes (settle peer table).2 other.host = other.carrier? := by
        intro other member
        rw [here, Function.update_of_ne (others other member),
          known other (List.mem_cons_of_mem _ member)]
      have behind := ih distinct_behind known_still
      have stays : ∀ left, (settle peer table).1.kept = some left → left.host = peer.host :=
        fun left kept => congrArg Link.host (claims_settle kept).2
      simp only [settleAll, List.forall_mem_cons]
      rw [behind, here]
      by_cases own : net = peer.host
      · subst own
        rw [Function.update_self, and_iff_left others]
        cases kept : (settle peer table).1.kept with
        | none => simp [kept]
        | some left => simp [kept, stays left kept, or_comm]
      · rw [Function.update_of_ne own]
        cases kept : (settle peer table).1.kept with
        | none => simp [kept, Ne.symm own]
        | some left => simp [kept, stays left kept, Ne.symm own]

end Commit

/-- The routes are those of the installed peers. -/
def Mirrors (peers : Peers) (routes : Prefix → Option String) : Prop :=
  ∀ net ifname, routes net = some ifname ↔
    ∃ peer ∈ peers.list, peer.host = net ∧ peer.carrier? = some ifname

theorem exists_carrier_iff (peers : Peers) (net : Prefix) (ifname : String) :
    (∃ peer ∈ peers.list, peer.host = net ∧ peer.carrier? = some ifname) ↔
      ∃ holding ∈ peers.holdings, holding.net = net ∧ holding.ifname = ifname := by
  constructor
  · rintro ⟨peer, member, here, carried⟩
    obtain ⟨installed, same⟩ := Option.ite_none_right_eq_some.1 carried
    exact ⟨_, List.mem_flatMap.2 ⟨peer, member, (peer.mem_holdings_iff _).2 ⟨installed, rfl⟩⟩, here,
      Option.some.inj same⟩
  · rintro ⟨holding, held, here, same⟩
    obtain ⟨peer, member, holds⟩ := List.mem_flatMap.1 held
    obtain ⟨installed, rfl⟩ := (peer.mem_holdings_iff holding).1 holds
    exact ⟨peer, member, here, by rw [Peer.carrier?, if_pos installed, ← same]⟩

/-- What is only written down moves no route. -/
theorem Mirrors.relax {peers after : Peers} {routes : Prefix → Option String}
    (mirrors : peers.Mirrors routes) (relaxed : Relaxed peers.holdings after.holdings) :
    after.Mirrors routes := by
  intro net ifname
  rw [mirrors net ifname, exists_carrier_iff, exists_carrier_iff]
  constructor
  · rintro ⟨before, member, here, same⟩
    obtain ⟨left, listed, also, carrier, -⟩ := relaxed.exists_after member
    exact ⟨left, listed, also.trans here, carrier.trans same⟩
  · rintro ⟨left, listed, here, same⟩
    obtain ⟨before, member, also, carrier, -⟩ := relaxed.exists_before listed
    exact ⟨before, member, also.symm.trans here, carrier.symm.trans same⟩

theorem Sound.nodup_hosts {peers : Peers} (sound : peers.Sound) :
    (peers.list.map Peer.host).Nodup := by
  have hosts : peers.list.map Peer.host = (peers.list.map Peer.gateway).map Prefix.host := by
    rw [List.map_map]
    rfl
  rw [hosts]
  exact sound.map fun _ _ same => Prefix.host_inj same

section Runs

variable {σ : Type} [RoutingTable σ] [Lawful σ]

theorem Mirrors.commit {peers : Peers} {table : σ} (mirrors : peers.Mirrors (Lawful.routes table))
    (sound : peers.Sound) :
    (peers.commit table).2.1.Mirrors (Lawful.routes (peers.commit table).2.2) := by
  have known : ∀ peer ∈ peers.list, Lawful.routes table peer.host = peer.carrier? := by
    intro peer member
    refine Option.ext fun ifname => (mirrors peer.host ifname).trans ⟨?_, fun carried =>
      ⟨peer, member, rfl, carried⟩⟩
    rintro ⟨other, also, same, carried⟩
    rwa [← sound.eq_of_gateway member also (Prefix.host_inj same)]
  intro net ifname
  refine (routes_settleAll sound.nodup_hosts known net ifname).trans (or_iff_left ?_)
  rintro ⟨routed, nobody⟩
  obtain ⟨peer, member, here, -⟩ := (mirrors net ifname).1 routed
  exact nobody peer member here

namespace Operation

/-- The operation forgets no installed route, and only the peers change the routes. -/
def Careful : Operation σ → Prop
  | .flush | .close => False
  | .outside change => ∀ table, Lawful.routes (change table) = Lawful.routes table
  | _ => True

theorem mirrors_step {op : Operation σ} (careful : op.Careful) {state : Peers × σ}
    (sound : state.1.Sound) (mirrors : state.1.Mirrors (Lawful.routes state.2)) :
    (op.step state).1.Mirrors (Lawful.routes (op.step state).2) := by
  obtain ⟨peers, table⟩ := state
  cases op with
  | add link disabled => exact mirrors.relax (peers.relaxed_add link disabled)
  | remove gateway => exact mirrors.relax (peers.relaxed_remove gateway)
  | enable net => exact mirrors.relax (peers.relaxed_enable net)
  | commit => exact mirrors.commit sound
  | ping tallies => exact mirrors.relax (.of_eq (peers.holdings_ping tallies).symm)
  | setMargins margins => exact mirrors
  | select => exact mirrors.relax (.of_eq peers.holdings_select.symm)
  | flush | close => exact careful.elim
  | outside change =>
      simp only [step]
      rw [careful table]
      exact mirrors

end Operation

theorem mirrors_run {ops : List (Operation σ)} (careful : ∀ op ∈ ops, op.Careful)
    {start : Peers × σ} (sound : start.1.Sound) (mirrors : start.1.Mirrors (Lawful.routes start.2)) :
    (run ops start).1.Mirrors (Lawful.routes (run ops start).2) := by
  have kept := run_induction
    (motive := fun state => state.1.Sound ∧ state.1.Mirrors (Lawful.routes state.2)) ops
    ⟨sound, mirrors⟩ fun op member state before =>
      ⟨op.sound_step before.1, op.mirrors_step (careful op member) before.1 before.2⟩
  exact kept.2

end Runs

/-- At the end of a run the gateways are distinct, and the table routes an address through an
interface exactly if these are the address and the interface of a peer that is active or leaves.
A commit that follows makes a call for each peer that joins or leaves and no others, whatever
table it is made to, also to one that writes down all it is asked; and it fails exactly if one
of its calls does. -/
theorem mirrored_peers (group : GroupId) (windowSize : Nat) (margins : Margins)
    (ops : List (Operation (Unreliable MemoryTable))) (careful : ∀ op ∈ ops, op.Careful) :
    let state := run ops ({ group, windowSize, margins }, Unreliable.empty)
    (state.1.list.map Peer.gateway).Nodup ∧
    (∀ net ifname, Lawful.routes state.2 net = some ifname ↔
      ∃ peer ∈ state.1.list, (peer.state = .active ∨ peer.state = .leaving) ∧
        peer.host = net ∧ peer.link.ifname = ifname) ∧
    ∀ {τ : Type} [RoutingTable τ] (table : τ),
      let asked := visitAll Call.make (state.1.list.filterMap Peer.pendingCall?) table
      (state.1.commit table).2.2 = asked.2 ∧
      ((∃ cause, (state.1.commit table).1 = .error cause) ↔
        ∃ answer ∈ asked.1, ∃ cause, answer = .error cause) := by
  intro state
  have none_yet : Sound { group, windowSize, margins } := List.nodup_nil
  have sound : state.1.Sound := run_sound none_yet ops
  have mirrors : state.1.Mirrors (Lawful.routes state.2) :=
    mirrors_run careful none_yet fun net ifname => iff_of_false nofun nofun
  refine ⟨sound, fun net ifname => ?_, fun table => ?_⟩
  · rw [mirrors net ifname]
    refine exists_congr fun peer => and_congr_right fun _ => ?_
    simp [Peer.carrier?, Peer.isInstalled, and_left_comm]
  · exact ⟨(settleAll_asks state.1.list table).1, state.1.commit_fails_iff table⟩

/-- A peer whose route was refused at first and cannot be withdrawn afterwards, one that came
again after it went, and one that is still to come. -/
theorem mirrored_with_refusals :
    let first := Sample.link "wg1" 0x0A000001#32 1 1
    let second := Sample.link "wg2" 0x0A000002#32 2 1
    let third := Sample.link "wg3" 0x0A000003#32 3 1
    let refusing (table : Unreliable MemoryTable) : Unreliable MemoryTable :=
      { table with inner := table.inner.failOn first.host }
    let ops : List (Operation (Unreliable MemoryTable)) :=
      [.add first false, .add second false, .outside (·.failNext first.host 1), .commit, .commit,
        .remove second.gateway, .commit, .outside refusing, .remove first.gateway, .commit,
        .add second false, .commit, .add third false]
    let state := run ops ({ group := ⟨1⟩, windowSize := 1, margins := .none }, Unreliable.empty)
    (∀ net ifname, Lawful.routes state.2 net = some ifname ↔
      ∃ peer ∈ state.1.list, (peer.state = .active ∨ peer.state = .leaving) ∧
        peer.host = net ∧ peer.link.ifname = ifname) ∧
    (Lawful.routes state.2 first.host = some "wg1" ∧ Lawful.routes state.2 second.host = some "wg2" ∧
      Lawful.routes state.2 third.host = none) ∧
    ∃ cause, (state.1.commit state.2).1 = .error cause := by
  intro first second third refusing ops
  have careful : ∀ op ∈ ops, op.Careful := by
    simp only [ops, List.forall_mem_cons, Operation.Careful, true_and]
    exact ⟨fun _ => rfl, fun _ => rfl, nofun⟩
  obtain ⟨-, mirror, calls⟩ := mirrored_peers ⟨1⟩ 1 .none ops careful
  refine ⟨mirror, by decide +kernel, (calls _).2.2 ?_⟩
  exact ⟨.error (.tableRefused "del 10.0.0.1/32: injected failure"), by decide +kernel, _, rfl⟩

end Peers

end OverlayRouting
