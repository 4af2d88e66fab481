/-
# OverlayRouting.Proofs.Holdings -- what the router believes to be installed

A peer holds the route to its address while it is active or leaves, and an enabled
destination holds the route through its installed candidate.  An active peer relies on its
route, and so does a destination, until it is dropped.

Whatever becomes of one entry in a commit, a probe round or a withdrawal is one step of the
ledger (`Peers.settle_step`, `Roster.commit_step`, `Roster.reroute_step`,
`Roster.giveUp_step`).  What is only written down, in requests and resolutions, changes no
holding but for peers that are let go (`Router.relaxed_setGroup`).
-/
import OverlayRouting.Proofs.Ledger
import OverlayRouting.Proofs.Sound
import OverlayRouting.Proofs.Table

namespace OverlayRouting

set_option autoImplicit false

open RoutingTable (Lawful)

/-! ## Holdings -/

def Peer.holdings (peer : Peer) : List Holding :=
  if peer.isInstalled then [⟨peer.host, peer.link.ifname, peer.state = .active⟩] else []

def Candidate.holding (net : Prefix) (candidate : Candidate) : Holding :=
  ⟨net, candidate.link.ifname, true⟩

def Roster.holdings (net : Prefix) (roster : Roster) : List Holding :=
  if roster.disabled then [] else roster.installed?.toList.map (Candidate.holding net)

def Peers.holdings (peers : Peers) : List Holding := peers.list.flatMap Peer.holdings

def Services.holdings (services : Services) : List Holding :=
  services.rosters.entries.flatMap fun entry => entry.2.holdings entry.1

def Group.holdings (group : Group) : List Holding := group.peers.holdings ++ group.services.holdings

def Router.holdings (router : Router) : List Holding :=
  router.groups.entries.flatMap fun entry => entry.2.holdings

theorem Peer.mem_holdings_iff (peer : Peer) (holding : Holding) :
    holding ∈ peer.holdings ↔
      peer.isInstalled = true ∧ holding = ⟨peer.host, peer.link.ifname, peer.state = .active⟩ := by
  unfold Peer.holdings
  split <;> simp_all

theorem Roster.mem_holdings_iff (roster : Roster) (net : Prefix) (holding : Holding) :
    holding ∈ roster.holdings net ↔
      roster.disabled = false ∧ ∃ c, roster.installed? = some c ∧ holding = c.holding net := by
  unfold Roster.holdings
  split
  · simp_all
  · cases roster.installed? <;> simp_all

theorem Router.mem_holdings_iff (router : Router) (holding : Holding) :
    holding ∈ router.holdings ↔ ∃ id group, router.groups.get? id = some group ∧
      ((∃ peer ∈ group.peers.list, holding ∈ peer.holdings) ∨
        ∃ net roster, group.services.roster? net = some roster ∧ holding ∈ roster.holdings net) := by
  simp only [Router.holdings, Group.holdings, Peers.holdings, Services.holdings, List.mem_flatMap,
    List.mem_append, Prod.exists, SortedMap.mem_entries_iff, Services.roster?]

/-! What is left of an entry holds what it holds, and what is dropped holds nothing. -/

def Peers.Settled.holdings (settled : Peers.Settled) : List Holding :=
  settled.kept.toList.flatMap Peer.holdings

def Settlement.holdings (net : Prefix) (settlement : Settlement) : List Holding :=
  settlement.roster.toList.flatMap (Roster.holdings net)

def Group.Settled.holdings (settled : Group.Settled) : List Holding :=
  settled.kept.toList.flatMap Group.holdings

/-! ## One entry -/

section Entries

variable {σ : Type} [RoutingTable σ] [Lawful σ]

namespace Peers

theorem settle_step (peer : Peer) (table : σ) :
    Ledger.Step ⟨peer.holdings, Lawful.routes table⟩
      ⟨(settle peer table).1.holdings, Lawful.routes (settle peer table).2⟩ := by
  unfold settle Settled.holdings
  split
  · rename_i joining
    have nothing : peer.holdings = [] := by simp [Peer.holdings, Peer.isInstalled, joining]
    rcases Lawful.add_cases peer.link.ifname none peer.host table with
      ⟨cause, left, asked, same⟩ | ⟨left, asked, free, changed⟩
    · simpa [asked, same] using Ledger.Step.refl _
    · simp only [asked]
      rw [nothing, changed]
      exact @Ledger.Step.attach [] [] _ ⟨peer.host, peer.link.ifname, true⟩ free
  · rename_i leaving
    have holds : peer.holdings = [⟨peer.host, peer.link.ifname, false⟩] := by
      simp [Peer.holdings, Peer.isInstalled, leaving]
    rcases Lawful.remove_cases peer.link.ifname peer.host table with
      ⟨cause, left, asked, same⟩ | ⟨left, asked, changed⟩
    · simpa [asked, same] using Ledger.Step.refl _
    · simp only [asked]
      rw [holds, changed]
      exact @Ledger.Step.detach [] [] _ ⟨peer.host, peer.link.ifname, false⟩
  all_goals simpa using Ledger.Step.refl _

end Peers

namespace Roster

omit [RoutingTable σ] [Lawful σ] in
theorem holdings_settle {roster : Roster} (sound : roster.Sound) {c : Candidate}
    (member : c ∈ roster.candidates) (stays : c.isLeaving = false)
    (enabled : roster.disabled = false) (net : Prefix) :
    (roster.settle (some c.gateway)).holdings net = [c.holding net] := by
  rw [holdings, sound.installed?_settle member stays enabled]
  simp [settle, enabled, Candidate.holding]

omit [RoutingTable σ] [Lawful σ] in
theorem holdings_enabled {roster : Roster} (enabled : roster.disabled = false) (net : Prefix) :
    roster.holdings net = roster.installed?.toList.map (Candidate.holding net) := by
  simp [holdings, enabled]

theorem install_step {roster : Roster} (sound : roster.Sound) (destination : Destination)
    (table : σ) (enabled : roster.disabled = false)
    (joining : ∀ c ∈ roster.candidates, c.state = .joining) :
    Ledger.Step ⟨roster.holdings destination.net, Lawful.routes table⟩
      ⟨(roster.install destination table).1.holdings destination.net,
        Lawful.routes (roster.install destination table).2⟩ := by
  have nothing : roster.holdings destination.net = [] := by
    rw [holdings_enabled enabled, bare_of_joining joining]
    rfl
  have settled : ∀ c ∈ roster.candidates,
      (roster.settle (some c.gateway)).holdings destination.net = [c.holding destination.net] :=
    fun c member => holdings_settle sound member
      (by simp [Candidate.isLeaving, joining c member]) enabled _
  unfold install
  split
  · simpa [Settlement.holdings] using Ledger.Step.refl _
  · rename_i first found
    obtain ⟨carried, unchanged⟩ := Lawful.carrier_spec destination.net table
    generalize RoutingTable.carrier destination.net table = asked at carried unchanged
    obtain ⟨carrier, seen⟩ := asked
    simp only at carried unchanged
    cases carrier with
    | none =>
        simp only
        rcases Lawful.add_cases first.link.ifname none destination.net seen with
          ⟨cause, left, added, same⟩ | ⟨left, added, free, changed⟩
        · simpa [added, Settlement.holdings, failed, same, unchanged] using Ledger.Step.refl _
        · simp only [added]
          have step := @Ledger.Step.attach [] [] _ (first.holding destination.net) free
          rw [nothing, ← unchanged]
          simpa [Settlement.holdings, attached, settled first (mem_of_default? found).1, changed,
            Candidate.holding] using step
    | some ifname =>
        simp only
        split
        · rename_i own listed
          have member := List.mem_of_find?_eq_some listed
          have interface : own.link.ifname = ifname := by simpa using List.find?_some listed
          have routed : Lawful.routes table destination.net = some own.link.ifname := by
            rw [interface, carried]
          have step := @Ledger.Step.attach [] [] _ (own.holding destination.net) (.inr routed)
          rw [nothing]
          simpa [Settlement.holdings, attached, settled own member, unchanged, ← routed,
            Candidate.holding] using step
        · simpa [Settlement.holdings, failed, unchanged] using Ledger.Step.refl _

theorem withdraw_step {roster : Roster} (destination : Destination) (table : σ)
    (enabled : roster.disabled = false) :
    Ledger.Step ⟨roster.holdings destination.net, Lawful.routes table⟩
      ⟨(roster.withdraw destination table).1.holdings destination.net,
        Lawful.routes (roster.withdraw destination table).2⟩ := by
  rw [holdings_enabled enabled]
  unfold withdraw
  split
  · rename_i absent
    simpa [Settlement.holdings, absent] using Ledger.Step.refl _
  · rename_i c found
    rcases Lawful.remove_cases c.link.ifname destination.net table with
      ⟨cause, left, asked, same⟩ | ⟨left, asked, changed⟩
    · simpa [asked, Settlement.holdings, holdings_enabled enabled, found, same] using
        Ledger.Step.refl _
    · simp only [asked]
      rw [found, changed]
      exact @Ledger.Step.detach [] [] (Lawful.routes table) (c.holding destination.net)

/-- A refused move changes no route; one between a candidate and itself is none; any other
one is a step from what was installed to what is. -/
theorem move_step (destination : Destination) (old : Option Candidate) (new : Candidate)
    (table : σ) :
    let moved := move destination old (some new) table
    (∃ cause, moved.1 = .error cause ∧ Lawful.routes moved.2 = Lawful.routes table) ∨
    (moved.1 = .ok none ∧ Lawful.routes moved.2 = Lawful.routes table ∧
      ∃ c, old = some c ∧ c.gateway = new.gateway) ∨
    (moved.1 = .ok (some (destination.change old (some new))) ∧
      Ledger.Step ⟨old.toList.map (Candidate.holding destination.net), Lawful.routes table⟩
        ⟨[new.holding destination.net], Lawful.routes moved.2⟩) := by
  cases old with
  | none =>
      rcases Lawful.add_cases new.link.ifname none destination.net table with
        ⟨cause, left, asked, same⟩ | ⟨left, asked, free, changed⟩
      · simp only [move, asked]
        exact .inl ⟨cause, rfl, same⟩
      · simp only [move, asked]
        refine .inr (.inr ⟨rfl, ?_⟩)
        rw [changed]
        exact @Ledger.Step.attach [] [] _ (new.holding destination.net) free
  | some c =>
      simp only [move]
      split
      · rename_i same
        exact .inr (.inl ⟨rfl, rfl, c, rfl, same⟩)
      · rcases Lawful.replace_cases new.link.ifname none destination.net table with
          ⟨cause, left, asked, same⟩ | ⟨left, asked, changed⟩
        · rw [asked]
          exact .inl ⟨cause, rfl, same⟩
        · rw [asked]
          refine .inr (.inr ⟨rfl, ?_⟩)
          rw [changed]
          exact @Ledger.Step.move [] [] _ (c.holding destination.net) (new.holding destination.net)
            rfl rfl

/-- After a move between a candidate and itself the roster holds what it held. -/
theorem holdings_settle_same {roster : Roster} (sound : roster.Sound) {c new : Candidate}
    (found : roster.installed? = some c) (member : new ∈ roster.candidates)
    (stays : new.isLeaving = false) (enabled : roster.disabled = false)
    (same : c.gateway = new.gateway) (net : Prefix) :
    (roster.settle (some new.gateway)).holdings net = roster.holdings net := by
  rw [holdings_settle sound member stays enabled, holdings_enabled enabled, found,
    sound.eq_of_gateway (mem_of_installed? found).1 member same]
  rfl

theorem reconfigure_step {roster : Roster} (sound : roster.Sound) (destination : Destination)
    (selected : Option Address) (table : σ) (enabled : roster.disabled = false)
    (wanted : roster.Wanted) :
    Ledger.Step ⟨roster.holdings destination.net, Lawful.routes table⟩
      ⟨(roster.reconfigure destination selected table).1.holdings destination.net,
        Lawful.routes (roster.reconfigure destination selected table).2⟩ := by
  obtain ⟨new, chosen⟩ := Option.isSome_iff_exists.1 (successor_isSome wanted selected)
  obtain ⟨member, stays⟩ := mem_of_successor chosen
  have settled := holdings_settle sound member stays enabled destination.net
  simp only [reconfigure, chosen, Option.map_some]
  have spec := move_step destination roster.installed? new table
  generalize move destination roster.installed? (some new) table = moved at spec
  obtain ⟨outcome, left⟩ := moved
  rcases spec with ⟨cause, rfl, same⟩ | ⟨rfl, unchanged, c, found, same⟩ | ⟨rfl, step⟩
  · simp only at same
    simpa [Settlement.holdings, same] using Ledger.Step.refl _
  · simp only at unchanged
    have kept := holdings_settle_same sound found member stays enabled same destination.net
    simpa [Settlement.holdings, kept, unchanged] using Ledger.Step.refl _
  · rw [holdings_enabled enabled]
    simpa [Settlement.holdings, settled] using step

theorem commit_step {roster : Roster} (sound : roster.Sound) (destination : Destination)
    (selected : Option Address) (table : σ) :
    Ledger.Step ⟨roster.holdings destination.net, Lawful.routes table⟩
      ⟨(roster.commit destination selected table).1.holdings destination.net,
        Lawful.routes (roster.commit destination selected table).2⟩ := by
  refine commit_cases (motive := fun result =>
    Ledger.Step ⟨roster.holdings destination.net, Lawful.routes table⟩
      ⟨result.1.holdings destination.net, Lawful.routes result.2⟩)
    roster destination selected table ?_ ?_ ?_ ?_
  · intro _
    simpa [Settlement.holdings] using Ledger.Step.refl _
  · exact fun enabled _ joining => install_step sound destination table enabled joining
  · exact fun enabled _ _ => withdraw_step destination table enabled
  · exact fun enabled _ wanted =>
      reconfigure_step sound destination selected table enabled wanted

theorem reroute_step {roster : Roster} (sound : roster.Sound) (destination : Destination)
    (selected : Address) (table : σ) :
    Ledger.Step ⟨roster.holdings destination.net, Lawful.routes table⟩
      ⟨(roster.reroute destination selected table).1.holdings destination.net,
        Lawful.routes (roster.reroute destination selected table).2⟩ := by
  have kept : ∀ left : σ, Lawful.routes left = Lawful.routes table →
      Ledger.Step ⟨roster.holdings destination.net, Lawful.routes table⟩
        ⟨Settlement.holdings destination.net { roster := some roster }, Lawful.routes left⟩ :=
    fun left same => by
      rw [same]
      simpa [Settlement.holdings] using Ledger.Step.refl _
  unfold reroute
  split
  · exact kept table rfl
  · rename_i busy
    obtain ⟨enabled, quiet⟩ : roster.disabled = false ∧ roster.hasPending = false := by
      simpa using busy
    split
    · exact kept table rfl
    · rename_i new listed
      have member := List.mem_of_find?_eq_some listed
      have gateway : new.gateway = selected := by simpa using List.find?_some listed
      have stays := stays_of_quiet quiet member
      have settled := holdings_settle sound member stays enabled destination.net
      have spec := move_step destination roster.installed? new table
      generalize move destination roster.installed? (some new) table = moved at spec
      obtain ⟨outcome, left⟩ := moved
      rcases spec with ⟨cause, rfl, same⟩ | ⟨rfl, same, -⟩ | ⟨rfl, step⟩
      · exact kept left same
      · exact kept left same
      · rw [holdings_enabled enabled]
        simpa [Settlement.holdings, gateway ▸ settled] using step

theorem giveUp_step (roster : Roster) (destination : Destination) (table : σ) :
    Ledger.Step ⟨roster.holdings destination.net, Lawful.routes table⟩
      ⟨(roster.giveUp destination table).1.holdings destination.net,
        Lawful.routes (roster.giveUp destination table).2⟩ := by
  unfold giveUp
  split
  · rename_i disabled
    simpa [Settlement.holdings, holdings, disabled] using Ledger.Step.refl _
  · rename_i enabled
    exact withdraw_step destination table (by simpa using enabled)

end Roster

end Entries

/-! ## Many entries -/

theorem Relaxed.flatMap {α : Type} {before after : α → List Holding} {list : List α}
    (each : ∀ x ∈ list, Relaxed (before x) (after x)) :
    Relaxed (list.flatMap before) (list.flatMap after) := by
  induction list with
  | nil => exact .nil
  | cons x rest ih =>
      rw [List.flatMap_cons, List.flatMap_cons]
      exact (each x List.mem_cons_self).append (ih fun y member => each y (List.mem_cons_of_mem _ member))

theorem flatMap_filterMap {α β γ : Type} (left : α → Option β) (held : β → List γ) (list : List α) :
    (list.filterMap left).flatMap held = list.flatMap fun x => (left x).toList.flatMap held := by
  induction list with
  | nil => rfl
  | cons x rest ih => cases here : left x <;> simp [here, ih]

section Maps

variable {κ α β : Type} [Ranked κ]

/-- What the values of a map hold that are chosen from those of another. -/
theorem SortedMap.flatMap_filterMap (map : SortedMap κ α) (choose : κ → α → Option β)
    (held : κ → β → List Holding) :
    (map.filterMap choose).entries.flatMap (fun entry => held entry.1 entry.2) =
      map.entries.flatMap fun entry => (choose entry.1 entry.2).toList.flatMap (held entry.1) := by
  rw [filterMap, OverlayRouting.flatMap_filterMap]
  refine List.flatMap_congr fun entry _ => ?_
  cases choose entry.1 entry.2 <;> simp

/-- Putting a value into a map relaxes what is held if it relaxes what is held at its key. -/
theorem SortedMap.relaxed_insert (map : SortedMap κ α) (key : κ) (value : α)
    (held : κ → α → List Holding)
    (here : Relaxed ((map.get? key).toList.flatMap (held key)) (held key value)) :
    Relaxed (map.entries.flatMap fun entry => held entry.1 entry.2)
      ((map.insert key value).entries.flatMap fun entry => held entry.1 entry.2) := by
  obtain ⟨entries, increasing⟩ := map
  simp only [get?, insert] at here ⊢
  induction entries with
  | nil => simpa [Entries.put, Entries.lookup] using here
  | cons head rest ih =>
      obtain ⟨k, x⟩ := head
      obtain ⟨below, restIncreasing⟩ := List.pairwise_cons.1 increasing
      simp only [Entries.lookup] at here
      simp only [Entries.put]
      split
      · rename_i before
        have absent : Entries.lookup key rest = none :=
          Entries.lookup_eq_none_of_below fun entry member => Nat.lt_trans before (below entry member)
        rw [if_neg (Nat.ne_of_gt before), absent] at here
        simp only [List.flatMap_cons]
        exact (show Relaxed [] (held key value) by simpa using here).append (.refl _)
      · split
        · rename_i same
          cases rank_inj same
          rw [if_pos rfl] at here
          simp only [List.flatMap_cons]
          exact Relaxed.append (by simpa using here) (.refl _)
        · rename_i differs
          rw [if_neg (Ne.symm differs)] at here
          simp only [List.flatMap_cons]
          exact (Relaxed.refl _).append (ih restIncreasing here)

/-- Taking a value out that holds nothing changes nothing that is held. -/
theorem SortedMap.flatMap_erase (map : SortedMap κ α) (key : κ) (held : κ → α → List Holding)
    (nothing : ∀ value, map.get? key = some value → held key value = []) :
    (map.erase key).entries.flatMap (fun entry => held entry.1 entry.2) =
      map.entries.flatMap fun entry => held entry.1 entry.2 := by
  rw [erase, SortedMap.flatMap_filterMap]
  refine List.flatMap_congr fun entry member => ?_
  split
  · rename_i same
    obtain ⟨k, value⟩ := entry
    cases rank_inj same
    exact (nothing value ((map.mem_entries_iff k value).1 member)).symm
  · simp

end Maps

/-! ## Requests -/

namespace Roster

variable {roster : Roster}

theorem holdings_add (roster : Roster) (link : Link) (net : Prefix) :
    (roster.add link).2.holdings net = roster.holdings net := by
  unfold add
  split
  · rfl
  · have idle : Candidate.isInstalled
        ⟨link, if roster.disabled then .disabled else .joining⟩ = false := by
      cases roster.disabled <;> rfl
    simp [holdings, installed?, List.find?_append, idle]

theorem holdings_remove (sound : roster.Sound) (gateway : Address) (net : Prefix) :
    (roster.remove gateway).holdings net = roster.holdings net := by
  cases found : roster.installed? with
  | none =>
      have absent : (roster.remove gateway).installed? = none := by
        refine (installed?_eq_none_iff _).2 fun left member => ?_
        obtain ⟨c, stood, -, same, -⟩ := mem_remove member
        exact same.trans ((installed?_eq_none_iff roster).1 found c stood)
      simp [holdings, found, absent]
  | some c =>
      obtain ⟨stood, carries⟩ := mem_of_installed? found
      obtain ⟨left, listed, link, still⟩ := exists_mem_remove gateway stood carries
      have installed := (sound.remove gateway).installed?_eq listed still
      have flag : (roster.remove gateway).disabled = roster.disabled := rfl
      simp [holdings, found, installed, Candidate.holding, link, flag]

theorem holdings_enable (sound : roster.Sound) (disabled : roster.disabled = true) (net : Prefix) :
    roster.enable.holdings net = [] := by
  have absent : roster.enable.installed? = none :=
    bare_of_joining fun c member => sound.joining_enable disabled member
  simp [holdings, absent]

end Roster

namespace Services

variable {services : Services}

theorem relaxed_insert (net : Prefix) (roster : Roster)
    (here : Relaxed ((services.roster? net).toList.flatMap (Roster.holdings net))
      (roster.holdings net)) :
    Relaxed services.holdings
      (holdings { services with rosters := services.rosters.insert net roster }) :=
  services.rosters.relaxed_insert net roster Roster.holdings here

theorem relaxed_add (services : Services) (link : Link) (net : Prefix) (disabled : Bool) :
    Relaxed services.holdings (services.add link net disabled).2.holdings := by
  refine relaxed_insert net (((services.roster? net).getD { disabled }).add link).2 (.of_eq ?_)
  rw [Roster.holdings_add]
  cases services.roster? net with
  | none => cases disabled <;> rfl
  | some roster => simp

theorem relaxed_remove (sound : services.Sound) (link : Link) (net : Prefix) :
    Relaxed services.holdings (services.remove link net).2.holdings := by
  unfold remove
  split
  · exact .refl _
  · rename_i roster found
    have same := Roster.holdings_remove (sound net roster found).1 link.gateway net
    simp only
    split
    · rename_i gone
      have nothing : roster.holdings net = [] := by
        rw [← same, Roster.holdings, Roster.installed?, List.isEmpty_iff.1 gone]
        split <;> rfl
      rw [holdings, holdings, SortedMap.flatMap_erase _ _ Roster.holdings]
      · exact .refl _
      · intro value stands
        cases found.symm.trans stands
        exact nothing
    · refine relaxed_insert net _ (.of_eq ?_)
      rw [same, found]
      simp

theorem relaxed_enable (sound : services.Sound) (net : Prefix) :
    Relaxed services.holdings (services.enable net).2.holdings := by
  unfold enable
  split
  · exact .refl _
  · rename_i roster found
    split
    · rename_i disabled
      refine relaxed_insert net _ (.of_eq ?_)
      rw [Roster.holdings_enable (sound net roster found).1 disabled, found]
      simp [Roster.holdings, disabled]
    · exact .refl _

end Services

namespace Peers

theorem relaxed_add (peers : Peers) (link : Link) (disabled : Bool) :
    Relaxed peers.holdings (peers.add link disabled).2.holdings := by
  unfold add
  split
  · exact .refl _
  · have nothing : (Peer.enroll link peers.windowSize disabled).holdings = [] := by
      cases disabled <;> rfl
    exact .of_eq (by simp [holdings, nothing])

/-- A peer that is let go keeps its route, but does not rely on it. -/
theorem relaxed_dismissed (peer : Peer) :
    Relaxed peer.holdings ((dismissed peer).toList.flatMap Peer.holdings) := by
  unfold dismissed
  split <;> rename_i state
  · simp [Peer.holdings, Peer.isInstalled, state, Holding.Relaxes, Peer.host]
  · simp [Peer.holdings, Peer.isInstalled, state, Holding.Relaxes, Peer.host]
  all_goals simp [Peer.holdings, Peer.isInstalled, state]

theorem relaxed_remove (peers : Peers) (gateway : Address) :
    Relaxed peers.holdings (peers.remove gateway).2.holdings := by
  unfold remove
  split
  · exact .refl _
  · rw [holdings, holdings, flatMap_filterMap]
    refine Relaxed.flatMap fun peer _ => ?_
    split
    · exact relaxed_dismissed peer
    · exact .of_eq (by simp)

theorem relaxed_enable (peers : Peers) (net : Prefix) :
    Relaxed peers.holdings (peers.enable net).2.holdings := by
  unfold enable
  split
  · rw [holdings, holdings, List.flatMap_map]
    refine Relaxed.flatMap fun peer _ => .of_eq ?_
    split
    · rename_i disabled
      obtain ⟨state, -⟩ : peer.state = .disabled ∧ peer.host = net := by simpa using disabled
      simp [Peer.holdings, Peer.isInstalled, state]
    · rfl
  · exact .refl _

theorem holdings_ping (peers : Peers) (tallies : Tallies) :
    (peers.ping tallies).holdings = peers.holdings := by
  rw [holdings, holdings, ping, List.flatMap_map]
  refine List.flatMap_congr fun peer _ => ?_
  unfold measured
  split
  · rfl
  · split <;> rfl

theorem holdings_select (peers : Peers) : peers.select.2.holdings = peers.holdings := by
  rw [holdings, holdings, list_select]

end Peers

namespace Router

variable {router : Router}

theorem relaxed_setGroup (router : Router) (id : GroupId) (group : Group)
    (here : Relaxed (router.group id).holdings group.holdings) :
    Relaxed router.holdings (router.setGroup id group).holdings := by
  refine router.groups.relaxed_insert id group (fun _ => Group.holdings) ?_
  rw [Router.group] at here
  cases found : router.groups.get? id with
  | none =>
      rw [found] at here
      exact here
  | some before => simpa [found] using here

theorem relaxed_accept (router : Router) (link : Link) (place : Place) (net : Prefix) :
    Relaxed router.holdings (router.accept link place net).2.holdings := by
  unfold accept
  split
  · exact .refl _
  · refine router.relaxed_setGroup link.group _ ?_
    cases place with
    | peer => exact (Peers.relaxed_add _ link _).append (.refl _)
    | service => exact (Relaxed.refl _).append (Services.relaxed_add _ link net _)

theorem relaxed_request (router : Router) (link : Link) (nets : List Prefix) :
    Relaxed router.holdings (router.add link nets).2.holdings := by
  have all : ∀ (places : List (Place × Prefix)) (router : Router),
      Relaxed router.holdings (acceptAll link places router).2.holdings := by
    intro places
    induction places with
    | nil => exact fun router => .refl _
    | cons first rest ih =>
        exact fun router => (router.relaxed_accept link first.1 first.2).trans (ih _)
  exact all _ router

theorem relaxed_remove (sound : router.Sound) (link : Link) (nets : List Prefix) :
    Relaxed router.holdings (router.remove link nets).2.holdings := by
  have all : ∀ (places : List (Place × Prefix)) (group : Group), group.Sound →
      Relaxed group.holdings (dismissAll link places group).2.holdings := by
    intro places
    induction places with
    | nil => exact fun group _ => .refl _
    | cons first rest ih =>
        obtain ⟨place, net⟩ := first
        intro group sound
        cases place with
        | peer =>
            exact ((group.peers.relaxed_remove link.gateway).append (.refl _)).trans
              (ih (dismiss group link .peer net).2
                ⟨sound.peers.remove link.gateway, sound.services⟩)
        | service =>
            have step := (Relaxed.refl group.peers.holdings).append
              (Services.relaxed_remove sound.services link net)
            have after : (dismiss group link .service net).2.Sound := by
              rw [dismiss_service]
              exact ⟨sound.peers, sound.services.remove link net⟩
            refine Relaxed.trans ?_ (ih (dismiss group link .service net).2 after)
            rw [dismiss_service]
            exact step
  unfold remove
  split
  · exact .refl _
  · rename_i group found
    refine router.relaxed_setGroup link.group _ ?_
    rw [group_of_get? found]
    exact all _ group (sound link.group group found)

theorem Held.relaxed_enable {held : Held} (kind : held.Kind) {group : Group} (sound : group.Sound)
    (net : Prefix) : Relaxed group.holdings (held.enable group net).2.holdings := by
  cases kind with
  | peers => exact (group.peers.relaxed_enable net).append (.refl _)
  | services => exact (Relaxed.refl _).append (Services.relaxed_enable sound.services net)

theorem relaxed_resolve (sound : router.Sound) :
    Relaxed router.holdings router.resolve.2.holdings := by
  refine (resolve_induction (motive := fun progress =>
    progress.2.Sound ∧ Relaxed router.holdings progress.2.holdings) router
    ⟨sound, .refl _⟩ ?_).2
  rintro held kind id net count router group _ found ⟨sound, relaxed⟩
  have here := sound id group found
  refine ⟨sound.setGroup id (Held.sound_enable kind here net), relaxed.trans ?_⟩
  refine router.relaxed_setGroup id _ ?_
  rw [group_of_get? found]
  exact Held.relaxed_enable kind here net

theorem holdings_setMargins (router : Router) (margins : Margins) :
    (router.setMargins margins).holdings = router.holdings := by
  simp only [holdings, setMargins, SortedMap.map, List.flatMap_map]
  rfl

end Router

end OverlayRouting
