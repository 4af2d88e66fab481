/-
# OverlayRouting.Proofs.Foreign -- the route of somebody else stays as it is

No link of the router uses the interface of a guarded route, and so no entry of it ever has
something installed for the destination (`Router.Avoids`).  Every operation keeps it so, a flush
and a close included, and with it the route (`guarded_throughout`).  For a table in memory this
is each route that stands in it before the router starts (`foreign_throughout`).
-/
import OverlayRouting.Proofs.Closing
import OverlayRouting.Proofs.Guarded
import OverlayRouting.Proofs.Requests

namespace OverlayRouting

set_option autoImplicit false

/-! ## Walks -/

/-- What each visit leaves, given what holds of the member before, a walk leaves. -/
theorem visitAll_leaves {α β σ : Type} {visit : α → σ → β × σ} {holds : σ → Prop}
    {before : α → Prop} {after : β → Prop}
    (each : ∀ x table, before x → holds table → Leaves after holds (visit x table)) (list : List α)
    (all : ∀ x ∈ list, before x) {table : σ} (stands : holds table) :
    Leaves (fun made => ∀ y ∈ made, after y) holds (visitAll visit list table) := by
  induction list generalizing table with
  | nil => exact ⟨nofun, stands⟩
  | cons x rest ih =>
      obtain ⟨here, next⟩ := each x table (all x List.mem_cons_self) stands
      obtain ⟨others, last⟩ := ih (fun y member => all y (List.mem_cons_of_mem _ member)) next
      exact ⟨List.forall_mem_cons.2 ⟨here, others⟩, last⟩

/-- A walk over a map leaves the property of what stands at each key, if each visit does. -/
theorem SortedMap.leaves_traverse {κ α β σ : Type} [Ranked κ] {visit : κ → α → σ → β × σ}
    {keep : β → Option α} {fine : κ → α → Prop} {holds : σ → Prop}
    (each : ∀ key x table, fine key x → holds table →
      Leaves (fun made => ∀ left, keep made = some left → fine key left) holds (visit key x table))
    {map : SortedMap κ α} (all : ∀ key x, map.get? key = some x → fine key x) {table : σ}
    (stands : holds table) :
    Leaves (fun made : SortedMap κ β =>
        ∀ key left, (made.filterMap fun _ y => keep y).get? key = some left → fine key left) holds
      (map.traverse visit table) := by
  have walked : Leaves
      (fun made => ∀ entry ∈ made, ∀ left, keep entry.2 = some left → fine entry.1 left) holds
      (visitAll (onEntry visit) map.entries table) :=
    visitAll_leaves (fun entry table => each entry.1 entry.2 table) map.entries
      (fun entry member => all entry.1 entry.2 ((map.mem_entries_iff entry.1 entry.2).1 member))
      stands
  rw [← traverse_eq] at walked
  obtain ⟨settled, after⟩ := walked
  refine ⟨fun key left found => ?_, after⟩
  obtain ⟨made, there, kept⟩ :=
    Option.bind_eq_some_iff.1 ((SortedMap.get?_filterMap _ _ key).symm.trans found)
  exact settled (key, made) ((SortedMap.mem_entries_iff _ key made).2 there) left kept

def Peers.Avoids (net : Prefix) (ifname : String) (peers : Peers) : Prop :=
  ∀ peer ∈ peers.list, peer.Avoids net ifname

def Services.Avoids (net : Prefix) (ifname : String) (services : Services) : Prop :=
  ∀ here roster, services.roster? here = some roster → roster.Avoids net ifname here

structure Group.Avoids (net : Prefix) (ifname : String) (group : Group) : Prop where
  peers : group.peers.Avoids net ifname
  services : group.services.Avoids net ifname

abbrev Router.Avoids (net : Prefix) (ifname : String) : Router → Prop :=
  Router.Each fun _ group => group.Avoids net ifname

section Walks

variable {σ : Type} [RoutingTable σ] {net : Prefix} {ifname : String} {holds : σ → Prop}

open RoutingTable (Guards)

theorem Peers.commit_avoids (guards : Guards net ifname holds) {peers : Peers} {table : σ}
    (avoids : peers.Avoids net ifname) (stands : holds table) :
    Leaves (Peers.Avoids net ifname) holds (peers.commit table).2 := by
  obtain ⟨settled, after⟩ := visitAll_leaves (fun _ _ => settle_avoids guards) peers.list avoids
    stands
  rw [← settleAll_eq] at settled after
  refine ⟨fun peer member => ?_, after⟩
  obtain ⟨left, listed, kept⟩ := List.mem_filterMap.1 member
  exact settled left listed peer kept

omit [RoutingTable σ] in
theorem Services.sweep_avoids {visit : Roster → Destination → σ → Settlement × σ}
    (each : ∀ (roster : Roster) destination table, roster.Avoids net ifname destination.net →
      holds table → Leaves (Settlement.Avoids net ifname destination.net) holds
        (visit roster destination table)) {services : Services} {table : σ}
    (avoids : services.Avoids net ifname) (stands : holds table) :
    Leaves (fun swept => swept.services.Avoids net ifname) holds (services.sweep visit table) :=
  SortedMap.leaves_traverse
    (fun here roster table => each roster ⟨services.group, here⟩ table) avoids stands

theorem Group.commit_avoids (guards : Guards net ifname holds) {group : Group} {table : σ}
    (avoids : group.Avoids net ifname) (stands : holds table) :
    Leaves (fun settled => ∀ left, settled.kept = some left → left.Avoids net ifname) holds
      (group.commit table) := by
  obtain ⟨peers, next⟩ := Peers.commit_avoids guards avoids.peers stands
  have peers_still : (group.settledPeers table).Avoids net ifname := fun peer member =>
    peers peer (by rwa [settledPeers, Peers.list_select] at member)
  obtain ⟨services, swept⟩ := Services.sweep_avoids
    (fun _ _ _ => Roster.commit_avoids guards (group.selectedGateway table)) avoids.services next
  rw [commit_eq]
  simp only
  split
  · obtain ⟨withdrawn, after⟩ :=
      Services.sweep_avoids (fun _ _ _ => Roster.giveUp_avoids guards) services swept
    refine ⟨fun left kept => ?_, after⟩
    simp only at kept
    split at kept <;> cases kept
    exact ⟨peers_still, withdrawn⟩
  · exact ⟨fun left kept => Option.some.inj kept ▸ ⟨peers_still, services⟩, swept⟩

omit [RoutingTable σ] in
theorem Peers.Avoids.ping {peers : Peers} (avoids : peers.Avoids net ifname) (tallies : Tallies) :
    (peers.ping tallies).Avoids net ifname := by
  intro left listed
  obtain ⟨peer, member, rfl⟩ := List.mem_map.1 listed
  unfold measured
  split
  · exact avoids peer member
  · split <;> exact avoids peer member

theorem Group.ping_avoids (guards : Guards net ifname holds) {group : Group} {tallies : Tallies}
    {table : σ} (avoids : group.Avoids net ifname) (stands : holds table) :
    Leaves (fun settled => ∀ left, settled.kept = some left → left.Avoids net ifname) holds
      (group.ping tallies table) := by
  have peers : (group.peers.ping tallies).select.2.Avoids net ifname := fun peer member =>
    avoids.peers.ping tallies peer (by rwa [Peers.list_select] at member)
  unfold ping Services.reroute
  generalize (group.peers.ping tallies).select = chosen at peers
  obtain ⟨selected, left⟩ := chosen
  cases selected with
  | none => exact ⟨fun _ kept => Option.some.inj kept ▸ ⟨peers, avoids.services⟩, stands⟩
  | some peer =>
      obtain ⟨services, swept⟩ := Services.sweep_avoids
        (fun _ _ _ => Roster.reroute_avoids guards peer.gateway) avoids.services stands
      exact ⟨fun _ kept => Option.some.inj kept ▸ ⟨peers, services⟩, swept⟩

omit [RoutingTable σ] in
theorem Router.walk_avoids {visit : Group → σ → Group.Settled × σ}
    (each : ∀ (group : Group) table, group.Avoids net ifname → holds table →
      Leaves (fun settled => ∀ left, settled.kept = some left → left.Avoids net ifname) holds
        (visit group table)) {router : Router} {table : σ} (avoids : router.Avoids net ifname)
    (stands : holds table) :
    Leaves (fun walked => walked.router.Avoids net ifname) holds (router.walk visit table) :=
  SortedMap.leaves_traverse (fun _ group table => each group table)
    avoids stands

end Walks

/-! ## Requests -/

section Requests

variable {net : Prefix} {ifname : String}

namespace Roster.Avoids

variable {roster : Roster} {here : Prefix}

theorem add (avoids : roster.Avoids net ifname here) {link : Link} (differs : link.ifname ≠ ifname) :
    (roster.add link).2.Avoids net ifname here := by
  unfold Roster.add
  split
  · exact avoids
  · intro c listed
    rcases List.mem_append.1 listed with before | added
    · exact avoids c before
    · cases List.mem_singleton.1 added
      exact ⟨differs, fun _ => by cases roster.disabled <;> rfl⟩

theorem remove (avoids : roster.Avoids net ifname here) (gateway : Address) :
    (roster.remove gateway).Avoids net ifname here := by
  intro left listed
  obtain ⟨c, stood, link, same, -⟩ := mem_remove listed
  rw [link, same]
  exact avoids c stood

theorem enable (avoids : roster.Avoids net ifname here) : roster.enable.Avoids net ifname here := by
  intro left listed
  obtain ⟨c, stood, rfl⟩ := List.mem_map.1 listed
  split
  · exact ⟨(avoids c stood).interface, fun _ => rfl⟩
  · exact avoids c stood

end Roster.Avoids

namespace Services.Avoids

variable {services : Services}

theorem insert (avoids : services.Avoids net ifname) {here : Prefix} {roster : Roster}
    (put : roster.Avoids net ifname here) :
    Services.Avoids net ifname { services with rosters := services.rosters.insert here roster } := by
  intro other found stands
  simp only [roster?, SortedMap.get?_insert, rank_eq_iff] at stands
  split at stands
  · rename_i same
    cases stands
    exact same ▸ put
  · exact avoids other found stands

theorem add (avoids : services.Avoids net ifname) {link : Link} (differs : link.ifname ≠ ifname)
    (here : Prefix) (disabled : Bool) : (services.add link here disabled).2.Avoids net ifname := by
  have old : ((services.roster? here).getD { disabled }).Avoids net ifname here := by
    cases found : services.roster? here with
    | none => exact nofun
    | some roster => exact avoids here roster found
  exact avoids.insert (old.add differs)

theorem remove (avoids : services.Avoids net ifname) (link : Link) (here : Prefix) :
    (services.remove link here).2.Avoids net ifname := by
  unfold Services.remove
  split
  · exact avoids
  · rename_i roster found
    simp only
    split
    · intro other left stands
      simp only [roster?, SortedMap.get?_erase] at stands
      split at stands
      · cases stands
      · exact avoids other left stands
    · exact avoids.insert ((avoids here roster found).remove link.gateway)

theorem enable (avoids : services.Avoids net ifname) (here : Prefix) :
    (services.enable here).2.Avoids net ifname := by
  intro other after stands
  rcases of_roster?_enable stands with ⟨same, -⟩ | ⟨rfl, roster, found, -, rfl⟩
  · exact avoids other after same
  · exact (avoids _ roster found).enable

end Services.Avoids

namespace Peers.Avoids

variable {peers : Peers}

theorem add (avoids : peers.Avoids net ifname) {link : Link} (differs : link.ifname ≠ ifname)
    (disabled : Bool) : (peers.add link disabled).2.Avoids net ifname := by
  unfold Peers.add
  split
  · exact avoids
  · intro peer listed
    rcases List.mem_append.1 listed with before | added
    · exact avoids peer before
    · cases List.mem_singleton.1 added
      exact ⟨differs, fun _ => by cases disabled <;> rfl⟩

theorem remove (avoids : peers.Avoids net ifname) (gateway : Address) :
    (peers.remove gateway).2.Avoids net ifname := by
  unfold Peers.remove
  split
  · exact avoids
  · intro left listed
    obtain ⟨peer, member, stays⟩ := List.mem_filterMap.1 listed
    obtain ⟨interface, nothing⟩ := avoids peer member
    split at stays
    · -- who is let go keeps what is installed
      unfold dismissed at stays
      split at stays <;> cases stays <;> rename_i state
      all_goals exact ⟨interface, fun same => by simpa [Peer.isInstalled, state] using nothing same⟩
    · cases stays
      exact ⟨interface, nothing⟩

theorem enable (avoids : peers.Avoids net ifname) (here : Prefix) :
    (peers.enable here).2.Avoids net ifname := by
  unfold Peers.enable
  split
  · intro left listed
    obtain ⟨peer, member, rfl⟩ := List.mem_map.1 listed
    split
    · exact ⟨(avoids peer member).interface, fun _ => rfl⟩
    · exact avoids peer member
  · exact avoids

end Peers.Avoids

/-- Only links of other interfaces are admitted. -/
theorem Group.steady_avoids (net : Prefix) (ifname : String) :
    Group.Steady (fun link _ => link.ifname ≠ ifname) fun _ group => group.Avoids net ifname where
  empty _ _ _ := ⟨nofun, fun _ _ stands => nomatch stands⟩
  addPeer _ _ _ disabled differs avoids := ⟨avoids.peers.add differs disabled, avoids.services⟩
  addService _ _ here disabled differs avoids :=
    ⟨avoids.peers, avoids.services.add differs here disabled⟩
  removePeer _ _ gateway avoids := ⟨avoids.peers.remove gateway, avoids.services⟩
  removeService _ _ link here avoids := ⟨avoids.peers, avoids.services.remove link here⟩
  enablePeer _ _ here avoids := ⟨avoids.peers.enable here, avoids.services⟩
  enableService _ _ here avoids := ⟨avoids.peers, avoids.services.enable here⟩
  margins _ _ _ avoids := ⟨avoids.peers, avoids.services⟩

theorem Router.interface_of_closing {router : Router} (avoids : router.Avoids net ifname)
    {holding : Holding} (member : holding ∈ router.closing) : holding.ifname ≠ ifname := by
  obtain ⟨id, group, stands, entry⟩ :=
    (router.mem_holdings_iff holding).1 ((router.mem_closing_iff holding).1 member)
  obtain ⟨peers, services⟩ := avoids id group stands
  rcases entry with ⟨peer, listed, held⟩ | ⟨here, roster, found, held⟩
  · obtain ⟨-, rfl⟩ := (peer.mem_holdings_iff holding).1 held
    exact (peers peer listed).interface
  · obtain ⟨-, c, installed, rfl⟩ := (roster.mem_holdings_iff here holding).1 held
    exact (services here roster found c (Roster.mem_of_installed? installed).1).interface

end Requests

/-! ## Runs -/

section Runs

variable {σ : Type} [RoutingTable σ] {net : Prefix} {ifname : String} {holds : σ → Prop}

open RoutingTable (Guards)

theorem RoutingTable.Guards.withdrawEach (guards : Guards net ifname holds) {list : List Holding}
    (others : ∀ holding ∈ list, holding.ifname ≠ ifname) {table : σ} (stands : holds table) :
    holds (withdrawEach list table) :=
  List.foldlRecOn list _ stands fun table stands holding member =>
    guards.remove holding.ifname holding.net table (others holding member) stands

/-- No link that is added uses the interface, and nobody else touches the guarded route. -/
def Operation.Apart (ifname : String) (holds : σ → Prop) : Operation σ → Prop
  | .add link _ => link.ifname ≠ ifname
  | .outside change => ∀ table, holds table → holds (change table)
  | _ => True

theorem Operation.avoids_step (guards : Guards net ifname holds) {op : Operation σ}
    (apart : op.Apart ifname holds) {state : Router × σ}
    (before : Leaves (Router.Avoids net ifname) holds state) :
    Leaves (Router.Avoids net ifname) holds (op.step state) := by
  obtain ⟨router, table⟩ := state
  obtain ⟨avoids, stands⟩ := before
  have steady := Group.steady_avoids net ifname
  have forgotten : router.flush.Avoids net ifname := Router.each_fresh _ router.settings
  cases op with
  | add link nets => exact ⟨steady.add avoids link nets fun _ _ _ => apart, stands⟩
  | remove link nets => exact ⟨steady.remove avoids link nets, stands⟩
  | apply =>
      refine Router.apply_induction (motive := Leaves (Router.Avoids net ifname) holds) router table
        ⟨avoids, stands⟩ ?_ ?_
      · exact fun router table before => Router.walk_avoids
          (fun _ _ => Group.commit_avoids guards) before.1 before.2
      · exact fun router table before => ⟨steady.resolve before.1, before.2⟩
  | ping tallies =>
      exact Router.walk_avoids (fun _ _ => Group.ping_avoids guards) avoids stands
  | setMargins margins => exact ⟨steady.setMargins avoids margins, stands⟩
  | flush => exact ⟨forgotten, stands⟩
  | close =>
      simp only [step, Router.close_eq]
      refine ⟨forgotten, ?_⟩
      split
      · exact guards.withdrawEach (fun _ => Router.interface_of_closing avoids) stands
      · exact stands
  | outside change => exact ⟨avoids, apart table stands⟩

/-- A guarded route stands throughout a run in which no link uses its interface. -/
theorem guarded_throughout (guards : Guards net ifname holds) (settings : RouterSettings)
    {table : σ} (stands : holds table) {ops : List (Operation σ)}
    (apart : ∀ op ∈ ops, op.Apart ifname holds) :
    Throughout (fun state => holds state.2) ops (Router.fresh settings table) := by
  intro done early
  have begins : Leaves (Router.Avoids net ifname) holds (Router.fresh settings table) :=
    ⟨Router.each_fresh _ settings, stands⟩
  exact (run_induction (motive := Leaves (Router.Avoids net ifname) holds) done begins
    fun op member _ before => op.avoids_step guards (apart op (early.subset member)) before).2

end Runs

/-- A route that stands in a table in memory before the router starts is still there, with its
interface and its gateway, after every operation of a run in which no link uses its interface,
whatever is refused. -/
theorem foreign_throughout (settings : RouterSettings) (table : Unreliable MemoryTable)
    (net : Prefix) (route : Route) (stands : table.inner.routes.get? net = some route)
    (ops : List (Operation (Unreliable MemoryTable)))
    (apart : ∀ op ∈ ops, op.Apart route.ifname fun table =>
      table.inner.routes.get? net = some route) :
    Throughout (fun state => state.2.inner.routes.get? net = some route) ops
      (Router.fresh settings table) :=
  guarded_throughout (MemoryTable.guards net route).unreliable settings stands apart

/-- The network behind two links is routed elsewhere: its first commits are refused, it is
found unserved by a probe round, and neither its removal nor the close takes the route away. -/
theorem foreign_kept :
    let first := Sample.link "wg1" 0x0A000001#32 1 1
    let second := Sample.link "wg2" 0x0A000002#32 2 1
    let table : Unreliable MemoryTable := { inner := MemoryTable.existing {} Sample.lan "eth0" }
    let ops : List (Operation (Unreliable MemoryTable)) :=
      [.add first [first.host, Sample.lan], .outside (·.failNext first.host 1), .apply,
        .add second [second.host, Sample.lan], .apply, .setMargins ⟨10, 1⟩, .ping ∅,
        .remove first [first.host, Sample.lan], .apply, .close]
    Throughout (fun state => state.2.inner.routes.get? Sample.lan = some ⟨"eth0", none⟩) ops
      (Router.fresh { cleanupOnExit := true } table) := by
  intro first second table ops
  refine foreign_throughout _ table Sample.lan ⟨"eth0", none⟩ (by decide +kernel) ops ?_
  simp only [ops, List.forall_mem_cons, Operation.Apart, true_and]
  exact ⟨by decide, fun _ stands => stands, by decide, List.forall_mem_nil _⟩

end OverlayRouting
