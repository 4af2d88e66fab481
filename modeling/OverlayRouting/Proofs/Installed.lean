/-
# OverlayRouting.Proofs.Installed -- the router's entries and the routes there are

The router and a table in memory that nobody else changes agree in one direction always,
whatever is refused: every route has an entry that holds it, so no route is forgotten
(`owned_throughout`).

In the other direction they need not agree.  Two entries with one destination and one
interface hold the same route, and the first that gives it up takes it away from the other,
which does not notice (`route_lost`).  This is the only way in which an active peer or an
installed candidate loses its route (`installed_throughout_iff`).
-/
import OverlayRouting.Proofs.Trail

namespace OverlayRouting

set_option autoImplicit false

open RoutingTable (Lawful)

/-! ## What the ledger of a router says -/

namespace Router

/-- Every active peer and every installed candidate of an enabled destination has its
route. -/
def Installed (router : Router) (routes : Prefix → Option String) : Prop :=
  ∀ id group, router.groups.get? id = some group →
    (∀ peer ∈ group.peers.list, peer.state = .active →
      routes peer.host = some peer.link.ifname) ∧
    ∀ net roster, group.services.roster? net = some roster → roster.disabled = false →
      ∀ c ∈ roster.candidates, c.isInstalled = true → routes net = some c.link.ifname

/-- A destination or a peer of some group has this route. -/
def Owns (router : Router) (net : Prefix) (ifname : String) : Prop :=
  ∃ id group, router.groups.get? id = some group ∧
    ((∃ roster, group.services.roster? net = some roster ∧ roster.disabled = false ∧
        ∃ c ∈ roster.candidates, c.isInstalled = true ∧ c.link.ifname = ifname) ∨
      ∃ peer ∈ group.peers.list, peer.isInstalled = true ∧ peer.host = net ∧
        peer.link.ifname = ifname)

/-- A destination or a peer has this route that is not on the way out. -/
def Keeps (router : Router) (net : Prefix) (ifname : String) : Prop :=
  ∃ id group, router.groups.get? id = some group ∧
    ((∃ roster, group.services.roster? net = some roster ∧ roster.disabled = false ∧
        roster.Wanted ∧ ∃ c ∈ roster.candidates, c.isInstalled = true ∧ c.link.ifname = ifname) ∨
      ∃ peer ∈ group.peers.list, peer.state = .active ∧ peer.host = net ∧
        peer.link.ifname = ifname)

theorem hasRoute_of_keeps {router : Router} {net : Prefix} {ifname : String}
    (keeps : router.Keeps net ifname) : router.hasRoute net = true := by
  obtain ⟨id, group, stands, owner⟩ := keeps
  refine List.any_eq_true.2 ⟨(id, group), (router.groups.mem_entries_iff id group).2 stands, ?_⟩
  rw [Group.claims_iff]
  rcases owner with ⟨roster, found, enabled, wanted, -⟩ | ⟨peer, member, active, host, -⟩
  · exact .inr ((Services.claims_iff _ net).2 ⟨roster, found, enabled, wanted⟩)
  · refine .inl ((Peers.claims_iff _ net).2 ⟨peer, member, ?_, host⟩)
    simp [Peer.claimsAddress, active]

variable {σ : Type} [RoutingTable σ] [Lawful σ]

theorem faithful_iff {router : Router} (sound : router.Sound) (table : σ) :
    (router.ledger table).Faithful ↔ router.Installed (Lawful.routes table) := by
  constructor
  · intro faithful id group stands
    have holds : ∀ holding, (∃ peer ∈ group.peers.list, holding ∈ peer.holdings) ∨
        (∃ net roster, group.services.roster? net = some roster ∧
          holding ∈ roster.holdings net) → holding.relied = true →
        Lawful.routes table holding.net = some holding.ifname := fun holding entry relied =>
      faithful holding ((router.mem_holdings_iff holding).2 ⟨id, group, stands, entry⟩) relied
    constructor
    · intro peer member active
      refine holds ⟨peer.host, peer.link.ifname, true⟩ (.inl ⟨peer, member, ?_⟩) rfl
      rw [Peer.mem_holdings_iff]
      simp [Peer.isInstalled, active]
    · intro net roster found enabled c member installed
      have here := (sound id group stands).services net roster found
      refine holds (c.holding net) (.inr ⟨net, roster, found, ?_⟩) rfl
      exact (roster.mem_holdings_iff net _).2
        ⟨enabled, c, here.1.installed?_eq member installed, rfl⟩
  · intro installed holding member relied
    obtain ⟨id, group, stands, entry⟩ := (router.mem_holdings_iff holding).1 member
    obtain ⟨peers, services⟩ := installed id group stands
    rcases entry with ⟨peer, listed, held⟩ | ⟨net, roster, found, held⟩
    · obtain ⟨-, rfl⟩ := (peer.mem_holdings_iff holding).1 held
      exact peers peer listed (by simpa using relied)
    · obtain ⟨enabled, c, carries, rfl⟩ := (roster.mem_holdings_iff net holding).1 held
      obtain ⟨listed, here⟩ := Roster.mem_of_installed? carries
      exact services net roster found enabled c listed here

theorem owns_of_owned {router : Router} {table : σ} (owned : (router.ledger table).Owned)
    {net : Prefix} {ifname : String} (routed : Lawful.routes table net = some ifname) :
    router.Owns net ifname := by
  obtain ⟨holding, member, here, same⟩ := owned net ifname routed
  obtain ⟨id, group, stands, entry⟩ := (router.mem_holdings_iff holding).1 member
  refine ⟨id, group, stands, ?_⟩
  rcases entry with ⟨peer, listed, held⟩ | ⟨other, roster, found, held⟩
  · obtain ⟨installed, rfl⟩ := (peer.mem_holdings_iff holding).1 held
    exact .inr ⟨peer, listed, installed, here, same⟩
  · obtain ⟨enabled, c, carries, rfl⟩ := (roster.mem_holdings_iff other holding).1 held
    obtain ⟨listed, installed⟩ := Roster.mem_of_installed? carries
    exact .inl ⟨roster, (show other = net from here) ▸ found, enabled, c, listed, installed, same⟩

end Router

/-! ## Runs over a table in memory -/

/-- An empty table in memory that can be made to fail, for good or a few times. -/
def Unreliable.empty : Unreliable MemoryTable := { inner := {} }

section Runs

variable (settings : RouterSettings) (ops : List (Operation (Unreliable MemoryTable)))

/-- At every moment of a run, every active peer and every installed candidate has its route,
exactly if no commit of the run gives up a route on which another entry relies. -/
theorem installed_throughout_iff (careful : ∀ op ∈ ops, op.Careful) :
    let start := Router.fresh settings Unreliable.empty
    let ledgers := start.1.ledger start.2 :: trail ops start
    ((∀ ledger ∈ ledgers, ledger.Faithful) ↔
      ledgers.IsChain fun before after => ¬ Ledger.Clash before after) ∧
    ((ledgers.IsChain fun before after => ¬ Ledger.Clash before after) →
      Throughout (fun state => state.1.Installed (Lawful.routes state.2)) ops start) := by
  intro start ledgers
  have sound : start.1.Sound := Router.sound_fresh settings
  have faithful : (start.1.ledger start.2).Faithful := fun holding member => nomatch member
  have exact_when : (∀ ledger ∈ ledgers, ledger.Faithful) ↔
      ledgers.IsChain fun before after => ¬ Ledger.Clash before after := by
    rw [← (run_leads careful sound).faithful_iff faithful]
    exact ⟨fun all ledger member => all ledger (List.mem_cons_of_mem _ member),
      fun all ledger member => (List.mem_cons.1 member).elim (fun here => here ▸ faithful) (all ledger)⟩
  refine ⟨exact_when, fun no_clash done early => ?_⟩
  obtain ⟨later, rfl⟩ := early
  have all := exact_when.2 no_clash
  have leads := run_leads (fun op member => careful op (List.mem_append_left _ member)) sound
  refine (Router.faithful_iff (run_sound settings Unreliable.empty done) _).1 (all _ ?_)
  show _ ∈ start.1.ledger start.2 :: trail (done ++ later) start
  rw [trail_append]
  exact List.mem_append_left _ leads.mem

/-- A refused route is installed by the next apply, and no commit gives up what another
entry relies on. -/
theorem installed_after_refusal :
    let peer := Sample.link "wg1" 0x0A000001#32 1 1
    Throughout (fun state => state.1.Installed (Lawful.routes state.2))
      [.add peer [peer.host, Sample.lan], .outside (·.failNext peer.host 1), .apply, .apply]
      (Router.fresh {} Unreliable.empty) := by
  refine (installed_throughout_iff {} _ ?_).2 (by decide +kernel)
  simp only [List.forall_mem_cons, Operation.Careful, true_and]
  exact ⟨fun _ => rfl, nofun⟩

/-- Every route of the table is that of a destination or a peer of the router, and the router
says so if that is not on the way out. -/
theorem owned_throughout (careful : ∀ op ∈ ops, op.Careful) :
    Throughout (fun state => ∀ net ifname,
      (Lawful.routes state.2 net = some ifname → state.1.Owns net ifname) ∧
      (state.1.Keeps net ifname → state.1.hasRoute net = true))
      ops (Router.fresh settings Unreliable.empty) := by
  intro done early net ifname
  refine ⟨fun routed => ?_, Router.hasRoute_of_keeps⟩
  have sound : (Router.fresh settings Unreliable.empty).1.Sound := Router.sound_fresh settings
  have leads := run_leads (fun op member => careful op (early.subset member)) sound
  refine Router.owns_of_owned (leads.owned fun other carrier routed => ?_) routed
  cases routed

/-- A table that refuses to withdraw a route keeps it, and the router keeps its entry. -/
theorem owned_after_refusal :
    let peer := Sample.link "wg1" 0x0A000001#32 1 1
    Throughout (fun state => ∀ net ifname,
      (Lawful.routes state.2 net = some ifname → state.1.Owns net ifname) ∧
      (state.1.Keeps net ifname → state.1.hasRoute net = true))
      [.add peer [peer.host, Sample.lan], .apply, .remove peer [peer.host, Sample.lan],
        .outside fun table => { table with inner := table.inner.failOn Sample.lan }, .apply]
      (Router.fresh {} Unreliable.empty) := by
  refine owned_throughout {} _ ?_
  simp only [List.forall_mem_cons, Operation.Careful, true_and]
  exact ⟨fun _ => rfl, nofun⟩

end Runs

/-- A destination and a peer of one group share an address and an interface; as the
destination goes, the peer loses its route and stays active. -/
theorem route_lost :
    let peer := Sample.link "wg1" 0x0A000001#32 1 1
    let other := Sample.link "wg1" 0x0A000002#32 2 1
    let state := run [.add peer [peer.host], .add other [other.host, peer.host], .apply,
      .remove other [other.host, peer.host], .apply] (Router.fresh {} Unreliable.empty)
    ¬ state.1.Installed (Lawful.routes state.2) := by
  intro peer other state installed
  have active : (state.1.groups.get? ⟨1⟩).any (fun group =>
      group.peers.list.any fun found => found.state = .active && found.link = peer) = true := by
    decide +kernel
  obtain ⟨group, stands, peers⟩ := (Option.any_eq_true _ _).1 active
  obtain ⟨found, member, here⟩ := List.any_eq_true.1 peers
  obtain ⟨relies, same⟩ : found.state = .active ∧ found.link = peer := by simpa using here
  have routed := (installed ⟨1⟩ group stands).1 found member relies
  rw [Peer.host, same] at routed
  exact absurd routed (by decide +kernel)

end OverlayRouting
