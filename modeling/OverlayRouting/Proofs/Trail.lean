/-
# OverlayRouting.Proofs.Trail -- the ledgers along a run

A walk settles one entry after the other, and each is a step of the ledger in which those
before it are settled and those behind are not (`visitAll_leads`).  Put together over the
peers and destinations of a group, over the groups of a pass, the passes of an apply and
the operations of a run, this gives the trail of the run: the ledger after every single
commit, and after every operation.

The trail leads from each ledger to the next by steps, and from the state in which the run
starts to the one in which it ends (`run_leads`).
-/
import OverlayRouting.Proofs.Holdings

namespace OverlayRouting

set_option autoImplicit false

open RoutingTable (Lawful)

/-! ## Walks over lists -/

section Walks

variable {α β σ : Type}

/-- Visit the members of a list in order, handing a state along. -/
def visitAll (visit : α → σ → β × σ) : List α → σ → List β × σ
  | [], state => ([], state)
  | x :: rest, state =>
      let here := visit x state
      let others := visitAll visit rest here.2
      (here.1 :: others.1, others.2)

theorem settleAll_eq [RoutingTable σ] (list : List Peer) (table : σ) :
    Peers.settleAll list table = visitAll Peers.settle list table := by
  induction list generalizing table with
  | nil => rfl
  | cons peer rest ih => simp only [Peers.settleAll, visitAll, ih]

/-- A visit of a value as one of an entry. -/
def onEntry {κ : Type} (visit : κ → α → σ → β × σ) (entry : κ × α) (state : σ) : (κ × β) × σ :=
  let here := visit entry.1 entry.2 state
  ((entry.1, here.1), here.2)

theorem traverse_eq {κ : Type} (visit : κ → α → σ → β × σ) (entries : List (κ × α)) (state : σ) :
    Entries.traverse visit entries state = visitAll (onEntry visit) entries state := by
  induction entries generalizing state with
  | nil => rfl
  | cons head rest ih => simp only [Entries.traverse, visitAll, onEntry, ih]

/-- Whatever a walk makes, it makes at the turn of some member, after those before it. -/
theorem visitAll_split {visit : α → σ → β × σ} {list : List α} {state : σ} {made : β}
    (member : made ∈ (visitAll visit list state).1) :
    ∃ before x behind, list = before ++ x :: behind ∧
      made = (visit x (visitAll visit before state).2).1 := by
  induction list generalizing state with
  | nil => cases member
  | cons x rest ih =>
      rcases List.mem_cons.1 member with here | later
      · exact ⟨[], x, rest, rfl, here⟩
      · obtain ⟨before, y, behind, rfl, made_there⟩ := ih later
        exact ⟨x :: before, y, behind, rfl, made_there⟩

end Walks

/-! ## Chains of steps -/

namespace Ledger

/-- The trail leads by steps from one ledger to another, in which it ends. -/
inductive Leads : Ledger → List Ledger → Ledger → Prop
  | done (ledger : Ledger) : Leads ledger [] ledger
  | step {first next last : Ledger} {trail : List Ledger} (here : Step first next)
      (others : Leads next trail last) : Leads first (next :: trail) last

theorem Leads.one {first last : Ledger} (here : Step first last) : Leads first [last] last :=
  .step here (.done last)

theorem Leads.append {first middle last : Ledger} {one two : List Ledger}
    (begun : Leads first one middle) (ended : Leads middle two last) :
    Leads first (one ++ two) last := by
  induction begun with
  | done => exact ended
  | step here others ih => exact .step here (ih ended)

theorem Leads.beside {first last : Ledger} {trail : List Ledger} (leads : Leads first trail last)
    (before behind : List Holding) :
    Leads (first.beside before behind) (trail.map (Ledger.beside before behind))
      (last.beside before behind) := by
  induction leads with
  | done => exact .done _
  | step here others ih => exact .step (here.beside before behind) ih

theorem beside_ahead (ahead held : List Holding) (routes : Prefix → Option String) :
    Ledger.beside ahead [] ⟨held, routes⟩ = ⟨ahead ++ held, routes⟩ := by
  simp only [Ledger.beside, List.append_nil]

theorem Leads.behind {first last : List Holding} {routes others : Prefix → Option String}
    {trail : List Ledger} (leads : Leads ⟨first, routes⟩ trail ⟨last, others⟩)
    (more : List Holding) :
    Leads ⟨first ++ more, routes⟩ (trail.map (Ledger.beside [] more)) ⟨last ++ more, others⟩ :=
  leads.beside [] more

theorem Leads.ahead {first last : List Holding} {routes others : Prefix → Option String}
    {trail : List Ledger} (leads : Leads ⟨first, routes⟩ trail ⟨last, others⟩)
    (more : List Holding) :
    Leads ⟨more ++ first, routes⟩ (trail.map (Ledger.beside more [])) ⟨more ++ last, others⟩ := by
  rw [← beside_ahead, ← beside_ahead]
  exact leads.beside more []

theorem Leads.owned {first last : Ledger} {trail : List Ledger} (leads : Leads first trail last)
    (owned : first.Owned) : last.Owned := by
  induction leads with
  | done => exact owned
  | step here others ih => exact ih (here.owned owned)

/-- The trail ends in the last ledger. -/
theorem Leads.mem {first last : Ledger} {trail : List Ledger} (leads : Leads first trail last) :
    last ∈ first :: trail := by
  induction leads with
  | done => exact List.mem_cons_self
  | step here others ih => exact List.mem_cons_of_mem _ ih

/-- The ledgers of a trail are right about the routes exactly as long as no step takes the
route of another entry away. -/
theorem Leads.faithful_iff {first last : Ledger} {trail : List Ledger}
    (leads : Leads first trail last) (faithful : first.Faithful) :
    (∀ ledger ∈ trail, ledger.Faithful) ↔
      (first :: trail).IsChain fun before after => ¬ Clash before after := by
  induction leads with
  | done => simp
  | step here others ih =>
      rw [List.isChain_cons_cons, ← here.faithful_iff faithful]
      constructor
      · intro all
        have next := all _ List.mem_cons_self
        exact ⟨next, (ih next).1 fun ledger member => all ledger (List.mem_cons_of_mem _ member)⟩
      · rintro ⟨next, chain⟩ ledger member
        rcases List.mem_cons.1 member with rfl | behind
        · exact next
        · exact (ih next).2 chain ledger behind

end Ledger

/-! ## Trails of walks -/

section Trails

variable {α β σ : Type} [RoutingTable σ] [Lawful σ]

/-- The ledgers of a walk, given those of its visits: while a member is visited, those
before it are settled and those behind are not. -/
def walkTrail (visit : α → σ → β × σ) (before : α → List Holding) (after : β → List Holding)
    (within : α → σ → List Ledger) : List α → σ → List Ledger
  | [], _ => []
  | x :: rest, table =>
      let here := visit x table
      (within x table).map (Ledger.beside [] (rest.flatMap before)) ++
        (walkTrail visit before after within rest here.2).map (Ledger.beside (after here.1) [])

theorem visitAll_leads (visit : α → σ → β × σ) (before : α → List Holding)
    (after : β → List Holding) (within : α → σ → List Ledger) (list : List α) (table : σ)
    (each : ∀ x ∈ list, ∀ table, Ledger.Leads ⟨before x, Lawful.routes table⟩ (within x table)
      ⟨after (visit x table).1, Lawful.routes (visit x table).2⟩) :
    Ledger.Leads ⟨list.flatMap before, Lawful.routes table⟩
      (walkTrail visit before after within list table)
      ⟨(visitAll visit list table).1.flatMap after,
        Lawful.routes (visitAll visit list table).2⟩ := by
  induction list generalizing table with
  | nil => exact .done _
  | cons x rest ih =>
      have others := ih (visit x table).2 fun y member => each y (List.mem_cons_of_mem _ member)
      exact ((each x List.mem_cons_self table).behind _).append (others.ahead _)

/-- At the turn of a member every route has a holder: one that is not concerned, a member
that was settled before, or one that is not settled yet. -/
theorem owned_turn (visit : α → σ → β × σ) (before : α → List Holding) (after : β → List Holding)
    (within : α → σ → List Ledger) {first second : List α} {table : σ} {ahead behind : List Holding}
    (each : ∀ x ∈ first, ∀ table, Ledger.Leads ⟨before x, Lawful.routes table⟩ (within x table)
      ⟨after (visit x table).1, Lawful.routes (visit x table).2⟩)
    (owned : Ledger.Owned
      ⟨ahead ++ (first ++ second).flatMap before ++ behind, Lawful.routes table⟩) :
    Ledger.Owned ⟨ahead ++ ((visitAll visit first table).1.flatMap after ++
      second.flatMap before) ++ behind, Lawful.routes (visitAll visit first table).2⟩ := by
  rw [List.flatMap_append] at owned
  have leads := (visitAll_leads visit before after within first table each).behind
    (second.flatMap before)
  exact (leads.beside ahead behind).owned owned

namespace Peers

/-- The ledgers of a commit of the peers. -/
def trail (peers : Peers) (table : σ) : List Ledger :=
  walkTrail settle Peer.holdings Settled.holdings
    (fun peer table => let settled := settle peer table
      [⟨settled.1.holdings, Lawful.routes settled.2⟩]) peers.list table

theorem commit_leads (peers : Peers) (table : σ) :
    Ledger.Leads ⟨peers.holdings, Lawful.routes table⟩ (peers.trail table)
      ⟨(peers.commit table).2.1.holdings, Lawful.routes (peers.commit table).2.2⟩ := by
  have leads := visitAll_leads settle Peer.holdings Settled.holdings _ peers.list table
    fun peer _ table => .one (settle_step peer table)
  rw [← settleAll_eq] at leads
  simp only [commit, holdings, flatMap_filterMap]
  exact leads

end Peers

namespace Services

/-- The ledgers of a walk over the destinations. -/
def trail (services : Services) (visit : Roster → Destination → σ → Settlement × σ) (table : σ) :
    List Ledger :=
  let settle := onEntry fun net roster table => visit roster ⟨services.group, net⟩ table
  walkTrail settle (fun entry => entry.2.holdings entry.1)
    (fun entry : Prefix × Settlement => entry.2.holdings entry.1)
    (fun entry table => [⟨(settle entry table).1.2.holdings entry.1,
      Lawful.routes (settle entry table).2⟩])
    services.rosters.entries table

theorem sweep_leads {services : Services} (sound : services.Sound)
    {visit : Roster → Destination → σ → Settlement × σ} (table : σ)
    (each : ∀ (roster : Roster), roster.Sound → ∀ destination table,
      Ledger.Step ⟨roster.holdings destination.net, Lawful.routes table⟩
        ⟨(visit roster destination table).1.holdings destination.net,
          Lawful.routes (visit roster destination table).2⟩) :
    Ledger.Leads ⟨services.holdings, Lawful.routes table⟩ (services.trail visit table)
      ⟨(services.sweep visit table).1.services.holdings,
        Lawful.routes (services.sweep visit table).2⟩ := by
  have leads := visitAll_leads
    (onEntry fun net roster table => visit roster ⟨services.group, net⟩ table)
    (fun entry => entry.2.holdings entry.1)
    (fun entry : Prefix × Settlement => entry.2.holdings entry.1) _
    services.rosters.entries table fun entry member table =>
      have found := (services.rosters.mem_entries_iff entry.1 entry.2).1 member
      .one (each entry.2 (sound entry.1 entry.2 found).1 ⟨services.group, entry.1⟩ table)
  rw [← traverse_eq] at leads
  simp only [sweep, holdings, SortedMap.flatMap_filterMap]
  exact leads

end Services

namespace Group

/-- The ledgers of a commit of the group. -/
def commitTrail (group : Group) (table : σ) : List Ledger :=
  let peers := group.settledPeers table
  let swept := group.sweptServices table
  let commit roster destination := Roster.commit roster destination (group.selectedGateway table)
  (group.peers.trail table).map (Ledger.beside [] group.services.holdings) ++
  (group.services.trail commit (group.peers.commit table).2.2).map
    (Ledger.beside peers.holdings []) ++
  if peers.isEmpty then
    (swept.1.services.trail Roster.giveUp swept.2).map (Ledger.beside peers.holdings [])
  else []

theorem commit_leads {group : Group} (sound : group.Sound) (table : σ) :
    Ledger.Leads ⟨group.holdings, Lawful.routes table⟩ (group.commitTrail table)
      ⟨(group.commit table).1.holdings, Lawful.routes (group.commit table).2⟩ := by
  have same : (group.settledPeers table).holdings = (group.peers.commit table).2.1.holdings :=
    Peers.holdings_select _
  have peers := (group.peers.commit_leads table).behind group.services.holdings
  rw [← same] at peers
  have swept : Ledger.Leads _ _ ⟨(group.sweptServices table).1.services.holdings,
      Lawful.routes (group.sweptServices table).2⟩ :=
    Services.sweep_leads sound.services (group.peers.commit table).2.2
      fun roster sound destination seen =>
        roster.commit_step sound destination (group.selectedGateway table) seen
  have swept_sound : (group.sweptServices table).1.services.Sound :=
    sound.services.sweep _ fun roster destination table => roster.commit_after destination _ table
  have both := peers.append (swept.ahead (group.settledPeers table).holdings)
  rw [commit_eq, commitTrail]
  simp only
  by_cases nobody : (group.settledPeers table).isEmpty
  · rw [if_pos nobody, if_pos nobody]
    have withdrawn := Services.sweep_leads swept_sound (group.sweptServices table).2
      fun roster _ destination table => roster.giveUp_step destination table
    have all := both.append (withdrawn.ahead (group.settledPeers table).holdings)
    have gone : (group.settledPeers table).holdings = [] := by
      rw [Peers.holdings, List.isEmpty_iff.1 nobody]
      rfl
    have kept : ∀ services : Services, List.flatMap Group.holdings
        (if services.isEmpty then none else some ⟨group.settledPeers table, services⟩ :
          Option Group).toList = (group.settledPeers table).holdings ++ services.holdings := by
      intro services
      split
      · rename_i nothing
        rw [gone, Services.holdings, List.isEmpty_iff.1 nothing]
        rfl
      · simp [Group.holdings]
    simp only [Settled.holdings, kept]
    exact all
  · rw [if_neg nobody, if_neg nobody, List.append_nil]
    simp only [Settled.holdings, Option.toList_some, List.flatMap_singleton]
    exact both

/-- The ledgers of a probe round. -/
def pingTrail (group : Group) (tallies : Tallies) (table : σ) : List Ledger :=
  let peers := (group.peers.ping tallies).select.2
  match (group.peers.ping tallies).select.1 with
  | none => []
  | some peer =>
      let reroute roster destination := Roster.reroute roster destination peer.gateway
      (group.services.trail reroute table).map (Ledger.beside peers.holdings [])

theorem ping_leads {group : Group} (sound : group.Sound) (tallies : Tallies) (table : σ) :
    Ledger.Leads ⟨group.holdings, Lawful.routes table⟩ (group.pingTrail tallies table)
      ⟨(group.ping tallies table).1.holdings, Lawful.routes (group.ping tallies table).2⟩ := by
  have same : (group.peers.ping tallies).select.2.holdings = group.peers.holdings := by
    rw [Peers.holdings_select, Peers.holdings_ping]
  unfold pingTrail ping Services.reroute
  generalize (group.peers.ping tallies).select = chosen at same
  obtain ⟨selected, peers⟩ := chosen
  simp only at same ⊢
  cases selected with
  | none =>
      simp only [Settled.holdings, Option.toList_some, List.flatMap_singleton, Group.holdings, same,
        Option.map_none]
      exact .done _
  | some peer =>
      have swept := Services.sweep_leads sound.services table
        fun roster sound destination table => roster.reroute_step sound destination peer.gateway table
      have leads := swept.ahead peers.holdings
      simpa only [Settled.holdings, Option.toList_some, List.flatMap_singleton, Group.holdings, same,
        Option.map_some] using leads

end Group

namespace Router

/-- The ledgers of a walk over the groups. -/
def walkTrail (router : Router) (visit : Group → σ → Group.Settled × σ)
    (within : Group → σ → List Ledger) (table : σ) : List Ledger :=
  OverlayRouting.walkTrail (onEntry fun _ group table => visit group table)
    (fun entry => entry.2.holdings) (fun entry : GroupId × Group.Settled => entry.2.holdings)
    (fun entry table => within entry.2 table) router.groups.entries table

theorem walk_leads {router : Router} (sound : router.Sound)
    {visit : Group → σ → Group.Settled × σ} {within : Group → σ → List Ledger} (table : σ)
    (each : ∀ (group : Group), group.Sound → ∀ table,
      Ledger.Leads ⟨group.holdings, Lawful.routes table⟩ (within group table)
        ⟨(visit group table).1.holdings, Lawful.routes (visit group table).2⟩) :
    Ledger.Leads ⟨router.holdings, Lawful.routes table⟩ (router.walkTrail visit within table)
      ⟨(router.walk visit table).1.router.holdings, Lawful.routes (router.walk visit table).2⟩ := by
  have leads := visitAll_leads (onEntry fun _ group table => visit group table)
    (fun entry => entry.2.holdings) (fun entry : GroupId × Group.Settled => entry.2.holdings)
    (fun entry table => within entry.2 table) router.groups.entries table
    fun entry member table =>
      each entry.2 (sound entry.1 entry.2 ((router.groups.mem_entries_iff _ _).1 member)) table
  rw [← traverse_eq] at leads
  simp only [walk, holdings]
  rw [SortedMap.flatMap_filterMap _ _ fun _ => Group.holdings]
  exact leads

/-- The ledger of a router over a table. -/
def ledger (router : Router) (table : σ) : Ledger := ⟨router.holdings, Lawful.routes table⟩

/-- The ledgers of at most `fuel` passes: those of the commits of a pass, and the one after
its resolution. -/
def passesTrail : Nat → Router → σ → List Ledger
  | 0, _, _ => []
  | fuel + 1, router, table =>
      let (walked, left) := router.commitOnce table
      let (resolved, after) := walked.router.resolve
      router.walkTrail Group.commit Group.commitTrail table ++ after.ledger left ::
        if resolved = 0 then [] else passesTrail fuel after left

theorem passes_lead {router : Router} (sound : router.Sound) (fuel : Nat) (report : Report)
    (table : σ) :
    Ledger.Leads (router.ledger table) (passesTrail fuel router table)
      ((commitPasses fuel report router table).2.1.ledger
        (commitPasses fuel report router table).2.2) := by
  induction fuel generalizing report router table with
  | zero => exact .done _
  | succ fuel ih =>
      have walked := walk_leads sound table fun group sound table => group.commit_leads sound table
      have walked_sound := sound.commitOnce table
      have resolved : Ledger.Step
          ((router.commitOnce table).1.router.ledger (router.commitOnce table).2) _ :=
        .relax (relaxed_resolve walked_sound)
      simp only [commitPasses, passesTrail]
      split
      · exact walked.append (.one resolved)
      · exact walked.append (.step resolved (ih walked_sound.resolve _ _))

end Router

/-! ## Trails of runs -/

namespace Operation

/-- The operation keeps the books: it does not forget installed routes, and only the router
changes them. -/
def Careful : Operation σ → Prop
  | .flush => False
  | .close => False
  | .outside change => ∀ table, Lawful.routes (change table) = Lawful.routes table
  | _ => True

/-- The ledgers of an operation: those of its commits, and the one after it. -/
def trail (op : Operation σ) (state : Router × σ) : List Ledger :=
  let commits := match op with
    | .apply => Router.passesTrail Router.mostPasses state.1 state.2
    | .ping tallies =>
        state.1.walkTrail (·.ping tallies) (·.pingTrail tallies) state.2
    | _ => []
  commits ++ [(op.step state).1.ledger (op.step state).2]

theorem leads {op : Operation σ} (careful : op.Careful) {state : Router × σ}
    (sound : state.1.Sound) :
    Ledger.Leads (state.1.ledger state.2) (op.trail state)
      ((op.step state).1.ledger (op.step state).2) := by
  obtain ⟨router, table⟩ := state
  have written : ∀ after : Router, Relaxed router.holdings after.holdings →
      Ledger.Leads (router.ledger table) [after.ledger table] (after.ledger table) :=
    fun after relaxed => .one (.relax relaxed)
  cases op with
  | add link nets => exact written _ (router.relaxed_request link nets)
  | remove link nets => exact written _ (Router.relaxed_remove sound link nets)
  | apply => exact (Router.passes_lead sound Router.mostPasses {} table).append (.one (.refl _))
  | ping tallies =>
      exact (Router.walk_leads sound table fun group sound table =>
        group.ping_leads sound tallies table).append (.one (.refl _))
  | setMargins margins => exact written _ (.of_eq (router.holdings_setMargins margins).symm)
  | flush => exact careful.elim
  | close => exact careful.elim
  | outside change =>
      have same : router.ledger (change table) = router.ledger table := by
        rw [Router.ledger, careful table]
        rfl
      simp only [trail, step, same, List.nil_append]
      exact .one (.refl _)

end Operation

/-- The ledgers of a run, one after every single commit and after every operation. -/
def trail : List (Operation σ) → Router × σ → List Ledger
  | [], _ => []
  | op :: ops, state => op.trail state ++ trail ops (op.step state)

theorem run_leads {ops : List (Operation σ)} (careful : ∀ op ∈ ops, op.Careful)
    {state : Router × σ} (sound : state.1.Sound) :
    Ledger.Leads (state.1.ledger state.2) (trail ops state)
      ((run ops state).1.ledger (run ops state).2) := by
  induction ops generalizing state with
  | nil => exact .done _
  | cons op rest ih =>
      exact (op.leads (careful op List.mem_cons_self) sound).append
        (ih (fun other member => careful other (List.mem_cons_of_mem _ member)) (op.sound_step sound))

/-- The trail of the beginning of a run is the beginning of its trail. -/
theorem trail_append (first second : List (Operation σ)) (state : Router × σ) :
    trail (first ++ second) state = trail first state ++ trail second (run first state) := by
  induction first generalizing state with
  | nil => rfl
  | cons op rest ih => simp only [List.cons_append, trail, ih, run_cons, List.append_assoc]

end Trails

end OverlayRouting
