/-
# OverlayRouting.Proofs.Mirror -- destinations that have a table for themselves

If nobody else uses the table, the destinations of a group mirror it: each destination is
routed through the interface of its installed candidate, and nothing else is routed at all
(`Services.mirrored`).  This is so after every operation, whatever the table refuses.

A visit of one destination writes to the table what it makes of the destination, and leaves
all other routes alone (`Roster.Steps.routes_eq`).  So a sweep, which visits each destination
once, keeps the mirror (`Services.Mirrors.sweep`).  What is only written down changes no
installed candidate (`Services.carrier?_of_relaxed`).
-/
import OverlayRouting.Proofs.Installed
import OverlayRouting.Proofs.ServiceRun

namespace OverlayRouting

set_option autoImplicit false

open RoutingTable (Lawful)

/-! ## One entry with at most one route -/

/-- The holdings of an entry that has at most one route: the one to this destination, through
this interface if there is any. -/
inductive Single (net : Prefix) : Option String → List Holding → Prop
  | none : Single net none []
  | some (ifname : String) (relied : Bool) : Single net (some ifname) [⟨net, ifname, relied⟩]

theorem Single.of_mem {net : Prefix} {carrier : Option String} {before behind : List Holding}
    {holding : Holding} (single : Single net carrier (before ++ holding :: behind)) :
    carrier = .some holding.ifname ∧ holding.net = net ∧ before = [] ∧ behind = [] := by
  generalize list : before ++ holding :: behind = held at single
  cases single with
  | none => simp at list
  | some ifname relied =>
      rcases List.append_eq_singleton_iff.1 list with ⟨rfl, only⟩ | ⟨-, nothing⟩
      · cases only
        exact ⟨rfl, rfl, rfl, rfl⟩
      · cases nothing

/-- A step of an entry that knows its route writes to the table which route the entry has
afterwards, and nothing else. -/
theorem Ledger.Step.routes_eq {net : Prefix} {carrier next : Option String}
    {held left : List Holding} {routes others : Prefix → Option String}
    (step : Ledger.Step ⟨held, routes⟩ ⟨left, others⟩) (before : Single net carrier held)
    (after : Single net next left) (known : routes net = carrier) :
    others = Function.update routes net next := by
  cases step with
  | relax relaxed =>
      have same : next = carrier := by
        cases before with
        | none => cases relaxed; cases after; rfl
        | some ifname relied =>
            cases relaxed with
            | cons relaxes nobody =>
                cases nobody
                cases after
                exact congrArg Option.some relaxes.2.1
      rw [same, ← known, Function.update_eq_self]
  | attach holding free =>
      obtain ⟨rfl, rfl, -, -⟩ := after.of_mem
      rfl
  | detach holding =>
      obtain ⟨rfl, rfl, rfl, rfl⟩ := before.of_mem
      cases after
      rw [if_pos known]
  | move old new same relied =>
      obtain ⟨rfl, rfl, -, -⟩ := after.of_mem
      rfl

/-! ## One destination -/

namespace Roster

/-- The interface through which the destination is routed, as far as the roster knows. -/
def carrier? (roster : Roster) : Option String :=
  if roster.disabled then none else roster.installed?.map (·.link.ifname)

theorem carrier?_eq_some_iff (roster : Roster) (ifname : String) :
    roster.carrier? = some ifname ↔
      roster.disabled = false ∧ ∃ c, roster.installed? = some c ∧ c.link.ifname = ifname := by
  unfold carrier?
  split
  · simp_all
  · simp_all

theorem single_holdings (roster : Roster) (net : Prefix) :
    Single net roster.carrier? (roster.holdings net) := by
  unfold carrier? holdings
  split
  · exact .none
  · cases roster.installed? with
    | none => exact .none
    | some c => exact .some c.link.ifname true

end Roster

theorem Settlement.single_holdings (settlement : Settlement) (net : Prefix) :
    Single net (settlement.roster.bind Roster.carrier?) (settlement.holdings net) := by
  unfold Settlement.holdings
  cases settlement.roster with
  | none => exact .none
  | some roster =>
      simp only [Option.toList_some, List.flatMap_singleton, Option.bind_some]
      exact roster.single_holdings net

section Tables

variable {σ : Type} [RoutingTable σ] [Lawful σ]

/-- Visits of sound destinations are steps of the ledger. -/
def Roster.Steps (visit : Roster → Destination → σ → Settlement × σ) : Prop :=
  ∀ (roster : Roster), roster.Sound → ∀ destination table,
    Ledger.Step ⟨roster.holdings destination.net, Lawful.routes table⟩
      ⟨(visit roster destination table).1.holdings destination.net,
        Lawful.routes (visit roster destination table).2⟩

/-- A visit of a destination that knows its route writes to the table what is left of the
destination, and leaves all other routes alone. -/
theorem Roster.Steps.routes_eq {visit : Roster → Destination → σ → Settlement × σ}
    (steps : Steps visit) {roster : Roster} (sound : roster.Sound) (destination : Destination)
    {table : σ} (known : Lawful.routes table destination.net = roster.carrier?) :
    Lawful.routes (visit roster destination table).2 =
      Function.update (Lawful.routes table) destination.net
        ((visit roster destination table).1.roster.bind Roster.carrier?) :=
  (steps roster sound destination table).routes_eq (roster.single_holdings destination.net)
    (Settlement.single_holdings _ destination.net) known

/-! ## Sweeps -/

/-- A walk over destinations that know their routes writes to the table what is left of each,
and leaves all other routes alone. -/
theorem Entries.routes_traverse {visit : Roster → Destination → σ → Settlement × σ}
    (steps : Roster.Steps visit) (group : GroupId) {entries : List (Prefix × Roster)}
    (increasing : Increasing entries) {table : σ}
    (known : ∀ net roster, (net, roster) ∈ entries →
      roster.Sound ∧ Lawful.routes table net = roster.carrier?) (net : Prefix) :
    let walked := traverse (fun net roster table => visit roster ⟨group, net⟩ table) entries table
    Lawful.routes walked.2 net =
      if (lookup net entries).isSome
        then ((lookup net walked.1).bind Settlement.roster).bind Roster.carrier?
        else Lawful.routes table net := by
  induction entries generalizing table with
  | nil => rfl
  | cons head rest ih =>
      obtain ⟨key, roster⟩ := head
      obtain ⟨below, rest_increasing⟩ := List.pairwise_cons.1 increasing
      obtain ⟨sound, carried⟩ := known key roster List.mem_cons_self
      have here := steps.routes_eq sound ⟨group, key⟩ carried
      have known_still : ∀ other roster_behind, (other, roster_behind) ∈ rest →
          roster_behind.Sound ∧ Lawful.routes (visit roster ⟨group, key⟩ table).2 other =
            roster_behind.carrier? := by
        intro other roster_behind member
        obtain ⟨sound, known⟩ := known other roster_behind (List.mem_cons_of_mem _ member)
        have differs : other ≠ key := fun same => Nat.lt_irrefl _ (same ▸ below _ member)
        exact ⟨sound, by rw [here, Function.update_of_ne differs, known]⟩
      have others := ih rest_increasing known_still
      simp only [traverse, lookup, rank_eq_iff]
      by_cases own : key = net
      · -- the destinations behind have other keys, so they leave this route alone
        subst own
        have absent : lookup key rest = none := lookup_eq_none_of_below below
        rw [absent] at others
        rw [if_pos rfl, if_pos rfl, others, here]
        exact Function.update_self _ _ _
      · rw [if_neg own, if_neg own, others, here, Function.update_of_ne (Ne.symm own)]

end Tables

namespace Services

/-- The interface through which the destinations say that one of them is routed. -/
def carrier? (services : Services) (net : Prefix) : Option String :=
  (services.roster? net).bind Roster.carrier?

/-- The routes are those of the destinations. -/
def Mirrors (services : Services) (routes : Prefix → Option String) : Prop :=
  ∀ net, routes net = services.carrier? net

variable {σ : Type} [RoutingTable σ] [Lawful σ] {services : Services}

theorem Mirrors.sweep {visit : Roster → Destination → σ → Settlement × σ} {table : σ}
    (mirrors : services.Mirrors (Lawful.routes table)) (sound : services.Sound)
    (steps : Roster.Steps visit) :
    (services.sweep visit table).1.services.Mirrors
      (Lawful.routes (services.sweep visit table).2) := by
  intro net
  have known : ∀ net roster, (net, roster) ∈ services.rosters.entries →
      roster.Sound ∧ Lawful.routes table net = roster.carrier? := by
    intro other roster member
    have found : services.roster? other = some roster :=
      (services.rosters.mem_entries_iff other roster).1 member
    refine ⟨(sound other roster found).1, ?_⟩
    rw [mirrors other, carrier?, found, Option.bind_some]
  have walked := Entries.routes_traverse steps services.group services.rosters.increasing known net
  cases found : services.roster? net with
  | none =>
      have absent : Entries.lookup net services.rosters.entries = none := found
      obtain ⟨seen, left⟩ := services.roster?_sweep visit table net
      rw [found, Option.bind_none] at left
      rw [absent] at walked
      rw [carrier?, left]
      refine walked.trans ?_
      rw [Option.isSome_none, if_neg Bool.false_ne_true, mirrors net, carrier?, found]
  | some roster =>
      have listed : Entries.lookup net services.rosters.entries = some roster := found
      have left : (services.sweep visit table).1.services.roster? net = _ :=
        SortedMap.get?_filterMap _ _ net
      rw [listed] at walked
      rw [carrier?, left]
      exact walked

/-! ## Requests -/

omit [RoutingTable σ] [Lawful σ] in
theorem mem_holdings_iff (services : Services) (holding : Holding) :
    holding ∈ services.holdings ↔
      services.carrier? holding.net = some holding.ifname ∧ holding.relied = true := by
  constructor
  · intro member
    obtain ⟨⟨net, roster⟩, listed, held⟩ := List.mem_flatMap.1 member
    obtain ⟨enabled, c, installed, rfl⟩ := (roster.mem_holdings_iff net holding).1 held
    have found : services.roster? net = some roster :=
      (services.rosters.mem_entries_iff net roster).1 listed
    refine ⟨Option.bind_eq_some_iff.2 ⟨roster, found, ?_⟩, rfl⟩
    exact (roster.carrier?_eq_some_iff _).2 ⟨enabled, c, installed, rfl⟩
  · rintro ⟨carried, relied⟩
    obtain ⟨roster, found, carrier⟩ := Option.bind_eq_some_iff.1 carried
    obtain ⟨enabled, c, installed, same⟩ := (roster.carrier?_eq_some_iff _).1 carrier
    refine List.mem_flatMap.2 ⟨(holding.net, roster),
      (services.rosters.mem_entries_iff _ roster).2 found, ?_⟩
    refine (roster.mem_holdings_iff holding.net holding).2 ⟨enabled, c, installed, ?_⟩
    rw [Candidate.holding, same, ← relied]

omit [RoutingTable σ] [Lawful σ] in
/-- What is only written down moves no route. -/
theorem carrier?_of_relaxed {after : Services} (relaxed : Relaxed services.holdings after.holdings)
    (net : Prefix) : after.carrier? net = services.carrier? net := by
  refine Option.ext fun ifname => ⟨fun stands => ?_, fun stood => ?_⟩
  · obtain ⟨before, member, same, also, -⟩ := relaxed.exists_before
      ((after.mem_holdings_iff ⟨net, ifname, true⟩).2 ⟨stands, rfl⟩)
    rw [show net = before.net from same, show ifname = before.ifname from also]
    exact ((services.mem_holdings_iff before).1 member).1
  · obtain ⟨left, member, same, also, -⟩ := relaxed.exists_after
      ((services.mem_holdings_iff ⟨net, ifname, true⟩).2 ⟨stood, rfl⟩)
    rw [← show left.net = net from same, ← show left.ifname = ifname from also]
    exact ((after.mem_holdings_iff left).1 member).1

omit [RoutingTable σ] [Lawful σ] in
theorem Mirrors.relax {after : Services} {routes : Prefix → Option String}
    (mirrors : services.Mirrors routes) (relaxed : Relaxed services.holdings after.holdings) :
    after.Mirrors routes :=
  fun net => (mirrors net).trans (carrier?_of_relaxed relaxed net).symm

/-! ## Runs -/

theorem Operation.mirrors_step {op : Operation σ} (careful : op.Careful) {state : Services × σ}
    (sound : state.1.Sound) (mirrors : state.1.Mirrors (Lawful.routes state.2)) :
    (op.step state).1.Mirrors (Lawful.routes (op.step state).2) := by
  obtain ⟨services, table⟩ := state
  cases op with
  | add link net disabled => exact mirrors.relax (services.relaxed_add link net disabled)
  | remove link net => exact mirrors.relax (relaxed_remove sound link net)
  | enable net => exact mirrors.relax (relaxed_enable sound net)
  | commit selected =>
      exact mirrors.sweep sound fun roster sound destination table =>
        roster.commit_step sound destination selected table
  | reroute selected =>
      cases selected with
      | none => exact mirrors
      | some gateway =>
          exact mirrors.sweep sound fun roster sound destination table =>
            roster.reroute_step sound destination gateway table
  | withdrawAll =>
      exact mirrors.sweep sound fun roster _ destination table =>
        roster.giveUp_step destination table
  | flush => exact careful.elim
  | close => exact careful.elim
  | outside change =>
      intro net
      simp only [step]
      rw [careful table]
      exact mirrors net

/-- Destinations that mirror their table go on mirroring it. -/
theorem mirrors_run {ops : List (Operation σ)} (careful : ∀ op ∈ ops, op.Careful)
    {start : Services × σ} (sound : start.1.Sound)
    (mirrors : start.1.Mirrors (Lawful.routes start.2)) :
    (run ops start).1.Mirrors (Lawful.routes (run ops start).2) := by
  have kept := run_induction
    (motive := fun state => state.1.Sound ∧ state.1.Mirrors (Lawful.routes state.2)) ops
    ⟨sound, mirrors⟩ fun op member state before =>
      ⟨op.sound_step before.1, op.mirrors_step (careful op member) before.1 before.2⟩
  exact kept.2

/-- The table of a run routes a destination through an interface exactly if the destination is
enabled and the interface is that of its installed candidate. -/
theorem mirrored (group : GroupId) (ops : List (Operation (Unreliable MemoryTable)))
    (careful : ∀ op ∈ ops, op.Careful) :
    let state := run ops ({ group }, Unreliable.empty)
    ∀ net ifname, Lawful.routes state.2 net = some ifname ↔
      ∃ roster, state.1.roster? net = some roster ∧ roster.disabled = false ∧
        ∃ c, roster.installed? = some c ∧ c.link.ifname = ifname := by
  intro state net ifname
  have mirrors : state.1.Mirrors (Lawful.routes state.2) :=
    mirrors_run careful (sound_new group) fun _ => rfl
  rw [mirrors net, carrier?, Option.bind_eq_some_iff]
  exact exists_congr fun roster => and_congr_right fun _ => roster.carrier?_eq_some_iff ifname

/-- A route that was refused is installed later, moves, and stays when its withdrawal is
refused, and the destination goes with it. -/
theorem mirrored_after_refusals :
    let first := Sample.link "wg1" 0x0A000001#32 1 1
    let second := Sample.link "wg2" 0x0A000002#32 2 1
    let refusing (table : Unreliable MemoryTable) : Unreliable MemoryTable :=
      { table with inner := table.inner.failOn Sample.lan }
    let state := run [.add first Sample.lan false, .outside (·.failNext Sample.lan 1), .commit none,
      .commit none, .add second Sample.lan false, .commit (some second.gateway),
      .outside refusing, .withdrawAll] ({ group := ⟨1⟩ }, Unreliable.empty)
    (∀ net ifname, Lawful.routes state.2 net = some ifname ↔
      ∃ roster, state.1.roster? net = some roster ∧ roster.disabled = false ∧
        ∃ c, roster.installed? = some c ∧ c.link.ifname = ifname) ∧
    Lawful.routes state.2 Sample.lan = some "wg2" := by
  intro first second refusing state
  refine ⟨mirrored ⟨1⟩ _ ?_, by decide +kernel⟩
  simp only [List.forall_mem_cons, Operation.Careful, true_and]
  exact ⟨fun _ => rfl, fun _ => rfl, nofun⟩

end Services

end OverlayRouting
