/-
# OverlayRouting.Proofs.Errand -- the three walks over the destinations, as one

Committing what is pending, following the selected gateway and withdrawing everything are one
sweep with three visits (`Services.carryOut_eq`), so what holds at the turn of a destination is
said of the visits, and what holds of a sweep once for all three errands.

Everything that a sweep leaves and reports is in the settlements of the destinations
(`Services.settled`): a look-up among them gives the roster that is left, and the statuses about
one destination are those that its own turn gave (`Services.filter_statuses_sweep`).
-/
import Mathlib.Data.List.Basic
import OverlayRouting.Proofs.Keeps

namespace OverlayRouting

set_option autoImplicit false

/-! ## What the values of a map report -/

section Maps

variable {κ α β σ : Type} [Ranked κ]

/-- Reports that name the key they come from can be sorted by it. -/
theorem SortedMap.filter_flatMap_values [DecidableEq κ] (map : SortedMap κ α) (reports : α → List β)
    (about : β → κ)
    (own : ∀ key x, map.get? key = some x → ∀ report ∈ reports x, about report = key) (key : κ) :
    (map.values.flatMap reports).filter (about · = key) = (map.get? key).elim [] reports := by
  obtain ⟨entries, increasing⟩ := map
  simp only [get?, values] at own ⊢
  induction entries with
  | nil => rfl
  | cons head rest ih =>
      obtain ⟨k, x⟩ := head
      obtain ⟨below, restIncreasing⟩ := List.pairwise_cons.1 increasing
      have here := own k x (by simp [Entries.lookup])
      have behind : ∀ other y, Entries.lookup other rest = some y → rank k < rank other :=
        fun other y found => below _ (Entries.mem_of_lookup found)
      have tail := ih restIncreasing fun other y found => own other y (by
        rw [Entries.lookup, if_neg (Nat.ne_of_lt (behind other y found))]
        exact found)
      rw [List.map_cons, List.flatMap_cons, List.filter_append, tail, Entries.lookup]
      split
      · rename_i same
        obtain rfl := rank_inj same
        have absent : Entries.lookup k rest = none := Entries.lookup_eq_none_of_below below
        rw [absent, List.filter_eq_self.2 (by simpa using here)]
        exact List.append_nil _
      · rename_i differs
        have others : ∀ report ∈ reports x, about report ≠ key := fun report member same =>
          differs (congrArg rank ((here report member).symm.trans same))
        rw [List.filter_eq_nil_iff.2 (by simpa using others), List.nil_append]

/-- Where every value reports one thing at most, and that is known from its key. -/
theorem SortedMap.flatMap_values_of_told (map : SortedMap κ α) (reports : α → List β)
    (told : κ → Option β) (each : ∀ key x, map.get? key = some x → reports x = (told key).toList) :
    map.values.flatMap reports = map.keys.filterMap told := by
  rw [values, keys, List.flatMap_map, List.filterMap_map, List.filterMap_eq_flatMap_toList]
  exact List.flatMap_congr fun entry member =>
    each entry.1 entry.2 ((map.mem_entries_iff entry.1 entry.2).1 member)

theorem SortedMap.keys_traverse (map : SortedMap κ α) (visit : κ → α → σ → β × σ) (state : σ) :
    (map.traverse visit state).1.keys = map.keys :=
  Entries.traverse_keys visit map.entries state

theorem SortedMap.keys_nodup (map : SortedMap κ α) : map.keys.Nodup := by
  rw [List.Nodup, keys, List.pairwise_map]
  exact map.increasing.imp fun less same => Nat.ne_of_lt less (congrArg rank same)

end Maps

/-! ## Statuses of one turn -/

namespace Roster

variable {σ : Type} [RoutingTable σ] (roster : Roster) (destination : Destination) (table : σ)

omit [RoutingTable σ] in
theorem destination_status (destination : Destination) (candidate : Candidate) (outcome : Outcome) :
    (destination.status candidate outcome).destination = destination.net := by
  cases outcome <;> rfl

theorem statuses_reroute (selected : Address) :
    (roster.reroute destination selected table).1.statuses = [] := by
  unfold reroute
  split
  · rfl
  · split
    · rfl
    · split <;> rfl

theorem statuses_withdraw : (roster.withdraw destination table).1.statuses = [] := by
  unfold withdraw
  split
  · rfl
  · split <;> rfl

/-- A commit reports only about the destination whose turn it is. -/
theorem destination_commit (selected : Option Address) {status : RouteStatus}
    (reported : status ∈ (roster.commit destination selected table).1.statuses) :
    status.destination = destination.net := by
  revert reported
  refine commit_cases (motive := fun made => status ∈ made.1.statuses → _) roster destination
    selected table ?_ ?_ ?_ ?_
  · exact fun _ reported => nomatch reported
  · intro _ _ _ reported
    unfold install at reported
    split at reported
    · cases reported
    · split at reported
      · split at reported <;> cases List.mem_singleton.1 reported <;> exact destination_status ..
      · split at reported <;> cases List.mem_singleton.1 reported <;> exact destination_status ..
  · intro _ _ _ reported
    rw [statuses_withdraw] at reported
    cases reported
  · intro _ _ _ reported
    unfold reconfigure at reported
    simp only at reported
    split at reported
    · simp only at reported
      split at reported
      · obtain ⟨c, -, rfl⟩ := List.mem_map.1 reported
        exact destination_status ..
      · cases reported
    · obtain ⟨c, -, rfl⟩ := List.mem_map.1 reported
      exact destination_status ..

theorem statuses_giveUp : (roster.giveUp destination table).1.statuses = [] := by
  unfold giveUp
  split
  · rfl
  · exact roster.statuses_withdraw destination table

theorem changes_giveUp : (roster.giveUp destination table).1.changes = [] := by
  unfold giveUp
  split <;> rfl

end Roster

namespace Services

/-! ## Settlements -/

section Sweeps

variable {σ : Type} (services : Services) (visit : Roster → Destination → σ → Settlement × σ)
  (table : σ)

/-- What a sweep makes of each destination. -/
def settled : SortedMap Prefix Settlement :=
  (services.rosters.traverse
    (fun net roster table => visit roster ⟨services.group, net⟩ table) table).1

theorem roster?_sweep_settled (net : Prefix) :
    (services.sweep visit table).1.services.roster? net =
      ((services.settled visit table).get? net).bind Settlement.roster := by
  simp only [sweep, roster?, SortedMap.get?_filterMap]
  rfl

theorem sweep_eq : (services.sweep visit table).1 =
    ⟨{ services with rosters := (services.settled visit table).filterMap fun _ settlement =>
        settlement.roster },
      (services.settled visit table).values.flatMap Settlement.statuses,
      (services.settled visit table).values.flatMap Settlement.changes⟩ := rfl

theorem keys_settled : (services.settled visit table).keys = services.rosters.keys :=
  SortedMap.keys_traverse _ _ _

/-- A settlement is made at some turn of a destination that stood. -/
theorem of_get?_settled {net : Prefix} {settlement : Settlement}
    (made : (services.settled visit table).get? net = some settlement) :
    ∃ roster seen, services.roster? net = some roster ∧
      settlement = (visit roster ⟨services.group, net⟩ seen).1 := by
  obtain ⟨roster, found⟩ := SortedMap.of_get?_traverse made
  obtain ⟨seen, again, -⟩ := services.rosters.traverse_turn
    (fun net roster table => visit roster ⟨services.group, net⟩ table) table found
  exact ⟨roster, seen, found, Option.some.inj (made.symm.trans again)⟩

theorem get?_settled_of_absent {net : Prefix} (absent : services.roster? net = none) :
    (services.settled visit table).get? net = none := by
  by_contra some_settled
  obtain ⟨settlement, made⟩ := Option.ne_none_iff_exists'.1 some_settled
  obtain ⟨roster, -, found, -⟩ := services.of_get?_settled visit table made
  cases absent.symm.trans found

variable {visit}

/-- What no visit reports, a sweep does not report. -/
theorem flatMap_settled_eq_nil {β : Type} (reports : Settlement → List β)
    (silent : ∀ roster destination table, reports (visit roster destination table).1 = []) :
    (services.settled visit table).values.flatMap reports = [] := by
  refine List.flatMap_eq_nil_iff.2 fun settlement member => ?_
  obtain ⟨net, made⟩ := (SortedMap.mem_values_iff _ _).1 member
  obtain ⟨roster, seen, -, rfl⟩ := services.of_get?_settled visit table made
  exact silent roster _ seen

/-- The statuses about one destination are those of its own turn. -/
theorem filter_statuses_sweep
    (own : ∀ roster destination table, ∀ status ∈ (visit roster destination table).1.statuses,
      status.destination = destination.net) (net : Prefix) :
    (services.sweep visit table).1.statuses.filter (·.destination = net) =
      ((services.settled visit table).get? net).elim [] Settlement.statuses := by
  refine SortedMap.filter_flatMap_values _ _ RouteStatus.destination ?_ net
  intro other settlement made status reported
  obtain ⟨roster, seen, -, rfl⟩ := services.of_get?_settled visit table made
  exact own roster _ seen status reported

end Sweeps

/-! ## Errands -/

/-- A walk over the destinations of a group. -/
inductive Errand where
  | commit (selected : Option Address)
  | reroute (selected : Option Address)
  | withdrawAll

section Errands

variable {σ : Type} [RoutingTable σ]

/-- What is done at the turn of a destination. -/
def Errand.visit : Errand → Roster → Destination → σ → Settlement × σ
  | .commit selected, roster, destination, table => roster.commit destination selected table
  | .reroute none, roster, _, table => ({ roster := some roster }, table)
  | .reroute (some gateway), roster, destination, table =>
      roster.reroute destination gateway table
  | .withdrawAll, roster, destination, table => roster.giveUp destination table

/-- Run an errand.  Only a commit reports statuses, and a withdrawal reports nothing. -/
def carryOut (services : Services) : Errand → σ → Swept × σ
  | .commit selected, table => services.commit selected table
  | .reroute selected, table =>
      let (changes, services, table) := services.reroute selected table
      (⟨services, [], changes⟩, table)
  | .withdrawAll, table =>
      let (services, table) := services.withdrawAll table
      (⟨services, [], []⟩, table)

/-- The three walks are one sweep with three visits. -/
theorem carryOut_eq (services : Services) (errand : Errand) (table : σ) :
    services.carryOut errand table = services.sweep errand.visit table := by
  match errand with
  | .commit selected => rfl
  | .reroute none => exact (services.sweep_still (fun _ _ _ _ => rfl) table).symm
  | .reroute (some gateway) =>
      have silent := services.flatMap_settled_eq_nil table Settlement.statuses
        fun roster destination (table : σ) => roster.statuses_reroute destination table gateway
      refine Prod.ext ?_ rfl
      change Swept.mk _ [] _ = _
      rw [← silent]
      rfl
  | .withdrawAll =>
      have quiet := services.flatMap_settled_eq_nil table Settlement.statuses
        fun roster destination (table : σ) => roster.statuses_giveUp destination table
      have silent := services.flatMap_settled_eq_nil table Settlement.changes
        fun roster destination (table : σ) => roster.changes_giveUp destination table
      refine Prod.ext ?_ rfl
      change Swept.mk _ [] [] = _
      rw [← quiet, ← silent]
      rfl

theorem Errand.destination_visit (errand : Errand) (roster : Roster) (destination : Destination)
    (table : σ) :
    ∀ status ∈ (errand.visit roster destination table).1.statuses,
      status.destination = destination.net := by
  intro status reported
  match errand with
  | .commit selected => exact roster.destination_commit destination table selected reported
  | .reroute none => cases reported
  | .reroute (some gateway) =>
      rw [visit, roster.statuses_reroute] at reported
      cases reported
  | .withdrawAll =>
      rw [visit, roster.statuses_giveUp] at reported
      cases reported

end Errands

end Services

/-- The turn of a destination in the scope keeps what the calls about it keep. -/
theorem RoutingTable.KeepsWithin.visit {σ : Type} [RoutingTable σ] {scope : Prefix → Prop}
    {holds : σ → Prop} (keeps : RoutingTable.KeepsWithin scope holds) (errand : Services.Errand)
    (roster : Roster) (destination : Destination) (table : σ) (here : scope destination.net)
    (before : holds table) : holds (errand.visit roster destination table).2 :=
  match errand with
  | .commit selected => keeps.commit roster destination table selected here before
  | .reroute none => before
  | .reroute (some gateway) => keeps.reroute roster destination table gateway here before
  | .withdrawAll => keeps.giveUp roster destination table here before

end OverlayRouting
