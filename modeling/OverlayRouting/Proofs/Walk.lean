/-
# OverlayRouting.Proofs.Walk -- what a walk leaves at each key

A walk hands a state from entry to entry, so what it makes of one entry may depend
on those before it.  A look-up need not care: behind a key stands what the visit made
of the value there, in some state, which has what every visit keeps
(`get?_traverse_within`).  From this follow the destinations after a sweep
(`Services.roster?_sweep`), the groups after a walk (`Router.get?_walk`) and the peers
after a commit (`Peers.mem_commit`).

Where it counts in which state that is, `SortedMap.turnOf` gives it, and `SortedMap.keeps_turn`
says what happens before and after the turn of an entry, for anything that the visits of the other
entries keep.

Where the order counts, a walk over two lists is the walk over the first and then
over the second (`Entries.traverse_append`).
-/
import Mathlib.Tactic.Common
import OverlayRouting.Router.Apply

namespace OverlayRouting

set_option autoImplicit false

/-! ## Maps -/

section Maps

variable {κ α β σ : Type} [Ranked κ]

namespace Entries

/-- The state that a visit sees has what every visit keeps. -/
theorem lookup_traverse_within {holds : σ → Prop} {visit : κ → α → σ → β × σ}
    (keeps : ∀ key x state, holds state → holds (visit key x state).2) (key : κ)
    (entries : List (κ × α)) {state : σ} (begins : holds state) :
    ∃ seen, holds seen ∧ lookup key (traverse visit entries state).1 =
      (lookup key entries).map fun x => (visit key x seen).1 := by
  induction entries generalizing state with
  | nil => exact ⟨state, begins, rfl⟩
  | cons head rest ih =>
      obtain ⟨k, x⟩ := head
      by_cases here : rank k = rank key
      · cases rank_inj here
        exact ⟨state, begins, by simp [traverse, lookup]⟩
      · obtain ⟨seen, kept, found⟩ := ih (keeps k x state begins)
        exact ⟨seen, kept, by simpa [traverse, lookup, here] using found⟩

omit [Ranked κ] in
/-- What the visit of each entry keeps, a walk keeps. -/
theorem traverse_keeps_of_mem {holds : σ → Prop} {visit : κ → α → σ → β × σ}
    (entries : List (κ × α)) (state : σ) (before : holds state)
    (each : ∀ entry ∈ entries, ∀ state, holds state → holds (visit entry.1 entry.2 state).2) :
    holds (traverse visit entries state).2 := by
  induction entries generalizing state with
  | nil => exact before
  | cons head rest ih =>
      exact ih _ (each head List.mem_cons_self state before)
        fun entry member => each entry (List.mem_cons_of_mem _ member)

omit [Ranked κ] in
/-- What every visit keeps, a walk keeps. -/
theorem traverse_keeps {holds : σ → Prop} {visit : κ → α → σ → β × σ} (entries : List (κ × α))
    (state : σ) (before : holds state)
    (each : ∀ key x state, holds state → holds (visit key x state).2) :
    holds (traverse visit entries state).2 :=
  traverse_keeps_of_mem entries state before fun entry _ => each entry.1 entry.2

/-- The state that the visit of a key sees: that after the visits of the smaller keys. -/
def turnOf (visit : κ → α → σ → β × σ) (key : κ) (entries : List (κ × α)) (state : σ) : σ :=
  (traverse visit (entries.takeWhile fun entry => rank entry.1 < rank key) state).2

theorem turnOf_cons_self (visit : κ → α → σ → β × σ) (key : κ) (x : α) (rest : List (κ × α))
    (state : σ) : turnOf visit key ((key, x) :: rest) state = state := by
  simp [turnOf, traverse]

theorem turnOf_cons_of_lt (visit : κ → α → σ → β × σ) {key k : κ} (before : rank k < rank key) (x : α)
    (rest : List (κ × α)) (state : σ) :
    turnOf visit key ((k, x) :: rest) state = turnOf visit key rest (visit k x state).2 := by
  simp [turnOf, traverse, before]

/-- At a key stands what the visit made of the value there at its turn. -/
theorem lookup_traverse_turn (visit : κ → α → σ → β × σ) (key : κ) {entries : List (κ × α)}
    (increasing : Increasing entries) (state : σ) :
    lookup key (traverse visit entries state).1 =
      (lookup key entries).map fun x => (visit key x (turnOf visit key entries state)).1 := by
  induction entries generalizing state with
  | nil => rfl
  | cons head rest ih =>
      obtain ⟨k, x⟩ := head
      obtain ⟨below, increasing⟩ := List.pairwise_cons.1 increasing
      rcases Nat.lt_trichotomy (rank k) (rank key) with before | here | behind
      · rw [turnOf_cons_of_lt visit before]
        simp only [traverse, lookup, Nat.ne_of_lt before, if_false]
        exact ih increasing _
      · obtain rfl := rank_inj here
        rw [turnOf_cons_self]
        simp [traverse, lookup]
      · have absent : lookup key rest = none := lookup_eq_none_of_below fun entry member =>
          Nat.lt_trans behind (below entry member)
        have others := ih increasing (visit k x state).2
        simp only [traverse, lookup, Nat.ne_of_gt behind, if_false, others, absent, Option.map_none]

/-- What the visits of the others keep holds at the turn of an entry if it held before, and at
the end if it holds after the turn. -/
theorem traverse_turn {holds : σ → Prop} {visit : κ → α → σ → β × σ} {key : κ} {x : α}
    {entries : List (κ × α)} (increasing : Increasing entries) (found : lookup key entries = some x)
    (others : ∀ entry ∈ entries, entry.1 ≠ key → ∀ state, holds state →
      holds (visit entry.1 entry.2 state).2) (state : σ) :
    let seen := turnOf visit key entries state
    (holds state → holds seen) ∧
      (holds (visit key x seen).2 → holds (traverse visit entries state).2) := by
  induction entries generalizing state with
  | nil => cases found
  | cons head rest ih =>
      obtain ⟨k, y⟩ := head
      obtain ⟨behind, increasing⟩ := List.pairwise_cons.1 increasing
      by_cases here : rank k = rank key
      · obtain rfl := rank_inj here
        obtain rfl : y = x := by simpa [lookup] using found
        rw [turnOf_cons_self]
        refine ⟨id, fun after => traverse_keeps_of_mem rest _ after fun entry member => ?_⟩
        refine others entry (List.mem_cons_of_mem _ member) fun same => ?_
        exact Nat.ne_of_lt (behind entry member) (congrArg rank same.symm)
      · have found : lookup key rest = some x := by simpa [lookup, here] using found
        rw [turnOf_cons_of_lt visit (behind _ (mem_of_lookup found))]
        obtain ⟨before, after⟩ := ih increasing found
          (fun entry member => others entry (List.mem_cons_of_mem _ member)) (visit k y state).2
        exact ⟨fun begins => before (others (k, y) List.mem_cons_self
          (fun same => here (congrArg rank same)) state begins), after⟩

/-- What is seen of the state after a walk is what was seen before it, or after the last turn that
changed it. -/
theorem last_turn {γ : Type} (visit : κ → α → σ → β × σ) (sight : σ → γ) {entries : List (κ × α)}
    (increasing : Increasing entries) (state : σ) :
    let left := sight (traverse visit entries state).2
    left = sight state ∨ ∃ key x, lookup key entries = some x ∧
      let seen := turnOf visit key entries state
      left = sight (visit key x seen).2 ∧ left ≠ sight seen := by
  induction entries generalizing state with
  | nil => exact .inl rfl
  | cons head rest ih =>
      obtain ⟨k, x⟩ := head
      obtain ⟨below, increasing⟩ := List.pairwise_cons.1 increasing
      rcases ih increasing (visit k x state).2 with same | ⟨key, y, found, left, changed⟩
      · by_cases still : sight (visit k x state).2 = sight state
        · exact .inl (same.trans still)
        · refine .inr ⟨k, x, by simp [lookup], ?_⟩
          rw [turnOf_cons_self]
          exact ⟨same, fun back => still (same.symm.trans back)⟩
      · have before := below _ (mem_of_lookup found)
        refine .inr ⟨key, y, ?_, ?_⟩
        · rw [lookup, if_neg (Nat.ne_of_lt before)]
          exact found
        · rw [turnOf_cons_of_lt visit before]
          exact ⟨left, changed⟩

omit [Ranked κ] in
theorem traverse_append (visit : κ → α → σ → β × σ) (first second : List (κ × α)) (state : σ) :
    traverse visit (first ++ second) state =
      let begun := traverse visit first state
      let ended := traverse visit second begun.2
      (begun.1 ++ ended.1, ended.2) := by
  induction first generalizing state with
  | nil => rfl
  | cons head rest ih =>
      simp only [List.cons_append, traverse, ih]

end Entries

namespace SortedMap

theorem get?_traverse_within {holds : σ → Prop} (map : SortedMap κ α)
    {visit : κ → α → σ → β × σ}
    (keeps : ∀ key x state, holds state → holds (visit key x state).2) {state : σ}
    (begins : holds state) (key : κ) :
    ∃ seen, holds seen ∧ (map.traverse visit state).1.get? key =
      (map.get? key).map fun x => (visit key x seen).1 :=
  Entries.lookup_traverse_within keeps key map.entries begins

theorem of_get?_traverse {map : SortedMap κ α} {visit : κ → α → σ → β × σ} {state : σ} {key : κ}
    {made : β} (stands : (map.traverse visit state).1.get? key = some made) :
    ∃ x, map.get? key = some x := by
  obtain ⟨seen, -, walked⟩ : ∃ seen, True ∧ (map.traverse visit state).1.get? key =
      (map.get? key).map fun x => (visit key x seen).1 :=
    map.get?_traverse_within (fun _ _ _ _ => trivial) trivial key
  obtain ⟨x, found, -⟩ := Option.map_eq_some_iff.1 (walked.symm.trans stands)
  exact ⟨x, found⟩

theorem mem_values_iff (map : SortedMap κ α) (x : α) :
    x ∈ map.values ↔ ∃ key, map.get? key = some x := by
  simp only [values, List.mem_map, Prod.exists, exists_eq_right, mem_entries_iff]

/-- The state that the visit of a key sees. -/
def turnOf (map : SortedMap κ α) (visit : κ → α → σ → β × σ) (key : κ) (state : σ) : σ :=
  Entries.turnOf visit key map.entries state

theorem get?_traverse_turn (map : SortedMap κ α) (visit : κ → α → σ → β × σ) (state : σ) (key : κ) :
    (map.traverse visit state).1.get? key =
      (map.get? key).map fun x => (visit key x (map.turnOf visit key state)).1 :=
  Entries.lookup_traverse_turn visit key map.increasing state

theorem keeps_turn {holds : σ → Prop} (map : SortedMap κ α) {visit : κ → α → σ → β × σ} {key : κ}
    {x : α} (found : map.get? key = some x)
    (others : ∀ other y, map.get? other = some y → other ≠ key → ∀ state, holds state →
      holds (visit other y state).2) (state : σ) :
    let seen := map.turnOf visit key state
    (holds state → holds seen) ∧
      (holds (visit key x seen).2 → holds (map.traverse visit state).2) :=
  Entries.traverse_turn map.increasing found (fun entry member =>
    others entry.1 entry.2 ((map.mem_entries_iff entry.1 entry.2).1 member)) state

theorem traverse_turn (map : SortedMap κ α) (visit : κ → α → σ → β × σ) (state : σ) {key : κ}
    {x : α} (found : map.get? key = some x) :
    ∃ seen, (map.traverse visit state).1.get? key = some (visit key x seen).1 ∧
      ∀ holds : σ → Prop, (∀ other y, map.get? other = some y → other ≠ key → ∀ state,
        holds state → holds (visit other y state).2) →
          (holds state → holds seen) ∧
          (holds (visit key x seen).2 → holds (map.traverse visit state).2) :=
  ⟨map.turnOf visit key state, by rw [get?_traverse_turn, found]; rfl,
    fun _ others => map.keeps_turn found others state⟩

theorem last_turn {γ : Type} (map : SortedMap κ α) (visit : κ → α → σ → β × σ) (sight : σ → γ)
    (state : σ) :
    let left := sight (map.traverse visit state).2
    left = sight state ∨ ∃ key x, map.get? key = some x ∧
      let seen := map.turnOf visit key state
      left = sight (visit key x seen).2 ∧ left ≠ sight seen :=
  Entries.last_turn visit sight map.increasing state

/-- What the visit of a key reports at its turn is among the reports of all visits. -/
theorem reports_of_turn {γ : Type} (map : SortedMap κ α) (visit : κ → α → σ → β × σ) (state : σ)
    {key : κ} {x : α} (found : map.get? key = some x) (reports : β → List γ) :
    reports (visit key x (map.turnOf visit key state)).1 ⊆
      (map.traverse visit state).1.values.flatMap reports := by
  have made := map.get?_traverse_turn visit state key
  rw [found, Option.map_some] at made
  exact fun _ told => List.mem_flatMap.2 ⟨_, (mem_values_iff _ _).2 ⟨key, made⟩, told⟩

/-- A walk whose visits leave the state alone. -/
theorem traverse_still (map : SortedMap κ α) {visit : κ → α → σ → β × σ} {leaves : α → β}
    (still : ∀ key x, map.get? key = some x → ∀ state, visit key x state = (leaves x, state))
    (state : σ) : map.traverse visit state = (map.map fun _ => leaves, state) := by
  refine Prod.ext (ext fun key => ?_) ?_
  · rw [get?_traverse_turn, get?_map]
    cases found : map.get? key with
    | none => rfl
    | some x => simp only [Option.map_some, still key x found]
  · refine @Entries.traverse_keeps_of_mem _ _ _ _ (· = state) _ map.entries state rfl
      fun entry member left same => ?_
    rw [still _ _ ((map.mem_entries_iff entry.1 entry.2).1 member), same]

/-- If every value is kept as it was, the map is as it was. -/
theorem filterMap_map_self (map : SortedMap κ α) (leaves : α → β) (keep : β → Option α)
    (kept : ∀ x, keep (leaves x) = some x) :
    ((map.map fun _ => leaves).filterMap fun _ y => keep y) = map := by
  refine ext fun key => ?_
  rw [get?_filterMap, get?_map, Option.bind_map]
  simp only [Function.comp_def, kept]
  exact Option.bind_fun_some _

theorem flatMap_values_map {γ : Type} (map : SortedMap κ α) (leaves : α → β) (reports : β → List γ)
    (silent : ∀ x, reports (leaves x) = []) :
    (map.map fun _ => leaves).values.flatMap reports = [] := by
  refine List.flatMap_eq_nil_iff.2 fun y member => ?_
  obtain ⟨key, found⟩ := (mem_values_iff _ y).1 member
  rw [get?_map] at found
  obtain ⟨x, -, rfl⟩ := Option.map_eq_some_iff.1 found
  exact silent x

/-- What is left at a key when a walk also says what to keep. -/
theorem get?_filterMap_traverse_within {γ : Type} {holds : σ → Prop} (map : SortedMap κ α)
    {visit : κ → α → σ → β × σ}
    (keeps : ∀ key x state, holds state → holds (visit key x state).2) (keep : β → Option γ)
    {state : σ} (begins : holds state) (key : κ) :
    ∃ seen, holds seen ∧ ((map.traverse visit state).1.filterMap fun _ y => keep y).get? key =
      (map.get? key).bind fun x => keep (visit key x seen).1 := by
  obtain ⟨seen, kept, found⟩ := map.get?_traverse_within keeps begins key
  refine ⟨seen, kept, ?_⟩
  rw [get?_filterMap, found, Option.bind_map]
  rfl

theorem insert_same {map : SortedMap κ α} {key : κ} {value : α} (found : map.get? key = some value) :
    map.insert key value = map := by
  refine ext fun other => ?_
  rw [get?_insert]
  split
  · rename_i here
    rw [← rank_inj here, found]
  · rfl

/-- The entries before and behind one in a map have smaller and greater keys. -/
theorem rank_of_split {map : SortedMap κ α} {first second : List (κ × α)} {key : κ} {value : α}
    (list : map.entries = first ++ (key, value) :: second) :
    (∀ entry ∈ first, rank entry.1 < rank key) ∧ ∀ entry ∈ second, rank key < rank entry.1 := by
  have increasing := map.increasing
  rw [list, Entries.Increasing, List.pairwise_append, List.pairwise_cons] at increasing
  obtain ⟨-, ⟨behind, -⟩, before⟩ := increasing
  exact ⟨fun entry member => before entry member (key, value) List.mem_cons_self, behind⟩

end SortedMap

end Maps

/-! ## Destinations, groups and peers -/

section Tables

variable {σ : Type}

theorem Services.roster?_sweep_within (services : Services) (holds : σ → Prop)
    {visit : Roster → Destination → σ → Settlement × σ}
    (keeps : ∀ roster destination table, holds table → holds (visit roster destination table).2)
    {table : σ} (begins : holds table) (net : Prefix) :
    ∃ seen, holds seen ∧ (services.sweep visit table).1.services.roster? net =
      (services.roster? net).bind fun roster =>
        (visit roster ⟨services.group, net⟩ seen).1.roster :=
  services.rosters.get?_filterMap_traverse_within
    (fun net roster table => keeps roster ⟨services.group, net⟩ table) Settlement.roster begins net

theorem Services.roster?_sweep (services : Services)
    (visit : Roster → Destination → σ → Settlement × σ) (table : σ) (net : Prefix) :
    ∃ seen, (services.sweep visit table).1.services.roster? net =
      (services.roster? net).bind fun roster =>
        (visit roster ⟨services.group, net⟩ seen).1.roster :=
  (services.roster?_sweep_within (fun _ => True) (fun _ _ _ _ => trivial) trivial net).imp
    fun _ => And.right

/-- A destination that a sweep leaves is what its turn made of one that stood. -/
theorem Services.of_roster?_sweep {services : Services}
    {visit : Roster → Destination → σ → Settlement × σ} {table : σ} {net : Prefix} {after : Roster}
    (stands : (services.sweep visit table).1.services.roster? net = some after) :
    ∃ roster seen, services.roster? net = some roster ∧
      (visit roster ⟨services.group, net⟩ seen).1.roster = some after := by
  obtain ⟨seen, left⟩ := services.roster?_sweep visit table net
  obtain ⟨roster, found, became⟩ := Option.bind_eq_some_iff.1 (left.symm.trans stands)
  exact ⟨roster, seen, found, became⟩

/-- The turn of a destination in a sweep. -/
theorem Services.sweep_turn (services : Services)
    (visit : Roster → Destination → σ → Settlement × σ) (table : σ) {net : Prefix} {roster : Roster}
    (found : services.roster? net = some roster) :
    ∃ seen,
      let settled := visit roster ⟨services.group, net⟩ seen
      let swept := services.sweep visit table
      swept.1.services.roster? net = settled.1.roster ∧
        (∀ status ∈ settled.1.statuses, status ∈ swept.1.statuses) ∧
        ∀ holds : σ → Prop, (∀ other rival, services.roster? other = some rival → other ≠ net →
          ∀ table, holds table → holds (visit rival ⟨services.group, other⟩ table).2) →
            (holds table → holds seen) ∧ (holds settled.2 → holds swept.2) := by
  obtain ⟨seen, made, turn⟩ := services.rosters.traverse_turn
    (fun net roster table => visit roster ⟨services.group, net⟩ table) table found
  refine ⟨seen, ?_, fun status reported => ?_, turn⟩
  · simp only [sweep, roster?, SortedMap.get?_filterMap, made, Option.bind_some]
  · exact List.mem_flatMap.2 ⟨_, (SortedMap.mem_values_iff _ _).2 ⟨net, made⟩, reported⟩

/-- Whatever a sweep reports, a destination reported at its turn. -/
theorem Services.of_mem_statuses_sweep {services : Services}
    {visit : Roster → Destination → σ → Settlement × σ} {table : σ} {status : RouteStatus}
    (reported : status ∈ (services.sweep visit table).1.statuses) :
    ∃ net roster seen, services.roster? net = some roster ∧
      status ∈ (visit roster ⟨services.group, net⟩ seen).1.statuses ∧
      ∀ holds : σ → Prop, (∀ other rival, services.roster? other = some rival → other ≠ net →
        ∀ table, holds table → holds (visit rival ⟨services.group, other⟩ table).2) →
          holds table → holds seen := by
  obtain ⟨settlement, made, own⟩ := List.mem_flatMap.1 reported
  obtain ⟨net, made⟩ := (SortedMap.mem_values_iff _ _).1 made
  obtain ⟨roster, found⟩ := SortedMap.of_get?_traverse made
  obtain ⟨seen, again, turn⟩ := services.rosters.traverse_turn
    (fun net roster table => visit roster ⟨services.group, net⟩ table) table found
  cases made.symm.trans again
  exact ⟨net, roster, seen, found, own, fun holds others => (turn holds others).1⟩

/-- A sweep whose visits do nothing does nothing. -/
theorem Services.sweep_still (services : Services)
    {visit : Roster → Destination → σ → Settlement × σ}
    (still : ∀ net roster, services.roster? net = some roster → ∀ table,
      visit roster ⟨services.group, net⟩ table = ({ roster := some roster }, table)) (table : σ) :
    services.sweep visit table = (⟨services, [], []⟩, table) := by
  let leaves (roster : Roster) : Settlement := { roster := some roster }
  have rosters := services.rosters.filterMap_map_self leaves Settlement.roster fun _ => rfl
  have statuses := services.rosters.flatMap_values_map leaves Settlement.statuses fun _ => rfl
  have changes := services.rosters.flatMap_values_map leaves Settlement.changes fun _ => rfl
  simp only [sweep, services.rosters.traverse_still still, leaves] at rosters statuses changes ⊢
  rw [rosters, statuses, changes]

/-- A walk whose visits do nothing does nothing. -/
theorem Router.walk_still (router : Router) {visit : Group → σ → Group.Settled × σ}
    (still : ∀ id group, router.groups.get? id = some group → ∀ table,
      visit group table = (⟨some group, [], []⟩, table)) (table : σ) :
    router.walk visit table = (⟨router, [], []⟩, table) := by
  let leaves (group : Group) : Group.Settled := { kept := some group }
  have groups := router.groups.filterMap_map_self leaves Group.Settled.kept fun _ => rfl
  have statuses := router.groups.flatMap_values_map leaves Group.Settled.statuses fun _ => rfl
  have changes := router.groups.flatMap_values_map leaves Group.Settled.changes fun _ => rfl
  simp only [walk, router.groups.traverse_still still, leaves] at groups statuses changes ⊢
  rw [groups, statuses, changes]

theorem Router.get?_walk_within (router : Router) (holds : σ → Prop)
    {visit : Group → σ → Group.Settled × σ}
    (keeps : ∀ group table, holds table → holds (visit group table).2) {table : σ}
    (begins : holds table) (id : GroupId) :
    ∃ seen, holds seen ∧ (router.walk visit table).1.router.groups.get? id =
      (router.groups.get? id).bind fun group => (visit group seen).1.kept :=
  router.groups.get?_filterMap_traverse_within (fun _ group table => keeps group table)
    Group.Settled.kept begins id

theorem Router.get?_walk (router : Router) (visit : Group → σ → Group.Settled × σ) (table : σ)
    (id : GroupId) :
    ∃ seen, (router.walk visit table).1.router.groups.get? id =
      (router.groups.get? id).bind fun group => (visit group seen).1.kept :=
  (router.get?_walk_within (fun _ => True) (fun _ _ _ => trivial) trivial id).imp
    fun _ => And.right

/-- A group that a walk leaves is what its turn made of one that stood. -/
theorem Router.of_get?_walk {router : Router} {visit : Group → σ → Group.Settled × σ} {table : σ}
    {id : GroupId} {after : Group}
    (stands : (router.walk visit table).1.router.groups.get? id = some after) :
    ∃ group seen, router.groups.get? id = some group ∧ (visit group seen).1.kept = some after := by
  obtain ⟨seen, walked⟩ := router.get?_walk visit table id
  obtain ⟨group, found, kept⟩ := Option.bind_eq_some_iff.1 (walked.symm.trans stands)
  exact ⟨group, seen, found, kept⟩

/-- The turn of a group in a walk. -/
theorem Router.walk_turn (router : Router) (visit : Group → σ → Group.Settled × σ) (table : σ)
    {id : GroupId} {group : Group} (found : router.groups.get? id = some group) :
    ∃ seen,
      let settled := visit group seen
      let walked := router.walk visit table
      walked.1.router.groups.get? id = settled.1.kept ∧
        (∀ status ∈ settled.1.statuses, status ∈ walked.1.statuses) ∧
        ∀ holds : σ → Prop, (∀ other rival, router.groups.get? other = some rival → other ≠ id →
          ∀ table, holds table → holds (visit rival table).2) →
            (holds table → holds seen) ∧ (holds settled.2 → holds walked.2) := by
  obtain ⟨seen, made, turn⟩ :=
    router.groups.traverse_turn (fun _ group table => visit group table) table found
  refine ⟨seen, ?_, fun status reported => ?_, turn⟩
  · simp only [walk, SortedMap.get?_filterMap, made, Option.bind_some]
  · exact List.mem_flatMap.2 ⟨_, (SortedMap.mem_values_iff _ _).2 ⟨id, made⟩, reported⟩

/-- Whatever a walk reports, a group reported at its turn. -/
theorem Router.of_mem_statuses_walk {router : Router} {visit : Group → σ → Group.Settled × σ}
    {table : σ} {status : RouteStatus} (reported : status ∈ (router.walk visit table).1.statuses) :
    ∃ id group seen, router.groups.get? id = some group ∧
      status ∈ (visit group seen).1.statuses ∧
      ∀ holds : σ → Prop, (∀ other rival, router.groups.get? other = some rival → other ≠ id →
        ∀ table, holds table → holds (visit rival table).2) → holds table → holds seen := by
  obtain ⟨settled, made, own⟩ := List.mem_flatMap.1 reported
  obtain ⟨id, made⟩ := (SortedMap.mem_values_iff _ _).1 made
  obtain ⟨group, found⟩ := SortedMap.of_get?_traverse made
  obtain ⟨seen, again, turn⟩ :=
    router.groups.traverse_turn (fun _ group table => visit group table) table found
  cases made.symm.trans again
  exact ⟨id, group, seen, found, own, fun holds others => (turn holds others).1⟩

namespace Peers

variable [RoutingTable σ]

omit [RoutingTable σ] in
theorem list_select (peers : Peers) : peers.select.2.list = peers.list := by
  unfold select
  split <;> rfl

theorem mem_settleAll_within {holds : σ → Prop}
    (keeps : ∀ peer table, holds table → holds (settle peer table).2) {settled : Settled}
    (list : List Peer) {table : σ} (begins : holds table)
    (member : settled ∈ (settleAll list table).1) :
    ∃ peer ∈ list, ∃ seen, holds seen ∧ settled = (settle peer seen).1 := by
  induction list generalizing table with
  | nil => cases member
  | cons peer rest ih =>
      rcases List.mem_cons.1 member with here | behind
      · exact ⟨peer, List.mem_cons_self, table, begins, here⟩
      · obtain ⟨other, there, seen, kept, same⟩ := ih (keeps peer table begins) behind
        exact ⟨other, List.mem_cons_of_mem _ there, seen, kept, same⟩

theorem mem_commit_within (holds : σ → Prop)
    (keeps : ∀ peer table, holds table → holds (settle peer table).2) {peer : Peer} (peers : Peers)
    {table : σ} (begins : holds table) (member : peer ∈ (peers.commit table).2.1.list) :
    ∃ before ∈ peers.list, ∃ seen, holds seen ∧ (settle before seen).1.kept = some peer := by
  obtain ⟨settled, there, kept⟩ := List.mem_filterMap.1 member
  obtain ⟨before, stood, seen, still, rfl⟩ := mem_settleAll_within keeps peers.list begins there
  exact ⟨before, stood, seen, still, kept⟩

/-- A peer that stands after a commit is what became of a peer that stood before. -/
theorem mem_commit {peer : Peer} (peers : Peers) (table : σ)
    (member : peer ∈ (peers.commit table).2.1.list) :
    ∃ before ∈ peers.list, ∃ seen : σ, (settle before seen).1.kept = some peer := by
  obtain ⟨before, stood, seen, -, kept⟩ :=
    mem_commit_within (fun _ => True) (fun _ _ _ => trivial) peers trivial member
  exact ⟨before, stood, seen, kept⟩

theorem exists_mem_commit_within (holds : σ → Prop)
    (keeps : ∀ peer table, holds table → holds (settle peer table).2) {before : Peer} (peers : Peers)
    {table : σ} (begins : holds table) (stood : before ∈ peers.list) :
    ∃ seen, holds seen ∧ ∀ peer, (settle before seen).1.kept = some peer →
      peer ∈ (peers.commit table).2.1.list := by
  suffices ∃ seen, holds seen ∧ (settle before seen).1 ∈ (settleAll peers.list table).1 by
    obtain ⟨seen, still, there⟩ := this
    exact ⟨seen, still, fun peer kept => List.mem_filterMap.2 ⟨_, there, kept⟩⟩
  generalize peers.list = list at stood
  induction list generalizing table with
  | nil => cases stood
  | cons first rest ih =>
      rcases List.mem_cons.1 stood with rfl | behind
      · exact ⟨table, begins, List.mem_cons_self⟩
      · obtain ⟨seen, still, there⟩ := ih (keeps first table begins) behind
        exact ⟨seen, still, List.mem_cons_of_mem _ there⟩

theorem exists_mem_commit {before : Peer} (peers : Peers) (table : σ) (stood : before ∈ peers.list) :
    ∃ seen : σ, ∀ peer, (settle before seen).1.kept = some peer →
      peer ∈ (peers.commit table).2.1.list :=
  (exists_mem_commit_within (fun _ => True) (fun _ _ _ => trivial) peers trivial stood).imp
    fun _ => And.right

end Peers

namespace Group

variable [RoutingTable σ]

/-! The parts of a commit: the peers after it, the gateway they select, and the walk over the
destinations that follows it. -/

def settledPeers (group : Group) (table : σ) : Peers := (group.peers.commit table).2.1.select.2

def selectedGateway (group : Group) (table : σ) : Option Address :=
  (group.peers.commit table).2.1.select.1.map Peer.gateway

def sweptServices (group : Group) (table : σ) : Services.Swept × σ :=
  group.services.commit (group.selectedGateway table) (group.peers.commit table).2.2

theorem commit_eq (group : Group) (table : σ) :
    group.commit table =
      let peers := group.settledPeers table
      let swept := group.sweptServices table
      if peers.isEmpty then
        let withdrawn := swept.1.services.withdrawAll swept.2
        (⟨if withdrawn.1.isEmpty then none else some ⟨peers, withdrawn.1⟩, swept.1.statuses,
          swept.1.changes⟩, withdrawn.2)
      else (⟨some ⟨peers, swept.1.services⟩, swept.1.statuses, swept.1.changes⟩, swept.2) := rfl

/-- What is given up is not reported. -/
theorem reports_commit (group : Group) (table : σ) :
    (group.commit table).1.statuses = (group.sweptServices table).1.statuses ∧
      (group.commit table).1.changes = (group.sweptServices table).1.changes := by
  rw [commit_eq]
  simp only
  split <;> exact ⟨rfl, rfl⟩

end Group

end Tables

end OverlayRouting
