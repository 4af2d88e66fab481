/-
# OverlayRouting.Proofs.Passes -- the passes of an apply, one by one

An apply is a row of passes (`passStarts` lists where each begins), and everything about it is
said of them: it reports what its passes report, one after the other (`report_commitPasses`),
and leaves what the last one leaves (`apply_last_pass`).

What each of these passes keeps, if it held where that pass began, an apply keeps
(`passStarts_induction`).  Unlike in `commitPasses_induction` a pass may be told from others by
what it reports or asks.
-/
import OverlayRouting.Proofs.Sound

namespace OverlayRouting

set_option autoImplicit false

namespace Router

variable {σ : Type} [RoutingTable σ]

/-! ## The turns of a pass -/

/-- The table that a group finds at its turn in a pass. -/
def turnOf (router : Router) (id : GroupId) (table : σ) : σ :=
  router.groups.turnOf (fun _ group table => Group.commit group table) id table

theorem get?_commitOnce (router : Router) (table : σ) (id : GroupId) :
    (router.commitOnce table).1.router.groups.get? id = (router.groups.get? id).bind fun group =>
      (group.commit (router.turnOf id table)).1.kept := by
  simp only [commitOnce, walk, SortedMap.get?_filterMap, SortedMap.get?_traverse_turn,
    Option.bind_map]
  rfl

/-- What a group reports at its turn, the pass reports. -/
theorem reports_of_turn {router : Router} {id : GroupId} {group : Group}
    (found : router.groups.get? id = some group) (table : σ) :
    let made := (group.commit (router.turnOf id table)).1
    made.statuses ⊆ (router.commitOnce table).1.statuses ∧
      made.changes ⊆ (router.commitOnce table).1.changes :=
  let visit := fun (_ : GroupId) (group : Group) (table : σ) => group.commit table
  ⟨router.groups.reports_of_turn visit table found Group.Settled.statuses,
    router.groups.reports_of_turn visit table found Group.Settled.changes⟩

/-! ## The passes of an apply -/

/-- The state after a pass: every group is committed, and what is free is admitted again. -/
def pass (state : Router × σ) : Router × σ :=
  let (walked, table) := state.1.commitOnce state.2
  (walked.router.resolve.2, table)

/-- Where the passes of an apply begin, if there are at most `fuel`. -/
def passStarts : (fuel : Nat) → Router × σ → List (Router × σ)
  | 0, _ => []
  | fuel + 1, state =>
      state ::
        if (state.1.commitOnce state.2).1.router.resolve.1 = 0 then []
        else passStarts fuel (pass state)

variable (fuel : Nat) (report : Report) (state : Router × σ)

theorem mem_passStarts_succ : state ∈ passStarts (fuel + 1) state := List.mem_cons_self

/-! ## What an apply reports -/

theorem report_commitPasses :
    (commitPasses fuel report state.1 state.2).1 =
      let walks := (passStarts fuel state).map fun start => (start.1.commitOnce start.2).1
      { statuses := report.statuses ++ walks.flatMap Walked.statuses
        changes := report.changes ++ walks.flatMap Walked.changes
        passes := report.passes + walks.length } := by
  induction fuel generalizing report state with
  | zero => simp [commitPasses, passStarts]
  | succ fuel ih =>
      simp only [commitPasses, passStarts, List.map_cons, List.flatMap_cons, List.length_cons]
      split
      · simp
      · have later := ih ⟨report.statuses ++ (state.1.commitOnce state.2).1.statuses,
          report.changes ++ (state.1.commitOnce state.2).1.changes, report.passes + 1⟩ (pass state)
        simp only [List.append_assoc, Nat.add_assoc, Nat.add_comm 1] at later
        exact later

section Reports

variable {router : Router} {table : σ} {start : Router × σ}

/-- What a pass reports, the apply reports. -/
theorem statuses_of_mem_passStarts (begun : start ∈ passStarts mostPasses (router, table))
    {status : RouteStatus} (reported : status ∈ (start.1.commitOnce start.2).1.statuses) :
    status ∈ (router.apply table).1.statuses := by
  rw [Router.apply, report_commitPasses mostPasses {} (router, table)]
  exact List.mem_append_right _ (List.mem_flatMap.2 ⟨_, List.mem_map_of_mem begun, reported⟩)

/-- If an apply reports nothing, none of its passes does. -/
theorem silent_of_isEmpty (silent : (router.apply table).1.isEmpty = true)
    (begun : start ∈ passStarts mostPasses (router, table)) :
    (start.1.commitOnce start.2).1.statuses = [] ∧ (start.1.commitOnce start.2).1.changes = [] := by
  rw [Router.apply, report_commitPasses mostPasses {} (router, table)] at silent
  simp only [Report.isEmpty, Bool.and_eq_true, List.isEmpty_iff, List.append_eq_nil_iff,
    List.flatMap_eq_nil_iff] at silent
  have walked := List.mem_map_of_mem (f := fun start => (start.1.commitOnce start.2).1) begun
  exact ⟨silent.1.2 _ walked, silent.2.2 _ walked⟩

end Reports

/-! ## What an apply leaves -/

theorem exists_last_pass :
    ∃ last, (passStarts (fuel + 1) state).getLast? = some last ∧
      ∀ report, (commitPasses (fuel + 1) report state.1 state.2).2 = pass last := by
  induction fuel generalizing state with
  | zero =>
      refine ⟨state, by simp [passStarts], fun report => ?_⟩
      simp only [commitPasses]
      split <;> rfl
  | succ fuel ih =>
      rw [passStarts]
      by_cases idle : (state.1.commitOnce state.2).1.router.resolve.1 = 0
      · refine ⟨state, by rw [if_pos idle, List.getLast?_singleton], fun report => ?_⟩
        rw [commitPasses]
        simp only [if_pos idle]
        rfl
      · obtain ⟨last, ends, left⟩ := ih (pass state)
        refine ⟨last, by rw [if_neg idle, List.getLast?_cons, ends]; rfl, fun report => ?_⟩
        rw [commitPasses]
        simp only [if_neg idle]
        exact left _

/-- An apply leaves what its last pass leaves. -/
theorem apply_last_pass :
    ∃ last, (passStarts mostPasses state).getLast? = some last ∧
      (state.1.apply state.2).2 = pass last := by
  obtain ⟨last, ends, left⟩ := exists_last_pass 2 state
  exact ⟨last, ends, left {}⟩

/-- What holds at the beginning and is kept by each pass holds where every pass begins, and at
the end. -/
theorem passStarts_induction {motive : Router × σ → Prop} (begins : motive state)
    (keeps : ∀ start ∈ passStarts fuel state, motive start → motive (pass start)) :
    (∀ start ∈ passStarts fuel state, motive start) ∧
      ∀ report, motive (commitPasses fuel report state.1 state.2).2 := by
  induction fuel generalizing state with
  | zero => exact ⟨nofun, fun _ => begins⟩
  | succ fuel ih =>
      have passed := keeps state (mem_passStarts_succ fuel state) begins
      by_cases idle : (state.1.commitOnce state.2).1.router.resolve.1 = 0
      · refine ⟨fun start begun => ?_, fun report => ?_⟩
        · rw [passStarts, if_pos idle, List.mem_singleton] at begun
          exact begun ▸ begins
        · rw [commitPasses]
          simp only [if_pos idle]
          exact passed
      · rw [passStarts, if_neg idle] at keeps ⊢
        obtain ⟨starts, ends⟩ := ih (pass state) passed fun start begun =>
          keeps start (List.mem_cons_of_mem _ begun)
        refine ⟨fun start begun => ?_, fun report => ?_⟩
        · rcases List.mem_cons.1 begun with rfl | later
          · exact begins
          · exact starts start later
        · rw [commitPasses]
          simp only [if_neg idle]
          exact ends _

/-- What is seen of the table after an apply is what was seen before it, or after the last pass
that changed it. -/
theorem last_changing_pass {γ : Type} (sight : σ → γ) (router : Router) (table : σ) :
    let left := sight (router.apply table).2.2
    left = sight table ∨ ∃ start ∈ passStarts mostPasses (router, table),
      left = sight (start.1.commitOnce start.2).2 ∧ left ≠ sight start.2 := by
  refine (passStarts_induction mostPasses (router, table) (motive := fun state =>
    sight state.2 = sight table ∨ ∃ start ∈ passStarts mostPasses (router, table),
      sight state.2 = sight (start.1.commitOnce start.2).2 ∧ sight state.2 ≠ sight start.2)
    (.inl rfl) fun start begun so_far => ?_).2 {}
  by_cases still : sight (pass start).2 = sight start.2
  · rwa [still]
  · exact .inr ⟨start, begun, rfl, still⟩

theorem Sound.passStarts {router : Router} (sound : router.Sound) (fuel : Nat) (table : σ) :
    ∀ start ∈ passStarts fuel (router, table), start.1.Sound :=
  (passStarts_induction fuel (router, table) (motive := fun state => state.1.Sound) sound
    fun start _ sound => (sound.commitOnce start.2).resolve).1

end Router

end OverlayRouting
