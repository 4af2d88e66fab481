/-
# OverlayRouting.Proofs.Failures -- which failed commits are told of

The turn of a destination in a commit ends in one of three ways (`Roster.commit_ends`): what is
asked is done, and nothing is pending any more; the one change that is asked is refused; or a route
of somebody else is in the way of the first installation.  The last two are failures, and leave
the destination as it was.

A failure is told of by one status that names its cause, unless the destination only waits to be
withdrawn: then nothing is told (`Services.failures_told`, `Services.refused_in_silence`).
-/
import OverlayRouting.Proofs.Refusal

namespace OverlayRouting

set_option autoImplicit false

/-! ## The turn of one destination -/

namespace Roster

section Turns

variable {σ : Type} [RoutingTable σ]

/-- The destination is to be installed first, and the route to it is somebody else's. -/
structure Blocked (roster : Roster) (net : Prefix) (ifname : String) (table : σ) : Prop where
  enabled : roster.disabled = false
  listed : roster.candidates ≠ []
  joining : ∀ c ∈ roster.candidates, c.state = .joining
  carried : (RoutingTable.carrier net table).1 = some ifname
  foreign : ∀ c ∈ roster.candidates, c.link.ifname ≠ ifname

variable {roster : Roster} {net : Prefix} {ifname : String}

theorem Blocked.exists_joining {table : σ} (blocked : roster.Blocked net ifname table) :
    ∃ c ∈ roster.candidates, c.state = .joining := by
  obtain ⟨c, member⟩ := List.exists_mem_of_ne_nil _ blocked.listed
  exact ⟨c, member, blocked.joining c member⟩

theorem Blocked.wanted {table : σ} (blocked : roster.Blocked net ifname table) : roster.Wanted := by
  obtain ⟨c, member, joining⟩ := blocked.exists_joining
  exact ⟨c, member, by simp [Candidate.isLeaving, joining]⟩

theorem Blocked.pending {table : σ} (blocked : roster.Blocked net ifname table) :
    roster.hasPending = true := by
  obtain ⟨c, member, joining⟩ := blocked.exists_joining
  exact (hasPending_iff roster).2 ⟨c, member, .inl joining⟩

/-- How the turn of a destination in a commit ends. -/
inductive Ends (roster : Roster) (destination : Destination) (table : Recorded σ)
    (made : Settlement × Recorded σ) : Prop
  /-- Nothing failed, and nothing is left to do. -/
  | done (asked : List (Call × Outcome)) (noted : made.2.record = asked ++ table.record)
      (accepted : ∀ call cause, (call, .error cause) ∉ asked)
      (free : ∀ ifname, ¬ roster.Blocked destination.net ifname table)
      (rests : ∀ left, made.1.roster = some left → left.disabled = true ∨ left.hasPending = false)
      (few : made.1.statuses.length ≤ 1) (fine : ∀ status ∈ made.1.statuses, status.error = none)
  /-- The table refused what it was asked. -/
  | refused (change : Change) (ifname : String) (cause : Error)
      (noted : made.2.record = (⟨change, ifname, destination.net⟩, .error cause) :: table.record)
      (free : ∀ ifname, ¬ roster.Blocked destination.net ifname table)
      (kept : made.1.roster = some roster)
      (told : roster.Wanted → ∃ c ∈ roster.candidates,
        made.1.statuses = [destination.status c (.error cause)])
      (silent : ¬ roster.Wanted → made.1.statuses = [])
  /-- A route of somebody else is in the way, and nothing was asked. -/
  | blocked (ifname : String) (noted : made.2.record = table.record)
      (blocks : roster.Blocked destination.net ifname table)
      (kept : made.1.roster = some roster)
      (told : ∃ c ∈ roster.candidates, made.1.statuses =
        [destination.status c (.error (.foreignRoute destination.net ifname))])

variable {destination : Destination} {table : Recorded σ}

/-- Whoever is settled has nothing to do any more. -/
theorem rests_settle (active : Option Address) {left : Roster}
    (same : some (roster.settle active) = some left) :
    left.disabled = true ∨ left.hasPending = false := by
  cases same
  exact .inr (quiet_settle roster active)

omit [RoutingTable σ] in
theorem status_ok (destination : Destination) (c : Candidate) :
    (destination.status c (.ok ())).error = none := rfl

theorem ends_blocked (blocks : roster.Blocked destination.net ifname table) :
    roster.Ends destination table (roster.install destination table) := by
  obtain ⟨first, found⟩ := Option.isSome_iff_exists.1 (default?_isSome blocks.wanted)
  have seen := table.record_carrier destination.net
  have carried := blocks.carried
  have nobody : roster.candidates.find? (·.link.ifname = ifname) = none := by
    simpa [List.find?_eq_none] using blocks.foreign
  simp only [install, found]
  split <;> rename_i asked <;> rw [asked] at seen carried
  · cases carried
  · cases carried
    simp only [nobody]
    exact .blocked ifname seen blocks rfl ⟨first, (mem_of_default? found).1, rfl⟩

theorem ends_install (wanted : roster.Wanted)
    (free : ∀ ifname, ¬ roster.Blocked destination.net ifname table)
    (enabled : roster.disabled = false) (joining : ∀ c ∈ roster.candidates, c.state = .joining) :
    roster.Ends destination table (roster.install destination table) := by
  obtain ⟨first, found⟩ := Option.isSome_iff_exists.1 (default?_isSome wanted)
  have member := (mem_of_default? found).1
  have seen := table.record_carrier destination.net
  have attached : ∀ (c : Candidate) (asked : List (Call × Outcome)) (left : Recorded σ),
      left.record = asked ++ table.record → (∀ call cause, (call, .error cause) ∉ asked) →
      roster.Ends destination table (roster.attached destination c, left) :=
    fun c asked left noted accepted => .done asked noted accepted free
      (fun _ same => rests_settle _ same) (by simp [Roster.attached]) (by
        simp [Roster.attached, status_ok])
  simp only [install, found]
  split <;> rename_i carried <;> rw [carried] at seen
  · rename_i left
    have noted := left.record_add first.link.ifname none destination.net
    simp only at noted seen
    rw [seen] at noted
    split <;> rename_i added <;> rw [added] at noted
    · exact attached first [_] _ noted (by simp)
    · exact .refused _ _ _ noted free rfl (fun _ => ⟨first, member, rfl⟩)
        fun unwanted => absurd wanted unwanted
  · rename_i ifname _
    split
    · exact attached _ [] _ seen (by simp)
    · rename_i nobody
      refine absurd ⟨enabled, List.ne_nil_of_mem member, joining, congrArg Prod.fst carried, ?_⟩
        (free ifname)
      simpa [List.find?_eq_none] using nobody

theorem ends_withdraw (unwanted : ¬ roster.Wanted)
    (free : ∀ ifname, ¬ roster.Blocked destination.net ifname table) :
    roster.Ends destination table (roster.withdraw destination table) := by
  unfold withdraw
  split
  · exact .done [] rfl (by simp) free nofun (Nat.zero_le _) nofun
  · rename_i c _
    have noted := table.record_remove c.link.ifname destination.net
    simp only at noted
    split <;> rename_i removed <;> rw [removed] at noted
    · exact .done [_] noted (by simp) free nofun (Nat.zero_le _) nofun
    · exact .refused _ _ _ noted free rfl (fun wanted => absurd wanted unwanted) fun _ => rfl

theorem ends_reconfigure (selected : Option Address) (wanted : roster.Wanted)
    (free : ∀ ifname, ¬ roster.Blocked destination.net ifname table) :
    roster.Ends destination table (roster.reconfigure destination selected table) := by
  obtain ⟨new, chosen⟩ := Option.isSome_iff_exists.1 (successor_isSome wanted selected)
  have member := (mem_of_successor chosen).1
  have asked := move_asks destination table roster.installed? (some new)
  simp only [reconfigure, chosen]
  generalize move destination roster.installed? (some new) table = moved at asked
  obtain ⟨result, left⟩ := moved
  rcases asked with ⟨same, rfl⟩ | ⟨change, ifname, cause | done, noted, rfl⟩
  · exact .done [] same (by simp) free (fun _ => rests_settle _) (Nat.zero_le _) (by simp)
  · exact .refused _ _ _ noted free rfl (fun _ => ⟨new, member, rfl⟩)
      fun unwanted => absurd wanted unwanted
  · exact .done [_] noted (by simp) free (fun _ => rests_settle _) (Nat.le_refl _)
      (by simp [Except.map, status_ok])

theorem commit_ends (roster : Roster) (destination : Destination) (selected : Option Address)
    (table : Recorded σ) :
    roster.Ends destination table (roster.commit destination selected table) := by
  by_cases blocked : ∃ ifname, roster.Blocked destination.net ifname table
  · obtain ⟨ifname, blocks⟩ := blocked
    rw [commit_of_joining blocks.enabled blocks.pending blocks.joining]
    exact ends_blocked blocks
  · have free := not_exists.1 blocked
    refine commit_cases (motive := roster.Ends destination table) roster destination selected table
      ?_ ?_ ?_ ?_
    · intro idle
      refine .done [] rfl (by simp) free (fun left same => ?_) (Nat.zero_le _) nofun
      cases same
      exact idle
    · intro enabled pending joining
      obtain ⟨c, member, -⟩ := (hasPending_iff roster).1 pending
      exact ends_install ⟨c, member, by simp [Candidate.isLeaving, joining c member]⟩ free enabled
        joining
    · exact fun _ _ unwanted => ends_withdraw unwanted free
    · exact fun _ _ wanted => ends_reconfigure selected wanted free

end Turns

end Roster

/-! ## All destinations -/

namespace Recorded

variable {σ : Type}

/-- What was asked about one destination. -/
def about (net : Prefix) (table : Recorded σ) : List (Call × Outcome) :=
  table.record.filter (·.1.destination = net)

theorem mem_about_iff {net : Prefix} {table : Recorded σ} {entry : Call × Outcome} :
    entry ∈ table.about net ↔ entry ∈ table.record ∧ entry.1.destination = net := by
  simp [about]

theorem about_cons_of_ne {net : Prefix} {table left : Recorded σ} {entry : Call × Outcome}
    (noted : left.record = entry :: table.record) (differs : entry.1.destination ≠ net) :
    left.about net = table.about net := by
  rw [about, noted, List.filter_cons_of_neg (by simpa using differs), about]

variable [RoutingTable σ]

/-- What is asked about others does not count. -/
theorem about_kept (net : Prefix) (asked : List (Call × Outcome)) :
    RoutingTable.KeepsWithin (· ≠ net) fun table : Recorded σ => table.about net = asked where
  add ifname gateway _ table differs same :=
    (about_cons_of_ne (table.record_add ifname gateway _) differs).trans same
  remove ifname _ table differs same :=
    (about_cons_of_ne (table.record_remove ifname _) differs).trans same
  replace ifname gateway _ table differs same :=
    (about_cons_of_ne (table.record_replace ifname gateway _) differs).trans same
  carrier _ _ _ same := same

end Recorded

namespace Roster

variable {σ : Type} [RoutingTable σ] {roster : Roster} {destination : Destination}
  {table : Recorded σ} {made : Settlement × Recorded σ}

/-- The turn of a destination fails: the table refuses a change of it, or somebody else's route is
in the way. -/
inductive FailsAt (roster : Roster) (net : Prefix) (seen after : Recorded σ) (cause : Error) : Prop
  | refused (change : Change) (ifname : String)
      (asked : (⟨change, ifname, net⟩, .error cause) ∈ after.about net)
  | blocked (ifname : String) (blocks : roster.Blocked net ifname seen)
      (foreign : cause = .foreignRoute net ifname)

/-- A turn tells of its failure, if the destination is wanted, and of no other. -/
theorem Ends.tells (ends : roster.Ends destination table made)
    (begins : table.about destination.net = []) :
    (∀ cause, roster.FailsAt destination.net table made.2 cause →
      (roster.Wanted → ∃ c ∈ roster.candidates,
        made.1.statuses = [destination.status c (.error cause)]) ∧
      (¬ roster.Wanted → made.1.statuses = [])) ∧
    made.1.statuses.length ≤ 1 ∧
    ∀ status ∈ made.1.statuses, status.error.isSome → ∃ cause,
      roster.FailsAt destination.net table made.2 cause ∧ status.error = some cause.message := by
  cases ends with
  | done asked noted accepted free rests few fine =>
      refine ⟨?_, few, fun status listed failed => ?_⟩
      · rintro cause (⟨change, ifname, refused⟩ | ⟨ifname, blocks, -⟩)
        · rw [Recorded.about, noted, List.filter_append, ← Recorded.about, begins,
            List.append_nil] at refused
          exact absurd (List.mem_filter.1 refused).1 (accepted _ _)
        · exact absurd blocks (free ifname)
      · simp [fine status listed] at failed
  | refused change ifname cause noted free kept told silent =>
      have about : made.2.about destination.net =
          [(⟨change, ifname, destination.net⟩, .error cause)] := by
        rw [Recorded.about, noted, List.filter_cons_of_pos (by simp), ← Recorded.about, begins]
      have fails : roster.FailsAt destination.net table made.2 cause :=
        .refused change ifname (about ▸ List.mem_singleton_self _)
      refine ⟨?_, ?_, fun status listed _ => ⟨cause, fails, ?_⟩⟩
      · rintro other (⟨also, through, refused⟩ | ⟨through, blocks, -⟩)
        · rw [about] at refused
          cases List.mem_singleton.1 refused
          exact ⟨told, silent⟩
        · exact absurd blocks (free through)
      · by_cases wanted : roster.Wanted
        · obtain ⟨c, -, one⟩ := told wanted
          rw [one]
          exact Nat.le_refl 1
        · rw [silent wanted]
          exact Nat.zero_le 1
      · by_cases wanted : roster.Wanted
        · obtain ⟨c, -, one⟩ := told wanted
          rw [one] at listed
          rw [List.mem_singleton.1 listed]
          rfl
        · rw [silent wanted] at listed
          cases listed
  | blocked ifname noted blocks kept told =>
      obtain ⟨c, member, one⟩ := told
      have about : made.2.about destination.net = [] := by
        rw [Recorded.about, noted, ← Recorded.about, begins]
      refine ⟨?_, by simp [one], fun status listed _ => ⟨_, .blocked ifname blocks rfl, ?_⟩⟩
      · rintro other (⟨also, through, refused⟩ | ⟨through, also, rfl⟩)
        · rw [about] at refused
          cases refused
        · obtain rfl : ifname = through := Option.some.inj (blocks.carried.symm.trans also.carried)
          exact ⟨fun _ => ⟨c, member, one⟩, fun unwanted => absurd blocks.wanted unwanted⟩
      · rw [one] at listed
        rw [List.mem_singleton.1 listed]
        rfl

end Roster

namespace Services

variable {σ : Type} [RoutingTable σ] (services : Services) (selected : Option Address)

/-- The table that a destination finds at its turn in a commit. -/
def turnOf (net : Prefix) (table : σ) : σ :=
  services.rosters.turnOf (fun net roster table =>
    roster.commit ⟨services.group, net⟩ selected table) net table

/-- The commit of a destination fails: the table refuses a change of it, or somebody else's route
is in the way at its turn. -/
inductive Fails (table : σ) (net : Prefix) (cause : Error) : Prop
  | refused (change : Change) (ifname : String)
      (asked : (⟨change, ifname, net⟩, .error cause) ∈
        (services.commit selected (⟨table, []⟩ : Recorded σ)).2.record)
  | blocked (roster : Roster) (ifname : String) (found : services.roster? net = some roster)
      (blocks : roster.Blocked net ifname
        (services.turnOf selected net (⟨table, []⟩ : Recorded σ)))
      (foreign : cause = .foreignRoute net ifname)

/-- What a commit asks about a destination, and tells of it, is what its turn asks and tells. -/
theorem commit_about {net : Prefix} {roster : Roster} (found : services.roster? net = some roster)
    (fresh : Recorded σ) (begins : fresh.about net = []) :
    let seen := services.turnOf selected net fresh
    let turn := roster.commit ⟨services.group, net⟩ selected seen
    let made := services.commit selected fresh
    seen.about net = [] ∧ made.2.about net = turn.2.about net ∧
      made.1.statuses.filter (·.destination = net) = turn.1.statuses := by
  intro seen turn made
  have kept := fun asked => services.rosters.keeps_turn found
    (fun other rival _ differs table =>
      (Recorded.about_kept net asked).commit rival ⟨services.group, other⟩ table selected differs)
    fresh
  refine ⟨(kept []).1 begins, (kept _).2 rfl, ?_⟩
  have told := services.filter_statuses_sweep fresh
    (fun roster destination table _ => roster.destination_commit destination table selected) net
  rw [settled, SortedMap.get?_traverse_turn] at told
  simp only [roster?] at found
  rw [found] at told
  exact told

theorem commit_about_untracked {net : Prefix} (absent : services.roster? net = none)
    (fresh : Recorded σ) (begins : fresh.about net = []) :
    let made := services.commit selected fresh
    made.2.about net = [] ∧ made.1.statuses.filter (·.destination = net) = [] := by
  refine ⟨(Recorded.about_kept net []).commitServices fresh services selected
    (fun other roster found => ?_) begins, ?_⟩
  · rintro rfl
    cases absent.symm.trans found
  · have told := services.filter_statuses_sweep fresh
      (fun roster destination table _ => roster.destination_commit destination table selected) net
    rw [services.get?_settled_of_absent _ _ absent] at told
    exact told

/-- The commit of a destination fails if its turn fails. -/
theorem fails_iff_turn {net : Prefix} {roster : Roster} (found : services.roster? net = some roster)
    (table : σ) (cause : Error) :
    let seen := services.turnOf selected net (⟨table, []⟩ : Recorded σ)
    services.Fails selected table net cause ↔
      roster.FailsAt net seen (roster.commit ⟨services.group, net⟩ selected seen).2 cause := by
  intro seen
  obtain ⟨-, asked, -⟩ := services.commit_about selected found ⟨table, []⟩ rfl
  constructor
  · rintro (⟨change, ifname, refused⟩ | ⟨other, ifname, same, blocks, foreign⟩)
    · exact .refused change ifname (asked ▸ Recorded.mem_about_iff.2 ⟨refused, rfl⟩)
    · cases found.symm.trans same
      exact .blocked ifname blocks foreign
  · rintro (⟨change, ifname, refused⟩ | ⟨ifname, blocks, foreign⟩)
    · exact .refused change ifname (Recorded.mem_about_iff.1 (asked ▸ refused)).1
    · exact .blocked roster ifname found blocks foreign

theorem not_fails_of_untracked {net : Prefix} (absent : services.roster? net = none) (table : σ)
    (cause : Error) : ¬ services.Fails selected table net cause := by
  have asked := (services.commit_about_untracked selected absent (⟨table, []⟩ : Recorded σ) rfl).1
  rintro (⟨change, ifname, refused⟩ | ⟨roster, ifname, found, -, -⟩)
  · have about := Recorded.mem_about_iff.2 ⟨refused, rfl⟩
    rw [asked] at about
    cases about
  · cases absent.symm.trans found

/-- A commit that fails is told of by one status with its cause, unless the destination only
waits to be withdrawn; then nothing is told of it.  Of no other commit is an error told. -/
theorem failures_told (services : Services) (selected : Option Address) (table : σ) :
    let made := services.commit selected (⟨table, []⟩ : Recorded σ)
    (made.1, made.2.inner) = services.commit selected table ∧
    ∀ net,
      let told := made.1.statuses.filter (·.destination = net)
      (∀ cause, services.Fails selected table net cause →
        ∃ roster, services.roster? net = some roster ∧
          (roster.Wanted → ∃ c ∈ roster.candidates,
            told = [Destination.status ⟨services.group, net⟩ c (.error cause)]) ∧
          (¬ roster.Wanted → told = [])) ∧
      told.length ≤ 1 ∧
      ∀ status ∈ told, status.error.isSome →
        ∃ cause, services.Fails selected table net cause ∧ status.error = some cause.message := by
  intro made
  have same := RoutingTable.Agree.carryOut Recorded.agree services (.commit selected)
    (⟨table, []⟩ : Recorded σ) table rfl
  refine ⟨Prod.ext same.answer same.left, fun net => ?_⟩
  intro told
  cases found : services.roster? net with
  | none =>
      have silent := (services.commit_about_untracked selected found (⟨table, []⟩ : Recorded σ) rfl).2
      have fine := services.not_fails_of_untracked selected found table
      refine ⟨fun cause fails => absurd fails (fine cause), ?_⟩
      simp only [told, made, silent]
      exact ⟨Nat.zero_le _, nofun⟩
  | some roster =>
      obtain ⟨before, -, statuses⟩ :=
        services.commit_about selected found (⟨table, []⟩ : Recorded σ) rfl
      have ends := roster.commit_ends ⟨services.group, net⟩ selected
        (services.turnOf selected net (⟨table, []⟩ : Recorded σ))
      obtain ⟨failures, few, errors⟩ := ends.tells before
      simp only [told, made, statuses, services.fails_iff_turn selected found]
      exact ⟨fun cause fails => ⟨roster, rfl, failures cause fails⟩, few, errors⟩

/-- A first installation that is refused is told of. -/
theorem refusal_told :
    let link := Sample.link "wg1" 0x0A000001#32 1 1
    let services := (({ group := ⟨1⟩ } : Services).add link Sample.lan false).2
    let table := ({} : MemoryTable).failOn Sample.lan
    let made := services.commit none (⟨table, []⟩ : Recorded MemoryTable)
    ∃ cause c, services.Fails none table Sample.lan cause ∧
      made.1.statuses.filter (·.destination = Sample.lan) =
        [Destination.status ⟨⟨1⟩, Sample.lan⟩ c (.error cause)] := by
  intro link services table made
  have fails : services.Fails none table Sample.lan
      (MemoryTable.refusal ⟨.add, "wg1", Sample.lan⟩ "injected failure") :=
    .refused .add "wg1" (by decide +kernel)
  obtain ⟨roster, found, told, -⟩ := ((services.failures_told none table).2 Sample.lan).1 _ fails
  have listed : services.roster? Sample.lan = some ⟨[⟨link, .joining⟩], false⟩ := by decide +kernel
  cases listed.symm.trans found
  obtain ⟨c, -, told⟩ := told ⟨_, List.mem_singleton_self _, rfl⟩
  exact ⟨_, c, fails, told⟩

/-- A withdrawal that is refused is not told of. -/
theorem refused_in_silence :
    let link := Sample.link "wg1" 0x0A000001#32 1 1
    let state := run [.add link Sample.lan false, .commit none, .remove link Sample.lan,
      .outside (·.failOn Sample.lan)] (({ group := ⟨1⟩ } : Services), ({} : MemoryTable))
    (∃ cause, state.1.Fails none state.2 Sample.lan cause) ∧
      (state.1.commit none state.2).1.statuses = [] := by
  intro link state
  exact ⟨⟨MemoryTable.refusal ⟨.remove, "wg1", Sample.lan⟩ "injected failure",
    .refused .remove "wg1" (by decide +kernel)⟩, by decide +kernel⟩

end Services

end OverlayRouting
