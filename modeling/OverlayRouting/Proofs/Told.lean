/-
# OverlayRouting.Proofs.Told -- the changes that a visit tells of

A visit of a destination tells of one change at most: that from the candidate which carried it to
the one which carries it now, if they have different links (`Destination.told`).  So what a commit
or a reroute tells is known from the rosters before and after it, whatever the table answers
(`Settlement.Tells`).
-/
import OverlayRouting.Proofs.Sound

namespace OverlayRouting

set_option autoImplicit false

namespace Destination

/-- The change from one carrier of a destination to another, if that has another link. -/
def told (destination : Destination) (old new : Option Candidate) : Option ActiveChange :=
  if old.map Candidate.link = new.map Candidate.link then none
  else some (destination.change old new)

theorem told_same (destination : Destination) (old : Option Candidate) :
    destination.told old old = none := if_pos rfl

end Destination

/-- The changes of a settlement are the change of the carrier, if there is one. -/
def Settlement.Tells (destination : Destination) (roster : Roster) (settlement : Settlement) :
    Prop :=
  settlement.changes =
    (destination.told roster.installed? (settlement.roster.bind Roster.installed?)).toList

namespace Roster

variable {roster : Roster} {destination : Destination}

theorem tells_kept (statuses : List RouteStatus) :
    Settlement.Tells destination roster { roster := some roster, statuses } := by
  rw [Settlement.Tells, Option.bind_some, destination.told_same]
  rfl

theorem Sound.tells_settle (sound : roster.Sound) {c : Candidate} (member : c ∈ roster.candidates)
    (stays : c.isLeaving = false) (enabled : roster.disabled = false) {settlement : Settlement}
    (left : settlement.roster = some (roster.settle (some c.gateway)))
    (changes : settlement.changes = (destination.told roster.installed? (some c)).toList) :
    settlement.Tells destination roster := by
  rw [Settlement.Tells, left, changes, Option.bind_some,
    sound.installed?_settle member stays enabled]
  rfl

variable {σ : Type} [RoutingTable σ]

theorem Sound.tells_install (sound : roster.Sound) (table : σ) (enabled : roster.disabled = false)
    (joining : ∀ c ∈ roster.candidates, c.state = .joining) :
    (roster.install destination table).1.Tells destination roster := by
  have attached : ∀ c ∈ roster.candidates,
      (roster.attached destination c).Tells destination roster := by
    intro c member
    have stays : c.isLeaving = false := by simp [Candidate.isLeaving, joining c member]
    refine sound.tells_settle member stays enabled rfl ?_
    rw [bare_of_joining joining, Destination.told, if_neg (by simp)]
    rfl
  unfold install
  split
  · exact tells_kept _
  · rename_i first found
    split
    · split
      · exact attached first (mem_of_default? found).1
      · exact tells_kept _
    · split
      · rename_i own listed
        exact attached own (List.mem_of_find?_eq_some listed)
      · exact tells_kept _

theorem tells_withdraw (table : σ) :
    (roster.withdraw destination table).1.Tells destination roster := by
  unfold withdraw
  cases found : roster.installed? with
  | none =>
      rw [Settlement.Tells, found]
      rfl
  | some c =>
      simp only
      split
      · rw [Settlement.Tells, found]
        rfl
      · exact tells_kept _

/-- A move is refused, or it gives the change from one carrier to the other. -/
theorem move_told (destination : Destination) {old : Option Candidate} {new : Candidate} (table : σ)
    (itself : ∀ c, old = some c → c.gateway = new.gateway → c = new) :
    let result := (move destination old (some new) table).1
    (∃ cause, result = .error cause) ∨ result = .ok (destination.told old (some new)) := by
  have asked : ∀ outcome : Outcome, old.map Candidate.link ≠ (some new).map Candidate.link →
      (∃ cause, outcome.map (fun _ => some (destination.change old (some new))) = .error cause) ∨
      outcome.map (fun _ => some (destination.change old (some new))) =
        .ok (destination.told old (some new)) := by
    intro outcome differs
    cases outcome with
    | error cause => exact .inl ⟨cause, rfl⟩
    | ok done =>
        rw [Destination.told, if_neg differs]
        exact .inr rfl
  cases old with
  | none => exact asked _ (by simp)
  | some c =>
      simp only [move]
      split
      · rename_i same
        rw [itself c rfl same, Destination.told_same]
        exact .inr rfl
      · rename_i differs
        exact asked _ fun same => differs (congrArg Link.gateway (Option.some.inj same))

theorem Sound.tells_reconfigure (sound : roster.Sound) (selected : Option Address) (table : σ)
    (enabled : roster.disabled = false) (wanted : roster.Wanted) :
    (roster.reconfigure destination selected table).1.Tells destination roster := by
  obtain ⟨new, chosen⟩ := Option.isSome_iff_exists.1 (successor_isSome wanted selected)
  obtain ⟨member, stays⟩ := mem_of_successor chosen
  have moved := move_told destination table
    fun c (found : roster.installed? = some c) same =>
      sound.eq_of_gateway (mem_of_installed? found).1 member same
  simp only [reconfigure, chosen]
  generalize move destination roster.installed? (some new) table = made at moved
  obtain ⟨result, left⟩ := made
  rcases moved with ⟨cause, rfl⟩ | rfl
  · exact tells_kept _
  · exact sound.tells_settle member stays enabled rfl rfl

theorem Sound.tells_commit (sound : roster.Sound) (selected : Option Address) (table : σ) :
    (roster.commit destination selected table).1.Tells destination roster :=
  commit_cases (motive := fun made => made.1.Tells destination roster) roster destination selected
    table (fun _ => tells_kept _) (fun enabled _ => sound.tells_install table enabled)
    (fun _ _ _ => tells_withdraw table)
    (fun enabled _ => sound.tells_reconfigure selected table enabled)

theorem Sound.tells_reroute (sound : roster.Sound) (selected : Address) (table : σ) :
    (roster.reroute destination selected table).1.Tells destination roster := by
  unfold reroute
  split
  · exact tells_kept _
  · rename_i busy
    obtain ⟨enabled, quiet⟩ : roster.disabled = false ∧ roster.hasPending = false := by
      simpa using busy
    split
    · exact tells_kept _
    · rename_i candidate listed
      have member := List.mem_of_find?_eq_some listed
      have gateway : candidate.gateway = selected := by simpa using List.find?_some listed
      have moved := move_told destination table
        fun c (found : roster.installed? = some c) same =>
          sound.eq_of_gateway (mem_of_installed? found).1 member same
      generalize move destination roster.installed? (some candidate) table = made at moved
      obtain ⟨result, left⟩ := made
      rcases moved with ⟨cause, rfl⟩ | rfl
      · exact tells_kept _
      · cases told : destination.told roster.installed? (some candidate) with
        | none => exact tells_kept _
        | some change =>
            subst gateway
            exact sound.tells_settle member (stays_of_quiet quiet member) enabled rfl
              (by rw [told]; rfl)

end Roster

end OverlayRouting
