/-
# OverlayRouting.Probe.Loop -- probing and committing at intervals

A loop has one timer for probe rounds and one for commits, and does one thing after
the other: while a round is under way nothing else is done, and what falls due
meanwhile is late.  A loop that is to stop goes on until its round is over.

If both timers are due, `next?` takes the round first.  A loop may as well take the commit;
one order is fixed here to have a function, and nothing that is proved depends on it.

Several loops may run side by side.  `turn?` picks what comes first among all of them,
and there is less to do after each turn (`work_turn`), since the timers move on.
-/
import OverlayRouting.Probe.Timer
import OverlayRouting.Tallies

namespace OverlayRouting

set_option autoImplicit false

/-- A round that has begun, and when it will be over. -/
structure Underway where
  ends : Nat
  tallies : Tallies

/-- The two timers, and the round under way if there is one. -/
structure Loop where
  probing : Timer
  applying : Timer
  underway : Option Underway := none
  /-- The loop ends as soon as nothing is under way. -/
  stopping : Bool := false

namespace Loop

inductive Task where
  | probe
  | apply
  | finish (tallies : Tallies)

/-- Something to do at a time, and the loop after it. -/
structure Next where
  time : Nat
  task : Task
  loop : Loop

/-- A loop that begins now; without two intervals to keep there is none. -/
def start? (now : Nat) (settings : ProbeSettings) : Option Loop := do
  let probing ← Timer.start? now settings.interval
  let applying ← Timer.start? now settings.applyInterval
  return { probing, applying }

/-- What comes next, if it comes before `limit`. -/
def next? (loop : Loop) (now limit : Nat) : Option Next :=
  match loop.underway with
  | some round =>
      if round.ends < limit then
        some ⟨round.ends, .finish round.tallies, { loop with underway := none }⟩
      else none
  | none =>
      if loop.probing.due ≤ loop.applying.due then
        let time := max now loop.probing.due
        if time < limit then some ⟨time, .probe, { loop with probing := loop.probing.fire time }⟩
        else none
      else
        let time := max now loop.applying.due
        if time < limit then some ⟨time, .apply, { loop with applying := loop.applying.fire time }⟩
        else none

/-- The loop once it is told to stop, if it is not over then. -/
def stop (loop : Loop) : Option Loop :=
  if loop.underway.isNone then none else some { loop with stopping := true }

/-- The loop after a task that may have begun a round. -/
def proceed (loop : Loop) (round : Option Underway) : Option Loop :=
  if loop.stopping && round.isNone then none else some { loop with underway := round }

/-! ## What is left to do -/

/-- What is left to do before `limit`, at most. -/
def remaining (limit : Nat) (loop : Loop) : Nat :=
  2 * (limit - loop.probing.due) + 2 * (limit - loop.applying.due) + loop.underway.toList.length

theorem length_underway_le (round : Option Underway) : round.toList.length ≤ 1 := by
  cases round <;> simp

/-- The work left goes down when a timer that is due moves on, even if a round
begins. -/
theorem work_lt {limit due later other : Nat} (inTime : due < limit) (moved : due < later)
    (round : Option Underway) :
    2 * (limit - later) + 2 * (limit - other) + round.toList.length <
      2 * (limit - due) + 2 * (limit - other) := by
  have := length_underway_le round
  omega

theorem remaining_next {loop : Loop} {now limit : Nat} {next : Next}
    (found : loop.next? now limit = some next) (round : Option Underway)
    (begun : round = none ∨ ∀ tallies, next.task ≠ .finish tallies) :
    ({ next.loop with underway := round } : Loop).remaining limit < loop.remaining limit := by
  obtain ⟨probing, applying, underway, stopping⟩ := loop
  cases underway with
  | some old =>
      simp only [next?] at found
      split at found
      · cases found
        have : round = none := begun.resolve_right fun h => h _ rfl
        simp [remaining, this]
      · cases found
  | none =>
      simp only [next?] at found
      split at found
      · split at found
        · rename_i inTime
          cases found
          exact work_lt (Nat.lt_of_le_of_lt (Nat.le_max_right _ _) inTime) (probing.due_lt_fire _) round
        · cases found
      · split at found
        · rename_i inTime
          cases found
          simp only [remaining, Option.toList_none, List.length_nil, Nat.add_zero]
          rw [Nat.add_comm (2 * (limit - probing.due)), Nat.add_comm (2 * (limit - probing.due))]
          exact work_lt (Nat.lt_of_le_of_lt (Nat.le_max_right _ _) inTime) (applying.due_lt_fire _) round
        · cases found

/-- What is left for all loops. -/
def work (limit : Nat) : List Loop → Nat
  | [] => 0
  | loop :: rest => loop.remaining limit + work limit rest

theorem work_append (limit : Nat) (before after : List Loop) :
    work limit (before ++ after) = work limit before + work limit after := by
  induction before with
  | nil => simp [work]
  | cons loop rest ih => simp only [List.cons_append, work, ih]; omega

theorem work_proceed_le (limit : Nat) (loop : Loop) (round : Option Underway) :
    work limit (loop.proceed round).toList ≤ ({ loop with underway := round } : Loop).remaining limit := by
  simp only [proceed]
  split
  · exact Nat.zero_le _
  · simp [work]

/-! ## Taking turns -/

/-- The loop whose turn it is, between the ones before and behind it. -/
structure Turn where
  before : List Loop
  next : Next
  after : List Loop

/-- What comes first among several loops, if it comes before `limit`; of loops that
are due at the same time the one that stands first has its turn. -/
def turn? (now limit : Nat) : List Loop → Option Turn
  | [] => none
  | loop :: rest =>
      let later := (turn? now limit rest).map fun turn => { turn with before := loop :: turn.before }
      match loop.next? now limit, later with
      | none, _ => later
      | some next, none => some ⟨[], next, rest⟩
      | some next, some turn => if next.time ≤ turn.next.time then some ⟨[], next, rest⟩ else later

/-- The loops after a turn that may have begun a round. -/
def Turn.loops (turn : Turn) (round : Option Underway) : List Loop :=
  turn.before ++ (turn.next.loop.proceed round).toList ++ turn.after

/-- A turn is that of one of the loops. -/
theorem eq_of_turn {loops : List Loop} {now limit : Nat} {turn : Turn}
    (found : turn? now limit loops = some turn) :
    ∃ loop, loops = turn.before ++ loop :: turn.after ∧ loop.next? now limit = some turn.next := by
  induction loops generalizing turn with
  | nil => cases found
  | cons loop rest ih =>
      have behind : ∀ turn, (turn? now limit rest).map
          (fun turn => { turn with before := loop :: turn.before }) = some turn →
          ∃ other, loop :: rest = turn.before ++ other :: turn.after ∧
            other.next? now limit = some turn.next := by
        intro turn isLater
        obtain ⟨inner, inRest, rfl⟩ := Option.map_eq_some_iff.1 isLater
        obtain ⟨other, split, due⟩ := ih inRest
        exact ⟨other, by simp [split], due⟩
      simp only [turn?] at found
      split at found
      · exact behind _ found
      · rename_i due _
        cases found
        exact ⟨loop, rfl, due⟩
      · rename_i due _
        split at found
        · cases found
          exact ⟨loop, rfl, due⟩
        · exact behind _ found

theorem work_turn {loops : List Loop} {now limit : Nat} {turn : Turn}
    (found : turn? now limit loops = some turn) (round : Option Underway)
    (begun : round = none ∨ ∀ tallies, turn.next.task ≠ .finish tallies) :
    work limit (turn.loops round) < work limit loops := by
  obtain ⟨loop, split, due⟩ := eq_of_turn found
  have less := Nat.lt_of_le_of_lt (work_proceed_le limit turn.next.loop round)
    (remaining_next due round begun)
  subst split
  simp only [work, Turn.loops, work_append]
  omega

end Loop

end OverlayRouting
