/-
# OverlayRouting.Probe.Timer -- what is due at intervals

A timer is due at once and then once in a period.  One that fires much too late
counts its next period from then on, so that what was missed is not made up for.
-/
import OverlayRouting.Settings

namespace OverlayRouting

set_option autoImplicit false

/-- Times and periods are in nanoseconds. -/
structure Timer where
  due : Nat
  period : Nat
  period_pos : 0 < period

namespace Timer

/-- A timer that is due from `now` on; there is none without a period. -/
def start? (now : Nat) (period : Span) : Option Timer :=
  if period_pos : 0 < period.nanos then some { due := now, period := period.nanos, period_pos }
  else none

/-- A timer may fire this much too late without being put off. -/
@[irreducible] def tolerance : Nat := 5000000

/-- The timer after it fired. -/
def fire (timer : Timer) (now : Nat) : Timer :=
  { timer with due := if timer.due + tolerance < now then now + timer.period else timer.due + timer.period }

theorem due_lt_fire (timer : Timer) (now : Nat) : timer.due < (timer.fire now).due := by
  have := timer.period_pos
  simp only [fire]
  split <;> omega

end Timer

end OverlayRouting
