/-
# OverlayRouting.Span -- spans of time

A span counts nanoseconds.  Its whole seconds fit 64 bits.
-/
namespace OverlayRouting

set_option autoImplicit false

/-- A time span in nanoseconds. -/
structure Span where
  nanos : Nat
  bounded : nanos < UInt64.size * 1000000000
  deriving DecidableEq

namespace Span

theorem ext_nanos {a b : Span} (same : a.nanos = b.nanos) : a = b := by
  cases a
  cases b
  cases same
  rfl

def ofNanos? (nanos : Nat) : Option Span :=
  if bounded : nanos < UInt64.size * 1000000000 then some ⟨nanos, bounded⟩ else none

@[simp] theorem ofNanos?_nanos (span : Span) : ofNanos? span.nanos = some span :=
  dif_pos span.bounded

def zero : Span := ⟨0, by decide⟩

def seconds (count : UInt64) : Span :=
  ⟨count.toNat * 1000000000, Nat.mul_lt_mul_of_pos_right count.toNat_lt_size (by decide)⟩

def millis (count : UInt64) : Span :=
  ⟨count.toNat * 1000000,
    Nat.lt_of_le_of_lt (Nat.mul_le_mul_left _ (by decide)) (seconds count).bounded⟩

/-- The longer one of two. -/
def longer (a b : Span) : Span := if a.nanos ≤ b.nanos then b else a

/-- Why a text is no span. -/
inductive Fault where
  /-- There is no such span. -/
  | unfit
  /-- The seconds run over where nobody looks: the agent breaks down. -/
  | overrun
  deriving DecidableEq

end Span

end OverlayRouting
