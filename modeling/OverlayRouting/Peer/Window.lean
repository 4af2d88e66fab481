/-
# OverlayRouting.Peer.Window -- the last measurements of a link

A window has a fixed number of slots, at least one, and each new measurement goes
into the slot of the oldest one.  Mean loss is taken over all slots, the empty ones
counting as lossless; mean latency over the slots with a positive latency.

Sums are taken in slot order, one rounding for each slot, so they are the same
for the same slots however they came to be filled.
-/
namespace OverlayRouting

set_option autoImplicit false

/-- The outcome of one probe round. -/
structure Measurement where
  latency : Float32 := 0
  loss : Float32 := 0
  deriving DecidableEq

structure Window where
  slots : List Measurement
  /-- The slot that the next measurement goes into. -/
  cursor : Nat
  /-- How many measurements were ever taken. -/
  recorded : Nat
  cursor_lt : cursor < slots.length
  deriving DecidableEq

namespace Window

/-- A window without measurements; it has a slot even if none is asked for. -/
def empty (size : Nat) : Window where
  slots := List.replicate (max size 1) {}
  cursor := 0
  recorded := 0
  cursor_lt := by
    rw [List.length_replicate]
    exact Nat.lt_of_lt_of_le Nat.one_pos (Nat.le_max_right _ _)

/-- Can a window of this size be held?  Its slots lie in one block of memory, of which
no byte may be out of reach of a signed word of 64 bits. -/
def canHold (size : Nat) : Bool := size < 0x2000000000000000

def size (window : Window) : Nat := window.slots.length

theorem size_pos (window : Window) : 0 < window.size := Nat.lt_of_le_of_lt (Nat.zero_le _) window.cursor_lt

/-- Put a measurement in the place of the oldest one. -/
def push (window : Window) (measurement : Measurement) : Window where
  slots := window.slots.set window.cursor measurement
  cursor := (window.cursor + 1) % window.slots.length
  recorded := window.recorded + 1
  cursor_lt := by
    rw [List.length_set]
    exact Nat.mod_lt _ window.size_pos

theorem size_push (window : Window) (measurement : Measurement) :
    (window.push measurement).size = window.size := List.length_set

theorem getElem?_push (window : Window) (measurement : Measurement) (slot : Nat) :
    (window.push measurement).slots[slot]? =
      if slot = window.cursor then some measurement else window.slots[slot]? := by
  simp only [push, List.getElem?_set]
  by_cases same : window.cursor = slot
  · subst same
    simp [window.cursor_lt]
  · rw [if_neg same, if_neg (Ne.symm same)]

/-! ## Figures -/

def isMeasured (window : Window) : Bool := 0 < window.recorded

/-- The positive latencies, in slot order. -/
def latencies (window : Window) : List Float32 :=
  (window.slots.map Measurement.latency).filter (0 < ·)

/-- The mean of the positive latencies, and zero if there are none. -/
def latency (window : Window) : Float32 :=
  let known := window.latencies
  if known.isEmpty then 0 else known.foldl (· + ·) 0 / Float32.ofNat known.length

/-- The mean loss of all slots.  The sum starts from negative zero, which changes
no number that is added to it. -/
def loss (window : Window) : Float32 :=
  (window.slots.map Measurement.loss).foldl (· + ·) (-0) / Float32.ofNat window.slots.length

/-- Has every slot a positive latency? -/
def isComplete (window : Window) : Bool := window.latencies.length = window.slots.length

end Window

end OverlayRouting
