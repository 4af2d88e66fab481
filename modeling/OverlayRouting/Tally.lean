/-
# OverlayRouting.Tally -- probe counts of one address

A tally counts the probes sent to an address and the replies received, and keeps
the last round-trip time and the average over all replies.  Counters stop at the
largest 64-bit number (`toNat_cappedSum`).  Tallies of one address are merged by
adding the counters and weighting the averages with the received counts.

Averages are kept as singles; each is worked out in doubles and rounded once.
-/
import OverlayRouting.Decimal.Binary

namespace OverlayRouting

set_option autoImplicit false

open Decimal (widen narrow)

/-! ## Counters -/

/-- The largest count. -/
def countLimit : Nat := UInt64.size - 1

/-- The sum of two counts, or the largest count if the sum is beyond it. -/
def cappedSum (a b : UInt64) : UInt64 := UInt64.ofNat (min (a.toNat + b.toNat) countLimit)

theorem toNat_cappedSum (a b : UInt64) :
    (cappedSum a b).toNat = min (a.toNat + b.toNat) countLimit := by
  have : min (a.toNat + b.toNat) countLimit < UInt64.size :=
    Nat.lt_of_le_of_lt (Nat.min_le_right _ _) (by decide)
  exact UInt64.toNat_ofNat_of_lt this

theorem cappedSum_zero (a : UInt64) : cappedSum a 0 = a := by
  apply UInt64.toNat_inj.1
  have := a.toNat_lt_size
  simp only [toNat_cappedSum, countLimit, UInt64.toNat_zero]
  omega

/-! ## Tallies -/

structure Tally where
  sent : UInt64 := 0
  received : UInt64 := 0
  /-- The round-trip time of the last reply, in milliseconds. -/
  rtt : Float32 := 0
  /-- The average round-trip time of all replies, in milliseconds. -/
  average : Float32 := 0
  deriving DecidableEq

namespace Tally

/-- Nothing counted yet. -/
def empty : Tally := ⟨0, 0, 0, 0⟩

instance : EmptyCollection Tally := ⟨empty⟩

/-- Without a probe sent a tally says nothing. -/
def isValid (tally : Tally) : Bool := 0 < tally.sent

/-- The average round-trip time; zero if nothing came back. -/
def latency (tally : Tally) : Float32 := if 0 < tally.received then tally.average else 0

/-- The share of lost probes.  It is zero without probes, and also if more
replies than probes were counted, as happens when replies are duplicated. -/
def loss (tally : Tally) : Float32 :=
  if tally.sent = 0 then 0
  else
    let lost := 1 - tally.received.toFloat / tally.sent.toFloat
    narrow (if lost < 0 then 0 else if 1 < lost then 1 else lost)

/-- Count `times` probes sent. -/
def send (tally : Tally) (times : UInt64) : Tally :=
  { tally with sent := cappedSum tally.sent times }

/-- Count a reply, which moves the average by its share. -/
def reply (tally : Tally) (rtt : Float32) : Tally :=
  let received := cappedSum tally.received 1
  let n := received.toFloat
  { tally with
    received
    rtt
    average := narrow ((widen tally.average * (n - 1) + widen rtt) / n) }

/-- The average of two tallies.  Where one of them has no replies it is that of
the other one. -/
def mergedAverage (a b : Tally) : Float32 :=
  if b.received = 0 then a.average
  else if a.received = 0 then b.average
  else
    let weighted := widen a.average * a.received.toFloat + widen b.average * b.received.toFloat
    narrow (weighted / (cappedSum a.received b.received).toFloat)

/-- Both tallies together; `b` is the later one, so the last reply is its. -/
def merge (a b : Tally) : Tally :=
  { sent := cappedSum a.sent b.sent
    received := cappedSum a.received b.received
    rtt := b.rtt
    average := mergedAverage a b }

/-- Equal counters and numerically equal times: zero equals negative zero, and
what is not a number equals nothing. -/
def same (a b : Tally) : Bool :=
  a.sent = b.sent && a.received = b.received && a.rtt == b.rtt && a.average == b.average

end Tally

end OverlayRouting
