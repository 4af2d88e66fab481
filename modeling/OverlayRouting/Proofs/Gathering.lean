/-
# OverlayRouting.Proofs.Gathering -- merged tallies lose nothing and count nothing twice

What is told of addresses may be recorded in one place or in many, and tallies may be merged in
any order and however they are bracketed.  A `Gathering` is one way to do so: a tree whose inner
nodes are merges, and in which recording may go on after a merge.

A counter of an address holds the number of what was told of it, up to the largest count, wherever
it was recorded (`Gathering.counter_tallies`), and an address is known if something was told of it
(`Gathering.isSome_tallies`).  Both depend on nothing but how often each thing was told, so all
gatherings of the same are alike (`gathered_alike`).
-/
import OverlayRouting.Proofs.RoundOrder

namespace OverlayRouting

set_option autoImplicit false

/-- Something that is told of an address. -/
inductive Sighting where
  | tracked (address : Address)
  | sent (address : Address)
  | replied (address : Address) (rtt : Float32)
  deriving DecidableEq

namespace Sighting

def address : Sighting → Address
  | tracked address | sent address | replied address _ => address

/-- Does the counter count it? -/
def isCountedBy : Counter → Sighting → Bool
  | .sent, sent _ => true
  | .received, replied _ _ => true
  | _, _ => false

/-- Is it one of those of an address that the counter counts? -/
def countsFor (counter : Counter) (address : Address) (sighting : Sighting) : Bool :=
  sighting.address = address && sighting.isCountedBy counter

/-- What becomes of the tally of its address. -/
def change : Sighting → Tally → Tally
  | tracked _ => id
  | sent _ => (·.send 1)
  | replied _ rtt => (·.reply rtt)

/-- Tallies in which it is recorded as well. -/
def recordIn (tallies : Tallies) : Sighting → Tallies
  | tracked address => tallies.track address
  | sent address => tallies.send address 1
  | replied address rtt => tallies.reply address rtt

end Sighting

/-- One way to record sightings and to put together what was recorded. -/
inductive Gathering where
  /-- Nothing is recorded yet. -/
  | nothing
  | recorded (before : Gathering) (sighting : Sighting)
  | merged (earlier later : Gathering)

namespace Gathering

/-- All that was recorded, whether here or in what was merged into this. -/
def sightings : Gathering → List Sighting
  | nothing => []
  | recorded before sighting => before.sightings ++ [sighting]
  | merged earlier later => earlier.sightings ++ later.sightings

def tallies : Gathering → Tallies
  | nothing => ∅
  | recorded before sighting => sighting.recordIn before.tallies
  | merged earlier later => earlier.tallies.merge later.tallies

/-- All is recorded in one place, one after the other. -/
def alone (sightings : List Sighting) : Gathering := sightings.foldl recorded nothing

end Gathering

/-! ## One sighting -/

namespace Sighting

theorem recordIn_eq (tallies : Tallies) (sighting : Sighting) :
    sighting.recordIn tallies = tallies.update sighting.address sighting.change := by
  cases sighting with
  | tracked | replied => rfl
  | sent address =>
      have once : (1 : UInt64) ≠ 0 := by decide
      rw [recordIn, Tallies.send, if_neg once]
      rfl

theorem counter_change (counter : Counter) (sighting : Sighting) (tally : Tally) :
    ((sighting.change tally).counter counter).toNat =
      min ((tally.counter counter).toNat + if sighting.isCountedBy counter then 1 else 0)
        countLimit := by
  cases sighting with
  | tracked => cases counter <;> exact toNat_eq_min _
  | sent =>
      cases counter with
      | sent => exact toNat_cappedSum _ _
      | received => exact toNat_eq_min _
  | replied =>
      cases counter with
      | sent => exact toNat_eq_min _
      | received => exact toNat_cappedSum _ _

/-- A sighting counts one more for its own address. -/
theorem counter_recordIn (counter : Counter) (tallies : Tallies) (sighting : Sighting)
    (address : Address) :
    (((sighting.recordIn tallies).tally address).counter counter).toNat =
      min (((tallies.tally address).counter counter).toNat +
        if sighting.countsFor counter address then 1 else 0) countLimit := by
  rw [recordIn_eq, Tallies.tally, Tallies.get?_update, countsFor]
  by_cases here : sighting.address = address
  · rw [if_pos here, Option.getD_some, counter_change, decide_eq_true here, Bool.true_and]
  · rw [if_neg here, decide_eq_false here, Bool.false_and]
    exact toNat_eq_min _

theorem isSome_recordIn (tallies : Tallies) (sighting : Sighting) (address : Address) :
    ((sighting.recordIn tallies).get? address).isSome =
      ((tallies.get? address).isSome || sighting.address = address) := by
  rw [recordIn_eq, Tallies.get?_update]
  by_cases here : sighting.address = address <;> simp [here]

end Sighting

/-! ## All sightings -/

namespace Gathering

theorem sightings_alone (sightings : List Sighting) : (alone sightings).sightings = sightings := by
  have fold (start : Gathering) :
      (sightings.foldl recorded start).sightings = start.sightings ++ sightings := by
    induction sightings generalizing start with
    | nil => exact (List.append_nil _).symm
    | cons sighting rest ih => rw [List.foldl_cons, ih, Gathering.sightings, List.append_assoc,
        List.singleton_append]
  exact fold nothing

/-- A counter counts each sighting once, whichever way it came here. -/
theorem counter_tallies (gathering : Gathering) (counter : Counter) (address : Address) :
    ((gathering.tallies.tally address).counter counter).toNat =
      min (gathering.sightings.countP (·.countsFor counter address)) countLimit := by
  induction gathering with
  | nothing => cases counter <;> rfl
  | recorded before sighting ih =>
      rw [tallies, Sighting.counter_recordIn, ih, sightings, List.countP_append,
        List.countP_singleton]
      omega
  | merged earlier later ihEarlier ihLater =>
      rw [tallies, Tallies.counter_merge, toNat_cappedSum, ihEarlier, ihLater, sightings,
        List.countP_append]
      omega

theorem isSome_tallies (gathering : Gathering) (address : Address) :
    (gathering.tallies.get? address).isSome =
      gathering.sightings.any (·.address = address) := by
  induction gathering with
  | nothing => rfl
  | recorded before sighting ih =>
      rw [tallies, Sighting.isSome_recordIn, ih, sightings, List.any_append, List.any_cons,
        List.any_nil, Bool.or_false]
  | merged earlier later ihEarlier ihLater =>
      rw [tallies, Tallies.get?_merge, sightings, List.any_append, ← ihEarlier, ← ihLater]
      cases later.tallies.get? address <;> simp

/-- Tallies know the addresses that sightings name and no others, and their counters hold how
often a probe was sent and how often a reply came, up to the largest count. -/
structure CountsAll (sightings : List Sighting) (tallies : Tallies) : Prop where
  known : ∀ address, (tallies.get? address).isSome = true ↔
    ∃ sighting ∈ sightings, sighting.address = address
  sent : ∀ address, (tallies.tally address).sent.toNat =
    min (sightings.countP (·.countsFor .sent address)) countLimit
  received : ∀ address, (tallies.tally address).received.toNat =
    min (sightings.countP (·.countsFor .received address)) countLimit

theorem countsAll (gathering : Gathering) : CountsAll gathering.sightings gathering.tallies where
  known address := by simp [isSome_tallies]
  sent := gathering.counter_tallies .sent
  received := gathering.counter_tallies .received

/-- How often a thing was told matters, and not when. -/
theorem CountsAll.of_perm {sightings others : List Sighting} {tallies : Tallies}
    (counts : CountsAll sightings tallies) (same : sightings.Perm others) :
    CountsAll others tallies where
  known address := by rw [counts.known]; simp only [same.mem_iff]
  sent address := by rw [counts.sent, same.countP_eq]
  received address := by rw [counts.received, same.countP_eq]

/-- However the same sightings are recorded in some places, and these merged in whichever order
and bracketing: the tallies count all of them, and each of them once, and so they know the same
addresses with the same counters as one place where all is recorded. -/
theorem gathered_alike (gathering : Gathering) (sightings : List Sighting)
    (distributed : gathering.sightings.Perm sightings) :
    CountsAll sightings gathering.tallies ∧
    ∀ address,
      (gathering.tallies.get? address).isSome = ((alone sightings).tallies.get? address).isSome ∧
      (gathering.tallies.tally address).sent = ((alone sightings).tallies.tally address).sent ∧
      (gathering.tallies.tally address).received =
        ((alone sightings).tallies.tally address).received := by
  have counts := gathering.countsAll.of_perm distributed
  have counts' : CountsAll sightings (alone sightings).tallies := by
    have counts' := (alone sightings).countsAll
    rwa [sightings_alone] at counts'
  refine ⟨counts, fun address => ⟨?_, ?_, ?_⟩⟩
  · rw [Bool.eq_iff_iff, counts.known, counts'.known]
  · rw [← UInt64.toNat_inj, counts.sent, counts'.sent]
  · rw [← UInt64.toNat_inj, counts.received, counts'.received]

end Gathering

namespace Sample

/-- Three things told of one address and one of another, in the order in which they happened. -/
def told : List Sighting :=
  [.sent (.v4 0x0A000001#32), .tracked (.v4 0x0A000002#32), .sent (.v4 0x0A000001#32),
    .replied (.v4 0x0A000001#32) 20]

/-- Two places, each with two of them, and the second one merged into a third before the first. -/
def crossed : Gathering :=
  .merged (.merged .nothing (.recorded (.recorded .nothing (.sent (.v4 0x0A000001#32)))
      (.replied (.v4 0x0A000001#32) 20)))
    (.recorded (.recorded .nothing (.sent (.v4 0x0A000001#32))) (.tracked (.v4 0x0A000002#32)))

end Sample

namespace Gathering

/-- Merged crosswise the reply is the earlier one, and nothing is lost. -/
theorem gathered_crosswise :
    Sample.crossed.sightings.Perm Sample.told ∧
    CountsAll Sample.told Sample.crossed.tallies ∧
    (Sample.crossed.tallies.tally (.v4 0x0A000001#32)).sent.toNat = 2 ∧
    (Sample.crossed.tallies.tally (.v4 0x0A000001#32)).received.toNat = 1 ∧
    (Sample.crossed.tallies.get? (.v4 0x0A000002#32)).isSome = true := by
  have same : Sample.crossed.sightings.Perm Sample.told := by decide +kernel
  have counts := (gathered_alike Sample.crossed Sample.told same).1
  refine ⟨same, counts, (counts.sent _).trans (by decide +kernel),
    (counts.received _).trans (by decide +kernel), (counts.known _).2 ?_⟩
  exact ⟨.tracked (.v4 0x0A000002#32), by simp [Sample.told], rfl⟩

end Gathering

end OverlayRouting
