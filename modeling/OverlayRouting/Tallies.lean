/-
# OverlayRouting.Tallies -- the tallies of a probe round

A map from addresses to tallies, walked in address order.  Adding an address that
is there keeps its tally; merging goes address by address (`get?_merge`).
-/
import OverlayRouting.Quality
import OverlayRouting.SortedMap

namespace OverlayRouting

set_option autoImplicit false

/-- Tallies by address. -/
abbrev Tallies := SortedMap Address Tally

namespace Tallies

/-- The tally of an address; that of an unknown one is empty. -/
def tally (tallies : Tallies) (address : Address) : Tally := (tallies.get? address).getD ∅

def update (tallies : Tallies) (address : Address) (change : Tally → Tally) : Tallies :=
  tallies.insert address (change (tallies.tally address))

theorem get?_update (tallies : Tallies) (address other : Address) (change : Tally → Tally) :
    (tallies.update address change).get? other =
      if address = other then some (change (tallies.tally other)) else tallies.get? other := by
  rw [update, SortedMap.get?_insert]
  simp only [rank_eq_iff]
  split
  · rename_i same
    rw [same]
  · rfl

/-- Follow an address; if it is followed already, nothing changes. -/
def track (tallies : Tallies) (address : Address) : Tallies := tallies.update address id

/-- Count `times` probes sent to an address. -/
def send (tallies : Tallies) (address : Address) (times : UInt64) : Tallies :=
  if times = 0 then tallies else tallies.update address (·.send times)

/-- Count a reply of an address. -/
def reply (tallies : Tallies) (address : Address) (rtt : Float32) : Tallies :=
  tallies.update address (·.reply rtt)

/-- Count `times` equal replies, one after the other. -/
def replies (tallies : Tallies) (address : Address) (rtt : Float32) (times : Nat) : Tallies :=
  times.repeat (·.reply address rtt) tallies

/-- Merge the later tallies into the earlier ones. -/
def merge (earlier later : Tallies) : Tallies :=
  later.entries.foldl (fun tallies entry => tallies.update entry.1 (·.merge entry.2)) earlier

/-- Begin a new round: everything goes on but the last round-trip times. -/
def restart (tallies : Tallies) : Tallies := tallies.map fun _ tally => { tally with rtt := 0 }

/-- The quality of every address to which a probe was sent. -/
def report (tallies : Tallies) : List Quality :=
  tallies.entries.filterMap fun entry =>
    if entry.2.isValid then some (.ofTally entry.1 entry.2) else none

/-- The same addresses with numerically equal tallies. -/
def same (a b : Tallies) : Bool :=
  a.keys = b.keys && (a.values.zip b.values).all fun pair => pair.1.same pair.2

/-! ## Look-ups in merged tallies -/

theorem get?_foldl_merge (entries : List (Address × Tally)) (increasing : Entries.Increasing entries)
    (start : Tallies) (address : Address) :
    (entries.foldl (fun tallies entry => tallies.update entry.1 (·.merge entry.2)) start).get? address =
      match Entries.lookup address entries with
      | some later => some ((start.tally address).merge later)
      | none => start.get? address := by
  induction entries generalizing start with
  | nil => rfl
  | cons head rest ih =>
      obtain ⟨key, value⟩ := head
      obtain ⟨below, restIncreasing⟩ := List.pairwise_cons.1 increasing
      simp only [List.foldl_cons]
      rw [ih restIncreasing]
      simp only [Entries.lookup, rank_eq_iff]
      by_cases here : key = address
      · subst here
        rw [if_pos rfl, Entries.lookup_eq_none_of_below below, get?_update, if_pos rfl]
      · rw [if_neg here]
        cases Entries.lookup address rest with
        | none => simp only; rw [get?_update, if_neg here]
        | some later => simp only [tally]; rw [get?_update, if_neg here]

theorem get?_merge (earlier later : Tallies) (address : Address) :
    (earlier.merge later).get? address =
      match later.get? address with
      | some tally => some ((earlier.tally address).merge tally)
      | none => earlier.get? address :=
  get?_foldl_merge later.entries later.increasing earlier address

end Tallies

end OverlayRouting
