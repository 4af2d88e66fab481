/-
# OverlayRouting.Proofs.Forgetting -- a window holds its last measurements and nothing else

The age of a slot says how many measurements were taken after the one in it.  So whatever was
pushed, a slot holds the measurement taken as long ago as its age says, and what it held before if
none was taken then (`Window.getElem?_pushAll`).  Every age below the size is that of some slot
(`Window.exists_age`).

From a slot it is its age and one more to the cursor, around the ring (`Window.age_modEq`), and in
a new window the cursor counts the measurements around the ring.  So the measurement in a slot is
the latest one whose place leads to the slot (`Window.isGreatest_place`).  A slot that was not
filled yet has no latency, so a window is complete only after as many measurements as it has slots
(`Window.isComplete_pushAll_iff`).

The result for peers is `Peer.holds_last`.  The windows of a run are all of this kind, filled by
the rounds that told of their peers (`Peers.windows_run`).
-/
import OverlayRouting.Proofs.DeadPath
import Mathlib.Data.List.DropRight
import Mathlib.Data.Nat.ModEq

namespace OverlayRouting

set_option autoImplicit false

namespace Window

variable {window other : Window} {taken taken' : List Measurement} {slot : Nat}

/-! ## Ages -/

/-- From a slot it is its age and one more to the cursor. -/
theorem age_modEq (within : slot < window.size) :
    slot + window.age slot + 1 ≡ window.cursor [MOD window.size] := by
  rw [age]
  split
  · rename_i behind
    have reached : slot + (window.cursor - 1 - slot) + 1 = window.cursor := by omega
    rw [reached]
  · rename_i ahead
    have reached : slot + (window.cursor + window.size - 1 - slot) + 1 =
        window.cursor + window.size := by omega
    rw [reached]
    exact Nat.add_modEq_right

theorem exists_age {age : Nat} (young : age < window.size) :
    ∃ slot < window.size, window.age slot = age := by
  have bound : window.cursor < window.size := window.cursor_lt
  by_cases wraps : window.cursor ≤ age
  · refine ⟨window.cursor + window.size - 1 - age, by omega, ?_⟩
    rw [Window.age, if_neg (by omega)]
    omega
  · refine ⟨window.cursor - 1 - age, by omega, ?_⟩
    rw [Window.age, if_pos (by omega)]
    omega

/-! ## Many measurements -/

/-- The window after more measurements. -/
def pushAll (window : Window) (taken : List Measurement) : Window := taken.foldl push window

theorem pushAll_concat (window : Window) (taken : List Measurement) (last : Measurement) :
    window.pushAll (taken ++ [last]) = (window.pushAll taken).push last :=
  List.foldl_concat ..

theorem size_pushAll (window : Window) (taken : List Measurement) :
    (window.pushAll taken).size = window.size := by
  induction taken using List.reverseRecOn with
  | nil => rfl
  | append_singleton taken last ih => rw [pushAll_concat, size_push, ih]

theorem recorded_pushAll (window : Window) (taken : List Measurement) :
    (window.pushAll taken).recorded = window.recorded + taken.length := by
  induction taken using List.reverseRecOn with
  | nil => rfl
  | append_singleton taken last ih =>
      rw [pushAll_concat, List.length_append, List.length_singleton, ← Nat.add_assoc, ← ih]
      rfl

theorem cursor_pushAll (window : Window) (taken : List Measurement) :
    (window.pushAll taken).cursor = (window.cursor + taken.length) % window.size := by
  induction taken using List.reverseRecOn with
  | nil => exact (Nat.mod_eq_of_lt window.cursor_lt).symm
  | append_singleton taken last ih =>
      have moved : ((window.pushAll taken).push last).cursor =
          ((window.pushAll taken).cursor + 1) % (window.pushAll taken).size := rfl
      rw [pushAll_concat, moved, size_pushAll, ih, List.length_append, List.length_singleton,
        Nat.mod_add_mod, Nat.add_assoc]

/-- A slot holds the measurement taken as long ago as its age says, or what it held before. -/
theorem getElem?_pushAll (within : slot < window.size) :
    (window.pushAll taken).slots[slot]? =
      taken.reverse[(window.pushAll taken).age slot]?.or window.slots[slot]? := by
  induction taken using List.reverseRecOn with
  | nil => rfl
  | append_singleton taken last ih =>
      rw [← size_pushAll window taken] at within
      rw [pushAll_concat, getElem?_push, age_push within, List.reverse_concat]
      split
      · rfl
      · rw [ih, List.getElem?_cons_succ]

/-! ## A new window -/

theorem size_empty (size : Nat) : (empty size).size = max size 1 := List.length_replicate

theorem size_empty_pushAll (size : Nat) (taken : List Measurement) :
    ((empty size).pushAll taken).size = max size 1 := by
  rw [size_pushAll, size_empty]

theorem cursor_modEq (size : Nat) (taken : List Measurement) :
    ((empty size).pushAll taken).cursor ≡ taken.length [MOD max size 1] := by
  have cursor : (empty size).cursor = 0 := rfl
  rw [cursor_pushAll, cursor, Nat.zero_add, size_empty]
  exact Nat.mod_modEq _ _

/-- A slot that no measurement went into yet holds zeros. -/
theorem getElem?_empty_pushAll {size : Nat} (within : slot < max size 1) :
    ((empty size).pushAll taken).slots[slot]? =
      some (taken.reverse[((empty size).pushAll taken).age slot]?.getD {}) := by
  have zeros : (empty size).slots[slot]? = some {} := by
    rw [empty, List.getElem?_replicate, if_pos within]
  rw [getElem?_pushAll (by rwa [size_empty]), zeros]
  cases taken.reverse[((empty size).pushAll taken).age slot]? <;> rfl

theorem forall_slots_pushAll {size : Nat} {property : Measurement → Prop} :
    (∀ held ∈ ((empty size).pushAll taken).slots, property held) ↔
      ∀ age < max size 1, property (taken.reverse[age]?.getD {}) := by
  have width := size_empty_pushAll size taken
  constructor
  · intro every age young
    obtain ⟨slot, within, rfl⟩ := exists_age (width.symm ▸ young)
    exact every _ (List.mem_of_getElem? (getElem?_empty_pushAll (width ▸ within)))
  · intro every held member
    obtain ⟨slot, found⟩ := List.mem_iff_getElem?.1 member
    have within : slot < ((empty size).pushAll taken).size := (List.getElem?_eq_some_iff.1 found).1
    rw [getElem?_empty_pushAll (width ▸ within), Option.some_inj] at found
    rw [← found]
    exact every _ (width ▸ age_lt within)

/-! ## Places -/

section

variable {count place : Nat}

/-- A measurement that went into a slot was not taken after the one that is there. -/
theorem age_le_of_place (within : slot < window.size)
    (stands : window.cursor ≡ count [MOD window.size]) (before : place < count)
    (leads : place ≡ slot [MOD window.size]) : window.age slot ≤ count - 1 - place := by
  have around : slot + 1 + (count - 1 - place) ≡ slot + 1 + window.age slot [MOD window.size] :=
    calc slot + 1 + (count - 1 - place)
      _ ≡ place + 1 + (count - 1 - place) [MOD window.size] := (leads.symm.add_right 1).add_right _
      _ = count := by omega
      _ ≡ window.cursor [MOD window.size] := stands.symm
      _ ≡ slot + window.age slot + 1 [MOD window.size] := (age_modEq within).symm
      _ = slot + 1 + window.age slot := by omega
  have same : (count - 1 - place) % window.size = window.age slot := by
    rw [Nat.ModEq.add_left_cancel' _ around, Nat.mod_eq_of_lt (age_lt within)]
  rw [← same]
  exact Nat.mod_le _ _

theorem isGreatest_place (within : slot < window.size)
    (stands : window.cursor ≡ count [MOD window.size]) (taken : window.age slot < count) :
    IsGreatest {place | place < count ∧ place ≡ slot [MOD window.size]}
      (count - 1 - window.age slot) := by
  have around : count - 1 - window.age slot + (window.age slot + 1) ≡
      slot + (window.age slot + 1) [MOD window.size] :=
    calc count - 1 - window.age slot + (window.age slot + 1)
      _ = count := by omega
      _ ≡ window.cursor [MOD window.size] := stands.symm
      _ ≡ slot + (window.age slot + 1) [MOD window.size] := (age_modEq within).symm
  refine ⟨⟨by omega, Nat.ModEq.add_right_cancel' _ around⟩, fun place ⟨before, leads⟩ => ?_⟩
  have := age_le_of_place within stands before leads
  omega

end

/-! ## The last measurements -/

section

variable {width age : Nat} {last : Measurement}

theorem getElem?_reverse_rtake (young : age < width) :
    (taken.rtake width).reverse[age]? = taken.reverse[age]? := by
  rw [List.rtake_eq_reverse_take_reverse, List.reverse_reverse, List.getElem?_take_of_lt young]

theorem mem_rtake_iff :
    last ∈ taken.rtake width ↔ ∃ age < width, taken.reverse[age]? = some last := by
  rw [List.rtake_eq_reverse_take_reverse, List.mem_reverse, List.mem_iff_getElem?]
  simp only [List.getElem?_take, Option.ite_none_right_eq_some]

end

/-- What was measured before the last measurements is forgotten. -/
theorem slots_eq_of_rtake {size size' : Nat}
    (sized : ((empty size').pushAll taken').size = ((empty size).pushAll taken).size)
    (cursor : ((empty size').pushAll taken').cursor = ((empty size).pushAll taken).cursor)
    (last : taken'.rtake (max size 1) = taken.rtake (max size 1)) :
    ((empty size').pushAll taken').slots = ((empty size).pushAll taken).slots := by
  have width := size_empty_pushAll size taken
  have width' : max size' 1 = max size 1 := by rw [← size_empty_pushAll size' taken', sized, width]
  have ages (slot : Nat) :
      ((empty size').pushAll taken').age slot = ((empty size).pushAll taken).age slot := by
    simp only [age, sized, cursor]
  refine List.ext_getElem?' fun slot held => ?_
  have within : slot < ((empty size).pushAll taken).size :=
    held.trans_le (max_le sized.le le_rfl)
  have young : ((empty size).pushAll taken).age slot < max size 1 := width ▸ age_lt within
  rw [width] at within
  rw [getElem?_empty_pushAll within, getElem?_empty_pushAll (width'.symm ▸ within), ages,
    ← getElem?_reverse_rtake young, last, getElem?_reverse_rtake young]

/-! ## Figures -/

theorem isComplete_iff : window.isComplete = true ↔ ∀ held ∈ window.slots, 0 < held.latency := by
  rw [isComplete, decide_eq_true_iff, latencies, ← List.length_map Measurement.latency,
    List.length_filter_eq_length_iff, List.forall_mem_map]
  simp only [decide_eq_true_iff]

/-- A slot without a measurement is a gap. -/
theorem isComplete_pushAll_iff (size : Nat) (taken : List Measurement) :
    ((empty size).pushAll taken).isComplete = true ↔
      max size 1 ≤ taken.length ∧ ∀ last ∈ taken.rtake (max size 1), 0 < last.latency := by
  have gap : ¬ (0 : Float32) < 0 := by decide +kernel
  rw [isComplete_iff, forall_slots_pushAll]
  constructor
  · intro every
    have enough : max size 1 ≤ taken.length := by
      by_contra few
      have oldest := every taken.length (by omega)
      rw [List.getElem?_eq_none (by rw [List.length_reverse])] at oldest
      exact gap oldest
    refine ⟨enough, fun last member => ?_⟩
    obtain ⟨age, young, found⟩ := mem_rtake_iff.1 member
    have known := every age young
    rwa [found] at known
  · rintro ⟨enough, positive⟩ age young
    have held : age < taken.reverse.length := by
      rw [List.length_reverse]
      omega
    rw [List.getElem?_eq_getElem held]
    exact positive _ (mem_rtake_iff.2 ⟨age, young, List.getElem?_eq_getElem held⟩)

/-- All figures are taken from the slots. -/
theorem figures_of_slots (same : other.slots = window.slots) :
    other.latency = window.latency ∧ other.loss = window.loss ∧
      other.isComplete = window.isComplete := by
  have known : other.latencies = window.latencies := by rw [latencies, latencies, same]
  refine ⟨?_, ?_, ?_⟩
  · rw [latency, latency, known]
  · rw [loss, loss, same]
  · rw [isComplete, isComplete, known, same]

/-- The window is a ring of `width` slots that holds the last of the measurements taken. -/
structure HoldsLast (window : Window) (width : Nat) (taken : List Measurement) : Prop where
  size : window.size = width
  cursor : window.cursor = taken.length % width
  /-- A slot holds the latest of the measurements whose place, counted from zero, leads to it, and
  zeros if there is none. -/
  slot : ∀ slot < width,
    (∃ place, IsGreatest {place | place < taken.length ∧ place ≡ slot [MOD width]} place ∧
        window.slots[slot]? = taken[place]?) ∨
      (∀ place < taken.length, ¬ place ≡ slot [MOD width]) ∧
        window.slots[slot]? = some { latency := 0, loss := 0 }
  measured : window.isMeasured = true ↔ 0 < taken.length
  complete : window.isComplete = true ↔
    width ≤ taken.length ∧ ∀ last ∈ taken.rtake width, 0 < last.latency

theorem holdsLast_pushAll (size : Nat) (taken : List Measurement) :
    ((empty size).pushAll taken).HoldsLast (max size 1) taken := by
  have width := size_empty_pushAll size taken
  have stands := cursor_modEq size taken
  refine ⟨width, ?_, fun slot within => ?_, ?_, isComplete_pushAll_iff size taken⟩
  · rw [← stands, Nat.mod_eq_of_lt]
    exact width ▸ cursor_lt _
  · rw [getElem?_empty_pushAll within]
    rw [← width] at stands within ⊢
    by_cases filled : ((empty size).pushAll taken).age slot < taken.length
    · refine .inl ⟨_, isGreatest_place within stands filled, ?_⟩
      rw [List.getElem?_reverse filled, List.getElem?_eq_getElem (by omega), Option.getD_some]
    · refine .inr ⟨fun place before leads => ?_, ?_⟩
      · have := age_le_of_place within stands before leads
        omega
      · rw [List.getElem?_eq_none (by rw [List.length_reverse]; omega)]
        rfl
  · have recorded : ((empty size).pushAll taken).recorded = taken.length :=
      (recorded_pushAll (empty size) taken).trans (Nat.zero_add _)
    rw [isMeasured, decide_eq_true_iff, recorded]

end Window

namespace Peer

/-- The peer after more measurements. -/
def pushAll (peer : Peer) (taken : List Measurement) : Peer :=
  { peer with window := peer.window.pushAll taken }

/-- The window of a new peer holds the last measurements, as many as it has slots.  So the figures
of two peers are the same if their windows have the same size and stand at the same slot, and their
last measurements are the same. -/
theorem holds_last (link link' : Link) (size size' : Nat) (disabled disabled' : Bool)
    (taken taken' : List Measurement) :
    let peer := (enroll link size disabled).pushAll taken
    let other := (enroll link' size' disabled').pushAll taken'
    peer.window.HoldsLast (max size 1) taken ∧
      (other.window.size = peer.window.size → other.window.cursor = peer.window.cursor →
        taken'.rtake (max size 1) = taken.rtake (max size 1) →
        other.latency = peer.latency ∧ other.loss = peer.loss ∧
          other.window.isComplete = peer.window.isComplete) := by
  intro peer other
  refine ⟨Window.holdsLast_pushAll size taken, fun sized cursor last => ?_⟩
  exact Window.figures_of_slots (Window.slots_eq_of_rtake sized cursor last)

end Peer

namespace Sample

/-- Two measurements after a round without an answer, and before that figures of no link. -/
def troubled : List Measurement :=
  [⟨0 / 0, 0 / 0⟩, ⟨-1, 1⟩, ⟨0, 1⟩, ⟨20, 0⟩, ⟨30, 0.5⟩]

/-- The same two measurements after another one. -/
def steady : List Measurement := [⟨10, 0⟩, ⟨20, 0⟩, ⟨30, 0.5⟩]

end Sample

namespace Peer

/-- With two slots only the last two measurements count, whatever was pushed before. -/
theorem holds_last_after_trouble :
    let peer := (enroll (Sample.link "wg1" 0x0A000001#32 1 1) 2 false).pushAll Sample.troubled
    let other := (enroll (Sample.link "wg2" 0x0A000002#32 2 1) 2 true).pushAll Sample.steady
    other.window.size = peer.window.size ∧ other.window.cursor = peer.window.cursor ∧
      Sample.steady.rtake (max 2 1) = Sample.troubled.rtake (max 2 1) ∧
      other.latency = 25 ∧ other.loss = 0.25 ∧ other.window.isComplete = true ∧
      peer.window.HoldsLast (max 2 1) Sample.troubled ∧
      other.latency = peer.latency ∧ other.loss = peer.loss ∧
        other.window.isComplete = peer.window.isComplete := by
  intro peer other
  have values : other.latency = 25 ∧ other.loss = 0.25 ∧ other.window.isComplete = true := by
    decide +kernel
  have sized : other.window.size = peer.window.size := by decide +kernel
  have cursor : other.window.cursor = peer.window.cursor := by decide +kernel
  have last : Sample.steady.rtake (max 2 1) = Sample.troubled.rtake (max 2 1) := by decide +kernel
  obtain ⟨held, figures⟩ := holds_last (Sample.link "wg1" 0x0A000001#32 1 1)
    (Sample.link "wg2" 0x0A000002#32 2 1) 2 2 false true Sample.troubled Sample.steady
  exact ⟨sized, cursor, last, values.1, values.2.1, values.2.2, held, figures sized cursor last⟩

end Peer

/-! ## Windows over a run -/

namespace Peers

section Runs

variable {σ : Type} [RoutingTable σ] {state : Peers × σ} {size : Nat}

/-- What a round tells of a gateway. -/
def Operation.tally? (gateway : Address) : Operation σ → Option Tally
  | .ping tallies => tallies.get? gateway
  | _ => none

/-- Every window was new once, and the figures of some of the tallies of its peer were put into
it, in their order. -/
structure Fed (size : Nat) (tallies : Address → List Tally) (peers : Peers) : Prop where
  asked : peers.windowSize = size
  windows : ∀ peer ∈ peers.list, ∃ fed : List Tally, fed.Sublist (tallies peer.gateway) ∧
    peer.window = (Window.empty size).pushAll (fed.map fun tally => ⟨tally.latency, tally.loss⟩)

theorem Fed.step {tallies : Address → List Tally} (fed : Fed size tallies state.1)
    (op : Operation σ) :
    Fed size (fun gateway => tallies gateway ++ [op].filterMap (Operation.tally? gateway))
      (op.step state).1 := by
  refine ⟨(op.windowSize_step state).trans fed.asked, fun after member => ?_⟩
  rcases op.of_mem_step member with ⟨before, stood, link, window⟩ | ⟨-, window⟩
  · have gateway : after.gateway = before.gateway := congrArg Link.gateway link
    obtain ⟨fed, known, held⟩ := fed.windows before stood
    rw [window, gateway]
    cases op with
    | ping round =>
        rcases measured_window_cases round before with same | ⟨tally, found, pushed⟩
        · exact ⟨fed, known.trans (List.sublist_append_left _ _), same.trans held⟩
        · have told : (Operation.ping round : Operation σ).tally? before.gateway = some tally :=
            found
          refine ⟨fed ++ [tally], ?_, pushed.trans ?_⟩
          · rw [List.filterMap_cons_some told, List.filterMap_nil]
            exact known.append_right [tally]
          · rw [List.map_append, List.map_singleton, Window.pushAll_concat, ← held]
    | add | remove | enable | commit | setMargins | select | flush | close | outside =>
        exact ⟨fed, known.trans (List.sublist_append_left _ _), held⟩
  · exact ⟨[], List.nil_sublist _, by rw [window, fed.asked]; rfl⟩

theorem Fed.run (group : GroupId) (margins : Margins) (table : σ) (ops : List (Operation σ)) :
    Fed size (fun gateway => ops.filterMap (Operation.tally? gateway))
      (run ops ({ group, windowSize := size, margins }, table)).1 := by
  induction ops using List.reverseRecOn with
  | nil => exact ⟨rfl, fun _ member => absurd member List.not_mem_nil⟩
  | append_singleton ops op ih =>
      simp only [run_append, List.filterMap_append]
      exact ih.step op

/-- However the peers of a group came to where they are: every window holds the last of the figures
that went into it, and these are of rounds that told of its peer. -/
theorem windows_run (group : GroupId) (margins : Margins) (table : σ) (ops : List (Operation σ)) :
    ∀ peer ∈ (run ops ({ group, windowSize := size, margins }, table)).1.list,
      ∃ fed : List Tally, fed.Sublist (ops.filterMap (Operation.tally? peer.gateway)) ∧
        peer.window.HoldsLast (max size 1) (fed.map fun tally => ⟨tally.latency, tally.loss⟩) := by
  intro peer member
  obtain ⟨fed, known, held⟩ := (Fed.run group margins table ops).windows peer member
  exact ⟨fed, known, held ▸ Window.holdsLast_pushAll size _⟩

end Runs

end Peers

end OverlayRouting
