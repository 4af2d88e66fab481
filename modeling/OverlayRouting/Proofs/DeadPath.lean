/-
# OverlayRouting.Proofs.DeadPath -- a dead path is left after one window

While a peer does not answer and another one answers every probe, each round puts one more full
loss into the window of the first and one more zero loss into that of the second.  Windows are
rings, so after as many rounds as they have slots nothing else is left in them, whatever they
held and wherever their cursors stood (`Window.Lately.all`).

Then the second peer has no loss at all and the first one has some.  No loss is negative or not a
number, so the peer ranked first has none either (`zero_of_topRanked`), and that is a reason to
leave the first one, whatever the margins, even with latencies missing in its window
(`select_ne_of_loss`).  The result for whole runs is `dead_path_left`.
-/
import OverlayRouting.Proofs.Hysteresis
import OverlayRouting.Proofs.LossRate

namespace OverlayRouting

set_option autoImplicit false

open Decimal (single Nonneg IsZero AtLeast)

namespace Window

variable {window : Window} {measurement : Measurement}

/-! ## The last measurements of a window -/

/-- How many measurements were taken after the one in a slot. -/
def age (window : Window) (slot : Nat) : Nat :=
  if slot < window.cursor then window.cursor - 1 - slot else window.cursor + window.size - 1 - slot

theorem age_lt {slot : Nat} (held : slot < window.size) : window.age slot < window.size := by
  have := window.cursor_lt
  unfold age
  split
  · unfold size
    omega
  · omega

/-- A measurement makes all others one older, and goes into the place of the oldest. -/
theorem age_push {slot : Nat} (held : slot < window.size) (measurement : Measurement) :
    (window.push measurement).age slot =
      if slot = window.cursor then 0 else window.age slot + 1 := by
  have bound : window.cursor < window.size := window.cursor_lt
  have cursor : (window.push measurement).cursor = (window.cursor + 1) % window.size := rfl
  simp only [age, size_push, cursor]
  rcases Nat.lt_or_eq_of_le bound with inside | wraps
  · rw [Nat.mod_eq_of_lt inside]
    split_ifs <;> omega
  · rw [← wraps, Nat.succ_eq_add_one, Nat.mod_self]
    split_ifs <;> omega

/-- The last `count` measurements, as far as they are still held, satisfy a property. -/
def Lately (property : Measurement → Prop) (count : Nat) (window : Window) : Prop :=
  ∀ slot measurement, window.slots[slot]? = some measurement → window.age slot < count →
    property measurement

variable {property : Measurement → Prop} {count : Nat}

theorem Lately.push (lately : window.Lately property count) (holds : property measurement) :
    (window.push measurement).Lately property (count + 1) := by
  intro slot held found young
  have within : slot < window.size := by
    rw [← size_push window measurement]
    exact (List.getElem?_eq_some_iff.1 found).1
  rw [age_push within] at young
  rw [getElem?_push] at found
  split at found
  · cases found
    exact holds
  · rename_i other
    rw [if_neg other] at young
    exact lately slot held found (Nat.lt_of_succ_lt_succ young)

/-- After as many measurements as there are slots, every slot holds one of them. -/
theorem Lately.all (lately : window.Lately property count) (enough : window.size ≤ count) :
    ∀ held ∈ window.slots, property held := by
  intro held member
  obtain ⟨slot, within, rfl⟩ := List.mem_iff_getElem.1 member
  exact lately slot _ (List.getElem?_eq_getElem within)
    (Nat.lt_of_lt_of_le (age_lt within) enough)

end Window

namespace Peers

variable {peers : Peers} {top dead alive : Peer}

/-! ## Ranking by loss -/

theorem zero_of_outranks {best other : Peer} (nonneg : Nonneg (single other.loss))
    (zero : IsZero (single best.loss)) (outranks : other.outranks best = true) :
    IsZero (single other.loss) := by
  simp only [Peer.outranks, Bool.or_eq_true, Bool.and_eq_true, decide_eq_true_eq] at outranks
  rcases outranks with less | ⟨equal, -⟩
  · rw [Decimal.single_lt, nonneg.not_lt_zero zero] at less
    cases less
  · exact IsZero.of_beq nonneg zero equal

theorem outranks_of_zero {best other : Peer} (nonneg : Nonneg (single best.loss))
    (zero : IsZero (single other.loss)) (stays : ¬ other.outranks best = true) :
    IsZero (single best.loss) := by
  refine (nonneg.zero_or_lt zero).resolve_right fun less => stays ?_
  rw [Peer.outranks, Bool.or_eq_true, decide_eq_true_eq, Decimal.single_lt]
  exact .inl less

/-- If somebody has no loss, then the one ranked first has none. -/
theorem zero_of_ranked {list : List Peer} (nonneg : ∀ peer ∈ list, Nonneg (single peer.loss))
    (first : ranked list = some top) (lossless : ∃ peer ∈ list, IsZero (single peer.loss)) :
    IsZero (single top.loss) := by
  cases list with
  | nil => cases first
  | cons best rest =>
      cases first
      obtain ⟨here, others⟩ := List.forall_mem_cons.1 nonneg
      simp only [List.mem_cons, exists_eq_or_imp] at lossless
      clear nonneg
      induction rest generalizing best with
      | nil => simpa using lossless
      | cons other rest ih =>
          obtain ⟨next, others⟩ := List.forall_mem_cons.1 others
          simp only [List.mem_cons, exists_eq_or_imp] at lossless
          rw [List.foldl_cons]
          split
          · rename_i outranks
            refine ih other next others ?_
            rcases lossless with zero | zero | later
            · exact .inl (zero_of_outranks next zero outranks)
            · exact .inl zero
            · exact .inr later
          · rename_i stays
            refine ih best here others ?_
            rcases lossless with zero | zero | later
            · exact .inl zero
            · exact .inl (outranks_of_zero here zero stays)
            · exact .inr later

/-- A peer with loss is not selected while another one has none. -/
theorem select_ne_of_loss (sound : peers.Sound)
    (nonneg : ∀ peer ∈ peers.list, Nonneg (single peer.loss)) (listed : dead ∈ peers.list)
    {place : Int} (lost : AtLeast place (single dead.loss)) (other : alive ∈ peers.list)
    (eligible : alive.isEligible = true) (lossless : IsZero (single alive.loss)) :
    ∃ chosen, peers.select.1 = some chosen ∧ chosen.gateway ≠ dead.gateway := by
  obtain ⟨top, first⟩ := Option.isSome_iff_exists.1 (topRanked_isSome other eligible)
  have zero : IsZero (single top.loss) :=
    zero_of_ranked (fun peer member => nonneg peer (List.mem_of_mem_filter member)) first
      ⟨alive, List.mem_filter.2 ⟨other, eligible⟩, lossless⟩
  have reason : Reason peers.margins dead top := by
    left
    rw [Decimal.single_lt]
    exact lost.lt zero
  rcases select_cases first with ⟨chosen, -⟩ | ⟨old, incumbent, chosen, rest⟩
  · refine ⟨top, chosen, fun same => ?_⟩
    cases sound.eq_of_gateway listed (mem_of_topRanked first).1 same
    have := lost.lt zero
    rw [zero.lt_of_zero zero] at this
    cases this
  · refine ⟨old, chosen, fun same => ?_⟩
    cases sound.eq_of_gateway listed (eligible_of_incumbent incumbent).1 same
    exact rest reason

/-! ## Windows over a run -/

theorem measured_window {peer : Peer} {tallies : Tallies} {tally : Tally}
    (found : tallies.get? peer.gateway = some tally) (active : peer.state = .active)
    (probed : 0 < tally.sent) :
    (measured tallies peer).window = peer.window.push ⟨tally.latency, tally.loss⟩ := by
  have counts : peer.state = .active && tally.isValid := by
    simpa [active, Tally.isValid] using probed
  simp only [measured, found]
  rw [if_pos counts]

/-- A round leaves a window as it is, or puts the figures of the peer's tally into it. -/
theorem measured_window_cases (tallies : Tallies) (peer : Peer) :
    (measured tallies peer).window = peer.window ∨
      ∃ tally, tallies.get? peer.gateway = some tally ∧ (measured tallies peer).window =
        peer.window.push ⟨tally.latency, tally.loss⟩ := by
  unfold measured
  split
  · exact .inl rfl
  · rename_i tally found
    split
    · exact .inr ⟨tally, found, rfl⟩
    · exact .inl rfl

section Runs

variable {σ : Type} [RoutingTable σ] {state : Peers × σ} {op : Operation σ} {size : Nat}

/-- Every window has the asked size, and holds losses that are numbers and not negative. -/
structure Sized (size : Nat) (peers : Peers) : Prop where
  asked : peers.windowSize = size
  size : ∀ peer ∈ peers.list, peer.window.size = max size 1
  nonneg : ∀ peer ∈ peers.list, ∀ slot ∈ peer.window.slots, Nonneg (single slot.loss)

theorem Sized.step (sized : Sized size state.1) (op : Operation σ) :
    Sized size (op.step state).1 := by
  have window : ∀ after ∈ (op.step state).1.list, after.window.size = max size 1 ∧
      ∀ slot ∈ after.window.slots, Nonneg (single slot.loss) := by
    intro after member
    rcases op.of_mem_step member with ⟨before, stood, -, window⟩ | ⟨-, window⟩
    · have kept := And.intro (sized.size before stood) (sized.nonneg before stood)
      rw [window]
      cases op with
      | ping tallies =>
          rcases measured_window_cases tallies before with same | ⟨tally, -, pushed⟩
          · rwa [Operation.window, same]
          · rw [Operation.window, pushed]
            refine ⟨(Window.size_push _ _).trans kept.1, fun slot held => ?_⟩
            rcases List.mem_or_eq_of_mem_set held with stays | rfl
            · exact kept.2 slot stays
            · exact tally.nonneg_loss
      | add | remove | enable | commit | setMargins | select | flush | close | outside => exact kept
    · rw [window, sized.asked]
      refine ⟨List.length_replicate, fun slot held => ?_⟩
      rw [List.eq_of_mem_replicate held]
      exact .zero .positive
  exact ⟨(op.windowSize_step state).trans sized.asked, fun peer member => (window peer member).1,
    fun peer member => (window peer member).2⟩

/-- The last measurements of the peer of a gateway, as many as are counted, satisfy a
property. -/
def Streak (gateway : Address) (property : Measurement → Prop) (count : Nat) (peers : Peers) :
    Prop :=
  ∀ peer, peers.peer? gateway = some peer →
    peer.window.Lately property count ∧ count ≤ peer.window.recorded

/-- The operation is a round of probes. -/
def Operation.isRound : Operation σ → Bool
  | .ping _ => true
  | _ => false

variable {gateway : Address} {property : Measurement → Prop} {count : Nat}

theorem Streak.step (streak : Streak gateway property count state.1) (sound : state.1.Sound)
    {peer : Peer} (known : state.1.peer? gateway = some peer) (active : peer.state = .active)
    (probed : ∀ tallies, op = .ping tallies → ∃ tally, tallies.get? gateway = some tally ∧
      0 < tally.sent ∧ property ⟨tally.latency, tally.loss⟩) :
    Streak gateway property (count + [op].countP Operation.isRound) (op.step state).1 := by
  intro after found
  obtain ⟨listed, here⟩ := mem_of_peer? found
  obtain ⟨member, there⟩ := mem_of_peer? known
  rcases op.of_mem_step listed with ⟨before, stood, same, window⟩ | ⟨free, -⟩
  · have one : before = peer := sound.eq_of_gateway member stood
      ((congrArg Link.gateway same).symm.trans (here.trans there.symm))
    subst one
    obtain ⟨lately, recorded⟩ := streak before known
    rw [window]
    cases op with
    | ping tallies =>
        obtain ⟨tally, tallied, sent, holds⟩ := probed tallies rfl
        rw [← there] at tallied
        rw [Operation.window, measured_window tallied active sent]
        exact ⟨lately.push holds, Nat.succ_le_succ recorded⟩
    | add | remove | enable | commit | setMargins | select | flush | close | outside =>
        exact ⟨lately, recorded⟩
  · rw [here, known] at free
    cases free

/-- The peer of a gateway is active. -/
def IsActive (peers : Peers) (gateway : Address) : Prop :=
  ∃ peer ∈ peers.peer? gateway, peer.state = .active

instance (peers : Peers) (gateway : Address) : Decidable (peers.IsActive gateway) :=
  inferInstanceAs (Decidable (∃ peer ∈ peers.peer? gateway, _))

/-- A round in which probes were sent to both addresses, and one did not reply while the other
one replied to all of them.  Operations other than rounds may be any. -/
def Operation.Parts (dead alive : Address) : Operation σ → Prop
  | .ping tallies =>
      (∃ tally ∈ tallies.get? dead, 0 < tally.sent ∧ tally.received = 0) ∧
        ∃ tally ∈ tallies.get? alive, 0 < tally.sent ∧ tally.sent ≤ tally.received
  | _ => True

instance (dead alive : Address) (op : Operation σ) : Decidable (op.Parts dead alive) :=
  match op with
  | .ping tallies => inferInstanceAs (Decidable ((∃ tally ∈ tallies.get? dead, _) ∧
      ∃ tally ∈ tallies.get? alive, _))
  | .add .. | .remove .. | .enable .. | .commit | .setMargins .. | .select | .flush | .close
  | .outside .. => .isTrue trivial

/-- In a whole stretch of a run both peers stay active, and every round parts them. -/
def Outage (dead alive : Address) : List (Operation σ) → Peers × σ → Prop
  | [], state => state.1.IsActive dead ∧ state.1.IsActive alive
  | op :: rest, state => (state.1.IsActive dead ∧ state.1.IsActive alive) ∧
      op.Parts dead alive ∧ Outage dead alive rest (op.step state)

instance decidableOutage (dead alive : Address) :
    ∀ (stretch : List (Operation σ)) (state : Peers × σ),
      Decidable (Outage dead alive stretch state)
  | [], _ => inferInstanceAs (Decidable (_ ∧ _))
  | op :: rest, state =>
      have := decidableOutage dead alive rest (op.step state)
      inferInstanceAs (Decidable (_ ∧ _ ∧ _))

/-- What is known of both peers after some rounds of an outage. -/
structure Parted (size : Nat) (dead alive : Address) (rounds : Nat) (peers : Peers) : Prop where
  sound : peers.Sound
  sized : Sized size peers
  lost : Streak dead (fun slot => AtLeast 1 (single slot.loss)) rounds peers
  lossless : Streak alive (fun slot => IsZero (single slot.loss)) rounds peers

variable {dead alive : Address} {rounds : Nat}

theorem Parted.step (parted : Parted size dead alive rounds state.1)
    (deadActive : state.1.IsActive dead) (aliveActive : state.1.IsActive alive)
    (parts : op.Parts dead alive) :
    Parted size dead alive (rounds + [op].countP Operation.isRound) (op.step state).1 := by
  obtain ⟨peer, known, active⟩ := deadActive
  obtain ⟨other, known', active'⟩ := aliveActive
  refine ⟨op.sound_step parted.sound, parted.sized.step op, ?_, ?_⟩
  · refine parted.lost.step parted.sound known active fun tallies round => ?_
    subst round
    obtain ⟨tally, found, probed, silent⟩ := parts.1
    exact ⟨tally, found, probed, Tally.loss_one probed silent⟩
  · refine parted.lossless.step parted.sound known' active' fun tallies round => ?_
    subst round
    obtain ⟨tally, found, probed, replied⟩ := parts.2
    exact ⟨tally, found, probed, Tally.loss_zero probed replied⟩

theorem Parted.run {stretch : List (Operation σ)} (parted : Parted size dead alive rounds state.1)
    (outage : Outage dead alive stretch state) :
    Parted size dead alive (rounds + stretch.countP Operation.isRound)
        (Peers.run stretch state).1 ∧
      (Peers.run stretch state).1.IsActive dead ∧ (Peers.run stretch state).1.IsActive alive := by
  induction stretch generalizing state rounds with
  | nil => exact ⟨parted, outage⟩
  | cons op rest ih =>
      obtain ⟨⟨deadActive, aliveActive⟩, parts, outage⟩ := outage
      have later := ih (parted.step deadActive aliveActive parts) outage
      rw [Nat.add_assoc, ← List.countP_append] at later
      exact later

/-- After a window of rounds the dead peer is not selected. -/
theorem Parted.select (parted : Parted size dead alive rounds peers) (held : max size 1 < 2 ^ 64)
    (enough : max size 1 ≤ rounds) (deadActive : peers.IsActive dead)
    (aliveActive : peers.IsActive alive) :
    ∃ chosen, peers.select.1 = some chosen ∧ chosen.gateway ≠ dead := by
  obtain ⟨peer, known, -⟩ := deadActive
  obtain ⟨other, known', active⟩ := aliveActive
  obtain ⟨member, here⟩ := mem_of_peer? known
  obtain ⟨member', -⟩ := mem_of_peer? known'
  obtain ⟨lost, -⟩ := parted.lost peer known
  obtain ⟨lossless, recorded⟩ := parted.lossless other known'
  have within : ∀ peer ∈ peers.list, peer.window.size < 2 ^ 64 := fun peer member => by
    rwa [parted.sized.size peer member]
  have eligible : other.isEligible = true := by
    simp only [Peer.isEligible, Window.isMeasured, active, Bool.and_eq_true, decide_eq_true_eq]
    exact ⟨trivial, by omega⟩
  rw [← here]
  refine select_ne_of_loss parted.sound
    (fun peer member => Window.nonneg_loss (within peer member) (parted.sized.nonneg peer member))
    member (Window.loss_positive (within peer member) (lost.all ?_)) member' eligible
    (Window.loss_zero (within other member') (lossless.all ?_))
  · rwa [parted.sized.size peer member]
  · rwa [parted.sized.size other member']

/-- However the peers of a group came to where they are: while one peer does not answer and
another one answers every probe, a window of rounds is enough for the first one not to be
selected. -/
theorem dead_path_left (group : GroupId) (windowSize : UInt64) (margins : Margins) (table : σ)
    (ops stretch : List (Operation σ)) (dead alive : Address)
    (outage : Outage dead alive stretch
      (run ops ({ group, windowSize := windowSize.toNat, margins }, table)))
    (enough : max windowSize.toNat 1 ≤ stretch.countP Operation.isRound) :
    ∃ chosen, (run (ops ++ stretch)
        ({ group, windowSize := windowSize.toNat, margins }, table)).1.select.1 = some chosen ∧
      chosen.gateway ≠ dead := by
  let fresh : Peers × σ := ({ group, windowSize := windowSize.toNat, margins }, table)
  have sound : fresh.1.Sound := List.nodup_nil
  have sized : Sized windowSize.toNat (run ops fresh).1 :=
    run_induction (motive := fun state => Sized windowSize.toNat state.1) ops
      ⟨rfl, by simp [fresh], by simp [fresh]⟩ fun op _ _ sized => sized.step op
  have nothing (gateway : Address) (property : Measurement → Prop) :
      Streak gateway property 0 (run ops fresh).1 :=
    fun _ _ => ⟨fun _ _ _ young => absurd young (Nat.not_lt_zero _), Nat.zero_le _⟩
  have begins : Parted windowSize.toNat dead alive 0 (run ops fresh).1 :=
    ⟨run_sound sound ops, sized, nothing dead _, nothing alive _⟩
  obtain ⟨parted, deadActive, aliveActive⟩ := begins.run outage
  rw [run_append]
  have small := windowSize.toNat_lt
  exact parted.select (by omega) (by omega) deadActive aliveActive

end Runs

end Peers

namespace Sample

/-- A round in which the first peer did not answer. -/
def silence : Tallies :=
  .ofList [(.v4 0x0A000001#32, { sent := 3 }),
    (.v4 0x0A000002#32, { sent := 3, received := 3, rtt := 50, average := 50 })]

/-- Two rounds without an answer of the first peer, with a selection between them. -/
def failing : List (Peers.Operation MemoryTable) := [.ping silence, .select, .ping silence]

/-- Peers with windows of two measurements. -/
def watched : Peers × MemoryTable :=
  ({ group := ⟨1⟩, windowSize := (2 : UInt64).toNat, margins := ⟨10, 1.5⟩ }, {})

end Sample

namespace Peers

/-- The first peer wins the race, and is left after two rounds without an answer. -/
theorem winner_left :
    (run (Sample.race ++ [.select]) Sample.watched).1.incumbent = some (.v4 0x0A000001#32) ∧
      Outage (.v4 0x0A000001#32) (.v4 0x0A000002#32) Sample.failing
        (run (Sample.race ++ [.select]) Sample.watched) ∧
      max (2 : UInt64).toNat 1 ≤ Sample.failing.countP Operation.isRound ∧
      ∃ chosen,
        (run ((Sample.race ++ [.select]) ++ Sample.failing) Sample.watched).1.select.1 =
            some chosen ∧
          chosen.gateway ≠ .v4 0x0A000001#32 := by
  have outage : Outage (.v4 0x0A000001#32) (.v4 0x0A000002#32) Sample.failing
      (run (Sample.race ++ [.select]) Sample.watched) := by decide +kernel
  have enough : max (2 : UInt64).toNat 1 ≤ Sample.failing.countP Operation.isRound := by
    decide +kernel
  have before : (run (Sample.race ++ [.select]) Sample.watched).1.incumbent =
      some (.v4 0x0A000001#32) := by decide +kernel
  have left := dead_path_left ⟨1⟩ 2 ⟨10, 1.5⟩ ({} : MemoryTable) (Sample.race ++ [.select])
    Sample.failing (.v4 0x0A000001#32) (.v4 0x0A000002#32)
  exact ⟨before, outage, enough, left outage enough⟩

end Peers

end OverlayRouting
