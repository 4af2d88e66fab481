/-
# OverlayRouting.Proofs.Switching -- when traffic moves, and when a silent peer gets it

In every state that a run reaches the figures of all peers are numbers (`figured_run`), so the
ranking is a true one.  Traffic leaves an eligible incumbent only for the first peer of the
ranking, and for a reason (`select_moves_iff`).  That peer is better than the incumbent or level
with it, and the reason to move to a level one is that the margins ask for nothing: they are
switched off, or they are lost in rounding at this latency (`moves_up`).

A peer that never answered has gaps in its window, so only less loss is a reason to move to it
(`select_gapped_iff`).  The slots that it has not filled count as lossless.  So with a short
history it may have less loss than a peer that answers in every round but loses some probes, and
then traffic goes to it.  It never goes to a silent peer past one with less loss, such as one that
lost nothing (`unanswered_selected_iff`).
-/
import OverlayRouting.Proofs.DeadPath
import OverlayRouting.Proofs.Ranking

namespace OverlayRouting

set_option autoImplicit false

open Decimal (single Nonneg IsZero lt_iff_height beq_iff_height)

/-! ## The figures of a window -/

namespace Window

variable {window : Window}

theorem length_latencies (window : Window) : window.latencies.length ≤ window.size := by
  rw [latencies, size, ← List.length_map Measurement.latency]
  exact List.length_filter_le _ _

theorem nonneg_latency (held : window.size < 2 ^ 64) : Nonneg (single window.latency) := by
  rw [latency]
  split
  · exact .zero .positive
  · rename_i answered
    have some_known : 0 < window.latencies.length :=
      List.length_pos_iff.2 (mt List.isEmpty_iff.2 answered)
    have few : window.latencies.length < 2 ^ 64 := window.length_latencies.trans_lt held
    have total : Nonneg (single (window.latencies.foldl (· + ·) 0)) :=
      single_sum _ (.zero .positive) fun known member =>
        Decimal.nonneg_of_pos (of_decide_eq_true (List.mem_filter.1 member).2)
    obtain ⟨mean, canonical⟩ := total.div (Decimal.ofNat_within some_known few)
    exact mean.stored canonical

/-- Without an answer there are gaps. -/
theorem isComplete_of_silent (silent : ∀ slot ∈ window.slots, ¬ 0 < slot.latency) :
    window.isComplete = false := by
  have nothing : window.latencies = [] := by
    rw [latencies, List.filter_eq_nil_iff]
    simpa using silent
  rw [isComplete, nothing, decide_eq_false_iff_not]
  exact window.size_pos.ne

end Window

namespace Peer

variable {peer other : Peer}

/-! ## Levels -/

/-- Two peers with as much loss and as much latency. -/
def Level (peer other : Peer) : Prop :=
  (peer.loss == other.loss) = true ∧ (peer.latency == other.latency) = true

instance (peer other : Peer) : Decidable (peer.Level other) := inferInstanceAs (Decidable (_ ∧ _))

theorem level_iff (figures : peer.HasFigures) (figures' : other.HasFigures) :
    peer.Level other ↔ peer.standing = other.standing := by
  rw [Level, beq_iff_height figures.1 figures'.1, beq_iff_height figures.2 figures'.2, standing,
    standing, toLex_inj, Prod.mk.injEq]

theorem Level.loss_not_lt (level : peer.Level other) (figures : peer.HasFigures)
    (figures' : other.HasFigures) : ¬ peer.loss < other.loss := by
  rw [lt_iff_height figures.1 figures'.1, (beq_iff_height figures.1 figures'.1).1 level.1]
  exact lt_irrefl _

theorem NoWorse.outranks_or_level (noWorse : peer.NoWorse other) (figures : peer.HasFigures)
    (figures' : other.HasFigures) : peer.outranks other = true ∨ peer.Level other := by
  rw [outranks_iff figures figures', level_iff figures figures', ← le_iff_lt_or_eq]
  exact (noWorse_iff figures figures').1 noWorse

theorem NoWorse.loss_not_lt (noWorse : peer.NoWorse other) (figures : peer.HasFigures)
    (figures' : other.HasFigures) : ¬ other.loss < peer.loss := by
  rw [lt_iff_height figures'.1 figures.1, not_lt]
  rcases noWorse with less | ⟨same, -⟩
  · exact ((lt_iff_height figures.1 figures'.1).1 less).le
  · exact ((beq_iff_height figures.1 figures'.1).1 same).le

end Peer

namespace Peers

variable {peers : Peers} {old new : Peer}

/-! ## Leaving an incumbent -/

theorem stands_of_mem (sound : peers.Sound) (member : old ∈ peers.list)
    (eligible : old.isEligible = true) (remembered : peers.incumbent = some old.gateway) :
    peers.eligibleIncumbent = some old := by
  cases stands : peers.eligibleIncumbent with
  | none => exact absurd remembered (eligibleIncumbent_eq_none_iff.1 stands old member eligible)
  | some other =>
      have same := Option.some_inj.1 ((gateway_of_incumbent stands).symm.trans remembered)
      rw [sound.eq_of_gateway member (eligible_of_incumbent stands).1 same]

/-- Traffic moves from an eligible incumbent exactly to the peer ranked first, and exactly if there
is a reason. -/
theorem select_moves_iff (stands : peers.eligibleIncumbent = some old)
    (moved : new.gateway ≠ old.gateway) :
    peers.select.1 = some new ↔ peers.topRanked = some new ∧ Reason peers.margins old new := by
  obtain ⟨listed, eligible⟩ := eligible_of_incumbent stands
  obtain ⟨top, first⟩ := Option.isSome_iff_exists.1 (topRanked_isSome listed eligible)
  rw [first]
  rcases select_cases first with ⟨chosen, reason⟩ | ⟨other, incumbent, chosen, rest⟩
  · rw [chosen]
    refine ⟨fun same => ⟨same, ?_⟩, And.left⟩
    cases same
    exact (reason old stands).resolve_left moved.symm
  · cases incumbent.symm.trans stands
    rw [chosen]
    refine ⟨fun same => ?_, fun ⟨same, reason⟩ => ?_⟩ <;> cases same
    · exact absurd rfl moved
    · exact absurd reason rest

/-- For a peer with gaps in its window only less loss is a reason. -/
theorem select_gapped_iff (sound : peers.Sound) (gaps : new.window.isComplete = false)
    (apart : peers.incumbent ≠ some new.gateway) :
    peers.select.1 = some new ↔ peers.topRanked = some new ∧
      ∀ old ∈ peers.list, old.isEligible = true → peers.incumbent = some old.gateway →
        new.loss < old.loss := by
  cases stands : peers.eligibleIncumbent with
  | none =>
      have nobody := eligibleIncumbent_eq_none_iff.1 stands
      rw [select_of_no_incumbent stands, iff_self_and]
      exact fun _ old listed eligible remembered => absurd remembered (nobody old listed eligible)
  | some old =>
      obtain ⟨listed, eligible⟩ := eligible_of_incumbent stands
      have remembered := gateway_of_incumbent stands
      have moved : new.gateway ≠ old.gateway := fun same => apart (same ▸ remembered)
      rw [select_moves_iff stands moved, and_congr_right_iff]
      refine fun _ => ⟨fun reason other listed' eligible' remembered' => ?_, fun less => ?_⟩
      · cases (stands_of_mem sound listed' eligible' remembered').symm.trans stands
        exact reason.resolve_right fun complete => by simp [gaps] at complete
      · exact .inl (less old listed eligible remembered)

/-! ## Moving between peers -/

section

variable {σ : Type} [RoutingTable σ]

/-- In a state that a run reaches there is one peer for a gateway, and all figures are numbers. -/
theorem figured_run (group : GroupId) (windowSize : UInt64) (margins : Margins) (table : σ)
    (ops : List (Operation σ)) :
    let peers := (run ops ({ group, windowSize := windowSize.toNat, margins }, table)).1
    peers.Sound ∧ ∀ peer ∈ peers.list, peer.window.size < 2 ^ 64 ∧
      (∀ slot ∈ peer.window.slots, Nonneg (single slot.loss)) ∧ peer.HasFigures := by
  intro peers
  let fresh : Peers × σ := ({ group, windowSize := windowSize.toNat, margins }, table)
  have sized : Sized windowSize.toNat (run ops fresh).1 :=
    run_induction (motive := fun state => Sized windowSize.toNat state.1) ops
      ⟨rfl, by simp [fresh], by simp [fresh]⟩ fun op _ _ sized => sized.step op
  have small := windowSize.toNat_lt
  have begins : fresh.1.Sound := List.nodup_nil
  refine ⟨run_sound begins ops, fun peer member => ?_⟩
  have held : peer.window.size < 2 ^ 64 := by
    rw [sized.size peer member]
    omega
  have nonneg := sized.nonneg peer member
  exact ⟨held, nonneg, (Window.nonneg_loss held nonneg).isNaN, (Window.nonneg_latency held).isNaN⟩

/-- Traffic moves from an eligible incumbent only to the first peer of the best rank.  That one is
better or level, and traffic moves to a level one exactly if both windows are complete and the
margins ask for nothing. -/
theorem moves_up (group : GroupId) (windowSize : UInt64) (margins : Margins) (table : σ)
    (ops : List (Operation σ)) :
    let peers := (run ops ({ group, windowSize := windowSize.toNat, margins }, table)).1
    ∀ old ∈ peers.list, old.isEligible = true → peers.incumbent = some old.gateway →
      ∀ new, new.gateway ≠ old.gateway →
        (peers.select.1 = some new → peers.foremost? = some new ∧
          (new.outranks old = true ∨ new.Level old)) ∧
        (new.Level old → (peers.select.1 = some new ↔ peers.foremost? = some new ∧
          old.window.isComplete = true ∧ new.window.isComplete = true ∧
          (peers.margins.isEnabled = false ∨
            new.latency + peers.margins.diff ≤ old.latency ∧
              new.latency * peers.margins.ratio ≤ old.latency))) := by
  intro peers old listed eligible remembered new moved
  obtain ⟨sound, figures⟩ := figured_run group windowSize margins table ops
  have figured : peers.Figured := fun peer member _ => (figures peer member).2.2
  have oldFigures := (figures old listed).2.2
  have newFigures (first : peers.foremost? = some new) : new.HasFigures :=
    (figures new (List.mem_of_find?_eq_some first)).2.2
  have moves := select_moves_iff (stands_of_mem sound listed eligible remembered) moved
  rw [topRanked_eq figured] at moves
  refine ⟨fun selected => ?_, fun level => ?_⟩
  · have first := (moves.1 selected).1
    have noWorse := (foremost_of_find first).2 old listed eligible
    exact ⟨first, noWorse.outranks_or_level (newFigures first) oldFigures⟩
  · rw [moves, Reason, and_congr_right_iff]
    exact fun first => or_iff_right (level.loss_not_lt (newFigures first) oldFigures)

end

end Peers

namespace Sample

/-- A group without peers, with windows of some size. -/
def fresh (windowSize : UInt64) (margins : Margins) : Peers × MemoryTable :=
  ({ group := ⟨1⟩, windowSize := windowSize.toNat, margins }, {})

/-- The second peer wins the race, and afterwards both are level. -/
def overtaken : List (Peers.Operation MemoryTable) :=
  [.add (link "wg1" 0x0A000001#32 1 1) false, .add (link "wg2" 0x0A000002#32 2 1) false, .commit,
    .ping (racing 50 40), .select, .ping (racing 40 40)]

end Sample

namespace Peers

/-- A selection leaves an eligible incumbent for a peer that is level with it, and not better. -/
def MovesLevel (peers : Peers) : Prop :=
  ∃ old ∈ peers.list, old.isEligible = true ∧ peers.incumbent = some old.gateway ∧
    ∃ new ∈ peers.select.1, new.gateway ≠ old.gateway ∧ new.Level old ∧ ¬ new.outranks old = true

instance (peers : Peers) : Decidable peers.MovesLevel :=
  inferInstanceAs (Decidable (∃ old ∈ peers.list, _))

/-- Traffic moves between level peers without margins, and with one that is lost in rounding. -/
theorem moves_between_level :
    (run Sample.overtaken (Sample.fresh 1 .none)).1.MovesLevel ∧
      (run Sample.overtaken (Sample.fresh 1 ⟨0.000001, 0⟩)).1.MovesLevel := by
  decide +kernel

/-- Without margins traffic goes back to the first one of two level peers. -/
theorem moves_back :
    let peers := (run Sample.overtaken (Sample.fresh 1 .none)).1
    ∃ old ∈ peers.list, old.isEligible = true ∧ peers.incumbent = some old.gateway ∧
      ∃ new, new.gateway ≠ old.gateway ∧ new.Level old ∧ peers.select.1 = some new := by
  intro peers
  have tied : ∃ old ∈ peers.list, old.isEligible = true ∧ peers.incumbent = some old.gateway ∧
      ∃ new ∈ peers.foremost?, new.gateway ≠ old.gateway ∧ new.Level old ∧
        old.window.isComplete = true ∧ new.window.isComplete = true ∧
        peers.margins.isEnabled = false := by
    decide +kernel
  have moves := moves_up ⟨1⟩ 1 .none {} Sample.overtaken
  obtain ⟨old, listed, eligible, remembered, new, first, moved, level, rest⟩ := tied
  have goes := (moves old listed eligible remembered new moved).2 level
  exact ⟨old, listed, eligible, remembered, new, moved, level,
    goes.2 ⟨first, rest.1, rest.2.1, .inl rest.2.2⟩⟩

/-! ## Peers without an answer -/

/-- Traffic goes over to a peer without an answer exactly if that is the first one of the best
rank, and has less loss than an eligible incumbent.  So it does not go there past a peer with less
loss; and if all probes of some round to it were lost, not past one that has lost nothing. -/
theorem unanswered_selected_iff {σ : Type} [RoutingTable σ] (group : GroupId)
    (windowSize : UInt64) (margins : Margins) (table : σ) (ops : List (Operation σ)) :
    let peers := (run ops ({ group, windowSize := windowSize.toNat, margins }, table)).1
    ∀ silent ∈ peers.list, (∀ slot ∈ silent.window.slots, ¬ 0 < slot.latency) →
      peers.incumbent ≠ some silent.gateway →
      (peers.select.1 = some silent ↔ peers.foremost? = some silent ∧
        ∀ old ∈ peers.list, old.isEligible = true → peers.incumbent = some old.gateway →
          silent.loss < old.loss) ∧
      ∀ answering ∈ peers.list, answering.isEligible = true →
        (answering.loss < silent.loss → peers.select.1 ≠ some silent) ∧
        ((∃ slot ∈ silent.window.slots, 1 ≤ slot.loss) →
          (∀ slot ∈ answering.window.slots, (slot.loss == 0) = true) →
          peers.select.1 ≠ some silent) := by
  intro peers silent member unanswered apart
  obtain ⟨sound, figures⟩ := figured_run group windowSize margins table ops
  have figured : peers.Figured := fun peer member _ => (figures peer member).2.2
  have gaps : silent.window.isComplete = false := Window.isComplete_of_silent unanswered
  have selected_iff := select_gapped_iff sound gaps apart
  rw [topRanked_eq figured] at selected_iff
  refine ⟨selected_iff, fun answering listed eligible => ⟨fun less selected => ?_,
    fun lost lossless selected => ?_⟩⟩
  · have foremost : peers.Foremost silent := foremost_of_find (selected_iff.1 selected).1
    exact (foremost.2 answering listed eligible).loss_not_lt (figures silent member).2.2
      (figures answering listed).2.2 less
  · have positive := Window.loss_positive_of_slot (figures silent member).1
      (figures silent member).2.1 (lost.imp fun _ => And.imp_right Decimal.atLeast_of_one_le)
    have zero := Window.loss_zero (figures answering listed).1 fun slot held =>
      IsZero.of_beq ((figures answering listed).2.1 slot held) (.zero .positive)
        (lossless slot held)
    obtain ⟨chosen, chooses, other⟩ := select_ne_of_loss sound
      (fun peer member => Window.nonneg_loss (figures peer member).1 (figures peer member).2.1)
      member positive listed eligible zero
    cases chooses.symm.trans selected
    exact other rfl

end Peers

namespace Sample

/-- Of three probes in a round the first peer answers some, and the second one answers none in the
only round since it was admitted. -/
def newcomer (received : UInt64) : List (Peers.Operation MemoryTable) :=
  let answered : Tally := { sent := 3, received, rtt := 50, average := 50 }
  [.add (link "wg1" 0x0A000001#32 1 1) false, .commit,
    .ping (.ofList [(.v4 0x0A000001#32, answered)]), .select,
    .add (link "wg2" 0x0A000002#32 2 1) false, .commit,
    .ping (.ofList [(.v4 0x0A000001#32, answered), (.v4 0x0A000002#32, { sent := 3 })])]

end Sample

namespace Peers

/-- Traffic leaves a peer that answers in every round for one that never answered. -/
theorem goes_to_silent :
    let peers := (run (Sample.newcomer 1) (Sample.fresh 2 .none)).1
    ∃ answering ∈ peers.list, answering.isEligible = true ∧ answering.window.isComplete = true ∧
      ∃ silent ∈ peers.select.1, silent.isEligible = true ∧
        (∀ slot ∈ silent.window.slots, ¬ 0 < slot.latency) ∧
        peers.incumbent ≠ some silent.gateway := by
  decide +kernel

/-- The silent peer is selected with half of its window unfilled, but not with a window of one
round, and not past a peer that answered all probes. -/
theorem silent_while_unfilled :
    (let peers := (run (Sample.newcomer 1) (Sample.fresh 2 .none)).1
      ∃ silent, peers.select.1 = some silent ∧ ∀ slot ∈ silent.window.slots, ¬ 0 < slot.latency) ∧
    (let peers := (run (Sample.newcomer 1) (Sample.fresh 1 .none)).1
      ∃ silent ∈ peers.list, silent.isEligible = true ∧ peers.select.1 ≠ some silent) ∧
    (let peers := (run (Sample.newcomer 3) (Sample.fresh 2 .none)).1
      ∃ silent ∈ peers.list, silent.isEligible = true ∧ peers.select.1 ≠ some silent) := by
  refine ⟨?_, ?_, ?_⟩ <;> intro peers
  · have goes : ∃ silent ∈ peers.list, (∀ slot ∈ silent.window.slots, ¬ 0 < slot.latency) ∧
        peers.incumbent ≠ some silent.gateway ∧ peers.foremost? = some silent ∧
        ∀ old ∈ peers.list, old.isEligible = true → peers.incumbent = some old.gateway →
          silent.loss < old.loss := by
      decide +kernel
    have selected := unanswered_selected_iff ⟨1⟩ 2 .none {} (Sample.newcomer 1)
    obtain ⟨silent, member, unanswered, apart, goes⟩ := goes
    exact ⟨silent, (selected silent member unanswered apart).1.2 goes, unanswered⟩
  · have less : ∃ silent ∈ peers.list, silent.isEligible = true ∧
        (∀ slot ∈ silent.window.slots, ¬ 0 < slot.latency) ∧
        peers.incumbent ≠ some silent.gateway ∧ ∃ answering ∈ peers.list,
          answering.isEligible = true ∧ answering.loss < silent.loss := by
      decide +kernel
    have selected := unanswered_selected_iff ⟨1⟩ 1 .none {} (Sample.newcomer 1)
    obtain ⟨silent, member, eligible, unanswered, apart, answering, listed, measured, less⟩ := less
    have stays := (selected silent member unanswered apart).2 answering listed measured
    exact ⟨silent, member, eligible, stays.1 less⟩
  · have lossless : ∃ silent ∈ peers.list, silent.isEligible = true ∧
        (∀ slot ∈ silent.window.slots, ¬ 0 < slot.latency) ∧
        peers.incumbent ≠ some silent.gateway ∧ (∃ slot ∈ silent.window.slots, 1 ≤ slot.loss) ∧
        ∃ answering ∈ peers.list, answering.isEligible = true ∧
          ∀ slot ∈ answering.window.slots, (slot.loss == 0) = true := by
      decide +kernel
    have selected := unanswered_selected_iff ⟨1⟩ 2 .none {} (Sample.newcomer 3)
    obtain ⟨silent, member, eligible, unanswered, apart, lost, answering, listed, measured,
      lossless⟩ := lossless
    have stays := (selected silent member unanswered apart).2 answering listed measured
    exact ⟨silent, member, eligible, stays.2 lost lossless⟩

end Peers

end OverlayRouting
