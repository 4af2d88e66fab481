/-
# OverlayRouting.Proofs.Ranking -- selecting is ranking, with an incumbent

Peers are ranked by mean loss, and with equal loss by mean latency.  Figures that are numbers
have heights in a linear order, so a peer that has them has a `standing`, and going once through
the list finds the first one of the best standing (`ranked_split`).  Said by the figures alone
that is the first eligible peer that is no worse than any other (`foremost?`, `topRanked_eq`).

Only an eligible incumbent can be selected in its place.  A selection is remembered by its gateway
alone, and that is enough for the next one to repeat it (`select_select`).  The result for any
peers is `select_by_rank`.
-/
import OverlayRouting.Proofs.FloatOrder
import OverlayRouting.Proofs.Hysteresis

namespace OverlayRouting

set_option autoImplicit false

open Decimal (single height lt_iff_height le_iff_height beq_iff_height)

/-! ## Standings -/

namespace Peer

/-- The mean loss and the mean latency of the peer are numbers. -/
def HasFigures (peer : Peer) : Prop := peer.loss.isNaN = false ∧ peer.latency.isNaN = false

instance (peer : Peer) : Decidable peer.HasFigures := inferInstanceAs (Decidable (_ ∧ _))

/-- The peer has less loss than another one, or as much and no more latency. -/
def NoWorse (peer other : Peer) : Prop :=
  peer.loss < other.loss ∨ (peer.loss == other.loss) = true ∧ peer.latency ≤ other.latency

instance (peer other : Peer) : Decidable (peer.NoWorse other) :=
  inferInstanceAs (Decidable (_ ∨ _))

/-- Where a peer stands in the ranking; the best one has the least standing. -/
def standing (peer : Peer) : (ℤ ×ₗ ℤ ×ₗ ℤ) ×ₗ (ℤ ×ₗ ℤ ×ₗ ℤ) :=
  toLex (height (single peer.loss), height (single peer.latency))

variable {peer other : Peer}

theorem outranks_iff (figures : peer.HasFigures) (figures' : other.HasFigures) :
    peer.outranks other = true ↔ peer.standing < other.standing := by
  rw [standing, standing, Prod.Lex.toLex_lt_toLex, outranks, Bool.or_eq_true, Bool.and_eq_true,
    decide_eq_true_eq, decide_eq_true_eq, lt_iff_height figures.1 figures'.1,
    beq_iff_height figures.1 figures'.1, lt_iff_height figures.2 figures'.2]

theorem noWorse_iff (figures : peer.HasFigures) (figures' : other.HasFigures) :
    peer.NoWorse other ↔ peer.standing ≤ other.standing := by
  rw [standing, standing, Prod.Lex.toLex_le_toLex, NoWorse, lt_iff_height figures.1 figures'.1,
    beq_iff_height figures.1 figures'.1, le_iff_height figures.2 figures'.2]

end Peer

namespace Peers

variable {peers : Peers} {top : Peer}

/-! ## The first of the best -/

theorem ranked_concat (list : List Peer) (last : Peer) :
    ranked (list ++ [last]) = match ranked list with
      | none => some last
      | some best => some (if last.outranks best then last else best) := by
  cases list with
  | nil => rfl
  | cons first rest => simp only [ranked, List.cons_append, List.foldl_append, List.foldl_cons,
      List.foldl_nil]

/-- Whoever stands before the peer ranked first is worse, and nobody behind it is better. -/
theorem ranked_split {list : List Peer} (figures : ∀ peer ∈ list, peer.HasFigures)
    (first : ranked list = some top) :
    ∃ before behind, list = before ++ top :: behind ∧
      (∀ peer ∈ before, top.standing < peer.standing) ∧
      ∀ peer ∈ behind, top.standing ≤ peer.standing := by
  -- the list is taken as the fold takes it, with the peer looked at last at its end
  induction list using List.reverseRecOn generalizing top with
  | nil => cases first
  | append_singleton list last ih =>
      obtain ⟨others, here⟩ := List.forall_mem_append.1 figures
      rw [List.forall_mem_singleton] at here
      rw [ranked_concat] at first
      cases found : ranked list with
      | none =>
          rw [found] at first
          cases first
          cases list with
          | nil => exact ⟨[], [], rfl, nofun, nofun⟩
          | cons => cases found
      | some best =>
          obtain ⟨before, behind, split, worse, noBetter⟩ := ih others found
          have figured : best.HasFigures := others best (by simp [split])
          rw [found] at first
          by_cases better : last.outranks best = true
          · simp only [better, if_true, Option.some_inj] at first
            subst first
            rw [Peer.outranks_iff here figured] at better
            refine ⟨list, [], rfl, fun peer member => ?_, nofun⟩
            rw [split, List.mem_append, List.mem_cons] at member
            rcases member with ahead | rfl | later
            · exact better.trans (worse peer ahead)
            · exact better
            · exact better.trans_le (noBetter peer later)
          · simp only [better, Option.some_inj] at first
            subst first
            rw [Peer.outranks_iff here figured, not_lt] at better
            refine ⟨before, behind ++ [last], by simp [split], worse, fun peer member => ?_⟩
            rcases List.mem_append.1 member with later | isLast
            · exact noBetter peer later
            · rwa [List.mem_singleton.1 isLast]

/-- The peer is eligible, and no eligible one has less loss than it, or as much and less
latency. -/
def Foremost (peers : Peers) (peer : Peer) : Prop :=
  peer.isEligible = true ∧ ∀ other ∈ peers.list, other.isEligible = true → peer.NoWorse other

instance (peers : Peers) (peer : Peer) : Decidable (peers.Foremost peer) :=
  inferInstanceAs (Decidable (_ ∧ _))

/-- The first peer, in the order of the list, of those that nobody is ahead of. -/
def foremost? (peers : Peers) : Option Peer := peers.list.find? fun peer => peers.Foremost peer

theorem foremost_of_find (first : peers.foremost? = some top) : peers.Foremost top := by
  have best := List.find?_some first
  rwa [decide_eq_true_iff] at best

/-- All eligible peers have figures that are numbers. -/
def Figured (peers : Peers) : Prop :=
  ∀ peer ∈ peers.list, peer.isEligible = true → peer.HasFigures

instance (peers : Peers) : Decidable peers.Figured :=
  inferInstanceAs (Decidable (∀ peer ∈ peers.list, _))

theorem topRanked_eq_none_iff :
    peers.topRanked = none ↔ ∀ peer ∈ peers.list, peer.isEligible = false := by
  rw [topRanked]
  cases eligible : peers.list.filter Peer.isEligible with
  | nil => simpa [ranked] using eligible
  | cons peer rest =>
      obtain ⟨member, measured⟩ := List.mem_filter.1 (eligible ▸ List.mem_cons_self)
      simp only [ranked, reduceCtorEq, false_iff]
      exact fun nobody => absurd measured (by simp [nobody peer member])

theorem foremost?_eq (peers : Peers) :
    peers.foremost? = (peers.list.filter Peer.isEligible).find? fun peer =>
      ∀ other ∈ peers.list.filter Peer.isEligible, peer.NoWorse other := by
  rw [foremost?, List.find?_filter]
  congr 1
  funext peer
  rw [Bool.eq_iff_iff, decide_eq_true_iff]
  simp [Foremost, List.mem_filter]

/-- The peer ranked first is the first one that is no worse than any other. -/
theorem topRanked_eq (figured : peers.Figured) : peers.topRanked = peers.foremost? := by
  have figures : ∀ peer ∈ peers.list.filter Peer.isEligible, peer.HasFigures := fun peer member =>
    figured peer (List.mem_filter.1 member).1 (List.mem_filter.1 member).2
  rw [foremost?_eq, topRanked]
  generalize peers.list.filter Peer.isEligible = list at figures
  cases first : ranked list with
  | none =>
      cases list with
      | nil => rfl
      | cons => cases first
  | some top =>
      obtain ⟨before, behind, split, worse, noBetter⟩ := ranked_split figures first
      have here : top.HasFigures := figures top (by simp [split])
      refine (List.find?_eq_some_iff_append.2
        ⟨?_, before, behind, split, fun peer ahead => ?_⟩).symm
      · refine decide_eq_true fun peer member => ?_
        rw [Peer.noWorse_iff here (figures peer member)]
        rw [split, List.mem_append, List.mem_cons] at member
        rcases member with ahead | rfl | later
        · exact (worse peer ahead).le
        · exact le_refl _
        · exact noBetter peer later
      · have member : peer ∈ list := by simp [split, ahead]
        have ahead := worse peer ahead
        rw [Bool.not_eq_true', decide_eq_false_iff_not]
        intro best
        have level := best top (by simp [split])
        rw [Peer.noWorse_iff (figures peer member) here] at level
        exact absurd ahead level.not_gt

/-! ## Selecting -/

theorem select_eq_remember (peers : Peers) :
    peers.select =
      (peers.select.1, { peers with incumbent := peers.select.1.map Peer.gateway }) := by
  unfold select
  split <;> rfl

theorem select_of_unranked (nobody : peers.topRanked = none) : peers.select.1 = none := by
  simp [select, nobody]

theorem select_eq_none_iff :
    peers.select.1 = none ↔ ∀ peer ∈ peers.list, peer.isEligible = false := by
  rw [← topRanked_eq_none_iff]
  refine ⟨fun nobody => ?_, select_of_unranked⟩
  cases first : peers.topRanked with
  | none => rfl
  | some top =>
      rcases select_cases first with ⟨chosen, -⟩ | ⟨old, -, chosen, -⟩ <;>
        cases chosen.symm.trans nobody

theorem gateway_of_incumbent {old : Peer} (stands : peers.eligibleIncumbent = some old) :
    peers.incumbent = some old.gateway := by
  obtain ⟨gateway, remembered, found⟩ := Option.bind_eq_some_iff.1 stands
  have here := List.find?_some found
  simp only [Bool.and_eq_true, decide_eq_true_eq] at here
  rw [remembered, here.1]

theorem eligibleIncumbent_eq_none_iff : peers.eligibleIncumbent = none ↔
    ∀ peer ∈ peers.list, peer.isEligible = true → peers.incumbent ≠ some peer.gateway := by
  cases remembered : peers.incumbent with
  | none => simp [eligibleIncumbent, remembered]
  | some gateway =>
      simp only [eligibleIncumbent, remembered, Option.bind_some, List.find?_eq_none,
        Bool.and_eq_true, decide_eq_true_eq, not_and, ne_eq, Option.some_inj]
      exact forall₂_congr fun peer _ => ⟨fun apart eligible here => apart here.symm eligible,
        fun apart here eligible => apart eligible here.symm⟩

/-- The peer ranked first is selected while nobody else is the incumbent. -/
theorem select_of_leader (first : peers.topRanked = some top)
    (alone : ∀ old, peers.eligibleIncumbent = some old → old.gateway = top.gateway) :
    peers.select.1 = some top := by
  simp only [select, first]
  cases stands : peers.eligibleIncumbent with
  | none => rfl
  | some old => simp [alone old stands]

theorem select_of_no_incumbent (nobody : peers.eligibleIncumbent = none) :
    peers.select.1 = peers.topRanked := by
  cases first : peers.topRanked with
  | none => exact select_of_unranked first
  | some top => exact select_of_leader first fun old stands => nomatch nobody.symm.trans stands

/-- A selection picks the same again, since the peer that it chose is the incumbent then. -/
theorem select_select (peers : Peers) : peers.select.2.select = peers.select := by
  have remembered := incumbent_select peers
  cases first : peers.topRanked with
  | none =>
      have nobody := select_of_unranked first
      have again : peers.select.2.select.1 = none := select_of_unranked
        (by rwa [topRanked, list_select])
      rw [select_eq_remember peers.select.2, again, select_eq_remember peers, nobody]
  | some top =>
      rcases select_cases first with ⟨chosen, -⟩ | ⟨old, stands, chosen, -⟩
      · rw [chosen] at remembered
        have again : peers.select.2.select.1 = some top := by
          refine select_of_leader (by rwa [topRanked, list_select]) fun old stands => ?_
          exact Option.some_inj.1 ((gateway_of_incumbent stands).symm.trans remembered)
        rw [select_eq_remember peers.select.2, again, select_eq_remember peers, chosen]
      · -- nothing was left, so the state is the one before
        have same : peers.select.2 = peers := by
          rw [select_eq_remember, chosen, Option.map_some, ← gateway_of_incumbent stands]
        rw [same]

/-- Somebody is selected exactly if somebody is eligible, and is remembered.  That is the first
peer of the best rank, unless an eligible incumbent is kept, and it is selected again if nothing
else happens. -/
theorem select_by_rank (peers : Peers) (figured : peers.Figured) :
    (peers.select.1 = none ↔ ∀ peer ∈ peers.list, peer.isEligible = false) ∧
    peers.select.2.incumbent = peers.select.1.map Peer.gateway ∧
    ((∀ peer ∈ peers.list, peer.isEligible = true → peers.incumbent ≠ some peer.gateway) →
      peers.select.1 = peers.foremost?) ∧
    ((∃ old ∈ peers.list, old.isEligible = true ∧ peers.incumbent = some old.gateway) →
      peers.select.1 = peers.foremost? ∨ ∃ old ∈ peers.list, old.isEligible = true ∧
        peers.incumbent = some old.gateway ∧ peers.select.1 = some old) ∧
    peers.select.2.select = peers.select := by
  refine ⟨select_eq_none_iff, incumbent_select peers, fun nobody => ?_, fun _ => ?_,
    select_select peers⟩
  · rw [← topRanked_eq figured]
    exact select_of_no_incumbent (eligibleIncumbent_eq_none_iff.2 nobody)
  · rw [← topRanked_eq figured]
    cases first : peers.topRanked with
    | none => exact .inl (select_of_unranked first)
    | some top =>
        rcases select_cases first with ⟨chosen, -⟩ | ⟨old, stands, chosen, -⟩
        · exact .inl chosen
        · obtain ⟨member, eligible⟩ := eligible_of_incumbent stands
          exact .inr ⟨old, member, eligible, gateway_of_incumbent stands, chosen⟩

end Peers

namespace Sample

/-- Two peers of which none is better, before anybody is selected. -/
def level : Peers := (Peers.run
  [.add (link "wg1" 0x0A000001#32 1 1) false, .add (link "wg2" 0x0A000002#32 2 1) false, .commit,
    .ping (racing 40 40)]
  ({ group := ⟨1⟩, windowSize := 1, margins := ⟨10, 1.5⟩ }, ({} : MemoryTable))).1

end Sample

namespace Peers

/-- Of two level peers the first one is selected. -/
theorem first_of_level :
    Sample.level.Figured ∧
      (∀ peer ∈ Sample.level.list, peer.isEligible = true →
        Sample.level.incumbent ≠ some peer.gateway) ∧
      (∀ peer ∈ Sample.level.list, Sample.level.Foremost peer) ∧
      Sample.level.select.1.map Peer.link = some (Sample.link "wg1" 0x0A000001#32 1 1) := by
  have figured : Sample.level.Figured := by decide +kernel
  have nobody : ∀ peer ∈ Sample.level.list, peer.isEligible = true →
      Sample.level.incumbent ≠ some peer.gateway := by decide +kernel
  have first := (select_by_rank Sample.level figured).2.2.1 nobody
  refine ⟨figured, nobody, by decide +kernel, ?_⟩
  rw [first]
  decide +kernel

end Peers

end OverlayRouting
