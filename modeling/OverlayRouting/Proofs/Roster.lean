/-
# OverlayRouting.Proofs.Roster -- what can become of a roster

A destination is *wanted* while some candidate stays; one that is not only waits to be
withdrawn, and its group claims it no longer (`Services.claims_iff`).

A commit does one of four things (`commit_cases`), and whatever the table answers, it
leaves a roster as it was, drops it, or settles it with one of the candidates that stay
as the installed one (`commit_after`).  The same holds of following the selected gateway
and of giving a destination up.
-/
import OverlayRouting.Proofs.Walk

namespace OverlayRouting

set_option autoImplicit false

namespace Roster

/-! ## Counting what is pending -/

/-- Some candidate stays. -/
def Wanted (roster : Roster) : Prop := ∃ c ∈ roster.candidates, c.isLeaving = false

theorem not_wanted_iff (roster : Roster) :
    ¬ roster.Wanted ↔ ∀ c ∈ roster.candidates, c.isLeaving = true := by
  simp [Wanted]

theorem pending_eq_leaving_iff (roster : Roster) :
    roster.pending = (0, roster.size) ↔ ¬ roster.Wanted := by
  rw [not_wanted_iff]
  simp only [pending, size, Prod.mk.injEq, List.countP_eq_zero, List.countP_eq_length]
  constructor
  · exact fun all => all.2
  · refine fun all => ⟨fun c member joining => ?_, all⟩
    have leaves := all c member
    simp only [decide_eq_true_eq] at joining
    simp [Candidate.isLeaving, joining] at leaves

theorem hasPending_iff (roster : Roster) :
    roster.hasPending = true ↔
      ∃ c ∈ roster.candidates, c.state = .joining ∨ c.isLeaving = true := by
  simp only [hasPending, pending, ne_eq, Prod.mk.injEq, List.countP_eq_zero, decide_not,
    Bool.not_eq_true', decide_eq_false_iff_not, decide_eq_true_eq]
  constructor
  · intro some_pending
    by_contra none_pending
    exact some_pending ⟨fun c member joining => none_pending ⟨c, member, .inl joining⟩,
      fun c member leaving => none_pending ⟨c, member, .inr leaving⟩⟩
  · rintro ⟨c, member, joining | leaving⟩ ⟨no_joining, no_leaving⟩
    · exact no_joining c member joining
    · exact no_leaving c member leaving

theorem stays_of_quiet {roster : Roster} (quiet : roster.hasPending = false) {c : Candidate}
    (member : c ∈ roster.candidates) : c.isLeaving = false := by
  by_contra leaves
  have pending := (hasPending_iff roster).2 ⟨c, member, .inr (by simpa using leaves)⟩
  simp [quiet] at pending

/-! ## The candidate to install -/

theorem mem_of_default? {roster : Roster} {c : Candidate} (found : roster.default? = some c) :
    c ∈ roster.candidates ∧ c.isLeaving = false := by
  rcases Option.or_eq_some_iff.1 found with here | ⟨-, here⟩
  · obtain ⟨installed, stays⟩ := Option.filter_eq_some_iff.1 here
    exact ⟨List.mem_of_find?_eq_some installed, by simpa using stays⟩
  · exact ⟨List.mem_of_find?_eq_some here, by simpa using List.find?_some here⟩

theorem default?_isSome {roster : Roster} (wanted : roster.Wanted) : roster.default?.isSome := by
  obtain ⟨c, member, stays⟩ := wanted
  rw [default?, Option.isSome_or, Bool.or_eq_true]
  exact .inr (List.find?_isSome.2 ⟨c, member, by simpa using stays⟩)

theorem mem_of_successor {roster : Roster} {selected : Option Address} {c : Candidate}
    (found : roster.successor selected = some c) :
    c ∈ roster.candidates ∧ c.isLeaving = false := by
  simp only [successor, Option.or_eq_some_iff, Option.filter_eq_some_iff] at found
  rcases found with (⟨chosen, stays⟩ | ⟨-, installed, stays⟩) | ⟨-, here⟩
  · obtain ⟨gateway, -, listed⟩ := Option.bind_eq_some_iff.1 chosen
    exact ⟨List.mem_of_find?_eq_some listed, by simpa using stays⟩
  · exact ⟨List.mem_of_find?_eq_some installed, by simpa using stays⟩
  · exact mem_of_default? here

theorem successor_isSome {roster : Roster} (wanted : roster.Wanted) (selected : Option Address) :
    (roster.successor selected).isSome := by
  simp [successor, Option.isSome_or, default?_isSome wanted]

/-! ## Outcomes, whatever the table answers -/

variable {σ : Type} [RoutingTable σ]

/-- What may become of a roster. -/
inductive After (roster : Roster) : Option Roster → Prop
  | kept : After roster (some roster)
  | dropped : After roster none
  | settled (c : Candidate) (member : c ∈ roster.candidates) (stays : c.isLeaving = false)
      (enabled : roster.disabled = false) : After roster (some (roster.settle (some c.gateway)))

/-- A commit leaves a roster alone, installs or withdraws a destination of which all
candidates come or go, and reconfigures every other one that has something pending. -/
theorem commit_cases {motive : Settlement × σ → Prop} (roster : Roster) (destination : Destination)
    (selected : Option Address) (table : σ)
    (idle : roster.disabled = true ∨ roster.hasPending = false →
      motive ({ roster := some roster }, table))
    (install : roster.disabled = false → roster.hasPending = true →
      (∀ c ∈ roster.candidates, c.state = .joining) → motive (roster.install destination table))
    (withdraw : roster.disabled = false → roster.hasPending = true → ¬ roster.Wanted →
      motive (roster.withdraw destination table))
    (reconfigure : roster.disabled = false → roster.hasPending = true → roster.Wanted →
      motive (roster.reconfigure destination selected table)) :
    motive (roster.commit destination selected table) := by
  unfold commit
  split
  · rename_i still
    exact idle (by simpa using still)
  · rename_i busy
    obtain ⟨enabled, pending⟩ : roster.disabled = false ∧ roster.hasPending = true := by
      simpa using busy
    simp only
    split
    · rename_i all_joining
      refine install enabled pending fun c member => ?_
      simpa using List.countP_eq_length.1 all_joining.1 c member
    · split
      · rename_i all_leaving
        refine withdraw enabled pending ((pending_eq_leaving_iff roster).1 ?_)
        exact Prod.ext all_leaving.2 all_leaving.1
      · rename_i mixed
        refine reconfigure enabled pending (Classical.not_not.1 fun unwanted => mixed ?_)
        have all := (pending_eq_leaving_iff roster).2 unwanted
        exact ⟨congrArg Prod.snd all, congrArg Prod.fst all⟩

theorem commit_idle {roster : Roster} (idle : roster.disabled = true ∨ roster.hasPending = false)
    (destination : Destination) (selected : Option Address) (table : σ) :
    roster.commit destination selected table = ({ roster := some roster }, table) := by
  unfold commit
  exact if_pos (by simpa using idle)

theorem commit_of_joining {roster : Roster} (enabled : roster.disabled = false)
    (pending : roster.hasPending = true) (joining : ∀ c ∈ roster.candidates, c.state = .joining)
    (destination : Destination) (selected : Option Address) (table : σ) :
    roster.commit destination selected table = roster.install destination table := by
  have all : roster.candidates.countP (·.state = .joining) = roster.size :=
    List.countP_eq_length.2 fun c member => by simp [joining c member]
  have nobody : roster.candidates.countP Candidate.isLeaving = 0 :=
    List.countP_eq_zero.2 fun c member => by simp [Candidate.isLeaving, joining c member]
  simp [commit, enabled, pending, Roster.pending, all, nobody]

theorem install_after {roster : Roster} (destination : Destination) (table : σ)
    (enabled : roster.disabled = false) (joining : ∀ c ∈ roster.candidates, c.state = .joining) :
    roster.After (roster.install destination table).1.roster := by
  have stays : ∀ c ∈ roster.candidates, c.isLeaving = false := fun c member => by
    simp [Candidate.isLeaving, joining c member]
  unfold install
  split
  · exact .kept
  · rename_i first found
    have member := (mem_of_default? found).1
    split
    · split
      · exact .settled first member (stays first member) enabled
      · exact .kept
    · split
      · rename_i own found
        have member := List.mem_of_find?_eq_some found
        exact .settled own member (stays own member) enabled
      · exact .kept

theorem withdraw_after (roster : Roster) (destination : Destination) (table : σ) :
    roster.After (roster.withdraw destination table).1.roster := by
  unfold withdraw
  split
  · exact .dropped
  · split
    · exact .dropped
    · exact .kept

theorem reconfigure_after {roster : Roster} (destination : Destination) (selected : Option Address)
    (table : σ) (enabled : roster.disabled = false) (wanted : roster.Wanted) :
    roster.After (roster.reconfigure destination selected table).1.roster := by
  obtain ⟨new, found⟩ := Option.isSome_iff_exists.1 (successor_isSome wanted selected)
  obtain ⟨member, stays⟩ := mem_of_successor found
  simp only [reconfigure, found]
  split
  · exact .settled new member stays enabled
  · exact .kept

theorem commit_after (roster : Roster) (destination : Destination) (selected : Option Address)
    (table : σ) : roster.After (roster.commit destination selected table).1.roster := by
  refine commit_cases (motive := fun result => roster.After result.1.roster)
    roster destination selected table ?_ ?_ ?_ ?_
  · exact fun _ => .kept
  · exact fun enabled _ joining => install_after destination table enabled joining
  · exact fun _ _ _ => withdraw_after roster destination table
  · exact fun enabled _ wanted => reconfigure_after destination selected table enabled wanted

theorem reroute_after (roster : Roster) (destination : Destination) (selected : Address)
    (table : σ) : roster.After (roster.reroute destination selected table).1.roster := by
  unfold reroute
  split
  · exact .kept
  · rename_i busy
    obtain ⟨enabled, quiet⟩ : roster.disabled = false ∧ roster.hasPending = false := by
      simpa using busy
    split
    · exact .kept
    · rename_i candidate listed
      have member := List.mem_of_find?_eq_some listed
      have gateway : candidate.gateway = selected := by simpa using List.find?_some listed
      split
      · exact gateway ▸ .settled candidate member (stays_of_quiet quiet member) enabled
      · exact .kept

theorem giveUp_after (roster : Roster) (destination : Destination) (table : σ) :
    roster.After (roster.giveUp destination table).1.roster := by
  unfold giveUp
  split
  · exact .dropped
  · exact withdraw_after roster destination table

end Roster

/-! ## What a group claims, and what it admits again -/

theorem Services.claims_iff (services : Services) (net : Prefix) :
    services.claims net = true ↔
      ∃ roster, services.roster? net = some roster ∧ roster.disabled = false ∧ roster.Wanted := by
  unfold claims
  split
  · rename_i absent
    simp [absent]
  · rename_i roster found
    simp only [found, Option.some.injEq, exists_eq_left', Bool.and_eq_true, Bool.not_eq_true',
      decide_eq_false_iff_not, Roster.pending_eq_leaving_iff, Classical.not_not]

/-- A destination is as it was, or it is the one that was admitted again. -/
theorem Services.of_roster?_enable {services : Services} {net other : Prefix} {after : Roster}
    (stands : (services.enable net).2.roster? other = some after) :
    (services.roster? other = some after ∧ (other = net → after.disabled = false)) ∨
    (other = net ∧ ∃ roster, services.roster? net = some roster ∧ roster.disabled = true ∧
      after = roster.enable) := by
  unfold enable at stands
  split at stands
  · rename_i absent
    refine .inl ⟨stands, fun here => ?_⟩
    cases absent.symm.trans (here ▸ stands)
  · rename_i roster found
    split at stands
    · rename_i disabled
      by_cases here : net = other
      · subst here
        have there := (SortedMap.get?_insert_self _ _ _).symm.trans stands
        exact .inr ⟨rfl, roster, found, disabled, (Option.some.inj there).symm⟩
      · have there := (SortedMap.get?_insert_of_ne _ _ here).symm.trans stands
        exact .inl ⟨there, fun same => absurd same.symm here⟩
    · rename_i enabled
      refine .inl ⟨stands, fun here => ?_⟩
      cases found.symm.trans (here ▸ stands)
      simpa using enabled

end OverlayRouting
