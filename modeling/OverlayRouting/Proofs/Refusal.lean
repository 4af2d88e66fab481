/-
# OverlayRouting.Proofs.Refusal -- a refused change leaves its destination as it was

A visit asks the table for one change of its destination at most, and if that is refused the
roster stays (`Roster.Asks`, `Services.Errand.asks_visit`).  Over a sweep the requests follow
the order of the destinations, so there is one at most for each (`Services.sweep_asks`).

The changes that are reported are known from the rosters before and after: a destination is told
of if it is carried through another link than before (`Services.changeAt`), so nothing is told of
one that stayed as it was.
-/
import OverlayRouting.Proofs.Agree
import OverlayRouting.Proofs.ServiceRun
import OverlayRouting.Proofs.Told

namespace OverlayRouting

set_option autoImplicit false

/-! ## What is asked at a turn -/

namespace Recorded

variable {σ : Type} [RoutingTable σ] (table : Recorded σ)

theorem record_add (ifname : String) (gateway : Option Address) (net : Prefix) :
    let answer := RoutingTable.add ifname gateway net table
    answer.2.record = (⟨.add, ifname, net⟩, answer.1) :: table.record := rfl

theorem record_remove (ifname : String) (net : Prefix) :
    let answer := RoutingTable.remove ifname net table
    answer.2.record = (⟨.remove, ifname, net⟩, answer.1) :: table.record := rfl

theorem record_replace (ifname : String) (gateway : Option Address) (net : Prefix) :
    let answer := RoutingTable.replace ifname gateway net table
    answer.2.record = (⟨.replace, ifname, net⟩, answer.1) :: table.record := rfl

theorem record_carrier (net : Prefix) :
    (RoutingTable.carrier net table).2.record = table.record := rfl

end Recorded

namespace Roster

/-- What a visit of a destination asked of the table: nothing, or one change, and one that was
refused has left the roster as it was. -/
inductive Asks (roster : Roster) (net : Prefix) (settlement : Settlement) :
    List (Call × Outcome) → Prop
  | nothing : Asks roster net settlement []
  | made (change : Change) (ifname : String) :
      Asks roster net settlement [(⟨change, ifname, net⟩, .ok ())]
  | refused (change : Change) (ifname : String) (cause : Error)
      (kept : settlement.roster = some roster) :
      Asks roster net settlement [(⟨change, ifname, net⟩, .error cause)]

section Visits

variable {σ : Type} [RoutingTable σ] (roster : Roster) (destination : Destination)
  (table : Recorded σ)

/-- A visit adds to the record what it asked. -/
def AsksIn (made : Settlement × Recorded σ) : Prop :=
  ∃ asked, made.2.record = asked ++ table.record ∧ roster.Asks destination.net made.1 asked

omit [RoutingTable σ] in
theorem asksIn_still (settlement : Settlement) :
    roster.AsksIn destination table (settlement, table) :=
  ⟨[], rfl, .nothing⟩

theorem asks_install : roster.AsksIn destination table (roster.install destination table) := by
  unfold install
  split
  · exact asksIn_still ..
  · rename_i first _
    have seen := table.record_carrier destination.net
    split <;> rename_i carried <;> rw [carried] at seen
    · rename_i left
      have noted := left.record_add first.link.ifname none destination.net
      simp only at noted seen
      rw [seen] at noted
      split <;> rename_i added <;> rw [added] at noted
      · exact ⟨[_], noted, .made _ _⟩
      · exact ⟨[_], noted, .refused _ _ _ rfl⟩
    · split <;> exact ⟨[], seen, .nothing⟩

theorem asks_withdraw : roster.AsksIn destination table (roster.withdraw destination table) := by
  unfold withdraw
  split
  · exact asksIn_still ..
  · rename_i c _
    have noted := table.record_remove c.link.ifname destination.net
    simp only at noted
    split <;> rename_i removed <;> rw [removed] at noted
    · exact ⟨[_], noted, .made _ _⟩
    · exact ⟨[_], noted, .refused _ _ _ rfl⟩

omit roster in
/-- A move asks for nothing, or for one change, and its result is that of the change. -/
theorem move_asks (old new : Option Candidate) :
    let moved := move destination old new table
    (moved.2.record = table.record ∧ moved.1 = .ok none) ∨
      ∃ change ifname, ∃ outcome : Outcome,
        moved.2.record = (⟨change, ifname, destination.net⟩, outcome) :: table.record ∧
          moved.1 = outcome.map fun _ => some (destination.change old new) := by
  cases old with
  | none =>
      cases new with
      | none => exact .inl ⟨rfl, rfl⟩
      | some new => exact .inr ⟨_, _, _, table.record_add _ _ _, rfl⟩
  | some old =>
      cases new with
      | none => exact .inr ⟨_, _, _, table.record_remove _ _, rfl⟩
      | some new =>
          simp only [move]
          split
          · exact .inl ⟨rfl, rfl⟩
          · exact .inr ⟨_, _, _, table.record_replace _ _ _, rfl⟩

theorem asks_reconfigure (selected : Option Address) :
    roster.AsksIn destination table (roster.reconfigure destination selected table) := by
  have asked := move_asks destination table roster.installed? (roster.successor selected)
  simp only [reconfigure]
  generalize move destination roster.installed? (roster.successor selected) table = moved at asked
  obtain ⟨result, left⟩ := moved
  rcases asked with ⟨same, rfl⟩ | ⟨change, ifname, outcome | done, noted, rfl⟩
  · exact ⟨[], same, .nothing⟩
  · exact ⟨[_], noted, .refused _ _ _ rfl⟩
  · exact ⟨[_], noted, .made _ _⟩

theorem asks_commit (selected : Option Address) :
    roster.AsksIn destination table (roster.commit destination selected table) :=
  commit_cases roster destination selected table (fun _ => asksIn_still ..)
    (fun _ _ _ => asks_install ..) (fun _ _ _ => asks_withdraw ..)
    (fun _ _ _ => asks_reconfigure ..)

theorem asks_reroute (selected : Address) :
    roster.AsksIn destination table (roster.reroute destination selected table) := by
  unfold reroute
  split
  · exact asksIn_still ..
  · split
    · exact asksIn_still ..
    · rename_i candidate listed
      have asked := move_asks destination table roster.installed? (some candidate)
      generalize move destination roster.installed? (some candidate) table = moved at asked
      obtain ⟨result, left⟩ := moved
      rcases asked with ⟨same, rfl⟩ | ⟨change, ifname, outcome | done, noted, rfl⟩
      · exact ⟨[], same, .nothing⟩
      · exact ⟨[_], noted, .refused _ _ _ rfl⟩
      · exact ⟨[_], noted, .made _ _⟩

theorem asks_giveUp : roster.AsksIn destination table (roster.giveUp destination table) := by
  unfold giveUp
  split
  · exact asksIn_still ..
  · obtain ⟨asked, noted, asks⟩ := roster.asks_withdraw destination table
    refine ⟨asked, noted, ?_⟩
    cases asks with
    | nothing => exact .nothing
    | made change ifname => exact .made change ifname
    | refused change ifname cause kept => exact .refused change ifname cause kept

end Visits

end Roster

section Walks

variable {σ : Type} [RoutingTable σ]

theorem Services.Errand.asks_visit (errand : Services.Errand) (roster : Roster)
    (destination : Destination) (table : Recorded σ) :
    roster.AsksIn destination table (errand.visit roster destination table) :=
  match errand with
  | .commit selected => roster.asks_commit destination table selected
  | .reroute none => roster.asksIn_still destination table _
  | .reroute (some gateway) => roster.asks_reroute destination table gateway
  | .withdrawAll => roster.asks_giveUp destination table

/-- The requests of a walk follow the order of the entries, and one that was refused has left
its entry as it was. -/
theorem Entries.traverse_asks (group : GroupId) (errand : Services.Errand)
    (entries : List (Prefix × Roster)) (table : Recorded σ) :
    let walked :=
      traverse (fun net roster table => errand.visit roster ⟨group, net⟩ table) entries table
    ∃ asked, walked.2.record = asked ++ table.record ∧
      (asked.map (·.1.destination)).Sublist (entries.map Prod.fst).reverse ∧
      ∀ call cause, (call, .error cause) ∈ asked → ∃ roster settlement,
        (call.destination, roster) ∈ entries ∧ (call.destination, settlement) ∈ walked.1 ∧
          settlement.roster = some roster := by
  induction entries generalizing table with
  | nil => exact ⟨[], rfl, List.Sublist.slnil, fun _ _ member => nomatch member⟩
  | cons head rest ih =>
      obtain ⟨net, roster⟩ := head
      obtain ⟨here, noted, asks⟩ := errand.asks_visit roster ⟨group, net⟩ table
      obtain ⟨behind, noted_behind, order, kept⟩ := ih (errand.visit roster ⟨group, net⟩ table).2
      have first : (here.map (·.1.destination)).Sublist [net] := by
        cases asks with
        | nothing => exact List.nil_sublist _
        | made | refused => exact List.Sublist.refl _
      -- the record has the latest first, so what the others ask stands before what is asked here
      refine ⟨behind ++ here, ?_, ?_, fun call cause member => ?_⟩
      · rw [List.append_assoc, ← noted]
        exact noted_behind
      · rw [List.map_append, List.map_cons, List.reverse_cons]
        exact order.append first
      · rcases List.mem_append.1 member with later | now
        · obtain ⟨other, settlement, stood, left, same⟩ := kept call cause later
          exact ⟨other, settlement, List.mem_cons_of_mem _ stood, List.mem_cons_of_mem _ left, same⟩
        · cases asks with
          | nothing => cases now
          | made => cases List.mem_singleton.1 now
          | refused change ifname cause same =>
              cases List.mem_singleton.1 now
              exact ⟨roster, _, List.mem_cons_self, List.mem_cons_self, same⟩

end Walks

/-! ## All destinations -/

namespace Services

/-- What there is to tell of a destination after a call, if it is carried through another link
than before. -/
def changeAt (before after : Services) (net : Prefix) : Option ActiveChange :=
  Destination.told ⟨before.group, net⟩ ((before.roster? net).bind Roster.installed?)
    ((after.roster? net).bind Roster.installed?)

/-- What an errand tells of, in the order of the destinations; a withdrawal tells of nothing. -/
def Errand.announced (errand : Errand) (before after : Services) : List ActiveChange :=
  match errand with
  | .withdrawAll => []
  | .commit _ | .reroute _ => before.rosters.keys.filterMap (before.changeAt after)

variable {services : Services}

theorem changeAt_eq_none {after : Services} {net : Prefix}
    (same : after.roster? net = services.roster? net) : services.changeAt after net = none := by
  rw [changeAt, same, Destination.told_same]

section Tables

variable {σ : Type}

theorem Sound.changes_sweep (sound : services.Sound)
    {visit : Roster → Destination → σ → Settlement × σ}
    (tells : ∀ roster : Roster, roster.Sound → ∀ destination table,
      (visit roster destination table).1.Tells destination roster) (table : σ) :
    let made := (services.sweep visit table).1
    made.changes = services.rosters.keys.filterMap (services.changeAt made.services) := by
  intro made
  rw [← services.keys_settled visit table]
  refine (services.settled visit table).flatMap_values_of_told _ _ fun net settlement here => ?_
  obtain ⟨roster, seen, found, rfl⟩ := services.of_get?_settled visit table here
  have left : made.services.roster? net = _ := services.roster?_sweep_settled visit table net
  rw [here, Option.bind_some] at left
  rw [changeAt, found, left]
  exact tells roster (sound net roster found).1 ⟨services.group, net⟩ seen

variable [RoutingTable σ]

theorem Sound.changes_carryOut (sound : services.Sound) (errand : Errand) (table : σ) :
    let made := (services.carryOut errand table).1
    made.changes = errand.announced services made.services := by
  match errand with
  | .withdrawAll => rfl
  | .commit selected =>
      exact sound.changes_sweep (fun _ sound _ table => sound.tells_commit selected table) table
  | .reroute none =>
      rw [carryOut_eq]
      exact sound.changes_sweep (fun roster _ _ _ => Roster.tells_kept []) table
  | .reroute (some gateway) =>
      exact sound.changes_sweep (fun _ sound _ table => sound.tells_reroute gateway table) table

/-- Whatever the table answers, an errand asks it for one change of a destination at most, and a
destination whose change is refused stays exactly as it was, and nothing is told of it. -/
theorem Sound.kept_where_refused (sound : services.Sound) (errand : Errand) (table : Recorded σ) :
    let made := services.carryOut errand table
    ∃ asked, made.2.record = asked ++ table.record ∧
      (asked.map (·.1.destination)).Nodup ∧
      (made.1, made.2.inner) = services.carryOut errand table.inner ∧
      made.1.changes = errand.announced services made.1.services ∧
      ∀ call cause, (call, .error cause) ∈ asked →
        (services.roster? call.destination).isSome ∧
          made.1.services.roster? call.destination = services.roster? call.destination ∧
          services.changeAt made.1.services call.destination = none := by
  intro made
  obtain ⟨asked, noted, order, kept⟩ :=
    Entries.traverse_asks services.group errand services.rosters.entries table
  have swept : made = services.sweep errand.visit table := services.carryOut_eq errand table
  have same := RoutingTable.Agree.carryOut Recorded.agree services errand table table.inner rfl
  refine ⟨asked, ?_, ?_, Prod.ext same.answer same.left, sound.changes_carryOut errand table, ?_⟩
  · rw [swept]
    exact noted
  · exact (List.nodup_reverse.2 services.rosters.keys_nodup).sublist order
  · intro call cause refused
    obtain ⟨roster, settlement, stood, left, stays⟩ := kept call cause refused
    have found : services.roster? call.destination = some roster :=
      (services.rosters.mem_entries_iff _ _).1 stood
    have settled : (services.settled errand.visit table).get? call.destination = some settlement :=
      (SortedMap.mem_entries_iff _ _ _).1 left
    have unchanged : made.1.services.roster? call.destination =
        services.roster? call.destination := by
      rw [swept, roster?_sweep_settled, settled, found]
      exact stays
    exact ⟨found ▸ rfl, unchanged, changeAt_eq_none unchanged⟩

/-- The installed candidate is on the way out and the table refuses to replace its route, so both
candidates stay; the other destination, which the table does not refuse, is installed. -/
theorem kept_beside_another :
    let first := Sample.link "wg1" 0x0A000001#32 1 1
    let second := Sample.link "wg2" 0x0A000002#32 2 1
    let state := run [.add first Sample.lan false, .add second Sample.lan false,
        .commit none, .remove first Sample.lan, .add second second.host false,
        .outside (·.failOn Sample.lan)]
      ({ group := ⟨1⟩ }, ({} : MemoryTable))
    let made := state.1.carryOut (.commit (some second.gateway))
      (⟨state.2, []⟩ : Recorded MemoryTable)
    (state.1.roster? Sample.lan).map (·.candidates.map Candidate.state) =
        some [.leaving true, .standby] ∧
      made.1.services.roster? Sample.lan = state.1.roster? Sample.lan ∧
      state.1.changeAt made.1.services Sample.lan = none ∧
      made.1.changes = [⟨none, some second.connection, ⟨1⟩⟩] := by
  intro first second state made
  have refused : made.2.record.any (fun entry =>
      entry.1.destination = Sample.lan && !entry.2.isOk) = true := by decide +kernel
  have sound : state.1.Sound := run_sound ⟨1⟩ ({} : MemoryTable) _
  obtain ⟨asked, noted, -, -, -, kept⟩ :=
    sound.kept_where_refused (.commit (some second.gateway)) (⟨state.2, []⟩ : Recorded MemoryTable)
  obtain ⟨⟨call, outcome⟩, member, here⟩ := List.any_eq_true.1 refused
  rw [List.append_nil] at noted
  rw [noted] at member
  cases outcome with
  | ok done => simp [Except.isOk, Except.toBool] at here
  | error cause =>
      have net : call.destination = Sample.lan := by simpa [Except.isOk, Except.toBool] using here
      obtain ⟨-, same, silent⟩ := kept call cause member
      rw [net] at same silent
      exact ⟨by decide +kernel, same, silent, by decide +kernel⟩

end Tables

end Services

end OverlayRouting
