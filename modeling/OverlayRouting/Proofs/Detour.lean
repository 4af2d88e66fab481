/-
# OverlayRouting.Proofs.Detour -- what following the selected gateway moves

A destination is moved to the selected gateway if it is settled, lists that gateway, and another
candidate carries it (`Roster.Diverts`).  Who they are can be told before anything is asked of
the table (`Services.detours`), and what happens to them, by the answers alone: following the
selected gateway is to make the replacements of the detours in their order, and nothing else
(`Entries.traverse_detours`).

That nothing but replacements is asked for rests on the candidates being in order: a settled
destination always has an installed candidate (`Roster.Sound.served`), so there is never a route
to add.
-/
import OverlayRouting.Proofs.Errand
import OverlayRouting.Proofs.PeerMirror
import OverlayRouting.Proofs.Succession

namespace OverlayRouting

set_option autoImplicit false

/-! ## Detours -/

/-- A destination that one candidate carries and another one is to carry. -/
structure Detour where
  net : Prefix
  old : Candidate
  new : Candidate

namespace Detour

/-- What the table is asked for. -/
def call (detour : Detour) : Call := ⟨.replace, detour.new.link.ifname, detour.net⟩

def change (detour : Detour) (group : GroupId) : ActiveChange :=
  ⟨some detour.old.connection, some detour.new.connection, group⟩

/-- What there is to tell of a detour that was answered. -/
def told (group : GroupId) (answered : Detour × Outcome) : Option ActiveChange :=
  answered.2.toOption.map fun _ => answered.1.change group

end Detour

namespace Roster

/-- The roster with one candidate active, and all others standing by. -/
def turnedTo (roster : Roster) (new : Candidate) : Roster :=
  { roster with
    candidates := roster.candidates.map fun c =>
      { c with state := if c = new then .active else .standby } }

/-- A settled roster that is to be carried by the candidate of the selected gateway, and is carried
by another one. -/
structure Diverts (roster : Roster) (selected : Option Address) (old new : Candidate) : Prop where
  enabled : roster.disabled = false
  quiet : roster.hasPending = false
  listed : new ∈ roster.candidates
  chosen : selected = some new.gateway
  carried : old ∈ roster.candidates
  active : old.state = .active
  elsewhere : old.gateway ≠ new.gateway

def detour? (roster : Roster) (net : Prefix) (selected : Option Address) : Option Detour :=
  if roster.disabled || roster.hasPending then none
  else
    match selected.bind roster.candidate?, roster.candidates.find? (·.state = .active) with
    | some new, some old => if old.gateway = new.gateway then none else some ⟨net, old, new⟩
    | _, _ => none

/-- What becomes of a roster whose detour was answered. -/
def diverted (roster : Roster) (new : Candidate) : Outcome → Roster
  | .ok _ => roster.turnedTo new
  | .error _ => roster

variable {roster : Roster} {net : Prefix} {selected : Option Address}

theorem Sound.candidate?_eq_some_iff (sound : roster.Sound) {gateway : Address} {c : Candidate} :
    roster.candidate? gateway = some c ↔ c ∈ roster.candidates ∧ c.gateway = gateway := by
  rw [candidate?, find?_eq_some_iff_of_single, decide_eq_true_iff]
  intro c member other also here there
  exact sound.eq_of_gateway member also
    ((of_decide_eq_true here).trans (of_decide_eq_true there).symm)

theorem Sound.find?_active_eq_some_iff (sound : roster.Sound) {c : Candidate} :
    roster.candidates.find? (·.state = .active) = some c ↔
      c ∈ roster.candidates ∧ c.state = .active := by
  rw [find?_eq_some_iff_of_single, decide_eq_true_iff]
  intro c member other also here there
  refine sound.single c member other also ?_ ?_
  · simp [Candidate.isInstalled, of_decide_eq_true here]
  · simp [Candidate.isInstalled, of_decide_eq_true there]

theorem Sound.detour?_eq_some_iff (sound : roster.Sound) {detour : Detour} :
    roster.detour? net selected = some detour ↔
      detour.net = net ∧ roster.Diverts selected detour.old detour.new := by
  constructor
  · intro found
    unfold detour? at found
    split at found
    · cases found
    · rename_i busy
      obtain ⟨enabled, quiet⟩ : roster.disabled = false ∧ roster.hasPending = false := by
        simpa using busy
      split at found
      · rename_i new old chosen active
        split at found
        · cases found
        · rename_i differs
          cases found
          obtain ⟨gateway, rfl, candidate⟩ := Option.bind_eq_some_iff.1 chosen
          obtain ⟨listed, rfl⟩ := sound.candidate?_eq_some_iff.1 candidate
          obtain ⟨carried, active⟩ := sound.find?_active_eq_some_iff.1 active
          exact ⟨rfl, enabled, quiet, listed, rfl, carried, active, differs⟩
      · cases found
  · rintro ⟨rfl, enabled, quiet, listed, chosen, carried, active, differs⟩
    have candidate := sound.candidate?_eq_some_iff.2 ⟨listed, rfl⟩
    have found := sound.find?_active_eq_some_iff.2 ⟨carried, active⟩
    simp only [detour?, enabled, quiet, chosen, Option.bind_some, candidate, found, if_neg differs]
    rfl

/-- Who carries a destination where nothing is pending is active. -/
theorem active_of_quiet (quiet : roster.hasPending = false) {c : Candidate}
    (member : c ∈ roster.candidates) (installed : c.isInstalled = true) : c.state = .active := by
  have stays := stays_of_quiet quiet member
  cases state : c.state <;>
    simp [Candidate.isInstalled, Candidate.isLeaving, state] at installed stays ⊢

theorem Sound.settle_of_quiet (sound : roster.Sound) (quiet : roster.hasPending = false)
    {new : Candidate} (listed : new ∈ roster.candidates) :
    roster.settle (some new.gateway) = roster.turnedTo new := by
  have everybody : roster.candidates.filter (fun c => !c.isLeaving) = roster.candidates :=
    List.filter_eq_self.2 fun c member => by simp [stays_of_quiet quiet member]
  rw [Roster.settle, turnedTo, everybody]
  refine congrArg (fun candidates => { roster with candidates }) (List.map_congr_left ?_)
  intro c member
  have same : some c.gateway = some new.gateway ↔ c = new :=
    ⟨fun same => sound.eq_of_gateway member listed (Option.some.inj same), fun same => same ▸ rfl⟩
  simp only [same]

section Turns

variable {σ : Type} [RoutingTable σ] {gateway : Address}

theorem Sound.reroute_idle (sound : roster.Sound) (listed : roster.candidates ≠ [])
    (idle : roster.detour? net (some gateway) = none) (group : GroupId) (table : σ) :
    roster.reroute ⟨group, net⟩ gateway table = ({ roster := some roster }, table) := by
  unfold reroute
  split
  · rfl
  · rename_i busy
    obtain ⟨enabled, quiet⟩ : roster.disabled = false ∧ roster.hasPending = false := by
      simpa using busy
    split
    · rfl
    · rename_i new chosen
      obtain ⟨old, carried⟩ :=
        Option.isSome_iff_exists.1 (sound.served listed enabled quiet)
      obtain ⟨member, installed⟩ := mem_of_installed? carried
      have active := sound.find?_active_eq_some_iff.2
        ⟨member, active_of_quiet quiet member installed⟩
      have same : old.gateway = new.gateway := by
        by_contra differs
        simp [detour?, enabled, quiet, chosen, active, differs] at idle
      simp [move, carried, same]

theorem Sound.reroute_detour (sound : roster.Sound) {detour : Detour}
    (diverts : roster.Diverts (some gateway) detour.old detour.new) (group : GroupId) (table : σ) :
    roster.reroute ⟨group, detour.net⟩ gateway table =
      (let answer := detour.call.make table
       ({ roster := some (roster.diverted detour.new answer.1)
          changes := (Detour.told group (detour, answer.1)).toList }, answer.2)) := by
  obtain ⟨enabled, quiet, listed, chosen, carried, active, differs⟩ := diverts
  cases chosen
  have candidate := sound.candidate?_eq_some_iff.2 ⟨listed, rfl⟩
  have installed := sound.installed?_eq carried (by simp [Candidate.isInstalled, active])
  have settled := sound.settle_of_quiet quiet listed
  simp only [reroute, enabled, quiet, candidate, installed, move, if_neg differs, settled,
    Detour.call, Call.make]
  generalize RoutingTable.replace detour.new.link.ifname none detour.net table = asked
  obtain ⟨outcome, left⟩ := asked
  cases outcome <;> rfl

end Turns

end Roster

/-! ## All destinations -/

def detoursOf (entries : List (Prefix × Roster)) (selected : Option Address) : List Detour :=
  entries.filterMap fun entry => entry.2.detour? entry.1 selected

section Walks

variable {σ : Type} [RoutingTable σ]

/-- To follow a gateway through the entries is to make the replacements of the detours. -/
theorem Entries.traverse_detours (group : GroupId) (gateway : Address)
    (entries : List (Prefix × Roster))
    (sound : ∀ entry ∈ entries, entry.2.Sound ∧ entry.2.candidates ≠ []) (table : σ) :
    let walked := traverse (fun net roster table => roster.reroute ⟨group, net⟩ gateway table)
      entries table
    let detours := detoursOf entries (some gateway)
    let asked := visitAll Call.make (detours.map Detour.call) table
    walked.2 = asked.2 ∧
      walked.1.flatMap (·.2.changes) = (detours.zip asked.1).filterMap (Detour.told group) ∧
      (∀ detour answer, (detour, answer) ∈ detours.zip asked.1 → ∃ roster settlement,
        (detour.net, roster) ∈ entries ∧ (detour.net, settlement) ∈ walked.1 ∧
          settlement.roster = some (roster.diverted detour.new answer)) ∧
      ∀ net roster, (net, roster) ∈ entries → roster.detour? net (some gateway) = none →
        (net, { roster := some roster }) ∈ walked.1 := by
  induction entries generalizing table with
  | nil =>
      exact ⟨rfl, rfl, fun _ _ member => (nomatch member), fun _ _ member => (nomatch member)⟩
  | cons head rest ih =>
      obtain ⟨net, roster⟩ := head
      obtain ⟨here, listed⟩ := sound (net, roster) List.mem_cons_self
      have others := ih fun entry member => sound entry (List.mem_cons_of_mem _ member)
      cases found : roster.detour? net (some gateway) with
      | none =>
          have turn := here.reroute_idle listed found group table
          obtain ⟨left, told, answered, idle⟩ := others table
          simp only [traverse, detoursOf, List.filterMap_cons, found, turn]
          refine ⟨left, told, fun detour answer member => ?_, fun other rival member still => ?_⟩
          · obtain ⟨rival, settlement, stood, made, became⟩ := answered detour answer member
            exact ⟨rival, settlement, List.mem_cons_of_mem _ stood, List.mem_cons_of_mem _ made,
              became⟩
          · rcases List.mem_cons.1 member with same | behind
            · cases same
              exact List.mem_cons_self
            · exact List.mem_cons_of_mem _ (idle other rival behind still)
      | some detour =>
          obtain ⟨rfl, diverts⟩ := here.detour?_eq_some_iff.1 found
          have turn := here.reroute_detour diverts group table
          obtain ⟨left, told, answered, idle⟩ := others (detour.call.make table).2
          simp only [traverse, detoursOf, List.filterMap_cons, found, turn, List.map_cons, visitAll,
            List.zip_cons_cons]
          refine ⟨left, ?_, fun other answer member => ?_, fun other rival member still => ?_⟩
          · rw [List.flatMap_cons, told]
            cases Detour.told group (detour, (detour.call.make table).1) <;> rfl
          · rcases List.mem_cons.1 member with same | behind
            · cases same
              exact ⟨roster, _, List.mem_cons_self, List.mem_cons_self, rfl⟩
            · obtain ⟨rival, settlement, stood, made, became⟩ := answered other answer behind
              exact ⟨rival, settlement, List.mem_cons_of_mem _ stood, List.mem_cons_of_mem _ made,
                became⟩
          · rcases List.mem_cons.1 member with same | behind
            · cases same
              cases found.symm.trans still
            · exact List.mem_cons_of_mem _ (idle other rival behind still)

end Walks

namespace Services

/-- The destinations that are to be moved to the selected gateway, in order. -/
def detours (services : Services) (selected : Option Address) : List Detour :=
  detoursOf services.rosters.entries selected

variable {services : Services} {selected : Option Address}

theorem Sound.mem_detours_iff (sound : services.Sound) {detour : Detour} :
    detour ∈ services.detours selected ↔ ∃ roster, services.roster? detour.net = some roster ∧
      roster.Diverts selected detour.old detour.new := by
  simp only [detours, detoursOf, List.mem_filterMap]
  constructor
  · rintro ⟨⟨net, roster⟩, member, found⟩
    have stood := (services.rosters.mem_entries_iff net roster).1 member
    obtain ⟨rfl, diverts⟩ := (sound net roster stood).1.detour?_eq_some_iff.1 found
    exact ⟨roster, stood, diverts⟩
  · rintro ⟨roster, stood, diverts⟩
    exact ⟨(detour.net, roster), (services.rosters.mem_entries_iff _ _).2 stood,
      (sound _ _ stood).1.detour?_eq_some_iff.2 ⟨rfl, diverts⟩⟩

theorem Sound.detours_nodup (sound : services.Sound) (selected : Option Address) :
    ((services.detours selected).map Detour.net).Nodup := by
  have named : ∀ entry ∈ services.rosters.entries, ∀ detour,
      entry.2.detour? entry.1 selected = some detour → detour.net = entry.1 := by
    intro entry member detour found
    have stood := (services.rosters.mem_entries_iff entry.1 entry.2).1 member
    exact ((sound entry.1 entry.2 stood).1.detour?_eq_some_iff.1 found).1
  rw [List.Nodup, List.pairwise_map, detours, detoursOf, List.pairwise_filterMap]
  refine services.rosters.increasing.imp_of_mem ?_
  intro first second member also less one found other there same
  rw [named first member one found, named second also other there] at same
  exact Nat.ne_of_lt less (congrArg rank same)

theorem Sound.detour?_eq_none (sound : services.Sound) {net : Prefix} {roster : Roster}
    (found : services.roster? net = some roster)
    (elsewhere : net ∉ (services.detours selected).map Detour.net) :
    roster.detour? net selected = none := by
  by_contra some_detour
  obtain ⟨detour, planned⟩ := Option.ne_none_iff_exists'.1 some_detour
  obtain ⟨rfl, -⟩ := (sound net roster found).1.detour?_eq_some_iff.1 planned
  have entry := (services.rosters.mem_entries_iff _ roster).2 found
  exact elsewhere (List.mem_map.2 ⟨detour, List.mem_filterMap.2 ⟨_, entry, planned⟩, rfl⟩)

section Tables

variable {σ τ : Type} [RoutingTable σ] [RoutingTable τ]

/-- What a reroute leaves and reports, if it makes these detours. -/
structure Follows (services : Services) (detours : List Detour) (table : τ)
    (made : List ActiveChange × Services × τ) : Prop where
  /-- The table is asked for the replacements in their order, and for nothing else. -/
  asked : made.2.2 = (visitAll Call.make (detours.map Detour.call) table).2
  told : made.1 = (detours.zip (visitAll Call.make (detours.map Detour.call) table).1).filterMap
    (Detour.told services.group)
  answered : ∀ detour answer,
    (detour, answer) ∈ detours.zip (visitAll Call.make (detours.map Detour.call) table).1 →
      ∃ roster, services.roster? detour.net = some roster ∧
        made.2.1.roster? detour.net = some (roster.diverted detour.new answer)
  elsewhere : ∀ net, net ∉ detours.map Detour.net → made.2.1.roster? net = services.roster? net

theorem follows_nobody (services : Services) (table : τ) :
    services.Follows (services.detours none) table (services.reroute none table) := by
  have nothing : services.detours none = [] := List.filterMap_eq_nil_iff.2 fun entry _ => by
    simp only [Roster.detour?, Option.bind_none]
    split <;> rfl
  rw [nothing]
  exact ⟨rfl, rfl, fun _ _ member => (nomatch member), fun _ _ => rfl⟩

theorem Sound.follows (sound : services.Sound) (gateway : Address) (table : τ) :
    services.Follows (services.detours (some gateway)) table
      (services.reroute (some gateway) table) := by
  obtain ⟨left, told, answered, idle⟩ :=
    Entries.traverse_detours services.group gateway services.rosters.entries
      (fun entry member => sound _ _ ((services.rosters.mem_entries_iff _ _).1 member)) table
  have stands : ∀ net, (services.reroute (some gateway) table).2.1.roster? net = _ :=
    services.roster?_sweep_settled
      (fun roster destination => roster.reroute destination gateway) table
  refine ⟨left, (List.flatMap_map Prod.snd Settlement.changes _).trans told,
    fun detour answer member => ?_, fun net elsewhere => ?_⟩
  · obtain ⟨roster, settlement, stood, turned, became⟩ := answered detour answer member
    refine ⟨roster, (services.rosters.mem_entries_iff _ _).1 stood, ?_⟩
    rw [stands, (SortedMap.mem_entries_iff _ _ _).1 turned]
    exact became
  · rw [stands]
    cases found : services.roster? net with
    | none => rw [services.get?_settled_of_absent _ table found, Option.bind_none]
    | some roster =>
        have entry := (services.rosters.mem_entries_iff net roster).2 found
        have still := sound.detour?_eq_none found elsewhere
        rw [(SortedMap.mem_entries_iff _ _ _).1 (idle net roster entry still)]
        rfl

/-- To follow the selected gateway is to ask for one replacement for each destination that is
settled, lists that gateway and is on another one, and for nothing else.  Where that is accepted,
the candidate of the gateway is the active one, and the change is told; all others stay as they
are. -/
theorem rerouted (group : GroupId) (start : σ) (ops : List (Operation σ))
    (selected : Option Address) (table : τ) :
    let services := (run ops ({ group }, start)).1
    let detours := services.detours selected
    (∀ detour, detour ∈ detours ↔ ∃ roster, services.roster? detour.net = some roster ∧
        roster.Diverts selected detour.old detour.new) ∧
      (detours.map Detour.net).Nodup ∧
      services.Follows detours table (services.reroute selected table) := by
  intro services detours
  have sound : services.Sound := run_sound group start ops
  refine ⟨fun _ => sound.mem_detours_iff, sound.detours_nodup selected, ?_⟩
  cases selected with
  | none => exact services.follows_nobody table
  | some gateway => exact sound.follows gateway table

end Tables

/-- Two destinations are to follow the selected gateway, and the table refuses to move one of them.
That one stays as it was, and the other one is told. -/
theorem rerouted_past_refusal :
    let first := Sample.link "wg1" 0x0A000001#32 1 1
    let second := Sample.link "wg2" 0x0A000002#32 2 1
    let state := run [.add first Sample.lan false, .add second Sample.lan false,
        .add first second.host false, .add second second.host false, .commit none,
        .outside (·.failOn Sample.lan)]
      ({ group := ⟨1⟩ }, ({} : MemoryTable))
    let made := state.1.reroute (some second.gateway) state.2
    (state.1.detours (some second.gateway)).map Detour.net = [second.host, Sample.lan] ∧
      made.2.1.roster? Sample.lan = state.1.roster? Sample.lan ∧
      made.1 = [⟨some first.connection, some second.connection, ⟨1⟩⟩] := by
  intro first second state made
  let ops : List (Operation MemoryTable) := [.add first Sample.lan false,
    .add second Sample.lan false, .add first second.host false, .add second second.host false,
    .commit none, .outside (·.failOn Sample.lan)]
  obtain ⟨-, -, follows⟩ := rerouted ⟨1⟩ ({} : MemoryTable) ops (some second.gateway) state.2
  let detours := state.1.detours (some second.gateway)
  let answers := (visitAll Call.make (detours.map Detour.call) state.2).1
  have refused : (detours.zip answers).any (fun answered =>
      answered.1.net = Sample.lan && !answered.2.isOk) = true := by decide +kernel
  obtain ⟨⟨detour, outcome⟩, member, here⟩ := List.any_eq_true.1 refused
  obtain ⟨roster, stood, left⟩ := follows.answered detour outcome member
  cases outcome with
  | ok done => simp [Except.isOk, Except.toBool] at here
  | error cause =>
      have net : detour.net = Sample.lan := by simpa [Except.isOk, Except.toBool] using here
      rw [net] at stood left
      exact ⟨by decide +kernel, left.trans stood.symm, by decide +kernel⟩

end Services

end OverlayRouting
