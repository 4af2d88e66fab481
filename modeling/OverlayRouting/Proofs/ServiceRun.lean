/-
# OverlayRouting.Proofs.ServiceRun -- runs of the destinations of one group

The destinations of a group can be run by themselves, without peers and without other
groups: the state of such a run is the destinations with the table under them.  Every
operation keeps them sound, whatever the table answers (`Services.run_sound`).

Soundness is said by members, so that it passes from step to step.  Counted out, it says how
many candidates carry a destination: never two, one as soon as somebody stands by, and
one that stays where nothing is pending (`Services.orderly_run`).
-/
import OverlayRouting.Proofs.Sound
import OverlayRouting.Proofs.Table

namespace OverlayRouting

set_option autoImplicit false

open RoutingTable (Lawful)

/-! ## Counting who carries a destination -/

namespace Roster

/-- How the candidates of a destination stand to each other. -/
structure Orderly (roster : Roster) : Prop where
  listed : roster.candidates ≠ []
  distinct : (roster.candidates.map Candidate.gateway).Nodup
  held : ∀ c ∈ roster.candidates, (c.state = .disabled ↔ roster.disabled = true)
  single : roster.candidates.countP Candidate.isInstalled ≤ 1
  carried : ∀ c ∈ roster.candidates, c.state = .standby →
    roster.candidates.countP Candidate.isInstalled = 1
  served : roster.disabled = false → roster.hasPending = false →
    roster.candidates.countP (·.state = .active) = 1

variable {roster : Roster}

theorem Sound.countP_installed (sound : roster.Sound) {c : Candidate}
    (member : c ∈ roster.candidates) (installed : c.isInstalled = true) :
    roster.candidates.countP Candidate.isInstalled = 1 := by
  have only : ∀ other ∈ roster.candidates, (other.isInstalled = true ↔ (other == c) = true) := by
    intro other also
    rw [beq_iff_eq]
    exact ⟨fun carries => sound.single other also c member carries installed, fun same => same ▸ installed⟩
  rw [List.countP_congr only]
  exact List.count_eq_one_of_mem sound.distinct.of_map member

theorem Sound.orderly (sound : roster.Sound) (listed : roster.candidates ≠ []) :
    roster.Orderly where
  listed := listed
  distinct := sound.distinct
  held := sound.held
  single := by
    cases found : roster.installed? with
    | none =>
        have nobody := (installed?_eq_none_iff roster).1 found
        rw [List.countP_eq_zero.2 fun c member => by simp [nobody c member]]
        exact Nat.zero_le 1
    | some c =>
        obtain ⟨member, installed⟩ := mem_of_installed? found
        exact Nat.le_of_eq (sound.countP_installed member installed)
  carried c member stands := by
    obtain ⟨other, also, installed⟩ := sound.carried c member stands
    exact sound.countP_installed also installed
  served enabled quiet := by
    -- who is installed where nothing is pending is not on the way out
    have active : ∀ c ∈ roster.candidates, (decide (c.state = .active) = true ↔ c.isInstalled = true) := by
      intro c member
      have stays := stays_of_quiet quiet member
      cases state : c.state <;> simp [Candidate.isInstalled, Candidate.isLeaving, state] at stays ⊢
    obtain ⟨c, found⟩ := Option.isSome_iff_exists.1 (sound.served listed enabled quiet)
    obtain ⟨member, installed⟩ := mem_of_installed? found
    rw [List.countP_congr active, sound.countP_installed member installed]

end Roster

/-! ## Runs -/

namespace Services

variable {σ : Type}

/-- A call of the destinations of a group, or something that happens to their table. -/
inductive Operation (σ : Type) where
  | add (link : Link) (net : Prefix) (disabled : Bool)
  | remove (link : Link) (net : Prefix)
  | enable (net : Prefix)
  | commit (selected : Option Address)
  | reroute (selected : Option Address)
  | withdrawAll
  | flush
  | close
  | outside (change : σ → σ)

variable [RoutingTable σ]

namespace Operation

/-- The state after an operation; what it answers is left out. -/
def step : Operation σ → Services × σ → Services × σ
  | .add link net disabled, (services, table) => ((services.add link net disabled).2, table)
  | .remove link net, (services, table) => ((services.remove link net).2, table)
  | .enable net, (services, table) => ((services.enable net).2, table)
  | .commit selected, (services, table) =>
      let (swept, table) := services.commit selected table
      (swept.services, table)
  | .reroute selected, (services, table) => (services.reroute selected table).2
  | .withdrawAll, (services, table) => services.withdrawAll table
  | .flush, (services, table) => (services.flush, table)
  | .close, (services, table) => services.close table
  | .outside change, (services, table) => (services, change table)

/-- The operation forgets no installed route, and only the destinations change the routes. -/
def Careful [Lawful σ] : Operation σ → Prop
  | .flush | .close => False
  | .outside change => ∀ table, Lawful.routes (change table) = Lawful.routes table
  | _ => True

theorem sound_step (op : Operation σ) {state : Services × σ} (sound : state.1.Sound) :
    (op.step state).1.Sound := by
  obtain ⟨services, table⟩ := state
  have forgotten : services.flush.Sound := fun _ _ stands => nomatch stands
  cases op with
  | add link net disabled => exact sound.add link net disabled
  | remove link net => exact sound.remove link net
  | enable net => exact sound.enable net
  | commit selected =>
      exact sound.sweep table fun roster destination table =>
        roster.commit_after destination selected table
  | reroute selected =>
      cases selected with
      | none => exact sound
      | some gateway =>
          exact sound.sweep table fun roster destination table =>
            roster.reroute_after destination gateway table
  | withdrawAll => exact sound.sweep table Roster.giveUp_after
  | flush => exact forgotten
  | close => exact forgotten
  | outside change => exact sound

end Operation

def run (ops : List (Operation σ)) (start : Services × σ) : Services × σ :=
  ops.foldl (fun state op => op.step state) start

/-- What holds at the start and is kept by every operation of a run holds at its end. -/
theorem run_induction {motive : Services × σ → Prop} {start : Services × σ}
    (ops : List (Operation σ)) (begins : motive start)
    (keeps : ∀ op ∈ ops, ∀ state, motive state → motive (op.step state)) :
    motive (run ops start) :=
  List.foldlRecOn ops _ begins fun state holds op member => keeps op member state holds

theorem sound_new (group : GroupId) : Sound { group } := fun _ _ stands => nomatch stands

theorem run_sound (group : GroupId) (table : σ) (ops : List (Operation σ)) :
    (run ops ({ group }, table)).1.Sound :=
  run_induction (motive := fun state => state.1.Sound) ops (sound_new group)
    fun op _ _ sound => op.sound_step sound

/-- Every destination of a run is in order, whatever table there is and whatever it answers. -/
theorem orderly_run (group : GroupId) (table : σ) (ops : List (Operation σ)) (net : Prefix)
    (roster : Roster) (found : (run ops ({ group }, table)).1.roster? net = some roster) :
    roster.Orderly := by
  obtain ⟨sound, listed⟩ := run_sound group table ops net roster found
  exact sound.orderly listed

/-- The installed candidate is on the way out, the table refuses to replace it, and the
other one stands by. -/
theorem orderly_after_refusal :
    let first := Sample.link "wg1" 0x0A000001#32 1 1
    let second := Sample.link "wg2" 0x0A000002#32 2 1
    let state := run [.add first Sample.lan false, .add second Sample.lan false, .commit none,
      .remove first Sample.lan, .outside (·.failOn Sample.lan), .commit (some second.gateway)]
      ({ group := ⟨1⟩ }, ({} : MemoryTable))
    ∃ roster, state.1.roster? Sample.lan = some roster ∧ roster.Orderly ∧
      roster.candidates.map Candidate.state = [.leaving true, .standby] := by
  intro first second state
  have stands : (state.1.roster? Sample.lan).map (·.candidates.map Candidate.state) =
      some [.leaving true, .standby] := by decide +kernel
  obtain ⟨roster, found, states⟩ := Option.map_eq_some_iff.1 stands
  exact ⟨roster, found, orderly_run ⟨1⟩ _ _ Sample.lan roster found, states⟩

end Services

end OverlayRouting
