/-
# OverlayRouting.Proofs.PeerRun -- runs of the peers of one group

The peers of a group can be run by themselves, without destinations and without other groups:
the state of such a run is the peers with the table under them.

Every operation keeps one peer for a gateway (`Peers.run_sound`), and whoever is listed after
it was listed before with the same link, or is new to its gateway and not measured yet; only a
round of probes changes a window (`Operation.of_mem_step`).
The incumbent changes only when somebody is selected or all are forgotten
(`Peers.incumbent_run`).
-/
import OverlayRouting.Proofs.Resolve
import OverlayRouting.Proofs.Sound

namespace OverlayRouting

set_option autoImplicit false

namespace Peers

variable {σ : Type}

/-- A call of the peers of a group, or something that happens to their table. -/
inductive Operation (σ : Type) where
  | add (link : Link) (disabled : Bool)
  | remove (gateway : Address)
  | enable (net : Prefix)
  | commit
  | ping (tallies : Tallies)
  | setMargins (margins : Margins)
  | select
  | flush
  | close
  | outside (change : σ → σ)

namespace Operation

/-- Does the operation ask for the peer that should carry traffic? -/
def selects : Operation σ → Bool
  | .select => true
  | _ => false

/-- The operation neither selects a peer nor forgets the one selected last. -/
def Lasting : Operation σ → Prop
  | .select | .flush | .close => False
  | _ => True

variable [RoutingTable σ]

/-- The state after an operation; what it answers is left out. -/
def step : Operation σ → Peers × σ → Peers × σ
  | .add link disabled, (peers, table) => ((peers.add link disabled).2, table)
  | .remove gateway, (peers, table) => ((peers.remove gateway).2, table)
  | .enable net, (peers, table) => ((peers.enable net).2, table)
  | .commit, (peers, table) => (peers.commit table).2
  | .ping tallies, (peers, table) => (peers.ping tallies, table)
  | .setMargins margins, (peers, table) => ({ peers with margins }, table)
  | .select, (peers, table) => (peers.select.2, table)
  | .flush, (peers, table) => (peers.flush, table)
  | .close, (peers, table) => peers.close table
  | .outside change, (peers, table) => (peers, change table)

end Operation

/-! ## Who is listed -/

theorem window_settle [RoutingTable σ] {peer after : Peer} {table : σ}
    (kept : (settle peer table).1.kept = some after) : after.window = peer.window := by
  unfold settle at kept
  split at kept
  · split at kept <;> cases kept <;> rfl
  · split at kept <;> cases kept
    rfl
  all_goals
    cases kept
    rfl

namespace Operation

variable [RoutingTable σ]

/-- What the operation makes of the window of a peer. -/
def window : Operation σ → Peer → Window
  | .ping tallies, peer => (measured tallies peer).window
  | _, peer => peer.window

/-- Whoever is listed was listed before, or its gateway was free and it was not measured yet. -/
theorem of_mem_step (op : Operation σ) {state : Peers × σ} {after : Peer}
    (member : after ∈ (op.step state).1.list) :
    (∃ before ∈ state.1.list, after.link = before.link ∧ after.window = op.window before) ∨
      (state.1.peer? after.gateway = none ∧ after.window = .empty state.1.windowSize) := by
  obtain ⟨peers, table⟩ := state
  cases op with
  | add link disabled =>
      simp only [step, Peers.add] at member
      split at member
      · exact .inl ⟨after, member, rfl, rfl⟩
      · rename_i unknown
        rcases List.mem_append.1 member with stood | added
        · exact .inl ⟨after, stood, rfl, rfl⟩
        · cases List.mem_singleton.1 added
          exact .inr ⟨unknown, rfl⟩
  | remove gateway => exact .inl (mem_remove member)
  | enable net =>
      obtain ⟨peer, stood, rfl | ⟨-, rfl⟩⟩ := mem_enable member
      · exact .inl ⟨after, stood, rfl, rfl⟩
      · exact .inl ⟨peer, stood, rfl, rfl⟩
  | commit =>
      obtain ⟨peer, stood, seen, kept⟩ := mem_commit peers table member
      exact .inl ⟨peer, stood, (claims_settle kept).2, window_settle kept⟩
  | ping tallies =>
      obtain ⟨peer, stood, rfl⟩ := List.mem_map.1 member
      exact .inl ⟨peer, stood, link_measured tallies peer, rfl⟩
  | setMargins margins => exact .inl ⟨after, member, rfl, rfl⟩
  | select =>
      simp only [step, list_select] at member
      exact .inl ⟨after, member, rfl, rfl⟩
  | flush | close => cases member
  | outside change => exact .inl ⟨after, member, rfl, rfl⟩

theorem windowSize_step (op : Operation σ) (state : Peers × σ) :
    (op.step state).1.windowSize = state.1.windowSize := by
  obtain ⟨peers, table⟩ := state
  cases op with
  | add link disabled =>
      simp only [step, Peers.add]
      split <;> rfl
  | remove gateway =>
      simp only [step, Peers.remove]
      split <;> rfl
  | enable net =>
      simp only [step, Peers.enable]
      split <;> rfl
  | select =>
      simp only [step, Peers.select]
      split <;> rfl
  | commit | ping | setMargins | outside | flush | close => rfl

theorem sound_step (op : Operation σ) {state : Peers × σ} (sound : state.1.Sound) :
    (op.step state).1.Sound := by
  obtain ⟨peers, table⟩ := state
  cases op with
  | add link disabled => exact sound.add link disabled
  | remove gateway => exact sound.remove gateway
  | enable net => exact sound.enable net
  | commit => exact sound.commit table
  | ping tallies => exact sound.ping tallies
  | setMargins margins => exact sound
  | select => exact sound.select
  | flush | close => exact List.nodup_nil
  | outside change => exact sound

theorem incumbent_step {op : Operation σ} (lasting : op.Lasting) (state : Peers × σ) :
    (op.step state).1.incumbent = state.1.incumbent := by
  obtain ⟨peers, table⟩ := state
  cases op with
  | add link disabled =>
      simp only [step, Peers.add]
      split <;> rfl
  | remove gateway =>
      simp only [step, Peers.remove]
      split <;> rfl
  | enable net =>
      simp only [step, Peers.enable]
      split <;> rfl
  | commit | ping | setMargins | outside => rfl
  | select | flush | close => exact lasting.elim

end Operation

/-! ## Runs -/

section Runs

variable [RoutingTable σ]

def run (ops : List (Operation σ)) (start : Peers × σ) : Peers × σ :=
  ops.foldl (fun state op => op.step state) start

theorem run_append (first second : List (Operation σ)) (start : Peers × σ) :
    run (first ++ second) start = run second (run first start) :=
  List.foldl_append

/-- What holds at the start and is kept by every operation of a run holds at its end. -/
theorem run_induction {motive : Peers × σ → Prop} {start : Peers × σ} (ops : List (Operation σ))
    (begins : motive start)
    (keeps : ∀ op ∈ ops, ∀ state, motive state → motive (op.step state)) :
    motive (run ops start) :=
  List.foldlRecOn ops _ begins fun state holds op member => keeps op member state holds

theorem run_sound {start : Peers × σ} (sound : start.1.Sound) (ops : List (Operation σ)) :
    (run ops start).1.Sound :=
  run_induction (motive := fun state => state.1.Sound) ops sound
    fun op _ _ sound => op.sound_step sound

theorem incumbent_run {ops : List (Operation σ)} (lasting : ∀ op ∈ ops, op.Lasting)
    (start : Peers × σ) : (run ops start).1.incumbent = start.1.incumbent :=
  run_induction (motive := fun state => state.1.incumbent = start.1.incumbent) ops rfl
    fun op member state same => (op.incumbent_step (lasting op member) state).trans same

end Runs

end Peers

end OverlayRouting
