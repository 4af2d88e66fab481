/-
# OverlayRouting.Proofs.Hysteresis -- traffic moves for a reason, and rests without one

Selecting a peer leaves the one selected before only for a peer that loses less, or, where both
windows are complete, for one that is faster by the margins (`Peers.Reason`, `select_moves`).
So as long as nobody gives such a reason, the one selected before is selected again
(`select_rests`).

The incumbent is remembered by its gateway alone.  That is enough over a run: while the peer of
that gateway is eligible it cannot be replaced by another one of the same gateway, since a
gateway is only free again after its peer went (`Favored.step`).  The result for whole runs is
`hysteresis`.
-/
import OverlayRouting.RoutingTable.Memory
import OverlayRouting.Proofs.PeerRun

namespace OverlayRouting

set_option autoImplicit false

namespace Peers

variable {peers : Peers} {gateway : Address} {old new : Peer}

/-! ## One selection -/

/-- Why traffic may move from one peer to another. -/
def Reason (margins : Margins) (old new : Peer) : Prop :=
  new.loss < old.loss ∨
    (old.window.isComplete = true ∧ new.window.isComplete = true ∧
      (margins.isEnabled = false ∨
        (new.latency + margins.diff ≤ old.latency ∧ new.latency * margins.ratio ≤ old.latency)))

theorem shouldMove_iff (margins : Margins) (old new : Peer) :
    shouldMove margins old new = true ↔ Reason margins old new := by
  unfold shouldMove Reason Margins.met
  split
  · simp [*]
  · split
    · rename_i partly
      simp only [Bool.not_eq_true', Bool.and_eq_false_iff] at partly
      rcases partly with partly | partly <;> simp [*]
    · split <;> simp_all

theorem mem_of_ranked {list : List Peer} {best : Peer} (found : ranked list = some best) :
    best ∈ list := by
  cases list with
  | nil => cases found
  | cons peer rest =>
      cases found
      refine List.foldlRecOn rest _ List.mem_cons_self fun best stands other listed => ?_
      split
      · exact List.mem_cons_of_mem _ listed
      · exact stands

theorem mem_of_topRanked (found : peers.topRanked = some new) :
    new ∈ peers.list ∧ new.isEligible = true :=
  List.mem_filter.1 (mem_of_ranked found)

theorem topRanked_isSome (member : old ∈ peers.list) (eligible : old.isEligible = true) :
    peers.topRanked.isSome := by
  have listed : old ∈ peers.list.filter Peer.isEligible := List.mem_filter.2 ⟨member, eligible⟩
  rw [topRanked]
  cases choice : peers.list.filter Peer.isEligible with
  | nil => simp [choice] at listed
  | cons => rfl

theorem Sound.eligibleIncumbent_eq (sound : peers.Sound) (remembered : peers.incumbent = some gateway)
    (known : peers.peer? gateway = some old) (eligible : old.isEligible = true) :
    peers.eligibleIncumbent = some old := by
  obtain ⟨member, here⟩ := mem_of_peer? known
  simp only [eligibleIncumbent, remembered, Option.bind_some]
  cases found : peers.list.find? fun peer => peer.gateway = gateway && peer.isEligible with
  | none => simpa [here, eligible] using List.find?_eq_none.1 found old member
  | some other =>
      have same : other.gateway = old.gateway := by
        have := List.find?_some found
        simp only [Bool.and_eq_true, decide_eq_true_eq] at this
        rw [this.1, here]
      rw [sound.eq_of_gateway member (List.mem_of_find?_eq_some found) same]

/-- Who is selected is the incumbent of then on. -/
theorem incumbent_select (peers : Peers) :
    peers.select.2.incumbent = peers.select.1.map Peer.gateway := by
  unfold select
  split <;> rfl

theorem eligible_of_incumbent (stands : peers.eligibleIncumbent = some old) :
    old ∈ peers.list ∧ old.isEligible = true := by
  obtain ⟨_, -, found⟩ := Option.bind_eq_some_iff.1 stands
  have eligible := List.find?_some found
  simp only [Bool.and_eq_true] at eligible
  exact ⟨List.mem_of_find?_eq_some found, eligible.2⟩

/-- The peer ranked first is selected, unless there is an eligible incumbent and no reason to
leave it. -/
theorem select_cases (first : peers.topRanked = some new) :
    (peers.select.1 = some new ∧ ∀ old, peers.eligibleIncumbent = some old →
        old.gateway = new.gateway ∨ Reason peers.margins old new) ∨
      ∃ old, peers.eligibleIncumbent = some old ∧ peers.select.1 = some old ∧
        ¬ Reason peers.margins old new := by
  simp only [select, first, ← shouldMove_iff]
  cases peers.eligibleIncumbent with
  | none => exact .inl ⟨rfl, fun _ stands => by cases stands⟩
  | some old =>
      simp only
      split
      · rename_i moves
        exact .inl ⟨rfl, fun _ same => by cases same; exact moves⟩
      · rename_i stays
        exact .inr ⟨old, rfl, rfl, fun moves => stays (.inr moves)⟩

/-- With an eligible incumbent somebody is selected: the peer ranked first, if that is the
incumbent itself or there is a reason to move to it, and the incumbent otherwise. -/
theorem select_eq (stands : peers.eligibleIncumbent = some old) :
    ∃ top ∈ peers.list, top.isEligible = true ∧
      ((peers.select.1 = some top ∧
          (old.gateway = top.gateway ∨ Reason peers.margins old top)) ∨
        (peers.select.1 = some old ∧ ¬ Reason peers.margins old top)) := by
  obtain ⟨listed, eligible⟩ := eligible_of_incumbent stands
  obtain ⟨top, first⟩ := Option.isSome_iff_exists.1 (topRanked_isSome listed eligible)
  obtain ⟨member, measured⟩ := mem_of_topRanked first
  refine ⟨top, member, measured, ?_⟩
  rcases select_cases first with ⟨moves, reason⟩ | ⟨other, incumbent, stays, rest⟩
  · exact .inl ⟨moves, reason old stands⟩
  · cases incumbent.symm.trans stands
    exact .inr ⟨stays, rest⟩

/-- Another gateway is selected only for a reason. -/
theorem select_moves (stands : peers.eligibleIncumbent = some old)
    (selected : peers.select.1 = some new) (moved : new.gateway ≠ old.gateway) :
    Reason peers.margins old new := by
  obtain ⟨top, -, -, ⟨chosen, same | reason⟩ | ⟨chosen, -⟩⟩ := select_eq stands <;>
    cases chosen.symm.trans selected
  · exact absurd same.symm moved
  · exact reason
  · exact absurd rfl moved

/-- Nobody else gives a reason to leave a peer while there are margins: nobody eligible loses
less, or is faster by both margins with both windows complete. -/
def Calm (peers : Peers) (old : Peer) : Prop :=
  peers.margins.isEnabled = true ∧
    ∀ new ∈ peers.list, new.isEligible = true → new.gateway ≠ old.gateway →
      ¬ new.loss < old.loss ∧
      ¬ (old.window.isComplete = true ∧ new.window.isComplete = true ∧
          new.latency + peers.margins.diff ≤ old.latency ∧
          new.latency * peers.margins.ratio ≤ old.latency)

instance (peers : Peers) (old : Peer) : Decidable (peers.Calm old) :=
  inferInstanceAs (Decidable (_ ∧ _))

/-- While it is calm the incumbent is selected again. -/
theorem select_rests (sound : peers.Sound) (stands : peers.eligibleIncumbent = some old)
    (member : old ∈ peers.list) (calm : peers.Calm old) : peers.select.1 = some old := by
  obtain ⟨enabled, nobody⟩ := calm
  obtain ⟨top, listed, eligible, ⟨chosen, goes⟩ | ⟨chosen, -⟩⟩ := select_eq stands
  · by_cases same : top.gateway = old.gateway
    · rw [chosen, sound.eq_of_gateway member listed same]
    · obtain ⟨loses, slower⟩ := nobody top listed eligible same
      rcases goes with here | lost | ⟨complete, also, plain | met⟩
      · exact absurd here.symm same
      · exact absurd lost loses
      · simp [enabled] at plain
      · exact absurd ⟨complete, also, met⟩ slower
  · exact chosen

/-! ## Stretches of a run -/

variable {σ : Type} [RoutingTable σ]

/-- What the selections of a run answer, one after the other. -/
def selections : List (Operation σ) → Peers × σ → List (Option Peer)
  | [], _ => []
  | .select :: rest, state => state.1.select.1 :: selections rest (Operation.select.step state)
  | op :: rest, state => selections rest (op.step state)

/-- Before an operation the peer of a gateway is eligible, and before a selection it is calm
around it. -/
def Undisturbed (gateway : Address) (op : Operation σ) (peers : Peers) : Prop :=
  ∃ peer ∈ peers.peer? gateway,
    peer.isEligible = true ∧ (op.selects = true → peers.Calm peer)

instance (gateway : Address) (op : Operation σ) (peers : Peers) :
    Decidable (Undisturbed gateway op peers) :=
  inferInstanceAs (Decidable (∃ peer ∈ peers.peer? gateway, _ ∧ _))

/-- The peer of a gateway is undisturbed in a whole stretch of a run. -/
def Restful (gateway : Address) : List (Operation σ) → Peers × σ → Prop
  | [], _ => True
  | op :: rest, state => Undisturbed gateway op state.1 ∧ Restful gateway rest (op.step state)

instance decidableRestful (gateway : Address) :
    ∀ (stretch : List (Operation σ)) (state : Peers × σ), Decidable (Restful gateway stretch state)
  | [], _ => .isTrue trivial
  | op :: rest, state =>
      have := decidableRestful gateway rest (op.step state)
      inferInstanceAs (Decidable (_ ∧ _))

/-- The peer of a gateway, if there is one, has this link and was selected last. -/
structure Favored (gateway : Address) (link : Link) (state : Peers × σ) : Prop where
  sound : state.1.Sound
  held : ∀ peer, state.1.peer? gateway = some peer →
    peer.link = link ∧ state.1.incumbent = some gateway

variable {link : Link} {state : Peers × σ} {peer : Peer}

/-- A listed peer is not replaced by another one of its gateway in one step. -/
theorem Favored.step (favored : Favored gateway link state) (op : Operation σ)
    (known : state.1.peer? gateway = some peer)
    (remembers : ∀ after, (op.step state).1.peer? gateway = some after →
      (op.step state).1.incumbent = some gateway) :
    Favored gateway link (op.step state) := by
  refine ⟨op.sound_step favored.sound, fun after found => ⟨?_, remembers after found⟩⟩
  obtain ⟨listed, here⟩ := mem_of_peer? found
  obtain ⟨member, there⟩ := mem_of_peer? known
  rcases op.of_mem_step listed with ⟨before, stood, same, -⟩ | ⟨free, -⟩
  · have one : before = peer := favored.sound.eq_of_gateway member stood
      ((congrArg Link.gateway same).symm.trans (here.trans there.symm))
    rw [same, one, (favored.held peer known).1]
  · rw [here, known] at free
    cases free

theorem Favored.select (favored : Favored gateway link state)
    (known : state.1.peer? gateway = some peer) (eligible : peer.isEligible = true)
    (calm : state.1.Calm peer) :
    state.1.select.1 = some peer ∧ Favored gateway link (Operation.select.step state) := by
  obtain ⟨member, here⟩ := mem_of_peer? known
  have again : state.1.select.1 = some peer := select_rests favored.sound
    (favored.sound.eligibleIncumbent_eq (favored.held peer known).2 known eligible) member calm
  refine ⟨again, favored.step .select known fun after _ => ?_⟩
  rw [Operation.step, incumbent_select, again, Option.map_some, here]

/-- In a restful stretch every selection answers the favored peer. -/
theorem Restful.selections {stretch : List (Operation σ)} (favored : Favored gateway link state)
    (restful : Restful gateway stretch state) :
    ∀ answer ∈ selections stretch state, ∃ peer, answer = some peer ∧ peer.link = link := by
  induction stretch generalizing state with
  | nil => exact nofun
  | cons op rest ih =>
      obtain ⟨⟨peer, known, eligible, calm⟩, restful⟩ := restful
      cases op with
      | select =>
          obtain ⟨again, favored'⟩ := favored.select known eligible (calm rfl)
          intro answer member
          rcases List.mem_cons.1 member with rfl | behind
          · exact ⟨peer, again, (favored.held peer known).1⟩
          · exact ih favored' restful answer behind
      | flush | close =>
          -- afterwards nobody is listed, so nobody can be favored
          exact ih (favored.step _ known fun _ found => nomatch found) restful
      | add | remove | enable | commit | ping | setMargins | outside =>
          refine ih (favored.step _ known fun _ _ => ?_) restful
          exact (Operation.incumbent_step (by trivial) state).trans (favored.held peer known).2

/-! ## Whole runs -/

/-- A gateway that was selected last is left only for a reason, and not at all in a restful
stretch. -/
structure Hysteretic (gateway : Address) (state : Peers × σ) : Prop where
  moves : ∀ old new, state.1.peer? gateway = some old → old.isEligible = true →
    state.1.select.1 = some new → new.gateway ≠ gateway → Reason state.1.margins old new
  rests : ∀ old, state.1.peer? gateway = some old →
    ∀ stretch, Restful gateway stretch state →
      ∀ answer ∈ selections stretch state, ∃ new, answer = some new ∧ new.link = old.link

/-- Whatever was done to the peers of a group before and after a selection, if they were not
forgotten since, that selection is changed only for a reason, and stands while it is restful. -/
theorem hysteresis (group : GroupId) (windowSize : Nat) (margins : Margins) (table : σ)
    (ops between : List (Operation σ)) {chosen : Peer}
    (selected : (run ops ({ group, windowSize, margins }, table)).1.select.1 = some chosen)
    (lasting : ∀ op ∈ between, op.Lasting) :
    Hysteretic chosen.gateway
      (run (ops ++ .select :: between) ({ group, windowSize, margins }, table)) := by
  let fresh : Peers × σ := ({ group, windowSize, margins }, table)
  have begins : fresh.1.Sound := List.nodup_nil
  have sound : (run (ops ++ .select :: between) fresh).1.Sound := run_sound begins _
  have remembered : (run (ops ++ .select :: between) fresh).1.incumbent = some chosen.gateway := by
    have then_on := incumbent_run lasting (Operation.select.step (run ops fresh))
    rw [Operation.step, incumbent_select, selected] at then_on
    rw [run_append]
    exact then_on
  refine ⟨fun old new known eligible moved differs => ?_, fun old known stretch restful => ?_⟩
  · refine select_moves (sound.eligibleIncumbent_eq remembered known eligible) moved ?_
    rw [(mem_of_peer? known).2]
    exact differs
  · refine restful.selections ⟨sound, fun peer found => ⟨?_, remembered⟩⟩
    cases known.symm.trans found
    rfl

end Peers

namespace Sample

/-- A round in which two peers answered after these times. -/
def racing (first second : Float32) : Tallies :=
  .ofList [(.v4 0x0A000001#32, { sent := 3, received := 3, rtt := first, average := first }),
    (.v4 0x0A000002#32, { sent := 3, received := 3, rtt := second, average := second })]

/-- Two peers with installed routes, of which the first one is faster. -/
def race : List (Peers.Operation MemoryTable) :=
  [.add (link "wg1" 0x0A000001#32 1 1) false, .add (link "wg2" 0x0A000002#32 2 1) false, .commit,
    .ping (racing 40 50)]

/-- The race, after which a peer is selected and the times change. -/
def raced (first second : Float32) : Peers × MemoryTable :=
  Peers.run (race ++ .select :: [.ping (racing first second)])
    ({ group := ⟨1⟩, windowSize := 1, margins := ⟨10, 1.5⟩ }, {})

/-- Rounds with a selection after each, in none of which the second peer wins by the margins. -/
def closeRace : List (Peers.Operation MemoryTable) :=
  [.select, .ping (racing 45 36), .select, .ping (racing 45 30.5), .select]

end Sample

namespace Peers

/-- The first peer wins the race.  It is left when the other one is faster by the margins, and
selected again in each round of a close race. -/
theorem hysteresis_of_race :
    let start : Peers × MemoryTable :=
      ({ group := ⟨1⟩, windowSize := 1, margins := ⟨10, 1.5⟩ }, {})
    ∃ chosen, (run Sample.race start).1.select.1 = some chosen ∧
      (∃ old new, (Sample.raced 70 40).1.peer? chosen.gateway = some old ∧
        (Sample.raced 70 40).1.select.1 = some new ∧ new.gateway ≠ chosen.gateway ∧
        Reason ⟨10, 1.5⟩ old new) ∧
      (selections Sample.closeRace (Sample.raced 45 40)).length = 3 ∧
      ∀ answer ∈ selections Sample.closeRace (Sample.raced 45 40),
        ∃ again, answer = some again ∧ again.link = chosen.link := by
  intro start
  have won : (run Sample.race start).1.select.1.map Peer.link =
      some (Sample.link "wg1" 0x0A000001#32 1 1) := by decide +kernel
  obtain ⟨chosen, selected, link⟩ := Option.map_eq_some_iff.1 won
  have gateway : chosen.gateway = .v4 0x0A000001#32 := congrArg Link.gateway link
  refine ⟨chosen, selected, ?_, by decide +kernel, ?_⟩
  · have moving := hysteresis ⟨1⟩ 1 ⟨10, 1.5⟩ ({} : MemoryTable) Sample.race
      [.ping (Sample.racing 70 40)] selected (by simp [Operation.Lasting])
    have moves : ∃ old ∈ (Sample.raced 70 40).1.peer? (.v4 0x0A000001#32),
        old.isEligible = true ∧ ∃ new ∈ (Sample.raced 70 40).1.select.1,
          new.gateway ≠ .v4 0x0A000001#32 := by decide +kernel
    rw [← gateway] at moves
    obtain ⟨old, known, eligible, new, moved, differs⟩ := moves
    exact ⟨old, new, known, moved, differs, moving.moves old new known eligible moved differs⟩
  · have resting := hysteresis ⟨1⟩ 1 ⟨10, 1.5⟩ ({} : MemoryTable) Sample.race
      [.ping (Sample.racing 45 40)] selected (by simp [Operation.Lasting])
    have stays : ((Sample.raced 45 40).1.peer? (.v4 0x0A000001#32)).map Peer.link =
        some (Sample.link "wg1" 0x0A000001#32 1 1) := by decide +kernel
    have restful : Restful (.v4 0x0A000001#32) Sample.closeRace (Sample.raced 45 40) := by
      decide +kernel
    rw [← gateway] at stays restful
    obtain ⟨old, known, same⟩ := Option.map_eq_some_iff.1 stays
    rw [link, ← same]
    exact resting.rests old known Sample.closeRace restful

end Peers

end OverlayRouting
