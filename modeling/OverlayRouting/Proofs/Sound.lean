/-
# OverlayRouting.Proofs.Sound -- what holds in every reachable state

A destination keeps one candidate for a gateway, and at most one of them is installed; no
candidate of it is disabled unless it is disabled itself, and then all are; and who stands
by, stands by for an installed one (`Roster.Sound`).  The peers of a group have different
gateways (`Group.Sound`).

Every operation keeps this, whatever the table answers (`run_sound`).
-/
import Mathlib.Data.List.Nodup
import OverlayRouting.Proofs.Apply
import OverlayRouting.Proofs.Claims

namespace OverlayRouting

set_option autoImplicit false

/-- What is left of a list has no more names than the list had. -/
theorem map_filterMap_sublist {α β : Type} {left : α → Option α} {name : α → β}
    (keeps : ∀ x y, left x = some y → name y = name x) (list : List α) :
    ((list.filterMap left).map name).Sublist (list.map name) := by
  induction list with
  | nil => exact List.Sublist.slnil
  | cons x rest ih =>
      cases here : left x with
      | none => simpa [here] using ih.cons (name x)
      | some y => simpa [here, keeps x y here] using ih.cons_cons (name x)

/-! ## Destinations -/

namespace Roster

structure Sound (roster : Roster) : Prop where
  distinct : (roster.candidates.map Candidate.gateway).Nodup
  held : ∀ c ∈ roster.candidates, (c.state = .disabled ↔ roster.disabled = true)
  single : ∀ c ∈ roster.candidates, ∀ other ∈ roster.candidates,
    c.isInstalled = true → other.isInstalled = true → c = other
  carried : ∀ c ∈ roster.candidates, c.state = .standby →
    ∃ other ∈ roster.candidates, other.isInstalled = true

variable {roster : Roster}

theorem Sound.eq_of_gateway (sound : roster.Sound) {c other : Candidate}
    (member : c ∈ roster.candidates) (also : other ∈ roster.candidates)
    (same : c.gateway = other.gateway) : c = other :=
  List.inj_on_of_nodup_map sound.distinct member also same

theorem mem_of_installed? {c : Candidate} (found : roster.installed? = some c) :
    c ∈ roster.candidates ∧ c.isInstalled = true :=
  ⟨List.mem_of_find?_eq_some found, List.find?_some found⟩

theorem installed?_eq_none_iff (roster : Roster) :
    roster.installed? = none ↔ ∀ c ∈ roster.candidates, c.isInstalled = false := by
  simp [installed?, List.find?_eq_none]

theorem bare_of_joining (joining : ∀ c ∈ roster.candidates, c.state = .joining) :
    roster.installed? = none := by
  refine (installed?_eq_none_iff roster).2 fun c member => ?_
  simp [Candidate.isInstalled, joining c member]

theorem Sound.installed?_eq (sound : roster.Sound) {c : Candidate}
    (member : c ∈ roster.candidates) (installed : c.isInstalled = true) :
    roster.installed? = some c := by
  cases found : roster.installed? with
  | none => simp [(installed?_eq_none_iff roster).1 found c member] at installed
  | some other =>
      obtain ⟨also, carries⟩ := mem_of_installed? found
      rw [sound.single other also c member carries installed]

/-- Where nothing is pending, one candidate is installed. -/
theorem Sound.served (sound : roster.Sound) (listed : roster.candidates ≠ [])
    (enabled : roster.disabled = false) (quiet : roster.hasPending = false) :
    roster.installed?.isSome := by
  have carrying : ∃ c ∈ roster.candidates, c.isInstalled = true := by
    obtain ⟨c, member⟩ := List.exists_mem_of_ne_nil _ listed
    cases state : c.state with
    | standby => exact sound.carried c member state
    | active => exact ⟨c, member, by simp [Candidate.isInstalled, state]⟩
    | disabled => exact absurd ((sound.held c member).1 state) (by simp [enabled])
    | joining => exact absurd ((hasPending_iff roster).2 ⟨c, member, by simp [state]⟩) (by simp [quiet])
    | leaving installed =>
        exact absurd (stays_of_quiet quiet member) (by simp [Candidate.isLeaving, state])
  obtain ⟨c, member, installed⟩ := carrying
  rw [sound.installed?_eq member installed]
  rfl

theorem sound_new (disabled : Bool) : Sound { disabled } :=
  ⟨List.nodup_nil, by simp, by simp, by simp⟩

theorem Sound.add (sound : roster.Sound) (link : Link) : (roster.add link).2.Sound := by
  unfold Roster.add
  split
  · exact sound
  · rename_i unknown
    have fresh : ∀ c ∈ roster.candidates, c.gateway ≠ link.gateway := by
      simpa [candidate?, List.find?_eq_none] using unknown
    have idle : Candidate.isInstalled ⟨link, if roster.disabled then .disabled else .joining⟩ = false := by
      cases roster.disabled <;> rfl
    constructor
    · rw [List.map_append, List.nodup_append]
      refine ⟨sound.distinct, List.nodup_singleton _, ?_⟩
      rintro _ listed _ added rfl
      obtain ⟨c, member, gateway⟩ := List.mem_map.1 listed
      exact fresh c member (gateway.trans (List.mem_singleton.1 added))
    · intro c member
      rcases List.mem_append.1 member with before | added
      · exact sound.held c before
      · cases List.mem_singleton.1 added
        cases roster.disabled <;> simp
    · intro c member other also carries otherCarries
      rcases List.mem_append.1 member with before | added
      · rcases List.mem_append.1 also with otherBefore | otherAdded
        · exact sound.single c before other otherBefore carries otherCarries
        · cases List.mem_singleton.1 otherAdded
          exact absurd otherCarries (by simp [idle])
      · cases List.mem_singleton.1 added
        exact absurd carries (by simp [idle])
    · intro c member stands
      rcases List.mem_append.1 member with before | added
      · obtain ⟨other, also, carries⟩ := sound.carried c before stands
        exact ⟨other, List.mem_append_left _ also, carries⟩
      · cases List.mem_singleton.1 added
        cases disabled : roster.disabled <;> simp [disabled] at stands

/-- What is left of a candidate that goes is still installed if it was before. -/
theorem dismissed_spec {c left : Candidate} (stays : dismissed c = some left) :
    left.link = c.link ∧ left.isInstalled = c.isInstalled ∧ left.isLeaving = true ∧
      c.state ≠ .disabled := by
  unfold dismissed at stays
  split at stays <;> cases stays <;> rename_i state <;>
    simp [Candidate.isInstalled, Candidate.isLeaving, state]

/-- Where a candidate of the roster that is left after a removal comes from. -/
theorem mem_remove {gateway : Address} {left : Candidate}
    (member : left ∈ (roster.remove gateway).candidates) :
    ∃ c ∈ roster.candidates, left.link = c.link ∧ left.isInstalled = c.isInstalled ∧
      (left = c ∨ (left.isLeaving = true ∧ c.state ≠ .disabled)) := by
  obtain ⟨c, stood, stays⟩ := List.mem_filterMap.1 member
  split at stays
  · obtain ⟨link, carries, leaves, enabled⟩ := dismissed_spec stays
    exact ⟨c, stood, link, carries, .inr ⟨leaves, enabled⟩⟩
  · cases stays
    exact ⟨_, stood, rfl, rfl, .inl rfl⟩

/-- A removal leaves the route of a destination where it is. -/
theorem exists_mem_remove (gateway : Address) {c : Candidate} (stood : c ∈ roster.candidates)
    (carries : c.isInstalled = true) :
    ∃ left ∈ (roster.remove gateway).candidates, left.link = c.link ∧ left.isInstalled = true := by
  simp only [remove, List.mem_filterMap]
  by_cases here : c.gateway = gateway
  · have stays : ∃ left, dismissed c = some left := by
      unfold dismissed
      split <;> simp_all [Candidate.isInstalled]
    obtain ⟨left, stays⟩ := stays
    obtain ⟨link, same, -⟩ := dismissed_spec stays
    exact ⟨left, ⟨c, stood, by rw [if_pos here, stays]⟩, link, same.trans carries⟩
  · exact ⟨c, ⟨c, stood, if_neg here⟩, rfl, carries⟩

theorem Sound.remove (sound : roster.Sound) (gateway : Address) :
    (roster.remove gateway).Sound := by
  have distinct : ((roster.remove gateway).candidates.map Candidate.gateway).Nodup := by
    refine sound.distinct.sublist (map_filterMap_sublist (fun c left stays => ?_) _)
    split at stays
    · exact congrArg Link.gateway (dismissed_spec stays).1
    · cases stays
      rfl
  refine ⟨distinct, ?_, ?_, ?_⟩
  · intro left member
    obtain ⟨c, stood, -, -, rfl | ⟨leaves, enabled⟩⟩ := mem_remove member
    · exact sound.held left stood
    · have open_roster := mt (sound.held c stood).2 enabled
      refine iff_of_false (fun state => ?_) open_roster
      simp [Candidate.isLeaving, state] at leaves
  · intro left member other also carries otherCarries
    obtain ⟨c, stood, link, same, -⟩ := mem_remove member
    obtain ⟨d, alsoStood, otherLink, otherSame, -⟩ := mem_remove also
    have one : c = d :=
      sound.single c stood d alsoStood (same ▸ carries) (otherSame ▸ otherCarries)
    refine List.inj_on_of_nodup_map distinct member also ?_
    rw [Candidate.gateway, Candidate.gateway, link, otherLink, one]
  · intro left member stands
    obtain ⟨c, stood, -, -, rfl | ⟨leaves, -⟩⟩ := mem_remove member
    · obtain ⟨other, also, carries⟩ := sound.carried left stood stands
      obtain ⟨there, listed, -, still⟩ := exists_mem_remove gateway also carries
      exact ⟨there, listed, still⟩
    · simp [Candidate.isLeaving, stands] at leaves

theorem Sound.joining_enable (sound : roster.Sound) (disabled : roster.disabled = true)
    {c : Candidate} (member : c ∈ roster.enable.candidates) : c.state = .joining := by
  obtain ⟨before, stood, rfl⟩ := List.mem_map.1 member
  rw [if_pos ((sound.held before stood).2 disabled)]

theorem Sound.enable (sound : roster.Sound) (disabled : roster.disabled = true) :
    roster.enable.Sound := by
  have joining : ∀ c ∈ roster.enable.candidates, c.state = .joining := fun c member =>
    sound.joining_enable disabled member
  constructor
  · have gateways : roster.enable.candidates.map Candidate.gateway =
        roster.candidates.map Candidate.gateway := by
      simp only [Roster.enable, List.map_map]
      refine List.map_congr_left fun c _ => ?_
      simp only [Function.comp_apply]
      split <;> rfl
    rw [gateways]
    exact sound.distinct
  · intro c member
    simp [joining c member, Roster.enable]
  · intro c member other _ carries
    simp [Candidate.isInstalled, joining c member] at carries
  · intro c member stands
    rw [joining c member] at stands
    cases stands

theorem mem_settle {active : Option Address} {left : Candidate} :
    left ∈ (roster.settle active).candidates ↔
      ∃ c ∈ roster.candidates, c.isLeaving = false ∧
        left = { c with state := if some c.gateway = active then .active else .standby } := by
  simp only [settle, List.mem_map, List.mem_filter, Bool.not_eq_true', and_assoc, @eq_comm _ left]

theorem wanted_settle {c : Candidate} (member : c ∈ roster.candidates)
    (stays : c.isLeaving = false) (active : Option Address) : (roster.settle active).Wanted := by
  refine ⟨_, mem_settle.2 ⟨c, member, stays, rfl⟩, ?_⟩
  by_cases here : some c.gateway = active <;> simp [Candidate.isLeaving, here]

theorem Sound.settle (sound : roster.Sound) {c : Candidate} (member : c ∈ roster.candidates)
    (stays : c.isLeaving = false) (enabled : roster.disabled = false) :
    (roster.settle (some c.gateway)).Sound := by
  have carries : ∀ left ∈ (roster.settle (some c.gateway)).candidates,
      left.isInstalled = true → left = { c with state := .active } := by
    intro left listed installed
    obtain ⟨before, stood, -, rfl⟩ := mem_settle.1 listed
    by_cases here : some before.gateway = some c.gateway
    · rw [if_pos here, sound.eq_of_gateway stood member (Option.some.inj here)]
    · simp [Candidate.isInstalled, here] at installed
  constructor
  · refine sound.distinct.sublist ?_
    have gateways : (roster.settle (some c.gateway)).candidates.map Candidate.gateway =
        (roster.candidates.filter fun c => !c.isLeaving).map Candidate.gateway := by
      simp only [Roster.settle, List.map_map]
      rfl
    rw [gateways]
    exact List.filter_sublist.map _
  · intro left listed
    obtain ⟨before, -, -, rfl⟩ := mem_settle.1 listed
    refine iff_of_false ?_ (by simp [Roster.settle, enabled])
    simp only
    split <;> simp
  · intro left listed other also installed otherInstalled
    rw [carries left listed installed, carries other also otherInstalled]
  · intro left listed stands
    exact ⟨{ c with state := .active }, mem_settle.2 ⟨c, member, stays, by simp⟩, rfl⟩

theorem Sound.installed?_settle (sound : roster.Sound) {c : Candidate}
    (member : c ∈ roster.candidates) (stays : c.isLeaving = false)
    (enabled : roster.disabled = false) :
    (roster.settle (some c.gateway)).installed? = some { c with state := .active } :=
  (sound.settle member stays enabled).installed?_eq
    (mem_settle.2 ⟨c, member, stays, by simp⟩) rfl

/-- What is wanted is not dropped by a commit, and stays wanted. -/
theorem commit_wanted {σ : Type} [RoutingTable σ] (roster : Roster) (destination : Destination)
    (selected : Option Address) (table : σ) (enabled : roster.disabled = false)
    (wanted : roster.Wanted) :
    ∃ after, (roster.commit destination selected table).1.roster = some after ∧
      after.disabled = false ∧ after.Wanted := by
  have stays : (roster.commit destination selected table).1.roster ≠ none := by
    refine commit_cases (motive := fun result => result.1.roster ≠ none)
      roster destination selected table ?_ ?_ ?_ ?_
    · simp
    · intro _ _ _
      unfold install
      split
      · simp
      · split
        · split <;> simp [attached, failed]
        · split <;> simp [attached, failed]
    · exact fun _ _ unwanted => absurd wanted unwanted
    · intro _ _ _
      unfold reconfigure
      simp only
      split <;> simp
  obtain ⟨after, left⟩ := Option.ne_none_iff_exists'.1 stays
  refine ⟨after, left, ?_⟩
  cases left ▸ roster.commit_after destination selected table with
  | kept => exact ⟨enabled, wanted⟩
  | settled c member stays _ => exact ⟨enabled, wanted_settle member stays _⟩

theorem Sound.after {after : Roster} (sound : roster.Sound) (outcome : roster.After (some after)) :
    after.Sound := by
  cases outcome with
  | kept => exact sound
  | settled c member stays enabled => exact sound.settle member stays enabled

end Roster

namespace Services

/-- Every destination is sound and has a candidate. -/
def Sound (services : Services) : Prop :=
  ∀ net roster, services.roster? net = some roster → roster.Sound ∧ roster.candidates ≠ []

variable {services : Services}

theorem Sound.insert (sound : services.Sound) (net : Prefix) {roster : Roster} (here : roster.Sound)
    (kept : roster.candidates ≠ []) :
    Sound { services with rosters := services.rosters.insert net roster } := by
  intro other found stands
  simp only [roster?, SortedMap.get?_insert] at stands
  split at stands
  · cases stands
    exact ⟨here, kept⟩
  · exact sound other found stands

theorem Sound.add (sound : services.Sound) (link : Link) (net : Prefix) (disabled : Bool) :
    (services.add link net disabled).2.Sound := by
  have listed : ∀ roster : Roster, (roster.add link).2.candidates ≠ [] := by
    intro roster
    unfold Roster.add
    split
    · rename_i known
      exact List.ne_nil_of_mem (List.mem_of_find?_eq_some known)
    · simp
  have old : ((services.roster? net).getD { disabled }).Sound := by
    cases found : services.roster? net with
    | none => exact Roster.sound_new disabled
    | some roster => exact (sound net roster found).1
  exact sound.insert net (old.add link) (listed _)

theorem Sound.remove (sound : services.Sound) (link : Link) (net : Prefix) :
    (services.remove link net).2.Sound := by
  unfold Services.remove
  split
  · exact sound
  · rename_i roster found
    simp only
    split
    · intro other left stands
      simp only [roster?, SortedMap.get?_erase] at stands
      split at stands
      · cases stands
      · exact sound other left stands
    · rename_i some_left
      refine sound.insert net ((sound net roster found).1.remove link.gateway) fun gone => ?_
      exact some_left (by rw [Roster.isEmpty, gone]; rfl)

theorem Sound.enable (sound : services.Sound) (net : Prefix) : (services.enable net).2.Sound := by
  intro other after stands
  rcases Services.of_roster?_enable stands with ⟨same, -⟩ | ⟨-, roster, found, disabled, rfl⟩
  · exact sound other after same
  · obtain ⟨here, listed⟩ := sound net roster found
    exact ⟨here.enable disabled, fun gone => listed (List.map_eq_nil_iff.1 gone)⟩

theorem Sound.sweep {σ : Type} (sound : services.Sound)
    {visit : Roster → Destination → σ → Settlement × σ} (table : σ)
    (outcome : ∀ (roster : Roster) destination table,
      roster.After (visit roster destination table).1.roster) :
    (services.sweep visit table).1.services.Sound := by
  intro net after stands
  obtain ⟨roster, seen, found, became⟩ := Services.of_roster?_sweep stands
  obtain ⟨here, kept⟩ := sound net roster found
  have settled : roster.After (some after) := became ▸ outcome roster ⟨services.group, net⟩ seen
  refine ⟨here.after settled, ?_⟩
  cases settled with
  | kept => exact kept
  | settled c member stays enabled =>
      exact List.ne_nil_of_mem (Roster.mem_settle.2 ⟨c, member, stays, rfl⟩)

end Services

/-! ## Peers -/

namespace Peers

/-- There is one peer for a gateway. -/
def Sound (peers : Peers) : Prop := (peers.list.map Peer.gateway).Nodup

variable {peers : Peers}

theorem mem_of_peer? {gateway : Address} {peer : Peer}
    (found : peers.peer? gateway = some peer) : peer ∈ peers.list ∧ peer.gateway = gateway :=
  ⟨List.mem_of_find?_eq_some found, by simpa using List.find?_some found⟩

theorem Sound.eq_of_gateway (sound : peers.Sound) {peer other : Peer}
    (member : peer ∈ peers.list) (also : other ∈ peers.list)
    (same : other.gateway = peer.gateway) : other = peer :=
  List.inj_on_of_nodup_map sound also member same

theorem Sound.add (sound : peers.Sound) (link : Link) (disabled : Bool) :
    (peers.add link disabled).2.Sound := by
  unfold Peers.add
  split
  · exact sound
  · rename_i unknown
    have fresh : ∀ peer ∈ peers.list, peer.gateway ≠ link.gateway := by
      simpa [peer?, List.find?_eq_none] using unknown
    rw [Sound, List.map_append, List.nodup_append]
    refine ⟨sound, List.nodup_singleton _, ?_⟩
    rintro _ listed _ added rfl
    obtain ⟨peer, member, gateway⟩ := List.mem_map.1 listed
    exact fresh peer member (gateway.trans (List.mem_singleton.1 added))

theorem dismissed_spec {peer left : Peer} (stays : dismissed peer = some left) :
    left.link = peer.link ∧ left.window = peer.window := by
  unfold dismissed at stays
  split at stays <;> cases stays <;> exact ⟨rfl, rfl⟩

/-- Where a peer that is left after a removal comes from. -/
theorem mem_remove {gateway : Address} {left : Peer}
    (member : left ∈ (peers.remove gateway).2.list) :
    ∃ peer ∈ peers.list, left.link = peer.link ∧ left.window = peer.window := by
  unfold remove at member
  split at member
  · exact ⟨left, member, rfl, rfl⟩
  · obtain ⟨peer, stood, stays⟩ := List.mem_filterMap.1 member
    refine ⟨peer, stood, ?_⟩
    split at stays
    · exact dismissed_spec stays
    · cases stays
      exact ⟨rfl, rfl⟩

theorem Sound.remove (sound : peers.Sound) (gateway : Address) : (peers.remove gateway).2.Sound := by
  unfold Peers.remove
  split
  · exact sound
  · refine sound.sublist (map_filterMap_sublist (fun peer left stays => ?_) _)
    split at stays
    · exact congrArg Link.gateway (dismissed_spec stays).1
    · cases stays
      rfl

theorem Sound.enable (sound : peers.Sound) (net : Prefix) : (peers.enable net).2.Sound := by
  unfold Peers.enable
  split
  · simp only [Sound, List.map_map]
    have gateways : ∀ peer : Peer, (Peer.gateway ∘ fun peer : Peer =>
        if peer.state = .disabled && peer.host = net then { peer with state := .joining } else peer)
          peer = peer.gateway := fun peer => by
      simp only [Function.comp_apply]
      split <;> rfl
    rw [funext gateways]
    exact sound
  · exact sound

theorem link_measured (tallies : Tallies) (peer : Peer) :
    (measured tallies peer).link = peer.link := by
  unfold measured
  split
  · rfl
  · split <;> rfl

theorem Sound.ping (sound : peers.Sound) (tallies : Tallies) : (peers.ping tallies).Sound := by
  have gateways : ∀ peer : Peer, (Peer.gateway ∘ measured tallies) peer = peer.gateway :=
    fun peer => congrArg Link.gateway (link_measured tallies peer)
  rw [Sound, Peers.ping, List.map_map, funext gateways]
  exact sound

theorem Sound.select (sound : peers.Sound) : peers.select.2.Sound := by
  unfold Peers.select
  split <;> exact sound

variable {σ : Type} [RoutingTable σ]

theorem Sound.commit (sound : peers.Sound) (table : σ) : (peers.commit table).2.1.Sound := by
  have gateways : ∀ (list : List Peer) (table : σ),
      (((settleAll list table).1.filterMap Settled.kept).map Peer.gateway).Sublist
        (list.map Peer.gateway) := by
    intro list
    induction list with
    | nil => exact fun _ => List.Sublist.slnil
    | cons peer rest ih =>
        intro table
        simp only [settleAll, List.filterMap_cons]
        split
        · exact (ih _).cons _
        · rename_i after kept
          have same : after.gateway = peer.gateway :=
            congrArg Link.gateway (claims_settle kept).2
          rw [List.map_cons, List.map_cons, same]
          exact (ih _).cons_cons _
  exact sound.sublist (gateways peers.list table)

end Peers

/-! ## Groups -/

namespace Group

structure Sound (group : Group) : Prop where
  peers : group.peers.Sound
  services : group.services.Sound

theorem sound_empty (id : GroupId) (windowSize : Nat) (margins : Margins) :
    (empty id windowSize margins).Sound :=
  ⟨List.nodup_nil, fun _ _ stands => nomatch stands⟩

variable {σ : Type} [RoutingTable σ] {group after : Group}

theorem Sound.commit (sound : group.Sound) {table : σ}
    (kept : (group.commit table).1.kept = some after) : after.Sound := by
  obtain ⟨peers, services⟩ := kept_commit kept
  have swept : (group.sweptServices table).1.services.Sound :=
    sound.services.sweep _ fun roster destination table =>
      roster.commit_after destination _ table
  refine ⟨peers ▸ (sound.peers.commit table).select, ?_⟩
  rcases services with same | withdrawn
  · exact same ▸ swept
  · exact withdrawn ▸ swept.sweep _ Roster.giveUp_after

theorem Sound.ping (sound : group.Sound) {tallies : Tallies} {table : σ}
    (kept : (group.ping tallies table).1.kept = some after) : after.Sound := by
  cases kept
  refine ⟨(sound.peers.ping tallies).select, ?_⟩
  simp only
  split
  · exact sound.services
  · exact sound.services.sweep table fun roster destination table =>
      roster.reroute_after destination _ table

end Group

/-! ## Runs -/

namespace Router

def Sound (router : Router) : Prop :=
  ∀ id group, router.groups.get? id = some group → group.Sound

variable {router : Router}

theorem sound_fresh (settings : RouterSettings) : Sound { settings } :=
  fun _ _ stands => nomatch stands

theorem Sound.setGroup (sound : router.Sound) (id : GroupId) {group : Group} (here : group.Sound) :
    (router.setGroup id group).Sound := by
  intro other found stands
  rw [Router.setGroup, SortedMap.get?_insert] at stands
  split at stands
  · cases stands
    exact here
  · exact sound other found stands

theorem Sound.group (sound : router.Sound) (id : GroupId) : (router.group id).Sound := by
  rw [Router.group]
  cases found : router.groups.get? id with
  | none => exact Group.sound_empty _ _ _
  | some group => exact sound id group found

theorem Sound.accept (sound : router.Sound) (link : Link) (place : Place) (net : Prefix) :
    (router.accept link place net).2.Sound := by
  unfold Router.accept
  split
  · exact sound
  · have group := sound.group link.group
    refine sound.setGroup link.group ?_
    cases place with
    | peer => exact ⟨group.peers.add link _, group.services⟩
    | service => exact ⟨group.peers, group.services.add link net _⟩

theorem Sound.add (sound : router.Sound) (link : Link) (nets : List Prefix) :
    (router.add link nets).2.Sound := by
  have all : ∀ (places : List (Place × Prefix)) (router : Router), router.Sound →
      (acceptAll link places router).2.Sound := by
    intro places
    induction places with
    | nil => exact fun _ sound => sound
    | cons first rest ih => exact fun router sound => ih _ (sound.accept link first.1 first.2)
  exact all _ router sound

theorem Sound.remove (sound : router.Sound) (link : Link) (nets : List Prefix) :
    (router.remove link nets).2.Sound := by
  have all : ∀ (places : List (Place × Prefix)) (group : Group), group.Sound →
      (dismissAll link places group).2.Sound := by
    intro places
    induction places with
    | nil => exact fun _ sound => sound
    | cons first rest ih =>
        obtain ⟨place, net⟩ := first
        intro group sound
        refine ih (dismiss group link place net).2 ?_
        cases place with
        | peer => exact ⟨sound.peers.remove link.gateway, sound.services⟩
        | service =>
            rw [dismiss_service]
            exact ⟨sound.peers, sound.services.remove link net⟩
  unfold Router.remove
  split
  · exact sound
  · rename_i group found
    exact sound.setGroup link.group (all _ group (sound link.group group found))

theorem Held.sound_enable {held : Held} (kind : held.Kind) {group : Group} (sound : group.Sound)
    (net : Prefix) : (held.enable group net).2.Sound := by
  cases kind with
  | peers => exact ⟨sound.peers.enable net, sound.services⟩
  | services => exact ⟨sound.peers, sound.services.enable net⟩

theorem Sound.resolve (sound : router.Sound) : router.resolve.2.Sound := by
  refine resolve_induction (motive := fun progress => progress.2.Sound) router sound ?_
  intro held kind id net count router group _ found sound
  exact sound.setGroup id (Held.sound_enable kind (sound id group found) net)

variable {σ : Type} [RoutingTable σ]

omit [RoutingTable σ] in
theorem Sound.walk (sound : router.Sound) {visit : Group → σ → Group.Settled × σ} (table : σ)
    (outcome : ∀ (group : Group) table after, group.Sound → (visit group table).1.kept = some after →
      after.Sound) : (router.walk visit table).1.router.Sound := by
  intro id after stands
  obtain ⟨group, seen, found, kept⟩ := of_get?_walk stands
  exact outcome group seen after (sound id group found) kept

theorem Sound.commitOnce (sound : router.Sound) (table : σ) :
    (router.commitOnce table).1.router.Sound :=
  sound.walk table fun _ _ _ sound kept => sound.commit kept

theorem Sound.apply (sound : router.Sound) (table : σ) : (router.apply table).2.1.Sound := by
  refine apply_induction (motive := fun state => state.1.Sound) router table sound ?_ ?_
  · exact fun router table sound => sound.commitOnce table
  · exact fun router table sound => sound.resolve

theorem Sound.ping (sound : router.Sound) (tallies : Tallies) (table : σ) :
    (router.ping tallies table).2.1.Sound :=
  sound.walk table fun _ _ _ sound kept => sound.ping kept

theorem Sound.setMargins (sound : router.Sound) (margins : Margins) :
    (router.setMargins margins).Sound := by
  intro id left stands
  rw [Router.setMargins, SortedMap.get?_map] at stands
  obtain ⟨group, found, rfl⟩ := Option.map_eq_some_iff.1 stands
  obtain ⟨peers, services⟩ := sound id group found
  exact ⟨peers, services⟩

end Router

variable {σ : Type} [RoutingTable σ]

theorem Operation.sound_step {state : Router × σ} (sound : state.1.Sound) (op : Operation σ) :
    (op.step state).1.Sound := by
  obtain ⟨router, table⟩ := state
  cases op with
  | add link nets => exact sound.add link nets
  | remove link nets => exact sound.remove link nets
  | apply => exact sound.apply table
  | ping tallies => exact sound.ping tallies table
  | setMargins margins => exact sound.setMargins margins
  | flush => exact Router.sound_fresh router.settings
  | close =>
      simp only [step, Router.close]
      split <;> exact Router.sound_fresh router.settings
  | outside change => exact sound

theorem run_sound (settings : RouterSettings) (table : σ) (ops : List (Operation σ)) :
    (run ops (Router.fresh settings table)).1.Sound :=
  run_induction (motive := fun state => state.1.Sound) ops (Router.sound_fresh settings)
    fun op _ _ sound => op.sound_step sound

end OverlayRouting
