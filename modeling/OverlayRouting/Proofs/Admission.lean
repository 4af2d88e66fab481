/-
# OverlayRouting.Proofs.Admission -- what the answers to a request say

A request is answered from the state before it: a group never competes with itself, so what
is admitted first changes no later answer (`Router.add_fst`).  What the request does to its
group is known exactly, too: the peer of the link is added once, and the link joins each
further destination once, however often it is named (`Router.peers_add`,
`Router.roster?_add`).

The two need not agree.  An answer is about the address, and what happens depends on the
entry that is there already: a gateway that is listed is skipped, and a link that joins a
destination inherits its flag.  So an accepted destination may stay disabled until the next
apply, or stay on the way out.  `Router.Truthful` says when an answer tells the truth.
-/
import OverlayRouting.Proofs.Exclusion
import OverlayRouting.Proofs.Sound

namespace OverlayRouting

set_option autoImplicit false

/-- A link joins once. -/
theorem Roster.add_add (roster : Roster) (link : Link) :
    ((roster.add link).2.add link).2 = (roster.add link).2 := by
  have listed : ∃ c, (roster.add link).2.candidate? link.gateway = some c := by
    unfold add
    split
    · rename_i c found
      exact ⟨c, found⟩
    · have last := List.mem_append_right roster.candidates (List.mem_singleton_self
        (Candidate.mk link (if roster.disabled then .disabled else .joining)))
      exact Option.isSome_iff_exists.1
        (List.find?_isSome.2 ⟨_, last, by simp [Candidate.gateway]⟩)
  obtain ⟨c, found⟩ := listed
  generalize (roster.add link).2 = joined at found
  simp only [add, found]

theorem Services.roster?_add (services : Services) (link : Link) (net other : Prefix)
    (disabled : Bool) :
    (services.add link net disabled).2.roster? other =
      if net = other then some (((services.roster? net).getD { disabled }).add link).2
      else services.roster? other := by
  have inserted := SortedMap.get?_insert services.rosters net other
    (((services.roster? net).getD { disabled }).add link).2
  simp only [rank_eq_iff] at inserted
  exact inserted

/-- The claim of a peer's address is that of the peer. -/
theorem Peers.Sound.claims_host_iff {peers : Peers} (sound : peers.Sound) {link : Link} {peer : Peer}
    (known : peers.peer? link.gateway = some peer) :
    peers.claims link.host = true ↔ peer.claimsAddress = true := by
  have member : peer ∈ peers.list := List.mem_of_find?_eq_some known
  have gateway : peer.gateway = link.gateway := by simpa using List.find?_some known
  have host : peer.host = link.host := congrArg Prefix.host gateway
  rw [claims_iff]
  constructor
  · rintro ⟨other, listed, claims, same⟩
    have also : other.gateway = peer.gateway := Prefix.host_inj (same.trans host.symm)
    rwa [← List.inj_on_of_nodup_map sound listed member also]
  · exact fun claims => ⟨peer, member, claims, host⟩

namespace Router

/-! ## Answers -/

/-- What is answered to a destination that is asked for in a group. -/
def answer (router : Router) (id : GroupId) (net : Prefix) : Option Error :=
  if router.rejects net then some (.defaultRoute net)
  else if router.hasConflict net id then some (.claimedElsewhere net)
  else none

theorem answer_eq_none_iff (router : Router) (id : GroupId) (net : Prefix) :
    router.answer id net = none ↔ router.rejects net = false ∧ router.hasConflict net id = false := by
  unfold answer
  cases router.rejects net <;> cases router.hasConflict net id <;> simp

theorem answer_eq_claimed_iff (router : Router) (id : GroupId) (net : Prefix) :
    router.answer id net = some (.claimedElsewhere net) ↔
      router.rejects net = false ∧ router.hasConflict net id = true := by
  unfold answer
  cases router.rejects net <;> cases router.hasConflict net id <;> simp

/-- A group does not compete with itself. -/
theorem hasConflict_setGroup (router : Router) (id : GroupId) (group : Group) (net : Prefix) :
    (router.setGroup id group).hasConflict net id = router.hasConflict net id := by
  rw [Bool.eq_iff_iff, hasConflict_iff, hasConflict_iff]
  refine exists_congr fun other => exists_congr fun rival => and_congr_right fun differs => ?_
  rw [get?_setGroup, if_neg (Ne.symm differs)]

theorem accept_fst (router : Router) (link : Link) (place : Place) (net : Prefix) :
    (router.accept link place net).1 = ⟨net, router.answer link.group net⟩ := by
  unfold accept answer
  split <;> rfl

/-- What a request looks up stays the same while it is served. -/
theorem accept_same (router : Router) (link : Link) (place : Place) (net other : Prefix) :
    (router.accept link place net).2.rejects other = router.rejects other ∧
      (router.accept link place net).2.hasConflict other link.group =
        router.hasConflict other link.group := by
  unfold accept
  split
  · exact ⟨rfl, rfl⟩
  · exact ⟨rfl, hasConflict_setGroup router link.group _ other⟩

theorem acceptAll_fst (link : Link) (places : List (Place × Prefix)) (router : Router) :
    (acceptAll link places router).1 =
      places.map fun place => ⟨place.2, router.answer link.group place.2⟩ := by
  induction places generalizing router with
  | nil => rfl
  | cons first rest ih =>
      obtain ⟨place, net⟩ := first
      have same : ∀ other, (router.accept link place net).2.answer link.group other =
          router.answer link.group other := fun other => by
        obtain ⟨rejects, conflict⟩ := router.accept_same link place net other
        rw [answer, answer, rejects, conflict]
      simp only [acceptAll, ih, accept_fst, same, List.map_cons]

/-- Every destination is answered as the router stood before the request. -/
theorem add_fst (router : Router) (link : Link) (nets : List Prefix) :
    (router.add link nets).1 = nets.map fun net => ⟨net, router.answer link.group net⟩ := by
  rw [add, acceptAll_fst]
  cases nets with
  | nil => rfl
  | cons first rest => simp [placed, Function.comp_def]

/-! ## What a request does -/

theorem group_accept (router : Router) (link : Link) (place : Place) (net : Prefix) :
    (router.accept link place net).2.group link.group =
      let group := router.group link.group
      let conflict := router.hasConflict net link.group
      if router.rejects net then group
      else match place with
        | .peer => { group with peers := (group.peers.add link conflict).2 }
        | .service => { group with services := (group.services.add link net conflict).2 } := by
  unfold accept
  split
  · rfl
  · exact group_setGroup router link.group _

theorem peers_acceptAll (router : Router) (link : Link) (rest : List Prefix) :
    ((acceptAll link (rest.map (Place.service, ·)) router).2.group link.group).peers =
      (router.group link.group).peers := by
  induction rest generalizing router with
  | nil => rfl
  | cons net rest ih =>
      simp only [List.map_cons, acceptAll, ih, group_accept]
      split <;> rfl

/-- The destination after a link has joined it. -/
def joined (router : Router) (link : Link) (net : Prefix) : Roster :=
  ((((router.group link.group).services.roster? net).getD
    { disabled := router.hasConflict net link.group }).add link).2

theorem roster?_acceptAll (router : Router) (link : Link) (rest : List Prefix) (net : Prefix) :
    ((acceptAll link (rest.map (Place.service, ·)) router).2.group link.group).services.roster? net =
      if net ∈ rest ∧ router.rejects net = false then some (router.joined link net)
      else (router.group link.group).services.roster? net := by
  induction rest generalizing router with
  | nil => simp [acceptAll]
  | cons other rest ih =>
      obtain ⟨rejects, conflict⟩ := router.accept_same link .service other net
      simp only [List.map_cons, acceptAll, ih, joined, rejects, conflict, group_accept,
        List.mem_cons]
      by_cases here : other = net
      · subst here
        cases rejected : router.rejects other with
        | true => simp
        | false =>
            simp only [Bool.false_eq_true, if_false, Services.roster?_add, if_true, and_true,
              Option.getD_some, Roster.add_add, true_or]
            split <;> rfl
      · have behind : (net = other ∨ net ∈ rest) ↔ net ∈ rest := by simp [Ne.symm here]
        simp only [behind]
        cases router.rejects other with
        | true => simp only [if_true]
        | false =>
            simp only [Bool.false_eq_true, if_false, Services.roster?_add, if_neg here]

/-- A request admits the peer of its link once, for its first destination. -/
theorem peers_add (router : Router) (link : Link) (nets : List Prefix) :
    ((router.add link nets).2.group link.group).peers =
      match nets.head? with
      | none => (router.group link.group).peers
      | some first =>
          if router.rejects first then (router.group link.group).peers
          else ((router.group link.group).peers.add link (router.hasConflict first link.group)).2 := by
  cases nets with
  | nil => rfl
  | cons first rest =>
      simp only [add, placed, acceptAll, peers_acceptAll, group_accept, List.head?_cons]
      split <;> rfl

/-- A request has its link join each further destination once. -/
theorem roster?_add (router : Router) (link : Link) (nets : List Prefix) (net : Prefix) :
    ((router.add link nets).2.group link.group).services.roster? net =
      if net ∈ nets.tail ∧ router.rejects net = false then some (router.joined link net)
      else (router.group link.group).services.roster? net := by
  cases nets with
  | nil => simp [add, placed, acceptAll]
  | cons first rest =>
      obtain ⟨rejects, conflict⟩ := router.accept_same link .peer first net
      have services : ((router.accept link .peer first).2.group link.group).services =
          (router.group link.group).services := by
        rw [group_accept]
        split <;> rfl
      simp only [add, placed, acceptAll, roster?_acceptAll, joined, rejects, conflict, services,
        List.tail_cons]
      rfl

/-! ## Claims after a request -/

theorem peers_claims_add (router : Router) (link : Link) (nets : List Prefix) (net : Prefix) :
    ((router.add link nets).2.group link.group).peers.claims net = true ↔
      (router.group link.group).peers.claims net = true ∨
        (link.host = net ∧ (router.group link.group).peers.peer? link.gateway = none ∧
          ∃ first, nets.head? = some first ∧ router.answer link.group first = none) := by
  rw [peers_add]
  cases nets.head? with
  | none => simp
  | some first =>
      cases rejected : router.rejects first with
      | true => simp [answer_eq_none_iff, rejected]
      | false =>
          simp only [Bool.false_eq_true, if_false, Peers.claims_add, Option.some.injEq,
            exists_eq_left', answer_eq_none_iff, rejected, true_and]
          tauto

theorem services_claims_add (router : Router) (link : Link) (nets : List Prefix) (net : Prefix) :
    ((router.add link nets).2.group link.group).services.claims net = true ↔
      (router.group link.group).services.claims net = true ∨
        (net ∈ nets.tail ∧ router.rejects net = false ∧
          (((router.group link.group).services.roster? net = none ∧
              router.hasConflict net link.group = false) ∨
            ∃ roster, (router.group link.group).services.roster? net = some roster ∧
              roster.disabled = false ∧ roster.candidate? link.gateway = none)) := by
  by_cases asked : net ∈ nets.tail ∧ router.rejects net = false
  · -- the destination is what one link joining it makes of it
    have same : ((router.add link nets).2.group link.group).services.roster? net =
        ((router.group link.group).services.add link net
          (router.hasConflict net link.group)).2.roster? net := by
      rw [roster?_add, if_pos asked, Services.roster?_add, if_pos rfl]
      rfl
    rw [Services.claims_iff, same, ← Services.claims_iff, Services.claims_add]
    simp [asked.1, asked.2]
  · rw [Services.claims_iff, roster?_add, if_neg asked, ← Services.claims_iff]
    refine ⟨.inl, Or.rec id fun also => absurd ⟨also.1, also.2.1⟩ asked⟩

/-! ## Answers and claims -/

/-- The group of a link after a request. -/
def served (router : Router) (link : Link) (nets : List Prefix) : Group :=
  (router.add link nets).2.group link.group

/-- The answers are given from the state before the request, and this is what they are worth:

* of an accepted peer, the address of its gateway is claimed unless that gateway is listed
  already and claims nothing;
* an accepted destination is claimed unless it is disabled, or the link is listed and all
  candidates are on the way out;
* a refused address is claimed only if it was before, or if the request usurps it. -/
structure Truthful (router : Router) (link : Link) (nets : List Prefix) : Prop where
  answers : (router.add link nets).1 = nets.map fun net => ⟨net, router.answer link.group net⟩
  peer : ∀ first, nets.head? = some first → router.answer link.group first = none →
    ((router.served link nets).peers.claims link.host = true ↔
      ∀ peer, (router.group link.group).peers.peer? link.gateway = some peer →
        peer.claimsAddress = true)
  service : ∀ net ∈ nets.tail, router.answer link.group net = none →
    ((router.served link nets).services.claims net = true ↔
      ∀ roster, (router.group link.group).services.roster? net = some roster →
        roster.disabled = false ∧ (roster.candidate? link.gateway = none ∨ roster.Wanted))
  refused : ∀ net ∈ nets, router.answer link.group net = some (.claimedElsewhere net) →
    (router.group link.group).claims net = false →
    (∀ first, nets.head? = some first → link.host = net → ¬ router.Usurps link .peer first) →
    (net ∈ nets.tail → ¬ router.Usurps link .service net) →
    (router.served link nets).claims net = false

theorem claims_accepted_peer {router : Router} (sound : router.Sound) {link : Link}
    {nets : List Prefix} {first : Prefix} (head : nets.head? = some first)
    (accepted : router.answer link.group first = none) :
    (router.served link nets).peers.claims link.host = true ↔
      ∀ peer, (router.group link.group).peers.peer? link.gateway = some peer →
        peer.claimsAddress = true := by
  rw [served, peers_claims_add]
  cases known : (router.group link.group).peers.peer? link.gateway with
  | none => exact iff_of_true (.inr ⟨rfl, rfl, first, head, accepted⟩) nofun
  | some peer =>
      rw [(sound.group link.group).peers.claims_host_iff known]
      simp

theorem claims_accepted_service (router : Router) {link : Link} {nets : List Prefix} {net : Prefix}
    (asked : net ∈ nets.tail) (accepted : router.answer link.group net = none) :
    (router.served link nets).services.claims net = true ↔
      ∀ roster, (router.group link.group).services.roster? net = some roster →
        roster.disabled = false ∧ (roster.candidate? link.gateway = none ∨ roster.Wanted) := by
  obtain ⟨allowed, free⟩ := (answer_eq_none_iff _ _ _).1 accepted
  rw [served, services_claims_add, Services.claims_iff]
  cases (router.group link.group).services.roster? net with
  | none => simp [asked, allowed, free]
  | some roster =>
      simp only [Option.some.injEq, exists_eq_left', forall_eq', reduceCtorEq, false_and, false_or,
        asked, allowed, true_and]
      tauto

theorem not_claims_refused {router : Router} {link : Link} {nets : List Prefix} {net : Prefix}
    (refused : router.answer link.group net = some (.claimedElsewhere net))
    (before : (router.group link.group).claims net = false)
    (peer : ∀ first, nets.head? = some first → link.host = net → ¬ router.Usurps link .peer first)
    (service : net ∈ nets.tail → ¬ router.Usurps link .service net) :
    (router.served link nets).claims net = false := by
  obtain ⟨allowed, taken⟩ := (answer_eq_claimed_iff _ _ _).1 refused
  by_contra claimed
  have unclaimed : ¬ (router.group link.group).claims net = true := by simp [before]
  rw [Group.claims_iff, not_or] at unclaimed
  rcases (Group.claims_iff _ net).1 (by simpa using claimed) with peers | services
  · rcases (peers_claims_add router link nets net).1 peers with already | ⟨host, unknown, first, head, free⟩
    · exact unclaimed.1 already
    · obtain ⟨first_allowed, first_free⟩ := (answer_eq_none_iff _ _ _).1 free
      exact peer first head host ⟨first_allowed, first_free, unknown, host ▸ taken⟩
  · rcases (services_claims_add router link nets net).1 services with
      already | ⟨asked, -, ⟨-, free⟩ | waiting⟩
    · exact unclaimed.2 already
    · cases taken.symm.trans free
    · exact service asked ⟨allowed, taken, waiting⟩

variable {σ : Type} [RoutingTable σ]

/-- Whatever happened before, a request is answered truthfully. -/
theorem truthful_run (settings : RouterSettings) (table : σ) (ops : List (Operation σ)) (link : Link)
    (nets : List Prefix) : (run ops (Router.fresh settings table)).1.Truthful link nets where
  answers := add_fst _ link nets
  peer _ head accepted := claims_accepted_peer (run_sound settings table ops) head accepted
  service _ asked accepted := claims_accepted_service _ asked accepted
  refused _ _ refused before peer service := not_claims_refused refused before peer service

/-- The second of two groups asks for the network of the first one.  It is refused and does not
claim the network, but it claims the address of its peer, which it was promised. -/
theorem truthful_to_the_second :
    let first := Sample.link "wg1" 0x0A000001#32 1 1
    let second := Sample.link "wg2" 0x0A000101#32 2 2
    let nets := [second.host, Sample.lan]
    let router := (run [.add first [first.host, Sample.lan]]
      (Router.fresh {} ({} : MemoryTable))).1
    (router.served second nets).peers.claims second.host = true ∧
      (router.served second nets).claims Sample.lan = false := by
  intro first second nets router
  have truthful : router.Truthful second nets := truthful_run {} _ _ second nets
  have unknown : (router.group ⟨2⟩).peers.peer? second.gateway = none := by decide +kernel
  have absent : (router.group ⟨2⟩).services.roster? Sample.lan = none := by decide +kernel
  constructor
  · refine (truthful.peer second.host rfl (by decide +kernel)).2 fun peer found => ?_
    cases unknown.symm.trans found
  · refine truthful.refused Sample.lan (by decide) (by decide +kernel) (by decide +kernel)
      (fun _ _ same => absurd same (by decide)) fun _ usurps => ?_
    obtain ⟨-, -, roster, found, -⟩ := usurps
    cases absent.symm.trans found

/-- A group claims what it was promised, and nothing that it was refused. -/
def KeepsWord (router : Router) (link : Link) (nets : List Prefix) : Prop :=
  ∀ admission ∈ (router.add link nets).1,
    (admission.refusal = none → (router.served link nets).claims admission.destination = true) ∧
    (admission.refusal = some (.claimedElsewhere admission.destination) →
      (router.served link nets).claims admission.destination = false)

instance (router : Router) (link : Link) (nets : List Prefix) :
    Decidable (router.KeepsWord link nets) :=
  inferInstanceAs (Decidable (∀ admission ∈ (router.add link nets).1, _ ∧ _))

/-- A network is free again, and a second request for it is accepted.  But the group had asked
for it before, and until the next apply it stays disabled. -/
theorem accepted_but_disabled :
    let first := Sample.link "wg1" 0x0A000001#32 1 1
    let second := Sample.link "wg2" 0x0A000101#32 2 2
    ¬ (run [.add first [first.host, Sample.lan], .add second [second.host, Sample.lan],
      .remove first [first.host, Sample.lan]] (Router.fresh {} ({} : MemoryTable))).1.KeepsWord
        second [second.host, Sample.lan] := by
  decide +kernel

end Router

end OverlayRouting
