/-
# OverlayRouting.Proofs.Exclusion -- when claims exclude each other

Across groups a claim should be exclusive (`Router.Exclusive`).  Every operation but
admission keeps it so, whatever the table answers.  Admission checks the destination that
was asked for, and that is not always the address that its group claims afterwards
(`Router.Usurps`):

* a peer is claimed under its gateway, which need not be the destination asked for;
* a destination that only waits to be withdrawn may have been claimed by another group
  meanwhile; a link that joins it is refused, but makes it wanted again all the same.

These are the only ways in which claims come to overlap: along every run they exclude
each other exactly as long as no admission usurps an address
(`exclusive_throughout_iff`).
-/
import Mathlib.Data.List.Induction
import OverlayRouting.Proofs.Apply
import OverlayRouting.Proofs.Claims
import OverlayRouting.RoutingTable.Memory

namespace OverlayRouting

set_option autoImplicit false

namespace Router

/-! ## Exclusive claims -/

/-- No address is claimed by two groups. -/
def Exclusive (router : Router) : Prop :=
  ∀ net id other group rival, router.groups.get? id = some group →
    router.groups.get? other = some rival → group.claims net = true → rival.claims net = true →
    id = other

theorem hasConflict_iff (router : Router) (net : Prefix) (id : GroupId) :
    router.hasConflict net id = true ↔
      ∃ other rival, other ≠ id ∧ router.groups.get? other = some rival ∧
        rival.claims net = true := by
  simp only [hasConflict, List.any_eq_true, Bool.and_eq_true, decide_eq_true_eq, Prod.exists,
    SortedMap.mem_entries_iff]
  exact ⟨fun ⟨other, rival, stands, ne, claims⟩ => ⟨other, rival, ne, stands, claims⟩,
    fun ⟨other, rival, ne, stands, claims⟩ => ⟨other, rival, stands, ne, claims⟩⟩

theorem exclusive_fresh (settings : RouterSettings) : Exclusive { settings } := by
  intro net id other group rival stands
  cases stands

/-- Claims stay exclusive if groups are only dropped and claims only given up. -/
theorem Exclusive.of_claims {router after : Router} (exclusive : router.Exclusive)
    (gone : ∀ id left, after.groups.get? id = some left → ∃ group,
      router.groups.get? id = some group ∧
        ∀ net, left.claims net = true → group.claims net = true) : after.Exclusive := by
  intro net id other left rivalLeft stands rivalStands claims rivalClaims
  obtain ⟨group, found, before⟩ := gone id left stands
  obtain ⟨rival, rivalFound, rivalBefore⟩ := gone other rivalLeft rivalStands
  exact exclusive net id other group rival found rivalFound (before net claims)
    (rivalBefore net rivalClaims)

/-! ### One group changes -/

theorem get?_setGroup (router : Router) (id other : GroupId) (group : Group) :
    (router.setGroup id group).groups.get? other =
      if id = other then some group else router.groups.get? other := by
  rw [setGroup, SortedMap.get?_insert]
  simp only [rank_eq_iff]

theorem get?_of_claims {router : Router} {id : GroupId} {net : Prefix}
    (claims : (router.group id).claims net = true) :
    router.groups.get? id = some (router.group id) := by
  cases found : router.groups.get? id with
  | some group => rw [group_of_get? found]
  | none => simp [Router.group, found, Group.not_claims_empty] at claims

theorem group_setGroup (router : Router) (id : GroupId) (group : Group) :
    (router.setGroup id group).group id = group :=
  group_of_get? (by rw [get?_setGroup, if_pos rfl])

theorem Exclusive.no_conflict {router : Router} (exclusive : router.Exclusive) {id : GroupId}
    {net : Prefix} (claims : (router.group id).claims net = true) :
    router.hasConflict net id = false := by
  by_contra conflict
  obtain ⟨other, rival, ne, stands, rivalClaims⟩ :=
    (hasConflict_iff router net id).1 (by simpa using conflict)
  exact ne (exclusive net other id rival _ stands (get?_of_claims claims) rivalClaims claims)

theorem exclusive_iff (router : Router) :
    router.Exclusive ↔ ∀ entry ∈ router.groups.entries, ∀ net ∈ entry.2.claimed,
      router.hasConflict net entry.1 = false := by
  constructor
  · rintro exclusive ⟨id, group⟩ member net claims
    have stands := (router.groups.mem_entries_iff id group).1 member
    refine exclusive.no_conflict ?_
    rw [group_of_get? stands]
    exact (group.mem_claimed_iff net).1 claims
  · intro alone net id other group rival stands rivalStands claims rivalClaims
    by_contra differs
    have free := alone (id, group) ((router.groups.mem_entries_iff id group).2 stands) net
      ((group.mem_claimed_iff net).2 claims)
    have conflict := (hasConflict_iff router net id).2
      ⟨other, rival, Ne.symm differs, rivalStands, rivalClaims⟩
    exact absurd (conflict.symm.trans free) (by simp)

instance (router : Router) : Decidable router.Exclusive :=
  decidable_of_iff _ (exclusive_iff router).symm

/-- Putting a group in its place keeps claims exclusive exactly if no other group claims
what it claims anew. -/
theorem exclusive_setGroup_iff {router : Router} (exclusive : router.Exclusive) (id : GroupId)
    (group : Group) :
    (router.setGroup id group).Exclusive ↔
      ∀ net, group.claims net = true →
        (router.group id).claims net = true ∨ router.hasConflict net id = false := by
  constructor
  · intro still net claims
    refine .inr (by_contra fun conflict => ?_)
    obtain ⟨other, rival, ne, stands, rivalClaims⟩ :=
      (hasConflict_iff router net id).1 (by simpa using conflict)
    refine ne (still net other id rival group ?_ ?_ rivalClaims claims)
    · rwa [get?_setGroup, if_neg (Ne.symm ne)]
    · rw [get?_setGroup, if_pos rfl]
  · -- what the group claims anew conflicts with nobody, and what it claimed before, neither
    intro anew
    have alone : ∀ net, group.claims net = true → ∀ other rival, other ≠ id →
        router.groups.get? other = some rival → rival.claims net = true → False := by
      intro net claims other rival ne stands rivalClaims
      rcases anew net claims with before | free
      · exact ne (exclusive net other id rival _ stands (get?_of_claims before) rivalClaims before)
      · rw [(hasConflict_iff router net id).2 ⟨other, rival, ne, stands, rivalClaims⟩] at free
        cases free
    intro net one other first second stands otherStands claims otherClaims
    rw [get?_setGroup] at stands otherStands
    split at stands
    · rename_i here
      cases stands
      split at otherStands
      · rename_i also
        exact here.symm.trans also
      · rename_i elsewhere
        exact (alone net claims other second (Ne.symm elsewhere) otherStands otherClaims).elim
    · rename_i elsewhere
      split at otherStands
      · cases otherStands
        exact (alone net otherClaims one first (Ne.symm elsewhere) stands claims).elim
      · exact exclusive net one other first second stands otherStands claims otherClaims

/-! ## Admission -/

/-- Does admitting this destination of a link give its group an address that another
group claims? -/
def Usurps (router : Router) (link : Link) (place : Place) (net : Prefix) : Prop :=
  router.rejects net = false ∧
    match place with
    | .peer =>
        router.hasConflict net link.group = false ∧
          (router.group link.group).peers.peer? link.gateway = none ∧
            router.hasConflict link.host link.group = true
    | .service =>
        router.hasConflict net link.group = true ∧
          ∃ roster, (router.group link.group).services.roster? net = some roster ∧
            roster.disabled = false ∧ roster.candidate? link.gateway = none

/-- A destination is admitted without harm exactly if it does not usurp an address. -/
theorem exclusive_accept_iff {router : Router} (exclusive : router.Exclusive) (link : Link)
    (place : Place) (net : Prefix) :
    (router.accept link place net).2.Exclusive ↔ ¬ router.Usurps link place net := by
  unfold accept Usurps
  cases rejected : router.rejects net with
  | true => simp [exclusive]
  | false =>
      simp only [Bool.false_eq_true, if_false, true_and]
      rw [exclusive_setGroup_iff exclusive]
      cases place with
      | peer =>
          simp only [Group.claims_iff, Peers.claims_add]
          constructor
          · rintro anew ⟨free, unknown, taken⟩
            rcases anew link.host (.inl (.inr ⟨unknown, free, rfl⟩)) with before | alone
            · have alone := exclusive.no_conflict ((Group.claims_iff _ _).2 before)
              exact absurd (taken.symm.trans alone) (by simp)
            · exact absurd (taken.symm.trans alone) (by simp)
          · rintro fair other ((before | ⟨unknown, free, rfl⟩) | before)
            · exact .inl (.inl before)
            · refine .inr ?_
              by_contra taken
              exact fair ⟨free, unknown, by simpa using taken⟩
            · exact .inl (.inr before)
      | service =>
          simp only [Group.claims_iff, Services.claims_add]
          constructor
          · rintro anew ⟨taken, roster, found, enabled, unknown⟩
            rcases anew net (.inr (.inr ⟨rfl, .inr ⟨roster, found, enabled, unknown⟩⟩)) with
              before | alone
            · have alone := exclusive.no_conflict ((Group.claims_iff _ _).2 before)
              exact absurd (taken.symm.trans alone) (by simp)
            · exact absurd (taken.symm.trans alone) (by simp)
          · rintro fair other (before | before | ⟨rfl, ⟨-, free⟩ | waiting⟩)
            · exact .inl (.inl before)
            · exact .inl (.inr before)
            · exact .inr free
            · refine .inr ?_
              by_contra taken
              exact fair ⟨by simpa using taken, waiting⟩

/-- Admission takes no claim away, so an overlap stays. -/
theorem exclusive_of_accept {router : Router} {link : Link} {place : Place} {net : Prefix}
    (after : (router.accept link place net).2.Exclusive) : router.Exclusive := by
  refine after.of_claims fun id left stands => ?_
  unfold accept
  split
  · exact ⟨left, stands, fun _ claims => claims⟩
  · by_cases here : link.group = id
    · refine ⟨_, by rw [get?_setGroup, if_pos here], fun other claims => ?_⟩
      rw [here, group_of_get? stands]
      rw [Group.claims_iff] at claims
      cases place with
      | peer => exact (Group.claims_iff _ _).2 (claims.imp_left fun claims =>
          (Peers.claims_add _ _ _ _).2 (.inl claims))
      | service => exact (Group.claims_iff _ _).2 (claims.imp_right fun claims =>
          (Services.claims_add _ _ _ _ _).2 (.inl claims))
    · exact ⟨left, by rwa [get?_setGroup, if_neg here], fun _ claims => claims⟩

/-- No destination of a request usurps an address; each one is judged after those before
it were admitted. -/
def AdmitsFairly (link : Link) : List (Place × Prefix) → Router → Prop
  | [], _ => True
  | (place, net) :: rest, router =>
      ¬ router.Usurps link place net ∧ AdmitsFairly link rest (router.accept link place net).2

theorem exclusive_acceptAll_iff {router : Router} (exclusive : router.Exclusive) (link : Link)
    (places : List (Place × Prefix)) :
    (acceptAll link places router).2.Exclusive ↔ AdmitsFairly link places router := by
  have begins : ∀ (places : List (Place × Prefix)) (router : Router),
      (acceptAll link places router).2.Exclusive → router.Exclusive := by
    intro places
    induction places with
    | nil => exact fun _ after => after
    | cons first rest ih => exact fun router after => exclusive_of_accept (ih _ after)
  induction places generalizing router with
  | nil => simp [acceptAll, AdmitsFairly, exclusive]
  | cons first rest ih =>
      obtain ⟨place, net⟩ := first
      simp only [acceptAll, AdmitsFairly]
      constructor
      · intro after
        have accepted := begins rest _ after
        exact ⟨(exclusive_accept_iff exclusive link place net).1 accepted, (ih accepted).1 after⟩
      · rintro ⟨fair, others⟩
        exact (ih ((exclusive_accept_iff exclusive link place net).2 fair)).2 others

/-! ## The other operations -/

theorem claims_of_dismissAll {link : Link} {places : List (Place × Prefix)} {group : Group}
    {net : Prefix} (claimed : (dismissAll link places group).2.claims net = true) :
    group.claims net = true := by
  induction places generalizing group with
  | nil => exact claimed
  | cons first rest ih =>
      obtain ⟨place, here⟩ := first
      have claims : (dismiss group link place here).2.claims net = true := ih claimed
      cases place with
      | peer =>
          rw [Group.claims_iff] at claims ⊢
          exact claims.imp_left Peers.claims_of_remove
      | service =>
          rw [dismiss_service, Group.claims_iff] at claims
          rw [Group.claims_iff]
          exact claims.imp_right Services.claims_of_remove

theorem Exclusive.remove {router : Router} (exclusive : router.Exclusive) (link : Link)
    (nets : List Prefix) : (router.remove link nets).2.Exclusive := by
  unfold Router.remove
  split
  · exact exclusive
  · rename_i group found
    refine (exclusive_setGroup_iff exclusive link.group _).2 fun net claims => .inl ?_
    rw [group_of_get? found]
    exact claims_of_dismissAll claims

/-- Admitting a held address again claims nothing but this address. -/
theorem Held.claims_of_enable {held : Held} (kind : held.Kind) {group : Group} {net other : Prefix}
    (claimed : (held.enable group net).2.claims other = true) :
    group.claims other = true ∨ other = net := by
  rw [Group.claims_iff] at claimed
  rw [Group.claims_iff]
  cases kind with
  | peers =>
      rcases claimed with claims | claims
      · exact ((Peers.claims_enable _ _ _).1 claims).imp .inl And.left
      · exact .inl (.inr claims)
  | services =>
      rcases claimed with claims | claims
      · exact .inl (.inl claims)
      · exact (Services.claims_of_enable claims).imp_left .inr

theorem Exclusive.resolve {router : Router} (exclusive : router.Exclusive) :
    router.resolve.2.Exclusive := by
  refine resolve_induction (motive := fun progress => progress.2.Exclusive) router exclusive ?_
  intro held kind id net count router group free found exclusive
  refine (exclusive_setGroup_iff exclusive id _).2 fun other claims => ?_
  rw [group_of_get? found]
  rcases Held.claims_of_enable kind claims with before | rfl
  · exact .inl before
  · exact .inr free

variable {σ : Type} [RoutingTable σ]

theorem Exclusive.apply {router : Router} (exclusive : router.Exclusive) (table : σ) :
    (router.apply table).2.1.Exclusive := by
  refine apply_induction (motive := fun state => state.1.Exclusive) router table exclusive ?_ ?_
  · intro router table exclusive
    refine exclusive.of_claims fun id left stands => ?_
    obtain ⟨group, seen, found, kept⟩ := of_get?_walk stands
    exact ⟨group, found, fun net claims => Group.claims_of_commit kept claims⟩
  · exact fun router table exclusive => exclusive.resolve

theorem Exclusive.ping {router : Router} (exclusive : router.Exclusive) (tallies : Tallies)
    (table : σ) : (router.ping tallies table).2.1.Exclusive := by
  refine exclusive.of_claims fun id left stands => ?_
  obtain ⟨group, seen, found, kept⟩ := of_get?_walk stands
  exact ⟨group, found, fun net claims => Group.claims_of_ping kept claims⟩

theorem Exclusive.setMargins {router : Router} (exclusive : router.Exclusive) (margins : Margins) :
    (router.setMargins margins).Exclusive := by
  refine exclusive.of_claims fun id left stands => ?_
  rw [Router.setMargins, SortedMap.get?_map] at stands
  obtain ⟨group, found, rfl⟩ := Option.map_eq_some_iff.1 stands
  exact ⟨group, found, fun net claims => claims⟩

end Router

/-! ## Runs -/

variable {σ : Type} [RoutingTable σ]

/-- The operation usurps no address. -/
def Operation.Fair : Operation σ → Router → Prop
  | .add link nets, router => Router.AdmitsFairly link (Router.placed nets) router
  | _, _ => True

theorem Operation.exclusive_step_iff {state : Router × σ} (exclusive : state.1.Exclusive)
    (op : Operation σ) : (op.step state).1.Exclusive ↔ op.Fair state.1 := by
  obtain ⟨router, table⟩ := state
  cases op with
  | add link nets => exact Router.exclusive_acceptAll_iff exclusive link (Router.placed nets)
  | remove link nets => exact iff_of_true (exclusive.remove link nets) trivial
  | apply => exact iff_of_true (exclusive.apply table) trivial
  | ping tallies => exact iff_of_true (exclusive.ping tallies table) trivial
  | setMargins margins => exact iff_of_true (exclusive.setMargins margins) trivial
  | flush => exact iff_of_true (Router.exclusive_fresh router.settings) trivial
  | close =>
      refine iff_of_true ?_ trivial
      simp only [step, Router.close]
      split <;> exact Router.exclusive_fresh router.settings
  | outside change => exact iff_of_true exclusive trivial

/-- Claims exclude each other along a whole run exactly if no operation of it usurps an
address, whatever table there is and whatever it refuses. -/
theorem exclusive_throughout_iff (settings : RouterSettings) (table : σ) (ops : List (Operation σ)) :
    Throughout (fun state => state.1.Exclusive) ops (Router.fresh settings table) ↔
      ∀ done op, done ++ [op] <+: ops → op.Fair (run done (Router.fresh settings table)).1 := by
  constructor
  · intro always done op early
    have before := always done ((List.prefix_append done [op]).trans early)
    have after := always (done ++ [op]) early
    rw [run_append] at after
    exact (Operation.exclusive_step_iff before op).1 after
  · intro fair done early
    -- from the end of the beginning, since fairness is judged in the state before an operation
    induction done using List.reverseRecOn with
    | nil => exact Router.exclusive_fresh settings
    | append_singleton done op ih =>
        have before := ih ((List.prefix_append done [op]).trans early)
        rw [run_append]
        exact (Operation.exclusive_step_iff before op).2 (fair done op early)

/-- Two groups claim one network: the second takes it over while the first only waits to
withdraw it, and then a further link of the first joins. -/
theorem overlap_of_joining :
    let first := Sample.link "wg1" 0x0A000001#32 1 1
    let second := Sample.link "wg2" 0x0A000101#32 2 2
    let joining := Sample.link "wg3" 0x0A000002#32 3 1
    ¬ (run [.add first [first.host, Sample.lan], .remove first [first.host, Sample.lan],
        .add second [second.host, Sample.lan], .add joining [joining.host, Sample.lan]]
      (Router.fresh {} ({} : MemoryTable))).1.Exclusive := by
  intro first second joining exclusive
  have alone : Router.hasConflict _ Sample.lan ⟨1⟩ = false :=
    exclusive.no_conflict (by decide +kernel)
  exact absurd alone (by decide +kernel)

-- Two groups claim one peer: the second asks for another address than the gateway.
example :
    let first := Sample.link "wg1" 0x0A000001#32 1 1
    let second := Sample.link "wg2" 0x0A000001#32 2 2
    ¬ (run [.add first [first.host], .add second [.host (.v4 0x0A000009#32)]]
      (Router.fresh {} ({} : MemoryTable))).1.Exclusive := by
  intro first second exclusive
  have alone : Router.hasConflict _ first.host ⟨1⟩ = false :=
    exclusive.no_conflict (by decide +kernel)
  exact absurd alone (by decide +kernel)

end OverlayRouting
