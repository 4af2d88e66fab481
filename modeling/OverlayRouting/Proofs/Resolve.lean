/-
# OverlayRouting.Proofs.Resolve -- what a resolution admits again

A resolution goes through the disabled addresses once and admits those that nobody else
claims.  It takes no claim away, so what it has refused stays refused, and at its end every
address that is disabled still is contested (`resolve_contested`).  So a resolution that
follows at once finds nothing to do (`resolve_of_contested`), and one that admits nothing
leaves the router as it is (`resolve_eq_self`).
-/
import OverlayRouting.Proofs.Exclusion

namespace OverlayRouting

set_option autoImplicit false

/-! ## Disabled addresses -/

theorem Peers.mem_disabled_iff (peers : Peers) (net : Prefix) :
    net ∈ peers.disabled ↔ ∃ peer ∈ peers.list, peer.state = .disabled ∧ peer.host = net := by
  simp [disabled, and_assoc]

theorem Services.mem_disabled_iff (services : Services) (net : Prefix) :
    net ∈ services.disabled ↔
      ∃ roster, services.roster? net = some roster ∧ roster.disabled = true := by
  simp only [disabled, roster?, List.mem_filterMap, Option.ite_none_right_eq_some, Prod.exists,
    SortedMap.mem_entries_iff, Option.some.injEq]
  constructor
  · rintro ⟨_, roster, found, is_disabled, rfl⟩
    exact ⟨roster, found, is_disabled⟩
  · rintro ⟨roster, found, is_disabled⟩
    exact ⟨net, roster, found, is_disabled, rfl⟩

/-- A peer is as it was, or it was disabled and joins now. -/
theorem Peers.mem_enable {peers : Peers} {net : Prefix} {after : Peer}
    (member : after ∈ (peers.enable net).2.list) :
    ∃ peer ∈ peers.list, after = peer ∨
      (peer.state = .disabled ∧ after = { peer with state := .joining }) := by
  unfold enable at member
  split at member
  · obtain ⟨peer, stood, rfl⟩ := List.mem_map.1 member
    refine ⟨peer, stood, ?_⟩
    split
    · rename_i frees
      obtain ⟨state, -⟩ : peer.state = .disabled ∧ peer.host = net := by simpa using frees
      exact .inr ⟨state, rfl⟩
    · exact .inl rfl
  · exact ⟨after, member, .inl rfl⟩

theorem Peers.list_enable_eq_nil_iff (peers : Peers) (net : Prefix) :
    (peers.enable net).2.list = [] ↔ peers.list = [] := by
  unfold enable
  split
  · exact List.map_eq_nil_iff
  · exact Iff.rfl

theorem Peers.of_mem_disabled_enable {peers : Peers} {net other : Prefix}
    (member : other ∈ (peers.enable net).2.disabled) : other ∈ peers.disabled ∧ other ≠ net := by
  rw [mem_disabled_iff] at member
  rw [mem_disabled_iff]
  unfold enable at member
  split at member
  · obtain ⟨_, listed, state, host⟩ := member
    obtain ⟨peer, stood, rfl⟩ := List.mem_map.1 listed
    split at state
    · cases state
    · rename_i stays
      rw [if_neg stays] at host
      refine ⟨⟨peer, stood, state, host⟩, fun here => stays ?_⟩
      simp [state, host, here]
  · rename_i none_disabled
    obtain ⟨peer, stood, state, host⟩ := member
    refine ⟨⟨peer, stood, state, host⟩, fun here => none_disabled ?_⟩
    exact List.any_eq_true.2 ⟨peer, stood, by simp [state, host, here]⟩

theorem Services.of_mem_disabled_enable {services : Services} {net other : Prefix}
    (member : other ∈ (services.enable net).2.disabled) :
    other ∈ services.disabled ∧ other ≠ net := by
  obtain ⟨after, stands, is_disabled⟩ := (mem_disabled_iff _ other).1 member
  rcases of_roster?_enable stands with ⟨same, enabled⟩ | ⟨-, roster, -, -, rfl⟩
  · refine ⟨(mem_disabled_iff _ other).2 ⟨after, same, is_disabled⟩, fun here => ?_⟩
    cases is_disabled.symm.trans (enabled here)
  · cases is_disabled

theorem Services.claims_enable_of_claims {services : Services} {net other : Prefix}
    (claimed : services.claims other = true) : (services.enable net).2.claims other = true := by
  unfold enable
  split
  · exact claimed
  · rename_i roster found
    split
    · rename_i is_disabled
      have elsewhere : net ≠ other := by
        rintro rfl
        obtain ⟨same, stands, enabled, -⟩ := (claims_iff services net).1 claimed
        cases found.symm.trans stands
        cases is_disabled.symm.trans enabled
      rw [claims_iff] at claimed ⊢
      simpa only [roster?, SortedMap.get?_insert_of_ne _ _ elsewhere] using claimed
    · exact claimed

namespace Router

/-! ## Admitting one address again -/

variable {held : Held}

/-- Admitting an address again disables nothing, of neither kind. -/
theorem Held.of_mem_enable (kind : held.Kind) {other : Held} (also : other.Kind) {group : Group}
    {net address : Prefix} (member : address ∈ other.addresses (held.enable group net).2) :
    address ∈ other.addresses group := by
  cases kind with
  | peers =>
      cases also with
      | peers => exact (Peers.of_mem_disabled_enable member).1
      | services => exact member
  | services =>
      cases also with
      | peers => exact member
      | services => exact (Services.of_mem_disabled_enable member).1

/-- An address that was admitted again is not disabled. -/
theorem Held.not_mem_enable (kind : held.Kind) (group : Group) (net : Prefix) :
    net ∉ held.addresses (held.enable group net).2 := by
  cases kind with
  | peers => exact fun member => (Peers.of_mem_disabled_enable member).2 rfl
  | services => exact fun member => (Services.of_mem_disabled_enable member).2 rfl

theorem Held.claims_enable_of_claims (kind : held.Kind) {group : Group} {net other : Prefix}
    (claimed : group.claims other = true) : (held.enable group net).2.claims other = true := by
  rw [Group.claims_iff] at claimed ⊢
  cases kind with
  | peers => exact claimed.imp_left fun claims => (Peers.claims_enable _ _ _).2 (.inl claims)
  | services => exact claimed.imp_right Services.claims_enable_of_claims

/-- Who admits nothing changes nothing. -/
theorem Held.enable_eq_self (kind : held.Kind) {group : Group} {net : Prefix}
    (nothing : (held.enable group net).1 = false) : (held.enable group net).2 = group := by
  cases kind with
  | peers =>
      simp only [heldPeers, Peers.enable] at nothing ⊢
      split at nothing
      · cases nothing
      · rename_i none_disabled
        rw [if_neg none_disabled]
  | services =>
      simp only [heldServices, Services.enable] at nothing ⊢
      split at nothing
      · rfl
      · split at nothing
        · cases nothing
        · rename_i enabled
          simp only [enabled, if_false, Bool.false_eq_true]

/-! ## What a resolution may do -/

/-- Groups stay known, conflicts stay, and nothing is disabled anew. -/
structure Restored (before after : Router) : Prop where
  known : ∀ id, (after.groups.get? id).isSome → (before.groups.get? id).isSome
  conflicts : ∀ id net, before.hasConflict net id = true → after.hasConflict net id = true
  addresses : ∀ held : Held, held.Kind → ∀ id, ∀ net ∈ held.addresses (after.group id),
    net ∈ held.addresses (before.group id)

theorem Restored.refl (router : Router) : Restored router router :=
  ⟨fun _ => id, fun _ _ => id, fun _ _ _ _ => id⟩

theorem Restored.trans {first second third : Router} (one : Restored first second)
    (two : Restored second third) : Restored first third :=
  ⟨fun id stands => one.known id (two.known id stands),
    fun id net conflict => two.conflicts id net (one.conflicts id net conflict),
    fun held kind id net member => one.addresses held kind id net (two.addresses held kind id net member)⟩

theorem group_setGroup_of_ne (router : Router) {id other : GroupId} (group : Group)
    (differs : id ≠ other) : (router.setGroup id group).group other = router.group other := by
  rw [Router.group, get?_setGroup, if_neg differs]
  rfl

theorem restored_setGroup {router : Router} {id : GroupId} {group after : Group}
    (found : router.groups.get? id = some group)
    (claims : ∀ net, group.claims net = true → after.claims net = true)
    (addresses : ∀ held : Held, held.Kind → ∀ net ∈ held.addresses after,
      net ∈ held.addresses group) : Restored router (router.setGroup id after) where
  known other stands := by
    by_cases here : id = other
    · rw [← here, found]
      rfl
    · rwa [get?_setGroup, if_neg here] at stands
  conflicts other net conflict := by
    obtain ⟨rivalId, rival, differs, stands, claimed⟩ := (hasConflict_iff router net other).1 conflict
    refine (hasConflict_iff _ net other).2 ?_
    by_cases here : id = rivalId
    · subst here
      cases found.symm.trans stands
      exact ⟨id, after, differs, by rw [get?_setGroup, if_pos rfl], claims net claimed⟩
    · exact ⟨rivalId, rival, differs, by rwa [get?_setGroup, if_neg here], claimed⟩
  addresses held kind other net member := by
    by_cases here : id = other
    · subst here
      rw [group_setGroup] at member
      rw [group_of_get? found]
      exact addresses held kind net member
    · rwa [group_setGroup_of_ne _ _ here] at member

/-- After its turn an address is disabled only if somebody else claims it. -/
theorem restore_spec (kind : held.Kind) (id : GroupId) (progress : Nat × Router) (net : Prefix) :
    Restored progress.2 (restore held id progress net).2 ∧
      (net ∈ held.addresses ((restore held id progress net).2.group id) →
        (restore held id progress net).2.hasConflict net id = true) := by
  obtain ⟨count, router⟩ := progress
  refine restore_cases (motive := fun result => Restored router result.2 ∧
    (net ∈ held.addresses (result.2.group id) → result.2.hasConflict net id = true))
    held id count router net ?_ ?_
  · intro left
    refine ⟨.refl router, fun member => left.elim (fun conflict => conflict) fun absent => ?_⟩
    rw [Router.group, absent] at member
    cases kind <;> cases member
  · intro group _ found
    refine ⟨restored_setGroup found (fun _ => Held.claims_enable_of_claims kind)
      fun other also _ => Held.of_mem_enable kind also, fun member => ?_⟩
    rw [group_setGroup] at member
    exact absurd member (Held.not_mem_enable kind group net)

/-- The addresses of a kind that are disabled in a group are claimed by others. -/
def ContestedAt (held : Held) (router : Router) (id : GroupId) : Prop :=
  ∀ net ∈ held.addresses (router.group id), router.hasConflict net id = true

theorem ContestedAt.restored {before after : Router} {id : GroupId} (kind : held.Kind)
    (contested : ContestedAt held before id) (restored : Restored before after) :
    ContestedAt held after id := fun net member =>
  restored.conflicts id net (contested net (restored.addresses held kind id net member))

theorem restore_all (kind : held.Kind) (id : GroupId) (nets : List Prefix)
    (progress : Nat × Router) :
    let after := (nets.foldl (restore held id) progress).2
    Restored progress.2 after ∧
      ∀ net ∈ nets, net ∈ held.addresses (after.group id) → after.hasConflict net id = true := by
  induction nets generalizing progress with
  | nil => exact ⟨.refl _, nofun⟩
  | cons net rest ih =>
      obtain ⟨first, here⟩ := restore_spec kind id progress net
      obtain ⟨others, later⟩ := ih (restore held id progress net)
      refine ⟨first.trans others, fun address member disabled => ?_⟩
      rcases List.mem_cons.1 member with rfl | behind
      · exact others.conflicts id address (here (others.addresses held kind id address disabled))
      · exact later address behind disabled

theorem restoreGroup_spec (progress : Nat × Router) (id : GroupId) :
    let after := (restoreGroup progress id).2
    Restored progress.2 after ∧ ContestedAt heldPeers after id ∧ ContestedAt heldServices after id := by
  simp only [restoreGroup]
  split
  · rename_i absent
    refine ⟨.refl _, fun net member => ?_, fun net member => ?_⟩
    · rw [Router.group, absent] at member
      cases member
    · rw [Router.group, absent] at member
      cases member
  · rename_i group found
    have same : progress.2.group id = group := group_of_get? found
    obtain ⟨first, peers⟩ := restore_all .peers id (heldPeers.addresses group) progress
    obtain ⟨second, services⟩ := restore_all .services id (heldServices.addresses group)
      ((heldPeers.addresses group).foldl (restore heldPeers id) progress)
    have peers_contested : ContestedAt heldPeers _ id := fun net member =>
      peers net (same ▸ first.addresses _ .peers id net member) member
    refine ⟨first.trans second, peers_contested.restored .peers second, fun net member => ?_⟩
    exact services net (same ▸ (first.trans second).addresses _ .services id net member) member

/-! ## A whole resolution -/

/-- Whatever is disabled is claimed by somebody else. -/
def Contested (router : Router) : Prop :=
  ∀ held : Held, held.Kind → ∀ id, ContestedAt held router id

/-- After a resolution whatever is disabled is claimed by somebody else. -/
theorem resolve_contested (router : Router) : router.resolve.2.Contested := by
  have visited : ∀ (ids : List GroupId) (progress : Nat × Router),
      let after := (ids.foldl restoreGroup progress).2
      Restored progress.2 after ∧ ∀ id ∈ ids,
        ContestedAt heldPeers after id ∧ ContestedAt heldServices after id := by
    intro ids
    induction ids with
    | nil => exact fun progress => ⟨.refl _, nofun⟩
    | cons id rest ih =>
        intro progress
        obtain ⟨first, peers, services⟩ := restoreGroup_spec progress id
        obtain ⟨others, later⟩ := ih (restoreGroup progress id)
        refine ⟨first.trans others, fun other member => ?_⟩
        rcases List.mem_cons.1 member with rfl | behind
        · exact ⟨peers.restored .peers others, services.restored .services others⟩
        · exact later other behind
  obtain ⟨restored, contested⟩ := visited router.groups.keys (0, router)
  intro held kind id net member
  by_cases known : (router.resolve.2.groups.get? id).isSome
  · have listed := (router.groups.mem_keys_iff id).2 (restored.known id known)
    cases kind with
    | peers => exact (contested id listed).1 net member
    | services => exact (contested id listed).2 net member
  · -- a group that is not known disables nothing
    rw [Router.group, Option.not_isSome_iff_eq_none.1 known] at member
    cases kind <;> cases member

/-- Where everything that is disabled is contested, a resolution admits nothing. -/
theorem resolve_of_contested {router : Router} (contested : router.Contested) :
    router.resolve = (0, router) := by
  have idle : ∀ (held : Held) (id : GroupId) (nets : List Prefix),
      (∀ net ∈ nets, router.hasConflict net id = true) →
      nets.foldl (restore held id) (0, router) = (0, router) := by
    intro held id nets
    induction nets with
    | nil => exact fun _ => rfl
    | cons net rest ih =>
        intro taken
        have here : restore held id (0, router) net = (0, router) := by
          simp [restore, taken net List.mem_cons_self]
        rw [List.foldl_cons, here]
        exact ih fun other member => taken other (List.mem_cons_of_mem _ member)
  have group : ∀ id, restoreGroup (0, router) id = (0, router) := by
    intro id
    simp only [restoreGroup]
    split
    · rfl
    · rename_i group found
      have same : router.group id = group := group_of_get? found
      have peers := contested _ .peers id
      have services := contested _ .services id
      rw [ContestedAt, same] at peers services
      rw [idle heldPeers id _ peers, idle heldServices id _ services]
  rw [resolve]
  generalize router.groups.keys = ids
  induction ids with
  | nil => rfl
  | cons id rest ih => rw [List.foldl_cons, group, ih]

theorem setGroup_same {router : Router} {id : GroupId} {group : Group}
    (found : router.groups.get? id = some group) : router.setGroup id group = router := by
  rw [setGroup, SortedMap.insert_same found]

/-- A resolution that admits nothing leaves the router as it is. -/
theorem resolve_eq_self {router : Router} (nothing : router.resolve.1 = 0) :
    router.resolve.2 = router := by
  refine resolve_induction (motive := fun progress => progress.1 = 0 → progress.2 = router) router
    (fun _ => rfl) ?_ nothing
  intro held kind id net count left group _ found same none_admitted
  cases admitted : (held.enable group net).1 with
  | true => simp [admitted] at none_admitted
  | false =>
      rw [Held.enable_eq_self kind admitted, setGroup_same found]
      exact same (by simpa [admitted] using none_admitted)

end Router

end OverlayRouting
