/-
# OverlayRouting.Proofs.Requests -- what is only written down

Requests, new margins and admissions after a conflict leave the table alone, and change one
group, or each by itself.  So a property of groups is kept by all of them if it is kept by each
of the few changes that they make to a group (`Group.Steady`): links are admitted, let go and
admitted again, as peers and as candidates for a destination.
-/
import OverlayRouting.Proofs.Apply
import OverlayRouting.Proofs.Claims

namespace OverlayRouting

set_option autoImplicit false

/-- What is written down for a group keeps a property of it, which may depend on its number;
links are admitted for permitted destinations only. -/
structure Group.Steady (permits : Link → Prefix → Prop) (holds : GroupId → Group → Prop) : Prop where
  empty : ∀ id windowSize margins, holds id (.empty id windowSize margins)
  addPeer : ∀ group link net disabled, permits link net → holds link.group group →
    holds link.group { group with peers := (group.peers.add link disabled).2 }
  addService : ∀ group link net disabled, permits link net → holds link.group group →
    holds link.group { group with services := (group.services.add link net disabled).2 }
  removePeer : ∀ id group gateway, holds id group →
    holds id { group with peers := (group.peers.remove gateway).2 }
  removeService : ∀ id group link net, holds id group →
    holds id { group with services := (group.services.remove link net).2 }
  enablePeer : ∀ id group net, holds id group →
    holds id { group with peers := (group.peers.enable net).2 }
  enableService : ∀ id group net, holds id group →
    holds id { group with services := (group.services.enable net).2 }
  margins : ∀ id group margins, holds id group →
    holds id { group with peers := { group.peers with margins } }

namespace Router

variable {permits : Link → Prefix → Prop} {holds : GroupId → Group → Prop} {router : Router}

/-- Every group has the property. -/
def Each (holds : GroupId → Group → Prop) (router : Router) : Prop :=
  ∀ id group, router.groups.get? id = some group → holds id group

theorem each_fresh (holds : GroupId → Group → Prop) (settings : RouterSettings) :
    Each holds { settings } :=
  fun _ _ stands => nomatch stands

theorem Each.setGroup (each : router.Each holds) {id : GroupId} {group : Group}
    (here : holds id group) : (router.setGroup id group).Each holds := by
  intro other found stands
  rw [Router.setGroup, SortedMap.get?_insert] at stands
  split at stands
  · rename_i same
    cases rank_inj same
    exact Option.some.inj stands ▸ here
  · exact each other found stands

theorem Each.walk {σ : Type} (each : router.Each holds) {visit : Group → σ → Group.Settled × σ}
    {table : σ} (keeps : ∀ id (group : Group) table after, holds id group →
      (visit group table).1.kept = some after → holds id after) :
    (router.walk visit table).1.router.Each holds := by
  intro id after stands
  obtain ⟨group, seen, found, kept⟩ := of_get?_walk stands
  exact keeps id group seen after (each id group found) kept

end Router

namespace Group.Steady

open Router (Place)

variable {permits : Link → Prefix → Prop} {holds : GroupId → Group → Prop} {router : Router}
  (steady : Group.Steady permits holds)

include steady

theorem group (each : router.Each holds) (id : GroupId) : holds id (router.group id) := by
  rw [Router.group]
  cases found : router.groups.get? id with
  | none => exact steady.empty id _ _
  | some group => exact each id group found

theorem accept (each : router.Each holds) (link : Link) (place : Place) (net : Prefix)
    (permitted : router.rejects net = false → permits link net) :
    (router.accept link place net).2.Each holds := by
  unfold Router.accept
  split
  · exact each
  · rename_i admitted
    have permitted := permitted (by simpa using admitted)
    refine each.setGroup ?_
    cases place with
    | peer => exact steady.addPeer _ link net _ permitted (steady.group each link.group)
    | service => exact steady.addService _ link net _ permitted (steady.group each link.group)

theorem acceptAll (link : Link) (places : List (Place × Prefix)) (each : router.Each holds)
    (permitted : ∀ entry ∈ places, router.rejects entry.2 = false → permits link entry.2) :
    (Router.acceptAll link places router).2.Each holds := by
  induction places generalizing router with
  | nil => exact each
  | cons first rest ih =>
      have rejects : ∀ net,
          (router.accept link first.1 first.2).2.rejects net = router.rejects net := fun net => by
        rw [Router.rejects, Router.rejects, Router.settings_accept]
      refine ih (steady.accept each link first.1 first.2 (permitted first List.mem_cons_self))
        fun entry member admitted => permitted entry (List.mem_cons_of_mem _ member) ?_
      exact (rejects entry.2).symm.trans admitted

theorem add (each : router.Each holds) (link : Link) (nets : List Prefix)
    (permitted : ∀ net ∈ nets, router.rejects net = false → permits link net) :
    (router.add link nets).2.Each holds := by
  refine steady.acceptAll link _ each fun entry member => permitted entry.2 ?_
  cases nets with
  | nil => cases member
  | cons first rest =>
      rcases List.mem_cons.1 member with rfl | behind
      · exact List.mem_cons_self
      · obtain ⟨net, listed, rfl⟩ := List.mem_map.1 behind
        exact List.mem_cons_of_mem _ listed

theorem dismissAll (link : Link) (places : List (Place × Prefix)) {group : Group}
    (here : holds link.group group) :
    holds link.group (Router.dismissAll link places group).2 := by
  induction places generalizing group with
  | nil => exact here
  | cons first rest ih =>
      obtain ⟨place, net⟩ := first
      have left : holds link.group (Router.dismiss group link place net).2 := by
        cases place with
        | peer => exact steady.removePeer _ group link.gateway here
        | service =>
            rw [Router.dismiss_service]
            exact steady.removeService _ group link net here
      exact ih left

theorem remove (each : router.Each holds) (link : Link) (nets : List Prefix) :
    (router.remove link nets).2.Each holds := by
  unfold Router.remove
  split
  · exact each
  · rename_i group found
    exact each.setGroup (steady.dismissAll link _ (each link.group group found))

theorem resolve (each : router.Each holds) : router.resolve.2.Each holds := by
  refine Router.resolve_induction (motive := fun progress => progress.2.Each holds) router each ?_
  intro held kind id net count router group _ found each
  refine each.setGroup ?_
  cases kind with
  | peers => exact steady.enablePeer id group net (each id group found)
  | services => exact steady.enableService id group net (each id group found)

theorem setMargins (each : router.Each holds) (margins : Margins) :
    (router.setMargins margins).Each holds := by
  intro id left stands
  rw [Router.setMargins, SortedMap.get?_map] at stands
  obtain ⟨group, found, rfl⟩ := Option.map_eq_some_iff.1 stands
  exact steady.margins id group margins (each id group found)

end Group.Steady

end OverlayRouting
