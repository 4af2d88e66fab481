/-
# OverlayRouting.Proofs.Resending -- a configuration that is sent again

A controller that was away sends its whole configuration again.  A list of requests is served
destination by destination (`Router.addEach_snd`), and each destination is a demand that is met
once: it is rejected, or its link is listed as a peer of its group or as a candidate for the
destination (`Router.Met`).  What is listed stays listed whatever is asked for later
(`Met.meet`), and a demand that is met already changes nothing, not even a flag (`Met.idle`).

So after the first time every demand of the list is met, whichever claims stood before it, and
the second time does nothing (`resend`).
-/
import OverlayRouting.Proofs.Admission
import OverlayRouting.Proofs.Resolve

namespace OverlayRouting

set_option autoImplicit false

section Lists

variable {α β : Type} {step : β → α → β} {met : β → α → Prop}

/-- If a step meets what it is for and later steps keep it met, then a list leaves all of its
entries met. -/
theorem met_foldl (meets : ∀ state x, met (step state x) x)
    (keeps : ∀ state x other, met state x → met (step state other) x) {list : List α} {x : α}
    (member : x ∈ list) (state : β) : met (list.foldl step state) x := by
  induction list generalizing state with
  | nil => cases member
  | cons first rest ih =>
      rcases List.mem_cons.1 member with rfl | behind
      · exact List.foldlRecOn rest step (meets state x) fun after stands other _ =>
          keeps after x other stands
      · exact ih behind (step state first)

/-- If moreover a step for what is met does nothing, then going through a list a second time
does nothing. -/
theorem foldl_foldl_of_met (meets : ∀ state x, met (step state x) x)
    (keeps : ∀ state x other, met state x → met (step state other) x)
    (idle : ∀ state x, met state x → step state x = state) (list : List α) (state : β) :
    list.foldl step (list.foldl step state) = list.foldl step state := by
  refine List.foldlRecOn (motive := fun after => after = list.foldl step state) list step rfl
    fun after same x member => ?_
  rw [same, idle _ x (met_foldl meets keeps member state)]

end Lists

/-! ## Links that join -/

theorem Peers.peer?_add_isSome (peers : Peers) (link : Link) (disabled : Bool) (gateway : Address) :
    ((peers.add link disabled).2.peer? gateway).isSome ↔
      (peers.peer? gateway).isSome ∨ link.gateway = gateway := by
  unfold add
  split
  · rename_i known
    refine ⟨.inl, Or.rec id fun same => ?_⟩
    rw [← same, known]
    rfl
  · simp only [peer?, List.find?_append, Option.isSome_or, Bool.or_eq_true, List.find?_isSome,
      List.mem_singleton, exists_eq_left, decide_eq_true_eq]
    rfl

theorem Roster.candidate?_add_isSome (roster : Roster) (link : Link) (gateway : Address) :
    ((roster.add link).2.candidate? gateway).isSome ↔
      (roster.candidate? gateway).isSome ∨ link.gateway = gateway := by
  unfold add
  split
  · rename_i known
    refine ⟨.inl, Or.rec id fun same => ?_⟩
    rw [← same, known]
    rfl
  · simp only [candidate?, List.find?_append, Option.isSome_or, Bool.or_eq_true, List.find?_isSome,
      List.mem_singleton, exists_eq_left, decide_eq_true_eq]
    rfl

namespace Group

open Router (Place)

/-- The group after a link has joined it, as a peer or for a destination. -/
def join (group : Group) (link : Link) (net : Prefix) (disabled : Bool) : Place → Group
  | .peer => { group with peers := (group.peers.add link disabled).2 }
  | .service => { group with services := (group.services.add link net disabled).2 }

/-- The gateway of a link is listed, among the peers or for a destination. -/
def Lists (group : Group) (link : Link) (net : Prefix) : Place → Prop
  | .peer => (group.peers.peer? link.gateway).isSome
  | .service =>
      ∃ roster, group.services.roster? net = some roster ∧ (roster.candidate? link.gateway).isSome

variable {group : Group} {link : Link} {net : Prefix} {place : Place}

theorem lists_join (group : Group) (link : Link) (net : Prefix) (disabled : Bool) (place : Place) :
    (group.join link net disabled place).Lists link net place := by
  cases place with
  | peer => exact (group.peers.peer?_add_isSome link disabled _).2 (.inr rfl)
  | service =>
      let roster := (group.services.roster? net).getD { disabled }
      refine ⟨(roster.add link).2, ?_, (roster.candidate?_add_isSome link _).2 (.inr rfl)⟩
      rw [join, Services.roster?_add, if_pos rfl]

theorem Lists.join (listed : group.Lists link net place) (other : Link) (there : Prefix)
    (disabled : Bool) (otherPlace : Place) :
    (group.join other there disabled otherPlace).Lists link net place := by
  cases place with
  | peer =>
      cases otherPlace with
      | peer => exact (group.peers.peer?_add_isSome other disabled _).2 (.inl listed)
      | service => exact listed
  | service =>
      cases otherPlace with
      | peer => exact listed
      | service =>
          obtain ⟨roster, found, known⟩ := listed
          by_cases here : there = net
          · refine ⟨(roster.add other).2, ?_, (roster.candidate?_add_isSome other _).2 (.inl known)⟩
            rw [Group.join, Services.roster?_add, if_pos here, here, found, Option.getD_some]
          · refine ⟨roster, ?_, known⟩
            rw [Group.join, Services.roster?_add, if_neg here, found]

/-- Who is listed does not join again. -/
theorem Lists.join_same (listed : group.Lists link net place) (disabled : Bool) :
    group.join link net disabled place = group := by
  cases place with
  | peer =>
      obtain ⟨peer, known⟩ := Option.isSome_iff_exists.1 listed
      simp [Group.join, Peers.add, known]
  | service =>
      obtain ⟨roster, found, listed⟩ := listed
      obtain ⟨c, known⟩ := Option.isSome_iff_exists.1 listed
      have same : group.services.rosters.insert net roster = group.services.rosters :=
        SortedMap.insert_same found
      simp [Group.join, Services.add, found, Roster.add, known, same]

end Group

/-! ## Demands -/

namespace Router

/-- What one destination of a request asks for. -/
structure Demand where
  link : Link
  place : Place
  net : Prefix

def demands (requests : List (Link × List Prefix)) : List Demand :=
  requests.flatMap fun request => (placed request.2).map fun entry => ⟨request.1, entry.1, entry.2⟩

def meet (router : Router) (demand : Demand) : Router :=
  (router.accept demand.link demand.place demand.net).2

/-- A demand is rejected, or the gateway of its link is listed. -/
def Met (router : Router) (demand : Demand) : Prop :=
  router.rejects demand.net = true ∨ ∃ group, router.groups.get? demand.link.group = some group ∧
    group.Lists demand.link demand.net demand.place

theorem meet_eq (router : Router) (demand : Demand) :
    router.meet demand =
      if router.rejects demand.net then router
      else router.setGroup demand.link.group ((router.group demand.link.group).join demand.link
        demand.net (router.hasConflict demand.net demand.link.group) demand.place) := by
  obtain ⟨link, place, net⟩ := demand
  unfold meet accept
  split
  · rfl
  · cases place <;> rfl

theorem rejects_meet (router : Router) (demand : Demand) (net : Prefix) :
    (router.meet demand).rejects net = router.rejects net := by
  rw [rejects, rejects, meet, settings_accept]

theorem met_meet (router : Router) (demand : Demand) : (router.meet demand).Met demand := by
  cases rejected : router.rejects demand.net with
  | true => exact .inl ((rejects_meet router demand demand.net).trans rejected)
  | false =>
      rw [Met, meet_eq, rejected, if_neg Bool.false_ne_true, get?_setGroup, if_pos rfl]
      exact .inr ⟨_, rfl, Group.lists_join (router.group demand.link.group) _ _ _ _⟩

theorem Met.meet {router : Router} {demand : Demand} (met : router.Met demand) (other : Demand) :
    (router.meet other).Met demand := by
  rcases met with rejected | ⟨group, found, listed⟩
  · exact .inl ((rejects_meet router other demand.net).trans rejected)
  · refine .inr ?_
    rw [meet_eq]
    split
    · exact ⟨group, found, listed⟩
    · rw [get?_setGroup]
      by_cases here : other.link.group = demand.link.group
      · rw [if_pos here, here, group_of_get? found]
        exact ⟨_, rfl, listed.join _ _ _ _⟩
      · rw [if_neg here]
        exact ⟨group, found, listed⟩

theorem Met.idle {router : Router} {demand : Demand} (met : router.Met demand) :
    router.meet demand = router := by
  rw [meet_eq]
  split
  · rfl
  · rename_i admitted
    obtain ⟨group, found, listed⟩ := met.resolve_left admitted
    rw [group_of_get? found, listed.join_same, setGroup_same found]

/-! ## Lists of requests -/

/-- Serve requests one after the other. -/
def addEach : List (Link × List Prefix) → Router → List Admission × Router
  | [], router => ([], router)
  | (link, nets) :: rest, router =>
      let (answers, router) := router.add link nets
      let (others, router) := addEach rest router
      (answers ++ others, router)

theorem acceptAll_snd (link : Link) (places : List (Place × Prefix)) (router : Router) :
    (acceptAll link places router).2 =
      (places.map fun entry => (⟨link, entry.1, entry.2⟩ : Demand)).foldl meet router := by
  induction places generalizing router with
  | nil => rfl
  | cons first rest ih => exact ih _

/-- Requests are served demand by demand. -/
theorem addEach_snd (requests : List (Link × List Prefix)) (router : Router) :
    (addEach requests router).2 = (demands requests).foldl meet router := by
  induction requests generalizing router with
  | nil => rfl
  | cons first rest ih =>
      rw [demands, List.flatMap_cons, List.foldl_append, ← acceptAll_snd]
      exact ih _

theorem settings_addEach (requests : List (Link × List Prefix)) (router : Router) :
    (addEach requests router).2.settings = router.settings := by
  induction requests generalizing router with
  | nil => rfl
  | cons first rest ih => exact (ih _).trans (router.settings_add first.1 first.2)

/-- After the requests each of their demands is met. -/
theorem met_addEach {requests : List (Link × List Prefix)} {demand : Demand}
    (member : demand ∈ demands requests) (router : Router) :
    (addEach requests router).2.Met demand := by
  rw [addEach_snd]
  exact met_foldl met_meet (fun _ _ other met => met.meet other) member router

end Router

section Runs

variable {σ : Type} [RoutingTable σ]

/-- The operations that send these requests. -/
def sends (requests : List (Link × List Prefix)) : List (Operation σ) :=
  requests.map fun request => .add request.1 request.2

theorem run_sends (requests : List (Link × List Prefix)) (state : Router × σ) :
    run (sends requests) state = ((Router.addEach requests state.1).2, state.2) := by
  induction requests generalizing state with
  | nil => rfl
  | cons first rest ih => exact ih _

/-- Whatever the router was asked before and whatever its table is: requests that are sent twice
in a row leave exactly what they leave when they are sent once, and the table is not called. -/
theorem resend (requests : List (Link × List Prefix)) (state : Router × σ) :
    run (sends requests ++ sends requests) state = run (sends requests) state ∧
      (run (sends requests ++ sends requests) state).2 = state.2 := by
  refine ⟨?_, by rw [run_append, run_sends, run_sends]⟩
  rw [run_append, run_sends, run_sends, Router.addEach_snd, Router.addEach_snd]
  rw [foldl_foldl_of_met Router.met_meet (fun _ _ other met => met.meet other) fun _ _ met => met.idle]

end Runs

end OverlayRouting
