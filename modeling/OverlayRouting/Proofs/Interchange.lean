/-
# OverlayRouting.Proofs.Interchange -- the ip tool in the place of the table in memory

Both are tables, so both can be asked the same calls (`Request`) and compared by what they
answer (`Reply`) and by the routes that they leave.  They stay `Matched` as long as each call
is `Alike`, and the first one that is not is answered differently: that is
`Matched.interchangeable_iff`.

They are not interchangeable throughout.  Adding a destination that another interface has is
refused in memory, while the tool reports it as made and leaves the route where it was
(`accepted_over_another`).
-/
import OverlayRouting.Proofs.Iproute
import OverlayRouting.Proofs.Table

namespace OverlayRouting

set_option autoImplicit false

/-- A call of a routing table. -/
inductive Request where
  | add (ifname : String) (gateway : Option Address) (net : Prefix)
  | remove (ifname : String) (net : Prefix)
  | replace (ifname : String) (gateway : Option Address) (net : Prefix)
  | holds (net : Prefix)
  | carrier (net : Prefix)

/-- What a table answers: whether a change was made, whether there is a route, or which
interface carries it. -/
inductive Reply where
  | made (done : Bool)
  | held (stands : Bool)
  | carried (via : Option String)
  deriving DecidableEq

def Reply.ofOutcome (outcome : Outcome) : Reply := .made outcome.isOk

namespace Request

variable {σ : Type} [RoutingTable σ]

def ask (request : Request) (table : σ) : Reply × σ :=
  match request with
  | .add ifname gateway net => (RoutingTable.add ifname gateway net table).map .ofOutcome id
  | .remove ifname net => (RoutingTable.remove ifname net table).map .ofOutcome id
  | .replace ifname gateway net => (RoutingTable.replace ifname gateway net table).map .ofOutcome id
  | .holds net => (RoutingTable.holds net table).map .held id
  | .carrier net => (RoutingTable.carrier net table).map .carried id

/-- The answers to the calls, one after the other. -/
def askAll : List Request → σ → List Reply × σ
  | [], table => ([], table)
  | request :: rest, table =>
      let replies := askAll rest (request.ask table).2
      ((request.ask table).1 :: replies.1, replies.2)

/-- A change names an interface. -/
def Named : Request → Prop
  | .add ifname _ _ | .remove ifname _ | .replace ifname _ _ => IsName ifname
  | .holds _ | .carrier _ => True

instance : (request : Request) → Decidable request.Named
  | .add ifname _ _ | .remove ifname _ | .replace ifname _ _ =>
      inferInstanceAs (Decidable (IsName ifname))
  | .holds _ | .carrier _ => inferInstanceAs (Decidable True)

/-- The calls that the tool answers as the table in memory does.  An argument that would end early
keeps the tool from any change; only the table in memory refuses to add a destination that has
a route through another interface; and only a name is found in what the tool prints. -/
def Alike (table : MemoryTable) : Request → Prop
  | .add ifname _ net =>
      '\x00' ∉ ifname.toList ↔ (table.via? net = none ∨ table.via? net = some ifname)
  | .remove ifname _ | .replace ifname _ _ => '\x00' ∉ ifname.toList
  | .holds _ => True
  | .carrier net => ∀ ifname ∈ table.via? net, IsName ifname

instance (table : MemoryTable) : (request : Request) → Decidable (request.Alike table)
  | .add _ _ _ => inferInstanceAs (Decidable (_ ↔ _))
  | .remove _ _ | .replace _ _ _ => inferInstanceAs (Decidable (¬ _))
  | .holds _ => inferInstanceAs (Decidable True)
  | .carrier _ => inferInstanceAs (Decidable (∀ ifname ∈ table.via? _, IsName ifname))

/-- Each call is such a call when its turn comes. -/
def AllAlike : List Request → MemoryTable → Prop
  | [], _ => True
  | request :: rest, table => request.Alike table ∧ AllAlike rest (request.ask table).2

instance allAlikeDecidable : (requests : List Request) → (table : MemoryTable) →
    Decidable (AllAlike requests table)
  | [], _ => inferInstanceAs (Decidable True)
  | request :: rest, table =>
      have := allAlikeDecidable rest (request.ask table).2
      inferInstanceAs (Decidable (_ ∧ _))

end Request

/-! ## One call after the other -/

/-- The tool and the table in memory hold the same routes, and no change is refused on purpose. -/
structure Matched {τ : Type} [IpRunner τ] (routes : τ → Prefix → Option String) (tool : IpTool τ)
    (table : MemoryTable) : Prop where
  like : tool.LikeIproute routes
  same : routes tool.runner = table.via?
  willing : table.failing = []

namespace Matched

open Request

variable {τ : Type} [IpRunner τ] {routes : τ → Prefix → Option String} {tool : IpTool τ}
  {table : MemoryTable}

/-- A change comes out alike if the tool is run for it when the table in memory makes it; then both
leave the same routes. -/
theorem change (matched : Matched routes tool table) (change : Change) {ifname : String}
    (named : IsName ifname) (gateway : Option Address) (net : Prefix)
    {made : Outcome × MemoryTable}
    (outcome : (made.1.isOk = false ∧ made.2.via? = table.via?) ∨
      (made.1.isOk = true ∧ made.2.via? = IpTool.settled change ifname net table.via?))
    (called : made = MemoryTable.perform ⟨change, ifname, net⟩ gateway table) :
    (Reply.ofOutcome (tool.perform change ifname gateway net).1 = Reply.ofOutcome made.1 ↔
      ('\x00' ∉ ifname.toList ↔ made.1.isOk = true)) ∧
    (('\x00' ∉ ifname.toList ↔ made.1.isOk = true) →
      Matched routes (tool.perform change ifname gateway net).2 made.2) := by
  have willing : made.2.failing = [] := by
    rw [called, MemoryTable.perform_failing, matched.willing]
  simp only [Reply.ofOutcome, Reply.made.injEq]
  -- whether the tool is run, and whether the table in memory makes the change
  rcases matched.like.perform change named gateway net with
    ⟨failed, nul, kept⟩ | ⟨ran, proper, left, after, settled⟩
  · rw [failed, kept]
    rcases outcome with ⟨refused, same⟩ | ⟨accepted, -⟩
    · refine ⟨by simp [refused, nul], fun _ => ⟨matched.like, ?_, willing⟩⟩
      rw [same, matched.same]
    · exact ⟨by simp [accepted, nul], fun alike => absurd nul (alike.2 accepted)⟩
  · rw [ran, after]
    rcases outcome with ⟨refused, -⟩ | ⟨accepted, changed⟩
    · refine ⟨by simp [refused, proper], fun alike => ?_⟩
      rw [refused] at alike
      cases alike.1 proper
    · refine ⟨by simp [accepted, proper], fun _ => ⟨matched.like.with_runner left, ?_, willing⟩⟩
      rw [changed, settled, matched.same]

/-- In memory a destination is added unless another interface has it. -/
theorem add_outcome (matched : Matched routes tool table) (ifname : String)
    (gateway : Option Address) (net : Prefix) :
    ((RoutingTable.add ifname gateway net table).1.isOk = true ↔
      (table.via? net = none ∨ table.via? net = some ifname)) ∧
    (((RoutingTable.add ifname gateway net table).1.isOk = false ∧
        (RoutingTable.add ifname gateway net table).2.via? = table.via?) ∨
      ((RoutingTable.add ifname gateway net table).1.isOk = true ∧
        (RoutingTable.add ifname gateway net table).2.via? =
          IpTool.settled .add ifname net table.via?)) := by
  rcases table.add_spec ifname gateway net with
    ⟨cause, refused, why, unchanged⟩ | ⟨accepted, free, changed⟩
  · rw [refused, unchanged]
    refine ⟨iff_of_false Bool.false_ne_true ?_, .inl ⟨rfl, rfl⟩⟩
    obtain failing | ⟨other, found, differ⟩ := why
    · rw [matched.willing] at failing
      cases failing
    · rw [found]
      rintro (free | own)
      · cases free
      · exact differ (Option.some.inj own)
  · rw [accepted, changed]
    refine ⟨iff_of_true rfl free, .inr ⟨rfl, ?_⟩⟩
    rw [IpTool.settled]
    split
    · rfl
    · rename_i occupied
      rw [← free.resolve_left occupied, Function.update_eq_self]

theorem remove_outcome (matched : Matched routes tool table) (ifname : String) (net : Prefix) :
    (RoutingTable.remove ifname net table).1.isOk = true ∧
      (RoutingTable.remove ifname net table).2.via? =
        IpTool.settled .remove ifname net table.via? := by
  rcases table.remove_spec ifname net with ⟨cause, -, failing, -⟩ | ⟨accepted, changed⟩
  · rw [matched.willing] at failing
    cases failing
  · rw [accepted, changed]
    exact ⟨rfl, rfl⟩

theorem replace_outcome (matched : Matched routes tool table) (ifname : String)
    (gateway : Option Address) (net : Prefix) :
    (RoutingTable.replace ifname gateway net table).1.isOk = true ∧
      (RoutingTable.replace ifname gateway net table).2.via? =
        IpTool.settled .replace ifname net table.via? := by
  rcases table.replace_spec ifname gateway net with ⟨cause, -, failing, -⟩ | ⟨accepted, changed⟩
  · rw [matched.willing] at failing
    cases failing
  · rw [accepted, changed]
    exact ⟨rfl, rfl⟩

theorem listing (matched : Matched routes tool table) (net : Prefix) :
    (tool.listing net).1 = some (IpTool.printed net (table.via? net)) ∧
      Matched routes (tool.listing net).2 table := by
  obtain ⟨left, listed, same⟩ := matched.like.listing net
  rw [listed, matched.same]
  exact ⟨rfl, matched.like.with_runner left, same.trans matched.same, matched.willing⟩

theorem holds (matched : Matched routes tool table) (net : Prefix) :
    (RoutingTable.holds net tool).1 = (RoutingTable.holds net table).1 := by
  show ((tool.listing net).1.any fun text => !(Text.trim text).isEmpty) = table.routes.contains net
  rw [(matched.listing net).1, Option.any_some, IpTool.isEmpty_trim_printed, MemoryTable.via?,
    SortedMap.contains]
  cases table.routes.get? net <;> rfl

theorem carrier (matched : Matched routes tool table) (net : Prefix) :
    (RoutingTable.carrier net tool).1 = (RoutingTable.carrier net table).1 ↔
      ∀ ifname ∈ table.via? net, IsName ifname := by
  show (tool.listing net).1.bind IpTool.device? = table.via? net ↔ _
  rw [(matched.listing net).1, Option.bind_some, IpTool.device?_printed_iff]

/-- One call: the two answers are the same if and only if the call is one of those, and then the
routes stay the same. -/
theorem ask (matched : Matched routes tool table) (request : Request) (named : request.Named) :
    ((request.ask tool).1 = (request.ask table).1 ↔ request.Alike table) ∧
      (request.Alike table → Matched routes (request.ask tool).2 (request.ask table).2) := by
  cases request with
  | add ifname gateway net =>
      obtain ⟨accepts, outcome⟩ := matched.add_outcome ifname gateway net
      have both := matched.change .add named gateway net outcome rfl
      rw [accepts] at both
      exact both
  | remove ifname net =>
      have outcome := matched.remove_outcome ifname net
      have both := matched.change .remove named none net (.inr outcome) rfl
      simp only [outcome.1, iff_true] at both
      exact both
  | replace ifname gateway net =>
      have outcome := matched.replace_outcome ifname gateway net
      have both := matched.change .replace named gateway net (.inr outcome) rfl
      simp only [outcome.1, iff_true] at both
      exact both
  | holds net =>
      have answers := congrArg Reply.held (matched.holds net)
      exact ⟨iff_of_true answers trivial, fun _ => (matched.listing net).2⟩
  | carrier net =>
      have answers := matched.carrier net
      rw [← Reply.carried.injEq] at answers
      exact ⟨answers, fun _ => (matched.listing net).2⟩

/-- The answers to all calls are the same, and the routes at the end, if and only if each call is
one of those at its turn. -/
theorem interchangeable_iff (matched : Matched routes tool table) (requests : List Request)
    (named : ∀ request ∈ requests, request.Named) :
    ((Request.askAll requests tool).1 = (Request.askAll requests table).1 ∧
      routes (Request.askAll requests tool).2.runner = (Request.askAll requests table).2.via?) ↔
    AllAlike requests table := by
  induction requests generalizing tool table with
  | nil => exact iff_of_true ⟨rfl, matched.same⟩ trivial
  | cons request rest ih =>
      obtain ⟨answers, kept⟩ := matched.ask request (named request List.mem_cons_self)
      have properRest : ∀ later ∈ rest, later.Named := fun later member =>
        named later (List.mem_cons_of_mem _ member)
      -- once the first answers differ nothing is claimed of what comes behind
      simp only [askAll, List.cons.injEq, AllAlike, answers, and_assoc]
      exact and_congr_right fun alike => ih (kept alike) properRest

end Matched

/-! ## Two tables that differ -/

/-- Over a runner of that kind the tool starts with any routes that a table in memory has. -/
theorem matched_via? (table : MemoryTable) (willing : table.failing = [])
    (number metric : Option UInt32) :
    Matched Iproute.routes ⟨⟨table.via?⟩, number, metric⟩ table :=
  ⟨Iproute.likeIproute _, rfl, willing⟩

namespace Sample

def subnet : Prefix := ⟨.v4 0x0A010000#32, 24, by decide⟩

/-- A route that is added twice, moved, and withdrawn in vain before it is withdrawn. -/
def moves : List Request :=
  [.add "wg0" none subnet, .add "wg0" none subnet, .replace "wg1" none subnet, .remove "wg0" subnet,
    .carrier subnet, .remove "wg1" subnet, .holds subnet]

/-- Two interfaces are to carry one destination. -/
def rivals : List Request := [.add "wg0" none subnet, .add "wg1" none subnet]

def tool : IpTool Iproute := { runner := ⟨MemoryTable.via? {}⟩ }

end Sample

theorem interchangeable_moves :
    (Request.askAll Sample.moves Sample.tool).1 =
        (Request.askAll Sample.moves ({} : MemoryTable)).1 ∧
      (Request.askAll Sample.moves Sample.tool).2.runner.routes =
        (Request.askAll Sample.moves ({} : MemoryTable)).2.via? :=
  (Matched.interchangeable_iff (matched_via? {} rfl none none) Sample.moves
    (by decide)).2 (by decide)

/-- The second interface is told that its route was added, though the first one keeps it; the
table in memory refuses. -/
theorem accepted_over_another :
    Matched Iproute.routes Sample.tool {} ∧ (∀ request ∈ Sample.rivals, request.Named) ∧
      (Request.askAll Sample.rivals Sample.tool).1 = [.made true, .made true] ∧
      (Request.askAll Sample.rivals Sample.tool).2.runner.routes Sample.subnet = some "wg0" ∧
      (Request.askAll Sample.rivals ({} : MemoryTable)).1 = [.made true, .made false] := by
  have matched : Matched Iproute.routes Sample.tool {} := matched_via? {} rfl none none
  obtain ⟨firstMade, like, firstRoutes⟩ :=
    matched.like.accepted .add (show IsName "wg0" by decide) (by decide) none Sample.subnet
  obtain ⟨secondMade, -, secondRoutes⟩ :=
    like.accepted .add (show IsName "wg1" by decide) (by decide) none Sample.subnet
  refine ⟨matched, by decide, ?_, ?_, by decide⟩
  · exact congrArg₂ (fun first second => [Reply.made first, .made second]) firstMade secondMade
  · rw [firstRoutes, matched.same] at secondRoutes
    exact (congrFun secondRoutes Sample.subnet).trans (by decide)

end OverlayRouting
