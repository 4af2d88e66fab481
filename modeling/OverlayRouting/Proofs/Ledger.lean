/-
# OverlayRouting.Proofs.Ledger -- which entries count on which routes

A ledger sets what the entries of the router believe to be installed (`Holding`) against
the routes that are.  A commit changes it one entry at a time, in one of four ways
(`Ledger.Step`):

* nothing is installed or withdrawn; an entry may stop to rely on its route (`relax`);
* an entry comes to hold a route, its own or one that was there (`attach`);
* an entry gives a route up, and the table withdraws it (`detach`);
* an entry moves its route to another interface (`move`).

No step leaves a route without a holder (`Step.owned`).  A step can take a route away from
an entry that relies on it, and it does exactly if the entry that acts gives up the same
interface for the same destination (`Step.faithful_iff`).
-/
import Mathlib.Data.List.Flatten
import Mathlib.Data.List.Forall2
import Mathlib.Logic.Function.Basic
import OverlayRouting.Link

namespace OverlayRouting

set_option autoImplicit false

/-- A route that an entry believes to be installed. -/
structure Holding where
  net : Prefix
  ifname : String
  /-- The entry has not been let go, so it counts on the route. -/
  relied : Bool
  deriving DecidableEq

/-- The same route, on which the entry relies no more than before. -/
def Holding.Relaxes (before after : Holding) : Prop :=
  after.net = before.net ∧ after.ifname = before.ifname ∧
    (after.relied = true → before.relied = true)

/-- The same routes in the same order, relied on no more than before. -/
abbrev Relaxed : List Holding → List Holding → Prop := List.Forall₂ Holding.Relaxes

theorem Relaxed.refl (held : List Holding) : Relaxed held held :=
  List.forall₂_same.2 fun _ _ => ⟨rfl, rfl, id⟩

theorem Relaxed.of_eq {held left : List Holding} (same : held = left) : Relaxed held left :=
  same ▸ .refl held

theorem Relaxed.trans {held left last : List Holding} (first : Relaxed held left)
    (second : Relaxed left last) : Relaxed held last := by
  induction first generalizing last with
  | nil => exact second
  | cons here others ih =>
      cases second with
      | cons next rest =>
          exact .cons ⟨next.1.trans here.1, next.2.1.trans here.2.1, here.2.2 ∘ next.2.2⟩ (ih rest)

theorem Relaxed.append {held left more others : List Holding} (first : Relaxed held left)
    (second : Relaxed more others) : Relaxed (held ++ more) (left ++ others) :=
  List.rel_append first second

theorem exists_of_forall₂ {α β : Type} {related : α → β → Prop} {list : List α} {others : List β}
    {x : α} (pairs : List.Forall₂ related list others) (member : x ∈ list) :
    ∃ y ∈ others, related x y := by
  induction pairs with
  | nil => cases member
  | cons here rest ih =>
      rcases List.mem_cons.1 member with rfl | behind
      · exact ⟨_, List.mem_cons_self, here⟩
      · obtain ⟨y, listed, same⟩ := ih behind
        exact ⟨y, List.mem_cons_of_mem _ listed, same⟩

theorem Relaxed.exists_after {held left : List Holding} {holding : Holding}
    (relaxed : Relaxed held left) (member : holding ∈ held) :
    ∃ after ∈ left, holding.Relaxes after :=
  exists_of_forall₂ relaxed member

theorem Relaxed.exists_before {held left : List Holding} {holding : Holding}
    (relaxed : Relaxed held left) (member : holding ∈ left) :
    ∃ before ∈ held, before.Relaxes holding :=
  exists_of_forall₂ relaxed.flip member

structure Ledger where
  held : List Holding
  /-- The interface that carries the route to a destination. -/
  routes : Prefix → Option String

namespace Ledger

/-- Every route has an entry that holds it. -/
def Owned (ledger : Ledger) : Prop :=
  ∀ net ifname, ledger.routes net = some ifname →
    ∃ holding ∈ ledger.held, holding.net = net ∧ holding.ifname = ifname

/-- Every route that an entry relies on is installed. -/
def Faithful (ledger : Ledger) : Prop :=
  ∀ holding ∈ ledger.held, holding.relied = true →
    ledger.routes holding.net = some holding.ifname

/-- How many entries hold a route. -/
def holders (held : List Holding) (net : Prefix) (ifname : String) : Nat :=
  held.countP fun holding => holding.net = net ∧ holding.ifname = ifname

/-- An entry gave up a route on which another one still relies. -/
def Clash (before after : Ledger) : Prop :=
  ∃ holding ∈ after.held, holding.relied = true ∧
    holders after.held holding.net holding.ifname < holders before.held holding.net holding.ifname

instance (before after : Ledger) : Decidable (Clash before after) :=
  inferInstanceAs (Decidable (∃ holding ∈ after.held, _ ∧ _))

/-- The ledger with more entries before and behind. -/
def beside (before behind : List Holding) (ledger : Ledger) : Ledger :=
  { ledger with held := before ++ ledger.held ++ behind }

/-! ## Steps -/

inductive Step : Ledger → Ledger → Prop
  | relax {held left : List Holding} {routes : Prefix → Option String}
      (relaxed : Relaxed held left) : Step ⟨held, routes⟩ ⟨left, routes⟩
  | attach {before behind : List Holding} {routes : Prefix → Option String} (holding : Holding)
      (free : routes holding.net = none ∨ routes holding.net = some holding.ifname) :
      Step ⟨before ++ behind, routes⟩
        ⟨before ++ holding :: behind, Function.update routes holding.net (some holding.ifname)⟩
  | detach {before behind : List Holding} {routes : Prefix → Option String} (holding : Holding) :
      Step ⟨before ++ holding :: behind, routes⟩
        ⟨before ++ behind, if routes holding.net = some holding.ifname
          then Function.update routes holding.net none else routes⟩
  | move {before behind : List Holding} {routes : Prefix → Option String} (old new : Holding)
      (same : new.net = old.net) (relied : old.relied = true) :
      Step ⟨before ++ old :: behind, routes⟩
        ⟨before ++ new :: behind, Function.update routes new.net (some new.ifname)⟩

theorem Step.refl (ledger : Ledger) : Step ledger ledger := .relax (.refl _)

/-- A step does not look at the entries that it does not concern. -/
theorem Step.beside {first second : Ledger} (step : Step first second)
    (before behind : List Holding) :
    Step (first.beside before behind) (second.beside before behind) := by
  cases step with
  | relax relaxed => exact .relax (((Relaxed.refl before).append relaxed).append (.refl behind))
  | @attach left right routes holding free =>
      simpa [Ledger.beside] using @Step.attach (before ++ left) (right ++ behind) routes holding free
  | @detach left right routes holding =>
      simpa [Ledger.beside] using @Step.detach (before ++ left) (right ++ behind) routes holding
  | @move left right routes old new net relied =>
      simpa [Ledger.beside] using
        @Step.move (before ++ left) (right ++ behind) routes old new net relied

theorem mem_insert {before behind : List Holding} {holding other : Holding} :
    other ∈ before ++ holding :: behind ↔ other = holding ∨ other ∈ before ++ behind := by
  simp only [List.mem_append, List.mem_cons, or_left_comm]

/-- No step leaves a route without a holder. -/
theorem Step.owned {first second : Ledger} (step : Step first second) (owned : first.Owned) :
    second.Owned := by
  intro net ifname routed
  cases step with
  | relax relaxed =>
      obtain ⟨holding, member, rfl, rfl⟩ := owned net ifname routed
      obtain ⟨after, listed, same, also, -⟩ := relaxed.exists_after member
      exact ⟨after, listed, same, also⟩
  | @attach before behind routes holding free =>
      simp only [Function.update_apply] at routed
      split at routed
      · rename_i here
        exact ⟨holding, by simp, here.symm, Option.some.inj routed⟩
      · obtain ⟨other, member, same⟩ := owned net ifname routed
        exact ⟨other, mem_insert.2 (.inr member), same⟩
  | @detach before behind routes holding =>
      -- a route that is left is not the one that was given up
      have other_route : routes net = some ifname ∧ (holding.net = net → holding.ifname ≠ ifname) := by
        simp only at routed
        split at routed
        · rename_i carried
          rw [Function.update_apply] at routed
          split at routed
          · cases routed
          · rename_i elsewhere
            exact ⟨routed, fun here => absurd here.symm elsewhere⟩
        · rename_i not_carried
          exact ⟨routed, fun here own => not_carried (by rw [here, own]; exact routed)⟩
      obtain ⟨other, member, here, same⟩ := owned net ifname other_route.1
      rcases mem_insert.1 member with rfl | listed
      · exact absurd same (other_route.2 here)
      · exact ⟨other, listed, here, same⟩
  | @move before behind routes old new net_same relied =>
      simp only [Function.update_apply] at routed
      split at routed
      · rename_i here
        exact ⟨new, by simp, here.symm, Option.some.inj routed⟩
      · rename_i elsewhere
        obtain ⟨other, member, here, same⟩ := owned net ifname routed
        rcases mem_insert.1 member with rfl | listed
        · exact absurd (here.symm.trans net_same.symm) elsewhere
        · exact ⟨other, mem_insert.2 (.inr listed), here, same⟩

/-! ## When a step takes a route away from another entry -/

theorem holders_eq_of_relaxed {held left : List Holding} (relaxed : Relaxed held left)
    (net : Prefix) (ifname : String) : holders left net ifname = holders held net ifname := by
  induction relaxed with
  | nil => rfl
  | cons here others ih =>
      obtain ⟨same, also, -⟩ := here
      simp only [holders, List.countP_cons, same, also] at ih ⊢
      rw [ih]

/-- With another holder in the list there is one more of its route. -/
theorem holders_insert (before behind : List Holding) (holding : Holding) (net : Prefix)
    (ifname : String) :
    holders (before ++ holding :: behind) net ifname =
      holders (before ++ behind) net ifname +
        if holding.net = net ∧ holding.ifname = ifname then 1 else 0 := by
  simp [holders, List.countP_append, List.countP_cons, Nat.add_assoc]

section Faithful

variable {before behind : List Holding} {routes : Prefix → Option String}

theorem Faithful.relax {held left : List Holding} (faithful : Faithful ⟨held, routes⟩)
    (relaxed : Relaxed held left) :
    Faithful ⟨left, routes⟩ ∧ ¬ Clash ⟨held, routes⟩ ⟨left, routes⟩ := by
  constructor
  · intro after listed relied
    obtain ⟨holding, member, same, also, stood⟩ := relaxed.exists_before listed
    rw [same, also]
    exact faithful holding member (stood relied)
  · rintro ⟨after, -, -, fewer⟩
    rw [holders_eq_of_relaxed relaxed] at fewer
    exact Nat.lt_irrefl _ fewer

theorem Faithful.attach (faithful : Faithful ⟨before ++ behind, routes⟩) (holding : Holding)
    (free : routes holding.net = none ∨ routes holding.net = some holding.ifname) :
    let after : Ledger := ⟨before ++ holding :: behind,
      Function.update routes holding.net (some holding.ifname)⟩
    after.Faithful ∧ ¬ Clash ⟨before ++ behind, routes⟩ after := by
  constructor
  · intro other member relied
    rcases mem_insert.1 member with rfl | listed
    · exact Function.update_self _ _ _
    · have routed := faithful other listed relied
      by_cases here : other.net = holding.net
      · simp only [here] at routed ⊢
        rw [Function.update_self]
        rcases free with nothing | own
        · rw [nothing] at routed
          cases routed
        · rw [← own, routed]
      · exact (Function.update_of_ne here _ _).trans routed
  · rintro ⟨other, -, -, fewer⟩
    rw [holders_insert] at fewer
    exact absurd fewer (Nat.not_lt.2 (Nat.le_add_right _ _))

/-- An entry that gives its route up takes it from those that hold the same one. -/
theorem Faithful.detach_iff {holding : Holding}
    (faithful : Faithful ⟨before ++ holding :: behind, routes⟩) :
    let after : Ledger := ⟨before ++ behind, if routes holding.net = some holding.ifname
      then Function.update routes holding.net none else routes⟩
    after.Faithful ↔ ¬ Clash ⟨before ++ holding :: behind, routes⟩ after := by
  constructor
  · rintro still ⟨other, member, relied, fewer⟩
    have same : holding.net = other.net ∧ holding.ifname = other.ifname := by
      by_contra differs
      rw [holders_insert, if_neg differs] at fewer
      exact Nat.lt_irrefl _ fewer
    have routed := faithful other (mem_insert.2 (.inr member)) relied
    have carried : routes holding.net = some holding.ifname := by
      rw [same.1, same.2]
      exact routed
    have left := still other member relied
    simp only at left
    rw [if_pos carried, ← same.1, Function.update_self] at left
    cases left
  · intro no_clash other member relied
    have routed := faithful other (mem_insert.2 (.inr member)) relied
    have differs : ¬ (holding.net = other.net ∧ holding.ifname = other.ifname) := by
      intro same
      refine no_clash ⟨other, member, relied, ?_⟩
      rw [holders_insert, if_pos same]
      exact Nat.lt_succ_self _
    simp only
    split
    · rename_i carried
      refine (Function.update_of_ne (fun here => differs ⟨here.symm, ?_⟩) _ _).trans routed
      simp only [here] at routed
      exact Option.some.inj (carried.symm.trans routed)
    · exact routed

/-- An entry that moves its route takes it from those that hold the old one. -/
theorem Faithful.move_iff {old new : Holding}
    (faithful : Faithful ⟨before ++ old :: behind, routes⟩) (same : new.net = old.net)
    (relied : old.relied = true) :
    let after : Ledger := ⟨before ++ new :: behind, Function.update routes new.net (some new.ifname)⟩
    after.Faithful ↔ ¬ Clash ⟨before ++ old :: behind, routes⟩ after := by
  have carried := faithful old (mem_insert.2 (.inl rfl)) relied
  constructor
  · rintro still ⟨other, member, other_relied, fewer⟩
    rw [holders_insert, holders_insert] at fewer
    have was : old.net = other.net ∧ old.ifname = other.ifname := by
      by_contra differs
      rw [if_neg differs] at fewer
      omega
    have not_now : ¬ (new.net = other.net ∧ new.ifname = other.ifname) := by
      intro own
      rw [if_pos own, if_pos was] at fewer
      omega
    have here : new.net = other.net := same.trans was.1
    have left := still other member other_relied
    simp only [← here, Function.update_self] at left
    exact not_now ⟨here, Option.some.inj left⟩
  · intro no_clash other member other_relied
    rcases mem_insert.1 member with rfl | listed
    · exact Function.update_self _ _ _
    · have routed := faithful other (mem_insert.2 (.inr listed)) other_relied
      by_cases here : new.net = other.net
      · have was : old.net = other.net ∧ old.ifname = other.ifname := by
          refine ⟨same.symm.trans here, ?_⟩
          simp only [← same, here] at carried
          exact Option.some.inj (carried.symm.trans routed)
        by_cases own : new.ifname = other.ifname
        · simp only [← here, own, Function.update_self]
        · refine absurd ⟨other, member, other_relied, ?_⟩ no_clash
          rw [holders_insert, holders_insert, if_neg (fun also => own also.2), if_pos was]
          exact Nat.lt_succ_self _
      · exact (Function.update_of_ne (Ne.symm here) _ _).trans routed

end Faithful

/-- From a ledger that is right about its routes, a step leads to one that is, unless it
takes the route of another entry away. -/
theorem Step.faithful_iff {first second : Ledger} (step : Step first second)
    (faithful : first.Faithful) : second.Faithful ↔ ¬ Clash first second := by
  cases step with
  | relax relaxed => exact iff_of_true (faithful.relax relaxed).1 (faithful.relax relaxed).2
  | attach holding free =>
      obtain ⟨still, no_clash⟩ := faithful.attach holding free
      exact iff_of_true still no_clash
  | detach holding => exact faithful.detach_iff
  | move old new same relied => exact faithful.move_iff same relied

end Ledger

end OverlayRouting
