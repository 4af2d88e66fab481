/-
# OverlayRouting.Proofs.Table -- what the calls of a table do to its routes

A table is lawful if its calls change the routes as they say (`RoutingTable.Lawful`): a
refused change changes nothing; an accepted `add` found no other route and leaves its own;
an accepted `remove` takes away at most the route through the interface it names; an
accepted `replace` leaves its own whatever was there.  What a call may refuse is left open.

The table in memory is lawful, and an unreliable table around a lawful one is.
-/
import Mathlib.Logic.Function.Basic
import Mathlib.Tactic.Common
import OverlayRouting.RoutingTable.Memory
import OverlayRouting.RoutingTable.Unreliable

namespace OverlayRouting

set_option autoImplicit false

/-- A table whose routes are known, with calls that change them as they say. -/
class RoutingTable.Lawful (σ : Type) [RoutingTable σ] where
  /-- The interface that carries the route to a destination. -/
  routes : σ → Prefix → Option String
  carrier_spec : ∀ net table, (carrier net table).1 = routes table net ∧
    routes (carrier net table).2 = routes table
  add_spec : ∀ ifname gateway net table,
    (∃ cause, (add ifname gateway net table).1 = .error cause ∧
      routes (add ifname gateway net table).2 = routes table) ∨
    ((add ifname gateway net table).1 = .ok () ∧
      (routes table net = none ∨ routes table net = some ifname) ∧
      routes (add ifname gateway net table).2 = Function.update (routes table) net (some ifname))
  remove_spec : ∀ ifname net table,
    (∃ cause, (remove ifname net table).1 = .error cause ∧
      routes (remove ifname net table).2 = routes table) ∨
    ((remove ifname net table).1 = .ok () ∧
      routes (remove ifname net table).2 =
        if routes table net = some ifname then Function.update (routes table) net none
        else routes table)
  replace_spec : ∀ ifname gateway net table,
    (∃ cause, (replace ifname gateway net table).1 = .error cause ∧
      routes (replace ifname gateway net table).2 = routes table) ∨
    ((replace ifname gateway net table).1 = .ok () ∧
      routes (replace ifname gateway net table).2 =
        Function.update (routes table) net (some ifname))

namespace RoutingTable.Lawful

variable {σ : Type} [RoutingTable σ] [Lawful σ]

/-! What a call answers, together with the table that it leaves. -/

theorem add_cases (ifname : String) (gateway : Option Address) (net : Prefix) (table : σ) :
    (∃ cause left, RoutingTable.add ifname gateway net table = (.error cause, left) ∧
      routes left = routes table) ∨
    ∃ left, RoutingTable.add ifname gateway net table = (.ok (), left) ∧
      (routes table net = none ∨ routes table net = some ifname) ∧
      routes left = Function.update (routes table) net (some ifname) := by
  rcases add_spec ifname gateway net table with ⟨cause, refused, same⟩ | ⟨done, free, changed⟩
  · exact .inl ⟨cause, _, Prod.ext refused rfl, same⟩
  · exact .inr ⟨_, Prod.ext done rfl, free, changed⟩

theorem remove_cases (ifname : String) (net : Prefix) (table : σ) :
    (∃ cause left, RoutingTable.remove ifname net table = (.error cause, left) ∧
      routes left = routes table) ∨
    ∃ left, RoutingTable.remove ifname net table = (.ok (), left) ∧
      routes left = if routes table net = some ifname then Function.update (routes table) net none
        else routes table := by
  rcases remove_spec ifname net table with ⟨cause, refused, same⟩ | ⟨done, changed⟩
  · exact .inl ⟨cause, _, Prod.ext refused rfl, same⟩
  · exact .inr ⟨_, Prod.ext done rfl, changed⟩

theorem replace_cases (ifname : String) (gateway : Option Address) (net : Prefix) (table : σ) :
    (∃ cause left, RoutingTable.replace ifname gateway net table = (.error cause, left) ∧
      routes left = routes table) ∨
    ∃ left, RoutingTable.replace ifname gateway net table = (.ok (), left) ∧
      routes left = Function.update (routes table) net (some ifname) := by
  rcases replace_spec ifname gateway net table with ⟨cause, refused, same⟩ | ⟨done, changed⟩
  · exact .inl ⟨cause, _, Prod.ext refused rfl, same⟩
  · exact .inr ⟨_, Prod.ext done rfl, changed⟩

end RoutingTable.Lawful

/-! ## The table in memory -/

namespace MemoryTable

theorem via?_of_insert {table : MemoryTable} {routes : SortedMap Prefix Route} {net : Prefix}
    {route : Route} (same : table.routes = routes.insert net route) :
    table.via? = Function.update (fun net => (routes.get? net).map Route.ifname) net
      (some route.ifname) := by
  funext other
  by_cases here : net = other
  · subst here
    rw [via?, same, SortedMap.get?_insert_self, Function.update_self]
    rfl
  · rw [via?, same, SortedMap.get?_insert_of_ne _ _ here, Function.update_of_ne (Ne.symm here)]

theorem via?_of_erase {table : MemoryTable} {routes : SortedMap Prefix Route} {net : Prefix}
    (same : table.routes = routes.erase net) :
    table.via? = Function.update (fun net => (routes.get? net).map Route.ifname) net none := by
  funext other
  by_cases here : net = other
  · subst here
    rw [via?, same, SortedMap.get?_erase, if_pos rfl, Function.update_self]
    rfl
  · rw [via?, same, SortedMap.get?_erase, if_neg (rank_ne here),
      Function.update_of_ne (Ne.symm here)]

/-- A call is refused for its destination or for the routes there are, else it is made. -/
theorem perform_cases {motive : Outcome × MemoryTable → Prop} (call : Call)
    (gateway : Option Address) (table : MemoryTable)
    (failing : ∀ cause left, call.destination ∈ table.failing → left.routes = table.routes →
      motive (.error cause, left))
    (impossible : ∀ cause reason left, changed table.routes call gateway = .error reason →
      left.routes = table.routes → motive (.error cause, left))
    (made : ∀ left, changed table.routes call gateway = .ok left.routes → motive (.ok (), left)) :
    motive (perform call gateway table) := by
  simp only [perform]
  split
  · rename_i fails
    exact failing _ _ fails rfl
  · split
    · rename_i reason refused
      exact impossible _ reason _ refused rfl
    · rename_i routes accepted
      exact made _ accepted

theorem via?_congr {table left : MemoryTable} (same : left.routes = table.routes) :
    left.via? = table.via? := by
  funext net
  rw [via?, via?, same]

theorem via?_eq_none_iff (table : MemoryTable) (net : Prefix) :
    table.via? net = none ↔ table.routes.get? net = none :=
  Option.map_eq_none_iff

/-- An added route stands in the table; an interface that is there already may be added
again, another one may not. -/
theorem add_spec (ifname : String) (gateway : Option Address) (net : Prefix)
    (table : MemoryTable) :
    (∃ cause, (RoutingTable.add ifname gateway net table).1 = .error cause ∧
      (net ∈ table.failing ∨ ∃ other, table.via? net = some other ∧ other ≠ ifname) ∧
      (RoutingTable.add ifname gateway net table).2.via? = table.via?) ∨
    ((RoutingTable.add ifname gateway net table).1 = .ok () ∧
      (table.via? net = none ∨ table.via? net = some ifname) ∧
      (RoutingTable.add ifname gateway net table).2.via? =
        Function.update table.via? net (some ifname)) := by
  refine perform_cases (motive := fun result => (∃ cause, result.1 = .error cause ∧ _ ∧
    result.2.via? = _) ∨ (result.1 = .ok () ∧ _ ∧ result.2.via? = _)) _ gateway table ?_ ?_ ?_
  · exact fun cause left failing same => .inl ⟨cause, rfl, .inl failing, via?_congr same⟩
  · intro cause reason left refused same
    simp only [changed] at refused
    split at refused
    · cases refused
    · rename_i route found
      split at refused
      · cases refused
      · rename_i foreign
        exact .inl ⟨cause, rfl, .inr ⟨route.ifname, by rw [via?, found]; rfl, foreign⟩,
          via?_congr same⟩
  · intro left accepted
    simp only [changed] at accepted
    split at accepted
    · rename_i absent
      have same := via?_of_insert (Except.ok.inj accepted).symm
      exact .inr ⟨rfl, .inl ((via?_eq_none_iff table net).2 absent), same⟩
    · rename_i route found
      split at accepted
      · rename_i own
        have carried : table.via? net = some ifname := by
          rw [via?, found, ← own]
          rfl
        refine .inr ⟨rfl, .inr carried, ?_⟩
        rw [← carried, Function.update_eq_self]
        exact via?_congr (Except.ok.inj accepted).symm
      · cases accepted

/-- A removal is refused only for its destination; the route of another interface stays. -/
theorem remove_spec (ifname : String) (net : Prefix) (table : MemoryTable) :
    (∃ cause, (RoutingTable.remove ifname net table).1 = .error cause ∧ net ∈ table.failing ∧
      (RoutingTable.remove ifname net table).2.via? = table.via?) ∨
    ((RoutingTable.remove ifname net table).1 = .ok () ∧
      (RoutingTable.remove ifname net table).2.via? =
        if table.via? net = some ifname then Function.update table.via? net none
        else table.via?) := by
  refine perform_cases (motive := fun result => (∃ cause, result.1 = .error cause ∧ _ ∧
    result.2.via? = _) ∨ (result.1 = .ok () ∧ result.2.via? = _)) _ none table ?_ ?_ ?_
  · exact fun cause left failing same => .inl ⟨cause, rfl, failing, via?_congr same⟩
  · intro cause reason left refused same
    simp only [changed] at refused
    split at refused <;> cases refused
  · intro left accepted
    simp only [changed] at accepted
    refine .inr ⟨rfl, ?_⟩
    split at accepted
    · rename_i absent
      rw [if_neg (by simp [(via?_eq_none_iff table net).2 absent])]
      exact via?_congr (Except.ok.inj accepted).symm
    · rename_i route found
      have carried : table.via? net = some route.ifname := by
        rw [via?, found]
        rfl
      have made := (Except.ok.inj accepted).symm
      by_cases own : route.ifname = ifname
      · rw [if_pos own] at made
        rw [if_pos (own ▸ carried)]
        exact via?_of_erase made
      · rw [if_neg own] at made
        rw [if_neg (fun same => own (Option.some.inj (carried.symm.trans same)))]
        exact via?_congr made

theorem replace_spec (ifname : String) (gateway : Option Address) (net : Prefix)
    (table : MemoryTable) :
    (∃ cause, (RoutingTable.replace ifname gateway net table).1 = .error cause ∧
      net ∈ table.failing ∧ (RoutingTable.replace ifname gateway net table).2.via? = table.via?) ∨
    ((RoutingTable.replace ifname gateway net table).1 = .ok () ∧
      (RoutingTable.replace ifname gateway net table).2.via? =
        Function.update table.via? net (some ifname)) := by
  refine perform_cases (motive := fun result => (∃ cause, result.1 = .error cause ∧ _ ∧
    result.2.via? = _) ∨ (result.1 = .ok () ∧ result.2.via? = _)) _ gateway table ?_ ?_ ?_
  · exact fun cause left failing same => .inl ⟨cause, rfl, failing, via?_congr same⟩
  · intro cause reason left refused same
    cases refused
  · intro left accepted
    exact .inr ⟨rfl, via?_of_insert (Except.ok.inj accepted).symm⟩

instance : RoutingTable.Lawful MemoryTable where
  routes := via?
  carrier_spec _ _ := ⟨rfl, rfl⟩
  add_spec ifname gateway net table := by
    rcases add_spec ifname gateway net table with ⟨cause, refused, -, same⟩ | accepted
    · exact .inl ⟨cause, refused, same⟩
    · exact .inr accepted
  remove_spec ifname net table := by
    rcases remove_spec ifname net table with ⟨cause, refused, -, same⟩ | accepted
    · exact .inl ⟨cause, refused, same⟩
    · exact .inr accepted
  replace_spec ifname gateway net table := by
    rcases replace_spec ifname gateway net table with ⟨cause, refused, -, same⟩ | accepted
    · exact .inl ⟨cause, refused, same⟩
    · exact .inr accepted

end MemoryTable

/-! ## The unreliable table -/

namespace Unreliable

variable {σ : Type}

/-- A change either fails before the inner table hears of it, or is made there. -/
theorem attempt_cases (change : Change) (net : Prefix) (make : σ → Outcome × σ)
    (table : Unreliable σ) :
    (∃ cause, (attempt change net make table).1 = .error cause ∧
      (attempt change net make table).2.inner = table.inner) ∨
    ((attempt change net make table).1 = (make table.inner).1 ∧
      (attempt change net make table).2.inner = (make table.inner).2) := by
  unfold attempt
  split
  · exact .inl ⟨_, rfl, rfl⟩
  · exact .inr ⟨rfl, rfl⟩

open RoutingTable in
instance [RoutingTable σ] [Lawful σ] : Lawful (Unreliable σ) where
  routes table := Lawful.routes table.inner
  carrier_spec net table := Lawful.carrier_spec net table.inner
  add_spec ifname gateway net table := by
    simp only [add]
    rcases attempt_cases .add net (add ifname gateway net) table with
      ⟨cause, refused, same⟩ | ⟨outcome, inner⟩
    · exact .inl ⟨cause, refused, by rw [same]⟩
    · rw [outcome, inner]
      exact Lawful.add_spec ifname gateway net table.inner
  remove_spec ifname net table := by
    simp only [remove]
    rcases attempt_cases .remove net (remove ifname net) table with
      ⟨cause, refused, same⟩ | ⟨outcome, inner⟩
    · exact .inl ⟨cause, refused, by rw [same]⟩
    · rw [outcome, inner]
      exact Lawful.remove_spec ifname net table.inner
  replace_spec ifname gateway net table := by
    simp only [replace]
    rcases attempt_cases .replace net (replace ifname gateway net) table with
      ⟨cause, refused, same⟩ | ⟨outcome, inner⟩
    · exact .inl ⟨cause, refused, by rw [same]⟩
    · rw [outcome, inner]
      exact Lawful.replace_spec ifname gateway net table.inner

end Unreliable

end OverlayRouting
