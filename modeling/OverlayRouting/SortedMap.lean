/-
# OverlayRouting.SortedMap -- finite maps walked in key order

A map is the list of its entries by strictly increasing key, and the increase is
part of the type.  So two maps with the same look-ups are equal (`SortedMap.ext`),
and a walk over the entries (`traverse`) has one possible order.

Every operation is described by what it does to look-ups: `get?_insert`,
`get?_erase`, `get?_filterMap`, `get?_map`.
-/
import OverlayRouting.Ranked

namespace OverlayRouting

set_option autoImplicit false

variable {κ α β σ : Type} [Ranked κ]

/-! ## Entries -/

namespace Entries

/-- Keys strictly increase along the list. -/
def Increasing (entries : List (κ × α)) : Prop :=
  entries.Pairwise fun a b => rank a.1 < rank b.1

/-- The value at a key: that of the first entry which has it. -/
def lookup (key : κ) : List (κ × α) → Option α
  | [] => none
  | (k, x) :: rest => if rank k = rank key then some x else lookup key rest

/-- Put a value at a key, in its place; a value already there is replaced. -/
def put (key : κ) (value : α) : List (κ × α) → List (κ × α)
  | [] => [(key, value)]
  | (k, x) :: rest =>
      if rank key < rank k then (key, value) :: (k, x) :: rest
      else if rank key = rank k then (key, value) :: rest
      else (k, x) :: put key value rest

/-- Visit the entries in order, handing a state along. -/
def traverse (visit : κ → α → σ → β × σ) : List (κ × α) → σ → List (κ × β) × σ
  | [], state => ([], state)
  | (k, x) :: rest, state =>
      let here := visit k x state
      let others := traverse visit rest here.2
      ((k, here.1) :: others.1, others.2)

theorem mem_put {key : κ} {value : α} {entry : κ × α} {entries : List (κ × α)}
    (member : entry ∈ put key value entries) : entry = (key, value) ∨ entry ∈ entries := by
  induction entries with
  | nil => simpa [put] using member
  | cons head rest ih =>
      obtain ⟨k, x⟩ := head
      simp only [put] at member
      split at member
      · simpa using member
      · split at member
        · rcases List.mem_cons.1 member with h | h
          · exact .inl h
          · exact .inr (List.mem_cons_of_mem _ h)
        · rcases List.mem_cons.1 member with h | h
          · exact .inr (h ▸ List.mem_cons_self)
          · exact (ih h).imp_right (List.mem_cons_of_mem _)

theorem put_increasing (key : κ) (value : α) {entries : List (κ × α)}
    (increasing : Increasing entries) : Increasing (put key value entries) := by
  induction entries with
  | nil => simp [put, Increasing]
  | cons head rest ih =>
      obtain ⟨k, x⟩ := head
      obtain ⟨below, restIncreasing⟩ := List.pairwise_cons.1 increasing
      simp only [put]
      split
      · rename_i before
        refine List.pairwise_cons.2 ⟨fun entry member => ?_, increasing⟩
        rcases List.mem_cons.1 member with h | h
        · subst h; exact before
        · exact Nat.lt_trans before (below entry h)
      · split
        · rename_i same
          exact List.pairwise_cons.2 ⟨fun entry member => same ▸ below entry member, restIncreasing⟩
        · rename_i notBefore notSame
          refine List.pairwise_cons.2 ⟨fun entry member => ?_, ih restIncreasing⟩
          rcases mem_put member with h | h
          · subst h; exact Nat.lt_of_le_of_ne (Nat.le_of_not_lt notBefore) (Ne.symm notSame)
          · exact below entry h

theorem lookup_put (key other : κ) (value : α) (entries : List (κ × α)) :
    lookup other (put key value entries) =
      if rank key = rank other then some value else lookup other entries := by
  induction entries with
  | nil => simp [put, lookup]
  | cons head rest ih =>
      obtain ⟨k, x⟩ := head
      simp only [put]
      split
      · simp [lookup]
      · split
        · rename_i same
          simp only [lookup, same]
          split <;> rfl
        · rename_i notSame
          simp only [lookup, ih]
          split
          · rename_i here
            rw [if_neg (fun h => notSame (h.trans here.symm))]
          · rfl

theorem lookup_eq_none_of_below {key : κ} {entries : List (κ × α)}
    (below : ∀ entry ∈ entries, rank key < rank entry.1) : lookup key entries = none := by
  induction entries with
  | nil => rfl
  | cons head rest ih =>
      have here := below head List.mem_cons_self
      simp only [lookup]
      rw [if_neg (by omega)]
      exact ih fun entry member => below entry (List.mem_cons_of_mem _ member)

theorem mem_of_lookup {key : κ} {value : α} {entries : List (κ × α)}
    (found : lookup key entries = some value) : (key, value) ∈ entries := by
  induction entries with
  | nil => simp [lookup] at found
  | cons head rest ih =>
      obtain ⟨k, x⟩ := head
      simp only [lookup] at found
      split at found
      · rename_i same
        cases found
        cases rank_inj same
        exact List.mem_cons_self
      · exact List.mem_cons_of_mem _ (ih found)

theorem lookup_of_mem {key : κ} {value : α} {entries : List (κ × α)}
    (increasing : Increasing entries) (member : (key, value) ∈ entries) :
    lookup key entries = some value := by
  induction entries with
  | nil => cases member
  | cons head rest ih =>
      obtain ⟨below, restIncreasing⟩ := List.pairwise_cons.1 increasing
      simp only [lookup]
      rcases List.mem_cons.1 member with h | h
      · subst h; simp
      · have := below _ h
        rw [if_neg (by simp only at this; omega)]
        exact ih restIncreasing h

theorem eq_of_lookup {a b : List (κ × α)} (ha : Increasing a) (hb : Increasing b)
    (same : ∀ key, lookup key a = lookup key b) : a = b := by
  induction a generalizing b with
  | nil =>
      cases b with
      | nil => rfl
      | cons head rest =>
          have := same head.1
          simp [lookup] at this
  | cons x xs ih =>
      cases b with
      | nil =>
          have := same x.1
          simp [lookup] at this
      | cons y ys =>
          obtain ⟨hx, hxs⟩ := List.pairwise_cons.1 ha
          obtain ⟨hy, hys⟩ := List.pairwise_cons.1 hb
          have key : rank x.1 = rank y.1 := by
            rcases Nat.lt_trichotomy (rank x.1) (rank y.1) with lt | eq | gt
            · have := same x.1
              have absent : lookup x.1 (y :: ys) = none := by
                refine lookup_eq_none_of_below fun entry member => ?_
                rcases List.mem_cons.1 member with h | h
                · exact h ▸ lt
                · exact Nat.lt_trans lt (hy entry h)
              rw [absent] at this
              simp [lookup] at this
            · exact eq
            · have := same y.1
              have absent : lookup y.1 (x :: xs) = none := by
                refine lookup_eq_none_of_below fun entry member => ?_
                rcases List.mem_cons.1 member with h | h
                · exact h ▸ gt
                · exact Nat.lt_trans gt (hx entry h)
              rw [absent] at this
              simp [lookup] at this
          have keys : x.1 = y.1 := rank_inj key
          have value : x.2 = y.2 := by
            have := same x.1
            simpa [lookup, key] using this
          have head : x = y := Prod.ext keys value
          subst head
          refine congrArg (x :: ·) (ih hxs hys fun k => ?_)
          have := same k
          simp only [lookup] at this
          split at this
          · rename_i at_k
            rw [lookup_eq_none_of_below (fun entry member => at_k ▸ hx entry member),
              lookup_eq_none_of_below (fun entry member => at_k ▸ hy entry member)]
          · exact this

omit [Ranked κ] in
theorem traverse_keys (visit : κ → α → σ → β × σ) (entries : List (κ × α)) (state : σ) :
    (traverse visit entries state).1.map Prod.fst = entries.map Prod.fst := by
  induction entries generalizing state with
  | nil => rfl
  | cons head rest ih => simp [traverse, ih]

theorem increasing_of_keys {a : List (κ × α)} {b : List (κ × β)} (ha : Increasing a)
    (same : b.map Prod.fst = a.map Prod.fst) : Increasing b := by
  have keys : (a.map Prod.fst).Pairwise fun k l => rank k < rank l := by
    rw [List.pairwise_map]
    exact ha
  rw [← same, List.pairwise_map] at keys
  exact keys

end Entries

/-! ## Maps -/

/-- A finite map whose entries stand in key order. -/
structure SortedMap (κ α : Type) [Ranked κ] where
  entries : List (κ × α)
  increasing : Entries.Increasing entries

namespace SortedMap

theorem ext_entries {a b : SortedMap κ α} (same : a.entries = b.entries) : a = b := by
  cases a; cases b; cases same; rfl

instance [DecidableEq κ] [DecidableEq α] : DecidableEq (SortedMap κ α) := fun a b =>
  if same : a.entries = b.entries then isTrue (ext_entries same)
  else isFalse fun h => same (h ▸ rfl)

def empty : SortedMap κ α := ⟨[], List.Pairwise.nil⟩

instance : EmptyCollection (SortedMap κ α) := ⟨empty⟩
instance : Inhabited (SortedMap κ α) := ⟨empty⟩

def get? (map : SortedMap κ α) (key : κ) : Option α := Entries.lookup key map.entries

def contains (map : SortedMap κ α) (key : κ) : Bool := (map.get? key).isSome

def keys (map : SortedMap κ α) : List κ := map.entries.map Prod.fst

def values (map : SortedMap κ α) : List α := map.entries.map Prod.snd

def size (map : SortedMap κ α) : Nat := map.entries.length

def isEmpty (map : SortedMap κ α) : Bool := map.entries.isEmpty

def insert (map : SortedMap κ α) (key : κ) (value : α) : SortedMap κ α :=
  ⟨Entries.put key value map.entries, Entries.put_increasing key value map.increasing⟩

/-- The map that holds each given value at its key; of equal keys the last counts. -/
def ofList (entries : List (κ × α)) : SortedMap κ α :=
  entries.foldl (fun map entry => map.insert entry.1 entry.2) empty

/-- Keep and change the entries for which `choose` gives a value. -/
def filterMap (map : SortedMap κ α) (choose : κ → α → Option β) : SortedMap κ β :=
  ⟨map.entries.filterMap fun entry => (choose entry.1 entry.2).map (entry.1, ·), by
    refine List.Pairwise.filterMap _ ?_ map.increasing
    intro a b less x hx y hy
    simp only [Option.map_eq_some_iff] at hx hy
    obtain ⟨_, _, rfl⟩ := hx
    obtain ⟨_, _, rfl⟩ := hy
    exact less⟩

def map (source : SortedMap κ α) (change : κ → α → β) : SortedMap κ β :=
  ⟨source.entries.map fun entry => (entry.1, change entry.1 entry.2),
    Entries.increasing_of_keys source.increasing (by simp [Function.comp_def])⟩

def erase (map : SortedMap κ α) (key : κ) : SortedMap κ α :=
  map.filterMap fun k x => if rank k = rank key then none else some x

/-- Visit every entry in key order, handing a state along; what a visit gives
takes the place of the value it saw. -/
def traverse (map : SortedMap κ α) (visit : κ → α → σ → β × σ) (state : σ) :
    SortedMap κ β × σ :=
  let walked := Entries.traverse visit map.entries state
  (⟨walked.1, Entries.increasing_of_keys map.increasing
    (Entries.traverse_keys visit map.entries state)⟩, walked.2)

/-! ### Look-ups -/

theorem ext {a b : SortedMap κ α} (same : ∀ key, a.get? key = b.get? key) : a = b :=
  ext_entries (Entries.eq_of_lookup a.increasing b.increasing same)

theorem get?_insert (map : SortedMap κ α) (key other : κ) (value : α) :
    (map.insert key value).get? other = if rank key = rank other then some value else map.get? other :=
  Entries.lookup_put key other value map.entries

theorem get?_insert_self (map : SortedMap κ α) (key : κ) (value : α) :
    (map.insert key value).get? key = some value := by
  simp [get?_insert]

theorem get?_insert_of_ne (map : SortedMap κ α) {key other : κ} (value : α) (ne : key ≠ other) :
    (map.insert key value).get? other = map.get? other := by
  rw [get?_insert, if_neg (rank_ne ne)]

theorem get?_filterMap (map : SortedMap κ α) (choose : κ → α → Option β) (key : κ) :
    (map.filterMap choose).get? key = (map.get? key).bind (choose key) := by
  obtain ⟨entries, increasing⟩ := map
  simp only [get?, filterMap]
  induction entries with
  | nil => rfl
  | cons head rest ih =>
      obtain ⟨k, x⟩ := head
      obtain ⟨below, restIncreasing⟩ := List.pairwise_cons.1 increasing
      have tail := ih restIncreasing
      simp only [List.filterMap_cons, Entries.lookup]
      by_cases same : rank k = rank key
      · cases rank_inj same
        cases chosen : choose key x with
        | none =>
            simp only [Option.map_none, if_true, Option.bind_some, chosen]
            rw [tail, Entries.lookup_eq_none_of_below below]
            rfl
        | some y => simp [chosen, Entries.lookup]
      · cases chosen : choose k x with
        | none => simpa [chosen, same] using tail
        | some y => simpa [chosen, same, Entries.lookup] using tail

theorem get?_erase (map : SortedMap κ α) (key other : κ) :
    (map.erase key).get? other = if rank key = rank other then none else map.get? other := by
  rw [erase, get?_filterMap]
  by_cases same : rank key = rank other
  · simp [same]
  · have : ¬ rank other = rank key := fun h => same h.symm
    simp [same, this]

theorem get?_map (source : SortedMap κ α) (change : κ → α → β) (key : κ) :
    (source.map change).get? key = (source.get? key).map (change key) := by
  obtain ⟨entries, increasing⟩ := source
  simp only [get?, map]
  induction entries with
  | nil => rfl
  | cons head rest ih =>
      obtain ⟨k, x⟩ := head
      simp only [List.map_cons, Entries.lookup]
      split
      · rename_i same
        cases rank_inj same
        rfl
      · exact ih (List.pairwise_cons.1 increasing).2

theorem mem_entries_iff (map : SortedMap κ α) (key : κ) (value : α) :
    (key, value) ∈ map.entries ↔ map.get? key = some value :=
  ⟨Entries.lookup_of_mem map.increasing, Entries.mem_of_lookup⟩

theorem mem_keys_iff (map : SortedMap κ α) (key : κ) :
    key ∈ map.keys ↔ (map.get? key).isSome := by
  simp only [keys, List.mem_map, Option.isSome_iff_exists]
  constructor
  · rintro ⟨⟨k, x⟩, member, rfl⟩
    exact ⟨x, (mem_entries_iff map k x).1 member⟩
  · rintro ⟨x, found⟩
    exact ⟨(key, x), (mem_entries_iff map key x).2 found, rfl⟩

end SortedMap

end OverlayRouting
