/-
# OverlayRouting.Ranked -- keys ordered by a number

Groups, addresses and prefixes are walked in a fixed order.  Each has a natural
rank that tells its values apart, and one key comes before another when its rank
is smaller.  Order facts are then facts about natural numbers.
-/
namespace OverlayRouting

set_option autoImplicit false

/-- A type whose values are told apart, and ordered, by a number. -/
class Ranked (κ : Type) where
  rank : κ → Nat
  rank_inj : ∀ {a b : κ}, rank a = rank b → a = b

export Ranked (rank rank_inj)

theorem rank_eq_iff {κ : Type} [Ranked κ] {a b : κ} : rank a = rank b ↔ a = b :=
  ⟨rank_inj, fun h => h ▸ rfl⟩

theorem rank_ne {κ : Type} [Ranked κ] {a b : κ} (ne : a ≠ b) : rank a ≠ rank b :=
  fun same => ne (rank_inj same)

instance : Ranked Nat := ⟨id, id⟩

end OverlayRouting
