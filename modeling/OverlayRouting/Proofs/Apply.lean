/-
# OverlayRouting.Proofs.Apply -- what an apply keeps

An apply alternates two kinds of steps: a pass commits all groups, and a resolution
admits held addresses again, one after the other.  What both keep, an apply keeps
(`apply_induction`), and what admitting one free address keeps, a resolution keeps
(`resolve_induction`).
-/
import OverlayRouting.Proofs.Run

namespace OverlayRouting

set_option autoImplicit false

namespace Router

/-- The two kinds of held addresses. -/
inductive Held.Kind : Held → Prop
  | peers : Held.Kind heldPeers
  | services : Held.Kind heldServices

/-- An address is left as it is if somebody else claims it or if there is no such group. -/
theorem restore_cases {motive : Nat × Router → Prop} (held : Held) (id : GroupId) (count : Nat)
    (router : Router) (net : Prefix)
    (left : router.hasConflict net id = true ∨ router.groups.get? id = none →
      motive (count, router))
    (tried : ∀ group, router.hasConflict net id = false → router.groups.get? id = some group →
      motive (if (held.enable group net).1 then count + 1 else count,
        router.setGroup id (held.enable group net).2)) :
    motive (restore held id (count, router) net) := by
  simp only [restore]
  split
  · rename_i conflict
    exact left (.inl conflict)
  · rename_i free
    split
    · rename_i absent
      exact left (.inr absent)
    · rename_i group found
      exact tried group (by simpa using free) found

/-- What every address that is admitted again keeps, a resolution keeps. -/
theorem resolve_induction {motive : Nat × Router → Prop} (router : Router) (begins : motive (0, router))
    (keeps : ∀ held : Held, held.Kind → ∀ (id : GroupId) (net : Prefix) count (router : Router) group,
      router.hasConflict net id = false → router.groups.get? id = some group →
      motive (count, router) →
      motive (if (held.enable group net).1 then count + 1 else count,
        router.setGroup id (held.enable group net).2)) : motive router.resolve := by
  have addresses : ∀ held : Held, held.Kind → ∀ (id : GroupId) (nets : List Prefix) progress,
      motive progress → motive (nets.foldl (restore held id) progress) := by
    intro held kind id nets
    induction nets with
    | nil => exact fun _ holds => holds
    | cons net rest ih =>
        rintro ⟨count, router⟩ holds
        refine ih _ (restore_cases held id count router net (fun _ => holds) ?_)
        exact fun group free found => keeps held kind id net count router group free found holds
  have groups : ∀ (ids : List GroupId) progress, motive progress → motive (ids.foldl restoreGroup progress) := by
    intro ids
    induction ids with
    | nil => exact fun _ holds => holds
    | cons id rest ih =>
        refine fun progress holds => ih _ ?_
        unfold restoreGroup
        split
        · exact holds
        · exact addresses _ .services id _ _ (addresses _ .peers id _ progress holds)
  exact groups _ _ begins

variable {σ : Type} [RoutingTable σ]

theorem commitPasses_induction {motive : Router × σ → Prop}
    (pass : ∀ router table, motive (router, table) →
      motive ((router.commitOnce table).1.router, (router.commitOnce table).2))
    (resolves : ∀ router table, motive (router, table) → motive (router.resolve.2, table))
    (fuel : Nat) (report : Report) (router : Router) (table : σ) (begins : motive (router, table)) :
    motive (commitPasses fuel report router table).2 := by
  induction fuel generalizing report router table with
  | zero => exact begins
  | succ fuel ih =>
      have committed := resolves _ _ (pass router table begins)
      simp only [commitPasses]
      split
      · exact committed
      · exact ih _ _ _ committed

theorem apply_induction {motive : Router × σ → Prop} (router : Router) (table : σ)
    (begins : motive (router, table))
    (pass : ∀ router table, motive (router, table) →
      motive ((router.commitOnce table).1.router, (router.commitOnce table).2))
    (resolves : ∀ router table, motive (router, table) → motive (router.resolve.2, table)) :
    motive (router.apply table).2 :=
  commitPasses_induction pass resolves mostPasses {} router table begins

/-! ## Settings -/

omit [RoutingTable σ] in
theorem settings_resolve (router : Router) : router.resolve.2.settings = router.settings :=
  resolve_induction (motive := fun progress => progress.2.settings = router.settings) router rfl
    fun _ _ _ _ _ _ _ _ _ same => same

omit [RoutingTable σ] in
theorem settings_accept (router : Router) (link : Link) (place : Place) (net : Prefix) :
    (router.accept link place net).2.settings = router.settings := by
  unfold accept
  split <;> rfl

omit [RoutingTable σ] in
theorem settings_add (router : Router) (link : Link) (nets : List Prefix) :
    (router.add link nets).2.settings = router.settings := by
  have all : ∀ (places : List (Place × Prefix)) (router : Router),
      (acceptAll link places router).2.settings = router.settings := by
    intro places
    induction places with
    | nil => exact fun _ => rfl
    | cons first rest ih =>
        exact fun router => (ih _).trans (router.settings_accept link first.1 first.2)
  exact all _ router

end Router

variable {σ : Type} [RoutingTable σ]

/-- No operation changes the settings of a router but for the margins. -/
theorem Operation.settings_step (op : Operation σ) (state : Router × σ) (margins : Margins) :
    (op.step state).1.settings.withMargins margins = state.1.settings.withMargins margins := by
  obtain ⟨router, table⟩ := state
  cases op with
  | add link nets => exact congrArg (·.withMargins margins) (router.settings_add link nets)
  | remove link nets =>
      simp only [step, Router.remove]
      split <;> rfl
  | apply =>
      refine Router.apply_induction (motive := fun state =>
        state.1.settings.withMargins margins = router.settings.withMargins margins) router table
        rfl ?_ ?_
      · exact fun _ _ same => same
      · exact fun router _ same =>
          (congrArg (·.withMargins margins) router.settings_resolve).trans same
  | close =>
      simp only [step, Router.close]
      split <;> rfl
  | ping | setMargins | flush | outside => rfl

theorem settings_run (ops : List (Operation σ)) (start : Router × σ) (margins : Margins) :
    (run ops start).1.settings.withMargins margins = start.1.settings.withMargins margins :=
  run_induction (motive := fun state =>
    state.1.settings.withMargins margins = start.1.settings.withMargins margins) ops rfl
    fun op _ state same => (op.settings_step state margins).trans same

end OverlayRouting
