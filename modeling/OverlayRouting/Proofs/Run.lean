/-
# OverlayRouting.Proofs.Run -- runs of the router

The state of a run is the router with the routing table under it.  A run is a list of
operations: the calls of the router, in any order and with any arguments, and between
them whatever else happens to the table (`Operation.outside`), which is how failures
come and go.

What every operation keeps, a run keeps (`run_induction`).
-/
import OverlayRouting.Proofs.Roster

namespace OverlayRouting

set_option autoImplicit false

variable {σ : Type}

/-- A call of the router, or something that happens to its table. -/
inductive Operation (σ : Type) where
  | add (link : Link) (nets : List Prefix)
  | remove (link : Link) (nets : List Prefix)
  | apply
  | ping (tallies : Tallies)
  | setMargins (margins : Margins)
  | flush
  | close
  | outside (change : σ → σ)

/-- A router without groups, over a table. -/
def Router.fresh (settings : RouterSettings) (table : σ) : Router × σ := ({ settings }, table)

variable [RoutingTable σ]

namespace Operation

/-- The state after an operation; what it answers is left out. -/
def step : Operation σ → Router × σ → Router × σ
  | .add link nets, (router, table) => ((router.add link nets).2, table)
  | .remove link nets, (router, table) => ((router.remove link nets).2, table)
  | .apply, (router, table) => (router.apply table).2
  | .ping tallies, (router, table) => (router.ping tallies table).2
  | .setMargins margins, (router, table) => (router.setMargins margins, table)
  | .flush, (router, table) => (router.flush, table)
  | .close, (router, table) => router.close table
  | .outside change, (router, table) => (router, change table)

end Operation

def run (ops : List (Operation σ)) (start : Router × σ) : Router × σ :=
  ops.foldl (fun state op => op.step state) start

theorem run_cons (op : Operation σ) (ops : List (Operation σ)) (start : Router × σ) :
    run (op :: ops) start = run ops (op.step start) := rfl

theorem run_append (first second : List (Operation σ)) (start : Router × σ) :
    run (first ++ second) start = run second (run first start) :=
  List.foldl_append

/-- What holds at the start and is kept by every operation of a run holds at its end. -/
theorem run_induction {motive : Router × σ → Prop} {start : Router × σ} (ops : List (Operation σ))
    (begins : motive start)
    (keeps : ∀ op ∈ ops, ∀ state, motive state → motive (op.step state)) :
    motive (run ops start) := by
  induction ops generalizing start with
  | nil => exact begins
  | cons op rest ih =>
      rw [run_cons]
      exact ih (keeps op List.mem_cons_self start begins)
        fun other member => keeps other (List.mem_cons_of_mem _ member)

/-- A property of states holds throughout a run if it holds after every beginning of it. -/
def Throughout (Holds : Router × σ → Prop) (ops : List (Operation σ)) (start : Router × σ) : Prop :=
  ∀ done, done <+: ops → Holds (run done start)

/-! ## Links for single runs -/

namespace Sample

/-- A link to the peer with this IPv4 address. -/
def link (ifname : String) (gateway : BitVec 32) (connection group : UInt32) : Link :=
  ⟨ifname, "key", .v4 gateway, ⟨connection⟩, ⟨group⟩⟩

/-- The network `192.168.1.0/24`, a destination behind peers. -/
def lan : Prefix := ⟨.v4 0xC0A80100#32, 24, by decide⟩

end Sample

end OverlayRouting
