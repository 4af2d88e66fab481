/-
# OverlayRouting.Proofs.Accounting -- what the reported changes account for

Every group is kept under its own number (`run_named`), so the changes that name a group are its
own, and what a walk over the groups reports is what each of them reports
(`Group.Accounts.traverse`).  Admitting addresses again moves nothing, so balances add up over
the passes of an apply (`Router.commitPasses_balances`).

Over a run, probe rounds balance, and an apply balances but for what it abandons
(`accounted`); with that it need not (`silent_withdrawal`).
-/
import OverlayRouting.Proofs.Balances
import OverlayRouting.Proofs.Requests
import OverlayRouting.RoutingTable.Memory

namespace OverlayRouting

set_option autoImplicit false

section Walks

variable {σ : Type}

theorem SortedMap.get?_traverse {κ α β : Type} [Ranked κ] (map : SortedMap κ α)
    (visit : κ → α → σ → β × σ) (state : σ) (key : κ) :
    ∃ seen, (map.traverse visit state).1.get? key =
      (map.get? key).map fun x => (visit key x seen).1 :=
  (map.get?_traverse_within (fun _ _ _ (_ : True) => trivial) trivial key).imp fun _ => And.right

theorem Entries.lookup_traverse_eq_none {κ α β : Type} [Ranked κ] (visit : κ → α → σ → β × σ)
    {entries : List (κ × α)} {key : κ} (absent : lookup key entries = none) (state : σ) :
    lookup key (traverse visit entries state).1 = none := by
  obtain ⟨seen, -, found⟩ :=
    lookup_traverse_within (fun _ _ _ (_ : True) => trivial) key entries trivial
  rw [found, absent]
  rfl

/-- A walk over groups that are kept under their own numbers reports what it does to the one with
a number; the changes of the others are of other groups. -/
theorem Group.Accounts.traverse {visit : Group → σ → Group.Settled × σ} {c : ConnectionId}
    {silent : Group → σ → Nat} (accounts : Group.Accounts visit c silent) (id : GroupId)
    {entries : List (GroupId × Group)} (increasing : Entries.Increasing entries)
    (known : ∀ entry ∈ entries, entry.2.Sound ∧ entry.2.services.group = entry.1) (table : σ) :
    let settled := (Entries.traverse (fun _ group table => visit group table) entries table).1
    let lost := (Entries.traverse
      (fun _ group table => (silent group table, (visit group table).2)) entries table).1
    Balances id c ((Entries.lookup id entries).elim 0 (·.services.carriedBy c))
      ((Entries.lookup id lost).getD 0 + (Entries.lookup id settled).elim 0 (·.carriedBy c))
      (settled.flatMap (·.2.changes)) := by
  induction entries generalizing table with
  | nil => exact .refl _ _ _
  | cons head rest ih =>
      obtain ⟨key, group⟩ := head
      obtain ⟨below, rest_increasing⟩ := List.pairwise_cons.1 increasing
      obtain ⟨sound, own⟩ := known (key, group) List.mem_cons_self
      obtain ⟨here, named⟩ := accounts group sound table
      have others := ih rest_increasing (fun entry member => known entry (List.mem_cons_of_mem _ member))
        (visit group table).2
      simp only at own others
      simp only [Entries.traverse, Entries.lookup, rank_eq_iff, List.flatMap_cons]
      by_cases same : key = id
      · subst same
        have absent : Entries.lookup key rest = none := Entries.lookup_eq_none_of_below below
        rw [Entries.lookup_traverse_eq_none _ absent, Entries.lookup_traverse_eq_none _ absent,
          absent] at others
        simp only [if_true]
        exact (own ▸ here).append others
      · simp only [if_neg same]
        have elsewhere : Balances id c 0 0 (visit group table).1.changes :=
          .of_foreign (own ▸ same) named
        simpa only [Nat.zero_add] using elsewhere.append others

end Walks

/-! ## The router -/

namespace Router

/-- Every group is kept under its own number. -/
abbrev Named : Router → Prop := Each fun id group => group.services.group = id

theorem steady_named :
    Group.Steady (fun _ _ => True) fun id group => group.services.group = id where
  empty _ _ _ := rfl
  addPeer _ _ _ _ _ own := own
  addService _ _ _ _ _ own := own
  removePeer _ _ _ own := own
  removeService _ group link net own := by
    unfold Services.remove
    split <;> exact own
  enablePeer _ _ _ own := own
  enableService _ group net own := by
    unfold Services.enable
    split
    · exact own
    · split <;> exact own
  margins _ _ _ own := own

section Named

variable {σ : Type} [RoutingTable σ] {router : Router}

omit [RoutingTable σ] in
theorem Named.walk (named : router.Named) {visit : Group → σ → Group.Settled × σ} (table : σ)
    (same : ∀ (group : Group) table after, (visit group table).1.kept = some after →
      after.services.group = group.services.group) : (router.walk visit table).1.router.Named := by
  intro id after stands
  obtain ⟨group, seen, found, kept⟩ := of_get?_walk stands
  exact (same group seen after kept).trans (named id group found)

theorem Named.commitOnce (named : router.Named) (table : σ) : (router.commitOnce table).1.router.Named :=
  named.walk table fun group table after kept => by
    rcases (Group.kept_commit kept).2 with same | withdrawn
    · rw [same]
      rfl
    · rw [withdrawn]
      rfl

theorem Named.apply (named : router.Named) (table : σ) : (router.apply table).2.1.Named :=
  apply_induction (motive := fun state => state.1.Named) router table named
    (fun _ table named => named.commitOnce table) fun _ _ named => steady_named.resolve named

theorem Named.ping (named : router.Named) (tallies : Tallies) (table : σ) :
    (router.ping tallies table).2.1.Named :=
  named.walk table fun group table after kept => by
    cases kept
    simp only
    split <;> rfl

end Named

/-- How many destinations of a group a connection carries. -/
def carriedBy (router : Router) (id : GroupId) (c : ConnectionId) : Nat :=
  (router.groups.get? id).elim 0 (·.services.carriedBy c)

/-! ### Resolutions -/

theorem carriedBy_setGroup {router : Router} {id : GroupId} {group left : Group}
    (found : router.groups.get? id = some group) {c : ConnectionId}
    (same : left.services.carriedBy c = group.services.carriedBy c) (other : GroupId) :
    (router.setGroup id left).carriedBy other c = router.carriedBy other c := by
  unfold carriedBy
  rw [Router.setGroup, SortedMap.get?_insert]
  split
  · rename_i here
    rw [← rank_inj here, found]
    exact same
  · rfl

theorem carriedBy_resolve {router : Router} (sound : router.Sound) (id : GroupId) (c : ConnectionId) :
    router.resolve.2.carriedBy id c = router.carriedBy id c := by
  refine (resolve_induction (motive := fun progress =>
    progress.2.Sound ∧ progress.2.carriedBy id c = router.carriedBy id c) router ⟨sound, rfl⟩ ?_).2
  rintro held kind other net count router group _ found ⟨sound, same⟩
  have here := sound other group found
  refine ⟨sound.setGroup other (Held.sound_enable kind here net), Eq.trans ?_ same⟩
  refine carriedBy_setGroup found ?_ id
  cases kind with
  | peers => rfl
  | services => exact Services.carriedBy_enable here.services net c

/-! ### Walks -/

variable {σ : Type}

/-- How many destinations of a group a walk leaves out of its report. -/
def unreported (router : Router) (visit : Group → σ → Group.Settled × σ) (silent : Group → σ → Nat)
    (id : GroupId) (table : σ) : Nat :=
  ((router.groups.traverse (fun _ group table => (silent group table, (visit group table).2))
    table).1.get? id).getD 0

theorem walk_balances {visit : Group → σ → Group.Settled × σ} {c : ConnectionId}
    {silent : Group → σ → Nat} (accounts : Group.Accounts visit c silent) {router : Router}
    (sound : router.Sound) (named : router.Named) (id : GroupId) (table : σ) :
    Balances id c (router.carriedBy id c)
      (router.unreported visit silent id table + (router.walk visit table).1.router.carriedBy id c)
      (router.walk visit table).1.changes := by
  have walked := accounts.traverse id router.groups.increasing (fun entry member => by
    have stands := (router.groups.mem_entries_iff entry.1 entry.2).1 member
    exact ⟨sound entry.1 entry.2 stands, named entry.1 entry.2 stands⟩) table
  have left : (router.walk visit table).1.router.carriedBy id c =
      ((router.groups.traverse (fun _ group table => visit group table) table).1.get? id).elim 0
        (·.carriedBy c) := by
    simp only [carriedBy, walk, SortedMap.get?_filterMap]
    cases (router.groups.traverse (fun _ group table => visit group table) table).1.get? id <;> rfl
  have told : (router.walk visit table).1.changes =
      (Entries.traverse (fun _ group table => visit group table) router.groups.entries
        table).1.flatMap (·.2.changes) := by
    simp only [walk, SortedMap.values, List.flatMap_map]
    rfl
  rw [left, told]
  exact walked

variable [RoutingTable σ]

/-- How many destinations that a connection carries a group gives up in at most `fuel` passes
because it is left without peers. -/
def abandonedIn (id : GroupId) (c : ConnectionId) : Nat → Router → σ → Nat
  | 0, _, _ => 0
  | fuel + 1, router, table =>
      let (walked, left) := router.commitOnce table
      let (resolved, after) := walked.router.resolve
      router.unreported Group.commit (Group.abandoned c) id table +
        if resolved = 0 then 0 else abandonedIn id c fuel after left

/-- How many destinations that a connection carries a group gives up in an apply. -/
def abandoned (router : Router) (id : GroupId) (c : ConnectionId) (table : σ) : Nat :=
  abandonedIn id c mostPasses router table

theorem commitPasses_balances {router : Router} (sound : router.Sound) (named : router.Named)
    {id : GroupId} {c : ConnectionId} {before lost : Nat} (fuel : Nat) (report : Report) (table : σ)
    (so_far : Balances id c before (lost + router.carriedBy id c) report.changes) :
    let applied := commitPasses fuel report router table
    Balances id c before
      (lost + abandonedIn id c fuel router table + applied.2.1.carriedBy id c)
      applied.1.changes := by
  induction fuel generalizing router table report lost with
  | zero => exact so_far
  | succ fuel ih =>
      have pass := so_far.trans (walk_balances (Group.commit_accounts c) sound named id table)
      rw [← Nat.add_assoc] at pass
      have left_sound := sound.commitOnce table
      have resolved := carriedBy_resolve left_sound id c
      simp only [commitPasses, abandonedIn]
      split
      · rw [Nat.add_zero, resolved]
        exact pass
      · rw [← Nat.add_assoc]
        refine ih left_sound.resolve (steady_named.resolve (named.commitOnce table)) _ _ ?_
        rw [resolved]
        exact pass

theorem apply_balances {router : Router} (sound : router.Sound) (named : router.Named)
    (id : GroupId) (c : ConnectionId) (table : σ) :
    let applied := router.apply table
    Balances id c (router.carriedBy id c)
      (router.abandoned id c table + applied.2.1.carriedBy id c) applied.1.changes := by
  have begins : Balances id c (router.carriedBy id c) (0 + router.carriedBy id c) [] := by
    rw [Nat.zero_add]
    exact .refl _ _ _
  have passes := commitPasses_balances sound named mostPasses {} table begins
  rwa [Nat.zero_add] at passes

theorem ping_balances {router : Router} (sound : router.Sound) (named : router.Named)
    (id : GroupId) (c : ConnectionId) (tallies : Tallies) (table : σ) :
    let pinged := router.ping tallies table
    Balances id c (router.carriedBy id c) (pinged.2.1.carriedBy id c) pinged.1 := by
  have walked := walk_balances (Group.ping_accounts tallies c) sound named id table
  have nothing : router.unreported (·.ping tallies) (fun _ _ => 0) id table = 0 := by
    unfold unreported
    obtain ⟨seen, found⟩ := router.groups.get?_traverse
      (fun _ group table => (0, (group.ping tallies table).2)) table id
    rw [found]
    cases router.groups.get? id <;> rfl
  rw [nothing, Nat.zero_add] at walked
  exact walked

end Router

/-! ## Runs -/

section Runs

variable {σ : Type} [RoutingTable σ]

theorem Operation.named_step {state : Router × σ} (named : state.1.Named) (op : Operation σ) :
    (op.step state).1.Named := by
  obtain ⟨router, table⟩ := state
  cases op with
  | add link nets => exact Router.steady_named.add named link nets fun _ _ _ => trivial
  | remove link nets => exact Router.steady_named.remove named link nets
  | apply => exact Router.Named.apply named table
  | ping tallies => exact Router.Named.ping named tallies table
  | setMargins margins => exact Router.steady_named.setMargins named margins
  | flush => exact Router.each_fresh _ router.settings
  | close =>
      simp only [step, Router.close]
      split <;> exact Router.each_fresh _ router.settings
  | outside change => exact named

theorem run_named (settings : RouterSettings) (table : σ) (ops : List (Operation σ)) :
    (run ops (Router.fresh settings table)).1.Named :=
  run_induction (motive := fun state => state.1.Named) ops (Router.each_fresh _ settings)
    fun op _ _ named => op.named_step named

/-- In every state that a run reaches, over any table, the changes that an apply reports account
for what each connection carries of each group, but for what a group gives up because it is left
without peers; those of a probe round account for all of it. -/
theorem accounted (settings : RouterSettings) (table : σ) (ops : List (Operation σ)) (id : GroupId)
    (c : ConnectionId) :
    let state := run ops (Router.fresh settings table)
    Balances id c (state.1.carriedBy id c)
      (state.1.abandoned id c state.2 + (state.1.apply state.2).2.1.carriedBy id c)
      (state.1.apply state.2).1.changes ∧
    ∀ tallies, Balances id c (state.1.carriedBy id c)
      ((state.1.ping tallies state.2).2.1.carriedBy id c) (state.1.ping tallies state.2).1 := by
  intro state
  have sound : state.1.Sound := run_sound settings table ops
  have named : state.1.Named := run_named settings table ops
  exact ⟨Router.apply_balances sound named id c state.2,
    fun tallies => Router.ping_balances sound named id c tallies state.2⟩

end Runs

/-- The last peer of a group goes, and with it a network that nobody let go; nothing is
reported. -/
theorem silent_withdrawal :
    let peer := Sample.link "wg1" 0x0A000001#32 1 1
    let state := run [.add peer [peer.host, Sample.lan], .apply, .remove peer [peer.host]]
      (Router.fresh {} ({} : MemoryTable))
    let applied := state.1.apply state.2
    ¬ Balances ⟨1⟩ ⟨1⟩ (state.1.carriedBy ⟨1⟩ ⟨1⟩) (applied.2.1.carriedBy ⟨1⟩ ⟨1⟩)
      applied.1.changes := by
  decide +kernel

end OverlayRouting
