/-
# OverlayRouting.Proofs.RoundOrder -- a round counts alike in every order

The devices of a round finish in any order, and what they found is merged as it comes.  The
counters of an address stop at the largest count, and adding up to a limit does not depend on the
order (`toNat_foldl`).  So in every order they are the capped sums of what each device adds
(`counter_merge`), and the addresses are those that some device adds (`isSome_merge`).

The last round-trip time and the average do depend on the order.  They belong to one address, and
devices that do not add it leave it as it is (`get?_merge_filter`), so with a single device that
adds it they are the same in every order.  The result for all devices, answers and orders is
`counts_once`.
-/
import Mathlib
import OverlayRouting.Probe.Round

namespace OverlayRouting

set_option autoImplicit false

/-! ## Adding up to a limit -/

theorem toNat_le_countLimit (count : UInt64) : count.toNat ≤ countLimit :=
  Nat.le_pred_of_lt count.toNat_lt_size

/-- A counter to which every step adds something holds the sum of it, up to the limit. -/
theorem toNat_foldl {α : Type} {step : Tallies → α → Tallies} {amount : α → Nat}
    (counter : Tallies → UInt64) (adds : ∀ tallies item, (counter (step tallies item)).toNat =
      min ((counter tallies).toNat + amount item) countLimit) (items : List α) (start : Tallies) :
    (counter (items.foldl step start)).toNat =
      min ((counter start).toNat + (items.map amount).sum) countLimit := by
  induction items generalizing start with
  | nil =>
      have := toNat_le_countLimit (counter start)
      simp only [List.foldl_nil, List.map_nil, List.sum_nil]
      omega
  | cons item rest ih =>
      simp only [List.foldl_cons, List.map_cons, List.sum_cons, ih, adds]
      omega

theorem toNat_eq_min (count : UInt64) : count.toNat = min (count.toNat + 0) countLimit := by
  have := toNat_le_countLimit count
  omega

/-- The two counters of a tally. -/
inductive Counter where
  | sent
  | received

/-- What one lost round of probes to a target adds to a counter. -/
def Counter.lost : Counter → UInt32 → Nat
  | .sent, count => count.toNat
  | .received, _ => 0

/-! ## Tallies of one address -/

namespace Tally

def counter : Counter → Tally → UInt64
  | .sent, tally => tally.sent
  | .received, tally => tally.received

theorem counter_merge (counter : Counter) (earlier later : Tally) :
    (earlier.merge later).counter counter =
      cappedSum (earlier.counter counter) (later.counter counter) := by
  cases counter <;> rfl

theorem counter_send (counter : Counter) (tally : Tally) (count : UInt32) :
    ((tally.send count.toUInt64).counter counter).toNat =
      min ((tally.counter counter).toNat + counter.lost count) countLimit := by
  cases counter with
  | sent => rw [Tally.counter, send, toNat_cappedSum, UInt32.toNat_toUInt64]; rfl
  | received => exact toNat_eq_min _

end Tally

namespace Tallies

theorem get?_send (tallies : Tallies) (target : Address) (times : UInt64) (address : Address) :
    (tallies.send target times).get? address =
      if times ≠ 0 ∧ target = address then some ((tallies.tally address).send times)
      else tallies.get? address := by
  rw [send]
  by_cases nothing : times = 0
  · simp [nothing]
  · simp [nothing, get?_update]

theorem tally_send (tallies : Tallies) (target : Address) (times : UInt64) (address : Address) :
    (tallies.send target times).tally address =
      if target = address then (tallies.tally address).send times else tallies.tally address := by
  rw [tally, get?_send]
  by_cases here : target = address
  · by_cases nothing : times = 0
    · simp [here, nothing, tally, Tally.send, cappedSum_zero]
    · simp [here, nothing]
  · simp [here, tally]

theorem counter_merge (counter : Counter) (earlier later : Tallies) (address : Address) :
    ((earlier.merge later).tally address).counter counter =
      cappedSum ((earlier.tally address).counter counter)
        ((later.tally address).counter counter) := by
  simp only [tally, get?_merge]
  cases later.get? address with
  | none => cases counter <;> exact (cappedSum_zero _).symm
  | some found => exact Tally.counter_merge counter _ found

end Tallies

namespace Round

/-! ## One device -/

namespace Contribution

/-- What a device adds to a counter of an address. -/
def amount (counter : Counter) (address : Address) : Contribution → Nat
  | .answered results => ((results.tally address).counter counter).toNat
  | .lost targets count => counter.lost count * targets.count address

/-- Does a device add an address? -/
def adds (address : Address) : Contribution → Bool
  | .answered results => (results.get? address).isSome
  | .lost targets count => count ≠ 0 && address ∈ targets

variable {counter : Counter} {address : Address} {tallies tallies' : Tallies}

@[simp] theorem amount_answered (results : Tallies) :
    (answered results).amount counter address =
      ((results.tally address).counter counter).toNat := rfl

@[simp] theorem amount_lost (targets : List Address) (count : UInt32) :
    (lost targets count).amount counter address =
      counter.lost count * targets.count address := rfl

@[simp] theorem adds_answered (results : Tallies) :
    (answered results).adds address = (results.get? address).isSome := rfl

@[simp] theorem adds_lost (targets : List Address) (count : UInt32) :
    (lost targets count).adds address = (count ≠ 0 && address ∈ targets) := rfl

theorem sum_count (targets : List Address) (amount : Nat) (address : Address) :
    (targets.map fun target => if target = address then amount else 0).sum =
      amount * targets.count address := by
  induction targets with
  | nil => rfl
  | cons target rest ih =>
      rw [List.map_cons, List.sum_cons, ih, List.count_cons]
      by_cases here : target = address
      · simp only [here, if_true, beq_self_eq_true]
        rw [Nat.mul_add, Nat.mul_one, Nat.add_comm]
      · simp [here]

theorem toUInt64_eq_zero_iff (count : UInt32) : count.toUInt64 = 0 ↔ count = 0 := by
  rw [← UInt64.toNat_inj, ← UInt32.toNat_inj, UInt32.toNat_toUInt64]
  rfl

/-- A device adds its amount to a counter of an address. -/
theorem counter_addTo (counter : Counter) (contribution : Contribution) (tallies : Tallies)
    (address : Address) :
    (((contribution.addTo tallies).tally address).counter counter).toNat =
      min (((tallies.tally address).counter counter).toNat + contribution.amount counter address)
        countLimit := by
  cases contribution with
  | answered results => rw [addTo, Tallies.counter_merge, toNat_cappedSum, amount]
  | lost targets count =>
      rw [addTo, amount, ← sum_count]
      refine toNat_foldl (fun tallies => (tallies.tally address).counter counter) ?_ targets tallies
      intro tallies target
      rw [Tallies.tally_send]
      split
      · exact Tally.counter_send counter _ count
      · exact toNat_eq_min _

theorem isSome_addTo (contribution : Contribution) (tallies : Tallies) (address : Address) :
    ((contribution.addTo tallies).get? address).isSome =
      ((tallies.get? address).isSome || contribution.adds address) := by
  cases contribution with
  | answered results =>
      rw [addTo, Tallies.get?_merge, adds]
      cases results.get? address <;> simp
  | lost targets count =>
      rw [addTo, adds]
      induction targets generalizing tallies with
      | nil => simp
      | cons target rest ih =>
          rw [List.foldl_cons, ih, Tallies.get?_send]
          by_cases nothing : count = 0
          · simp [nothing]
          · by_cases here : target = address
            · simp [nothing, here, toUInt64_eq_zero_iff]
            · simp [nothing, here, Ne.symm here]

/-- What a device makes of an address depends on nothing but what was known of that address. -/
theorem get?_addTo_congr (contribution : Contribution)
    (same : tallies.get? address = tallies'.get? address) :
    (contribution.addTo tallies).get? address = (contribution.addTo tallies').get? address := by
  cases contribution with
  | answered results =>
      simp only [addTo, Tallies.get?_merge, Tallies.tally, same]
  | lost targets count =>
      rw [addTo, addTo]
      induction targets generalizing tallies tallies' with
      | nil => exact same
      | cons target rest ih =>
          refine ih ?_
          simp only [Tallies.get?_send, Tallies.tally, same]

/-- A device that does not add an address leaves it as it is. -/
theorem get?_addTo_of_not_adds {contribution : Contribution}
    (apart : contribution.adds address = false) (tallies : Tallies) :
    (contribution.addTo tallies).get? address = tallies.get? address := by
  cases contribution with
  | answered results =>
      rw [adds, Option.isSome_eq_false_iff, Option.isNone_iff_eq_none] at apart
      rw [addTo, Tallies.get?_merge, apart]
  | lost targets count =>
      rw [addTo]
      induction targets generalizing tallies with
      | nil => rfl
      | cons target rest ih =>
          simp only [adds, Bool.and_eq_false_iff, decide_eq_false_iff_not, not_not, List.mem_cons,
            not_or] at apart
          rw [List.foldl_cons, ih, Tallies.get?_send, if_neg]
          · rintro ⟨some_count, rfl⟩
            rcases apart with nothing | ⟨other, -⟩
            · exact some_count ((toUInt64_eq_zero_iff count).2 nothing)
            · exact other rfl
          · rcases apart with nothing | ⟨-, later⟩
            · simp [adds, nothing]
            · simp [adds, later]

end Contribution

/-! ## All devices -/

theorem counter_merge (counter : Counter) (contributions : List Contribution)
    (address : Address) :
    (((merge contributions).tally address).counter counter).toNat =
      min (contributions.map (·.amount counter address)).sum countLimit := by
  rw [merge, toNat_foldl (fun tallies => (tallies.tally address).counter counter)
    fun tallies contribution => contribution.counter_addTo counter tallies address]
  have nothing : ((∅ : Tallies).tally address).counter counter = 0 := by cases counter <;> rfl
  rw [nothing, UInt64.toNat_zero, Nat.zero_add]

theorem isSome_merge (contributions : List Contribution) (address : Address) :
    ((merge contributions).get? address).isSome = contributions.any (·.adds address) := by
  have fold (start : Tallies) : ((contributions.foldl Contribution.addTo start).get? address).isSome
      = ((start.get? address).isSome || contributions.any (·.adds address)) := by
    induction contributions generalizing start with
    | nil => simp
    | cons contribution rest ih =>
        rw [List.foldl_cons, ih, contribution.isSome_addTo, Bool.or_assoc, List.any_cons]
  exact fold ∅

/-- Only the devices that add an address matter for it. -/
theorem get?_merge_filter (contributions : List Contribution) (address : Address) :
    (merge contributions).get? address =
      (merge (contributions.filter (·.adds address))).get? address := by
  have fold (start start' : Tallies) (same : start.get? address = start'.get? address) :
      (contributions.foldl Contribution.addTo start).get? address =
        ((contributions.filter (·.adds address)).foldl Contribution.addTo start').get? address := by
    induction contributions generalizing start start' with
    | nil => exact same
    | cons contribution rest ih =>
        by_cases here : contribution.adds address = true
        · rw [List.filter_cons_of_pos here]
          exact ih _ _ (contribution.get?_addTo_congr same)
        · rw [List.filter_cons_of_neg here]
          rw [Bool.not_eq_true] at here
          exact ih _ _ ((Contribution.get?_addTo_of_not_adds here start).trans same)
  exact fold ∅ ∅ rfl

/-! ## Devices and their answers -/

/-- A device of a round, and how probing it ends. -/
structure Asked where
  device : Device
  answer : Answer

namespace Asked

variable {asked : Asked} {count : UInt32} {timeout : Span} {address : Address}

/-- Is there something to probe through the device? -/
def isProbed (asked : Asked) : Bool := !asked.device.targets.isEmpty

/-- What was measured, if it was told in time. -/
def results? (timeout : Span) (asked : Asked) : Option Tallies :=
  if timeout.nanos < asked.answer.delay.nanos then none
  else match asked.answer.outcome with
    | some (.ok tallies) => some tallies
    | _ => none

/-- Probing ended with an error, or was not over in time. -/
def failed (timeout : Span) (asked : Asked) : Bool :=
  timeout.nanos < asked.answer.delay.nanos || match asked.answer.outcome with
    | some (.error _) => true
    | _ => false

/-- Is the address one of those that were measured, or that count as lost? -/
def adds (count : UInt32) (timeout : Span) (address : Address) (asked : Asked) : Bool :=
  match asked.results? timeout with
  | some results => (results.get? address).isSome
  | none => asked.failed timeout && (count ≠ 0 && address ∈ asked.device.targets)

/-- The part of the device in a round. -/
def part (count : UInt32) (timeout : Span) (asked : Asked) : Part :=
  Round.part (fun _ _ _ => asked.answer) count timeout asked.device

/-- What the device adds to a round. -/
def contribution (count : UInt32) (timeout : Span) (asked : Asked) : Option Contribution :=
  (asked.part count timeout).contribution

/-- How probing a device ends with some pinger. -/
def asking (pinger : Pinger) (count : UInt32) (device : Device) : Asked :=
  ⟨device, pinger device.ifname device.targets count⟩

/-- A device tells what it measured, or fails, or breaks off. -/
theorem contribution_cases (count : UInt32) (timeout : Span) (asked : Asked) :
    (∃ results, asked.results? timeout = some results ∧ asked.failed timeout = false ∧
      asked.contribution count timeout = some (.answered results)) ∨
    (asked.results? timeout = none ∧ asked.failed timeout = true ∧
      asked.contribution count timeout = some (.lost asked.device.targets count)) ∨
    (asked.results? timeout = none ∧ asked.failed timeout = false ∧
      asked.contribution count timeout = none) := by
  obtain ⟨device, delay, outcome⟩ := asked
  by_cases late : timeout.nanos < delay.nanos
  · simp [results?, failed, contribution, part, Round.part, late]
  · rcases outcome with _ | _ | tallies <;>
      simp [results?, failed, contribution, part, Round.part, late]

end Asked

/-! ## Every order -/

section

variable {count : UInt32} {timeout : Span} {address : Address}

/-- What the devices measured that told it in time. -/
def results (timeout : Span) (devices : List Asked) : List Tallies :=
  (devices.filter Asked.isProbed).filterMap (Asked.results? timeout)

/-- The targets of the devices that failed, as often as they are targets. -/
def missed (timeout : Span) (devices : List Asked) : List Address :=
  ((devices.filter Asked.isProbed).filter (Asked.failed timeout)).flatMap (·.device.targets)

/-- The tallies that a round may have, whichever order its devices finish in. -/
def Yields (count : UInt32) (timeout : Span) (devices : List Asked) (tallies : Tallies) : Prop :=
  ∃ order : List Part, order.Perm ((devices.filter Asked.isProbed).map (Asked.part count timeout)) ∧
    merge (order.filterMap Part.contribution) = tallies

/-- An address has the counters that all devices together give it, and is known if one of them
adds it. -/
structure Counted (count : UInt32) (timeout : Span) (devices : List Asked) (address : Address)
    (tallies : Tallies) : Prop where
  sent : (tallies.tally address).sent.toNat =
    min (((results timeout devices).map fun store => (store.tally address).sent.toNat).sum +
      count.toNat * (missed timeout devices).count address) countLimit
  received : (tallies.tally address).received.toNat =
    min ((results timeout devices).map fun store => (store.tally address).received.toNat).sum
      countLimit
  known : (tallies.get? address).isSome = true ↔
    (∃ store ∈ results timeout devices, (store.get? address).isSome = true) ∨
      count ≠ 0 ∧ address ∈ missed timeout devices

theorem sum_amount (counter : Counter) (count : UInt32) (timeout : Span) (devices : List Asked)
    (address : Address) :
    ((devices.filterMap (Asked.contribution count timeout)).map (·.amount counter address)).sum =
      ((devices.filterMap (Asked.results? timeout)).map
          fun store => ((store.tally address).counter counter).toNat).sum +
        counter.lost count *
          ((devices.filter (Asked.failed timeout)).flatMap (·.device.targets)).count address := by
  induction devices with
  | nil => rfl
  | cons asked rest ih =>
      rcases asked.contribution_cases count timeout with
        ⟨results, told, fine, adds⟩ | ⟨silent, failed, adds⟩ | ⟨silent, fine, adds⟩
      · simp [told, fine, adds, ih, Nat.add_assoc]
      · simp [silent, failed, adds, ih, Nat.mul_add]
        omega
      · simp [silent, fine, adds, ih]

theorem any_adds (count : UInt32) (timeout : Span) (devices : List Asked) (address : Address) :
    (devices.filterMap (Asked.contribution count timeout)).any (·.adds address) = true ↔
      (∃ store ∈ devices.filterMap (Asked.results? timeout), (store.get? address).isSome = true) ∨
        count ≠ 0 ∧
          address ∈ (devices.filter (Asked.failed timeout)).flatMap (·.device.targets) := by
  induction devices with
  | nil => simp
  | cons asked rest ih =>
      rcases asked.contribution_cases count timeout with
        ⟨results, told, fine, adds⟩ | ⟨silent, failed, adds⟩ | ⟨silent, fine, adds⟩
      · rw [List.filterMap_cons_some adds, List.any_cons, Bool.or_eq_true, ih,
          List.filterMap_cons_some told, List.filter_cons_of_neg (by simp [fine])]
        simp only [Contribution.adds_answered, List.mem_cons, exists_eq_or_imp, or_assoc]
      · rw [List.filterMap_cons_some adds, List.any_cons, Bool.or_eq_true, ih,
          List.filterMap_cons_none silent, List.filter_cons_of_pos failed, List.flatMap_cons,
          List.mem_append, Contribution.adds_lost, Bool.and_eq_true, decide_eq_true_iff,
          decide_eq_true_iff, and_or_left, or_left_comm]
      · rw [List.filterMap_cons_none adds, ih, List.filterMap_cons_none silent,
          List.filter_cons_of_neg (by simp [fine])]

/-- The devices that add an address, and what they add. -/
theorem countP_adds (count : UInt32) (timeout : Span) (devices : List Asked) (address : Address) :
    (devices.filterMap (Asked.contribution count timeout)).countP (·.adds address) =
      devices.countP (Asked.adds count timeout address) := by
  rw [List.countP_filterMap]
  refine List.countP_congr fun asked _ => ?_
  rcases asked.contribution_cases count timeout with
    ⟨results, told, fine, adds⟩ | ⟨silent, failed, adds⟩ | ⟨silent, fine, adds⟩
  · simp [told, adds, Asked.adds]
  · simp [silent, failed, adds, Asked.adds]
  · simp [silent, fine, adds, Asked.adds]

variable {devices : List Asked} {tallies tallies' : Tallies}

/-- Every order merges the same contributions. -/
theorem Yields.exists_perm (yields : Yields count timeout devices tallies) :
    ∃ contributions : List Contribution, merge contributions = tallies ∧ contributions.Perm
      ((devices.filter Asked.isProbed).filterMap (Asked.contribution count timeout)) := by
  obtain ⟨order, perm, merged⟩ := yields
  refine ⟨_, merged, ?_⟩
  have mapped := perm.filterMap Part.contribution
  rwa [List.filterMap_map] at mapped

theorem Yields.counter_eq (yields : Yields count timeout devices tallies) (counter : Counter)
    (address : Address) :
    ((tallies.tally address).counter counter).toNat =
      min (((results timeout devices).map
          fun store => ((store.tally address).counter counter).toNat).sum +
        counter.lost count * (missed timeout devices).count address) countLimit := by
  obtain ⟨contributions, rfl, perm⟩ := yields.exists_perm
  rw [counter_merge, (perm.map _).sum_nat, sum_amount, results, missed]

theorem Yields.counted (yields : Yields count timeout devices tallies) (address : Address) :
    Counted count timeout devices address tallies := by
  refine ⟨yields.counter_eq .sent address, ?_, ?_⟩
  · have received := yields.counter_eq .received address
    rwa [Counter.lost, Nat.zero_mul, Nat.add_zero] at received
  · obtain ⟨contributions, rfl, perm⟩ := yields.exists_perm
    rw [isSome_merge, perm.any_eq, any_adds, results, missed]

theorem Yields.get?_eq (yields : Yields count timeout devices tallies)
    (yields' : Yields count timeout devices tallies')
    (single : (devices.filter Asked.isProbed).countP (Asked.adds count timeout address) ≤ 1) :
    tallies.get? address = tallies'.get? address := by
  obtain ⟨contributions, rfl, perm⟩ := yields.exists_perm
  obtain ⟨contributions', rfl, perm'⟩ := yields'.exists_perm
  have same := (perm.trans perm'.symm).filter (·.adds address)
  have few : (contributions'.filter (·.adds address)).length ≤ 1 := by
    rwa [← List.countP_eq_length_filter, perm'.countP_eq, countP_adds]
  rw [get?_merge_filter contributions, get?_merge_filter contributions']
  generalize contributions'.filter (·.adds address) = others at same few
  cases others with
  | nil => rw [List.perm_nil.1 same]
  | cons contribution rest =>
      -- there is only this one, and so nothing to be in another order
      rw [List.length_cons] at few
      have alone : rest = [] := List.length_eq_zero_iff.1 (by omega)
      rw [alone] at same
      rw [alone, List.perm_singleton.1 same]

/-- A round finishes in one of the orders. -/
theorem run_yields (pinger : Pinger) (listed : List Device) (count : UInt32) (timeout : Span) :
    Yields count timeout (listed.map (Asked.asking pinger count))
      (run pinger listed count timeout).tallies := by
  refine ⟨_, ?_, rfl⟩
  rw [List.filter_map, List.map_map]
  exact List.mergeSort_perm _ _

end

/-- Whichever devices are asked, whatever they answer and in whichever order they finish: the
counters of an address are the sums of what all devices add, and the tally of an address that at
most one device adds does not depend on the order.  A round finishes in one of these orders. -/
theorem counts_once (devices : List Asked) (count : UInt32) (timeout : Span) :
    (∀ tallies, Yields count timeout devices tallies →
      ∀ address, Counted count timeout devices address tallies) ∧
    (∀ address, (devices.filter Asked.isProbed).countP (Asked.adds count timeout address) ≤ 1 →
      ∀ tallies tallies', Yields count timeout devices tallies →
        Yields count timeout devices tallies' → tallies.get? address = tallies'.get? address) ∧
    ∀ pinger listed, Yields count timeout (listed.map (Asked.asking pinger count))
      (run pinger listed count timeout).tallies :=
  ⟨fun _ yields address => yields.counted address,
    fun _ single _ _ yields yields' => yields.get?_eq yields' single,
    fun pinger listed => run_yields pinger listed count timeout⟩

end Round

namespace Sample

/-- A device with these targets, and how probing it ends. -/
def asked (targets : List (BitVec 32)) (delay : UInt64) (outcome : Except Error Tallies) :
    Round.Asked where
  device := { ifname := "wg", publicKey := "", peers := targets.map fun target =>
    { publicKey := "", allowed := [.host (.v4 target)] } }
  answer := ⟨.millis delay, some outcome⟩

/-- Two devices that measured one address both, and one that failed with it as a target. -/
def threeDevices : List Round.Asked :=
  [asked [0x0A000001#32] 5 (.ok (.ofList [
      (.v4 0x0A000001#32, { sent := 3, received := 3, rtt := 20, average := 20 }),
      (.v4 0x0A000009#32, { sent := 3, received := 3, rtt := 30, average := 30 })])),
    asked [0x0A000002#32] 2 (.ok (.ofList [
      (.v4 0x0A000002#32, { sent := 3, received := 3, rtt := 40, average := 40 }),
      (.v4 0x0A000009#32, { sent := 3, received := 2, rtt := 10, average := 10 })])),
    asked [0x0A000003#32, 0x0A000009#32] 1 (.error (.probeFailed "wg" "interface down"))]

/-- The tallies of their round, with the parts in some order. -/
def merged (order : List Round.Part → List Round.Part) : Tallies :=
  Round.merge ((order ((threeDevices.filter Round.Asked.isProbed).map
    (Round.Asked.part 3 (.millis 10)))).filterMap Round.Part.contribution)

end Sample

namespace Round

/-- The other way round the counters of the common address are the same, and its last round-trip
time is not; an address of one device has the same tally. -/
theorem counts_once_reversed :
    (∀ tallies ∈ [Sample.merged id, Sample.merged List.reverse],
      (tallies.tally (.v4 0x0A000009#32)).sent.toNat = 9 ∧
        (tallies.tally (.v4 0x0A000009#32)).received.toNat = 5) ∧
    (Sample.merged id).get? (.v4 0x0A000009#32) ≠
      (Sample.merged List.reverse).get? (.v4 0x0A000009#32) ∧
    (Sample.merged id).get? (.v4 0x0A000002#32) =
      (Sample.merged List.reverse).get? (.v4 0x0A000002#32) := by
  have forward : Yields 3 (.millis 10) Sample.threeDevices (Sample.merged id) :=
    ⟨_, .refl _, rfl⟩
  have backward : Yields 3 (.millis 10) Sample.threeDevices (Sample.merged List.reverse) :=
    ⟨_, List.reverse_perm _, rfl⟩
  have counts := counts_once Sample.threeDevices 3 (.millis 10)
  have single : (Sample.threeDevices.filter Asked.isProbed).countP
      (Asked.adds 3 (.millis 10) (.v4 0x0A000002#32)) ≤ 1 := by decide +kernel
  refine ⟨fun tallies member => ?_, by decide +kernel,
    counts.2.1 _ single _ _ forward backward⟩
  have yields : Yields 3 (.millis 10) Sample.threeDevices tallies := by
    simp only [List.mem_cons, List.not_mem_nil, or_false] at member
    rcases member with rfl | rfl
    · exact forward
    · exact backward
  have counted := counts.1 tallies yields (.v4 0x0A000009#32)
  exact ⟨counted.sent.trans (by decide +kernel), counted.received.trans (by decide +kernel)⟩

end Round

end OverlayRouting
