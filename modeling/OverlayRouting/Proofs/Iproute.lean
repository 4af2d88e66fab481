/-
# OverlayRouting.Proofs.Iproute -- the ip tool over iproute2

The program that the ip tool runs is not part of it.  What is known of that program is that it
keeps an interface for each destination and reports as iproute2 does
(`IpTool.LikeIproute`); `Iproute` is one of that kind, which reads its arguments and keeps
its routes (`Iproute.likeIproute`).

Every argument is written with visible characters but the name of the interface, so only that
can keep the program from being run (`ends_changeArgs`).  A change that is run is never
reported as refused: what iproute2 refuses, because the destination has a route or has none
through the interface, is tolerated (`LikeIproute.perform`).  The line that is printed gives
the name of the interface back if it is one (`device?_printed_iff`).
-/
import Mathlib.Logic.Function.Basic
import OverlayRouting.Proofs.AddressText
import OverlayRouting.RoutingTable.IpTool

namespace OverlayRouting

set_option autoImplicit false

/-- The name of an interface has characters, and none of them is blank. -/
def IsName (name : String) : Prop := name ≠ "" ∧ ∀ c ∈ name.toList, Text.isBlank c = false

instance (name : String) : Decidable (IsName name) :=
  have := List.decidableBAll (fun c => Text.isBlank c = false) name.toList
  inferInstanceAs (Decidable (name ≠ "" ∧ _))

namespace IpTool

variable {τ : Type}

/-! ## What iproute2 does -/

/-- The words with which a change is refused. -/
def refusal? (change : Change) (ifname : String) (net : Prefix) (routes : Prefix → Option String) :
    Option String :=
  match change with
  | .add => if routes net = none then none else some "File exists"
  | .remove => if routes net = some ifname then none else some "No such process"
  | .replace => none

/-- The routes after a change; a refused one leaves them. -/
def settled (change : Change) (ifname : String) (net : Prefix) (routes : Prefix → Option String) :
    Prefix → Option String :=
  match change with
  | .add => if routes net = none then Function.update routes net (some ifname) else routes
  | .remove => if routes net = some ifname then Function.update routes net none else routes
  | .replace => Function.update routes net (some ifname)

/-- The line for a route, if there is one. -/
def printed (net : Prefix) : Option String → String
  | none => ""
  | some ifname => net.text ++ " dev " ++ ifname ++ " scope link\n"

/-- The run succeeds, or fails and says so in these words. -/
def Reports (result : RunResult) : Option String → Prop
  | none => result.succeeded = true
  | some words => result.succeeded = false ∧
      Text.contains words.toList (Text.Utf8.lenient result.stderr).toList = true

/-- What the runner keeps for the tool's table are `routes`, and it treats them as iproute2 does. -/
structure LikeIproute [IpRunner τ] (tool : IpTool τ) (routes : τ → Prefix → Option String) :
    Prop where
  change : ∀ runner change ifname gateway net, IsName ifname →
    ∃ result left, IpRunner.run (tool.changeArgs change ifname gateway net) runner =
        (some result, left) ∧
      Reports result (refusal? change ifname net (routes runner)) ∧
      routes left = settled change ifname net (routes runner)
  list : ∀ runner net,
    ∃ result left, IpRunner.run (tool.showArgs net) runner = (some result, left) ∧
      result.succeeded = true ∧
      result.stdout = Text.Utf8.encode (printed net (routes runner net)) ∧
      routes left = routes runner

/-- Whatever is refused is tolerated. -/
theorem needless_of_refusal? {change : Change} {ifname : String} {net : Prefix}
    {via : Prefix → Option String} {words : String}
    (refused : refusal? change ifname net via = some words) : needless change = some words := by
  cases change with
  | add =>
      simp only [refusal?] at refused
      split at refused
      · cases refused
      · exact refused
  | remove =>
      simp only [refusal?] at refused
      split at refused
      · cases refused
      · exact refused
  | replace => cases refused

end IpTool

/-! ## A runner of that kind -/

/-- The interface that carries the route to each destination, kept as iproute2 keeps it. -/
structure Iproute where
  routes : Prefix → Option String

namespace Iproute

open IpTool (refusal? settled printed Reports)

def change? (verb : String) : Option Change :=
  if verb = "add" then some .add
  else if verb = "del" then some .remove
  else if verb = "replace" then some .replace
  else none

/-- The value behind the option of that name. -/
def value? (name : String) : List String → Option String
  | option :: value :: rest => if option = name then some value else value? name rest
  | _ => none

def complaint (exitCode : Int) (words : String) : RunResult :=
  { stderr := Text.Utf8.encode words, exitCode }

def perform (change : Change) (ifname : String) (net : Prefix) (kept : Iproute) :
    RunResult × Iproute :=
  let result := match refusal? change ifname net kept.routes with
    | none => {}
    | some words => complaint 2 ("RTNETLINK answers: " ++ words ++ "\n")
  (result, ⟨settled change ifname net kept.routes⟩)

def answer (args : List String) (kept : Iproute) : RunResult × Iproute :=
  match args with
  | _ :: verb :: subject :: options =>
      if verb = "show" then
        match options.head? >>= Prefix.ofText? with
        | some net => ({ stdout := Text.Utf8.encode (printed net (kept.routes net)) }, kept)
        | none => (complaint 1 "Error: any valid prefix is expected.\n", kept)
      else
        match change? verb, Prefix.ofText? subject, value? "dev" options with
        | some change, some net, some ifname => perform change ifname net kept
        | _, _, _ => (complaint 255 "Usage: ip route\n", kept)
  | _ => (complaint 255 "Usage: ip route\n", kept)

instance : IpRunner Iproute where
  run args kept := (some (answer args kept).1, (answer args kept).2)

theorem value?_dev (gateway : Option String) (ifname : String) (rest : List String) :
    value? "dev" (IpTool.option "via" gateway ++ "dev" :: ifname :: rest) = some ifname := by
  cases gateway <;> simp [IpTool.option, value?]

theorem answer_changeArgs (tool : IpTool Iproute) (change : Change) (ifname : String)
    (gateway : Option Address) (net : Prefix) (kept : Iproute) :
    answer (tool.changeArgs change ifname gateway net) kept = perform change ifname net kept := by
  have verb : change.verb ≠ "show" ∧ change? change.verb = some change := by
    cases change <;> decide
  have args : tool.changeArgs change ifname gateway net = "route" :: change.verb :: net.text ::
      (IpTool.option "via" (gateway.map Address.text) ++ "dev" :: ifname ::
        (IpTool.option "metric" (IpTool.number tool.metric) ++
          IpTool.option "table" (IpTool.number tool.table))) := by
    simp [IpTool.changeArgs]
  rw [args, answer, if_neg verb.1, verb.2, Prefix.ofText?_text, value?_dev]

theorem reports_perform (change : Change) (ifname : String) (net : Prefix) (kept : Iproute) :
    Reports (perform change ifname net kept).1 (refusal? change ifname net kept.routes) := by
  rw [perform]
  cases refused : refusal? change ifname net kept.routes with
  | none => rfl
  | some words =>
      refine ⟨rfl, ?_⟩
      have known := IpTool.needless_of_refusal? refused
      simp only [complaint, Text.Utf8.lenient_encode]
      cases change with
      | add =>
          cases known
          decide
      | remove =>
          cases known
          decide
      | replace => cases known

theorem likeIproute (tool : IpTool Iproute) : tool.LikeIproute routes where
  change kept change ifname gateway net _ := by
    refine ⟨_, _, rfl, ?_, ?_⟩
    · rw [answer_changeArgs]
      exact reports_perform change ifname net kept
    · rw [answer_changeArgs]
      rfl
  list kept net := by
    have shown : answer (tool.showArgs net) kept =
        ({ stdout := Text.Utf8.encode (printed net (kept.routes net)) }, kept) := by
      simp [IpTool.showArgs, answer, Prefix.ofText?_text]
    refine ⟨_, _, rfl, ?_⟩
    rw [shown]
    exact ⟨rfl, rfl, rfl⟩

end Iproute

namespace IpTool

variable {τ : Type}

/-! ## Arguments -/

theorem isPlain_of_mem_option {name : String} {value : Option String} {arg : String}
    (plainName : Text.IsPlain name.toList)
    (plainValue : ∀ text, value = some text → Text.IsPlain text.toList)
    (member : arg ∈ option name value) : Text.IsPlain arg.toList := by
  cases value with
  | none => cases member
  | some text =>
      simp only [option, List.mem_cons, List.not_mem_nil, or_false] at member
      rcases member with rfl | rfl
      · exact plainName
      · exact plainValue arg rfl

theorem isPlain_number {value : Option UInt32} (text : String)
    (written : number value = some text) :
    Text.IsPlain text.toList := by
  obtain ⟨n, -, rfl⟩ := Option.map_eq_some_iff.1 written
  rw [show (toString n.toNat).toList = Nat.toDigits 10 n.toNat from Nat.toList_repr]
  exact Text.isPlain_toDigits (by decide) (by decide) n.toNat

/-- The name of the interface is the only argument that may hold any character. -/
theorem isPlain_of_mem_changeArgs {tool : IpTool τ} {change : Change} {ifname arg : String}
    {gateway : Option Address} {net : Prefix}
    (member : arg ∈ tool.changeArgs change ifname gateway net) :
    arg = ifname ∨ Text.IsPlain arg.toList := by
  have via : ∀ text, gateway.map Address.text = some text → Text.IsPlain text.toList := by
    intro text written
    obtain ⟨address, -, rfl⟩ := Option.map_eq_some_iff.1 written
    exact address.isPlain_text
  simp only [changeArgs, List.mem_append, List.mem_cons, List.not_mem_nil, or_false] at member
  rcases member with (((((rfl | rfl | rfl) | gate) | rfl | rfl) | metric) | table)
  · exact .inr (by decide)
  · exact .inr (by cases change <;> decide)
  · exact .inr net.isPlain_text
  · exact .inr (isPlain_of_mem_option (by decide) via gate)
  · exact .inr (by decide)
  · exact .inl rfl
  · exact .inr (isPlain_of_mem_option (by decide) isPlain_number metric)
  · exact .inr (isPlain_of_mem_option (by decide) isPlain_number table)

theorem isPlain_of_mem_showArgs {tool : IpTool τ} {net : Prefix} {arg : String}
    (member : arg ∈ tool.showArgs net) : Text.IsPlain arg.toList := by
  simp only [showArgs, List.mem_append, List.mem_cons, List.not_mem_nil, or_false] at member
  rcases member with (rfl | rfl | rfl | rfl) | table
  · decide
  · decide
  · decide
  · exact net.isPlain_text
  · exact isPlain_of_mem_option (by decide) isPlain_number table

/-- A change is given to the tool unless the name of the interface would end early. -/
theorem ends_changeArgs (tool : IpTool τ) (change : Change) (ifname : String)
    (gateway : Option Address) (net : Prefix) :
    ((tool.changeArgs change ifname gateway net).any fun arg => arg.toList.contains '\x00') = true ↔
      '\x00' ∈ ifname.toList := by
  simp only [List.any_eq_true, List.contains_iff_mem]
  constructor
  · rintro ⟨arg, member, nul⟩
    rcases isPlain_of_mem_changeArgs member with rfl | plain
    · exact nul
    · exact absurd nul plain.nul_not_mem
  · intro nul
    exact ⟨ifname, by simp [changeArgs], nul⟩

theorem ends_showArgs (tool : IpTool τ) (net : Prefix) :
    ((tool.showArgs net).any fun arg => arg.toList.contains '\x00') = false := by
  simp only [List.any_eq_false, List.contains_iff_mem]
  exact fun arg member => (isPlain_of_mem_showArgs member).nul_not_mem

/-! ## Reading what is printed -/

/-- The printed line without its end. -/
def line (net : Prefix) (ifname : String) : List Char :=
  net.text.toList ++ ' ' :: ("dev".toList ++ ' ' :: (ifname.toList ++ ' ' :: "scope link".toList))

theorem toList_printed (net : Prefix) (ifname : String) :
    (printed net (some ifname)).toList = line net ifname ++ '\n' :: [] := by
  simp [printed, line]

theorem slash_mem_text (net : Prefix) : '/' ∈ net.text.toList := by
  rw [Prefix.toList_text]
  exact List.mem_append_right _ List.mem_cons_self

theorem text_ne_dev (net : Prefix) : net.text.toList ≠ "dev".toList := by
  intro same
  have slash := slash_mem_text net
  rw [same] at slash
  revert slash
  decide

theorem words_line {ifname : String} (named : IsName ifname) (net : Prefix) :
    Text.words (line net ifname) =
      net.text.toList :: "dev".toList :: ifname.toList :: Text.words "scope link".toList := by
  have dev : Text.IsPlain "dev".toList := by decide
  have name : ifname.toList ≠ [] := by simpa using named.1
  rw [line,
    Text.words_append (List.ne_nil_of_mem (slash_mem_text net)) (fun c => net.isPlain_text.visible)
      (by decide),
    Text.words_append (by decide) (fun c => dev.visible) (by decide),
    Text.words_append name named.2 (by decide)]

theorem newline_not_mem_line {ifname : String} (named : IsName ifname) (net : Prefix) :
    '\n' ∉ line net ifname := by
  intro member
  simp only [line, List.mem_append, List.mem_cons] at member
  rcases member with destination | space | dev | space | name | space | scope
  · exact absurd (net.isPlain_text.visible destination) (by decide)
  · exact absurd space (by decide)
  · exact absurd dev (by decide)
  · exact absurd space (by decide)
  · exact absurd (named.2 _ name) (by decide)
  · exact absurd space (by decide)
  · exact absurd scope (by decide)

/-- The name of the interface is found in the line. -/
theorem device?_printed {ifname : String} (named : IsName ifname) (net : Prefix) :
    device? (printed net (some ifname)) = some ifname := by
  have oneLine : ∀ c ∈ line net ifname, (c == '\n') = false := by
    intro c member
    rw [beq_eq_false_iff_ne]
    rintro rfl
    exact newline_not_mem_line named net member
  have found : deviceOf (Text.words (line net ifname)) = some ifname.toList := by
    rw [words_line named net, deviceOf, if_neg (text_ne_dev net), deviceOf, if_pos rfl]
    rfl
  rw [device?, toList_printed, Text.lines, Text.splitChars_append oneLine rfl, List.findSome?_cons,
    found, Option.map_some, String.ofList_toList]

theorem mem_of_deviceOf {words : List (List Char)} {word : List Char}
    (found : deviceOf words = some word) : word ∈ words := by
  induction words with
  | nil => cases found
  | cons first rest ih =>
      rw [deviceOf] at found
      split at found
      · exact List.mem_cons_of_mem _ (List.mem_of_head? found)
      · exact List.mem_cons_of_mem _ (ih found)

/-- Only a name is ever found. -/
theorem isName_of_device? {output ifname : String} (found : device? output = some ifname) :
    IsName ifname := by
  obtain ⟨word, inLine, rfl⟩ := Option.map_eq_some_iff.1 found
  obtain ⟨line, -, stands⟩ := List.exists_of_findSome?_eq_some inLine
  have visible := Text.mem_words (mem_of_deviceOf stands)
  exact ⟨by simpa using visible.1, by simpa using visible.2⟩

theorem device?_printed_iff (net : Prefix) (via : Option String) :
    device? (printed net via) = via ↔ ∀ ifname ∈ via, IsName ifname := by
  cases via with
  | none => simp [printed, device?, Text.lines, Text.splitChars, Text.words, deviceOf]
  | some ifname =>
      constructor
      · rintro found other same
        cases same
        exact isName_of_device? found
      · exact fun named => device?_printed (named ifname rfl) net

theorem isEmpty_trim_printed (net : Prefix) (via : Option String) :
    (Text.trim (printed net via)).isEmpty = via.isNone := by
  cases via with
  | none => rfl
  | some ifname =>
      have member : 'd' ∈ (printed net (some ifname)).toList := by
        simp [printed]
      have stays := Text.mem_trimChars member (by decide)
      rw [Option.isNone_some, Text.trim, String.isEmpty_eq_false_iff]
      intro nothing
      rw [String.ofList_eq_empty_iff] at nothing
      rw [nothing] at stays
      cases stays

/-! ## The answers of the tool -/

section Answers

variable [IpRunner τ] {tool : IpTool τ} {routes : τ → Prefix → Option String}

theorem LikeIproute.with_runner (like : LikeIproute tool routes) (runner : τ) :
    LikeIproute { tool with runner } routes :=
  ⟨like.change, like.list⟩

/-- Every refusal is one that is tolerated. -/
theorem verdict_of_reports {change : Change} {ifname : String} {net : Prefix}
    {via : Prefix → Option String} {result : RunResult} (args : List String)
    (reports : Reports result (refusal? change ifname net via)) :
    verdict args (needless change) (some result) = .ok (Text.Utf8.lenient result.stdout) := by
  rw [verdict]
  refine if_pos ?_
  cases refused : refusal? change ifname net via with
  | none =>
      rw [refused] at reports
      exact .inl reports
  | some words =>
      rw [refused] at reports
      rw [needless_of_refusal? refused]
      exact .inr reports.2

/-- A change fails only for the name of the interface; else the routes are those that iproute2
leaves, whether it made the change or not. -/
theorem LikeIproute.perform (like : LikeIproute tool routes) (change : Change) {ifname : String}
    (named : IsName ifname) (gateway : Option Address) (net : Prefix) :
    ((tool.perform change ifname gateway net).1.isOk = false ∧ '\x00' ∈ ifname.toList ∧
      (tool.perform change ifname gateway net).2 = tool) ∨
    ((tool.perform change ifname gateway net).1.isOk = true ∧ '\x00' ∉ ifname.toList ∧
      ∃ left, (tool.perform change ifname gateway net).2 = { tool with runner := left } ∧
        routes left = settled change ifname net (routes tool.runner)) := by
  have ends := tool.ends_changeArgs change ifname gateway net
  by_cases nul : '\x00' ∈ ifname.toList
  · refine .inl ⟨?_, nul, ?_⟩
    · rw [IpTool.perform, run, if_pos (ends.2 nul)]
      rfl
    · rw [IpTool.perform, run, if_pos (ends.2 nul)]
  · obtain ⟨result, left, ran, reports, after⟩ :=
      like.change tool.runner change ifname gateway net named
    refine .inr ⟨?_, nul, left, ?_, after⟩
    · simp only [IpTool.perform, run, if_neg (mt ends.1 nul), ran, verdict_of_reports _ reports]
      rfl
    · simp only [IpTool.perform, run, if_neg (mt ends.1 nul), ran]

/-- So a change that is run is reported as made even if it was refused. -/
theorem LikeIproute.accepted (like : LikeIproute tool routes) (change : Change) {ifname : String}
    (named : IsName ifname) (proper : '\x00' ∉ ifname.toList) (gateway : Option Address)
    (net : Prefix) :
    (tool.perform change ifname gateway net).1.isOk = true ∧
      LikeIproute (tool.perform change ifname gateway net).2 routes ∧
      routes (tool.perform change ifname gateway net).2.runner =
        settled change ifname net (routes tool.runner) := by
  rcases like.perform change named gateway net with ⟨-, nul, -⟩ | ⟨made, -, left, after, routes⟩
  · exact absurd nul proper
  · rw [after]
    exact ⟨made, like.with_runner left, routes⟩

theorem LikeIproute.listing (like : LikeIproute tool routes) (net : Prefix) :
    ∃ left, tool.listing net =
        (some (printed net (routes tool.runner net)), { tool with runner := left }) ∧
      routes left = routes tool.runner := by
  obtain ⟨result, left, ran, succeeded, stdout, same⟩ := like.list tool.runner net
  refine ⟨left, ?_, same⟩
  have ends := tool.ends_showArgs net
  have accepted : verdict (tool.showArgs net) none (some result) =
      .ok (printed net (routes tool.runner net)) := by
    rw [verdict, if_pos (.inl succeeded), stdout, Text.Utf8.lenient_encode]
  simp only [IpTool.listing, run, ends, ran, accepted]
  rfl

end Answers

end IpTool

end OverlayRouting
