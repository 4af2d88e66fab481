/-
# OverlayRouting.RoutingTable.IpTool -- routes managed with the ip tool

Every call runs `ip route` once.  A tool that fails is an error with its own
words, except where they say that things already are as they should be: adding
what exists and removing what does not.  The interface that carries a route is
the word behind the first `dev` of the first output line that has such a word.

An argument ends at the character zero, so the tool is not run if an argument would
hold one.
-/
import OverlayRouting.RoutingTable
import OverlayRouting.Text.Blank
import OverlayRouting.Text.Utf8

namespace OverlayRouting

set_option autoImplicit false

/-- What a run of a program left behind. -/
structure RunResult where
  stdout : List UInt8 := []
  stderr : List UInt8 := []
  /-- Its low byte is what counts. -/
  exitCode : Int := 0

def RunResult.succeeded (result : RunResult) : Bool := result.exitCode % 256 = 0

/-- Something that can run the ip tool with arguments; `none` says that there is
no such program. -/
class IpRunner (τ : Type) where
  run : List String → τ → Option RunResult × τ

/-- Routes of one routing table, the main one if none is named. -/
structure IpTool (τ : Type) where
  runner : τ
  table : Option UInt32 := none
  /-- The metric of installed routes. -/
  metric : Option UInt32 := none

namespace IpTool

variable {τ : Type}

/-- An option and its value, if it has one. -/
def option (name : String) (value : Option String) : List String :=
  match value with
  | none => []
  | some text => [name, text]

def number (value : Option UInt32) : Option String := value.map fun n => toString n.toNat

/-- The arguments that change a route. -/
def changeArgs (tool : IpTool τ) (change : Change) (ifname : String) (gateway : Option Address)
    (destination : Prefix) : List String :=
  ["route", change.verb, destination.text] ++ option "via" (gateway.map Address.text) ++
    ["dev", ifname] ++ option "metric" (number tool.metric) ++ option "table" (number tool.table)

/-- The arguments that list the route to exactly one destination. -/
def showArgs (tool : IpTool τ) (destination : Prefix) : List String :=
  ["route", "show", "exact", destination.text] ++ option "table" (number tool.table)

/-- The words in which the tool says that a change was not needed. -/
def needless : Change → Option String
  | .add => some "File exists"
  | .remove => some "No such process"
  | .replace => none

/-- What a run amounts to: its output, or why it failed. -/
def verdict (args : List String) (tolerated : Option String) : Option RunResult → Except Error String
  | none => .error (.io "No such file or directory (os error 2)")
  | some result =>
      let complaint := Text.Utf8.lenient result.stderr
      let accepted := result.succeeded ∨
        (tolerated.any fun words => Text.contains words.toList complaint.toList) = true
      if accepted then .ok (Text.Utf8.lenient result.stdout)
      else
        let asked := " ".intercalate args
        .error (.tableRefused s!"ip {asked}: {Text.trim complaint}")

/-- The word behind the first `dev` of a line. -/
def deviceOf : List (List Char) → Option (List Char)
  | [] => none
  | word :: rest => if word = "dev".toList then rest.head? else deviceOf rest

/-- The interface of the first route in the tool's output. -/
def device? (output : String) : Option String :=
  ((Text.lines output.toList).findSome? fun line => deviceOf (Text.words line)).map String.ofList

variable [IpRunner τ]

def run (args : List String) (tolerated : Option String) (tool : IpTool τ) :
    Except Error String × IpTool τ :=
  if args.any fun arg => arg.toList.contains '\x00' then
    (.error (.io "nul byte found in provided data"), tool)
  else
    let (result, runner) := IpRunner.run args tool.runner
    (verdict args tolerated result, { tool with runner })

def perform (change : Change) (ifname : String) (gateway : Option Address) (destination : Prefix)
    (tool : IpTool τ) : Outcome × IpTool τ :=
  let (output, tool) := tool.run (tool.changeArgs change ifname gateway destination) (needless change)
  (output.map fun _ => (), tool)

/-- The tool's list of routes to exactly one destination; nothing if it fails. -/
def listing (destination : Prefix) (tool : IpTool τ) : Option String × IpTool τ :=
  let (output, tool) := tool.run (tool.showArgs destination) none
  (output.toOption, tool)

instance : RoutingTable (IpTool τ) where
  add ifname gateway destination := perform .add ifname gateway destination
  remove ifname destination := perform .remove ifname none destination
  replace ifname gateway destination := perform .replace ifname gateway destination
  holds destination tool :=
    let (output, tool) := tool.listing destination
    (output.any fun text => !(Text.trim text).isEmpty, tool)
  carrier destination tool :=
    let (output, tool) := tool.listing destination
    (output.bind device?, tool)

end IpTool

/-- A runner that has its answer prepared and remembers what it was asked; a
program that does not exist is not asked anything. -/
structure PreparedRun where
  answer : Option RunResult
  asked : Option (List String) := none

instance : IpRunner PreparedRun where
  run args prepared := (prepared.answer, { prepared with asked := prepared.answer.map fun _ => args })

end OverlayRouting
