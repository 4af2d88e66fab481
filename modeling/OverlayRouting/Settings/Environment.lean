/-
# OverlayRouting.Settings.Environment -- settings from environment variables

Four variables override settings of the router.  A variable that is not set, or
whose text says nothing that the setting may be, leaves the setting as it is.  The
two margins come from one variable, both or neither.
-/
import OverlayRouting.Decimal.Numeral
import OverlayRouting.Settings
import OverlayRouting.Text.Blank
import OverlayRouting.Text.Front

namespace OverlayRouting

set_option autoImplicit false

/-- The variables that are set. -/
abbrev Environment := (name : String) → Option String

namespace Environment

def cleanupOnExit : String := "SDNROUTE_CLEANUP_ON_EXIT"
def vpnClient : String := "SDNROUTE_VPN_CLIENT"
def windowSize : String := "SDNROUTE_PEERCHECK_WINDOW"
def margins : String := "SDNROUTE_REROUTE_THRESHOLDS"

/-- Can a process have this variable?  Names are not empty and end at `=`, and names
and values end at the character zero. -/
def canHold (name value : String) : Bool :=
  !name.isEmpty && !name.toList.contains '=' && !(name ++ value).toList.contains '\x00'

def yes : List String := ["1", "t", "true", "yes", "on"]
def no : List String := ["0", "f", "false", "no", "off"]

/-- A yes or a no, in any case and with blanks around it. -/
def flag? (text : String) : Option Bool :=
  let word := String.ofList (Text.lowerCase (Text.trimChars text.toList))
  if word ∈ yes then some true else if word ∈ no then some false else none

/-- A positive number of 64 bits. -/
def windowSize? (text : String) : Option UInt64 := do
  let size ← Decimal.whole? (Text.trimChars text.toList)
  guard (0 < size ∧ size < UInt64.size)
  some (UInt64.ofNat size.toNat)

/-- Two numbers with a comma between them, neither below zero. -/
def margins? (text : String) : Option Margins := do
  let (diff, ratio) ← Text.cutAt? ',' text.toList
  let diff ← Decimal.single? (Text.trimChars diff)
  let ratio ← Decimal.single? (Text.trimChars ratio)
  guard (0 ≤ diff ∧ 0 ≤ ratio)
  some ⟨diff, ratio⟩

end Environment

namespace RouterSettings

/-- What the environment says, and for the rest what the settings say. -/
def override (settings : RouterSettings) (environment : Environment) : RouterSettings :=
  let margins := ((environment Environment.margins).bind Environment.margins?).getD settings.margins
  { windowSize :=
      ((environment Environment.windowSize).bind Environment.windowSize?).getD settings.windowSize
    rerouteDiff := margins.diff
    rerouteRatio := margins.ratio
    cleanupOnExit :=
      ((environment Environment.cleanupOnExit).bind Environment.flag?).getD settings.cleanupOnExit
    vpnClient := ((environment Environment.vpnClient).bind Environment.flag?).getD settings.vpnClient }

end RouterSettings

/-- Settings with what the environment overrides. -/
def Settings.override (settings : Settings) (environment : Environment) : Settings :=
  { settings with router := settings.router.override environment }

end OverlayRouting
