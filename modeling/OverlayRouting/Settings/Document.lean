/-
# OverlayRouting.Settings.Document -- settings as a document

Settings are a document with three sections.  What a document does not mention keeps
its default, and what it mentions besides is passed over.  A section may also be the
list of its settings in order, with as many of them as one likes.  Values are read in
the order of the document, and the first fault ends the reading.

Writing mentions every setting; spans stand there as texts.
-/
import OverlayRouting.Settings
import OverlayRouting.Settings.Formats

namespace OverlayRouting

set_option autoImplicit false

variable [Formats]

/-! ## Values as settings -/

namespace Data

/-- The settings of a section with their values, given the names of all settings in
order. -/
def settings? (names : List String) : Data → Option (List (String × Data))
  | .record fields => some fields
  | .list items => some (names.zip items)
  | _ => none

/-- A value that is none of a setting's is a fault. -/
def fit {α : Type} (read? : Data → Option α) (data : Data) : Except Span.Fault α :=
  match read? data with
  | some found => .ok found
  | none => .error .unfit

def setting {α : Type} [Wire α] (data : Data) : Except Span.Fault α := data.fit decode?

def span (data : Data) : Except Span.Fault Span := data.setting >>= Formats.readSpan

end Data

/-! ## Sections -/

namespace RouterSettings

/-- Settings with one of them read from a value; other names are passed over. -/
def set (settings : RouterSettings) (entry : String × Data) : Except Span.Fault RouterSettings :=
  match entry with
  | ("window_size", data) => data.setting.map ({ settings with windowSize := · })
  | ("reroute_diff", data) => data.setting.map ({ settings with rerouteDiff := · })
  | ("reroute_ratio", data) => data.setting.map ({ settings with rerouteRatio := · })
  | ("cleanup_on_exit", data) => data.setting.map ({ settings with cleanupOnExit := · })
  | ("vpn_client", data) => data.setting.map ({ settings with vpnClient := · })
  | _ => .ok settings

def ofData (data : Data) : Except Span.Fault RouterSettings :=
  data.fit (Data.settings? names) >>= List.foldlM set {}

def fields (settings : RouterSettings) : List (String × Data) :=
  [("window_size", encode settings.windowSize),
    ("reroute_diff", .real (Decimal.widen settings.rerouteDiff)),
    ("reroute_ratio", .real (Decimal.widen settings.rerouteRatio)),
    ("cleanup_on_exit", encode settings.cleanupOnExit),
    ("vpn_client", encode settings.vpnClient)]

end RouterSettings

namespace ProbeSettings

def set (settings : ProbeSettings) (entry : String × Data) : Except Span.Fault ProbeSettings :=
  match entry with
  | ("interval", data) => data.span.map ({ settings with interval := · })
  | ("timeout", data) => data.span.map ({ settings with timeout := · })
  | ("apply_interval", data) => data.span.map ({ settings with applyInterval := · })
  | ("count", data) => data.setting.map ({ settings with count := · })
  | _ => .ok settings

def ofData (data : Data) : Except Span.Fault ProbeSettings :=
  data.fit (Data.settings? names) >>= List.foldlM set {}

def fields (settings : ProbeSettings) : List (String × Data) :=
  [("interval", encode (Formats.spanText settings.interval)),
    ("timeout", encode (Formats.spanText settings.timeout)),
    ("apply_interval", encode (Formats.spanText settings.applyInterval)),
    ("count", encode settings.count)]

end ProbeSettings

namespace LogSettings

def set (settings : LogSettings) (entry : String × Data) : Except Span.Fault LogSettings :=
  match entry with
  | ("level", data) => data.setting.map ({ settings with level := · })
  | ("format", data) => data.setting.map ({ settings with format := · })
  | ("color", data) => data.setting.map ({ settings with color := · })
  | _ => .ok settings

def ofData (data : Data) : Except Span.Fault LogSettings :=
  data.fit (Data.settings? names) >>= List.foldlM set {}

def fields (settings : LogSettings) : List (String × Data) :=
  [("level", encode settings.level), ("format", encode settings.format),
    ("color", encode settings.color)]

end LogSettings

namespace Settings

/-! ## Documents -/

def set (settings : Settings) (entry : String × Data) : Except Span.Fault Settings :=
  match entry with
  | ("router", data) => (RouterSettings.ofData data).map ({ settings with router := · })
  | ("probe", data) => (ProbeSettings.ofData data).map ({ settings with probe := · })
  | ("logging", data) => (LogSettings.ofData data).map ({ settings with log := · })
  | _ => .ok settings

/-- The sections of settings with their fields. -/
def sections (settings : Settings) : Sections :=
  [("router", settings.router.fields), ("probe", settings.probe.fields),
    ("logging", settings.log.fields)]

/-- The settings that a text holds. -/
def ofText (text : String) : Except Span.Fault Settings :=
  match Formats.read? text with
  | none => .error .unfit
  | some document => document.foldlM set {}

/-- The text of settings. -/
def text? (settings : Settings) : Option String := Formats.write? settings.sections.document

end Settings

end OverlayRouting
