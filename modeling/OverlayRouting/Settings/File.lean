/-
# OverlayRouting.Settings.File -- settings in a file

A file holds settings in any of the `Formats`; those that the agent uses are at hand.
Loading takes the bytes of a file and gives settings without a fault.  Saving writes a
file anew, and leaves it as it was if it fails; it does not ask whether the settings
have a fault.
-/
import OverlayRouting.Settings.Document
import OverlayRouting.Settings.Standard
import OverlayRouting.Text.Utf8

namespace OverlayRouting.Settings

set_option autoImplicit false

/-- A place for a file. -/
inductive Place where
  /-- There is not even a directory. -/
  | nowhere
  /-- No file is there yet. -/
  | vacant
  | file (bytes : List UInt8)

def notFound : String := "No such file or directory (os error 2)"

/-- Why a file is not loaded or saved. -/
inductive FileFault where
  | missing
  | notText
  | notSettings
  | notWritable
  | noDirectory

def FileFault.message : FileFault → String
  | .missing => s!"Failed to read config: {notFound}"
  | .notText => "Failed to read config: stream did not contain valid UTF-8"
  | .notSettings => "Failed to parse config"
  | .notWritable => "Failed to serialize config"
  | .noDirectory => s!"Failed to write config: {notFound}"

def FileFault.error (fault : FileFault) : Error := .configuration fault.message

/-- How loading goes wrong. -/
inductive LoadFailure where
  | error (cause : Error)
  /-- The agent breaks down while it reads. -/
  | breakdown
  deriving DecidableEq

variable [Formats]

/-- The settings in a file. -/
def load : Place → Except LoadFailure Settings
  | .nowhere | .vacant => .error (.error FileFault.missing.error)
  | .file bytes =>
      match Text.Utf8.strict? bytes with
      | none => .error (.error FileFault.notText.error)
      | some text =>
          match ofText text with
          | .error .unfit => .error (.error FileFault.notSettings.error)
          | .error .overrun => .error .breakdown
          | .ok settings =>
              match settings.check with
              | .error cause => .error (.error cause)
              | .ok _ => .ok settings

/-- Write settings to a place: what comes of it, and what the place is then. -/
def save (settings : Settings) (place : Place) : Except Error Unit × Place :=
  match settings.text? with
  | none => (.error FileFault.notWritable.error, place)
  | some text =>
      match place with
      | .nowhere => (.error FileFault.noDirectory.error, .nowhere)
      | .vacant | .file _ => (.ok (), .file (Text.Utf8.encode text))

end OverlayRouting.Settings
