/-
# OverlayRouting.Settings.Location -- where the settings file is

It lies in the user's configuration directory: the one that is set, if its path is
absolute, else `.config` in the home directory.  A home directory that is set to
nothing does not count; then it is that of the user's account.
-/
namespace OverlayRouting.Settings

set_option autoImplicit false

def isAbsolute (path : List Char) : Bool := path.head? == some '/'

/-- A path inside a directory. -/
def within (directory path : List Char) : List Char :=
  if directory.getLast? == some '/' then directory ++ path else directory ++ '/' :: path

/-- The settings file, given the home directory of the account, the one that is set,
and the configuration directory that is set, if one is. -/
def location (account home : String) (configHome : Option String) : String :=
  let base := (configHome.map String.toList).filter isAbsolute
  let home := if home.isEmpty then account else home
  let directory := base.getD (within home.toList ".config".toList)
  String.ofList (within (within directory "sdnroute".toList) "config.toml".toList)

example : location "/" "/home/u" none = "/home/u/.config/sdnroute/config.toml" := by decide
example : location "/" "/home/u" (some "/etc/") = "/etc/sdnroute/config.toml" := by decide
example : location "/" "" none = "/.config/sdnroute/config.toml" := by decide

end OverlayRouting.Settings
