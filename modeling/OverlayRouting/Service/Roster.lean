/-
# OverlayRouting.Service.Roster -- the candidates of one destination

A roster lists the candidates in the order in which they were admitted, with one
candidate for a gateway.  A roster that another group keeps out is disabled, and
then so are its candidates.
-/
import OverlayRouting.Service.Candidate

namespace OverlayRouting

set_option autoImplicit false

structure Roster where
  candidates : List Candidate := []
  disabled : Bool := false
  deriving DecidableEq

namespace Roster

def size (roster : Roster) : Nat := roster.candidates.length

def isEmpty (roster : Roster) : Bool := roster.candidates.isEmpty

/-- How many candidates are to be added, and how many to be removed. -/
def pending (roster : Roster) : Nat × Nat :=
  (roster.candidates.countP (·.state = .joining), roster.candidates.countP Candidate.isLeaving)

def hasPending (roster : Roster) : Bool := roster.pending ≠ (0, 0)

def candidate? (roster : Roster) (gateway : Address) : Option Candidate :=
  roster.candidates.find? (·.gateway = gateway)

/-- The candidate whose route is in the routing table. -/
def installed? (roster : Roster) : Option Candidate :=
  roster.candidates.find? Candidate.isInstalled

/-- The candidate to install while nothing is selected: the installed one unless it
leaves, else the first one that stays. -/
def default? (roster : Roster) : Option Candidate :=
  (roster.installed?.filter fun candidate => !candidate.isLeaving).or
    (roster.candidates.find? fun candidate => !candidate.isLeaving)

/-- Where a candidate stands in the list. -/
def position? (roster : Roster) (candidate : Candidate) : Option Nat :=
  roster.candidates.findIdx? (·.gateway = candidate.gateway)

/-! ## Changes -/

/-- Append the candidate of a link, unless its gateway is listed: a controller
sends its whole configuration again after it was away. -/
def add (roster : Roster) (link : Link) : Bool × Roster :=
  match roster.candidate? link.gateway with
  | some _ => (false, roster)
  | none =>
      let state := if roster.disabled then .disabled else .joining
      (true, { roster with candidates := roster.candidates ++ [⟨link, state⟩] })

/-- What is left of a candidate that is to go.  A disabled one was never
installed and leaves at once. -/
def dismissed (candidate : Candidate) : Option Candidate :=
  match candidate.state with
  | .disabled => none
  | .leaving _ => some candidate
  | .active => some { candidate with state := .leaving true }
  | .joining | .standby => some { candidate with state := .leaving false }

/-- Let the candidate with this gateway go. -/
def remove (roster : Roster) (gateway : Address) : Roster :=
  { roster with
    candidates := roster.candidates.filterMap fun candidate =>
      if candidate.gateway = gateway then dismissed candidate else some candidate }

/-- Let a disabled roster's candidates be added like new ones. -/
def enable (roster : Roster) : Roster :=
  { disabled := false
    candidates := roster.candidates.map fun candidate =>
      if candidate.state = .disabled then { candidate with state := .joining } else candidate }

/-- The roster after a commit: who was to leave is gone, and of the others the one
with gateway `active` is installed. -/
def settle (roster : Roster) (active : Option Address) : Roster :=
  { roster with
    candidates := (roster.candidates.filter fun candidate => !candidate.isLeaving).map
      fun candidate =>
        { candidate with
          state := if some candidate.gateway = active then .active else .standby } }

end Roster

end OverlayRouting
