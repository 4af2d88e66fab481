/-
# OverlayRouting.Event -- what is reported to the controller

Committing a destination gives a route status, and moving traffic from one
connection to another gives an active change.  An event is a batch of one kind;
empty batches are not sent.
-/
import OverlayRouting.Error
import OverlayRouting.Quality

namespace OverlayRouting

set_option autoImplicit false

/-- The answer to one destination of a request. -/
structure RouteResult where
  destination : Prefix
  error : Option String := none
  deriving DecidableEq

namespace RouteResult

def failed (destination : Prefix) (cause : Error) : RouteResult := ⟨destination, some cause.message⟩

def isOk (result : RouteResult) : Bool := result.error.isNone

end RouteResult

/-- How the commit of one destination ended. -/
structure RouteStatus where
  connection : ConnectionId
  group : GroupId
  destination : Prefix
  error : Option String := none
  deriving DecidableEq

namespace RouteStatus

def ofOutcome (connection : ConnectionId) (group : GroupId) (destination : Prefix) :
    Except Error Unit → RouteStatus
  | .ok _ => { connection, group, destination }
  | .error cause => { connection, group, destination, error := some cause.message }

def isOk (status : RouteStatus) : Bool := status.error.isNone

end RouteStatus

/-- A change of the connection that carries a group's traffic; `none` on one side
means that nothing carried it before, or carries it now. -/
structure ActiveChange where
  previous : Option ConnectionId
  current : Option ConnectionId
  group : GroupId
  deriving DecidableEq

namespace ActiveChange

def isAttach (change : ActiveChange) : Bool := change.previous.isNone && change.current.isSome

def isDetach (change : ActiveChange) : Bool := change.previous.isSome && change.current.isNone

end ActiveChange

inductive Event where
  | statuses (batch : List RouteStatus)
  | changes (batch : List ActiveChange)
  | qualities (batch : List Quality)
  deriving DecidableEq

namespace Event

def isEmpty : Event → Bool
  | .statuses batch => batch.isEmpty
  | .changes batch => batch.isEmpty
  | .qualities batch => batch.isEmpty

/-- The events of a list that have something to tell. -/
def sent (events : List Event) : List Event := events.filter fun event => !event.isEmpty

end Event

end OverlayRouting
