import Dismissal.Item
import Dismissal.Json.Basic

/-!
# Events

An `Event` tells what a call did to an item: it was retrieved, created, dismissed or restored. A
dismissal and a restoration also carry the version that they replaced. The event names the user and
the item of the call, and holds the caller's context and the instant of the call.

The JSON forms of items, answers and events are given here.
-/

namespace Dismissal

/-- What happened to an item. -/
inductive Change where
  | retrieved
  | created
  | dismissed (previous : Item)
  | restored (previous : Item)
  deriving DecidableEq

namespace Change

/-- The name of the kind of change. -/
def kind : Change → String
  | retrieved => "retrieved"
  | created => "created"
  | dismissed _ => "dismissed"
  | restored _ => "restored"

/-- The version that the change replaced. -/
def previous? : Change → Option Item
  | retrieved => none
  | created => none
  | dismissed previous => some previous
  | restored previous => some previous

end Change

/-- A change of an item, as told to those who listen. -/
structure Event where
  change : Change
  user : String
  id : String
  item : Item
  context : Option Json
  time : Instant

/-- An item that was found or created for a caller. -/
structure Presented where
  item : Item
  created : Bool
  deriving DecidableEq

/-- An item that was dismissed or restored, with the version before. -/
structure Transition where
  item : Item
  previous : Item
  deriving DecidableEq

/-- The JSON form of an item. -/
def Item.json (item : Item) : Json := .object
  [("id", .text item.id), ("userId", .text item.user), ("createdAt", .text item.created.zuluText),
    ("dismissedAt", Json.ofOption (item.dismissed.map fun t => .text t.zuluText))]

/-- The JSON form of an answer to get-or-create. -/
def Presented.json (p : Presented) : Json := .object
  [("item", p.item.json), ("created", .bool p.created)]

/-- The JSON form of an answer to a dismissal or a restoration. -/
def Transition.json (t : Transition) : Json := .object
  [("item", t.item.json), ("previousItem", t.previous.json)]

/-- The JSON form of an event. -/
def Event.json (e : Event) : Json := .object (
  [("type", .text e.change.kind), ("userId", .text e.user), ("itemId", .text e.id),
    ("item", e.item.json)] ++
  (e.change.previous?.map fun previous => ("previousItem", previous.json)).toList ++
  [("context", Json.ofOption e.context), ("timestamp", .text e.time.zuluText)])

end Dismissal
