import Dismissal.Channel
import Dismissal.Event
import Dismissal.Json.Printer
import Dismissal.Text.Blank
import Dismissal.Text.Digits
import Dismissal.Text.Split

/-!
# Event feeds

A feed passes the events of a channel on to one listener, who may ask for the events of some users
and some kinds only. `Filter.ofQuery` reads what was asked for: lists behind `user=` and `type=`,
with commas between their members. A list that is empty asks for everything.

A listener who reads too slowly is told how many events are lost. One who finds nothing new for a
quarter of a minute gets a sign that the feed is alive. A feed ends with its channel; what it has
not passed on by then can still be read.
-/

namespace Dismissal

namespace Feed

/-- The users and the kinds of events that a listener asks for. -/
structure Filter where
  users : List String := []
  kinds : List String := []
  deriving DecidableEq, Repr

namespace Filter

/-- The members of a list with commas between them. -/
def membersOf (value : List Char) : List String :=
  (Text.splitOn ',' value).map fun cs => Text.trim (String.ofList cs)

/-- Adds what one field of a query asks for. -/
def withField (f : Filter) (field : List Char) : Filter :=
  match Text.splitOnce '=' field with
  | none => f
  | some (name, value) => match String.ofList name with
    | "user" => { f with users := f.users ++ membersOf value }
    | "type" => { f with kinds := f.kinds ++ membersOf value }
    | _ => f

/-- What a query asks for. -/
def ofQuery : Option (List Char) → Filter
  | none => {}
  | some query => (Text.splitOn '&' query).foldl withField {}

/-- Whether a filter lets an event pass. -/
def passes (f : Filter) (e : Event) : Bool :=
  (f.users.isEmpty || f.users.contains e.user) &&
    (f.kinds.isEmpty || f.kinds.contains e.change.kind)

end Filter

/-- What a listener is sent. -/
inductive Frame where
  | event (e : Event)
  | lagged (missed : Nat)
  | keepAlive

namespace Frame

/-- The name under which a frame is sent. -/
def name : Frame → String
  | event e => "item." ++ e.change.kind
  | lagged _ => "error"
  | keepAlive => "keep-alive"

/-- The text of a frame, if it has one: the JSON form of an event, or how many events are lost. -/
def data? : Frame → Option String
  | event e => some e.json.render
  | lagged missed => some ("Lagged by " ++ Text.decimal missed ++ " events")
  | keepAlive => none

end Frame

/-- The milliseconds without news after which a sign of life is due. -/
def patience : Nat := 15000

end Feed

/-- One listener's feed: what it asks for, its place in the channel, when it last had news, and what
is left of it if it has ended. -/
structure Feed where
  filter : Feed.Filter
  reader : Nat
  mark : Nat
  left : Option (List Feed.Frame) := none

namespace Feed

/-- A feed of what is sent from now on. -/
def subscribe (filter : Filter) (channel : Channel Event) (now : Nat) : Feed :=
  { filter, reader := channel.subscribe, mark := now }

/-- Whether a feed has ended. -/
def isEnded (f : Feed) : Bool := f.left.isSome

/-- The frames for what a reader of a channel gets. -/
def framesOf (filter : Filter) (missed : Nat) (events : List Event) : List Frame :=
  (if missed = 0 then [] else [.lagged missed]) ++ (events.filter filter.passes).map .event

/-- The frames that a feed has not passed on yet. -/
def pending (f : Feed) (channel : Channel Event) : List Frame :=
  let (missed, events) := channel.read f.reader
  f.left.getD (framesOf f.filter missed events)

/-- The feed after the end of its channel. -/
def finish (f : Feed) (channel : Channel Event) : Feed :=
  { f with left := some (f.pending channel) }

/-- All frames that a listener can get now. -/
def read (f : Feed) (channel : Channel Event) (now : Nat) : List Frame × Feed :=
  match f.pending channel with
  | [] =>
    if !f.isEnded && patience ≤ now - f.mark then
      ([.keepAlive], { f with reader := channel.sent, mark := now })
    else ([], { f with reader := channel.sent })
  | frames =>
    (frames, { f with reader := channel.sent, mark := now, left := f.left.map fun _ => [] })

end Feed

end Dismissal
