import Dismissal.Lifecycle.Call
import Dismissal.Session.Basic

/-!
# Steps of a session

A `Step` is one thing that is done in a session, and a `Reply` what comes of it. Steps ask the
store, call the service, move the clock, let time pass, queue faults, or look at and restart what
is there.

`Session.step` does one step; `Session.run` does a list of them, up to one that ends the session.
-/

namespace Dismissal

namespace Session

/-- The parts of an item that a step names; they need not make an item. -/
abbrev Parts := Record

/-- Something to do. -/
inductive Step where
  | ask (request : Request)
  | create (parts : Parts)
  | createMany (parts : List Parts)
  | update (parts : Parts)
  | call (call : Lifecycle.Call)
  | advance (d : Span)
  | setClock (t : Instant)
  | sleep (ms : Nat)
  | addFault (method : Method) (fault : Fault)
  | drain
  | purge
  | capacity
  | sweep (every : Nat)
  | dropStore (every ms : Nat)
  | restart
  | dump
  | close
  | describe (part : Part)
  | http (request : Http.Request)
  | openFeed (name target : String)
  | readFeed (name : String)
  | closeFeed (name : String)

/-- The rows that a backend keeps, in order. -/
inductive Rows where
  | none
  | tree (rows : List (Bytes × Bytes))
  | table (rows : List (Table.Key × Table.Row))

/-- What a step gives if it does not fail. The body of what answers the opening of a feed is left
for those who read the feed. -/
inductive Answer where
  | nothing
  | item (item : Option Item)
  | found (found : Found)
  | items (items : List Item)
  | outcome (o : Lifecycle.Outcome)
  | time (t : Instant)
  | count (n : Nat)
  | limits (capacity : Nat) (isEmpty : Bool)
  | events (missed : Nat) (events : List Event)
  | sweepEnded (ended : Bool)
  | rows (rows : Rows)
  | text (s : String)
  | response (r : Http.Response)
  | opened (r : Http.Response)
  | frames (frames : List Feed.Frame) (ended : Bool)

/-- What comes of a step: its answer, the events that an eager reader got, how many it lost before
them, and how many items a cache holds then. -/
structure Reply where
  answer : Result Answer
  missed : Nat := 0
  events : List Event := []
  held : Option Nat := none

/-- The answer of a store as the answer of a step. -/
def answerOf : (request : Request) → request.Answer → Answer
  | .get _ _, found => .item found
  | .getMany _ _, found => .found found
  | .create _, created => .item (some created)
  | .createMany _, created => .items created
  | .update _, updated => .item (some updated)
  | .delete _ _, () => .nothing
  | .deleteAll, () => .nothing

/-- The rows of a backend. -/
def rowsOf : Backend → Rows
  | .cache _ => .none
  | .tree t => .tree t.dump
  | .table t => .table t.dump

/-- Asks the store. -/
def askFor (s : Session) (request : Request) : Result Answer × Session :=
  let (answer, s) := s.ask request
  (answer.map (answerOf request), s)

/-- Does something to the cache; a backend of another kind is left alone. -/
def onCache (s : Session) (act : Cache → Answer × Cache) : Result Answer × Session :=
  match s.bench.backend with
  | .cache c =>
    let (answer, c) := act c
    (.ok answer, { s with bench := s.bench.withBackend (.cache c) })
  | _ => (.ok .nothing, s)

/-- Closes the table; a backend of another kind is left alone. -/
def closeTable (s : Session) : Session :=
  match s.bench.backend with
  | .table t => { s with bench := s.bench.withBackend (.table t.close) }
  | _ => s

/-- Does a step, and gives its answer alone. -/
def act (s : Session) : Step → Result Answer × Session
  | .ask request => s.askFor request
  | .create parts => match parts.item with
    | .error e => (.error e, s)
    | .ok item => s.askFor (.create item)
  | .createMany parts => match parts.mapM Record.item with
    | .error e => (.error e, s)
    | .ok items => s.askFor (.createMany items)
  | .update parts => match parts.item with
    | .error e => (.error e, s)
    | .ok item => s.askFor (.update item)
  | .call c =>
    let (answer, s) := s.perform (c.run s.clock).run
    (answer.map .outcome, s)
  | .advance d =>
    let clock := s.clock.advance d
    (.ok (.time clock), { s with clock })
  | .setClock clock => (.ok (.time clock), { s with clock })
  | .sleep ms => (.ok .nothing, s.sleep ms)
  | .addFault method fault =>
    (.ok .nothing,
      if s.setup.faultable then { s with bench := s.bench.addFault method fault } else s)
  | .drain =>
    let ((missed, events), s) := s.drain
    (.ok (.events missed events), s)
  | .purge => s.onCache fun c => match c.purge s.clock with
    | (n, c) => (.count n, c)
  | .capacity => s.onCache fun c => (.limits c.capacity (c.size == 0), c)
  | .sweep every => s.onCache fun c => (.nothing, c.startSweep every)
  | .dropStore every ms => (.ok (.sweepEnded (every < ms)), s)
  | .restart => (.ok .nothing, s.restart)
  | .dump =>
    let s := s.restart
    (.ok (.rows (rowsOf s.bench.backend)), s)
  | .close => (.ok .nothing, s.closeTable)
  | .describe part => (.ok (.text (s.describe part)), s)
  | .http request =>
    let (response, s) := s.respond request
    (.ok (.response response), s)
  | .openFeed name target =>
    let (response, s) := s.openFeed name target
    (.ok (.opened response), s)
  | .readFeed name =>
    let ((frames, ended), s) := s.readFeed name
    (.ok (.frames frames ended), s)
  | .closeFeed name => (.ok .nothing, s.closeFeed name)

/-- Lets an eager reader have the events of a step. -/
def notify (s : Session) : (Nat × List Event) × Session :=
  if s.setup.audience = .eager then s.drain else ((0, []), s)

/-- How many items the cache holds, if the backend is one. -/
def held (s : Session) : Option Nat :=
  match s.bench.backend with
  | .cache c => some c.size
  | _ => none

/-- Does a step. The backend settles when the reply is there. -/
def step (s : Session) (step : Step) : Reply × Session :=
  let (answer, s) := s.act step
  let ((missed, events), s) := s.notify
  ({ answer, missed, events, held := s.held }, s.settle)

/-- Whether nothing can be done after a step. -/
def Step.isLast : Step → Bool
  | dropStore _ _ => true
  | _ => false

/-- Does steps in order. -/
def run (s : Session) : List Step → List Reply
  | [] => []
  | first :: rest =>
    let (reply, s) := s.step first
    reply :: if first.isLast then [] else s.run rest

end Session

end Dismissal
