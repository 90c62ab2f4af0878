import Dismissal.Http.Service
import Dismissal.Store.Faulty
import Dismissal.Store.Place
import Dismissal.Store.Timed

/-!
# Sessions

A `Session` is the whole service on a clock that is moved by hand: a backend behind a time limit of
its own, a queue of faults and a second time limit, and a channel with those who listen to it. Two
kinds of time go by: the reading of the clock, from which items get their instants, and the
milliseconds that pass while requests are delayed or everybody sleeps.

`Session.start` sets a service up, `perform` runs an action on it and passes on what it tells.
-/

namespace Dismissal

/-- A backend behind its own limit, faults, and a limit around all of that. -/
abbrev Bench := Timed (Faulty (Timed Backend))

namespace Bench

/-- The backend itself. -/
def backend (b : Bench) : Backend := b.inner.inner.inner

/-- The bench with another state of its backend. -/
def withBackend (b : Bench) (backend : Backend) : Bench :=
  { b with inner := { b.inner with inner := { b.inner.inner with inner := backend } } }

/-- Puts a fault at the end of the queue. -/
def addFault (b : Bench) (method : Method) (fault : Fault) : Bench :=
  { b with inner := { b.inner with faults := b.inner.faults ++ [(method, fault)] } }

/-- The milliseconds that have passed. -/
def elapsed (b : Bench) : Nat := b.inner.elapsed

end Bench

/-- Who listens to the events of a session. -/
inductive Audience where
  /-- There is no channel. -/
  | nobody
  /-- There is a channel, and nobody reads from it. -/
  | deaf
  /-- A reader gets the events of each step when it is done. -/
  | eager
  /-- A reader gets events when it asks for them. -/
  | patient
  /-- Feeds are opened and read over HTTP. -/
  | feeds
  deriving DecidableEq, Repr

/-- How a session is set up. Limits and delays are in milliseconds. -/
structure Setup where
  place : Place
  disk : Disk
  seed : Place.Seed := {}
  clock : Instant := .origin
  ownLimit : Option Nat := none
  delay : Nat := 0
  limit : Option Nat := none
  faultable : Bool := true
  audience : Audience := .nobody
  buffer : Nat := 1

namespace Setup

/-- The setup with feeds for its listeners. There is room for one event at least. -/
def withFeeds (setup : Setup) (buffer : Nat) : Setup :=
  { setup with audience := .feeds, buffer := max buffer 1 }

/-- A service on the backend that settings ask for. -/
def ofStorage (storage : Storage) (disk : Disk) : Setup :=
  { place := .ofStorage storage, disk, ownLimit := storage.limit? }

/-- The whole service that settings ask for; nothing can be made to go wrong with it. -/
def ofSettings (settings : Settings) (disk : Disk) : Setup :=
  { ofStorage settings.storage disk with faultable := false }.withFeeds settings.eventBuffer

end Setup

/-- A service, its clock and its listeners. -/
structure Session where
  setup : Setup
  clock : Instant
  bench : Bench
  channel : Channel Event
  reader : Nat := 0
  feeds : List (String × Feed) := []

namespace Session

/-- Why a session cannot start. -/
inductive Obstacle where
  /-- The backend cannot be opened. -/
  | failed (failure : Failure)
  /-- There is no channel of the given capacity. -/
  | capacity (size : Nat)
  deriving DecidableEq, Repr

/-- Sets a session up. The backend is opened first, then the channel is made. -/
def start (setup : Setup) : Except Obstacle Session :=
  match setup.place.start setup.disk setup.seed with
  | .error failure => .error (.failed failure)
  | .ok backend =>
    if Channel.Admissible setup.buffer then .ok
      { setup
        clock := setup.clock
        bench := ⟨{ inner := ⟨backend, setup.ownLimit⟩, delay := setup.delay }, setup.limit⟩
        channel := .ofCapacity setup.buffer }
    else .error (.capacity setup.buffer)

/-- Runs an action and passes on to the listeners what it tells them. -/
def perform {α : Type} (s : Session) (action : StateM (Lifecycle.State Bench) α) : α × Session :=
  let (answer, state) := action.run ⟨s.bench, []⟩
  (answer, { s with bench := state.store, channel := s.channel.sendAll state.published })

/-- Asks the store, past the service. -/
def ask (s : Session) (request : Request) : Result request.Answer × Session :=
  let (answer, bench) := Store.serve s.clock request s.bench
  (answer, { s with bench })

/-- Lets time pass while the clock stands still. -/
def sleep (s : Session) (ms : Nat) : Session := { s with bench := Store.pass s.clock ms s.bench }

/-- Lets the backend do what is due right now. -/
def settle (s : Session) : Session :=
  { s with bench := s.bench.withBackend (s.bench.backend.settle s.clock) }

/-- Ends the service and starts it again at the same place. Faults stay queued. There is a new
channel, and all feeds from the one before have ended. -/
def restart (s : Session) : Session :=
  { s with
    bench := s.bench.withBackend (s.setup.place.restart s.bench.backend)
    channel := .ofCapacity s.setup.buffer
    reader := 0
    feeds := s.feeds.map fun (name, feed) => (name, feed.finish s.channel) }

/-! ## Listening -/

/-- The events that the reader of the channel has not had yet, after the count of those it lost. -/
def drain (s : Session) : (Nat × List Event) × Session :=
  (s.channel.read s.reader, { s with reader := s.channel.sent })

/-- Answers a request over HTTP. -/
def respond (s : Session) (r : Http.Request) : Http.Response × Session :=
  s.perform (Http.answer s.clock r)

/-- Opens a feed under a name, in place of the one that had it. There is no feed if the answer is
another one. -/
def openFeed (s : Session) (name target : String) : Http.Response × Session :=
  let (response, s) := s.respond { target }
  let feed := response.feed.map fun filter =>
    Feed.subscribe filter s.channel s.bench.elapsed
  (response, { s with
    feeds := (feed.map (name, ·)).toList ++ s.feeds.filter (·.1 != name) })

/-- Reads a feed, and tells whether it has ended. A feed that was never opened has. -/
def readFeed (s : Session) (name : String) : (List Feed.Frame × Bool) × Session :=
  match s.feeds.lookup name with
  | none => (([], true), s)
  | some feed =>
    let (frames, feed) := feed.read s.channel s.bench.elapsed
    ((frames, feed.isEnded), { s with feeds := (name, feed) :: s.feeds.filter (·.1 != name) })

/-- Closes a feed. -/
def closeFeed (s : Session) (name : String) : Session :=
  { s with feeds := s.feeds.filter (·.1 != name) }

/-! ## Descriptions -/

/-- The parts of a service that can be described. -/
inductive Part where
  | store
  | lifecycle
  | admin
  | clock
  deriving DecidableEq, Repr

/-- A line about the clock. -/
def describeClock (t : Instant) : String :=
  "ManualClock \x7b now: Mutex \x7b data: " ++ t.zuluText ++ " \x7d \x7d"

/-- A line about a part of the service. -/
def describe (s : Session) : Part → String
  | .store => s.bench.backend.describe
  | .lifecycle => "LifecycleService \x7b clock: " ++ describeClock s.clock ++ ", events: " ++
    (if s.setup.audience = .nobody then "false" else "true") ++ " \x7d"
  | .admin => "AdminService \x7b store: \"<dyn ItemStore>\" \x7d"
  | .clock => describeClock s.clock

end Session

end Dismissal
