import Dismissal.Cache.Arena
import Dismissal.Store.Basic
import Dismissal.Text.Digits

/-!
# The cache

A `Cache` keeps a bounded number of items for a limited time. Every write stamps an item with the
instant at which it expires, and makes it the most recently used one, as every successful look does.
A new item in a full cache drops the least recently used one; an expired item is dropped when it is
looked at.

The cache relaxes what other stores insist on: `create` overwrites an item that is there, and
`update` of an item that is not there creates it. Its only failures are malformed arguments.

A `Sweep` purges expired items at regular times, which the cache needs to save space only. A purge
that is due at the very end of a wait comes after what was waited for: `Cache.pass` leaves it for
the next wait, or for `Cache.settle`.
-/

namespace Dismissal

namespace Cache

/-- A regular purge: how many milliseconds lie between two, and how many are left before the next
one. -/
structure Sweep where
  every : Nat
  left : Nat
  deriving DecidableEq, Repr

end Cache

/-- A bounded store of items that expire. -/
structure Cache where
  capacity : Nat
  lifetime : Span
  arena : Cache.Arena := {}
  sweeps : List Cache.Sweep := []

namespace Cache

/-- An empty cache. It has room for one item at least. -/
def ofLimits (capacity : Nat) (lifetime : Span) : Cache := ⟨max capacity 1, lifetime, {}, []⟩

/-- The number of items in the cache, expired ones that nobody looked at included. -/
def size (c : Cache) : Nat := c.arena.size

/-- When an item expires that is written now. -/
def expiry (c : Cache) (now : Instant) : Instant := now.advance c.lifetime

/-- Stores an item under its key. -/
def write (c : Cache) (item : Item) (expires : Instant) : Cache :=
  { c with arena := c.arena.insert item.key item expires c.capacity }

/-- Looks at a key. -/
def look (c : Cache) (key : String) (now : Instant) : Lookup × Cache :=
  let (found, arena) := c.arena.lookup key now
  (found, { c with arena })

/-- Drops all expired items, and tells how many there were. -/
def purge (c : Cache) (now : Instant) : Nat × Cache :=
  let (count, arena) := c.arena.purge now
  (count, { c with arena })

/-- The item of a user, if it is there and has not expired. -/
def get (c : Cache) (now : Instant) (user id : String) : Result (Option Item) × Cache :=
  match Identity.checkAll user [id] with
  | .error e => (.error e, c)
  | .ok () => match c.look (Identity.key user id) now with
    | (.hit item, c) => (.ok (some item), c)
    | (_, c) => (.ok none, c)

/-- Looks at several items of a user one after the other. -/
def lookAll (c : Cache) (now : Instant) (user : String) (found : Found) :
    List String → Found × Cache
  | [] => (found, c)
  | id :: ids => match c.look (Identity.key user id) now with
    | (.hit item, c) => c.lookAll now user (found.insert id item) ids
    | (_, c) => c.lookAll now user found ids

/-- Those of several items of a user that are there. -/
def getMany (c : Cache) (now : Instant) (user : String) (ids : List String) :
    Result Found × Cache :=
  match Identity.checkAll user ids with
  | .error e => (.error e, c)
  | .ok () =>
    let (found, c) := c.lookAll now user ∅ ids
    (.ok found, c)

/-- Stores an item, whether or not its key is taken. -/
def create (c : Cache) (now : Instant) (item : Item) : Cache := c.write item (c.expiry now)

/-- Stores items in order. -/
def createMany (c : Cache) (now : Instant) (items : List Item) : Cache :=
  items.foldl (fun c item => c.create now item) c

/-- Stores the item with the creation of the version that is there, or as it is if there is none. -/
def update (c : Cache) (now : Instant) (item : Item) : Result Item × Cache :=
  match c.look item.key now with
  | (.hit stored, c) =>
    match Item.create stored.id stored.user stored.created item.dismissed with
    | .error e => (.error e, c)
    | .ok merged => (.ok merged, c.write merged (c.expiry now))
  | (_, c) => (.ok item, c.write item (c.expiry now))

/-- Drops an item, if it is there. -/
def delete (c : Cache) (user id : String) : Result Unit × Cache :=
  match Identity.checkAll user [id] with
  | .error e => (.error e, c)
  | .ok () => (.ok (), { c with arena := (c.arena.remove (Identity.key user id)).2 })

/-- Drops all items. -/
def deleteAll (c : Cache) : Cache := { c with arena := {} }

/-- A sweep after some milliseconds, with the purges before their end done. -/
def Sweep.after (s : Sweep) (ms : Nat) : Sweep :=
  if ms ≤ s.left then { s with left := s.left - ms }
  else { s with left := s.every - 1 - (ms - s.left - 1) % s.every }

/-- Purges the cache if there is a sweep of which that is asked. -/
def purgeIf (c : Cache) (now : Instant) (isAsked : Sweep → Bool) : Cache :=
  if c.sweeps.any isAsked then (c.purge now).2 else c

/-- Lets time pass: sweeps that are due before it has passed purge the cache. -/
def pass (c : Cache) (now : Instant) (ms : Nat) : Cache :=
  { c.purgeIf now (·.left < ms) with sweeps := c.sweeps.map (·.after ms) }

/-- Lets those sweeps purge the cache that are due right now. -/
def settle (c : Cache) (now : Instant) : Cache :=
  { c.purgeIf now (·.left = 0) with
    sweeps := c.sweeps.map fun s => if s.left = 0 then { s with left := s.every } else s }

/-- The cache with one more sweep, counted from now on. It takes some time to be a sweep. -/
def startSweep (c : Cache) (every : Nat) : Cache :=
  if every = 0 then c else { c with sweeps := c.sweeps ++ [⟨every, every⟩] }

/-- A line about the cache for people who look into the service. -/
def describe (c : Cache) : String :=
  "MemoryItemStore \x7b entry_count: " ++ Text.decimal c.size ++ ", max_items: " ++
    Text.decimal c.capacity ++ ", ttl: TimeDelta \x7b secs: " ++
    Text.decimal c.lifetime.cap.wholeSecs ++ ", nanos: " ++
    Text.decimal c.lifetime.cap.subsecNanos ++ " \x7d \x7d"

/-- Answers a request. -/
def serve (now : Instant) : (request : Request) → Cache → Result request.Answer × Cache
  | .get user id, c => c.get now user id
  | .getMany user ids, c => c.getMany now user ids
  | .create item, c => (.ok item, c.create now item)
  | .createMany items, c => (.ok items, c.createMany now items)
  | .update item, c => c.update now item
  | .delete user id, c => c.delete user id
  | .deleteAll, c => (.ok (), c.deleteAll)

instance : Store Cache where
  serve := serve
  latency _ := 0
  pass now ms c := c.pass now ms

end Cache

end Dismissal
