import Dismissal.Item
import Std.Data.ExtTreeMap

/-!
# The recency arena

Entries sit in numbered slots and are chained into a list from the most to the least recently used
one by the slots `newer` and `older` of each. A table leads from a key to its slot. A slot that is
given up is kept in `free` and used again before a new one is made, so there are never more slots
than entries at one time.

`keysByRecency` walks the chain from its head.
-/

namespace Dismissal.Cache

/-- One entry of the arena, with its neighbours in the chain. -/
structure Slot where
  key : String
  item : Item
  expires : Instant
  newer : Option Nat
  older : Option Nat
  deriving DecidableEq

/-- The chain of entries. -/
structure Arena where
  index : Std.ExtTreeMap String Nat := ∅
  slots : Array Slot := #[]
  free : List Nat := []
  head : Option Nat := none
  tail : Option Nat := none

/-- What a look at a key finds. -/
inductive Lookup where
  | hit (item : Item)
  | expired
  | miss
  deriving DecidableEq

namespace Arena

/-- The number of entries. -/
def size (a : Arena) : Nat := a.index.size

/-- Takes a slot out of the chain. -/
def unlink (a : Arena) (slot : Nat) : Arena :=
  match a.slots[slot]? with
  | none => a
  | some s =>
    let a := match s.newer with
      | some n => { a with slots := a.slots.modify n fun t => { t with older := s.older } }
      | none => { a with head := s.older }
    let a := match s.older with
      | some o => { a with slots := a.slots.modify o fun t => { t with newer := s.newer } }
      | none => { a with tail := s.newer }
    { a with slots := a.slots.modify slot fun t => { t with newer := none, older := none } }

/-- Puts a slot at the head of the chain. -/
def pushFront (a : Arena) (slot : Nat) : Arena :=
  let slots := a.slots.modify slot fun t => { t with newer := none, older := a.head }
  let slots := match a.head with
    | some h => slots.modify h fun t => { t with newer := some slot }
    | none => slots
  { a with slots, head := some slot, tail := a.tail.or (some slot) }

/-- Makes a slot the most recently used one. -/
def promote (a : Arena) (slot : Nat) : Arena :=
  if a.head = some slot then a else (a.unlink slot).pushFront slot

/-- Gives up the entry of a key, and tells whether there was one. -/
def remove (a : Arena) (key : String) : Bool × Arena :=
  match a.index[key]? with
  | none => (false, a)
  | some slot =>
    let a := { a with index := a.index.erase key }.unlink slot
    (true, { a with free := slot :: a.free })

/-- Gives up the least recently used entry. -/
def dropOldest (a : Arena) : Arena :=
  match a.tail with
  | none => a
  | some slot => match a.slots[slot]? with
    | none => a
    | some s => (a.remove s.key).2

/-- Looks at a key. An expired entry is given up, any other becomes the most recently used. -/
def lookup (a : Arena) (key : String) (now : Instant) : Lookup × Arena :=
  match a.index[key]? with
  | none => (.miss, a)
  | some slot => match a.slots[slot]? with
    | none => (.miss, a)
    | some s =>
      if s.expires ≤ now then (.expired, (a.remove key).2)
      else (.hit s.item, a.promote slot)

/-- Makes an entry in a free slot or in a new one, as the most recently used. -/
def enter (a : Arena) (key : String) (item : Item) (expires : Instant) : Arena :=
  let entry : Slot := ⟨key, item, expires, none, none⟩
  let (slot, a) := match a.free with
    | slot :: free => (slot, { a with free, slots := a.slots.modify slot fun _ => entry })
    | [] => (a.slots.size, { a with slots := a.slots.push entry })
  { a with index := a.index.insert key slot }.pushFront slot

/-- Stores an item under a key, as the most recently used. Where the key is new and the arena holds
`capacity` entries, the least recently used one makes room. -/
def insert (a : Arena) (key : String) (item : Item) (expires : Instant) (capacity : Nat) : Arena :=
  match a.index[key]? with
  | some slot =>
    { a with slots := a.slots.modify slot fun t => { t with item, expires } }.promote slot
  | none =>
    let a := if capacity ≤ a.size then a.dropOldest else a
    a.enter key item expires

/-- Gives up the entries of several keys, in the given order. -/
def removeAll (a : Arena) (keys : List String) : Arena :=
  keys.foldl (fun a key => (a.remove key).2) a

/-- The keys whose entries have expired. -/
def expiredKeys (a : Arena) (now : Instant) : List String :=
  (a.index.toList.filter fun (_, slot) =>
    match a.slots[slot]? with
    | some s => decide (s.expires ≤ now)
    | none => false).map (·.1)

/-- Gives up all expired entries, and tells how many there were. -/
def purge (a : Arena) (now : Instant) : Nat × Arena :=
  let keys := a.expiredKeys now
  (keys.length, a.removeAll keys)

/-- The keys along the chain from a slot on, at most `bound` of them. -/
def keysFrom (a : Arena) : Nat → Option Nat → List String
  | 0, _ => []
  | _ + 1, none => []
  | bound + 1, some slot => match a.slots[slot]? with
    | none => []
    | some s => s.key :: a.keysFrom bound s.older

/-- All keys, the most recently used first. -/
def keysByRecency (a : Arena) : List String := a.keysFrom a.slots.size a.head

end Arena

end Dismissal.Cache
