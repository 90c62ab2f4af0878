import Dismissal.Event
import Dismissal.Instant.Layout
import Dismissal.Json.Printer
import Dismissal.Json.Shape

/-!
# Records

A record is the stored form of an item: the bytes of its JSON form. `encode` writes one. `decode`
reads any bytes back, and builds the item anew, so that what comes out follows the rules for items
whatever was stored.

A record is an object with the members `id`, `userId`, `createdAt` and `dismissedAt`, none of them
twice, or a list of the four values. Other members are skipped, and `dismissedAt` may be missing.
-/

namespace Dismissal

open Json (Reader Flaw)

/-- What a record says, before any rule is checked. -/
structure Record where
  id : String
  user : String
  created : Instant
  dismissed : Option Instant
  deriving DecidableEq

namespace Record

open Json.Reader

/-- The members of a record that were read so far. -/
structure Draft where
  id : Option String := none
  user : Option String := none
  created : Option Instant := none
  dismissed : Option (Option Instant) := none

/-- An instant, written as a text. -/
def instant : Reader Instant := fun bs => do
  let (s, bs) ← text bs
  match Instant.ofRecordText? s with
  | some t => .ok (t, bs)
  | none => .error .mismatched

/-- Reads one member. -/
def member (d : Draft) (name : String) : Reader Draft := fun bs =>
  match name with
  | "id" => (once d.id text bs).map fun (v, bs) => ({ d with id := some v }, bs)
  | "userId" => (once d.user text bs).map fun (v, bs) => ({ d with user := some v }, bs)
  | "createdAt" => (once d.created instant bs).map fun (v, bs) => ({ d with created := some v }, bs)
  | "dismissedAt" =>
    (once d.dismissed (optional instant) bs).map fun (v, bs) => ({ d with dismissed := some v }, bs)
  | _ => do
    let bs ← skipValue (← colon bs)
    .ok (d, bs)

/-- The record, if all members are there that must be. -/
def Draft.finish (d : Draft) : Except Flaw Record :=
  match d.id, d.user, d.created with
  | some id, some user, some created => .ok ⟨id, user, created, d.dismissed.getD none⟩
  | _, _, _ => .error .mismatched

/-- A record in either form. -/
def read : Reader Record := fun bs =>
  match skipBlanks bs with
  | 0x7B :: rest => do
    let (d, rest) ← members false member (rest.length + 1) {} rest
    .ok (← d.finish, rest)
  | 0x5B :: rest => do
    let (id, rest) ← element true text rest
    let (user, rest) ← element false text rest
    let (created, rest) ← element false instant rest
    let (dismissed, rest) ← element false (optional instant) rest
    .ok (⟨id, user, created, dismissed⟩, ← closeList rest)
  | bs => .error (mismatch bs)

/-- The record that the bytes are. -/
def ofBytes (bs : Bytes) : Except Flaw Record := do finish (← read bs)

/-- The item that a record says. -/
def item (r : Record) : Result Item := Item.create r.id r.user r.created r.dismissed

/-- The failure for bytes that are no record. -/
def undecodable : Failure := .internal "Failed to deserialize item: not a record"

/-- The bytes of an item. -/
def encode (item : Item) : Bytes := Bytes.ofText item.json.render

/-- The item that the bytes are the record of. -/
def decode (bs : Bytes) : Result Item :=
  match ofBytes bs with
  | .error _ => .error undecodable
  | .ok r => r.item

end Record

end Dismissal
