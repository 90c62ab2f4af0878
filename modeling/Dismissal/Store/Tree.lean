import Dismissal.Store.Basic
import Dismissal.Store.Record

/-!
# The record tree

A `Tree` keeps the record of each item under the bytes of its key. Its rows last, and rows that
other programs wrote are read as they are: a row is checked when it is read, and not before.

`create` refuses a key that is taken, and `createMany` refuses the whole batch if one key is taken
or comes twice. `update` needs a row that is there, and changes nothing but when it was dismissed.
-/

namespace Dismissal

/-- Rows of bytes under keys of bytes, and how many there were when the tree was opened. -/
structure Tree where
  rows : Std.ExtTreeMap Bytes Bytes := ∅
  opened : Nat := 0

namespace Tree

/-- The bytes under which the item of a user is kept. -/
def rowKey (user id : String) : Bytes := Bytes.ofText (Identity.key user id)

/-- The bytes under which an item is kept. -/
def keyOf (item : Item) : Bytes := rowKey item.user item.id

/-- The item of a user, if there is a row for it. -/
def get (t : Tree) (user id : String) : Result (Option Item) :=
  match t.rows[rowKey user id]? with
  | none => .ok none
  | some bytes => (Record.decode bytes).map some

/-- Reads rows one after the other, each under the identity it was asked for by. -/
def getAll (t : Tree) (user : String) (found : Found) : List String → Result Found
  | [] => .ok found
  | id :: ids => match t.get user id with
    | .error e => .error e
    | .ok none => t.getAll user found ids
    | .ok (some item) => t.getAll user (found.insert id item) ids

/-- Those of several items of a user for which there are rows. -/
def getMany (t : Tree) (user : String) (ids : List String) : Result Found := t.getAll user ∅ ids

/-- Makes a row for an item. -/
def create (t : Tree) (item : Item) : Result Item × Tree :=
  if t.rows.contains (keyOf item) then
    (.error (.conflict ("item '" ++ item.key ++ "' already exists")), t)
  else (.ok item, { t with rows := t.rows.insert (keyOf item) (Record.encode item) })

/-- Makes rows for items in order, up to the first key that is taken. -/
def insertAll (rows : Std.ExtTreeMap Bytes Bytes) :
    List Item → Except Item (Std.ExtTreeMap Bytes Bytes)
  | [] => .ok rows
  | item :: items =>
    if rows.contains (keyOf item) then .error item
    else insertAll (rows.insert (keyOf item) (Record.encode item)) items

/-- Makes rows for all items, or for none. -/
def createMany (t : Tree) (items : List Item) : Result (List Item) × Tree :=
  match insertAll t.rows items with
  | .ok rows => (.ok items, { t with rows })
  | .error item =>
    (.error (.conflict ("batch rejected: item '" ++ item.key ++ "' already exists")), t)

/-- Writes when an item was dismissed into the row under its key, and keeps all else of the row. -/
def update (t : Tree) (item : Item) : Result Item × Tree :=
  match t.rows[keyOf item]? with
  | none => (.error .notFound, t)
  | some bytes => match Record.decode bytes with
    | .error e => (.error e, t)
    | .ok stored => match Item.create stored.id stored.user stored.created item.dismissed with
      | .error e => (.error e, t)
      | .ok merged =>
        (.ok merged, { t with rows := t.rows.insert (keyOf item) (Record.encode merged) })

/-- Removes the row of an item, if there is one. -/
def delete (t : Tree) (user id : String) : Tree := { t with rows := t.rows.erase (rowKey user id) }

/-- Removes all rows. -/
def deleteAll (t : Tree) : Tree := { t with rows := ∅ }

/-- A tree with rows that were there before it was opened. -/
def ofRows (rows : List (Bytes × Bytes)) : Tree :=
  let rows := Std.ExtTreeMap.ofList rows
  { rows, opened := rows.size }

/-- Opens the tree once more. -/
def reopen (t : Tree) : Tree := { t with opened := t.rows.size }

/-- The rows in the order of their keys. -/
def dump (t : Tree) : List (Bytes × Bytes) := t.rows.toList

/-- A line about the tree for people who look into the service. -/
def describe (t : Tree) : String := "SledItemStore \x7b items: " ++ Text.decimal t.opened ++ " \x7d"

/-- Answers a request. -/
def serve : (request : Request) → Tree → Result request.Answer × Tree
  | .get user id, t => (t.get user id, t)
  | .getMany user ids, t => (t.getMany user ids, t)
  | .create item, t => t.create item
  | .createMany items, t => t.createMany items
  | .update item, t => t.update item
  | .delete user id, t => (.ok (), t.delete user id)
  | .deleteAll, t => (.ok (), t.deleteAll)

instance : Store Tree where
  serve _ := serve
  latency _ := 0
  pass _ _ t := t

end Tree

end Dismissal
