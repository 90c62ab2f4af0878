import Dismissal.Instant.Layout
import Dismissal.Store.Basic
import Dismissal.Text.Digits

/-!
# The row table

A `Table` keeps one row per item, with the user and the item identity for its primary key and the
instants as texts. A row is checked when it is read. Each statement is done wholly or not at all,
but `update` writes first and reads the row that it wrote afterwards, so that a row which cannot be
read is written nevertheless.

`getMany` asks for at most `chunkSize` items at a time, and reads the rows of a chunk in key order.
A closed table answers no statement, a frozen one no statement that writes.
-/

namespace Dismissal

namespace Table

/-- The primary key of a row. -/
structure Key where
  user : String
  id : String
  deriving DecidableEq, Repr

instance : Ord Key := ⟨compareLex (compareOn Key.user) (compareOn Key.id)⟩

instance : Std.TransOrd Key :=
  inferInstanceAs (Std.TransCmp (compareLex (compareOn Key.user) (compareOn Key.id)))

instance : Std.LawfulEqOrd Key where
  eq_of_compare {a b} h := by
    obtain ⟨ua, ia⟩ := a
    obtain ⟨ub, ib⟩ := b
    obtain ⟨hu, hi⟩ := Ordering.then_eq_eq.1 h
    simp only [Key.mk.injEq]
    exact ⟨Std.LawfulEqOrd.eq_of_compare hu, Std.LawfulEqOrd.eq_of_compare hi⟩

/-- The cells of a row beside its key. -/
structure Row where
  created : String
  dismissed : Option String
  deriving DecidableEq, Repr

end Table

/-- Rows under their primary keys. -/
structure Table where
  rows : Std.ExtTreeMap Table.Key Table.Row := ∅
  closed : Bool := false
  frozen : Bool := false

namespace Table

/-- The key of an item. -/
def keyOf (item : Item) : Key := ⟨item.user, item.id⟩

/-- The row of an item. -/
def rowOf (item : Item) : Row :=
  ⟨item.created.offsetText, item.dismissed.map Instant.offsetText⟩

/-- The failure for a row with a cell that names no instant. -/
def undecodable (column cell : String) : Failure :=
  .internal ("Failed to decode row: error occurred while decoding column \"" ++ column ++
    "\": invalid datetime: " ++ cell)

/-- The failure of a key that is taken. -/
def duplicate : Failure :=
  .conflict "UNIQUE constraint failed: dismissible_items.user_id, dismissible_items.item_id"

/-- The failure of a statement on a closed table. -/
def refused : Failure :=
  .unavailable "SQLite error: attempted to acquire a connection on a closed pool"

/-- The failure of a statement that writes to a frozen table. -/
def unwritable : Failure :=
  .unavailable
    "SQLite error: error returned from database: (code: 8) attempt to write a readonly database"

/-- The instant in a cell. -/
def readCell (column cell : String) : Result Instant :=
  match Instant.ofCellText? cell with
  | some t => .ok t
  | none => .error (undecodable column cell)

/-- The item of a row. -/
def itemOf (key : Key) (row : Row) : Result Item := do
  let created ← readCell "created_at" row.created
  let dismissed ← row.dismissed.mapM (readCell "dismissed_at")
  Item.create key.id key.user created dismissed

/-- Does a statement that reads, unless the table is closed. -/
def reading {α : Type} (t : Table) (run : Result α × Table) : Result α × Table :=
  if t.closed then (.error refused, t) else run

/-- Does a statement that writes, unless the table is closed or frozen. -/
def writing {α : Type} (t : Table) (run : Result α × Table) : Result α × Table :=
  t.reading (if t.frozen then (.error unwritable, t) else run)

/-- The item of a user, if there is a row for it. -/
def get (t : Table) (user id : String) : Result (Option Item) :=
  match t.rows[Key.mk user id]? with
  | none => .ok none
  | some row => (itemOf ⟨user, id⟩ row).map some

/-- How many items one statement asks for. -/
def chunkSize : Nat := 500

/-- The list in pieces of `chunkSize`, the last one shorter; `fuel` bounds their number. -/
def chunks {α : Type} : Nat → List α → List (List α)
  | 0, _ => []
  | _ + 1, [] => []
  | fuel + 1, xs => xs.take chunkSize :: chunks fuel (xs.drop chunkSize)

/-- The rows of a user with one of the given identities, in key order. -/
def select (t : Table) (user : String) (ids : List String) : List (Key × Row) :=
  t.rows.toList.filter fun (key, _) => key.user == user && ids.contains key.id

/-- Adds the items of rows, up to the first row that is no item. -/
def collect (found : Found) : List (Key × Row) → Result Found
  | [] => .ok found
  | (key, row) :: rest => match itemOf key row with
    | .error e => .error e
    | .ok item => collect (found.insert item.id item) rest

/-- Reads chunk after chunk. -/
def collectChunks (t : Table) (user : String) (found : Found) : List (List String) → Result Found
  | [] => .ok found
  | ids :: rest => match collect found (t.select user ids) with
    | .error e => .error e
    | .ok found => t.collectChunks user found rest

/-- Those of several items of a user for which there are rows. -/
def getMany (t : Table) (user : String) (ids : List String) : Result Found :=
  t.collectChunks user ∅ (chunks ids.length ids)

/-- Makes a row for an item. -/
def create (t : Table) (item : Item) : Result Item × Table :=
  if t.rows.contains (keyOf item) then (.error duplicate, t)
  else (.ok item, { t with rows := t.rows.insert (keyOf item) (rowOf item) })

/-- Makes rows for items in order, if no key is taken. -/
def insertAll (rows : Std.ExtTreeMap Key Row) : List Item → Option (Std.ExtTreeMap Key Row)
  | [] => some rows
  | item :: items =>
    if rows.contains (keyOf item) then none
    else insertAll (rows.insert (keyOf item) (rowOf item)) items

/-- Makes rows for all items, or for none. -/
def createMany (t : Table) (items : List Item) : Result (List Item) × Table :=
  match insertAll t.rows items with
  | some rows => (.ok items, { t with rows })
  | none => (.error duplicate, t)

/-- Writes when an item was dismissed, then reads the row. -/
def update (t : Table) (item : Item) : Result Item × Table :=
  match t.rows[keyOf item]? with
  | none => (.error .notFound, t)
  | some row =>
    let row : Row := { row with dismissed := (rowOf item).dismissed }
    (itemOf (keyOf item) row, { t with rows := t.rows.insert (keyOf item) row })

/-- Removes the row of an item, if there is one. -/
def delete (t : Table) (user id : String) : Table := { t with rows := t.rows.erase ⟨user, id⟩ }

/-- Removes all rows. -/
def deleteAll (t : Table) : Table := { t with rows := ∅ }

/-- A table with rows that were there before it was opened. -/
def ofRows (rows : List (Key × Row)) : Table := { rows := Std.ExtTreeMap.ofList rows }

/-- Ends the service of statements. -/
def close (t : Table) : Table := { t with closed := true }

/-- Opens the table once more. -/
def reopen (t : Table) : Table := { t with closed := false }

/-- The rows in the order of their keys. -/
def dump (t : Table) : List (Key × Row) := t.rows.toList

/-- A line about the table for people who look into the service. -/
def describe (t : Table) : String :=
  "SqliteItemStore \x7b pool_size: " ++ Text.decimal (if t.closed then 0 else 1) ++ " \x7d"

/-- Answers a request. A request for nothing needs no statement. -/
def serve : (request : Request) → Table → Result request.Answer × Table
  | .get user id, t => t.reading (t.get user id, t)
  | .getMany user ids, t =>
    if ids.isEmpty then (.ok ∅, t) else t.reading (t.getMany user ids, t)
  | .create item, t => t.writing (t.create item)
  | .createMany items, t =>
    if items.isEmpty then (.ok items, t) else t.writing (t.createMany items)
  | .update item, t => t.writing (t.update item)
  | .delete user id, t => t.writing (.ok (), t.delete user id)
  | .deleteAll, t => t.writing (.ok (), t.deleteAll)

instance : Store Table where
  serve _ := serve
  latency _ := 0
  pass _ _ t := t

end Table

end Dismissal
