import Dismissal.Proofs.Store.BackendLaws
import Dismissal.Proofs.Store.TableFailures
import Mathlib.Data.Option.Basic

/-!
# The rows of a backend

What a tree and a table keep, taken together: a `StoredRow` is the bytes of a record or the cells of
a row, a `Slot` is the key under which it stands. The rows of a backend that requests have led to
are `Orderly`, so that each of them tells when its item was created (`Orderly.created`).

* `Orderly.serve_adds`: looks and creations leave each row as it is (`RowsStay`).
* `Orderly.serve_update`: an update writes a dismissal into the row of its item, and changes nothing
  else (`OnlyRedates`).
-/

namespace Dismissal

/-- Where a row stands: the key of a tree, or that of a table. -/
inductive Slot where
  | bytes (key : Bytes)
  | pair (key : Table.Key)
  deriving DecidableEq

/-- What stands there: the bytes of a tree, or the cells of a table. -/
inductive StoredRow where
  | record (bytes : Bytes)
  | cells (row : Table.Row)
  deriving DecidableEq

namespace StoredRow

/-- When the item of a row was created, as the row tells. -/
def created? : StoredRow → Option Instant
  | record bytes => (Record.ofBytes bytes).toOption.map Record.created
  | cells row => Instant.ofCellText? row.created

/-- Two rows tell the same, but for the dismissal. -/
inductive Redated : StoredRow → StoredRow → Prop where
  | record {bytes bytes' : Bytes} {r : Record} (dismissed : Option Instant) :
    Record.ofBytes bytes = .ok r → Record.ofBytes bytes' = .ok { r with dismissed } →
    Redated (record bytes) (record bytes')
  | cells (row : Table.Row) (dismissed : Option String) :
    Redated (cells row) (cells { row with dismissed })

theorem Redated.created_eq {row row' : StoredRow} (h : Redated row row') :
    row'.created? = row.created? := by
  cases h with
  | record dismissed hbytes hbytes' =>
    simp only [created?, hbytes, hbytes']
    rfl
  | cells row dismissed => rfl

theorem redated_encode {item next : Item} (hid : next.id = item.id) (huser : next.user = item.user)
    (hcreated : next.created = item.created) :
    Redated (record (Record.encode item)) (record (Record.encode next)) := by
  refine .record next.dismissed (Record.ofBytes_encode item) ?_
  rw [Record.ofBytes_encode, hid, huser, hcreated]

end StoredRow

namespace Backend

/-- The row in a slot. A cache has none. -/
def row? : Backend → Slot → Option StoredRow
  | tree t, .bytes key => t.rows[key]?.map .record
  | table t, .pair key => t.rows[key]?.map .cells
  | _, _ => none

/-- The slot for an item of a user. -/
def slot : Backend → String → String → Slot
  | tree _, user, id => .bytes (Tree.rowKey user id)
  | _, user, id => .pair ⟨user, id⟩

/-- Each row that was there is there as it was. -/
def RowsStay (b b' : Backend) : Prop :=
  ∀ slot row, b.row? slot = some row → b'.row? slot = some row

/-- Nothing is different but the dismissal in one row, if it is there. -/
structure OnlyRedates (slot : Slot) (b b' : Backend) : Prop where
  others : ∀ other, other ≠ slot → b'.row? other = b.row? other
  redated : Option.Rel StoredRow.Redated (b.row? slot) (b'.row? slot)

/-- The rows of a tree are the records that it writes, those of a table have the cells of
instants. -/
inductive Orderly : Backend → Prop where
  | tree {t : Tree} : t.Written → Orderly (tree t)
  | table {t : Table} : t.Regular → Orderly (table t)

section Rows

variable {b b' b'' : Backend} {slot : Slot} {row : StoredRow}

theorem RowsStay.refl (b : Backend) : b.RowsStay b := fun _ _ h => h

theorem RowsStay.trans (h : b.RowsStay b') (h' : b'.RowsStay b'') : b.RowsStay b'' :=
  fun slot row hrow => h' slot row (h slot row hrow)

theorem Orderly.serve (h : b.Orderly) (now : Instant) (request : Request) :
    (Store.serve now request b).2.Orderly := by
  cases h with
  | tree h => exact .tree (h.serve request)
  | table h => exact .table (h.serve request)

theorem Reachable.orderly (h : b.Reachable) : b.Orderly := by
  induction h with
  | tree => exact .tree fun _ _ hrow => by simp at hrow
  | table => exact .table Table.empty_regular
  | serve now request _ ih => exact ih.serve now request

/-- Each row is one that differs from itself in the dismissal at most. -/
theorem Orderly.redated (h : b.Orderly) (hrow : b.row? slot = some row) : row.Redated row := by
  cases h with
  | @tree t h =>
    cases slot with
    | pair key => cases hrow
    | bytes key =>
      obtain ⟨bytes, hbytes, rfl⟩ := Option.map_eq_some_iff.1 hrow
      obtain ⟨item, -, rfl⟩ := h key bytes hbytes
      exact StoredRow.redated_encode rfl rfl rfl
  | @table t h =>
    cases slot with
    | bytes key => cases hrow
    | pair key =>
      obtain ⟨row, -, rfl⟩ := Option.map_eq_some_iff.1 hrow
      exact .cells row row.dismissed

/-- Each row tells when its item was created. -/
theorem Orderly.created (h : b.Orderly) (hrow : b.row? slot = some row) :
    ∃ created, row.created? = some created := by
  cases h with
  | @tree t h =>
    cases slot with
    | pair key => cases hrow
    | bytes key =>
      obtain ⟨bytes, hbytes, rfl⟩ := Option.map_eq_some_iff.1 hrow
      obtain ⟨item, -, rfl⟩ := h key bytes hbytes
      refine ⟨item.created, ?_⟩
      simp only [StoredRow.created?, Record.ofBytes_encode]
      rfl
  | @table t h =>
    cases slot with
    | bytes key => cases hrow
    | pair key =>
      obtain ⟨row, hcells, rfl⟩ := Option.map_eq_some_iff.1 hrow
      obtain ⟨created, dismissed, rfl⟩ := h.dated key row hcells
      exact ⟨created, Instant.ofCellText?_offsetText created⟩

theorem Orderly.onlyRedates_refl (h : b.Orderly) (slot : Slot) : OnlyRedates slot b b := by
  refine ⟨fun _ _ => rfl, ?_⟩
  cases hrow : b.row? slot with
  | none => exact .none
  | some row => exact .some (h.redated hrow)

end Rows

/-! ## Requests -/

section Vacant

variable {κ ν : Type} [Ord κ] [Std.TransOrd κ] [Std.LawfulEqOrd κ] [DecidableEq κ]

/-- A key that is not taken is not the key of a row. -/
theorem getElem?_insert_vacant {rows : Std.ExtTreeMap κ ν} {key other : κ} {value new : ν}
    (hvacant : ¬rows.contains key = true) (hrow : rows[other]? = some value) :
    (rows.insert key new)[other]? = some value := by
  rw [getElem?_insert_eq, if_neg, hrow]
  rintro rfl
  exact hvacant (by rw [Std.ExtTreeMap.contains_eq_isSome_getElem?, hrow]; rfl)

end Vacant

section Tree

variable {t : Tree} {key bytes : Bytes}

theorem tree_insertAll_keeps {rows rows' : Std.ExtTreeMap Bytes Bytes} {items : List Item}
    (hrows : Tree.insertAll rows items = .ok rows') (hrow : rows[key]? = some bytes) :
    rows'[key]? = some bytes := by
  induction items generalizing rows with
  | nil =>
    cases hrows
    exact hrow
  | cons item items ih =>
    unfold Tree.insertAll at hrows
    split at hrows
    · cases hrows
    · rename_i hvacant
      exact ih hrows (getElem?_insert_vacant hvacant hrow)

theorem tree_adds {request : Request} (hadds : request.Adds) (hrow : t.rows[key]? = some bytes) :
    (Tree.serve request t).2.rows[key]? = some bytes := by
  cases request with
  | get user id => exact hrow
  | getMany user ids => exact hrow
  | create item =>
    show (t.create item).2.rows[key]? = _
    unfold Tree.create
    split
    · exact hrow
    · rename_i hvacant
      exact getElem?_insert_vacant hvacant hrow
  | createMany items =>
    show (t.createMany items).2.rows[key]? = _
    unfold Tree.createMany
    split
    · rename_i hrows
      exact tree_insertAll_keeps hrows hrow
    · exact hrow
  | update item => exact hadds.elim
  | delete user id => exact hadds.elim
  | deleteAll => exact hadds.elim

theorem tree_update (h : t.Written) (item : Item) :
    OnlyRedates (.bytes (Tree.keyOf item)) (tree t) (tree (t.update item).2) := by
  have hsame := (Orderly.tree h).onlyRedates_refl (.bytes (Tree.keyOf item))
  have hupdated := t.updated item
  generalize t.update item = r at hupdated ⊢
  cases hupdated with
  | refused _ => exact hsame
  | written hrow hdec hmerged =>
    obtain ⟨stored, -, rfl⟩ := h _ _ hrow
    cases (Record.decode_encode stored).symm.trans hdec
    obtain ⟨hid, huser, hcreated, -⟩ := Item.create_parts hmerged
    constructor
    · intro other hother
      cases other with
      | pair key => rfl
      | bytes key =>
        have hne : Tree.keyOf item ≠ key := fun heq => hother (by rw [heq])
        simp only [row?, getElem?_insert_eq, if_neg hne]
    · simp only [row?, hrow, getElem?_insert_eq, ↓reduceIte, Option.map_some]
      exact .some (StoredRow.redated_encode hid huser hcreated)

end Tree

section Table

variable {t : Table} {key : Table.Key} {row : Table.Row}

theorem table_insertAll_keeps {rows rows' : Std.ExtTreeMap Table.Key Table.Row}
    {items : List Item} (hrows : Table.insertAll rows items = some rows')
    (hrow : rows[key]? = some row) : rows'[key]? = some row := by
  induction items generalizing rows with
  | nil =>
    cases hrows
    exact hrow
  | cons item items ih =>
    unfold Table.insertAll at hrows
    split at hrows
    · cases hrows
    · rename_i hvacant
      exact ih hrows (getElem?_insert_vacant hvacant hrow)

theorem reading_keeps {α : Type} {P : Table → Prop} {run : Result α × Table} (h : P t)
    (hrun : P run.2) : P (t.reading run).2 := by
  unfold Table.reading
  split
  · exact h
  · exact hrun

theorem writing_keeps {α : Type} {P : Table → Prop} {run : Result α × Table} (h : P t)
    (hrun : P run.2) : P (t.writing run).2 := by
  unfold Table.writing
  refine reading_keeps h ?_
  split
  · exact h
  · exact hrun

theorem table_adds {request : Request} (hadds : request.Adds) (hrow : t.rows[key]? = some row) :
    (Table.serve request t).2.rows[key]? = some row := by
  let P (t : Table) : Prop := t.rows[key]? = some row
  cases request with
  | get user id => exact reading_keeps (P := P) hrow hrow
  | getMany user ids =>
    show P (ite _ _ _ : Result Found × Table).2
    split
    · exact hrow
    · exact reading_keeps (P := P) hrow hrow
  | create item =>
    refine writing_keeps (P := P) hrow ?_
    unfold Table.create
    split
    · exact hrow
    · rename_i hvacant
      exact getElem?_insert_vacant hvacant hrow
  | createMany items =>
    show P (ite _ _ _ : Result (List Item) × Table).2
    split
    · exact hrow
    · refine writing_keeps (P := P) hrow ?_
      unfold Table.createMany
      split
      · rename_i hrows
        exact table_insertAll_keeps hrows hrow
      · exact hrow
  | update item => exact hadds.elim
  | delete user id => exact hadds.elim
  | deleteAll => exact hadds.elim

theorem table_update (h : t.Regular) (item : Item) :
    OnlyRedates (.pair (Table.keyOf item)) (table t) (table (t.update item).2) := by
  unfold Table.update
  split
  · exact (Orderly.table h).onlyRedates_refl _
  · rename_i row hrow
    constructor
    · intro other hother
      cases other with
      | bytes key => rfl
      | pair key =>
        have hne : Table.keyOf item ≠ key := fun heq => hother (by rw [heq])
        simp only [row?, getElem?_insert_eq, if_neg hne]
    · simp only [row?, hrow, getElem?_insert_eq, ↓reduceIte, Option.map_some]
      exact .some (.cells row _)

end Table

section Requests

variable {b : Backend} {request : Request}

/-- **Looks and creations leave all rows as they are.** -/
theorem Orderly.serve_adds (h : b.Orderly) (now : Instant) (hadds : request.Adds) :
    b.RowsStay (Store.serve now request b).2 := by
  intro slot row hrow
  cases h with
  | @tree t h =>
    cases slot with
    | pair key => cases hrow
    | bytes key =>
      obtain ⟨bytes, hbytes, rfl⟩ := Option.map_eq_some_iff.1 hrow
      exact Option.map_eq_some_iff.2 ⟨bytes, tree_adds hadds hbytes, rfl⟩
  | @table t h =>
    cases slot with
    | bytes key => cases hrow
    | pair key =>
      obtain ⟨row, hcells, rfl⟩ := Option.map_eq_some_iff.1 hrow
      exact Option.map_eq_some_iff.2 ⟨row, table_adds hadds hcells, rfl⟩

/-- **An update changes a dismissal at most.** -/
theorem Orderly.serve_update (h : b.Orderly) (now : Instant) (item : Item) :
    OnlyRedates (b.slot item.user item.id) b (Store.serve now (.update item) b).2 := by
  cases h with
  | tree h => exact tree_update h item
  | @table t h =>
    show OnlyRedates _ _ (Backend.table (Table.serve (.update item) t).2)
    rw [Table.serve_update h.isOpen]
    exact table_update h item

end Requests

end Backend

end Dismissal
