import Dismissal.Proofs.Identity.WellFormed
import Dismissal.Proofs.Store.FaultyLaws
import Dismissal.Proofs.Store.Rows
import Dismissal.Store.Timed

/-!
# Garbled rows

Rows that other programs wrote can say anything. What a row says is taken down before any rule is
checked (`Said`): it may be noise, or a record that breaks the rules for items; both are `Garbled`.
A look at a row is `Faithful`: it gives an item exactly if the row says just that item, and fails
exactly if the row is garbled.

* `Tree.get_faithful`, `Table.get_faithful`: looks are faithful, whatever the rows say.
-/

namespace Dismissal

/-- What a record says follows the rules for items. -/
structure Record.WellFormed (r : Record) : Prop where
  id : Identity.WellFormed r.id
  user : Identity.WellFormed r.user
  ordered : ∀ at_ ∈ r.dismissed, r.created ≤ at_

/-- The record that says an item. -/
def Item.record (item : Item) : Record := ⟨item.id, item.user, item.created, item.dismissed⟩

/-- What stands in the place of a row: nothing, what is no record, or a record. -/
inductive Said where
  | nothing
  | noise
  | record (r : Record)
  deriving DecidableEq

/-- There is a row, and it does not say an item. -/
def Said.Garbled : Said → Prop
  | nothing => False
  | noise => True
  | record r => ¬r.WellFormed

/-- The record that a row is, if it is one. -/
def Said.ofRow? : Option Record → Said
  | none => noise
  | some r => record r

/-- A look gives the items that are said and no others, and fails where a row is garbled. -/
structure Faithful (said : Said) (answer : Result (Option Item)) : Prop where
  found_iff : ∀ item, answer = .ok (some item) ↔ said = .record item.record
  failed_iff : (∃ e, answer = .error e) ↔ said.Garbled

section Records

variable {r : Record} {item : Item}

/-- Every item follows the rules. -/
theorem Item.wellFormed (item : Item) : item.record.WellFormed :=
  ⟨Identity.valid_iff.1 item.id_valid, Identity.valid_iff.1 item.user_valid, item.created_le⟩

theorem Record.item_eq_ok_iff : r.item = .ok item ↔ r = item.record := by
  constructor
  · intro h
    obtain ⟨hid, huser, hcreated, hdismissed⟩ := Item.create_parts h
    unfold Item.record
    rw [hid, huser, hcreated, hdismissed]
  · rintro rfl
    exact Item.create_self item

/-- A record makes an item exactly if it follows the rules. -/
theorem Record.item_error_iff : (∃ e, r.item = .error e) ↔ ¬r.WellFormed := by
  have hok : (∃ item, r.item = .ok item) ↔ r.WellFormed := by
    unfold Record.item
    rw [Item.create_eq_ok_iff, Identity.valid_iff, Identity.valid_iff]
    exact ⟨fun h => ⟨h.1, h.2.1, h.2.2⟩, fun h => ⟨h.id, h.user, h.ordered⟩⟩
  rw [← hok]
  cases r.item with
  | error e => simp
  | ok item => simp

/-- What a record says is read faithfully. -/
theorem faithful_record (r : Record) : Faithful (.record r) (r.item.map some) := by
  constructor
  · intro item
    rw [Said.record.injEq, ← Record.item_eq_ok_iff]
    cases r.item with
    | error e => exact ⟨fun h => (by cases h), fun h => by cases h⟩
    | ok x => exact ⟨fun h => (by cases h; rfl), fun h => by cases h; rfl⟩
  · rw [show (Said.record r).Garbled ↔ ¬r.WellFormed from Iff.rfl, ← Record.item_error_iff]
    cases r.item with
    | error e => exact ⟨fun _ => ⟨e, rfl⟩, fun _ => ⟨e, rfl⟩⟩
    | ok x => exact ⟨fun ⟨_, h⟩ => (by cases h), fun ⟨_, h⟩ => by cases h⟩

theorem faithful_noise (e : Failure) : Faithful .noise (.error e) :=
  ⟨fun _ => ⟨fun h => (by cases h), fun h => by cases h⟩, ⟨fun _ => trivial, fun _ => ⟨e, rfl⟩⟩⟩

theorem faithful_nothing : Faithful .nothing (.ok none) :=
  ⟨fun _ => ⟨fun h => (by cases h), fun h => by cases h⟩,
    ⟨fun ⟨_, h⟩ => (by cases h), fun h => h.elim⟩⟩

end Records

/-! ## Trees -/

namespace Tree

variable {t : Tree} {user id : String}

/-- What the row of an item of a user says. -/
def said (t : Tree) (user id : String) : Said :=
  match t.rows[rowKey user id]? with
  | none => .nothing
  | some bytes => .ofRow? (Record.ofBytes bytes).toOption

theorem get_faithful (t : Tree) (user id : String) :
    Faithful (t.said user id) (t.get user id) := by
  unfold said get
  cases t.rows[rowKey user id]? with
  | none => exact faithful_nothing
  | some bytes =>
    simp only [Record.decode]
    cases Record.ofBytes bytes with
    | error flaw => exact faithful_noise _
    | ok r => exact faithful_record r

end Tree

/-! ## Tables -/

namespace Table

variable {t : Table} {user id : String}

/-- The record that a row is, if its cells are those of instants. -/
def recordOf? (key : Key) (row : Row) : Option Record := do
  let created ← Instant.ofCellText? row.created
  let dismissed ← row.dismissed.mapM Instant.ofCellText?
  some ⟨key.id, key.user, created, dismissed⟩

/-- What the row of an item of a user says. -/
def said (t : Table) (user id : String) : Said :=
  match t.rows[Key.mk user id]? with
  | none => .nothing
  | some row => .ofRow? (recordOf? ⟨user, id⟩ row)

/-- Cells that instants were written to are read back. -/
theorem recordOf?_offsetText (key : Key) (created : Instant) (dismissed : Option Instant) :
    recordOf? key ⟨created.offsetText, dismissed.map Instant.offsetText⟩ =
      some ⟨key.id, key.user, created, dismissed⟩ := by
  unfold recordOf?
  rw [Instant.ofCellText?_offsetText]
  cases dismissed with
  | none => rfl
  | some at_ =>
    simp only [Option.map_some, Option.mapM_some, Instant.ofCellText?_offsetText]
    rfl

theorem readCell_eq (column cell : String) : readCell column cell =
    ((Instant.ofCellText? cell).map Except.ok).getD (.error (undecodable column cell)) := by
  unfold readCell
  cases Instant.ofCellText? cell <;> rfl

theorem itemOf_faithful (key : Key) (row : Row) :
    Faithful (.ofRow? (recordOf? key row)) ((itemOf key row).map some) := by
  unfold recordOf? itemOf
  rw [readCell_eq]
  cases hcreated : Instant.ofCellText? row.created with
  | none => exact faithful_noise _
  | some created =>
    cases hrow : row.dismissed with
    | none => exact faithful_record ⟨key.id, key.user, created, none⟩
    | some cell =>
      simp only [Option.mapM_some, readCell_eq]
      cases hdismissed : Instant.ofCellText? cell with
      | none => exact faithful_noise _
      | some at_ => exact faithful_record ⟨key.id, key.user, created, some at_⟩

theorem get_faithful (t : Table) (user id : String) :
    Faithful (t.said user id) (t.get user id) := by
  unfold said get
  cases t.rows[Key.mk user id]? with
  | none => exact faithful_nothing
  | some row => exact itemOf_faithful _ row

end Table

end Dismissal
