import Dismissal.Proofs.Store.Rows
import Mathlib.Data.List.Nodup

/-!
# Batches of new items

A tree and a table create a batch wholly or not at all. Whether they do is read off the batch and
the rows: `Free` says that no key of the batch comes twice and that none of its slots is taken.
`write` puts the row of one item into its slot; a batch that gets through leaves what writing its
items one by one leaves, in whatever order (`Free.foldl_write_perm`). A batch that does not is
refused for the first item that meets a row or an earlier item (`FirstTaken`).

* `serve_createMany`: the answer to a batch, and what it leaves behind.
* `createEach_free`: what the creation of its items one by one leaves behind.
* `createMany_atomic`: both together.
-/

namespace Dismissal

/-- Creates items by one request for each of them. -/
def createEach {σ : Type} [Store σ] (now : Instant) : List Item → σ → List (Result Item) × σ
  | [], s => ([], s)
  | item :: items, s =>
    let (answer, s) := Store.serve now (.create item) s
    let (answers, s) := createEach now items s
    (answer :: answers, s)

/-- A key has no row if it is not taken, whatever becomes of the row. -/
theorem map_getElem?_eq_none_iff {κ ν ν' : Type} [Ord κ] [Std.TransOrd κ]
    {rows : Std.ExtTreeMap κ ν} {key : κ} {f : ν → ν'} :
    rows[key]?.map f = none ↔ ¬rows.contains key = true := by
  rw [Option.map_eq_none_iff, Std.ExtTreeMap.contains_eq_isSome_getElem?,
    Option.not_isSome_iff_eq_none]

namespace Backend

/-- The backend is a tree, or a table that answers all statements. -/
def Writable : Backend → Prop
  | cache _ => False
  | tree _ => True
  | table t => t.Open

/-- The slot of an item. -/
def slotOf (b : Backend) (item : Item) : Slot := b.slot item.user item.id

/-- The row that is written for an item. -/
def rowOf : Backend → Item → StoredRow
  | tree _, item => .record (Record.encode item)
  | _, item => .cells (Table.rowOf item)

/-- The failure of a batch that holds an item which cannot be created. -/
def rejection : Backend → Item → Failure
  | tree _, item => .conflict ("batch rejected: item '" ++ item.key ++ "' already exists")
  | _, _ => Table.duplicate

/-- What a batch comes to, if its items were written or one of them was in the way. -/
def answerBatch (b : Backend) (items : List Item) :
    Except Item Backend → Result (List Item) × Backend
  | .ok b' => (.ok items, b')
  | .error item => (.error (b.rejection item), b)

/-- The backend with the row of an item in its slot. -/
def write : Backend → Item → Backend
  | cache c, _ => cache c
  | tree t, item =>
    tree { t with rows := t.rows.insert (Tree.keyOf item) (Record.encode item) }
  | table t, item =>
    table { t with rows := t.rows.insert (Table.keyOf item) (Table.rowOf item) }

/-- No key of a batch comes twice, and none of its items has a row. -/
def Free (b : Backend) (items : List Item) : Prop :=
  (items.map Item.key).Nodup ∧ ∀ item ∈ items, b.row? (b.slotOf item) = none

/-- The first item of a batch that has a row or the key of an earlier item. -/
def FirstTaken (b : Backend) (items : List Item) (item : Item) : Prop :=
  ∃ before after, items = before ++ item :: after ∧ b.Free before ∧
    (b.row? (b.slotOf item) ≠ none ∨ item.key ∈ before.map Item.key)

/-- The rows of a backend and one for each item of a batch. -/
structure Gains (b : Backend) (items : List Item) (b' : Backend) : Prop where
  new : ∀ item ∈ items, b'.row? (b.slotOf item) = some (b.rowOf item)
  old : ∀ slot, slot ∉ items.map b.slotOf → b'.row? slot = b.row? slot

/-! ## Writing one row -/

section Write

variable {b : Backend} {item x y : Item} {items : List Item}

theorem key_eq_key_iff : x.key = y.key ↔ x.user = y.user ∧ x.id = y.id :=
  Identity.key_eq_key_iff x.user_valid x.id_valid

theorem tree_keyOf_eq_iff : Tree.keyOf x = Tree.keyOf y ↔ x.key = y.key := by
  rw [key_eq_key_iff, eq_comm, @eq_comm _ x.user, @eq_comm _ x.id]
  exact Tree.keyOf_eq_rowKey_iff.trans (and_congr eq_comm eq_comm)

theorem table_keyOf_eq_iff : Table.keyOf x = Table.keyOf y ↔ x.key = y.key := by
  rw [key_eq_key_iff, Table.keyOf, Table.keyOf, Table.Key.mk.injEq]

/-- Items with different keys have different slots. -/
theorem slotOf_eq_iff : b.slotOf x = b.slotOf y ↔ x.key = y.key := by
  cases b with
  | tree t =>
    rw [← tree_keyOf_eq_iff]
    exact ⟨Slot.bytes.inj, congrArg Slot.bytes⟩
  | cache c =>
    rw [← table_keyOf_eq_iff]
    exact ⟨Slot.pair.inj, congrArg Slot.pair⟩
  | table t =>
    rw [← table_keyOf_eq_iff]
    exact ⟨Slot.pair.inj, congrArg Slot.pair⟩

@[simp] theorem slotOf_write : (b.write item).slotOf = b.slotOf := by
  cases b <;> rfl

@[simp] theorem rowOf_write : (b.write item).rowOf = b.rowOf := by
  cases b <;> rfl

theorem Writable.write (h : b.Writable) (item : Item) : (b.write item).Writable := by
  cases b with
  | cache c => exact h
  | tree t => exact h
  | table t => exact h

theorem Writable.row?_write (h : b.Writable) (item : Item) (slot : Slot) :
    (b.write item).row? slot =
      if b.slotOf item = slot then some (b.rowOf item) else b.row? slot := by
  cases b with
  | cache c => exact h.elim
  | tree t =>
    cases slot with
    | bytes key =>
      simp only [Backend.write, row?, getElem?_insert_eq, slotOf, Backend.slot, Slot.bytes.injEq,
        rowOf]
      rw [← Tree.keyOf]
      split <;> rfl
    | pair key => rfl
  | table t =>
    cases slot with
    | bytes key => rfl
    | pair key =>
      simp only [Backend.write, row?, getElem?_insert_eq, slotOf, Backend.slot, Slot.pair.injEq,
        rowOf]
      rw [← Table.keyOf]
      split <;> rfl

/-- Writing an item changes the row of no item with another key. -/
theorem Writable.row?_slotOf_write (h : b.Writable) (x y : Item) : (b.write x).row? (b.slotOf y) =
    if x.key = y.key then some (b.rowOf x) else b.row? (b.slotOf y) := by
  simp only [h.row?_write, slotOf_eq_iff]

/-- It does not matter which of two different items is written first. -/
theorem write_comm (hne : x.key ≠ y.key) : (b.write x).write y = (b.write y).write x := by
  have hinsert {κ ν : Type} [Ord κ] [Std.TransOrd κ] [Std.LawfulEqOrd κ] [DecidableEq κ]
      (rows : Std.ExtTreeMap κ ν) {k k' : κ} (v v' : ν) (hne : k ≠ k') :
      (rows.insert k v).insert k' v' = (rows.insert k' v').insert k v := by
    refine Std.ExtTreeMap.ext_getElem? fun key => ?_
    simp only [getElem?_insert_eq]
    by_cases h : k = key
    · subst h
      simp only [hne.symm, ↓reduceIte]
    · simp only [h, ↓reduceIte]
  cases b with
  | cache c => rfl
  | tree t =>
    simp only [write]
    rw [hinsert _ _ _ (mt tree_keyOf_eq_iff.1 hne)]
  | table t =>
    simp only [write]
    rw [hinsert _ _ _ (mt table_keyOf_eq_iff.1 hne)]

/-- The creation of an item without a row writes its row. -/
theorem Writable.serve_create (h : b.Writable) (now : Instant)
    (hvacant : b.row? (b.slotOf item) = none) :
    Store.serve now (.create item) b = (.ok item, b.write item) := by
  cases b with
  | cache c => exact h.elim
  | tree t =>
    have hrow : t.rows[Tree.keyOf item]? = none := Option.map_eq_none_iff.1 hvacant
    show ((t.create item).1, tree (t.create item).2) = _
    rw [Tree.create_vacant (Tree.get_eq_none_iff.2 hrow)]
    rfl
  | table t =>
    have hrow : t.rows[Table.keyOf item]? = none := Option.map_eq_none_iff.1 hvacant
    show ((Table.serve (.create item) t).1, table (Table.serve (.create item) t).2) = _
    rw [Table.serve_create_vacant h (Table.get_eq_none_iff.2 hrow)]
    rfl

end Write

/-! ## Writing a batch -/

/-- Writes items one after the other, up to the first that has a row. -/
def writeAll (b : Backend) : List Item → Except Item Backend
  | [] => .ok b
  | item :: items =>
    if b.row? (b.slotOf item) = none then (b.write item).writeAll items else .error item

section Batch

variable {b : Backend} {item : Item} {items order : List Item}

theorem Free.cons_iff (h : b.Writable) : b.Free (item :: items) ↔
    b.row? (b.slotOf item) = none ∧ (b.write item).Free items := by
  have hrow (other : Item) : (b.write item).row? ((b.write item).slotOf other) = none ↔
      item.key ≠ other.key ∧ b.row? (b.slotOf other) = none := by
    rw [slotOf_write, h.row?_slotOf_write]
    by_cases heq : item.key = other.key
    · simp [heq]
    · simp [heq]
  simp only [Free, List.map_cons, List.nodup_cons, List.mem_cons, forall_eq_or_imp, List.mem_map,
    hrow]
  constructor
  · rintro ⟨⟨hne, hnodup⟩, hvacant, hall⟩
    refine ⟨hvacant, hnodup, fun other hmem => ⟨fun heq => ?_, hall other hmem⟩⟩
    exact hne ⟨other, hmem, heq.symm⟩
  · rintro ⟨hvacant, hnodup, hall⟩
    refine ⟨⟨?_, hnodup⟩, hvacant, fun other hmem => (hall other hmem).2⟩
    rintro ⟨other, hmem, heq⟩
    exact (hall other hmem).1 heq.symm

theorem Free.perm (h : b.Free items) (hperm : order.Perm items) : b.Free order :=
  ⟨(hperm.map Item.key).nodup_iff.2 h.1, fun item hmem => h.2 item (hperm.mem_iff.1 hmem)⟩

/-- What a batch leaves does not depend on its order. -/
theorem Free.foldl_write_perm (h : b.Free items) (hperm : order.Perm items) :
    order.foldl write b = items.foldl write b := by
  refine hperm.foldl_eq' (fun x hx y hy b => ?_) b
  by_cases heq : x.key = y.key
  · rw [List.inj_on_of_nodup_map (h.perm hperm).1 hx hy heq]
  · exact write_comm heq

/-- A batch that is free is written item by item. -/
theorem writeAll_free (h : b.Writable) (hfree : b.Free items) :
    b.writeAll items = .ok (items.foldl write b) := by
  induction items generalizing b with
  | nil => rfl
  | cons item items ih =>
    obtain ⟨hvacant, hrest⟩ := (Free.cons_iff h).1 hfree
    unfold writeAll
    rw [if_pos hvacant]
    exact ih (h.write item) hrest

/-- A batch that is not free stops at the first item that is in the way. -/
theorem writeAll_taken (h : b.Writable) (hfree : ¬b.Free items) :
    ∃ item, b.FirstTaken items item ∧ b.writeAll items = .error item := by
  induction items generalizing b with
  | nil => exact absurd ⟨List.nodup_nil, fun _ hmem => absurd hmem List.not_mem_nil⟩ hfree
  | cons first items ih =>
    unfold writeAll
    by_cases hvacant : b.row? (b.slotOf first) = none
    · rw [if_pos hvacant]
      obtain ⟨item, ⟨before, after, rfl, hbefore, htaken⟩, hstop⟩ :=
        ih (h.write first) fun hrest => hfree ((Free.cons_iff h).2 ⟨hvacant, hrest⟩)
      refine ⟨item, ⟨first :: before, after, rfl, ?_, ?_⟩, hstop⟩
      · exact (Free.cons_iff h).2 ⟨hvacant, hbefore⟩
      · rw [slotOf_write, h.row?_slotOf_write] at htaken
        by_cases heq : first.key = item.key
        · exact .inr (heq ▸ List.mem_cons_self)
        · rw [if_neg heq] at htaken
          exact htaken.imp_right (List.mem_cons_of_mem _)
    · rw [if_neg hvacant]
      refine ⟨first, ⟨[], items, rfl, ?_, .inl hvacant⟩, rfl⟩
      exact ⟨List.nodup_nil, fun _ hmem => absurd hmem List.not_mem_nil⟩

theorem Gains.of_free (h : b.Writable) (hfree : b.Free items) :
    b.Gains items (items.foldl write b) := by
  induction items generalizing b with
  | nil => exact ⟨fun _ hmem => absurd hmem List.not_mem_nil, fun _ _ => rfl⟩
  | cons first items ih =>
    obtain ⟨hvacant, hrest⟩ := (Free.cons_iff h).1 hfree
    obtain ⟨hnew, hold⟩ := ih (h.write first) hrest
    rw [slotOf_write] at hnew hold
    rw [rowOf_write] at hnew
    have hfirst : b.slotOf first ∉ items.map b.slotOf := by
      intro hmem
      obtain ⟨other, hother, heq⟩ := List.mem_map.1 hmem
      have hkeys : first.key ∉ items.map Item.key := (List.nodup_cons.1 hfree.1).1
      exact hkeys (slotOf_eq_iff.1 heq ▸ List.mem_map_of_mem hother)
    constructor
    · intro item hmem
      rcases List.mem_cons.1 hmem with rfl | hmem
      · rw [List.foldl_cons, hold _ hfirst, h.row?_write, if_pos rfl]
      · exact hnew item hmem
    · intro slot hslot
      rw [List.map_cons, List.mem_cons, not_or] at hslot
      rw [List.foldl_cons, hold _ hslot.2, h.row?_write, if_neg (Ne.symm hslot.1)]

/-- The creation of the items of a free batch one by one. -/
theorem createEach_free (h : b.Writable) (now : Instant) (hfree : b.Free items) :
    createEach now items b = (items.map .ok, items.foldl write b) := by
  induction items generalizing b with
  | nil => rfl
  | cons item items ih =>
    obtain ⟨hvacant, hrest⟩ := (Free.cons_iff h).1 hfree
    unfold createEach
    rw [h.serve_create now hvacant]
    simp only [ih (h.write item) hrest]
    rfl

end Batch

/-! ## Requests -/

section Requests

variable {b : Backend}

theorem tree_writeAll (t : Tree) (items : List Item) : (tree t).writeAll items =
    (Tree.insertAll t.rows items).map fun rows => tree { t with rows } := by
  induction items generalizing t with
  | nil => rfl
  | cons item items ih =>
    have hrow : (tree t).row? ((tree t).slotOf item) = none ↔
        ¬t.rows.contains (Tree.keyOf item) = true := map_getElem?_eq_none_iff
    unfold writeAll Tree.insertAll
    by_cases htaken : t.rows.contains (Tree.keyOf item) = true
    · rw [if_neg (mt hrow.1 (not_not_intro htaken)), if_pos htaken]
      rfl
    · rw [if_pos (hrow.2 htaken), if_neg htaken]
      exact ih _

theorem table_writeAll (t : Table) (items : List Item) :
    (∀ rows, Table.insertAll t.rows items = some rows →
      (table t).writeAll items = .ok (table { t with rows })) ∧
    (Table.insertAll t.rows items = none → ∃ item, (table t).writeAll items = .error item) := by
  induction items generalizing t with
  | nil => exact ⟨fun rows hrows => (by cases hrows; rfl), fun hrows => (by cases hrows)⟩
  | cons item items ih =>
    have hrow : (table t).row? ((table t).slotOf item) = none ↔
        ¬t.rows.contains (Table.keyOf item) = true := map_getElem?_eq_none_iff
    unfold writeAll Table.insertAll
    by_cases htaken : t.rows.contains (Table.keyOf item) = true
    · rw [if_neg (mt hrow.1 (not_not_intro htaken)), if_pos htaken]
      exact ⟨fun rows hrows => (by cases hrows), fun _ => ⟨item, rfl⟩⟩
    · rw [if_pos (hrow.2 htaken), if_neg htaken]
      exact ih { t with rows := t.rows.insert (Table.keyOf item) (Table.rowOf item) }

/-- A batch is answered by what writing its items one after the other comes to. -/
theorem Writable.serve_createMany (h : b.Writable) (now : Instant) (items : List Item) :
    Store.serve now (.createMany items) b = b.answerBatch items (b.writeAll items) := by
  cases b with
  | cache c => exact h.elim
  | tree t =>
    show ((t.createMany items).1, tree (t.createMany items).2) = _
    rw [tree_writeAll, Tree.createMany]
    cases Tree.insertAll t.rows items <;> rfl
  | table t =>
    show ((Table.serve (.createMany items) t).1, table (Table.serve (.createMany items) t).2) = _
    rw [Table.serve_createMany h, Table.createMany]
    obtain ⟨hdone, hstopped⟩ := table_writeAll t items
    cases hrows : Table.insertAll t.rows items with
    | some rows =>
      rw [hdone rows hrows]
      rfl
    | none =>
      -- The failure of a table does not depend on the item that stopped the batch.
      obtain ⟨item, hstop⟩ := hstopped hrows
      rw [hstop]
      rfl

/-- **A batch is created wholly or not at all.** It gets through exactly if it is free, and then
leaves what the creation of its items one by one leaves, in any order. Otherwise nothing happens,
and the failure is the one for the first item that is in the way. -/
theorem createMany_atomic (h : b.Writable) (now : Instant) (items : List Item) :
    ((∃ answer, (Store.serve now (.createMany items) b).1 = .ok answer) ↔ b.Free items) ∧
    (b.Free items → ∃ b', Store.serve now (.createMany items) b = (.ok items, b') ∧
      b.Gains items b' ∧
      ∀ order, order.Perm items → createEach now order b = (order.map .ok, b')) ∧
    (¬b.Free items → ∃ item, b.FirstTaken items item ∧
      Store.serve now (.createMany items) b = (.error (b.rejection item), b)) := by
  have hdone (hfree : b.Free items) :
      Store.serve now (.createMany items) b = (.ok items, items.foldl write b) := by
    rw [h.serve_createMany, writeAll_free h hfree, answerBatch]
  have hrefused (hfree : ¬b.Free items) : ∃ item, b.FirstTaken items item ∧
      Store.serve now (.createMany items) b = (.error (b.rejection item), b) := by
    obtain ⟨item, hfirst, hstop⟩ := writeAll_taken h hfree
    exact ⟨item, hfirst, by rw [h.serve_createMany, hstop, answerBatch]⟩
  refine ⟨⟨?_, fun hfree => ⟨items, by rw [hdone hfree]⟩⟩, fun hfree => ?_, hrefused⟩
  · rintro ⟨answer, hok⟩
    refine Classical.byContradiction fun hfree => ?_
    obtain ⟨item, -, hserve⟩ := hrefused hfree
    rw [hserve] at hok
    cases hok
  · refine ⟨_, hdone hfree, .of_free h hfree, fun order hperm => ?_⟩
    rw [createEach_free h now (hfree.perm hperm), hfree.foldl_write_perm hperm]

/-- A batch that names an item twice is refused for its second place, although the first is
vacant. -/
theorem createMany_atomic_twice : (tree {}).Writable ∧
    Store.serve .origin (.createMany [Table.kept, Table.kept]) (tree {}) =
      (.error (.conflict "batch rejected: item 'u:b' already exists"), tree {}) := by
  have htree : (tree {}).Writable := trivial
  have htwice : ¬(tree {}).Free [Table.kept, Table.kept] := fun hfree => by
    simpa using hfree.1
  obtain ⟨item, ⟨before, after, hitems, -, -⟩, hserve⟩ :=
    (createMany_atomic htree .origin _).2.2 htwice
  have hmem : item ∈ [Table.kept, Table.kept] := hitems ▸ by simp
  obtain rfl : item = Table.kept := by simpa using hmem
  exact ⟨htree, hserve⟩

end Requests

end Backend

end Dismissal
