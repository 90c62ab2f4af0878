import Dismissal.Proofs.Store.Codec
import Dismissal.Proofs.Store.Durable
import Dismissal.Store.Table

/-!
# The table is durable

The table obeys the laws of durable stores while it answers statements that write (`Open`). Rows
with cells that cannot be read may be there: a look at one of them fails, and its place is taken.

Reading in chunks is no different from reading all rows at once (`chunks_flatten`), and a row is
read for an item exactly if the item is asked for and has one (`mem_select`).
-/

namespace Dismissal.Table

/-- The table answers all statements. -/
def Open (t : Table) : Prop := t.closed = false ∧ t.frozen = false

section Rows

variable {t : Table} {user id : String} {item stored : Item} {row : Row}

theorem keyOf_eq_iff : keyOf item = ⟨user, id⟩ ↔ user = item.user ∧ id = item.id := by
  unfold keyOf
  rw [Key.mk.injEq]
  exact and_congr eq_comm eq_comm

/-- An item read from a row has the identities in the key of the row. -/
theorem itemOf_named {key : Key} (h : itemOf key row = .ok item) :
    item.user = key.user ∧ item.id = key.id := by
  unfold itemOf at h
  simp only [bind, Except.bind] at h
  split at h
  · cases h
  split at h
  · cases h
  obtain ⟨hid, huser, -, -⟩ := Item.create_parts h
  exact ⟨huser, hid⟩

/-- A row whose dismissal was overwritten is read as before but for the dismissal. -/
theorem itemOf_dismissed (h : itemOf (keyOf item) row = .ok stored)
    (hcreated : item.created = stored.created) :
    itemOf (keyOf item) { row with dismissed := (rowOf item).dismissed } = .ok item := by
  have hcell : readCell "created_at" row.created = .ok item.created := by
    unfold itemOf at h
    simp only [bind, Except.bind] at h
    split at h
    · cases h
    split at h
    · cases h
    rename_i created hread _ _ _
    obtain ⟨-, -, heq, -⟩ := Item.create_parts h
    rw [hread, hcreated, heq]
  have hself := itemOf_rowOf item
  unfold itemOf at hself ⊢
  rw [show readCell "created_at" (rowOf item).created = .ok item.created from
    readCell_offsetText _ _] at hself
  rw [hcell]
  exact hself

theorem get_eq_none_iff : t.get user id = .ok none ↔ t.rows[Key.mk user id]? = none := by
  unfold get
  cases t.rows[Key.mk user id]? with
  | none => simp
  | some row =>
    simp only [reduceCtorEq, iff_false]
    cases itemOf ⟨user, id⟩ row <;> exact fun h => by cases h

theorem get_found (h : t.get user id = .ok (some item)) :
    ∃ row, t.rows[Key.mk user id]? = some row ∧ itemOf ⟨user, id⟩ row = .ok item := by
  unfold get at h
  cases hrow : t.rows[Key.mk user id]? with
  | none => rw [hrow] at h; cases h
  | some row =>
    rw [hrow] at h
    cases hitem : itemOf ⟨user, id⟩ row with
    | error e => simp only [hitem] at h; cases h
    | ok x =>
      simp only [hitem] at h
      cases h
      exact ⟨row, rfl, hitem⟩

/-- A look fails only at a row that is not read as an item. -/
theorem get_ok (h : ∀ row, t.rows[Key.mk user id]? = some row →
    ∃ item, itemOf ⟨user, id⟩ row = .ok item) : ∃ one, t.get user id = .ok one := by
  unfold get
  cases hrow : t.rows[Key.mk user id]? with
  | none => exact ⟨none, rfl⟩
  | some row =>
    obtain ⟨item, hitem⟩ := h row hrow
    simp only [hitem]
    exact ⟨some item, rfl⟩

theorem contains_iff :
    t.rows.contains (keyOf item) = true ↔ t.get item.user item.id ≠ .ok none := by
  rw [ne_eq, get_eq_none_iff, Std.ExtTreeMap.contains_eq_isSome_getElem?, keyOf,
    Option.isSome_iff_ne_none]

/-- A row that is read as an item puts the item in its place. -/
theorem get_insert (h : itemOf (keyOf item) row = .ok item) :
    ({ t with rows := t.rows.insert (keyOf item) row } : Table).get = Contents.put t.get item := by
  funext user id
  unfold get Contents.put
  simp only [getElem?_insert_eq, keyOf_eq_iff]
  by_cases heq : user = item.user ∧ id = item.id
  · obtain ⟨rfl, rfl⟩ := heq
    simp only [and_self, ↓reduceIte]
    rw [show (⟨item.user, item.id⟩ : Key) = keyOf item from rfl, h]
    rfl
  · simp only [heq, ↓reduceIte]

theorem named (h : t.get user id = .ok (some item)) : item.user = user ∧ item.id = id := by
  obtain ⟨row, -, hitem⟩ := get_found h
  exact itemOf_named hitem

end Rows

/-! ## Reading in chunks -/

section Chunks

variable {t : Table} {user : String}

theorem chunks_flatten {α : Type} (fuel : Nat) (xs : List α) (h : xs.length ≤ fuel) :
    (chunks fuel xs).flatten = xs := by
  induction fuel generalizing xs with
  | zero =>
    cases xs with
    | nil => rfl
    | cons x xs => simp at h
  | succ fuel ih =>
    cases xs with
    | nil => rfl
    | cons x xs =>
      have hdrop : ((x :: xs).drop chunkSize).length ≤ fuel := by
        simp only [List.length_drop, List.length_cons, chunkSize] at h ⊢
        omega
      show (x :: xs).take chunkSize ++ (chunks fuel ((x :: xs).drop chunkSize)).flatten = x :: xs
      rw [ih _ hdrop, List.take_append_drop]

/-- A row is selected if it is there, for the user and for one of the items. -/
theorem mem_select {ids : List String} {key : Key} {row : Row} :
    (key, row) ∈ t.select user ids ↔ t.rows[key]? = some row ∧ key.user = user ∧ key.id ∈ ids := by
  unfold select
  rw [List.mem_filter, Std.ExtTreeMap.mem_toList_iff_getElem?_eq_some]
  simp only [Bool.and_eq_true, beq_iff_eq, List.contains_eq_mem, decide_eq_true_eq]

theorem collect_gathers (rows : List (Key × Row)) (found : Found)
    (hrows : ∀ key row, (key, row) ∈ rows → t.rows[key]? = some row ∧ key.user = user) :
    Contents.Gathers t.get user found (rows.map fun entry => entry.1.id) (collect found rows) := by
  induction rows generalizing found with
  | nil => exact Contents.Gathers.nil
  | cons entry rows ih =>
    obtain ⟨key, row⟩ := entry
    obtain ⟨hrow, huser⟩ := hrows key row List.mem_cons_self
    have hget : t.get user key.id = (itemOf key row).map some := by
      unfold get
      rw [← huser, hrow]
    unfold collect
    cases hitem : itemOf key row with
    | error e =>
      rw [hitem] at hget
      exact ⟨key.id, List.mem_cons_self, hget⟩
    | ok item =>
      rw [hitem] at hget
      obtain ⟨-, hid⟩ := itemOf_named hitem
      refine Contents.Gathers.cons ?_ (fun other hne => ?_)
        (ih (found.insert item.id item) fun key row hmem =>
          hrows key row (List.mem_cons_of_mem _ hmem))
      · rw [hget, hid, Std.ExtTreeMap.getElem?_insert_self]
        rfl
      · rw [getElem?_insert_eq, if_neg (hid ▸ Ne.symm hne)]

/-- One chunk is read as its items are looked at one by one. -/
theorem collect_select_gathers (ids : List String) (found : Found)
    (hfound : Contents.Backs t.get user found) :
    Contents.Gathers t.get user found ids (collect found (t.select user ids)) := by
  refine (collect_gathers _ found fun key row hmem => ?_).widen hfound ?_ fun id hid hout => ?_
  · obtain ⟨hrow, huser, -⟩ := mem_select.1 hmem
    exact ⟨hrow, huser⟩
  · intro id hid
    obtain ⟨⟨key, row⟩, hmem, rfl⟩ := List.mem_map.1 hid
    exact (mem_select.1 hmem).2.2
  · rw [Contents.Vacant, get_eq_none_iff]
    cases hrow : t.rows[Key.mk user id]? with
    | none => rfl
    | some row =>
      have hmem : (Key.mk user id, row) ∈ t.select user ids := mem_select.2 ⟨hrow, rfl, hid⟩
      exact absurd (List.mem_map.2 ⟨_, hmem, rfl⟩) hout

theorem collectChunks_gathers (chunks : List (List String)) (found : Found)
    (hfound : Contents.Backs t.get user found) :
    Contents.Gathers t.get user found chunks.flatten (t.collectChunks user found chunks) := by
  induction chunks generalizing found with
  | nil => exact Contents.Gathers.nil
  | cons ids chunks ih =>
    have hids := collect_select_gathers ids found hfound
    unfold collectChunks
    cases hcollect : collect found (t.select user ids) with
    | error e =>
      rw [hcollect] at hids
      obtain ⟨id, hmem, herr⟩ := hids
      exact ⟨id, List.mem_append_left _ hmem, herr⟩
    | ok found' =>
      rw [hcollect] at hids
      exact hids.append (ih found' (hids.backs hfound))

theorem getMany_gathers (t : Table) (user : String) (ids : List String) :
    Contents.Gathers t.get user ∅ ids (t.getMany user ids) := by
  have h : Contents.Gathers t.get user ∅ _ _ :=
    t.collectChunks_gathers (chunks ids.length ids) ∅ Contents.backs_empty
  rwa [chunks_flatten _ _ (Nat.le_refl _)] at h

end Chunks

/-! ## Writing -/

section Writing

variable {t : Table} {item : Item}

/-- The batch gets through if and only if each place is vacant when its turn comes. -/
theorem insertAll_spec (t : Table) (items : List Item) :
    (Contents.Fresh t.get items → ∃ rows, insertAll t.rows items = some rows ∧
      ({ t with rows } : Table).get = Contents.putAll t.get items) ∧
    (¬Contents.Fresh t.get items → insertAll t.rows items = none) := by
  induction items generalizing t with
  | nil => simp [insertAll, Contents.Fresh, Contents.putAll]
  | cons item items ih =>
    obtain ⟨hok, hbad⟩ := ih { t with rows := t.rows.insert (keyOf item) (rowOf item) }
    rw [get_insert (itemOf_rowOf item)] at hok hbad
    unfold insertAll Contents.Fresh
    by_cases hv : Contents.Vacant t.get item.user item.id
    · have hno : ¬t.rows.contains (keyOf item) = true := fun hc => contains_iff.1 hc hv
      rw [if_neg hno]
      exact ⟨fun h => hok h.2, fun h => hbad fun hf => h ⟨hv, hf⟩⟩
    · rw [if_pos (contains_iff.2 hv)]
      exact ⟨fun h => absurd h.1 hv, fun _ => rfl⟩

theorem reading_unclosed {α : Type} (h : t.closed = false) (run : Result α × Table) :
    t.reading run = run := by
  unfold reading
  rw [if_neg (by simp [h])]

theorem reading_open {α : Type} (h : t.Open) (run : Result α × Table) : t.reading run = run :=
  reading_unclosed h.1 run

theorem writing_open {α : Type} (h : t.Open) (run : Result α × Table) : t.writing run = run := by
  unfold writing
  rw [reading_open h, if_neg (by simp [h.2])]

/-- A request for nothing is answered as the statement would answer it. -/
theorem serve_getMany_unclosed (h : t.closed = false) (user : String) (ids : List String) :
    serve (.getMany user ids) t = (t.getMany user ids, t) := by
  show (if ids.isEmpty then (.ok ∅, t) else t.reading (t.getMany user ids, t)) = _
  cases ids with
  | nil => rfl
  | cons id ids => exact reading_unclosed h _

theorem serve_getMany (h : t.Open) (user : String) (ids : List String) :
    serve (.getMany user ids) t = (t.getMany user ids, t) := serve_getMany_unclosed h.1 user ids

theorem serve_createMany (h : t.Open) (items : List Item) :
    serve (.createMany items) t = t.createMany items := by
  show (if items.isEmpty then (.ok items, t) else t.writing (t.createMany items)) = _
  cases items with
  | nil => rfl
  | cons item items => exact writing_open h _

/-- No request closes the table or freezes it. -/
theorem Open.serve (h : t.Open) (request : Request) : (Table.serve request t).2.Open := by
  cases request with
  | get user id =>
    show (t.reading _).2.Open
    rw [reading_open h]
    exact h
  | getMany user ids =>
    rw [serve_getMany h]
    exact h
  | create item =>
    show (t.writing _).2.Open
    rw [writing_open h]
    unfold create
    split <;> exact h
  | createMany items =>
    rw [serve_createMany h]
    unfold createMany
    split <;> exact h
  | update item =>
    show (t.writing _).2.Open
    rw [writing_open h]
    unfold update
    split <;> exact h
  | delete user id =>
    show (t.writing _).2.Open
    rw [writing_open h]
    exact h
  | deleteAll =>
    show (t.writing _).2.Open
    rw [writing_open h]
    exact h

theorem serve_create_vacant (hopen : t.Open) (h : Contents.Vacant t.get item.user item.id) :
    serve (.create item) t =
      (.ok item, { t with rows := t.rows.insert (keyOf item) (rowOf item) }) := by
  have hno : ¬t.rows.contains (keyOf item) = true := fun hc => contains_iff.1 hc h
  show t.writing (t.create item) = _
  rw [writing_open hopen, create, if_neg hno]

theorem serve_create_taken (hopen : t.Open) (h : ¬Contents.Vacant t.get item.user item.id) :
    serve (.create item) t = (.error duplicate, t) := by
  show t.writing (t.create item) = _
  rw [writing_open hopen, create, if_pos (contains_iff.2 h)]

theorem serve_update_found {stored : Item} (hopen : t.Open)
    (h : t.get item.user item.id = .ok (some stored)) (hcreated : item.created = stored.created) :
    ∃ t', serve (.update item) t = (.ok item, t') ∧ t'.get = Contents.put t.get item := by
  obtain ⟨row, hrow, hitem⟩ := get_found h
  have hnext := itemOf_dismissed hitem hcreated
  refine ⟨_, ?_, get_insert hnext⟩
  show t.writing (t.update item) = _
  unfold update
  rw [writing_open hopen]
  simp only [keyOf, hrow]
  rw [show itemOf ⟨item.user, item.id⟩ _ = .ok item from hnext]

end Writing

/-! ## The laws -/

instance : Durable Table where
  Sound := Open
  look := get
  look_named _ := named
  pass_eq _ _ _ := rfl
  serve_sound _ request h := h.serve request
  serve_get _ _ _ h := reading_open h _
  serve_getMany {t} _ user ids h := ⟨_, serve_getMany h user ids, t.getMany_gathers user ids⟩
  serve_create _ _ hopen h := ⟨_, serve_create_vacant hopen h, get_insert (itemOf_rowOf _)⟩
  serve_create_taken _ _ hopen h := ⟨_, serve_create_taken hopen h⟩
  serve_createMany {t} _ items hopen h := by
    obtain ⟨rows, hrows, hget⟩ := (insertAll_spec t items).1 h
    refine ⟨{ t with rows }, ?_, hget⟩
    show serve _ t = _
    rw [serve_createMany hopen, createMany, hrows]
  serve_createMany_taken {t} _ items hopen h := by
    have hrows := (insertAll_spec t items).2 h
    have hserve : serve (.createMany items) t = (.error duplicate, t) := by
      rw [serve_createMany hopen, createMany, hrows]
    exact ⟨_, hserve⟩
  serve_update _ _ _ := serve_update_found
  serve_delete {t} _ user id hopen _ _ := by
    refine ⟨t.delete user id, writing_open hopen _, ?_⟩
    funext user' id'
    unfold get delete Contents.drop
    simp only [getElem?_erase_eq, Key.mk.injEq, eq_comm (a := user), eq_comm (a := id)]
    by_cases h : user' = user ∧ id' = id
    · simp only [h, and_self, ↓reduceIte]
    · simp only [h, ↓reduceIte]
  serve_deleteAll {t} _ hopen :=
    ⟨t.deleteAll, writing_open hopen _, by funext user id; simp [get, deleteAll]⟩

end Dismissal.Table
