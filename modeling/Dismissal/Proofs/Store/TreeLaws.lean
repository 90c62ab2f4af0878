import Dismissal.Proofs.Identity.Keys
import Dismissal.Proofs.Store.Codec
import Dismissal.Proofs.Store.Durable
import Dismissal.Store.Tree

/-!
# The tree is durable

The tree obeys the laws of durable stores as long as no record stands under the key of another item
than its own (`Matching`). Rows that are no records at all may be there: a look at one of them
fails, and its place is taken.

Whatever the rows are, an update is refused for a reason and changes nothing, or it writes one row
(`updated`).

A stricter state is `Written`: each row is what the tree itself writes for an item, under the key of
that item. Every request keeps it (`Written.serve`).
-/

namespace Dismissal.Tree

/-- Each row that is the record of an item stands under the key of that item. -/
def Matching (t : Tree) : Prop :=
  ∀ key bytes item, t.rows[key]? = some bytes → Record.decode bytes = .ok item → key = keyOf item

section Rows

variable {t : Tree} {user id : String} {item : Item} {value : Bytes}

/-- The key of an item is the key of no other user and item. -/
theorem keyOf_eq_rowKey_iff : keyOf item = rowKey user id ↔ user = item.user ∧ id = item.id := by
  have hkey : keyOf item = rowKey user id ↔
      Identity.key item.user item.id = Identity.key user id :=
    ⟨Bytes.ofText_inj, fun h => congrArg Bytes.ofText h⟩
  rw [hkey, Identity.key_eq_key_iff item.user_valid item.id_valid]
  exact and_congr eq_comm eq_comm

theorem rowKey_eq_rowKey_iff (huser : Identity.Valid user) (hid : Identity.Valid id)
    {user' id' : String} : rowKey user id = rowKey user' id' ↔ user' = user ∧ id' = id := by
  have hkey : rowKey user id = rowKey user' id' ↔
      Identity.key user id = Identity.key user' id' :=
    ⟨Bytes.ofText_inj, fun h => congrArg Bytes.ofText h⟩
  rw [hkey, Identity.key_eq_key_iff huser hid]
  exact and_congr eq_comm eq_comm

theorem get_eq_none_iff : t.get user id = .ok none ↔ t.rows[rowKey user id]? = none := by
  unfold get
  cases t.rows[rowKey user id]? with
  | none => simp
  | some bytes =>
    simp only [reduceCtorEq, iff_false]
    cases Record.decode bytes <;> exact fun h => by cases h

theorem contains_iff :
    t.rows.contains (keyOf item) = true ↔ t.get item.user item.id ≠ .ok none := by
  rw [ne_eq, get_eq_none_iff, Std.ExtTreeMap.contains_eq_isSome_getElem?, keyOf,
    Option.isSome_iff_ne_none]

/-- Writing a row changes what is found under its key and nothing else. -/
theorem get_insert (user id : String) :
    ({ t with rows := t.rows.insert (keyOf item) value } : Tree).get user id =
      if user = item.user ∧ id = item.id then (Record.decode value).map some
      else t.get user id := by
  unfold get
  simp only [getElem?_insert_eq, keyOf_eq_rowKey_iff]
  by_cases h : user = item.user ∧ id = item.id
  · simp only [h, and_self, ↓reduceIte]
  · simp only [h, ↓reduceIte]

/-- The row of an item puts it in its place. -/
theorem get_insert_encode :
    ({ t with rows := t.rows.insert (keyOf item) (Record.encode item) } : Tree).get =
      Contents.put t.get item := by
  funext user id
  rw [get_insert, Record.decode_encode]
  rfl

theorem get_found (h : t.get user id = .ok (some item)) :
    ∃ bytes, t.rows[rowKey user id]? = some bytes ∧ Record.decode bytes = .ok item := by
  unfold get at h
  cases hrow : t.rows[rowKey user id]? with
  | none => rw [hrow] at h; cases h
  | some bytes =>
    rw [hrow] at h
    cases hdec : Record.decode bytes with
    | error e => simp only [hdec] at h; cases h
    | ok stored =>
      simp only [hdec] at h
      cases h
      exact ⟨bytes, rfl, hdec⟩

/-- A row that is read as an item is found. -/
theorem get_row {bytes : Bytes} (hrow : t.rows[rowKey user id]? = some bytes)
    (hdec : Record.decode bytes = .ok item) : t.get user id = .ok (some item) := by
  unfold get
  simp only [hrow, hdec]
  rfl

/-- A look fails only at a row that is not read as an item. -/
theorem get_ok (h : ∀ bytes, t.rows[rowKey user id]? = some bytes →
    ∃ item, Record.decode bytes = .ok item) : ∃ one, t.get user id = .ok one := by
  cases hrow : t.rows[rowKey user id]? with
  | none => exact ⟨none, get_eq_none_iff.2 hrow⟩
  | some bytes =>
    obtain ⟨item, hitem⟩ := h bytes hrow
    exact ⟨some item, get_row hrow hitem⟩

end Rows

/-! ## Answers -/

section Answers

variable {t : Tree} {user id : String} {item : Item}

/-- What is found has the identity that was asked for. -/
theorem Matching.named (h : t.Matching) (hget : t.get user id = .ok (some item)) :
    item.user = user ∧ item.id = id := by
  obtain ⟨bytes, hrow, hdec⟩ := get_found hget
  have := keyOf_eq_rowKey_iff.1 (h _ _ _ hrow hdec).symm
  exact ⟨this.1.symm, this.2.symm⟩

/-- Each look adds what it finds. -/
theorem getAll_eq_gather (t : Tree) (user : String) (ids : List String) (found : Found) :
    t.getAll user found ids = gather found (ids.map fun id => (id, t.get user id)) := by
  induction ids generalizing found with
  | nil => rfl
  | cons id ids ih =>
    unfold getAll
    rw [List.map_cons]
    rcases t.get user id with e | _ | item
    · rfl
    · exact ih found
    · exact ih (found.insert id item)

theorem getAll_gathers (t : Tree) (user : String) (ids : List String) (found : Found)
    (hfound : Contents.Backs t.get user found) :
    Contents.Gathers t.get user found ids (t.getAll user found ids) := by
  rw [getAll_eq_gather]
  exact Contents.gather_gathers t.get user ids hfound

/-- Why an update is refused: there is no row under the key of the item, the row is not read as an
item, or the dismissal would come before the creation in it. -/
inductive Refused (t : Tree) (item : Item) : Failure → Prop where
  | missing (hrow : t.rows[keyOf item]? = none) : Refused t item .notFound
  | unreadable {bytes : Bytes} {e : Failure} (hrow : t.rows[keyOf item]? = some bytes)
      (hdec : Record.decode bytes = .error e) : Refused t item e
  | antedated {bytes : Bytes} {stored : Item} {at_ : Instant}
      (hrow : t.rows[keyOf item]? = some bytes) (hdec : Record.decode bytes = .ok stored)
      (hat : item.dismissed = some at_) (hlate : ¬stored.created ≤ at_) :
      Refused t item (.invalidArgument (Item.precedesReason at_ stored.created))

/-- What can come of an update: a refusal that changes nothing, or one row that is written, with the
item that was read from it, dismissed as the argument is. -/
inductive Updated (t : Tree) (item : Item) : Result Item × Tree → Prop where
  | refused {e : Failure} (h : Refused t item e) : Updated t item (.error e, t)
  | written {bytes : Bytes} {stored merged : Item} (hrow : t.rows[keyOf item]? = some bytes)
      (hdec : Record.decode bytes = .ok stored)
      (hmerged : Item.create stored.id stored.user stored.created item.dismissed = .ok merged) :
      Updated t item
        (.ok merged, { t with rows := t.rows.insert (keyOf item) (Record.encode merged) })

/-- There is nothing else that can come of an update. -/
theorem updated (t : Tree) (item : Item) : Updated t item (t.update item) := by
  unfold update
  split
  · rename_i hrow
    exact .refused (.missing hrow)
  · rename_i bytes hrow
    split
    · rename_i e hdec
      exact .refused (.unreadable hrow hdec)
    · rename_i stored hdec
      split
      · rename_i e hrefused
        by_cases hle : ∀ at_ ∈ item.dismissed, stored.created ≤ at_
        · rw [Item.create_early stored.id_valid stored.user_valid _ _ hle] at hrefused
          cases hrefused
        · simp only [not_forall] at hle
          obtain ⟨at_, hat, hlate⟩ := hle
          rw [hat, Item.create_late stored.id_valid stored.user_valid hlate] at hrefused
          cases hrefused
          exact .refused (.antedated hrow hdec hat hlate)
      · rename_i merged hmerged
        exact .written hrow hdec hmerged

/-- An update of a row that is read, by a dismissal that fits. -/
theorem update_row {bytes : Bytes} {stored merged : Item}
    (hrow : t.rows[keyOf item]? = some bytes) (hdec : Record.decode bytes = .ok stored)
    (hmerged : Item.create stored.id stored.user stored.created item.dismissed = .ok merged) :
    t.update item =
      (.ok merged, { t with rows := t.rows.insert (keyOf item) (Record.encode merged) }) := by
  unfold update
  simp only [hrow, hdec, hmerged]

theorem create_vacant (h : Contents.Vacant t.get item.user item.id) :
    t.create item =
      (.ok item, { t with rows := t.rows.insert (keyOf item) (Record.encode item) }) := by
  have hno : ¬t.rows.contains (keyOf item) = true := fun hc => contains_iff.1 hc h
  unfold create
  rw [if_neg hno]

theorem create_taken (h : ¬Contents.Vacant t.get item.user item.id) :
    t.create item = (.error (.conflict ("item '" ++ item.key ++ "' already exists")), t) := by
  unfold create
  rw [if_pos (contains_iff.2 h)]

/-- The batch gets through if and only if each place is vacant when its turn comes. -/
theorem insertAll_spec (t : Tree) (items : List Item) :
    (Contents.Fresh t.get items → ∃ rows, insertAll t.rows items = .ok rows ∧
      ({ t with rows } : Tree).get = Contents.putAll t.get items) ∧
    (¬Contents.Fresh t.get items → ∃ taken ∈ items, insertAll t.rows items = .error taken) := by
  induction items generalizing t with
  | nil => simp [insertAll, Contents.Fresh, Contents.putAll]
  | cons item items ih =>
    obtain ⟨hok, hbad⟩ := ih { t with rows := t.rows.insert (keyOf item) (Record.encode item) }
    rw [get_insert_encode] at hok hbad
    unfold insertAll Contents.Fresh
    by_cases hv : Contents.Vacant t.get item.user item.id
    · have hno : ¬t.rows.contains (keyOf item) = true := fun hc => contains_iff.1 hc hv
      rw [if_neg hno]
      refine ⟨fun h => hok h.2, fun h => ?_⟩
      obtain ⟨taken, hmem, heq⟩ := hbad fun hf => h ⟨hv, hf⟩
      exact ⟨taken, List.mem_cons_of_mem _ hmem, heq⟩
    · rw [if_pos (contains_iff.2 hv)]
      exact ⟨fun h => absurd h.1 hv, fun _ => ⟨item, by simp, rfl⟩⟩

/-- The row that an update writes: the version that is there, dismissed as the argument is. -/
theorem update_found {stored : Item} (h : t.Matching)
    (hget : t.get item.user item.id = .ok (some stored))
    (hcreated : item.created = stored.created) :
    t.update item =
      (.ok item, { t with rows := t.rows.insert (keyOf item) (Record.encode item) }) := by
  obtain ⟨bytes, hrow, hdec⟩ := get_found hget
  obtain ⟨huser, hid⟩ := h.named hget
  have hself : Item.create stored.id stored.user stored.created item.dismissed = .ok item := by
    rw [hid, huser, ← hcreated]
    exact Item.create_self item
  exact update_row hrow hdec hself

end Answers

/-! ## What requests keep -/

section Keeps

variable {t : Tree} {item : Item}

/-- A property of rows that `Matching` is one of: it holds of each row by itself. -/
def Each (t : Tree) (p : Bytes → Bytes → Prop) : Prop :=
  ∀ key bytes, t.rows[key]? = some bytes → p key bytes

section Each

variable {p : Bytes → Bytes → Prop}

theorem Each.insert (h : t.Each p) (hp : p (keyOf item) (Record.encode item)) :
    ({ t with rows := t.rows.insert (keyOf item) (Record.encode item) } : Tree).Each p := by
  intro key bytes hrow
  rw [getElem?_insert_eq] at hrow
  split at hrow
  · rename_i heq
    cases hrow
    rwa [← heq]
  · exact h _ _ hrow

theorem Each.insertAll (h : t.Each p) (hp : ∀ item : Item, p (keyOf item) (Record.encode item))
    {items : List Item} {rows} (hrows : Tree.insertAll t.rows items = .ok rows) :
    ({ t with rows } : Tree).Each p := by
  induction items generalizing t with
  | nil =>
    cases hrows
    exact h
  | cons item items ih =>
    unfold Tree.insertAll at hrows
    split at hrows
    · cases hrows
    · exact ih (t := { t with rows := t.rows.insert (keyOf item) (Record.encode item) })
        (Each.insert h (hp item)) hrows

/-- Requests write rows of one kind only: records under the keys of their items. -/
theorem Each.serve (h : t.Each p) (hp : ∀ item : Item, p (keyOf item) (Record.encode item))
    (hm : t.Matching) (request : Request) : (Tree.serve request t).2.Each p := by
  cases request with
  | get user id => exact h
  | getMany user ids => exact h
  | create item =>
    show (t.create item).2.Each p
    unfold create
    split
    · exact h
    · exact Each.insert h (hp item)
  | createMany items =>
    show (t.createMany items).2.Each p
    unfold createMany
    split
    · rename_i hrows
      exact Each.insertAll h hp hrows
    · exact h
  | update item =>
    show (t.update item).2.Each p
    have hupdated := t.updated item
    generalize t.update item = r at hupdated ⊢
    cases hupdated with
    | refused _ => exact h
    | @written bytes stored merged hrow hdec hmerged =>
      obtain ⟨hid, huser, -, -⟩ := Item.create_parts hmerged
      have hkey : keyOf item = keyOf merged := by
        rw [hm _ _ _ hrow hdec, keyOf, keyOf, hid, huser]
      simp only [hkey]
      exact Each.insert h (hp merged)
  | delete user id =>
    intro key bytes hrow
    simp only [Tree.serve, delete, getElem?_erase_eq] at hrow
    split at hrow
    · cases hrow
    · exact h _ _ hrow
  | deleteAll =>
    intro key bytes hrow
    simp [Tree.serve, deleteAll] at hrow

end Each

theorem Matching.serve (h : t.Matching) (request : Request) :
    (Tree.serve request t).2.Matching := by
  have heach : t.Each fun key bytes => ∀ item, Record.decode bytes = .ok item → key = keyOf item :=
    fun key bytes hrow item hdec => h key bytes item hrow hdec
  have := heach.serve (fun item x hdec => by rw [Record.decode_encode] at hdec; cases hdec; rfl) h
    request
  exact fun key bytes item hrow hdec => this key bytes hrow item hdec

/-- Each row is the record that the tree writes for an item, under the key of the item. -/
def Written (t : Tree) : Prop :=
  t.Each fun key bytes => ∃ item, key = keyOf item ∧ bytes = Record.encode item

theorem Written.matching (h : t.Written) : t.Matching := by
  intro key bytes item hrow hdec
  obtain ⟨x, rfl, rfl⟩ := h key bytes hrow
  rw [Record.decode_encode] at hdec
  cases hdec
  rfl

theorem Written.serve (h : t.Written) (request : Request) : (Tree.serve request t).2.Written :=
  Each.serve h (fun item => ⟨item, rfl, rfl⟩) h.matching request

/-- The rows of a written tree are those of the items that are found. -/
theorem Written.row_iff (h : t.Written) {key bytes : Bytes} : t.rows[key]? = some bytes ↔
    ∃ item, t.get item.user item.id = .ok (some item) ∧ key = keyOf item ∧
      bytes = Record.encode item := by
  constructor
  · intro hrow
    obtain ⟨item, rfl, rfl⟩ := h key bytes hrow
    exact ⟨item, get_row hrow (Record.decode_encode item), rfl, rfl⟩
  · rintro ⟨item, hget, rfl, rfl⟩
    obtain ⟨bytes, hrow, hdec⟩ := get_found hget
    obtain ⟨x, hkey, rfl⟩ := h _ _ hrow
    rw [Record.decode_encode] at hdec
    cases hdec
    exact hrow

end Keeps

/-! ## The laws -/

instance : Durable Tree where
  Sound := Matching
  look := get
  look_named := Matching.named
  pass_eq _ _ _ := rfl
  serve_sound _ request h := h.serve request
  serve_get _ _ _ _ := rfl
  serve_getMany {t} _ user ids _ :=
    ⟨_, rfl, t.getAll_gathers user ids ∅ Contents.backs_empty⟩
  serve_create _ _ _ h := ⟨_, create_vacant h, get_insert_encode⟩
  serve_create_taken _ _ _ h := ⟨_, create_taken h⟩
  serve_createMany {t} _ items _ h := by
    obtain ⟨rows, hrows, hget⟩ := (insertAll_spec t items).1 h
    refine ⟨{ t with rows }, ?_, hget⟩
    simp only [Store.serve, serve, createMany, hrows]
  serve_createMany_taken {t} _ items _ h := by
    obtain ⟨taken, -, hrows⟩ := (insertAll_spec t items).2 h
    refine ⟨"batch rejected: item '" ++ taken.key ++ "' already exists", ?_⟩
    simp only [Store.serve, serve, createMany, hrows]
  serve_update _ _ _ h hget hcreated := ⟨_, update_found h hget hcreated, get_insert_encode⟩
  serve_delete {t} _ user id _ huser hid := by
    refine ⟨t.delete user id, rfl, ?_⟩
    funext user' id'
    unfold get delete Contents.drop
    simp only [getElem?_erase_eq, rowKey_eq_rowKey_iff huser hid]
    by_cases h : user' = user ∧ id' = id
    · simp only [h, and_self, ↓reduceIte]
    · simp only [h, ↓reduceIte]
  serve_deleteAll {t} _ _ := ⟨t.deleteAll, rfl, by funext user id; simp [get, deleteAll]⟩

end Dismissal.Tree
