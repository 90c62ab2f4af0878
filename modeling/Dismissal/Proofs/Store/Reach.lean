import Dismissal.Proofs.Identity.WellFormed
import Dismissal.Proofs.Store.TreeLaws

/-!
# Which rows a request reaches

The tree does not check the identities that it is asked for. A user and an item are flattened into
the key of a row, whatever texts they are, and the row under that key is the one that is read or
removed. As the key of an item is the key of no other texts, there is nothing that one could ask for
in order to get at the row of an item of somebody else.

`Tree.Reaches` says that a request depends on a row or changes it.

* `reaches_get_iff`, `reaches_delete_iff`, `reaches_getMany`: the rows that are reached, by their
  keys.
* `Written.reached`: in a tree that has only rows of its own, a row that is reached is the record of
  the item that was asked for.
* `identities_unforgeable`: what follows from the rule for identities.
-/

namespace Dismissal.Tree

/-- The tree with other bytes under a key, or with none. -/
def withRow (t : Tree) (key : Bytes) : Option Bytes → Tree
  | some bytes => { t with rows := t.rows.insert key bytes }
  | none => { t with rows := t.rows.erase key }

/-- A request reaches the row under a key if with another row there it would be answered otherwise,
or if it changes the row. -/
def Reaches (t : Tree) (request : Request) (key : Bytes) : Prop :=
  (∃ row, (serve request (t.withRow key row)).1 ≠ (serve request t).1) ∨
    (serve request t).2.rows[key]? ≠ t.rows[key]?

/-- The tree after requests, one after the other. -/
def serveAll (requests : List Request) (t : Tree) : Tree :=
  requests.foldl (fun t request => (serve request t).2) t

section Keys

variable {t : Tree} {user id x y : String} {ids : List String} {key bytes : Bytes} {item : Item}

theorem getElem?_withRow (t : Tree) (key other : Bytes) (row : Option Bytes) :
    (t.withRow key row).rows[other]? = if key = other then row else t.rows[other]? := by
  cases row with
  | none => exact getElem?_erase_eq t.rows key other
  | some bytes => exact getElem?_insert_eq t.rows key other bytes

theorem get_withRow_of_ne (h : key ≠ rowKey user id) (row : Option Bytes) :
    (t.withRow key row).get user id = t.get user id := by
  unfold get
  rw [getElem?_withRow, if_neg h]

/-- What is found under a key is told by whether there is a row. So it differs when there is none
any more, or one for the first time. -/
theorem get_withRow_ne (t : Tree) (user id : String) :
    ∃ row, (t.withRow (rowKey user id) row).get user id ≠ t.get user id := by
  have hself (row : Option Bytes) :
      (t.withRow (rowKey user id) row).rows[rowKey user id]? = row := by
    rw [getElem?_withRow, if_pos rfl]
  by_cases hnone : t.get user id = .ok none
  · refine ⟨some [], fun h => ?_⟩
    have hrow := get_eq_none_iff.1 (h.trans hnone)
    rw [hself] at hrow
    cases hrow
  · refine ⟨none, fun h => hnone ?_⟩
    rw [← h]
    exact get_eq_none_iff.2 (hself none)

/-- A look reaches the row under its key, whether or not there is one. -/
theorem reaches_get_iff : t.Reaches (.get user id) key ↔ key = rowKey user id := by
  constructor
  · rintro (⟨row, hrow⟩ | hrow)
    · exact by_contra fun hne => hrow (get_withRow_of_ne hne row)
    · exact absurd rfl hrow
  · rintro rfl
    exact .inl (get_withRow_ne t user id)

/-- A look at several items reaches no row but theirs. -/
theorem reaches_getMany (h : t.Reaches (.getMany user ids) key) :
    ∃ id ∈ ids, key = rowKey user id := by
  by_contra hnone
  rcases h with ⟨row, hrow⟩ | hrow
  · refine hrow ?_
    have hlooks : (ids.map fun id => (id, (t.withRow key row).get user id)) =
        ids.map fun id => (id, t.get user id) :=
      List.map_congr_left fun id hid => by
        rw [get_withRow_of_ne fun hkey => hnone ⟨id, hid, hkey⟩]
    change (t.withRow key row).getAll user ∅ ids = t.getAll user ∅ ids
    rw [getAll_eq_gather, getAll_eq_gather, hlooks]
  · exact hrow rfl

/-- A removal reaches the row under its key, if there is one. -/
theorem reaches_delete_iff :
    t.Reaches (.delete user id) key ↔ key = rowKey user id ∧ t.rows[key]? ≠ none := by
  have hrows : (serve (.delete user id) t).2.rows[key]? =
      if rowKey user id = key then none else t.rows[key]? :=
    getElem?_erase_eq t.rows (rowKey user id) key
  unfold Reaches
  rw [hrows]
  constructor
  · rintro (⟨row, hrow⟩ | hrow)
    · exact absurd rfl hrow
    · by_cases hkey : rowKey user id = key
      · rw [if_pos hkey] at hrow
        exact ⟨hkey.symm, hrow.symm⟩
      · rw [if_neg hkey] at hrow
        exact absurd rfl hrow
  · rintro ⟨rfl, hrow⟩
    rw [if_pos rfl]
    exact .inr hrow.symm

end Keys

/-! ## Rows of the tree's own -/

section Own

variable {t : Tree} {x y : String} {key bytes : Bytes}

theorem empty_written : Written {} := by
  intro key bytes hrow
  simp at hrow

theorem Written.serveAll (h : t.Written) (requests : List Request) :
    (t.serveAll requests).Written := by
  induction requests generalizing t with
  | nil => exact h
  | cons request requests ih => exact ih (h.serve request)

/-- What stands under the key of a look or a removal is the record of the item of that user and
identity. -/
theorem Written.reached (h : t.Written) (hrow : t.rows[key]? = some bytes)
    (hreach : key = rowKey x y) :
    ∃ item, item.user = x ∧ item.id = y ∧ key = keyOf item ∧ bytes = Record.encode item := by
  obtain ⟨item, hkey, hbytes⟩ := h key bytes hrow
  obtain ⟨huser, hid⟩ := keyOf_eq_rowKey_iff.1 (hkey.symm.trans hreach)
  exact ⟨item, huser.symm, hid.symm, hkey, hbytes⟩

/-- A look finds nothing or the item that it names. -/
theorem Written.finds (h : t.Written) (x y : String) :
    t.get x y = .ok none ∨ ∃ item, t.get x y = .ok (some item) ∧ item.user = x ∧ item.id = y := by
  cases hrow : t.rows[rowKey x y]? with
  | none => exact .inl (get_eq_none_iff.2 hrow)
  | some bytes =>
    obtain ⟨item, huser, hid, -, rfl⟩ := h.reached hrow rfl
    exact .inr ⟨item, get_row hrow (Record.decode_encode item), huser, hid⟩

end Own

/-- **Identities cannot be forged.** The check accepts exactly the texts of 1 to 64 letters, digits,
hyphens and underscores. The key of texts that are accepted is the key of no other texts. So a look
or a removal reaches the row of an item exactly if it names the user and the identity of the item,
whatever texts it names and whatever the tree holds. Where the tree holds what requests have made of
an empty one, the row of that item is all that it reaches, and a look finds the item or nothing. -/
theorem identities_unforgeable :
    (∀ field value, Identity.check field value = .ok () ↔ Identity.WellFormed value) ∧
    (∀ field field' user id, Identity.check field user = .ok () →
      Identity.check field' id = .ok () →
      ∀ x y, Identity.key x y = Identity.key user id → x = user ∧ y = id) ∧
    (∀ (t : Tree) (item : Item) (x y : String) (ys : List String),
      (t.Reaches (.get x y) (keyOf item) ↔ x = item.user ∧ y = item.id) ∧
      (t.Reaches (.getMany x ys) (keyOf item) → x = item.user ∧ item.id ∈ ys) ∧
      (t.Reaches (.delete x y) (keyOf item) ↔
        (x = item.user ∧ y = item.id) ∧ t.rows[keyOf item]? ≠ none)) ∧
    ∀ (requests : List Request) (x y : String),
      let t := serveAll requests {}
      (∀ key bytes, t.rows[key]? = some bytes →
        t.Reaches (.get x y) key ∨ t.Reaches (.delete x y) key →
        ∃ item, item.user = x ∧ item.id = y ∧ key = keyOf item ∧ bytes = Record.encode item) ∧
      (t.get x y = .ok none ∨
        ∃ item, t.get x y = .ok (some item) ∧ item.user = x ∧ item.id = y) := by
  refine ⟨fun _ _ => Identity.check_eq_ok_iff.trans Identity.valid_iff, ?_, ?_, ?_⟩
  · intro field field' user id huser hid x y hkey
    rw [Identity.check_eq_ok_iff] at huser hid
    obtain ⟨rfl, rfl⟩ := (Identity.key_eq_key_iff huser hid).1 hkey.symm
    exact ⟨rfl, rfl⟩
  · intro t item x y ys
    refine ⟨reaches_get_iff.trans keyOf_eq_rowKey_iff, fun h => ?_,
      reaches_delete_iff.trans (and_congr_left' keyOf_eq_rowKey_iff)⟩
    obtain ⟨id, hid, hkey⟩ := reaches_getMany h
    obtain ⟨rfl, rfl⟩ := keyOf_eq_rowKey_iff.1 hkey
    exact ⟨rfl, hid⟩
  · intro requests x y t
    have hwritten : t.Written := empty_written.serveAll requests
    refine ⟨fun key bytes hrow hreach => hwritten.reached hrow ?_, hwritten.finds x y⟩
    exact hreach.elim reaches_get_iff.1 fun h => (reaches_delete_iff.1 h).1

/-- Texts that are no identities may well have a key in common. -/
example : Identity.key "u:a" "b" = Identity.key "u" "a:b" := by decide

end Dismissal.Tree
