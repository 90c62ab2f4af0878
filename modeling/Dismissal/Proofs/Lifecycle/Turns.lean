import Dismissal.Proofs.Lifecycle.Reference
import Dismissal.Proofs.Lifecycle.Transitions
import Dismissal.Proofs.Store.Strict

/-!
# Turns of an item

By turns an item is dismissed and restored. Over a durable store that holds the item, every turn at
a time after its creation is answered, and the store holds the version that was made.

In a table an item that was created is held for sure, since its row is read as the item, whatever
its instants are. What is not sure is that a look at several items finds it: one of the others may
have a row that is read as no item, and then the look fails (`Reads`).

* `turn_run`: one turn over any durable store, and `turns_run`: one after the other in a table.
* `created_lasts`: an item that was created is read, and so are all versions that its turns make.
* `garbled_row_hides_created`: a look at several items that misses it.
-/

namespace Dismissal

open Lifecycle

/-! ## Items that are read from a table -/

namespace Table

/-- An item is read from a table: a look at it finds the item itself, and a look at several items
finds it among them, unless one of them has a garbled row. -/
structure Reads (t : Table) (item : Item) : Prop where
  get (now : Instant) :
    Store.serve now (.get item.user item.id) t = (.ok (some item), t)
  getMany (now : Instant) (ids : List String) : item.id ∈ ids →
    ((∃ found, (Store.serve now (.getMany item.user ids) t).1 = .ok found ∧
        found[item.id]? = some item) ↔
      ∀ id ∈ ids, ¬(t.said item.user id).Garbled)

variable {t t' : Table} {item kept : Item}

/-- A look at an item fails exactly if its row is garbled. -/
theorem get_ok_iff {user id : String} :
    (∃ found, t.get user id = .ok found) ↔ ¬(t.said user id).Garbled := by
  rw [← (t.get_faithful user id).failed_iff]
  cases t.get user id <;> simp

theorem reads_of_get (hopen : t.Open) (hget : t.get item.user item.id = .ok (some item)) :
    t.Reads item where
  get now := (reading_open hopen _).trans (Prod.ext hget rfl)
  getMany now ids hmem := by
    have hgathers := t.getMany_gathers item.user ids
    have hserve : Store.serve now (.getMany item.user ids) t = (t.getMany item.user ids, t) :=
      serve_getMany hopen item.user ids
    simp only [hserve, ← get_ok_iff, ← hgathers.ok_iff]
    constructor
    · rintro ⟨found, hfound, -⟩
      exact ⟨found, hfound⟩
    · rintro ⟨found, hfound⟩
      rw [hfound] at hgathers ⊢
      exact ⟨found, rfl, hgathers.found_iff.2 ⟨hmem, hget⟩⟩

/-- A write is answered only by a table that answers all statements. -/
theorem open_of_writing_ok {α : Type} {run : Result α × Table} {a : α}
    (h : t.writing run = (.ok a, t')) : t.Open := by
  unfold writing reading at h
  split at h
  · cases h
  · rename_i hclosed
    split at h
    · cases h
    · rename_i hfrozen
      exact ⟨eq_false_of_ne_true hclosed, eq_false_of_ne_true hfrozen⟩

/-- **An item that was created is read from the table.** -/
theorem created_reads {now : Instant} (h : Store.serve now (.create item) t = (.ok kept, t')) :
    kept = item ∧ t'.Open ∧ t'.get item.user item.id = .ok (some item) := by
  have hopen : t.Open := open_of_writing_ok h
  by_cases hvacant : Contents.Vacant t.get item.user item.id
  · cases (serve_create_vacant hopen hvacant).symm.trans h
    refine ⟨rfl, hopen, ?_⟩
    rw [get_insert (itemOf_rowOf item)]
    exact Contents.put_self
  · cases (serve_create_taken hopen hvacant).symm.trans h

end Table

/-! ## Turns -/

namespace Lifecycle

/-- The version that the turn of an item makes: a dismissed one is restored, another dismissed. -/
def turned (now : Instant) (item : Item) : Result Item :=
  if item.isDismissed then .ok item.restore else item.dismissAt now

/-- The call for the turn of an item. -/
def turn (context : Option Json) (item : Item) : Call :=
  if item.isDismissed then .restore item.user item.id context
  else .dismiss item.user item.id context

/-- An item has its turns at some times: it is read before each of them, each is answered with the
version that it makes, and so on with that version. -/
def Turns : List (Instant × Option Json) → Item → State Table → Prop
  | [], item, s => s.store.Reads item
  | (now, context) :: times, item, s => s.store.Reads item ∧ ∃ next,
      turned now item = .ok next ∧
      ((turn context item).perform now s).1 = .ok (.transition ⟨next, item⟩) ∧
      Turns times next ((turn context item).perform now s).2

section Turns

variable {now : Instant} {item next : Item}

/-- A version is made at any time after the creation. -/
theorem turned_ok (hle : item.created ≤ now) : ∃ next, turned now item = .ok next := by
  unfold turned Item.dismissAt
  split
  · exact ⟨_, rfl⟩
  · exact ⟨_, rfl⟩

/-- A transition of an item that a durable store holds is answered with the version that is derived,
and then the store holds that version. -/
theorem Transited.durable {σ : Type} [Durable σ] {context : Option Json}
    {derive : Item → Result Item} {change : Item → Change} {s s' : State σ}
    {answer : Result Transition}
    (h : Transited now context item.user item.id derive change s answer s')
    (hsound : Durable.Sound s.store)
    (hlook : Durable.look s.store item.user item.id = .ok (some item))
    (hderive : derive item = .ok next)
    (hkept : next.id = item.id ∧ next.user = item.user ∧ next.created = item.created) :
    answer = .ok ⟨next, item⟩ ∧ Durable.Sound s'.store ∧
      Durable.look s'.store next.user next.id = .ok (some next) := by
  obtain ⟨hid, huser, hcreated⟩ := hkept
  have hcheck := Identity.checkAll_one item.user_valid item.id_valid
  have hget := Durable.serve_get now item.user item.id hsound
  rw [hlook] at hget
  have hthere : Durable.look s.store next.user next.id = .ok (some item) := by
    rw [huser, hid, hlook]
  obtain ⟨store, hupdate, hput⟩ := Durable.serve_update now hsound hthere hcreated
  have hnext := Durable.serve_sound now (.update next) hsound
  rw [hupdate] at hnext
  obtain ⟨rfl, rfl⟩ := h.eq_written hcheck hget hderive hupdate
  refine ⟨rfl, hnext, ?_⟩
  rw [hput]
  exact Contents.put_self

/-- **A turn is answered** by a durable store that holds the item, and then the store holds the next
version. -/
theorem turn_run {σ : Type} [Durable σ] {s : State σ} (context : Option Json)
    (hsound : Durable.Sound s.store)
    (hlook : Durable.look s.store item.user item.id = .ok (some item))
    (hnext : turned now item = .ok next) :
    let r := (turn context item).perform now s
    r.1 = .ok (.transition ⟨next, item⟩) ∧ Durable.Sound r.2.store ∧
      Durable.look r.2.store next.user next.id = .ok (some next) ∧
      next.created = item.created := by
  unfold turned at hnext
  unfold turn
  split at hnext
  · rename_i hdismissed
    have hderive : restoration item.user item.id item = .ok next := by
      rwa [restoration, if_pos hdismissed]
    have hkept := restoration_kept hderive
    obtain ⟨hanswer, hheld⟩ :=
      (restore_run now context item.user item.id s).durable hsound hlook hderive hkept
    rw [if_pos hdismissed, Call.perform_restore, hanswer]
    exact ⟨rfl, hheld.1, hheld.2, hkept.2.2⟩
  · rename_i hactive
    have hderive : dismissal now item.user item.id item = .ok next := by
      rwa [dismissal, if_neg hactive]
    have hkept := dismissal_kept hderive
    obtain ⟨hanswer, hheld⟩ :=
      (dismiss_run now context item.user item.id s).durable hsound hlook hderive hkept
    rw [if_neg hactive, Call.perform_dismiss, hanswer]
    exact ⟨rfl, hheld.1, hheld.2, hkept.2.2⟩

/-- All turns are answered, by induction on their times: the next version is held as the last one
was. -/
theorem turns_run {s : State Table} (times : List (Instant × Option Json)) (hopen : s.store.Open)
    (hget : s.store.get item.user item.id = .ok (some item))
    (hle : ∀ time ∈ times, item.created ≤ time.1) : Turns times item s := by
  induction times generalizing item s with
  | nil => exact Table.reads_of_get hopen hget
  | cons time times ih =>
    obtain ⟨now, context⟩ := time
    obtain ⟨hnow, hrest⟩ := List.forall_mem_cons.1 hle
    obtain ⟨next, hnext⟩ := turned_ok hnow
    have hlook : Durable.look s.store item.user item.id = .ok (some item) := hget
    obtain ⟨hanswer, hopen', hget', hcreated⟩ := turn_run context hopen hlook hnext
    refine ⟨Table.reads_of_get hopen hget, next, hnext, hanswer, ih hopen' hget' ?_⟩
    rw [hcreated]
    exact hrest

end Turns

/-! ## Items that were created -/

section Created

variable {now : Instant} {t t' : Table} {item kept : Item}

/-- **An item that was created lasts.** It is read as it was given, and at any times after its
creation its turns are answered and the versions that they make are read. -/
theorem created_lasts (h : Store.serve now (.create item) t = (.ok kept, t')) :
    kept = item ∧ t'.Reads item ∧ ∀ published (times : List (Instant × Option Json)),
      (∀ time ∈ times, item.created ≤ time.1) → Turns times item ⟨t', published⟩ := by
  obtain ⟨hkept, hopen, hget⟩ := Table.created_reads h
  exact ⟨hkept, Table.reads_of_get hopen hget,
    fun published times hle => turns_run (s := ⟨t', published⟩) times hopen hget hle⟩

/-- An item that was created in a leap second of the first year. -/
def ancient : Item :=
  ⟨"a", "u", ⟨-8334601228741, 1000000001, by decide, by decide, by decide, by decide⟩, none,
    Identity.valid_a, Identity.valid_u, Version.le_none _⟩

/-- It is dismissed as soon as it is there, and restored in the last year. -/
theorem ancient_lasts : ∃ t',
    Store.serve .origin (.create ancient) ({} : Table) = (.ok ancient, t') ∧
    Turns [(ancient.created, none), (.latest, none)] ancient ⟨t', []⟩ := by
  have hcreate : Store.serve .origin (.create ancient) ({} : Table) = _ :=
    Table.serve_create_vacant ⟨rfl, rfl⟩ (by simp [Contents.Vacant, Table.get])
  exact ⟨_, hcreate, (created_lasts hcreate).2.2 [] _ (by decide)⟩

/-- A table with a row for another item of the user, and no instant in its cell. -/
def strange : Table where
  rows := (∅ : Std.ExtTreeMap Table.Key Table.Row).insert ⟨"u", "b"⟩ ⟨"yesterday", none⟩

/-- An item that is new. -/
def recent : Item :=
  ⟨"a", "u", .origin, none, Identity.valid_a, Identity.valid_u, Version.le_none _⟩

/-- **A look at several items need not find one that was created.** It fails where another of them
has a garbled row. -/
theorem garbled_row_hides_created :
    ¬∀ (now : Instant) (t t' : Table) (item kept : Item) (ids : List String),
      Store.serve now (.create item) t = (.ok kept, t') → item.id ∈ ids →
        ∃ found, (Store.serve now (.getMany item.user ids) t').1 = .ok found ∧
          found[item.id]? = some item := by
  intro hall
  have hvacant : Contents.Vacant strange.get recent.user recent.id := by
    rw [Contents.Vacant, Table.get_eq_none_iff, strange, getElem?_insert_eq, if_neg (by decide)]
    exact Std.ExtTreeMap.getElem?_empty
  have hcreate : Store.serve .origin (.create recent) strange = _ :=
    Table.serve_create_vacant ⟨rfl, rfl⟩ hvacant
  obtain ⟨-, hopen, hget⟩ := Table.created_reads hcreate
  have hfound := hall .origin _ _ _ _ ["a", "b"] hcreate List.mem_cons_self
  refine ((Table.reads_of_get hopen hget).getMany .origin _ List.mem_cons_self).1 hfound "b"
    (by decide) ?_
  -- the row of the other item is still there, and says nothing
  have hrow : (strange.rows.insert (Table.keyOf recent) (Table.rowOf recent))[
      Table.Key.mk "u" "b"]? = some ⟨"yesterday", none⟩ := by
    rw [getElem?_insert_eq, if_neg (by decide)]
    exact Std.ExtTreeMap.getElem?_insert_self
  have hcell : Table.recordOf? ⟨"u", "b"⟩ ⟨"yesterday", none⟩ = none := by decide
  unfold Table.said
  simp only [show recent.user = "u" from rfl, hrow, hcell]
  trivial

end Created

end Lifecycle

end Dismissal
