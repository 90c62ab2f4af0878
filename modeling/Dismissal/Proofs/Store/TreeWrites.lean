import Dismissal.Proofs.Store.TreeLaws
import Dismissal.Store.Place

/-!
# Writes to a tree

A tree may hold any bytes, and a write comes upon them as they are. An update has to read the row
before it writes, so it can be refused for what the row says, and it is refused before anything is
written. A creation does not read: any bytes under the key of an item are in its way.

* `refused_iff`: the failures of an update are the reasons to refuse it.
* `writes_all_or_nothing`: a write that fails changes no row, and one that is done changes one.
* `created_found_again`: the record of an item is the record of no other, and an item that was
  created is found, also when the tree was closed and opened since.
-/

namespace Dismissal

/-- No bytes are read as if nothing was there. -/
theorem Record.decode_ne_notFound (bytes : Bytes) : Record.decode bytes ≠ .error .notFound := by
  unfold Record.decode
  cases Record.ofBytes bytes with
  | error flaw =>
    intro h
    cases h
  | ok r =>
    intro h
    obtain ⟨reason, hreason⟩ := Item.create_refused h
    cases hreason

namespace Tree

/-- An item with the identities and the creation of one item and the dismissal of another. -/
structure Redated (stored item next : Item) : Prop where
  id : next.id = stored.id
  user : next.user = stored.user
  created : next.created = stored.created
  dismissed : next.dismissed = item.dismissed

/-- Between two trees the row under one key was written, as the record of an item, and no other. -/
structure Wrote (t t' : Tree) (key : Bytes) (item : Item) : Prop where
  written : ∃ bytes, t'.rows[key]? = some bytes ∧ Record.decode bytes = .ok item
  others : ∀ other, other ≠ key → t'.rows[other]? = t.rows[other]?

variable {t t' : Tree} {item next : Item} {e : Failure}

/-! ## One write -/

theorem wrote_insert (t : Tree) (key : Bytes) (item : Item) :
    Wrote t { t with rows := t.rows.insert key (Record.encode item) } key item where
  written := ⟨_, Std.ExtTreeMap.getElem?_insert_self, Record.decode_encode item⟩
  others other hne := by
    rw [getElem?_insert_eq, if_neg (Ne.symm hne)]

/-- Each reason is given, and nothing is written. -/
theorem Refused.update (h : Refused t item e) : t.update item = (.error e, t) := by
  unfold Tree.update
  cases h with
  | missing hrow => simp only [hrow]
  | unreadable hrow hdec => simp only [hrow, hdec]
  | @antedated bytes stored at_ hrow hdec hat hlate =>
    have hrefused := Item.create_late stored.id_valid stored.user_valid hlate
    simp only [hrow, hdec, hat, hrefused]

/-- **An update fails for the reasons to refuse it and for nothing else.** -/
theorem refused_iff : (t.update item).1 = .error e ↔ Refused t item e := by
  constructor
  · intro herror
    have hupdated := t.updated item
    generalize t.update item = r at hupdated herror
    cases hupdated with
    | refused h =>
      cases herror
      exact h
    | written => cases herror
  · intro h
    rw [h.update]

/-- The failure to find an item is not mistaken for that to read it. -/
theorem refused_notFound_iff : Refused t item .notFound ↔ t.rows[keyOf item]? = none := by
  constructor
  · intro h
    generalize hnot : Failure.notFound = e at h
    cases h with
    | missing hrow => exact hrow
    | unreadable hrow hdec =>
      subst hnot
      exact absurd hdec (Record.decode_ne_notFound _)
    | antedated => cases hnot
  · exact .missing

theorem update_error (h : (t.update item).1 = .error e) : (t.update item).2 = t := by
  rw [(refused_iff.1 h).update]

theorem update_ok (h : (t.update item).1 = .ok next) :
    ∃ bytes stored, t.rows[keyOf item]? = some bytes ∧ Record.decode bytes = .ok stored ∧
      Redated stored item next ∧ Wrote t (t.update item).2 (keyOf item) next := by
  have hupdated := t.updated item
  generalize t.update item = r at hupdated h ⊢
  cases hupdated with
  | refused _ => cases h
  | written hrow hdec hmerged =>
    cases h
    obtain ⟨hid, huser, hcreated, hdismissed⟩ := Item.create_parts hmerged
    exact ⟨_, _, hrow, hdec, ⟨hid, huser, hcreated, hdismissed⟩, wrote_insert t _ _⟩

theorem create_ok_iff : (∃ kept, (t.create item).1 = .ok kept) ↔ t.rows[keyOf item]? = none := by
  rw [show t.rows[keyOf item]? = none ↔ _ from get_eq_none_iff.symm]
  by_cases hvacant : t.get item.user item.id = .ok none
  · rw [create_vacant hvacant]
    exact iff_of_true ⟨item, rfl⟩ hvacant
  · rw [create_taken hvacant]
    exact iff_of_false (fun ⟨_, h⟩ => by cases h) hvacant

theorem create_error (h : (t.create item).1 = .error e) : (t.create item).2 = t := by
  unfold create at h ⊢
  split
  · rfl
  · rename_i hno
    rw [if_neg hno] at h
    cases h

theorem create_ok (h : (t.create item).1 = .ok next) :
    next = item ∧ Wrote t (t.create item).2 (keyOf item) item := by
  have hvacant := get_eq_none_iff.2 (create_ok_iff.1 ⟨next, h⟩)
  rw [create_vacant hvacant] at h ⊢
  cases h
  exact ⟨rfl, wrote_insert t _ _⟩

/-! ## All or nothing -/

/-- **A write is done wholly or not at all**, whatever bytes the tree holds. An update fails exactly
for the reasons to refuse it, and misses the item exactly if there is no row under its key. A
creation gets through exactly if there is none, readable or not. What fails leaves each row as it
was; what gets through writes one row, which is read as the answer. -/
theorem writes_all_or_nothing (t : Tree) (item : Item) :
    (∀ e, (t.update item).1 = .error e ↔ Refused t item e) ∧
    ((t.update item).1 = .error .notFound ↔ t.rows[keyOf item]? = none) ∧
    (∀ e, (t.update item).1 = .error e → (t.update item).2 = t) ∧
    (∀ next, (t.update item).1 = .ok next →
      ∃ bytes stored, t.rows[keyOf item]? = some bytes ∧ Record.decode bytes = .ok stored ∧
        Redated stored item next ∧ Wrote t (t.update item).2 (keyOf item) next) ∧
    ((∃ kept, (t.create item).1 = .ok kept) ↔ t.rows[keyOf item]? = none) ∧
    (∀ e, (t.create item).1 = .error e → (t.create item).2 = t) ∧
    (∀ kept, (t.create item).1 = .ok kept →
      kept = item ∧ Wrote t (t.create item).2 (keyOf item) item) :=
  ⟨fun _ => refused_iff, refused_iff.trans refused_notFound_iff, fun _ => update_error,
    fun _ => update_ok, create_ok_iff, fun _ => create_error, fun _ => create_ok⟩

/-! ## Items that were created -/

/-- A tree is read as before when it was opened once more. -/
theorem get_reopen (t : Tree) : t.reopen.get = t.get := rfl

/-- **Items are found again.** A record is read as the item that it was written for, so that it is
the record of no other. An item that was created is found as it was given, whenever it is looked at,
and also after the end and the next start of the service. -/
theorem created_found_again :
    (∀ item, Record.decode (Record.encode item) = .ok item) ∧ Function.Injective Record.encode ∧
    ∀ (now : Instant) (t t' : Tree) (item kept : Item),
      Store.serve now (.create item) t = (.ok kept, t') → kept = item ∧ ∀ now',
        Store.serve now' (.get item.user item.id) t' = (.ok (some item), t') ∧
        ∀ path, (Store.serve now' (.get item.user item.id)
          ((Place.tree path).restart (.tree t'))).1 = .ok (some item) := by
  refine ⟨Record.decode_encode, Record.encode_injective, fun now t t' item kept hserve => ?_⟩
  obtain ⟨hkept, rfl⟩ := Prod.mk.inj hserve
  obtain ⟨rfl, ⟨bytes, hrow, hdec⟩, -⟩ := create_ok hkept
  have hget := get_row hrow hdec
  refine ⟨rfl, fun now' => ⟨Prod.ext hget rfl, fun path => ?_⟩⟩
  rw [← get_reopen] at hget
  exact hget

end Tree

end Dismissal
