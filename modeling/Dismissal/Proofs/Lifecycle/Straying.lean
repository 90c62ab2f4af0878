import Dismissal.Proofs.Lifecycle.Refinement
import Dismissal.Proofs.Lifecycle.Transitions
import Dismissal.Proofs.Store.TableFailures
import Dismissal.Proofs.Store.TreeWrites

/-!
# Calls that stray

A tree reads a row under the key that it is asked for, and writes an item under the key of the item.
Nothing compares the two. So a call `KeepsTo` the item that it names only if the row of that item is
not the record of another one: otherwise the other item is answered and told, and a transition
changes the row of the other item.

* `Transited.keepsTo_iff`: a transition keeps to its item unless it `Diverts`.
* `call_keepsTo_iff`: for each call on one item, the rows with which it strays.
* `dismissal_strays`: a tree on which a dismissal does.
-/

namespace Dismissal

namespace Lifecycle

/-- The outcome shows no item but the one of a name. -/
def Outcome.About (n : Name) : Outcome → Prop
  | presented p => p.item.name = n
  | batch answers => ∀ p ∈ answers, p.item.name = n
  | transition t => t.item.name = n ∧ t.previous.name = n
  | done => True

/-- A call on a tree keeps to the item of a name: no other row changes, and no other item is
answered or told. -/
structure KeepsTo (n : Name) (s : State Tree) (r : Result Outcome × State Tree) : Prop where
  rows : ∀ key, key ≠ Tree.rowKey n.user n.id → r.2.store.rows[key]? = s.store.rows[key]?
  answered : ∀ outcome, r.1 = .ok outcome → outcome.About n
  told : ∃ events, r.2.published = s.published ++ events ∧ ∀ e ∈ events,
    e.item.name = n ∧ ∀ previous ∈ e.change.previous?, previous.name = n

/-- Under a name another item is found, and a version that is derived from it can be written. -/
def Diverts (t : Tree) (n : Name) (derive : Item → Result Item) : Prop :=
  ∃ x next stored, t.get n.user n.id = .ok (some x) ∧ x.name ≠ n ∧ derive x = .ok next ∧
    (t.update next).1 = .ok stored

end Lifecycle

/-! ## Updates of a tree -/

namespace Tree

variable {t t' : Tree} {item stored : Item}

theorem rowKey_name (item : Item) : rowKey item.name.user item.name.id = keyOf item := rfl

/-- An update that is answered was made to the item that is found. -/
theorem update_found_ok (h : t.update item = (.ok stored, t')) :
    ∃ found, t.get item.user item.id = .ok (some found) ∧
      Item.create found.id found.user found.created item.dismissed = .ok stored ∧
      t' = { t with rows := t.rows.insert (keyOf item) (Record.encode stored) } := by
  have hupdated := t.updated item
  rw [h] at hupdated
  cases hupdated with
  | written hrow hdec hmerged => exact ⟨_, get_row hrow hdec, hmerged, rfl⟩

/-- An update is answered if an item is found that may be dismissed as the argument is. -/
theorem update_ok_iff : (∃ stored, (t.update item).1 = .ok stored) ↔
    ∃ found, t.get item.user item.id = .ok (some found) ∧
      ∀ at_ ∈ item.dismissed, found.created ≤ at_ := by
  constructor
  · rintro ⟨stored, hok⟩
    obtain ⟨found, hget, hcreate, -⟩ := update_found_ok (Prod.ext hok rfl)
    exact ⟨found, hget, (Item.create_eq_ok_iff.1 ⟨stored, hcreate⟩).2.2⟩
  · rintro ⟨found, hget, hle⟩
    obtain ⟨bytes, hrow, hdec⟩ := get_found hget
    obtain ⟨merged, hmerged⟩ := Item.create_eq_ok_iff.2 ⟨found.id_valid, found.user_valid, hle⟩
    exact ⟨merged, by rw [update_row hrow hdec hmerged]⟩

end Tree

namespace Lifecycle

variable {now : Instant} {context : Option Json} {n : Name} {s s' : State Tree}

/-! ## Transitions -/

section Transitions

variable {derive : Item → Result Item} {change : Item → Change} {answer : Result Transition}

/-- A call that fails without a trace keeps to its item. -/
theorem KeepsTo.of_error (n : Name) (s : State Tree) (e : Failure) :
    KeepsTo n s (.error e, s) where
  rows _ _ := rfl
  answered _ hok := by cases hok
  told := ⟨[], (List.append_nil _).symm, fun _ hmem => absurd hmem List.not_mem_nil⟩

/-- A version of the item of a name is derived and written. -/
theorem KeepsTo.of_written {t' : Tree} {current next stored : Item}
    (hname : current.name = n) (hkept : next.name = current.name)
    (hget : s.store.get n.user n.id = .ok (some current))
    (hupdate : s.store.update next = (.ok stored, t'))
    (hchange : (change current).previous? = some current) :
    KeepsTo n s (.ok (.transition ⟨stored, current⟩),
      ⟨t', s.published ++ [⟨change current, n.user, n.id, stored, context, now⟩]⟩) := by
  subst hname
  obtain ⟨found, hfound, hcreate, rfl⟩ := Tree.update_found_ok hupdate
  have hnext : next.user = current.user ∧ next.id = current.id := Name.eq_iff.1 hkept.symm
  rw [hnext.1, hnext.2] at hfound
  cases hget.symm.trans hfound
  have hstored : stored.name = current.name := by
    obtain ⟨hid, huser, -, -⟩ := Item.create_parts hcreate
    exact Name.eq_iff.2 ⟨huser.symm, hid.symm⟩
  constructor
  · intro key hkey
    have hrow : Tree.keyOf next ≠ key := by
      rw [← Tree.rowKey_name, hkept]
      exact Ne.symm hkey
    simp only [getElem?_insert_eq, if_neg hrow]
  · rintro outcome hok
    cases hok
    exact ⟨hstored, rfl⟩
  · refine ⟨_, rfl, fun e hmem => ?_⟩
    obtain rfl := List.mem_singleton.1 hmem
    refine ⟨hstored, fun previous hmem => ?_⟩
    rw [hchange] at hmem
    cases hmem
    rfl

/-- **A transition keeps to its item unless it diverts.** -/
theorem Transited.keepsTo_iff (h : Transited now context n.user n.id derive change s answer s')
    (hkept : ∀ item next, derive item = .ok next → next.name = item.name)
    (hchange : ∀ item, (change item).previous? = some item) :
    KeepsTo n s (answer.map .transition, s') ↔ ¬Diverts s.store n derive := by
  cases h with
  | malformed e hbad =>
    rw [Identity.checkAll_eq, n.check] at hbad
    cases hbad
  | unread e hget =>
    obtain ⟨hlook, rfl⟩ := Prod.mk.inj hget
    refine iff_of_true (.of_error n s e) ?_
    rintro ⟨x, _, _, hx, -⟩
    cases hx.symm.trans hlook
  | missing hget =>
    obtain ⟨hlook, rfl⟩ := Prod.mk.inj hget
    refine iff_of_true (.of_error n s _) ?_
    rintro ⟨x, _, _, hx, -⟩
    cases hx.symm.trans hlook
  | unsuited e hget hderive =>
    obtain ⟨hlook, rfl⟩ := Prod.mk.inj hget
    refine iff_of_true (.of_error n s e) ?_
    rintro ⟨x, next, _, hx, -, hnext, -⟩
    cases hx.symm.trans hlook
    cases hnext.symm.trans hderive
  | unwritten e hget hderive hupdate =>
    obtain ⟨hlook, rfl⟩ := Prod.mk.inj hget
    obtain rfl := (Prod.mk.inj hupdate).2.symm.trans (Tree.update_error (Prod.mk.inj hupdate).1)
    refine iff_of_true (.of_error n s e) ?_
    rintro ⟨x, next, stored, hx, -, hnext, hok⟩
    cases hx.symm.trans hlook
    cases hnext.symm.trans hderive
    cases hok.symm.trans (Prod.mk.inj hupdate).1
  | @written store store' current next stored hget hderive hupdate =>
    obtain ⟨hlook, rfl⟩ := Prod.mk.inj hget
    by_cases hname : current.name = n
    · refine iff_of_true (.of_written hname (hkept _ _ hderive) hlook hupdate (hchange _)) ?_
      rintro ⟨x, _, _, hx, hne, -⟩
      cases hx.symm.trans hlook
      exact hne hname
    · refine iff_of_false (fun hkeeps => hname (hkeeps.answered _ rfl).2) (not_not_intro ?_)
      exact ⟨current, next, stored, hlook, hname, hderive, congrArg Prod.fst hupdate⟩

/-- A dismissal is derived of an item that is not dismissed and was created by now. -/
theorem dismissal_eq_ok {user id : String} {item next : Item}
    (h : dismissal now user id item = .ok next) :
    item.dismissed = none ∧ item.created ≤ now ∧ next.dismissed = some now := by
  unfold dismissal Item.dismissAt at h
  split at h
  · cases h
  · rename_i hactive
    split at h
    · rename_i hle
      cases h
      exact ⟨Option.not_isSome_iff_eq_none.1 hactive, hle, rfl⟩
    · cases h

theorem dismissal_active {item : Item} (user id : String) (hactive : item.dismissed = none)
    (hle : item.created ≤ now) : ∃ next, dismissal now user id item = .ok next := by
  have hnot : ¬item.isDismissed = true := by simp [Item.isDismissed, hactive]
  unfold dismissal
  rw [if_neg hnot]
  exact ⟨_, dif_pos hle⟩

/-- When a dismissal diverts. -/
theorem diverts_dismissal_iff {t : Tree} : Diverts t n (dismissal now n.user n.id) ↔
    ∃ x y, t.get n.user n.id = .ok (some x) ∧ x.name ≠ n ∧ x.dismissed = none ∧ x.created ≤ now ∧
      t.get x.user x.id = .ok (some y) ∧ y.created ≤ now := by
  constructor
  · rintro ⟨x, next, stored, hx, hne, hnext, hok⟩
    obtain ⟨hactive, hle, hnow⟩ := dismissal_eq_ok hnext
    obtain ⟨hid, huser, -⟩ := dismissal_kept hnext
    obtain ⟨y, hy, hyle⟩ := Tree.update_ok_iff.1 ⟨stored, hok⟩
    rw [huser, hid] at hy
    exact ⟨x, y, hx, hne, hactive, hle, hy, hyle now hnow⟩
  · rintro ⟨x, y, hx, hne, hactive, hle, hy, hyle⟩
    obtain ⟨next, hnext⟩ := dismissal_active n.user n.id hactive hle
    obtain ⟨-, -, hnow⟩ := dismissal_eq_ok hnext
    obtain ⟨hid, huser, -⟩ := dismissal_kept hnext
    rw [← huser, ← hid] at hy
    obtain ⟨stored, hok⟩ := Tree.update_ok_iff.2 ⟨y, hy, by simpa [hnow] using hyle⟩
    exact ⟨x, next, stored, hx, hne, hnext, hok⟩

/-- When a restoration diverts. -/
theorem diverts_restoration_iff {t : Tree} : Diverts t n (restoration n.user n.id) ↔
    ∃ x y, t.get n.user n.id = .ok (some x) ∧ x.name ≠ n ∧ x.dismissed ≠ none ∧
      t.get x.user x.id = .ok (some y) := by
  constructor
  · rintro ⟨x, next, stored, hx, hne, hnext, hok⟩
    unfold restoration at hnext
    split at hnext
    · rename_i hdismissed
      cases hnext
      obtain ⟨y, hy, -⟩ := Tree.update_ok_iff.1 ⟨stored, hok⟩
      exact ⟨x, y, hx, hne, Option.isSome_iff_ne_none.1 hdismissed, hy⟩
    · cases hnext
  · rintro ⟨x, y, hx, hne, hdismissed, hy⟩
    obtain ⟨stored, hok⟩ : ∃ stored, (t.update x.restore).1 = .ok stored :=
      Tree.update_ok_iff.2 ⟨y, hy, by simp [Item.restore]⟩
    exact ⟨x, _, stored, hx, hne, if_pos (Option.isSome_iff_ne_none.2 hdismissed), hok⟩

end Transitions

/-! ## All calls on one item -/

section Calls

/-- The item of a name is presented, and no other row was written. -/
theorem KeepsTo.of_presented {p : Presented} {t' : Tree} (hname : p.item.name = n)
    (hrows : ∀ key, key ≠ Tree.rowKey n.user n.id → t'.rows[key]? = s.store.rows[key]?) :
    KeepsTo n s (.ok (.presented p), ⟨t', s.published ++ [presentedEvent now context p]⟩) where
  rows := hrows
  answered outcome hok := by
    cases hok
    exact hname
  told := by
    refine ⟨_, rfl, fun e hmem => ?_⟩
    obtain rfl := List.mem_singleton.1 hmem
    refine ⟨hname, fun previous hmem => ?_⟩
    unfold presentedEvent at hmem
    cases hp : p.created <;> simp [hp, Change.previous?] at hmem

theorem getOrCreate_keepsTo_iff :
    KeepsTo n s ((Call.getOrCreate n.user n.id context).perform now s) ↔
      ¬∃ x, s.store.get n.user n.id = .ok (some x) ∧ x.name ≠ n := by
  have hget : Store.serve now (.get n.user n.id) s.store =
      (s.store.get n.user n.id, s.store) := rfl
  rw [Call.perform_getOrCreate]
  cases hlook : s.store.get n.user n.id with
  | error e =>
    rw [hlook] at hget
    rw [getOrCreate_unread context hget]
    exact iff_of_true (.of_error n s e) (by simp)
  | ok found =>
    rw [hlook] at hget
    cases found with
    | some x =>
      rw [getOrCreate_found context hget]
      by_cases hname : x.name = n
      · refine iff_of_true (.of_presented hname fun _ _ => rfl) ?_
        rintro ⟨y, hy, hne⟩
        cases hy
        exact hne hname
      · exact iff_of_false (fun hkeeps => hname (hkeeps.answered _ rfl))
          (not_not_intro ⟨x, rfl, hname⟩)
    | none =>
      have hcreate : Store.serve now (.create (n.item (.new now))) s.store = _ :=
        Tree.create_vacant hlook
      rw [getOrCreate_new context hget hcreate]
      refine iff_of_true (.of_presented rfl fun key hkey => ?_) (by simp)
      have hrow : Tree.keyOf (n.item (.new now)) ≠ key := Ne.symm hkey
      rw [getElem?_insert_eq, if_neg hrow]

theorem deleteItem_keepsTo : KeepsTo n s ((Call.deleteItem n.user n.id).perform now s) := by
  have hrun : (Call.deleteItem n.user n.id).perform now s =
      (.ok .done, { s with store := s.store.delete n.user n.id }) := by
    have hdelete : exec (deleteItem now n.user n.id) s =
        (.ok (), { s with store := s.store.delete n.user n.id }) := by
      unfold deleteItem
      rw [exec_bind_ok (exec_checkAll n.check)]
      rfl
    exact exec_bind_ok hdelete _
  rw [hrun]
  constructor
  · intro key hkey
    show (s.store.rows.erase _)[key]? = _
    rw [getElem?_erase_eq, if_neg (Ne.symm hkey)]
  · rintro outcome hok
    cases hok
    trivial
  · exact ⟨[], (List.append_nil _).symm, fun _ hmem => absurd hmem List.not_mem_nil⟩

variable (now context n s)

/-- **A call on one item keeps to it unless its row is the record of another.** A deletion always
does; a transition strays if the other item has a row as well, and can be changed. -/
theorem call_keepsTo_iff :
    (KeepsTo n s ((Call.getOrCreate n.user n.id context).perform now s) ↔
      ¬∃ x, s.store.get n.user n.id = .ok (some x) ∧ x.name ≠ n) ∧
    (KeepsTo n s ((Call.dismiss n.user n.id context).perform now s) ↔
      ¬∃ x y, s.store.get n.user n.id = .ok (some x) ∧ x.name ≠ n ∧ x.dismissed = none ∧
        x.created ≤ now ∧ s.store.get x.user x.id = .ok (some y) ∧ y.created ≤ now) ∧
    (KeepsTo n s ((Call.restore n.user n.id context).perform now s) ↔
      ¬∃ x y, s.store.get n.user n.id = .ok (some x) ∧ x.name ≠ n ∧ x.dismissed ≠ none ∧
        s.store.get x.user x.id = .ok (some y)) ∧
    KeepsTo n s ((Call.deleteItem n.user n.id).perform now s) := by
  have hderived {derive : Item → Result Item}
      (h : ∀ item next, derive item = .ok next →
        next.id = item.id ∧ next.user = item.user ∧ next.created = item.created) :
      ∀ item next, derive item = .ok next → next.name = item.name := by
    intro item next hnext
    obtain ⟨hid, huser, -⟩ := h item next hnext
    exact Name.eq_iff.2 ⟨huser.symm, hid.symm⟩
  refine ⟨getOrCreate_keepsTo_iff, ?_, ?_, deleteItem_keepsTo⟩
  · rw [Call.perform_dismiss, ← diverts_dismissal_iff]
    exact (dismiss_run now context n.user n.id s).keepsTo_iff
      (hderived fun _ _ => dismissal_kept) fun _ => rfl
  · rw [Call.perform_restore, ← diverts_restoration_iff]
    exact (restore_run now context n.user n.id s).keepsTo_iff
      (hderived fun _ _ => restoration_kept) fun _ => rfl

/-- A tree with the record of an item under its own key, and under that of another item. -/
def crossed : Tree where
  rows := ((∅ : Std.ExtTreeMap Bytes Bytes).insert (Tree.rowKey "u" "a")
    (Record.encode Table.kept)).insert (Tree.keyOf Table.kept) (Record.encode Table.kept)

theorem crossed_get : crossed.get "u" "a" = .ok (some Table.kept) ∧
    crossed.get "u" "b" = .ok (some Table.kept) := by
  have hkeys : Tree.keyOf Table.kept ≠ Tree.rowKey "u" "a" := by decide
  constructor
  · unfold Tree.get crossed
    simp only [getElem?_insert_eq, if_neg hkeys, ↓reduceIte, Record.decode_encode]
    rfl
  · unfold Tree.get crossed
    rw [show Tree.rowKey "u" "b" = Tree.keyOf Table.kept from rfl]
    simp only [getElem?_insert_eq, ↓reduceIte, Record.decode_encode]
    rfl

/-- The item after its dismissal. -/
def keptDismissed : Item :=
  { Table.kept with dismissed := some .origin, created_le := by decide }

/-- The tree with the record of the dismissed item. -/
def diverted : Tree where
  rows := crossed.rows.insert (Tree.keyOf Table.kept) (Record.encode keptDismissed)

theorem crossed_update : Store.serve .origin (.update keptDismissed) crossed =
    (.ok keptDismissed, diverted) := by
  obtain ⟨bytes, hrow, hdec⟩ := Tree.get_found crossed_get.2
  have hself : Item.create Table.kept.id Table.kept.user Table.kept.created
      keptDismissed.dismissed = .ok keptDismissed := Item.create_self keptDismissed
  have hkey : crossed.rows[Tree.keyOf keptDismissed]? = some bytes := hrow
  show crossed.update keptDismissed = _
  rw [Tree.update_row hkey hdec hself]
  rfl

/-- **A dismissal can change the row of another item**, and answer with that item. -/
theorem dismissal_strays :
    let r := (Call.dismiss "u" "a" none).perform .origin ⟨crossed, []⟩
    r.2.store.rows[Tree.rowKey "u" "b"]? ≠ crossed.rows[Tree.rowKey "u" "b"]? ∧
      ¬∀ outcome, r.1 = .ok outcome →
        outcome.About ⟨"u", "a", Identity.valid_u, Identity.valid_a⟩ := by
  have hask : exec (ask .origin (.get "u" "a")) (⟨crossed, []⟩ : State Tree) =
      (.ok (some Table.kept), ⟨crossed, []⟩) := by
    rw [exec_ask]
    exact Prod.ext crossed_get.1 rfl
  have hread : exec (existing .origin "u" "a") (⟨crossed, []⟩ : State Tree) =
      (.ok Table.kept, ⟨crossed, []⟩) := by
    unfold existing
    rw [exec_bind_ok hask]
    rfl
  have hwrite : exec (ask .origin (.update keptDismissed)) (⟨crossed, []⟩ : State Tree) =
      (.ok keptDismissed, ⟨diverted, []⟩) := by
    rw [exec_ask, crossed_update]
  have hcheck : malformed? "u" ["a"] = none := by decide
  have hrun : exec (dismiss .origin "u" "a" none) (⟨crossed, []⟩ : State Tree) =
      (.ok ⟨keptDismissed, Table.kept⟩, ⟨diverted,
        [⟨.dismissed Table.kept, "u", "a", keptDismissed, none, .origin⟩]⟩) := by
    unfold dismiss
    rw [exec_bind_ok (exec_checkAll hcheck), exec_bind_ok hread]
    show exec (transit .origin .dismissed "u" "a" none Table.kept keptDismissed) _ = _
    unfold transit
    rw [exec_bind_ok hwrite, exec_bind_ok (exec_publish _)]
    rfl
  rw [Call.perform_dismiss, hrun]
  constructor
  · obtain ⟨bytes, hrow, hdec⟩ := Tree.get_found crossed_get.2
    rw [show Tree.rowKey "u" "b" = Tree.keyOf Table.kept from rfl] at hrow ⊢
    simp only [diverted, getElem?_insert_eq, ↓reduceIte, hrow]
    intro heq
    cases Option.some.inj heq
    rw [Record.decode_encode] at hdec
    exact absurd (congrArg Item.dismissed (Except.ok.inj hdec)) (by decide)
  · intro habout
    exact absurd (congrArg Name.id (habout _ rfl).2) (by decide)

end Calls

end Lifecycle

end Dismissal
