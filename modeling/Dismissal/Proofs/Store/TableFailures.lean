import Dismissal.Proofs.Identity.WellFormed
import Dismissal.Proofs.Store.TableLaws

/-!
# What a failed request leaves in a table

A statement is done wholly or not at all, so a request that fails leaves the table as it was, but
for one case: `update` writes a dismissal first and reads the row afterwards. A dismissal that comes
before the creation in the row is written as well, and from then on the row is no item.

* `Regular.served`: all that can come of a request, as long as the cells are those of instants.
* `Regular.trace_iff`: a failed request changes the table if and only if it `Spoils` a row.
* `Readable.serve`: until a row is spoilt, each row is read as an item.
* `failed_requests_traceless_iff`: both along all runs from the empty table.
-/

namespace Dismissal

namespace Table

/-! ## Rows of instants -/

/-- The row of a creation and a dismissal, whichever comes first. -/
def rowAt (created : Instant) (dismissed : Option Instant) : Row :=
  ⟨created.offsetText, dismissed.map Instant.offsetText⟩

/-- The table answers all statements, and each row is that of instants under valid identities. -/
structure Regular (t : Table) : Prop where
  isOpen : t.Open
  keyed : ∀ (key : Key) row, t.rows[key]? = some row →
    Identity.Valid key.user ∧ Identity.Valid key.id
  dated : ∀ (key : Key) row, t.rows[key]? = some row →
    ∃ created dismissed, row = rowAt created dismissed

section Rows

variable {t : Table} {item : Item} {created created' : Instant}
  {dismissed dismissed' : Option Instant}

theorem itemOf_rowAt (key : Key) (created : Instant) (dismissed : Option Instant) :
    itemOf key (rowAt created dismissed) = Item.create key.id key.user created dismissed := by
  have hcell : (dismissed.map Instant.offsetText).mapM (readCell "dismissed_at") =
      .ok dismissed := by
    cases dismissed with
    | none => rfl
    | some at_ => simp only [Option.map_some, Option.mapM_some, readCell_offsetText]; rfl
  unfold itemOf rowAt
  simp only [readCell_offsetText, hcell, bind, Except.bind]

/-- The text of an instant is the text of no other. -/
theorem offsetText_inj {a b : Instant} (h : a.offsetText = b.offsetText) : a = b := by
  have ha := Instant.ofCellText?_offsetText a
  rw [h, Instant.ofCellText?_offsetText] at ha
  exact (Option.some.inj ha).symm

theorem rowAt_inj (h : rowAt created dismissed = rowAt created' dismissed') :
    created = created' ∧ dismissed = dismissed' := by
  obtain ⟨hcreated, hdismissed⟩ := Row.mk.injEq .. ▸ h
  refine ⟨offsetText_inj hcreated, ?_⟩
  exact Option.map_injective (fun _ _ => offsetText_inj) hdismissed

/-- An update of a row of instants writes the dismissal, and then reads what it wrote. -/
theorem update_row (hrow : t.rows[keyOf item]? = some (rowAt created dismissed)) :
    t.update item = (Item.create item.id item.user created item.dismissed,
      { t with rows := t.rows.insert (keyOf item) (rowAt created item.dismissed) }) := by
  unfold update
  rw [hrow]
  show (itemOf (keyOf item) (rowAt created item.dismissed), _) = _
  rw [itemOf_rowAt]
  rfl

theorem update_missing (hrow : t.rows[keyOf item]? = none) :
    t.update item = (.error .notFound, t) := by
  unfold update
  rw [hrow]

theorem Regular.row (h : t.Regular) (item : Item) : t.rows[keyOf item]? = none ∨
    ∃ created dismissed, t.rows[keyOf item]? = some (rowAt created dismissed) := by
  cases hrow : t.rows[keyOf item]? with
  | none => exact .inl rfl
  | some row =>
    obtain ⟨created, dismissed, rfl⟩ := h.dated _ _ hrow
    exact .inr ⟨created, dismissed, rfl⟩

end Rows

/-! ## What can come of a request -/

/-- What can come of a request to a table of instants: it changes nothing, it removes rows, it makes
rows for items, or it writes a dismissal into a row and reads the row afterwards. Only the first and
the last of these can fail. -/
inductive Served (t : Table) : (request : Request) → Result request.Answer × Table → Prop where
  | same {request : Request} (answer : Result request.Answer) : Served t request (answer, t)
  | fewer {request : Request} (answer : request.Answer) {rows : Std.ExtTreeMap Key Row}
      (hrows : ∀ (key : Key) row, rows[key]? = some row → t.rows[key]? = some row) :
      Served t request (.ok answer, { t with rows })
  | more {request : Request} (answer : request.Answer) {items : List Item}
      {rows : Std.ExtTreeMap Key Row} (hrows : insertAll t.rows items = some rows) :
      Served t request (.ok answer, { t with rows })
  | update {item : Item} {created : Instant} {dismissed : Option Instant}
      (hrow : t.rows[keyOf item]? = some (rowAt created dismissed)) :
      Served t (.update item) (Item.create item.id item.user created item.dismissed,
        { t with rows := t.rows.insert (keyOf item) (rowAt created item.dismissed) })

section Requests

variable {t : Table} {item : Item}

theorem serve_update (h : t.Open) (item : Item) : serve (.update item) t = t.update item :=
  writing_open h _

/-- There is nothing else that can come of a request. -/
theorem Regular.served (h : t.Regular) (request : Request) :
    Served t request (serve request t) := by
  have hopen := h.isOpen
  cases request with
  | get user id =>
    show Served t _ (t.reading _)
    rw [reading_open hopen]
    exact .same _
  | getMany user ids =>
    rw [serve_getMany hopen]
    exact .same _
  | create item =>
    have hserve : serve (.create item) t = t.create item := writing_open hopen _
    rw [hserve]
    unfold create
    split
    · exact .same _
    · rename_i hvacant
      have hrows : insertAll t.rows [item] = some (t.rows.insert (keyOf item) (rowOf item)) := by
        simp only [insertAll, hvacant, Bool.false_eq_true, ↓reduceIte]
      exact .more _ hrows
  | createMany items =>
    rw [serve_createMany hopen]
    unfold createMany
    split
    · rename_i rows hrows
      exact .more _ hrows
    · exact .same _
  | update item =>
    rw [serve_update hopen]
    rcases h.row item with hrow | ⟨created, dismissed, hrow⟩
    · rw [update_missing hrow]
      exact .same _
    · rw [update_row hrow]
      exact .update hrow
  | delete user id =>
    show Served t _ (t.writing _)
    rw [writing_open hopen]
    refine .fewer _ fun key row hrow => ?_
    rw [getElem?_erase_eq] at hrow
    split at hrow
    · cases hrow
    · exact hrow
  | deleteAll =>
    show Served t _ (t.writing _)
    rw [writing_open hopen]
    refine .fewer _ fun key row hrow => ?_
    simp at hrow

end Requests

/-! ## What requests keep -/

/-- The request is an update that dismisses an item before the creation in its row, which says
otherwise so far. -/
def Spoils (t : Table) (request : Request) : Prop :=
  ∃ item created dismissed at_, request = .update item ∧
    t.rows[keyOf item]? = some (rowAt created dismissed) ∧
    item.dismissed = some at_ ∧ ¬created ≤ at_ ∧ dismissed ≠ some at_

/-- Each row is read as an item, and no look fails. -/
structure Readable (t : Table) : Prop where
  rows : ∀ (key : Key) row, t.rows[key]? = some row → ∃ item, itemOf key row = .ok item
  get : ∀ user id, ∃ found, serve (.get user id) t = (.ok found, t)
  getMany : ∀ user ids, ∃ found, serve (.getMany user ids) t = (.ok found, t)

section Keeps

variable {t : Table} {item : Item}

theorem empty_regular : ({} : Table).Regular :=
  ⟨⟨rfl, rfl⟩, fun _ _ h => by simp at h, fun _ _ h => by simp at h⟩

theorem Regular.insert (h : t.Regular) (item : Item) (created : Instant)
    (dismissed : Option Instant) :
    ({ t with rows := t.rows.insert (keyOf item) (rowAt created dismissed) } : Table).Regular := by
  refine ⟨h.isOpen, fun key row hrow => ?_, fun key row hrow => ?_⟩
  · rw [getElem?_insert_eq] at hrow
    by_cases hkey : keyOf item = key
    · subst hkey
      exact ⟨item.user_valid, item.id_valid⟩
    · rw [if_neg hkey] at hrow
      exact h.keyed key row hrow
  · rw [getElem?_insert_eq] at hrow
    by_cases hkey : keyOf item = key
    · rw [if_pos hkey] at hrow
      exact ⟨created, dismissed, (Option.some.inj hrow).symm⟩
    · rw [if_neg hkey] at hrow
      exact h.dated key row hrow

/-- What is true of a table and stays so when an item is put into it, stays so when items
are. -/
theorem insertAll_keeps {P : Table → Prop} {items : List Item} {rows : Std.ExtTreeMap Key Row}
    (hinsert : ∀ (t : Table) (item : Item), P t →
      P { t with rows := t.rows.insert (keyOf item) (rowOf item) })
    (h : P t) (hrows : insertAll t.rows items = some rows) : P { t with rows } := by
  induction items generalizing t with
  | nil =>
    cases hrows
    exact h
  | cons item items ih =>
    unfold insertAll at hrows
    split at hrows
    · cases hrows
    · exact ih (t := { t with rows := t.rows.insert (keyOf item) (rowOf item) })
        (hinsert t item h) hrows

/-- **All cells are those of instants**, whatever is asked. -/
theorem Regular.serve (h : t.Regular) (request : Request) :
    (Table.serve request t).2.Regular := by
  have hserved := h.served request
  generalize Table.serve request t = r at hserved ⊢
  cases hserved with
  | same answer => exact h
  | fewer answer hrows =>
    exact ⟨h.isOpen, fun key row hrow => h.keyed key row (hrows key row hrow),
      fun key row hrow => h.dated key row (hrows key row hrow)⟩
  | more answer hrows =>
    exact insertAll_keeps (fun t item h => h.insert item item.created item.dismissed) h hrows
  | update hrow => exact h.insert _ _ _

/-- A row that holds what is written into it already stays the same. -/
theorem insert_same {key : Key} {row : Row} (hrow : t.rows[key]? = some row) :
    ({ t with rows := t.rows.insert key row } : Table) = t := by
  have hrows : t.rows.insert key row = t.rows := by
    apply Std.ExtTreeMap.ext_getElem?
    intro other
    rw [getElem?_insert_eq]
    by_cases hkey : key = other
    · rw [if_pos hkey, ← hkey, hrow]
    · rw [if_neg hkey]
  rw [hrows]

/-- An update that spoils a row is refused for it, and so is every look at the row from then on. -/
theorem Spoils.refused (hopen : t.Open) {request : Request} (h : t.Spoils request) :
    ∃ item created at_, request = .update item ∧
      (serve request t).1 = .error (.invalidArgument (Item.precedesReason at_ created)) ∧
      (serve request t).2.get item.user item.id =
        .error (.invalidArgument (Item.precedesReason at_ created)) := by
  obtain ⟨item, created, dismissed, at_, rfl, hrow, hat, hlate, -⟩ := h
  have hrefused := Item.create_late item.id_valid item.user_valid hlate
  refine ⟨item, created, at_, rfl, ?_, ?_⟩
  · rw [serve_update hopen, update_row hrow, hat]
    exact hrefused
  · rw [serve_update hopen, update_row hrow, hat]
    have hself :
        (t.rows.insert (keyOf item) (rowAt created (some at_)))[Key.mk item.user item.id]? =
          some (rowAt created (some at_)) := Std.ExtTreeMap.getElem?_insert_self
    unfold Table.get
    simp only [hself, itemOf_rowAt, hrefused]
    rfl

/-- **A failed request changes the table if and only if it spoils a row.** -/
theorem Regular.trace_iff (h : t.Regular) (request : Request) :
    (∃ e, (Table.serve request t).1 = .error e) ∧ (Table.serve request t).2 ≠ t ↔
      t.Spoils request := by
  constructor
  · have hserved := h.served request
    generalize Table.serve request t = r at hserved ⊢
    rintro ⟨⟨e, herror⟩, hchanged⟩
    cases hserved with
    | same answer => exact absurd rfl hchanged
    | fewer answer _ => cases herror
    | more answer _ => cases herror
    | @update item created dismissed hrow =>
      cases hat : item.dismissed with
      | none =>
        have hok := Item.create_early item.id_valid item.user_valid created none (by simp)
        rw [hat] at herror
        cases hok.symm.trans herror
      | some at_ =>
        rw [hat] at herror hchanged
        refine ⟨item, created, dismissed, at_, rfl, hrow, hat, fun hle => ?_, fun hsame => ?_⟩
        · have hok := Item.create_early item.id_valid item.user_valid created (some at_)
            (by simpa using hle)
          cases hok.symm.trans herror
        · rw [← hsame] at hchanged
          exact hchanged (insert_same hrow)
  · intro hspoils
    obtain ⟨_, created, at_, -, herror, -⟩ := hspoils.refused h.isOpen
    refine ⟨⟨_, herror⟩, fun hsame => ?_⟩
    obtain ⟨item, created, dismissed, at_, rfl, hrow, hat, -, hdiffer⟩ := hspoils
    rw [serve_update h.isOpen, update_row hrow, hat] at hsame
    have hrows : t.rows.insert (keyOf item) (rowAt created (some at_)) = t.rows :=
      congrArg Table.rows hsame
    have hself : (t.rows.insert (keyOf item) (rowAt created (some at_)))[keyOf item]? =
        some (rowAt created (some at_)) := Std.ExtTreeMap.getElem?_insert_self
    rw [hrows, hrow] at hself
    exact hdiffer (rowAt_inj (Option.some.inj hself)).2

end Keeps

/-! ## Readable tables -/

section Reading

variable {t : Table}

/-- Where each row is read as an item, no look fails. -/
theorem readable_of_rows (hopen : t.Open)
    (hrows : ∀ (key : Key) row, t.rows[key]? = some row → ∃ item, itemOf key row = .ok item) :
    t.Readable := by
  have hget (user id : String) : ∃ found, t.get user id = .ok found := get_ok (hrows _)
  refine ⟨hrows, fun user id => ?_, fun user ids => ?_⟩
  · obtain ⟨found, hfound⟩ := hget user id
    refine ⟨found, ?_⟩
    show t.reading _ = _
    rw [reading_open hopen, hfound]
  · obtain ⟨found, hfound⟩ := (t.getMany_gathers user ids).ok_iff.2 fun id _ => hget user id
    exact ⟨found, by rw [serve_getMany hopen, hfound]⟩

theorem Regular.readable_iff (h : t.Regular) :
    t.Readable ↔ ∀ (key : Key) created dismissed, t.rows[key]? = some (rowAt created dismissed) →
      ∀ at_ ∈ dismissed, created ≤ at_ := by
  constructor
  · intro hreadable key created dismissed hrow
    obtain ⟨item, hitem⟩ := hreadable.rows key _ hrow
    rw [itemOf_rowAt] at hitem
    exact (Item.create_eq_ok_iff.1 ⟨item, hitem⟩).2.2
  · intro hordered
    refine readable_of_rows h.isOpen fun key row hrow => ?_
    obtain ⟨created, dismissed, rfl⟩ := h.dated key row hrow
    obtain ⟨huser, hid⟩ := h.keyed key _ hrow
    exact ⟨_, (itemOf_rowAt key created dismissed).trans
      (Item.create_early hid huser created dismissed (hordered key created dismissed hrow))⟩

/-- Writing a row that is in order leaves all rows in order. -/
theorem Readable.insert (hregular : t.Regular) (h : t.Readable) (item : Item) {created : Instant}
    {dismissed : Option Instant} (hle : ∀ at_ ∈ dismissed, created ≤ at_) :
    ({ t with rows := t.rows.insert (keyOf item) (rowAt created dismissed) } : Table).Readable := by
  rw [(hregular.insert item created dismissed).readable_iff]
  intro key created' dismissed' hrow
  rw [getElem?_insert_eq] at hrow
  by_cases hkey : keyOf item = key
  · rw [if_pos hkey] at hrow
    obtain ⟨rfl, rfl⟩ := rowAt_inj (Option.some.inj hrow)
    exact hle
  · rw [if_neg hkey] at hrow
    exact hregular.readable_iff.1 h key created' dismissed' hrow

/-- **Until a row is spoilt, each row is read as an item.** -/
theorem Readable.serve (hregular : t.Regular) (h : t.Readable) {request : Request}
    (hspares : ¬t.Spoils request) : (Table.serve request t).2.Readable := by
  have hserved := hregular.served request
  generalize Table.serve request t = r at hserved ⊢
  cases hserved with
  | same answer => exact h
  | fewer answer hrows =>
    exact readable_of_rows hregular.isOpen fun key row hrow => h.rows key row (hrows key row hrow)
  | more answer hrows =>
    have hkept := insertAll_keeps (P := fun t => t.Regular ∧ t.Readable)
      (fun t item ⟨hregular, h⟩ => ⟨hregular.insert item item.created item.dismissed,
        h.insert hregular item item.created_le⟩) ⟨hregular, h⟩ hrows
    exact hkept.2
  | @update item created dismissed hrow =>
    refine h.insert hregular item fun at_ hat => ?_
    -- a row that says the same already is read as an item, so that its instants are in order
    by_cases hsame : dismissed = some at_
    · exact hregular.readable_iff.1 h _ created dismissed hrow at_ hsame
    · apply Classical.byContradiction
      intro hlate
      exact hspares ⟨item, created, dismissed, at_, rfl, hrow, hat, hlate, hsame⟩

theorem Spoils.not_readable (hopen : t.Open) {request : Request} (h : t.Spoils request)
    (hnext : (Table.serve request t).2.Open) : ¬(Table.serve request t).2.Readable := by
  intro hreadable
  obtain ⟨item, created, at_, -, -, herror⟩ := h.refused hopen
  obtain ⟨found, hfound⟩ := hreadable.get item.user item.id
  have hserve : Table.serve (.get item.user item.id) (Table.serve request t).2 =
      ((Table.serve request t).2.get item.user item.id, (Table.serve request t).2) :=
    reading_open hnext _
  rw [hserve, herror] at hfound
  cases hfound

end Reading

/-! ## Runs -/

/-- The table that requests make of a table, one after the other. -/
def serveAll (requests : List Request) (t : Table) : Table :=
  requests.foldl (fun t request => (serve request t).2) t

section Runs

variable {t : Table} {requests : List Request}

theorem serveAll_concat (requests : List Request) (request : Request) (t : Table) :
    serveAll (requests ++ [request]) t = (serve request (serveAll requests t)).2 := by
  simp [serveAll]

theorem Regular.serveAll (h : t.Regular) (requests : List Request) :
    (Table.serveAll requests t).Regular := by
  induction requests generalizing t with
  | nil => exact h
  | cons request requests ih => exact ih (h.serve request)

theorem Readable.serveAll (hregular : t.Regular) (h : t.Readable)
    (hspares : ∀ before request after, requests = before ++ request :: after →
      ¬(Table.serveAll before t).Spoils request) : (Table.serveAll requests t).Readable := by
  induction requests generalizing t with
  | nil => exact h
  | cons request requests ih =>
    refine ih (hregular.serve request) ?_ fun before next after heq => ?_
    · exact h.serve hregular (hspares [] request requests rfl)
    · exact hspares (request :: before) next after (by rw [heq]; rfl)

/-- **What a failed request leaves.** Along all runs from the empty table: a request that fails
changes the table if and only if it is an update that spoils a row, and each row of each table on
the way is read as an item, and looked at without failure, if and only if no update on the way
spoils one. -/
theorem failed_requests_traceless_iff (requests : List Request) :
    (∀ request, (∃ e, (serve request (serveAll requests {})).1 = .error e) ∧
        (serve request (serveAll requests {})).2 ≠ serveAll requests {} ↔
      (serveAll requests {}).Spoils request) ∧
    ((∀ before after, requests = before ++ after → (serveAll before {}).Readable) ↔
      ∀ before request after, requests = before ++ request :: after →
        ¬(serveAll before {}).Spoils request) := by
  refine ⟨fun request => (empty_regular.serveAll requests).trace_iff request, ?_, ?_⟩
  · intro hreadable before request after heq hspoils
    have hregular := empty_regular.serveAll before
    have hnext := hreadable (before ++ [request]) after (by rw [heq, List.append_cons])
    rw [serveAll_concat] at hnext
    exact hspoils.not_readable hregular.isOpen (hregular.serve request).isOpen hnext
  · intro hspares before after heq
    have hempty : ({} : Table).Readable :=
      readable_of_rows empty_regular.isOpen fun _ _ hrow => by simp at hrow
    refine hempty.serveAll empty_regular fun first request rest hbefore => ?_
    refine hspares first request (rest ++ after) ?_
    rw [heq, hbefore, List.append_assoc, List.cons_append]

/-- An item that was created ten seconds into 1970. -/
def kept : Item :=
  ⟨"b", "u", ⟨10, 0, by decide, by decide, Instant.origin.nanos_lt, by decide⟩, none,
    Identity.valid_b, Identity.valid_u, by simp⟩

/-- The same item as if it had been created when 1970 began, and dismissed five seconds later. -/
def misdated : Item :=
  ⟨"b", "u", ⟨0, 0, by decide, by decide, Instant.origin.nanos_lt, by decide⟩,
    some ⟨5, 0, by decide, by decide, Instant.origin.nanos_lt, by decide⟩, Identity.valid_b,
    Identity.valid_u, by decide⟩

theorem spoils_misdated : (serveAll [.create kept] {}).Spoils (.update misdated) := by
  have hserve : (serve (.create kept) {}).2.rows = (∅ : Std.ExtTreeMap Key Row).insert
      (keyOf kept) (rowOf kept) := rfl
  have hrow : (serveAll [.create kept] {}).rows[keyOf misdated]? =
      some (rowAt kept.created kept.dismissed) := by
    show (serve (.create kept) {}).2.rows[keyOf kept]? = _
    rw [hserve, Std.ExtTreeMap.getElem?_insert_self]
    rfl
  exact ⟨misdated, kept.created, none, _, rfl, hrow, rfl, by decide, by simp⟩

/-- **Not every failed request leaves the table as it was.** A dismissal before the creation in the
row is refused, and is in the row afterwards, so that the row is an item no more. -/
theorem refused_update_spoils_row :
    ¬(∀ (requests : List Request) (request : Request) (e : Failure),
        (serve request (serveAll requests {})).1 = .error e →
          (serve request (serveAll requests {})).2 = serveAll requests {}) ∧
      ¬∀ (requests : List Request) (user id : String), ∃ found,
        (serve (.get user id) (serveAll requests {})).1 = .ok found := by
  have hopen : (serveAll [.create kept] {}).Open := (empty_regular.serveAll _).isOpen
  constructor
  · intro hall
    obtain ⟨⟨e, herror⟩, hchanged⟩ :=
      ((empty_regular.serveAll _).trace_iff _).2 spoils_misdated
    exact hchanged (hall _ _ e herror)
  · intro hall
    obtain ⟨item, created, at_, -, -, herror⟩ := spoils_misdated.refused hopen
    obtain ⟨found, hfound⟩ := hall [.create kept, .update misdated] item.user item.id
    have hserve : serve (.get item.user item.id) (serveAll [.create kept, .update misdated] {}) =
        ((serveAll [.create kept, .update misdated] {}).get item.user item.id, _) :=
      reading_open (empty_regular.serveAll _).isOpen _
    rw [hserve] at hfound
    cases hfound.symm.trans herror

end Runs

end Table

end Dismissal
