import Dismissal.Proofs.Cache.Recency
import Dismissal.Proofs.Identity.Keys
import Dismissal.Proofs.Store.Durable

/-!
# Looks and writes

What a look and a write do to the plain list, told without the cases of their definitions. A look
`hits` if there is an entry of its key that has not expired; then it brings that entry to the front,
and otherwise it leaves no entry of its key. All requests that read are looks, one after the other
(`get_eq`, `lookAll_cons`), and an update is a write of the item that it makes with what a look
finds (`update_eq`).

* `write_cases`: the entries after a write.
* `Tidy.found?_look_iff`, `Tidy.get_iff`: what is found is in an entry that has not expired.
-/

namespace Dismissal.Cache.Recency

/-- Whether a look at a key finds an item. -/
def hits (l : Recency) (key : String) (now : Instant) : Bool :=
  (entryOf? l.entries key).any fun e => !decide (e.expires ≤ now)

/-- The item that a look found. -/
def found? : Lookup → Option Item
  | .hit item => some item
  | _ => none

variable {l : Recency} {key user id : String} {now : Instant} {item x : Item}

/-! ## Looks -/

theorem hits_iff :
    l.hits key now = true ↔ ∃ e, entryOf? l.entries key = some e ∧ now < e.expires := by
  simp [hits, Option.any_eq_true, Instant.lt_iff_not_le]

/-- A look that finds an item brings its entry to the front. -/
theorem look_hit (h : l.hits key now = true) : ∃ e, entryOf? l.entries key = some e ∧
    now < e.expires ∧ found? (l.look key now).1 = some e.item ∧
    (l.look key now).2 = { l with entries := e :: without l.entries key } := by
  obtain ⟨e, hfind, halive⟩ := hits_iff.1 h
  have hlook : l.look key now =
      (.hit e.item, { l with entries := e :: without l.entries key }) := by
    unfold look lookup
    simp only [hfind, Instant.lt_iff_not_le.1 halive, ↓reduceIte]
  rw [hlook]
  exact ⟨e, hfind, halive, rfl, rfl⟩

/-- A look that finds nothing leaves no entry of the key. -/
theorem look_miss (h : l.hits key now = false) : found? (l.look key now).1 = none ∧
    (l.look key now).2 = { l with entries := without l.entries key } := by
  unfold look lookup
  cases hfind : entryOf? l.entries key with
  | none =>
    rw [without_eq_self hfind]
    exact ⟨rfl, rfl⟩
  | some e =>
    have hexpired : e.expires ≤ now := by
      apply Classical.byContradiction
      intro halive
      have hhit := hits_iff.2 ⟨e, hfind, Instant.lt_iff_not_le.2 halive⟩
      rw [h] at hhit
      cases hhit
    simp only [hexpired, ↓reduceIte, found?, and_self]

theorem isSome_found?_look (l : Recency) (key : String) (now : Instant) :
    (found? (l.look key now).1).isSome = l.hits key now := by
  cases hhit : l.hits key now with
  | true =>
    obtain ⟨e, -, -, hfound, -⟩ := look_hit hhit
    rw [hfound]
    rfl
  | false =>
    rw [(look_miss hhit).1]
    rfl

/-- A look does not change what later looks find at the same time. -/
theorem hits_look (l : Recency) (key other : String) (now : Instant) :
    (l.look key now).2.hits other now = l.hits other now := by
  cases hhit : l.hits key now with
  | true =>
    obtain ⟨e, hfind, -, -, hnext⟩ := look_hit hhit
    rw [hnext]
    simp only [hits, entryOf?_front hfind]
  | false =>
    rw [(look_miss hhit).2]
    by_cases heq : key = other
    · subst heq
      rw [hhit]
      simp [hits, entryOf?_without_self]
    · simp only [hits, entryOf?_without heq]

/-- What is found is the item of the entry of the key. -/
theorem found?_look_eq (l : Recency) (key : String) (now : Instant) :
    found? (l.look key now).1 =
      if l.hits key now then (entryOf? l.entries key).map Entry.item else none := by
  cases hhit : l.hits key now with
  | true =>
    obtain ⟨e, hfind, -, hfound, -⟩ := look_hit hhit
    rw [hfound, hfind]
    rfl
  | false => exact (look_miss hhit).1

/-- Nor does it change which item they find. -/
theorem found?_look_look (l : Recency) (key other : String) (now : Instant) :
    found? ((l.look key now).2.look other now).1 = found? (l.look other now).1 := by
  rw [found?_look_eq, found?_look_eq, hits_look]
  cases hother : l.hits other now with
  | false => rfl
  | true =>
    cases hhit : l.hits key now with
    | true =>
      obtain ⟨e, hfind, -, -, hnext⟩ := look_hit hhit
      rw [hnext]
      simp only [entryOf?_front hfind]
    | false =>
      have hne : key ≠ other := by
        rintro rfl
        rw [hother] at hhit
        cases hhit
      rw [(look_miss hhit).2]
      simp only [entryOf?_without hne]

/-- A look finds the item of the entry of its key that has not expired. -/
theorem Tidy.found?_look_iff (h : l.Tidy) : found? (l.look key now).1 = some x ↔
    ∃ e ∈ l.entries, e.key = key ∧ e.item = x ∧ now < e.expires := by
  constructor
  · intro hfound
    have hhit := isSome_found?_look l key now
    rw [hfound] at hhit
    obtain ⟨e, hfind, halive, hitem, -⟩ := look_hit hhit.symm
    obtain ⟨hmem, hkey⟩ := entryOf?_some hfind
    exact ⟨e, hmem, hkey, Option.some.inj (hitem.symm.trans hfound), halive⟩
  · rintro ⟨e, he, rfl, rfl, halive⟩
    have hfind := h.entryOf?_of_mem he
    obtain ⟨e', hfind', -, hitem, -⟩ := look_hit (hits_iff.2 ⟨e, hfind, halive⟩)
    rw [hfind] at hfind'
    cases hfind'
    exact hitem

/-! ## Requests that read -/

theorem get_eq (h : Identity.checkAll user [id] = .ok ()) :
    l.get now user id = (.ok (found? (l.look (Identity.key user id) now).1),
      (l.look (Identity.key user id) now).2) := by
  unfold get
  rw [h]
  rcases hlook : l.look (Identity.key user id) now with ⟨_ | _ | _, l'⟩ <;> rfl

theorem lookAll_cons (l : Recency) (now : Instant) (user : String) (before : Found) (id : String)
    (ids : List String) : l.lookAll now user before (id :: ids) =
      (l.look (Identity.key user id) now).2.lookAll now user
        (match found? (l.look (Identity.key user id) now).1 with
          | some item => before.insert id item
          | none => before) ids := by
  rw [lookAll]
  rcases hlook : l.look (Identity.key user id) now with ⟨_ | _ | _, l'⟩ <;> rfl

/-- Several looks find what each of them would have found at the start. -/
theorem getElem?_lookAll (l : Recency) (now : Instant) (user : String) (before : Found)
    (ids : List String) (id : String) :
    (l.lookAll now user before ids).1[id]? =
      if id ∈ ids then (found? (l.look (Identity.key user id) now).1).or before[id]?
      else before[id]? := by
  induction ids generalizing l before with
  | nil => simp [lookAll]
  | cons first ids ih =>
    rw [lookAll_cons, ih, found?_look_look]
    by_cases heq : first = id
    · subst heq
      cases found? (l.look (Identity.key user first) now).1 <;> simp
    · cases found? (l.look (Identity.key user first) now).1 <;>
        simp [getElem?_insert_eq, heq, Ne.symm heq]

/-- Those of several items were found that a look would have found at the start. -/
theorem contains_lookAll (user : String) (before : Found) (ids : List String) (id : String) :
    (l.lookAll now user before ids).1.contains id =
      (before.contains id || (ids.contains id && l.hits (Identity.key user id) now)) := by
  rw [Std.ExtTreeMap.contains_eq_isSome_getElem?, Std.ExtTreeMap.contains_eq_isSome_getElem?,
    getElem?_lookAll, ← isSome_found?_look]
  by_cases hmem : id ∈ ids
  · simp [hmem, Bool.or_comm]
  · simp [hmem]

/-- What is found under the names of an item bears these names. -/
theorem Tidy.names_of_found (h : l.Tidy)
    (hfound : found? (l.look (Identity.key user id) now).1 = some x) :
    x.user = user ∧ x.id = id := by
  obtain ⟨e, he, hkey, rfl, -⟩ := h.found?_look_iff.1 hfound
  have hkeys : Identity.key e.item.user e.item.id = Identity.key user id :=
    (h.keyed e he).symm.trans hkey
  exact (Identity.key_eq_key_iff e.item.user_valid e.item.id_valid).1 hkeys

/-- An item is found exactly if it is that of an entry that has not expired. -/
theorem Tidy.get_iff (h : l.Tidy) : (l.get now user id).1 = .ok (some x) ↔
    (x.user = user ∧ x.id = id) ∧ ∃ e ∈ l.entries, e.item = x ∧ now < e.expires := by
  constructor
  · intro hget
    cases hcheck : Identity.checkAll user [id] with
    | error refusal =>
      unfold Recency.get at hget
      rw [hcheck] at hget
      cases hget
    | ok _ =>
      rw [get_eq hcheck] at hget
      have hfound := Except.ok.inj hget
      obtain ⟨e, he, -, hitem, halive⟩ := h.found?_look_iff.1 hfound
      exact ⟨h.names_of_found hfound, e, he, hitem, halive⟩
  · rintro ⟨⟨rfl, rfl⟩, e, he, rfl, halive⟩
    rw [get_eq (Identity.checkAll_one e.item.user_valid e.item.id_valid)]
    exact congrArg Except.ok (h.found?_look_iff.2 ⟨e, he, h.keyed e he, rfl, halive⟩)

/-! ## Writes -/

/-- A write leaves its entry in front of the others. Only where a new key finds no room, the last
one of them is dropped. -/
theorem write_cases (l : Recency) (now : Instant) (item : Item) :
    ((entryOf? l.entries item.key = none → l.entries.length < l.capacity) ∧
      (l.write now item).entries =
        ⟨item.key, item, now.advance l.lifetime⟩ :: without l.entries item.key) ∨
    entryOf? l.entries item.key = none ∧ l.capacity ≤ l.entries.length ∧
      (l.write now item).entries =
        ⟨item.key, item, now.advance l.lifetime⟩ :: l.entries.dropLast := by
  unfold write insert
  cases hfind : entryOf? l.entries item.key with
  | some old => exact .inl ⟨nofun, rfl⟩
  | none =>
    by_cases hfull : l.capacity ≤ l.entries.length
    · exact .inr ⟨rfl, hfull, by simp only [hfull, ↓reduceIte]⟩
    · refine .inl ⟨fun _ => Nat.lt_of_not_le hfull, ?_⟩
      simp only [hfull, ↓reduceIte, without_eq_self hfind]

/-- What a look at a key did to the list does not show once the key is written. -/
theorem Tidy.write_look (h : l.Tidy) (now : Instant) (hkey : item.key = key) :
    (l.look key now).2.write now item = l.write now item := by
  subst hkey
  cases hhit : l.hits item.key now with
  | true =>
    obtain ⟨e, hfind, -, -, hnext⟩ := look_hit hhit
    obtain ⟨-, hkey⟩ := entryOf?_some hfind
    have hfront : without (e :: without l.entries item.key) item.key =
        without l.entries item.key := by
      unfold without
      rw [List.filter_cons_of_neg (by simp [hkey]), List.filter_filter]
      simp only [Bool.and_self]
    rw [hnext]
    unfold Recency.write insert
    simp only [entryOf?_front hfind, hfind, hfront]
  | false =>
    rw [(look_miss hhit).2]
    cases hfind : entryOf? l.entries item.key with
    | none => rw [without_eq_self hfind]
    | some e =>
      have hroom : ¬l.capacity ≤ (without l.entries item.key).length :=
        Nat.not_le.2 (Nat.lt_of_lt_of_le (length_without_lt hfind) h.room)
      unfold Recency.write insert
      simp only [hfind, entryOf?_without_self, hroom, ↓reduceIte]

/-- An item that was found is updated under its own key. -/
theorem Tidy.key_of_merged (h : l.Tidy) {stored merged : Item} {dismissed : Option Instant}
    (hfound : found? (l.look key now).1 = some stored)
    (hmerged : Item.create stored.id stored.user stored.created dismissed = .ok merged) :
    merged.key = key := by
  obtain ⟨e, he, rfl, rfl, -⟩ := h.found?_look_iff.1 hfound
  rw [h.keyed e he, Item.create_key hmerged]
  rfl

/-- An update writes the item that is made with what a look finds, or the item as it is if it finds
nothing. -/
theorem Tidy.update_eq (h : l.Tidy) (now : Instant) (item : Item) :
    l.update now item = match found? (l.look item.key now).1 with
      | none => (.ok item, l.write now item)
      | some stored => match Item.create stored.id stored.user stored.created item.dismissed with
        | .error e => (.error e, (l.look item.key now).2)
        | .ok merged => (.ok merged, l.write now merged) := by
  have hnone : (l.look item.key now).2.write now item = l.write now item := h.write_look now rfl
  have hsome {stored merged : Item} (hfound : found? (l.look item.key now).1 = some stored)
      (hmerged : Item.create stored.id stored.user stored.created item.dismissed = .ok merged) :=
    h.write_look now (h.key_of_merged hfound hmerged)
  unfold Recency.update
  rcases hlook : l.look item.key now with ⟨stored | _ | _, l'⟩ <;> rw [hlook] at hnone hsome
  case hit =>
    simp only [found?]
    cases hmerged : Item.create stored.id stored.user stored.created item.dismissed with
    | error refusal => rfl
    | ok merged => exact congrArg (Prod.mk _) (hsome rfl hmerged)
  all_goals exact congrArg (Prod.mk _) hnone

end Dismissal.Cache.Recency
