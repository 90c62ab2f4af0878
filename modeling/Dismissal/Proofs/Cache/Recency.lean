import Dismissal.Cache.Basic
import Dismissal.Proofs.Store.Durable
import Mathlib.Data.List.Nodup

/-!
# The cache as a plain list

What the cache is meant to do, told without slots and links: a `Recency` is a list of entries, the
most recently used first. A look or a write moves an entry to the front, and where a new entry finds
no room, the last one goes.

Its requests are those of a store, and the purge (`Op`). `run` gives operations to anything that can
take them one by one, each with a reading of the clock, so that the list and the arena can be
compared run by run.

* `Tidy.step`: keys stay distinct, entries stay under the keys of their items, and there are never
  more of them than there is room for.
* `update_refused`: an update that is refused changes nothing but the order.
-/

namespace Dismissal.Cache

/-- What the cache keeps of an item: the key, the item, and when it expires. -/
structure Entry where
  key : String
  item : Item
  expires : Instant
  deriving DecidableEq

/-- What can be done to a cache. -/
inductive Op where
  | ask (request : Request)
  | purge
  deriving DecidableEq

/-- What comes of an operation: an answer, or the number of entries purged. -/
abbrev Op.Reply : Op → Type
  | ask request => Result request.Answer
  | purge => Nat

/-- The replies to operations, one after the other, and the state they end in. Each comes with what
the clock says at the time. -/
def run {σ : Type} (step : Instant → (op : Op) → σ → op.Reply × σ) :
    List (Instant × Op) → σ → List ((op : Op) × op.Reply) × σ
  | [], s => ([], s)
  | (now, op) :: ops, s =>
    let (reply, s) := step now op s
    let (replies, s) := run step ops s
    (⟨op, reply⟩ :: replies, s)

/-- Does one operation to a cache. -/
def step (now : Instant) : (op : Op) → Cache → op.Reply × Cache
  | .ask request, c => serve now request c
  | .purge, c => c.purge now

/-- A bounded list of entries that expire, the most recently used first. -/
structure Recency where
  capacity : Nat
  lifetime : Span
  entries : List Entry := []

namespace Recency

/-! ## Entries -/

/-- The entry of a key. -/
def entryOf? (es : List Entry) (key : String) : Option Entry := es.find? (·.key = key)

/-- The entries of all other keys. -/
def without (es : List Entry) (key : String) : List Entry := es.filter (·.key ≠ key)

/-- Looks at a key. An absent key changes nothing, an expired entry is removed and not found, and
any other entry comes to the front as it is. -/
def lookup (es : List Entry) (key : String) (now : Instant) : Lookup × List Entry :=
  match entryOf? es key with
  | none => (.miss, es)
  | some e =>
    if e.expires ≤ now then (.expired, without es key)
    else (.hit e.item, e :: without es key)

/-- Writes an entry. It takes the place of the one with its key and comes to the front. Only an
entry with a new key needs room, which the last entry makes if there are `capacity` of them. -/
def insert (es : List Entry) (e : Entry) (capacity : Nat) : List Entry :=
  match entryOf? es e.key with
  | some _ => e :: without es e.key
  | none => if capacity ≤ es.length then e :: es.dropLast else e :: es

/-- Removes all expired entries, and tells how many there were. -/
def sweep (es : List Entry) (now : Instant) : Nat × List Entry :=
  ((es.filter (·.expires ≤ now)).length, es.filter (¬ ·.expires ≤ now))

/-! ## Requests -/

/-- An empty list. It has room for one entry at least. -/
def ofLimits (capacity : Nat) (lifetime : Span) : Recency := ⟨max capacity 1, lifetime, []⟩

/-- Looks at a key. -/
def look (l : Recency) (key : String) (now : Instant) : Lookup × Recency :=
  let (found, entries) := lookup l.entries key now
  (found, { l with entries })

/-- Writes an item under its key, to expire when its lifetime is over. -/
def write (l : Recency) (now : Instant) (item : Item) : Recency :=
  { l with entries := insert l.entries ⟨item.key, item, now.advance l.lifetime⟩ l.capacity }

/-- The item of a user, if it is there and has not expired. -/
def get (l : Recency) (now : Instant) (user id : String) : Result (Option Item) × Recency :=
  match Identity.checkAll user [id] with
  | .error e => (.error e, l)
  | .ok () => match l.look (Identity.key user id) now with
    | (.hit item, l) => (.ok (some item), l)
    | (_, l) => (.ok none, l)

/-- Looks at several items of a user one after the other. -/
def lookAll (l : Recency) (now : Instant) (user : String) (found : Found) :
    List String → Found × Recency
  | [] => (found, l)
  | id :: ids => match l.look (Identity.key user id) now with
    | (.hit item, l) => l.lookAll now user (found.insert id item) ids
    | (_, l) => l.lookAll now user found ids

/-- Those of several items of a user that are there. -/
def getMany (l : Recency) (now : Instant) (user : String) (ids : List String) :
    Result Found × Recency :=
  match Identity.checkAll user ids with
  | .error e => (.error e, l)
  | .ok () =>
    let (found, l) := l.lookAll now user ∅ ids
    (.ok found, l)

/-- Writes the given dismissal with the creation of the version that is there, or the item as it is
if there is none. -/
def update (l : Recency) (now : Instant) (item : Item) : Result Item × Recency :=
  match l.look item.key now with
  | (.hit stored, l) =>
    match Item.create stored.id stored.user stored.created item.dismissed with
    | .error e => (.error e, l)
    | .ok merged => (.ok merged, l.write now merged)
  | (_, l) => (.ok item, l.write now item)

/-- Removes an item, if it is there. -/
def delete (l : Recency) (user id : String) : Result Unit × Recency :=
  match Identity.checkAll user [id] with
  | .error e => (.error e, l)
  | .ok () => (.ok (), { l with entries := without l.entries (Identity.key user id) })

/-- Answers a request. -/
def serve (now : Instant) : (request : Request) → Recency → Result request.Answer × Recency
  | .get user id, l => l.get now user id
  | .getMany user ids, l => l.getMany now user ids
  | .create item, l => (.ok item, l.write now item)
  | .createMany items, l => (.ok items, items.foldl (write · now) l)
  | .update item, l => l.update now item
  | .delete user id, l => l.delete user id
  | .deleteAll, l => (.ok (), { l with entries := [] })

/-- Does one operation. -/
def step (now : Instant) : (op : Op) → Recency → op.Reply × Recency
  | .ask request, l => serve now request l
  | .purge, l =>
    let (count, entries) := sweep l.entries now
    (count, { l with entries })

/-! ## Lists and their keys -/

section Keys

variable {es : List Entry} {e : Entry} {key other : String} {now : Instant}

theorem entryOf?_some (h : entryOf? es key = some e) : e ∈ es ∧ e.key = key :=
  ⟨List.mem_of_find?_eq_some h, by simpa using List.find?_some h⟩

theorem entryOf?_eq_none_iff : entryOf? es key = none ↔ ∀ e ∈ es, e.key ≠ key := by
  unfold entryOf?
  simp only [List.find?_eq_none, decide_eq_true_eq, ne_eq]

theorem mem_without : e ∈ without es key ↔ e ∈ es ∧ e.key ≠ key := by
  unfold without
  rw [List.mem_filter, decide_eq_true_eq]

/-- Without a key that is not there the list is what it was. -/
theorem without_eq_self (h : entryOf? es key = none) : without es key = es :=
  List.filter_eq_self.2 fun e he => decide_eq_true (entryOf?_eq_none_iff.1 h e he)

/-- Where all other keys are different, an entry is the entry of its key. -/
theorem entryOf?_middle {before behind : List Entry}
    (h : ∀ x ∈ before ++ behind, x.key ≠ e.key) :
    entryOf? (before ++ e :: behind) e.key = some e := by
  have hbefore : entryOf? before e.key = none :=
    entryOf?_eq_none_iff.2 fun x hx => h x (List.mem_append_left _ hx)
  unfold entryOf? at hbefore ⊢
  rw [List.find?_append, hbefore, Option.none_or]
  exact List.find?_cons_of_pos (decide_eq_true rfl)

theorem without_middle {before behind : List Entry}
    (h : ∀ x ∈ before ++ behind, x.key ≠ e.key) :
    without (before ++ e :: behind) e.key = before ++ behind := by
  have hothers : without (before ++ behind) e.key = before ++ behind :=
    List.filter_eq_self.2 fun x hx => decide_eq_true (h x hx)
  unfold without at hothers ⊢
  rw [List.filter_append] at hothers ⊢
  rw [List.filter_cons_of_neg (by simp), hothers]

theorem length_without_lt (h : entryOf? es key = some e) : (without es key).length < es.length :=
  List.length_filter_lt_length_iff_exists.2 ⟨e, (entryOf?_some h).1, by simp [(entryOf?_some h).2]⟩

theorem entryOf?_without (h : key ≠ other) :
    entryOf? (without es key) other = entryOf? es other := by
  unfold entryOf? without
  rw [List.find?_filter]
  congr 1
  funext e
  by_cases heq : e.key = other
  · simp [heq, h.symm]
  · simp [heq]

theorem entryOf?_without_self (es : List Entry) (key : String) :
    entryOf? (without es key) key = none :=
  entryOf?_eq_none_iff.2 fun _ he => (mem_without.1 he).2

/-- In front of the others, an entry is the entry of its key, and the others stay those of
theirs. -/
theorem entryOf?_cons_without (e : Entry) (es : List Entry) (other : String) :
    entryOf? (e :: without es e.key) other =
      if e.key = other then some e else entryOf? es other := by
  by_cases heq : e.key = other
  · rw [if_pos heq]
    exact List.find?_cons_of_pos (decide_eq_true heq)
  · have hothers : entryOf? (without es e.key) other = entryOf? es other := entryOf?_without heq
    rw [if_neg heq, ← hothers]
    unfold entryOf?
    rw [List.find?_cons_of_neg]
    simpa using heq

/-- An entry that comes to the front changes the entry of no key. -/
theorem entryOf?_front (h : entryOf? es key = some e) (other : String) :
    entryOf? (e :: without es key) other = entryOf? es other := by
  obtain ⟨-, rfl⟩ := entryOf?_some h
  rw [entryOf?_cons_without]
  split
  · rename_i heq
    rw [← heq, h]
  · rfl

end Keys

/-! ## Tidy lists -/

/-- No key is there twice, each entry has the key of its item, and there is room for all. -/
structure Tidy (l : Recency) : Prop where
  distinct : (l.entries.map Entry.key).Nodup
  keyed : ∀ e ∈ l.entries, e.key = e.item.key
  room : l.entries.length ≤ l.capacity
  pos : 0 < l.capacity

namespace Tidy

variable {l : Recency} {es : List Entry} {e : Entry} {key : String} {now : Instant}

/-- Each entry is the entry of its key. -/
theorem entryOf?_of_mem (h : l.Tidy) (he : e ∈ l.entries) : entryOf? l.entries e.key = some e := by
  have hdistinct := h.distinct
  obtain ⟨before, behind, hentries⟩ := List.append_of_mem he
  rw [hentries] at hdistinct ⊢
  refine entryOf?_middle fun x hx heq => ?_
  rw [List.map_append, List.map_cons, List.nodup_middle, ← List.map_append] at hdistinct
  exact (List.nodup_cons.1 hdistinct).1 (List.mem_map.2 ⟨x, hx, heq⟩)

/-- Entries can be left out. -/
theorem sublist (h : l.Tidy) (hes : es.Sublist l.entries) :
    ({ l with entries := es } : Recency).Tidy :=
  ⟨h.distinct.sublist (hes.map _), fun e he => h.keyed e (hes.subset he),
    Nat.le_trans hes.length_le h.room, h.pos⟩

/-- An entry can be put in front of others that have other keys, if there is room. -/
theorem cons (h : l.Tidy) (hes : es.Sublist l.entries) (hnew : ∀ x ∈ es, x.key ≠ e.key)
    (hkeyed : e.key = e.item.key) (hroom : es.length < l.capacity) :
    ({ l with entries := e :: es } : Recency).Tidy := by
  have hrest := h.sublist hes
  refine ⟨?_, ?_, hroom, h.pos⟩
  · refine List.nodup_cons.2 ⟨fun hmem => ?_, hrest.distinct⟩
    obtain ⟨x, hx, heq⟩ := List.mem_map.1 hmem
    exact hnew x hx heq
  · intro x hx
    rcases List.mem_cons.1 hx with rfl | hx
    · exact hkeyed
    · exact hrest.keyed x hx

/-- An entry can take the place of the one with its key and come to the front. -/
theorem front (h : l.Tidy) (hthere : (entryOf? l.entries e.key).isSome)
    (hkeyed : e.key = e.item.key) :
    ({ l with entries := e :: without l.entries e.key } : Recency).Tidy := by
  obtain ⟨old, hold⟩ := Option.isSome_iff_exists.1 hthere
  exact h.cons List.filter_sublist (fun x hx => (mem_without.1 hx).2) hkeyed
    (Nat.lt_of_lt_of_le (length_without_lt hold) h.room)

theorem look (h : l.Tidy) : (l.look key now).2.Tidy := by
  unfold Recency.look lookup
  cases hfind : entryOf? l.entries key with
  | none => exact h
  | some e =>
    obtain ⟨hmem, rfl⟩ := entryOf?_some hfind
    by_cases hexpired : e.expires ≤ now
    · simp only [hexpired, ↓reduceIte]
      exact h.sublist List.filter_sublist
    · simp only [hexpired, ↓reduceIte]
      exact h.front (by rw [hfind]; rfl) (h.keyed e hmem)

theorem write (h : l.Tidy) (now : Instant) (item : Item) : (l.write now item).Tidy := by
  unfold Recency.write insert
  cases hfind : entryOf? l.entries item.key with
  | some old => exact h.front (by rw [hfind]; rfl) rfl
  | none =>
    have hnew := entryOf?_eq_none_iff.1 hfind
    by_cases hfull : l.capacity ≤ l.entries.length
    · simp only [hfull, ↓reduceIte]
      refine h.cons (List.dropLast_sublist _)
        (fun x hx => hnew x (List.dropLast_subset _ hx)) rfl ?_
      have hroom := h.room
      have hpos := h.pos
      rw [List.length_dropLast]
      omega
    · simp only [hfull, ↓reduceIte]
      exact h.cons (List.Sublist.refl _) hnew rfl (Nat.lt_of_not_le hfull)

theorem get (h : l.Tidy) {user id : String} : (l.get now user id).2.Tidy := by
  unfold Recency.get
  cases Identity.checkAll user [id] with
  | error e => exact h
  | ok _ =>
    have hlook : (l.look (Identity.key user id) now).2.Tidy := h.look
    rcases hfound : l.look (Identity.key user id) now with ⟨_ | _ | _, l'⟩ <;>
      simpa only [hfound] using hlook

theorem lookAll (h : l.Tidy) {user : String} {found : Found} {ids : List String} :
    (l.lookAll now user found ids).2.Tidy := by
  induction ids generalizing l found with
  | nil => exact h
  | cons id ids ih =>
    have hlook : (l.look (Identity.key user id) now).2.Tidy := h.look
    unfold Recency.lookAll
    rcases hfound : l.look (Identity.key user id) now with ⟨_ | _ | _, l'⟩ <;>
      exact ih (by simpa only [hfound] using hlook)

theorem getMany (h : l.Tidy) {user : String} {ids : List String} :
    (l.getMany now user ids).2.Tidy := by
  unfold Recency.getMany
  cases Identity.checkAll user ids with
  | error e => exact h
  | ok _ => exact h.lookAll

theorem delete (h : l.Tidy) {user id : String} : (l.delete user id).2.Tidy := by
  unfold Recency.delete
  cases Identity.checkAll user [id] with
  | error e => exact h
  | ok _ => exact h.sublist List.filter_sublist

theorem update (h : l.Tidy) {item : Item} : (l.update now item).2.Tidy := by
  have hlook : (l.look item.key now).2.Tidy := h.look
  unfold Recency.update
  rcases hfound : l.look item.key now with ⟨_ | _ | _, l'⟩ <;> rw [hfound] at hlook
  case hit stored =>
    cases hmerged : Item.create stored.id stored.user stored.created item.dismissed with
    | error e => simpa only [hmerged] using hlook
    | ok merged => simpa only [hmerged] using hlook.write now merged
  all_goals exact hlook.write now item

theorem serve (h : l.Tidy) (request : Request) : (Recency.serve now request l).2.Tidy := by
  cases request with
  | get user id => exact h.get
  | getMany user ids => exact h.getMany
  | create item => exact h.write now item
  | createMany items =>
    change (items.foldl (Recency.write · now) l).Tidy
    induction items generalizing l with
    | nil => exact h
    | cons item items ih => exact ih (h.write now item)
  | update item => exact h.update
  | delete user id => exact h.delete
  | deleteAll => exact h.sublist (List.nil_sublist _)

/-- **The list stays tidy**, whatever is done to it. -/
theorem step (h : l.Tidy) (op : Op) : (Recency.step now op l).2.Tidy := by
  cases op with
  | ask request => exact h.serve request
  | purge => exact h.sublist List.filter_sublist

theorem run (h : l.Tidy) (ops : List (Instant × Op)) : (run Recency.step ops l).2.Tidy := by
  induction ops generalizing l with
  | nil => exact h
  | cons timed ops ih => exact ih (h.step timed.2)

theorem ofLimits (capacity : Nat) (lifetime : Span) : (Recency.ofLimits capacity lifetime).Tidy :=
  ⟨List.nodup_nil, by simp [Recency.ofLimits], Nat.zero_le _, Nat.le_max_right _ _⟩

end Tidy

/-! ## Refused updates -/

section Update

variable {l : Recency} {now : Instant} {item : Item} {e : Failure}

/-- An update is refused as an invalid argument, and then every key has the entry that it had. -/
theorem update_refused (h : (l.update now item).1 = .error e) :
    (∃ reason, e = .invalidArgument reason) ∧
      ∀ key, entryOf? (l.update now item).2.entries key = entryOf? l.entries key := by
  unfold update look lookup at h ⊢
  cases hfind : entryOf? l.entries item.key with
  | none =>
    simp only [hfind] at h
    cases h
  | some stored =>
    by_cases hexpired : stored.expires ≤ now
    · simp only [hfind, hexpired, ↓reduceIte] at h
      cases h
    · simp only [hfind, hexpired, ↓reduceIte] at h ⊢
      cases hmerged : Item.create stored.item.id stored.item.user stored.item.created
          item.dismissed with
      | ok merged =>
        simp only [hmerged] at h
        cases h
      | error refusal =>
        simp only [hmerged] at h ⊢
        cases h
        exact ⟨Item.create_refused hmerged, entryOf?_front hfind⟩

end Update

end Recency

end Dismissal.Cache
