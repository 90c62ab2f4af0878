import Dismissal.Proofs.Cache.Laid
import Mathlib.Data.List.Perm.Basic

/-!
# The cache is the plain list

Whatever is done to a cache, it answers as the plain list does, and a walk along its chain finds the
entries of the list in their order.

* `Arena.Shows`: the arena holds the entries of a list, in whatever slots. One law for each
  operation says what becomes of the list.
* `Mirrors.step`: an operation gives the same reply on the cache and on the list, and leaves them
  alike.
* `recency_refines`: so does every run of operations.

A purge removes expired entries in the order of the index. `Arena.Shows.removeAll` is about any
other order as well.
-/

namespace Dismissal.Cache

open Recency (without)

namespace Arena

/-- The entries along the chain from a slot on, at most `bound` of them. -/
def entriesFrom (a : Arena) : Nat → Option Nat → List Entry
  | 0, _ => []
  | _ + 1, none => []
  | bound + 1, some slot => match a.slots[slot]? with
    | none => []
    | some s => s.entry :: a.entriesFrom bound s.older

/-- All entries, the most recently used first. -/
def entriesByRecency (a : Arena) : List Entry := a.entriesFrom a.slots.size a.head

/-- The entry that the index leads to. -/
def entryOf? (a : Arena) (key : String) : Option Entry := a.index[key]?.bind a.entryAt

/-- The arena holds these entries, the most recently used first. -/
def Shows (a : Arena) (es : List Entry) : Prop := ∃ held, Laid a held ∧ held.map Prod.snd = es

section Walk

variable {a : Arena} {held : List (Nat × Entry)}

theorem keysFrom_eq (a : Arena) (bound : Nat) (slot : Option Nat) :
    a.keysFrom bound slot = (a.entriesFrom bound slot).map Entry.key := by
  induction bound generalizing slot with
  | zero => rfl
  | succ bound ih =>
    cases slot with
    | none => rfl
    | some slot =>
      unfold keysFrom entriesFrom
      cases a.slots[slot]? with
      | none => rfl
      | some s => exact congrArg (s.key :: ·) (ih s.older)

/-- A walk along a chain of slots finds what is in them. -/
theorem entriesFrom_chained {newer : Option Nat} {bound : Nat}
    (hchained : Chained a.slots newer (held.map Prod.fst) none)
    (hentry : ∀ x ∈ held, a.entryAt x.1 = some x.2) (hbound : held.length ≤ bound) :
    a.entriesFrom bound (held.map Prod.fst).head? = held.map Prod.snd := by
  induction held generalizing newer bound with
  | nil => cases bound <;> rfl
  | cons x held ih =>
    cases bound with
    | zero => cases hbound
    | succ bound =>
      obtain ⟨hlinks, hrest⟩ := hchained
      obtain ⟨s, hs, hse⟩ := Option.map_eq_some_iff.1 (hentry x List.mem_cons_self)
      have holder : s.older = (held.map Prod.fst).head? := by
        rw [hs] at hlinks
        exact (congrArg Prod.snd (Option.some.inj hlinks)).trans (Option.or_none)
      have htail := ih hrest (fun y hy => hentry y (List.mem_cons_of_mem x hy))
        (Nat.le_of_succ_le_succ hbound)
      rw [List.map_cons, List.head?_cons, List.map_cons, ← htail, ← hse, entriesFrom, hs, ← holder]

end Walk

namespace Shows

variable {a : Arena} {es : List Entry} {e : Entry} {key : String} {now : Instant}

theorem empty : Shows {} [] := ⟨[], .empty, rfl⟩

theorem distinct (h : Shows a es) : (es.map Entry.key).Nodup := by
  obtain ⟨held, hlaid, rfl⟩ := h
  exact hlaid.distinct

theorem size (h : Shows a es) : a.size = es.length := by
  obtain ⟨held, hlaid, rfl⟩ := h
  rw [List.length_map]
  exact hlaid.size

/-- The chain leads through all entries, from its head to its end. -/
theorem entriesByRecency (h : Shows a es) : a.entriesByRecency = es := by
  obtain ⟨held, hlaid, rfl⟩ := h
  have hbound : held.length ≤ a.slots.size := by
    have hlength := hlaid.length_add
    omega
  unfold Arena.entriesByRecency
  rw [hlaid.chain.head]
  exact entriesFrom_chained hlaid.chain.links hlaid.entry hbound

theorem keysByRecency (h : Shows a es) : a.keysByRecency = es.map Entry.key := by
  unfold Arena.keysByRecency
  rw [keysFrom_eq]
  exact congrArg (List.map Entry.key) h.entriesByRecency

theorem entryOf? (h : Shows a es) (key : String) : a.entryOf? key = Recency.entryOf? es key := by
  obtain ⟨held, hlaid, rfl⟩ := h
  unfold Arena.entryOf?
  rcases hlaid.locate key with ⟨hindex, hnone⟩ | ⟨_, p, e, _, rfl, -, hindex, hsome, -⟩
  · rw [hindex, hnone]
    rfl
  · rw [hindex, hsome]
    exact hlaid.entry _ (List.mem_append_right _ List.mem_cons_self)

theorem remove (h : Shows a es) (key : String) : Shows (a.remove key).2 (without es key) := by
  obtain ⟨held, hlaid, rfl⟩ := h
  rcases hlaid.locate key with ⟨hindex, hnone⟩ | ⟨_, p, e, _, rfl, rfl, -, -, hwithout⟩
  · rw [Recency.without_eq_self hnone]
    unfold Arena.remove
    rw [hindex]
    exact ⟨held, hlaid, rfl⟩
  · rw [hwithout]
    exact ⟨_, hlaid.remove, rfl⟩

/-- A look finds the same on the arena and on the list, and does the same to both. -/
theorem lookup (h : Shows a es) (key : String) (now : Instant) :
    (a.lookup key now).1 = (Recency.lookup es key now).1 ∧
      Shows (a.lookup key now).2 (Recency.lookup es key now).2 := by
  obtain ⟨held, hlaid, rfl⟩ := id h
  rcases hlaid.locate key with ⟨hindex, hnone⟩ | ⟨_, p, e, _, rfl, rfl, hindex, hsome, hwithout⟩
  · unfold Arena.lookup Recency.lookup
    rw [hindex, hnone]
    exact ⟨rfl, h⟩
  · obtain ⟨s, hs, rfl⟩ := hlaid.slot (List.mem_append_right _ List.mem_cons_self)
    unfold Arena.lookup Recency.lookup
    have hexpires : s.entry.expires = s.expires := rfl
    simp only at hs
    simp only [hindex, hs, hsome, hexpires]
    by_cases hexpired : s.expires ≤ now
    · rw [if_pos hexpired, if_pos hexpired]
      exact ⟨rfl, h.remove _⟩
    · rw [if_neg hexpired, if_neg hexpired, hwithout]
      exact ⟨rfl, _, hlaid.promote, rfl⟩

theorem insert (h : Shows a es) (e : Entry) (capacity : Nat) :
    Shows (a.insert e.key e.item e.expires capacity) (Recency.insert es e capacity) := by
  obtain ⟨held, hlaid, rfl⟩ := h
  unfold Recency.insert
  rcases hlaid.locate e.key with ⟨hindex, hnone⟩ | ⟨_, p, old, _, rfl, hkey, -, hsome, hwithout⟩
  · rw [hnone, List.length_map]
    obtain ⟨p, hnew⟩ := hlaid.insert_new hindex capacity
    refine ⟨_, hnew, ?_⟩
    by_cases hfull : capacity ≤ held.length
    · simp only [hfull, ↓reduceIte, List.map_cons, List.map_dropLast]
    · simp only [hfull, ↓reduceIte, List.map_cons]
  · have hresident := hlaid.insert_resident e.item e.expires capacity
    rw [hkey] at hresident
    rw [hsome, hwithout]
    exact ⟨_, hresident, rfl⟩

/-! ### Purges -/

/-- The entries of several keys are removed, in whatever order. -/
theorem removeAll (h : Shows a es) (keys : List String) :
    Shows (a.removeAll keys) (es.filter (·.key ∉ keys)) := by
  induction keys generalizing a es with
  | nil =>
    rw [List.filter_eq_self.2 (by simp)]
    exact h
  | cons key keys ih =>
    have hrest := ih (h.remove key)
    unfold without at hrest
    rw [List.filter_filter] at hrest
    refine (congrArg (Shows _) (List.filter_congr fun e _ => ?_)).mp hrest
    simp only [List.mem_cons, not_or, ne_eq, Bool.decide_and, Bool.and_comm]

theorem mem_expiredKeys (h : Shows a es) :
    key ∈ a.expiredKeys now ↔ ∃ e ∈ es, e.key = key ∧ e.expires ≤ now := by
  obtain ⟨held, hlaid, rfl⟩ := h
  unfold expiredKeys
  simp only [List.mem_map, List.mem_filter, Prod.exists, exists_and_right, exists_eq_right,
    Std.ExtTreeMap.mem_toList_iff_getElem?_eq_some]
  constructor
  · rintro ⟨p, hindex, hexpired⟩
    obtain ⟨e, hmem, rfl⟩ := (hlaid.index key p).1 hindex
    obtain ⟨s, hs, rfl⟩ := hlaid.slot hmem
    rw [hs] at hexpired
    exact ⟨s.entry, ⟨p, hmem⟩, rfl, of_decide_eq_true hexpired⟩
  · rintro ⟨e, ⟨p, hmem⟩, rfl, hexpired⟩
    obtain ⟨s, hs, rfl⟩ := hlaid.slot hmem
    refine ⟨p, (hlaid.index _ _).2 ⟨_, hmem, rfl⟩, ?_⟩
    rw [hs]
    exact decide_eq_true hexpired

theorem nodup_expiredKeys (a : Arena) (now : Instant) : (a.expiredKeys now).Nodup := by
  have hkeys : (a.index.toList.map Prod.fst).Nodup := by
    rw [Std.ExtTreeMap.map_fst_toList_eq_keys]
    exact Std.ExtTreeMap.nodup_keys
  exact hkeys.sublist (List.filter_sublist.map _)

/-- As many keys have expired as entries. -/
theorem length_expiredKeys (h : Shows a es) :
    (a.expiredKeys now).length = (es.filter (·.expires ≤ now)).length := by
  have hnodup : ((es.filter (·.expires ≤ now)).map Entry.key).Nodup :=
    h.distinct.sublist (List.filter_sublist.map _)
  -- Neither list of keys holds one twice, so it is enough that they hold the same keys.
  have hperm : (a.expiredKeys now).Perm ((es.filter (·.expires ≤ now)).map Entry.key) := by
    refine (List.perm_ext_iff_of_nodup (nodup_expiredKeys a now) hnodup).2 fun key => ?_
    rw [h.mem_expiredKeys]
    simp only [List.mem_map, List.mem_filter, decide_eq_true_eq]
    constructor
    · rintro ⟨e, he, hkey, hexpired⟩
      exact ⟨e, ⟨he, hexpired⟩, hkey⟩
    · rintro ⟨e, ⟨he, hexpired⟩, hkey⟩
      exact ⟨e, he, hkey, hexpired⟩
  rw [hperm.length_eq, List.length_map]

theorem purge (h : Shows a es) (now : Instant) :
    (a.purge now).1 = (Recency.sweep es now).1 ∧
      Shows (a.purge now).2 (Recency.sweep es now).2 := by
  refine ⟨h.length_expiredKeys, ?_⟩
  have hkept : es.filter (·.key ∉ a.expiredKeys now) = es.filter (¬ ·.expires ≤ now) := by
    refine List.filter_congr fun e he => ?_
    rw [decide_eq_decide, not_iff_not, h.mem_expiredKeys]
    constructor
    · rintro ⟨x, hx, hkey, hexpired⟩
      rwa [List.inj_on_of_nodup_map h.distinct hx he hkey] at hexpired
    · exact fun hexpired => ⟨e, he, rfl, hexpired⟩
  unfold Recency.sweep
  rw [← hkept]
  exact h.removeAll _

end Shows

end Arena

/-! ## Requests -/

/-- The cache is the list, in slots. -/
structure Mirrors (c : Cache) (l : Recency) : Prop where
  capacity : c.capacity = l.capacity
  lifetime : c.lifetime = l.lifetime
  arena : c.arena.Shows l.entries

/-- The same comes of both, and they are left alike. -/
def Agree {α : Type} (real : α × Cache) (plain : α × Recency) : Prop :=
  real.1 = plain.1 ∧ Mirrors real.2 plain.2

namespace Mirrors

variable {c : Cache} {l : Recency} (now : Instant)

theorem ofLimits (capacity : Nat) (lifetime : Span) :
    Mirrors (Cache.ofLimits capacity lifetime) (Recency.ofLimits capacity lifetime) :=
  ⟨rfl, rfl, .empty⟩

theorem look (h : Mirrors c l) (key : String) :
    Agree (c.look key now) (l.look key now) :=
  have hlookup := h.arena.lookup key now
  ⟨hlookup.1, h.capacity, h.lifetime, hlookup.2⟩

theorem write (h : Mirrors c l) (item : Item) :
    Mirrors (c.create now item) (l.write now item) := by
  refine ⟨h.capacity, h.lifetime, ?_⟩
  have hinsert := h.arena.insert ⟨item.key, item, now.advance c.lifetime⟩ c.capacity
  unfold Recency.write
  rw [← h.capacity, ← h.lifetime]
  exact hinsert

theorem get (h : Mirrors c l) (user id : String) :
    Agree (c.get now user id) (l.get now user id) := by
  unfold Cache.get Recency.get
  cases Identity.checkAll user [id] with
  | error e => exact ⟨rfl, h⟩
  | ok _ =>
    obtain ⟨hfound, hnext⟩ := h.look now (Identity.key user id)
    rcases hc : c.look (Identity.key user id) now with ⟨found, c'⟩
    rcases hl : l.look (Identity.key user id) now with ⟨found', l'⟩
    rw [hc, hl] at hfound hnext
    cases hfound
    cases found <;> exact ⟨rfl, hnext⟩

theorem lookAll (h : Mirrors c l) (user : String) (found : Found) (ids : List String) :
    Agree (c.lookAll now user found ids) (l.lookAll now user found ids) := by
  induction ids generalizing c l found with
  | nil => exact ⟨rfl, h⟩
  | cons id ids ih =>
    unfold Cache.lookAll Recency.lookAll
    obtain ⟨hfound, hnext⟩ := h.look now (Identity.key user id)
    rcases hc : c.look (Identity.key user id) now with ⟨one, c'⟩
    rcases hl : l.look (Identity.key user id) now with ⟨one', l'⟩
    rw [hc, hl] at hfound hnext
    cases hfound
    cases one <;> exact ih hnext _

theorem getMany (h : Mirrors c l) (user : String) (ids : List String) :
    Agree (c.getMany now user ids) (l.getMany now user ids) := by
  unfold Cache.getMany Recency.getMany
  cases Identity.checkAll user ids with
  | error e => exact ⟨rfl, h⟩
  | ok _ =>
    have hall := h.lookAll now user ∅ ids
    exact ⟨congrArg Except.ok hall.1, hall.2⟩

theorem createMany (h : Mirrors c l) (items : List Item) :
    Mirrors (c.createMany now items) (items.foldl (Recency.write · now) l) := by
  unfold Cache.createMany
  induction items generalizing c l with
  | nil => exact h
  | cons item items ih => exact ih (h.write now item)

theorem update (h : Mirrors c l) (item : Item) :
    Agree (c.update now item) (l.update now item) := by
  unfold Cache.update Recency.update
  obtain ⟨hfound, hnext⟩ := h.look now item.key
  rcases hc : c.look item.key now with ⟨found, c'⟩
  rcases hl : l.look item.key now with ⟨found', l'⟩
  rw [hc, hl] at hfound hnext
  cases hfound
  cases found with
  | hit stored =>
    simp only
    cases Item.create stored.id stored.user stored.created item.dismissed with
    | error e => exact ⟨rfl, hnext⟩
    | ok merged => exact ⟨rfl, hnext.write now merged⟩
  | expired => exact ⟨rfl, hnext.write now item⟩
  | miss => exact ⟨rfl, hnext.write now item⟩

theorem delete (h : Mirrors c l) (user id : String) :
    Agree (c.delete user id) (l.delete user id) := by
  unfold Cache.delete Recency.delete
  cases Identity.checkAll user [id] with
  | error e => exact ⟨rfl, h⟩
  | ok _ => exact ⟨rfl, h.capacity, h.lifetime, h.arena.remove _⟩

theorem serve (h : Mirrors c l) (request : Request) :
    Agree (Cache.serve now request c) (Recency.serve now request l) := by
  cases request with
  | get user id => exact h.get now user id
  | getMany user ids => exact h.getMany now user ids
  | create item => exact ⟨rfl, h.write now item⟩
  | createMany items => exact ⟨rfl, h.createMany now items⟩
  | update item => exact h.update now item
  | delete user id => exact h.delete user id
  | deleteAll => exact ⟨rfl, h.capacity, h.lifetime, .empty⟩

/-- One operation does the same to both. -/
theorem step (h : Mirrors c l) (op : Op) :
    Agree (Cache.step now op c) (Recency.step now op l) := by
  cases op with
  | ask request => exact h.serve now request
  | purge =>
    have hpurge := h.arena.purge now
    exact ⟨hpurge.1, h.capacity, h.lifetime, hpurge.2⟩

/-- So do any number of them, one after the other. -/
theorem run (h : Mirrors c l) (ops : List (Instant × Op)) :
    Agree (run Cache.step ops c) (run Recency.step ops l) := by
  induction ops generalizing c l with
  | nil => exact ⟨rfl, h⟩
  | cons timed ops ih =>
    obtain ⟨now, op⟩ := timed
    obtain ⟨hreply, hnext⟩ := h.step now op
    obtain ⟨hreplies, hlast⟩ := ih hnext
    refine ⟨?_, hlast⟩
    unfold Cache.run
    simp only
    rw [hreply, hreplies]

end Mirrors

/-- What can be seen of a cache is a list: the entries along its chain, the keys along it, the entry
of each key, and how many there are. -/
structure Seen (c : Cache) (l : Recency) : Prop where
  capacity : c.capacity = l.capacity
  lifetime : c.lifetime = l.lifetime
  entries : c.arena.entriesByRecency = l.entries
  keys : c.arena.keysByRecency = l.entries.map Entry.key
  found : ∀ key, c.arena.entryOf? key = Recency.entryOf? l.entries key
  size : c.size = l.entries.length

theorem Mirrors.seen {c : Cache} {l : Recency} (h : Mirrors c l) : Seen c l :=
  ⟨h.capacity, h.lifetime, h.arena.entriesByRecency, h.arena.keysByRecency, h.arena.entryOf?,
    h.arena.size⟩

/-- An update that is refused leaves every key the entry that it had. -/
theorem Mirrors.update_refused {c : Cache} {l : Recency} {now : Instant} {item : Item} {e : Failure}
    (h : Mirrors c l) (hrefused : (c.update now item).1 = .error e) :
    (∃ reason, e = .invalidArgument reason) ∧
      ∀ key, (c.update now item).2.arena.entryOf? key = c.arena.entryOf? key := by
  obtain ⟨hreply, hnext⟩ := h.update now item
  obtain ⟨hreason, hsame⟩ := Recency.update_refused (hreply.symm.trans hrefused)
  refine ⟨hreason, fun key => ?_⟩
  rw [hnext.arena.entryOf?, h.arena.entryOf?, hsame]

/-- **The cache is a plain list.** For all limits and all runs from the empty cache, whatever the
clock says, the replies are those of the list, and the list is what is seen of the cache in the end.
Its keys are distinct and there is room for it. An update that is refused at that point is an
invalid argument, and takes or changes no entry. -/
theorem recency_refines (capacity : Nat) (lifetime : Span) (ops : List (Instant × Op)) :
    let real := run step ops (ofLimits capacity lifetime)
    let plain := run Recency.step ops (Recency.ofLimits capacity lifetime)
    real.1 = plain.1 ∧ Seen real.2 plain.2 ∧ plain.2.Tidy ∧
      ∀ now item e, (real.2.update now item).1 = .error e →
        (∃ reason, e = .invalidArgument reason) ∧
          ∀ key, (real.2.update now item).2.arena.entryOf? key = real.2.arena.entryOf? key := by
  intro real plain
  obtain ⟨hreplies, hmirrors⟩ := (Mirrors.ofLimits capacity lifetime).run ops
  exact ⟨hreplies, hmirrors.seen, (Recency.Tidy.ofLimits capacity lifetime).run ops,
    fun _ _ _ hrefused => hmirrors.update_refused hrefused⟩

end Dismissal.Cache
