import Dismissal.Proofs.Cache.Filling
import Dismissal.Proofs.Cache.Retention
import Dismissal.Proofs.Identity.WellFormed
import Dismissal.Proofs.Lifecycle.Batches

/-!
# Batches over a cache

A cache creates whatever it is given, so over a cache a batch is one look at all of its items and
one creation of those that are missing (`getOrCreateMany_cached`). What is left in the cache is said
of the plain list by `Recency.Tidy.fill`; here it is said of the calls.

* `getOrCreateMany_mirrored`: a batch answers what it answers over the plain list (`batchAnswers`),
  and leaves what it leaves of that list (`afterBatch`).
* `answers_named`: the items that a batch answers bear the names that it gave, in order.
* `answers_found`, `last_answers_found`: which of them are found when it is done.
* `getOrCreateMany_found`: a batch all of whose items are found moves entries, but drops none.
* `batch_stays`: after a batch that fits, all of its items are there as they were answered, and the
  same batch is answered with the same items and takes nothing away. Of one that is too much, the
  last items that fit are left.
-/

namespace Dismissal.Lifecycle

open Cache
open Cache.Recency (found? contains_lookAll entryOf?_afterLooks getElem?_lookAll hits_iff
  isSome_found?_look lookAll_snd look_miss)

variable {c : Cache} {l : Recency} {now : Instant} {user : String} {ids : List String}
  {context : Option Json} {told : List Event}

/-- Missing items are created at once, if there are any. -/
theorem createMissing_cached (c : Cache) (now : Instant) (items : List Item) (told : List Event) :
    exec (createMissing now items) ⟨c, told⟩ =
      (.ok (settledAll items), ⟨c.createMany now items, told⟩) := by
  cases items with
  | nil => rfl
  | cons item items => exact createMissing_created rfl

/-- The names of the items of a batch, in the order in which they are first named. -/
def batchNames (huser : Identity.Valid user) (hids : ∀ id ∈ ids, Identity.Valid id) : List Name :=
  Name.all user huser ids.eraseDups fun id hid => hids id (List.mem_eraseDups.1 hid)

section Names

variable (huser : Identity.Valid user) (hids : ∀ id ∈ ids, Identity.Valid id)
include huser hids

theorem map_id_batchNames : (batchNames huser hids).map Name.id = ids.eraseDups := Name.map_id_all

theorem user_of_mem_batchNames {n : Name} (hn : n ∈ batchNames huser hids) : n.user = user :=
  Name.user_of_mem_all hn

theorem id_of_mem_batchNames {n : Name} (hn : n ∈ batchNames huser hids) : n.id ∈ ids.eraseDups :=
  map_id_batchNames huser hids ▸ List.mem_map_of_mem hn

theorem mem_batchNames {id : String} (hid : id ∈ ids) : ∃ n ∈ batchNames huser hids, n.id = id :=
  List.mem_map.1 (map_id_batchNames huser hids ▸ List.mem_eraseDups.2 hid)

end Names

variable (c now context told) in
/-- **A batch over a cache** is a look at its items and a creation of those that are missing. -/
theorem getOrCreateMany_cached (huser : Identity.Valid user)
    (hids : ∀ id ∈ ids, Identity.Valid id) :
    let names := batchNames huser hids
    let looked := c.lookAll now user ∅ ids.eraseDups
    let ps := names.map (presentedOf now looked.1)
    exec (getOrCreateMany now user ids context) ⟨c, told⟩ =
      (.ok ps, ⟨looked.2.createMany now (newItems now looked.1 names),
        told ++ ps.map (presentedEvent now context)⟩) := by
  intro names looked ps
  have hcheck : Identity.checkAll user ids = .ok () := Identity.checkAll_eq_ok_iff.2 ⟨huser, hids⟩
  have hnames : names.map Name.id = ids.eraseDups := map_id_batchNames huser hids
  by_cases hempty : ids.eraseDups = []
  · have hnone : names = [] := by
      rw [hempty] at hnames
      exact List.map_eq_nil_iff.1 hnames
    have hlooked : looked = (∅, c) := by
      show c.lookAll now user ∅ ids.eraseDups = _
      rw [hempty]
      rfl
    show exec _ _ =
      (.ok (names.map _), ⟨Cache.createMany looked.2 now _, told ++ (names.map _).map _⟩)
    rw [getOrCreateMany_nothing context hcheck hempty, hnone, hlooked]
    exact congrArg (fun events => (_, State.mk c events)) (List.append_nil told).symm
  · refine getOrCreateMany_through context hcheck hnames
      (fun n hn => user_of_mem_batchNames huser hids hn) ?_ ?_
      (createMissing_cached looked.2 now _ told)
    · rintro hnone
      rw [hnone] at hnames
      exact hempty hnames.symm
    · show c.getMany now user ids.eraseDups = _
      have hvalid : ∀ id ∈ ids.eraseDups, Identity.Valid id :=
        fun id hid => hids id (List.mem_eraseDups.1 hid)
      unfold Cache.getMany
      rw [Identity.checkAll_eq_ok_iff.2 ⟨huser, hvalid⟩]

/-! ## What is left -/

section Left

variable (huser : Identity.Valid user) (hids : ∀ id ∈ ids, Identity.Valid id)

/-- What a batch answers over a plain list. -/
def batchAnswers (l : Recency) (now : Instant) : List Presented :=
  (batchNames huser hids).map (presentedOf now (l.lookAll now user ∅ ids.eraseDups).1)

/-- The plain list after a batch. -/
def afterBatch (l : Recency) (now : Instant) : Recency :=
  let looked := l.lookAll now user ∅ ids.eraseDups
  (newItems now looked.1 (batchNames huser hids)).foldl (Recency.write · now) looked.2

/-- **A batch over a cache is a batch over its plain list.** -/
theorem getOrCreateMany_mirrored (h : Mirrors c l) (now : Instant) (context : Option Json)
    (told : List Event) : ∃ s',
      exec (getOrCreateMany now user ids context) ⟨c, told⟩ =
        (.ok (batchAnswers huser hids l now), s') ∧
      Mirrors s'.store (afterBatch huser hids l now) := by
  obtain ⟨hsame, hlooked⟩ := h.lookAll now user ∅ ids.eraseDups
  rw [getOrCreateMany_cached c now context told huser hids, hsame]
  exact ⟨_, rfl, hlooked.createMany now _⟩

include huser hids

theorem afterBatch_eq (l : Recency) (now : Instant) : afterBatch huser hids l now =
    (newItems now (l.lookAll now user ∅ ids.eraseDups).1 (batchNames huser hids)).foldl
      (Recency.write · now) (l.afterLooks now (ids.eraseDups.map (Identity.key user))) := by
  rw [← lookAll_snd]
  rfl

theorem tidy_afterBatch (h : l.Tidy) (now : Instant) : (afterBatch huser hids l now).Tidy := by
  rw [afterBatch_eq]
  exact (h.afterLooks now _).writeAll now _

/-- The looks of a batch find under each of its names what a look at that name finds. -/
theorem getElem?_looks (l : Recency) (now : Instant) {n : Name} (hn : n ∈ batchNames huser hids) :
    (l.lookAll now user ∅ ids.eraseDups).1[n.id]? =
      found? (l.look (Identity.key user n.id) now).1 := by
  rw [getElem?_lookAll, if_pos (id_of_mem_batchNames huser hids hn),
    Std.ExtTreeMap.getElem?_empty, Option.or_none]

/-- The item that is answered to a name bears that name. -/
theorem presentedOf_named (h : l.Tidy) (now : Instant) {n : Name}
    (hn : n ∈ batchNames huser hids) {p : Presented}
    (hp : presentedOf now (l.lookAll now user ∅ ids.eraseDups).1 n = p) :
    p.item.user = user ∧ p.item.id = n.id := by
  unfold presentedOf at hp
  rw [getElem?_looks huser hids l now hn] at hp
  cases hfound : found? (l.look (Identity.key user n.id) now).1 with
  | some item =>
    rw [hfound] at hp
    exact hp ▸ h.names_of_found hfound
  | none =>
    rw [hfound] at hp
    exact hp ▸ ⟨user_of_mem_batchNames huser hids hn, rfl⟩

/-- **The items that a batch answers bear the names that it gave**, in the order in which they were
first given. -/
theorem answers_named (h : l.Tidy) (now : Instant) :
    (batchAnswers huser hids l now).map (·.item.id) = ids.eraseDups ∧
      ∀ p ∈ batchAnswers huser hids l now, p.item.user = user := by
  constructor
  · refine Eq.trans ?_ (map_id_batchNames huser hids)
    unfold batchAnswers
    rw [List.map_map]
    exact List.map_congr_left fun n hn => (presentedOf_named huser hids h now hn rfl).2
  · intro p hp
    obtain ⟨n, hn, heq⟩ := List.mem_map.1 hp
    exact (presentedOf_named huser hids h now hn heq).1

theorem answers_keyed (h : l.Tidy) (now : Instant) :
    (batchAnswers huser hids l now).map (·.item.key) =
      ids.eraseDups.map (Identity.key user) := by
  obtain ⟨hnamed, howned⟩ := answers_named huser hids h now
  rw [← hnamed, List.map_map]
  exact List.map_congr_left fun p hp => congrArg (Identity.key · p.item.id) (howned p hp)

/-- Different items of a batch have different keys. -/
theorem nodup_batchKeys : (ids.eraseDups.map (Identity.key user)).Nodup := by
  refine (nodup_eraseDups ids).map_on fun id hid other _ heq => ?_
  exact ((Identity.key_eq_key_iff huser (hids id (List.mem_eraseDups.1 hid))).1 heq).2

/-- What is created for a batch has the keys under which a look finds nothing. -/
theorem newItems_keys (l : Recency) (now : Instant) :
    (newItems now (l.lookAll now user ∅ ids.eraseDups).1 (batchNames huser hids)).map Item.key =
      (ids.eraseDups.map (Identity.key user)).filter fun key => !l.hits key now := by
  unfold newItems
  rw [← map_id_batchNames huser hids, List.map_map, List.map_map, List.filter_map]
  have hfilter : (batchNames huser hids).filter (fun n =>
      !(l.lookAll now user ∅ ((batchNames huser hids).map Name.id)).1.contains n.id) =
      (batchNames huser hids).filter
        ((fun key => !l.hits key now) ∘ Identity.key user ∘ Name.id) := by
    refine List.filter_congr fun n hn => ?_
    rw [contains_lookAll]
    simp [List.mem_map_of_mem hn]
  rw [hfilter]
  refine List.map_congr_left fun n hn => ?_
  rw [← user_of_mem_batchNames huser hids (List.mem_of_mem_filter hn)]
  rfl

/-- When a batch that fits is done, looks at its names find the items that it answers. -/
theorem looks_find_answers (h : l.Tidy) (hlasts : now < now.advance l.lifetime)
    (hfits : ids.eraseDups.length ≤ l.capacity) {n : Name} (hn : n ∈ batchNames huser hids) :
    found? ((afterBatch huser hids l now).look (Identity.key user n.id) now).1 =
      some (presentedOf now (l.lookAll now user ∅ ids.eraseDups).1 n).item := by
  have huser' := user_of_mem_batchNames huser hids hn
  have hid := id_of_mem_batchNames huser hids hn
  have hlook := getElem?_looks huser hids l now hn
  obtain ⟨hfound, hnew⟩ := h.fill_fits (nodup_batchKeys huser hids)
    (newItems_keys huser hids l now) hlasts (by rwa [List.length_map])
    (afterBatch_eq huser hids l now).symm
  unfold presentedOf
  cases hitem : (l.lookAll now user ∅ ids.eraseDups).1[n.id]? with
  | some item =>
    rw [hitem] at hlook
    rw [hfound _ (List.mem_map_of_mem hid) (by rw [← isSome_found?_look, ← hlook]; rfl), ← hlook]
  | none =>
    have hmem : n.item (.new now) ∈
        newItems now (l.lookAll now user ∅ ids.eraseDups).1 (batchNames huser hids) := by
      refine List.mem_map.2 ⟨n, List.mem_filter.2 ⟨hn, ?_⟩, rfl⟩
      rw [Std.ExtTreeMap.contains_eq_isSome_getElem?, hitem]
      rfl
    have hthere := hnew _ hmem
    rwa [show (n.item (.new now)).key = Identity.key user n.id from huser' ▸ rfl] at hthere

/-- When a batch that fits is done, each item that it answers is found under its own names. -/
theorem answers_found (h : l.Tidy) (hlasts : now < now.advance l.lifetime)
    (hfits : ids.eraseDups.length ≤ l.capacity) {p : Presented}
    (hp : p ∈ batchAnswers huser hids l now) :
    found? ((afterBatch huser hids l now).look p.item.key now).1 = some p.item := by
  obtain ⟨n, hn, rfl⟩ := List.mem_map.1 hp
  obtain ⟨huser', hid⟩ := presentedOf_named huser hids h now hn rfl
  unfold Item.key
  rw [huser', hid, looks_find_answers huser hids h hlasts hfits hn]

/-- If nothing of a batch is found, all that it answers is new. -/
theorem newItems_eq_answers (hnone : ∀ id ∈ ids, l.hits (Identity.key user id) now = false) :
    newItems now (l.lookAll now user ∅ ids.eraseDups).1 (batchNames huser hids) =
      (batchAnswers huser hids l now).map Presented.item := by
  have hmissed (n : Name) (hn : n ∈ batchNames huser hids) :
      (l.lookAll now user ∅ ids.eraseDups).1[n.id]? = none := by
    have hid := List.mem_eraseDups.1 (id_of_mem_batchNames huser hids hn)
    rw [getElem?_looks huser hids l now hn, (look_miss (hnone n.id hid)).1]
  unfold newItems batchAnswers
  rw [List.filter_eq_self.2, List.map_map]
  · refine List.map_congr_left fun n hn => ?_
    show _ = (presentedOf now _ n).item
    unfold presentedOf
    rw [hmissed n hn]
  · intro n hn
    rw [Std.ExtTreeMap.contains_eq_isSome_getElem?, hmissed n hn]
    rfl

/-- When a batch that is too much is done, and nothing of it was found, the last items that it
answers are left. -/
theorem last_answers_left (h : l.Tidy)
    (hnone : ∀ id ∈ ids, l.hits (Identity.key user id) now = false)
    (hover : l.capacity < ids.eraseDups.length) :
    (afterBatch huser hids l now).entries =
      (((batchAnswers huser hids l now).drop (ids.eraseDups.length - l.capacity)).map
        fun p => l.entering now p.item).reverse := by
  have hmissed : ∀ key ∈ ids.eraseDups.map (Identity.key user), l.hits key now = false := by
    intro key hkey
    obtain ⟨id, hid, rfl⟩ := List.mem_map.1 hkey
    exact hnone id (List.mem_eraseDups.1 hid)
  have hentries := h.fill_overflows (nodup_batchKeys huser hids) (newItems_keys huser hids l now)
    hmissed (by rwa [List.length_map])
  rw [List.length_map, newItems_eq_answers huser hids hnone, ← List.map_drop,
    List.map_map] at hentries
  rw [afterBatch_eq, newItems_eq_answers huser hids hnone, hentries]
  rfl

theorem last_answers_found (h : l.Tidy) (hlasts : now < now.advance l.lifetime)
    (hnone : ∀ id ∈ ids, l.hits (Identity.key user id) now = false)
    (hover : l.capacity < ids.eraseDups.length) {p : Presented}
    (hp : p ∈ (batchAnswers huser hids l now).drop (ids.eraseDups.length - l.capacity)) :
    found? ((afterBatch huser hids l now).look p.item.key now).1 = some p.item := by
  refine (tidy_afterBatch huser hids h now).found?_look_iff.2
    ⟨l.entering now p.item, ?_, rfl, rfl, hlasts⟩
  rw [last_answers_left huser hids h hnone hover, List.mem_reverse]
  exact List.mem_map_of_mem hp

/-- A batch all of whose items are found is answered with them, creates nothing, and leaves every
key the entry that it has. -/
theorem getOrCreateMany_found (h : Mirrors c l) {item : Name → Item}
    (hall : ∀ n ∈ batchNames huser hids,
      found? (l.look (Identity.key user n.id) now).1 = some (item n)) (told : List Event)
    (context : Option Json) :
    ∃ s', exec (getOrCreateMany now user ids context) ⟨c, told⟩ =
        (.ok ((batchNames huser hids).map fun n => ⟨item n, false⟩), s') ∧
      ∀ key, s'.store.arena.entryOf? key = c.arena.entryOf? key := by
  have hfound (n : Name) (hn : n ∈ batchNames huser hids) :
      (l.lookAll now user ∅ ids.eraseDups).1[n.id]? = some (item n) := by
    rw [getElem?_looks huser hids l now hn, hall n hn]
  have hanswers : batchAnswers huser hids l now =
      (batchNames huser hids).map fun n => ⟨item n, false⟩ := by
    refine List.map_congr_left fun n hn => ?_
    unfold presentedOf
    rw [hfound n hn]
  have hnone :
      newItems now (l.lookAll now user ∅ ids.eraseDups).1 (batchNames huser hids) = [] := by
    unfold newItems
    rw [List.filter_eq_nil_iff.2, List.map_nil]
    intro n hn
    rw [Std.ExtTreeMap.contains_eq_isSome_getElem?, hfound n hn]
    simp
  have hhits : ∀ key ∈ ids.eraseDups.map (Identity.key user), l.hits key now = true := by
    intro key hkey
    obtain ⟨id, hid, rfl⟩ := List.mem_map.1 hkey
    obtain ⟨n, hn, rfl⟩ := mem_batchNames huser hids (List.mem_eraseDups.1 hid)
    rw [← isSome_found?_look, hall n hn]
    rfl
  obtain ⟨s', hrun, hafter⟩ := getOrCreateMany_mirrored huser hids h now context told
  rw [hanswers] at hrun
  refine ⟨s', hrun, fun key => ?_⟩
  rw [hafter.arena.entryOf?, h.arena.entryOf?, afterBatch_eq, hnone]
  exact entryOf?_afterLooks hhits key

end Left

/-- An item of a user is in the cache and has not expired. -/
def HoldsLive (c : Cache) (now : Instant) (user id : String) : Prop :=
  ∃ e, c.arena.entryOf? (Identity.key user id) = some e ∧ now < e.expires

theorem holdsLive_iff (h : Mirrors c l) (id : String) :
    HoldsLive c now user id ↔ l.hits (Identity.key user id) now = true := by
  unfold HoldsLive
  rw [h.arena.entryOf?, hits_iff]

/-- An item is in the cache just as it is, and has not expired. -/
def HoldsItem (c : Cache) (now : Instant) (item : Item) : Prop :=
  ∃ e, c.arena.entryOf? item.key = some e ∧ e.item = item ∧ now < e.expires

theorem HoldsItem.live {item : Item} (h : HoldsItem c now item) :
    HoldsLive c now item.user item.id := by
  obtain ⟨e, hentry, -, halive⟩ := h
  exact ⟨e, hentry, halive⟩

theorem holdsItem_iff (h : Mirrors c l) (htidy : l.Tidy) {item : Item} :
    HoldsItem c now item ↔ found? (l.look item.key now).1 = some item := by
  unfold HoldsItem
  rw [h.arena.entryOf?, htidy.found?_look_iff]
  constructor
  · rintro ⟨e, hentry, hitem, halive⟩
    obtain ⟨hmem, hkey⟩ := Recency.entryOf?_some hentry
    exact ⟨e, hmem, hkey, hitem, halive⟩
  · rintro ⟨e, hmem, hkey, hitem, halive⟩
    exact ⟨e, hkey ▸ htidy.entryOf?_of_mem hmem, hitem, halive⟩

/-- **A batch that fits stays whole in the cache.** After any run, and at any instant at which what
is written does not expire at once: a batch is answered with one item for each of its names, in the
order in which they are first given. If there is room for all of them, they are then in the cache as
they were answered and have not expired, and the same batch is answered with the same items in the
same order, none of them created, and leaves every key the entry that it has. If there are more
items than there is room for, and none of them was there, the last ones that fit are left as they
were answered, and nothing else. -/
theorem batch_stays {capacity : Nat} {lifetime : Span} {ops : List (Instant × Op)}
    (hc : (run step ops (ofLimits capacity lifetime)).2 = c) (hlasts : now < c.expiry now)
    (huser : Identity.Valid user) (hids : ∀ id ∈ ids, Identity.Valid id) (told : List Event)
    (context context' : Option Json) :
    ∃ ps s', (Call.getOrCreateMany user ids context).perform now ⟨c, told⟩ = (.ok (.batch ps), s') ∧
      ps.map (·.item.id) = ids.eraseDups ∧ (∀ p ∈ ps, p.item.user = user) ∧
      (ids.eraseDups.length ≤ c.capacity → (∀ p ∈ ps, HoldsItem s'.store now p.item) ∧
        (∀ id ∈ ids, HoldsLive s'.store now user id) ∧
        ∃ s'', (Call.getOrCreateMany user ids context').perform now s' =
            (.ok (.batch (ps.map fun p => ⟨p.item, false⟩)), s'') ∧
          ∀ key, s''.store.arena.entryOf? key = s'.store.arena.entryOf? key) ∧
      (c.capacity < ids.eraseDups.length → (∀ id ∈ ids, ¬HoldsLive c now user id) →
        s'.store.arena.keysByRecency =
            ((ids.eraseDups.drop (ids.eraseDups.length - c.capacity)).map
              (Identity.key user)).reverse ∧
          ∀ p ∈ ps.drop (ids.eraseDups.length - c.capacity), HoldsItem s'.store now p.item) := by
  obtain ⟨-, hmirrors⟩ := (Mirrors.ofLimits capacity lifetime).run ops
  have htidy := (Recency.Tidy.ofLimits capacity lifetime).run ops
  rw [hc] at hmirrors
  generalize (run Recency.step ops (Recency.ofLimits capacity lifetime)).2 = l at hmirrors htidy
  have hexpiry : c.expiry now = now.advance l.lifetime := congrArg now.advance hmirrors.lifetime
  rw [hexpiry] at hlasts
  rw [hmirrors.capacity]
  obtain ⟨s', hrun, hafter⟩ := getOrCreateMany_mirrored huser hids hmirrors now context told
  have htidy' := tidy_afterBatch huser hids htidy now
  obtain ⟨hnamed, howned⟩ := answers_named huser hids htidy now
  refine ⟨batchAnswers huser hids l now, s', ?_, hnamed, howned, fun hfits => ?_,
    fun hover hnone => ?_⟩
  · rw [Call.perform_getOrCreateMany, hrun]
    rfl
  · have hholds : ∀ p ∈ batchAnswers huser hids l now, HoldsItem s'.store now p.item :=
      fun p hp => (holdsItem_iff hafter htidy').2 (answers_found huser hids htidy hlasts hfits hp)
    refine ⟨hholds, fun id hid => ?_, ?_⟩
    · obtain ⟨p, hp, rfl⟩ := List.mem_map.1 (hnamed ▸ List.mem_eraseDups.2 hid)
      exact howned p hp ▸ (hholds p hp).live
    · obtain ⟨s'', hagain, hsame⟩ := getOrCreateMany_found huser hids hafter
        (fun n hn => looks_find_answers huser hids htidy hlasts hfits hn) s'.published context'
      refine ⟨s'', ?_, hsame⟩
      rw [Call.perform_getOrCreateMany, hagain]
      simp only [Except.map, batchAnswers, List.map_map, Function.comp_def]
  · have hmissed : ∀ id ∈ ids, l.hits (Identity.key user id) now = false := by
      intro id hid
      have habsent := hnone id hid
      rwa [holdsLive_iff hmirrors, Bool.not_eq_true] at habsent
    constructor
    · rw [hafter.arena.keysByRecency, last_answers_left huser hids htidy hmissed hover,
        List.map_reverse, List.map_map, List.map_drop, List.map_drop,
        ← answers_keyed huser hids htidy now]
      rfl
    · exact fun p hp => (holdsItem_iff hafter htidy').2
        (last_answers_found huser hids htidy hlasts hmissed hover hp)

/-- Two items are in a cache with room for two, and the second one is used less recently. A batch of
it and of a third item drops the first one. -/
theorem batch_stays_usedInTurn :
    let c := (run step usedInTurn (ofLimits 2 (.ofMillis 10))).2
    let batch := Call.getOrCreateMany "u" ["b", "c"] none
    ∃ ps s', batch.perform (afterMillis 7) ⟨c, []⟩ = (.ok (.batch ps), s') ∧
      ps.map (·.item.id) = ["b", "c"] ∧ (∀ p ∈ ps, HoldsItem s'.store (afterMillis 7) p.item) ∧
      HoldsLive s'.store (afterMillis 7) "u" "b" ∧ HoldsLive s'.store (afterMillis 7) "u" "c" ∧
      ∃ s'', batch.perform (afterMillis 7) s' =
        (.ok (.batch (ps.map fun p => ⟨p.item, false⟩)), s'') := by
  have hids : ∀ id ∈ ["b", "c"], Identity.Valid id := by decide
  have hlasts : afterMillis 7 <
      (run step usedInTurn (ofLimits 2 (.ofMillis 10))).2.expiry (afterMillis 7) := by decide
  obtain ⟨ps, s', hrun, hnamed, -, hfits, -⟩ :=
    batch_stays rfl hlasts Identity.valid_u hids [] none none
  obtain ⟨hholds, hlive, s'', hagain, -⟩ := hfits (Nat.le_refl 2)
  exact ⟨ps, s', hrun, hnamed, hholds, hlive "b" (by simp), hlive "c" (by simp), s'', hagain⟩

end Dismissal.Lifecycle
