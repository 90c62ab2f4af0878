import Dismissal.Proofs.Cache.Retention
import Dismissal.Proofs.Identity.WellFormed
import Mathlib.Data.List.Sublists

/-!
# Purges and what can be seen of them

A purge removes only what no look would find. Still it makes room: where a new key would have pushed
out an entry that has not expired, it need not do so after a purge. Nothing else can be seen of a
purge.

* `Trails`: how a list that was purged lies behind one that was not. They have the same entries that
  have not expired, in the same order.
* `Swept.write`: a write keeps it so, unless it `Squeezes` such an entry out of the other list while
  an expired one stays there.
* `purges_invisible`: if no write does, all answers are the same with and without the purges.
* `squeezed_entry_shows`: if one does, a purge just before it can be seen.
-/

namespace Dismissal.Cache

open Recency

/-! ## Squeezed entries -/

/-- What is seen of a cache, as a list. -/
def plain (c : Cache) : Recency := ⟨c.capacity, c.lifetime, c.arena.entriesByRecency⟩

theorem Mirrors.plain {c : Cache} {l : Recency} (h : Mirrors c l) : c.plain = l := by
  unfold Cache.plain
  rw [h.capacity, h.lifetime, h.arena.entriesByRecency]

/-- The items that a request writes if it finds nothing under their keys. -/
def items : Request → List Item
  | .create item => [item]
  | .createMany items => items
  | .update item => [item]
  | _ => []

/-- A write of an item pushes out an entry that has not expired, while one that has expired is
there. -/
structure Recency.Squeezes (l : Recency) (now : Instant) (item : Item) : Prop where
  new : entryOf? l.entries item.key = none
  full : l.capacity ≤ l.entries.length
  last : ∃ e, l.entries.getLast? = some e ∧ now < e.expires
  expired : ∃ e ∈ l.entries, e.expires ≤ now

/-- No write of a request pushes out an entry that has not expired, while one that has expired is
there. -/
def Thrifty (c : Cache) (now : Instant) (request : Request) : Prop :=
  ∀ before item after, items request = before ++ item :: after →
    ¬(c.createMany now before).plain.Squeezes now item

/-- The operations that are no purges. -/
def asks (ops : List (Instant × Op)) : List (Instant × Op) := ops.filter (·.2 ≠ .purge)

/-- The replies that are answers to requests. -/
def answers (replies : List ((op : Op) × op.Reply)) : List ((op : Op) × op.Reply) :=
  replies.filter (·.1 ≠ .purge)

namespace Recency

/-! ## Lists with and without purges -/

/-- The entries that have not expired, which are those that a purge leaves. -/
def alive (es : List Entry) (now : Instant) : List Entry := es.filter (¬ ·.expires ≤ now)

section Alive

variable {es es' : List Entry} {e : Entry} {now later : Instant} {key : String}

theorem mem_alive : e ∈ alive es now ↔ e ∈ es ∧ now < e.expires := by
  simp [alive, Instant.lt_iff_not_le]

theorem alive_sublist (es : List Entry) (now : Instant) : (alive es now).Sublist es :=
  List.filter_sublist

theorem alive_append (es es' : List Entry) (now : Instant) :
    alive (es ++ es') now = alive es now ++ alive es' now := List.filter_append ..

theorem alive_eq_nil (h : ∀ e ∈ es, e.expires ≤ now) : alive es now = [] :=
  List.filter_eq_nil_iff.2 fun e he => by simpa using h e he

theorem alive_singleton (h : e.expires ≤ now) : alive [e] now = [] :=
  alive_eq_nil (by simpa using h)

theorem alive_eq_self (h : ∀ e ∈ es, now < e.expires) : alive es now = es :=
  List.filter_eq_self.2 fun e he => by simpa using Instant.lt_iff_not_le.1 (h e he)

theorem alive_without (es : List Entry) (key : String) (now : Instant) :
    alive (without es key) now = without (alive es now) key := by
  unfold alive without
  rw [List.filter_filter, List.filter_filter]
  simp only [Bool.and_comm]

/-- What has not expired later has not expired before. -/
theorem alive_later (h : now ≤ later) (es : List Entry) :
    alive es later = alive (alive es now) later := by
  unfold alive
  rw [List.filter_filter]
  refine List.filter_congr fun e _ => ?_
  by_cases hexpired : e.expires ≤ now
  · simp [hexpired, Instant.le_trans hexpired h]
  · simp [hexpired]

end Alive

/-- How entries that were purged lie behind others that were not: they are some of those, in their
order, and behind them some that have expired; and what has not expired is the same in both. -/
structure Trails (now : Instant) (es' es : List Entry) : Prop where
  split : ∃ kept gone, es' = kept ++ gone ∧ kept.Sublist es ∧ ∀ e ∈ gone, e.expires ≤ now
  same : alive es' now = alive es now

namespace Trails

variable {es es' : List Entry} {e : Entry} {now later : Instant} {key : String}

theorem refl (now : Instant) (es : List Entry) : Trails now es es :=
  ⟨⟨es, [], (List.append_nil es).symm, List.Sublist.refl es, by simp⟩, rfl⟩

theorem mono (h : Trails now es' es) (hle : now ≤ later) : Trails later es' es := by
  obtain ⟨⟨kept, gone, heq, hsub, hgone⟩, hsame⟩ := h
  refine ⟨⟨kept, gone, heq, hsub, fun e he => Instant.le_trans (hgone e he) hle⟩, ?_⟩
  rw [alive_later hle, hsame, ← alive_later hle]

/-- An entry is put in front of both. -/
theorem cons (h : Trails now es' es) (e : Entry) : Trails now (e :: es') (e :: es) := by
  refine ⟨?_, ?_⟩
  · obtain ⟨kept, gone, rfl, hsub, hgone⟩ := h.split
    exact ⟨e :: kept, gone, rfl, hsub.cons_cons e, hgone⟩
  · show alive ([e] ++ es') now = alive ([e] ++ es) now
    rw [alive_append, alive_append, h.same]

theorem without (h : Trails now es' es) (key : String) :
    Trails now (Recency.without es' key) (Recency.without es key) := by
  obtain ⟨⟨kept, gone, rfl, hsub, hgone⟩, hsame⟩ := h
  refine ⟨⟨Recency.without kept key, Recency.without gone key, ?_, hsub.filter _, ?_⟩, ?_⟩
  · exact List.filter_append ..
  · exact fun e he => hgone e (mem_without.1 he).1
  · rw [alive_without, hsame, ← alive_without]

/-- One more purge leaves what has not expired. -/
theorem purge (h : Trails now es' es) : Trails now (alive es' now) es := by
  have halive : alive (alive es now) now = alive es now :=
    alive_eq_self fun e he => (mem_alive.1 he).2
  rw [h.same]
  exact ⟨⟨_, [], (List.append_nil _).symm, alive_sublist es now, by simp⟩, halive⟩

/-- The last entry of the purged list can go if it has expired. -/
theorem dropLast_purged (h : Trails now (es' ++ [e]) es) (he : e.expires ≤ now) :
    Trails now es' es := by
  obtain ⟨⟨kept, gone, heq, hsub, hgone⟩, hsame⟩ := h
  refine ⟨?_, ?_⟩
  · rcases List.eq_nil_or_concat gone with rfl | ⟨front, last, rfl⟩
    · rw [List.append_nil] at heq
      subst heq
      exact ⟨es', [], (List.append_nil _).symm, (List.sublist_append_left es' [e]).trans hsub,
        by simp⟩
    · rw [List.concat_eq_append, ← List.append_assoc] at heq
      obtain ⟨rfl, -⟩ := List.append_inj' heq rfl
      exact ⟨kept, front, rfl, hsub, fun x hx => hgone x (by simp [hx])⟩
  · rw [← hsame, alive_append, alive_singleton he, List.append_nil]

/-- The last entry of the other list can go if it has expired. The purged list may still have it,
and then it has it behind all that it shares with the other one. -/
theorem dropLast_plain (h : Trails now es' (es ++ [e])) (he : e.expires ≤ now) :
    Trails now es' es := by
  obtain ⟨⟨kept, gone, heq, hsub, hgone⟩, hsame⟩ := h
  refine ⟨?_, ?_⟩
  · obtain ⟨front, last, rfl, hfront, hlast⟩ := List.sublist_append_iff.1 hsub
    refine ⟨front, last ++ gone, by rw [heq, List.append_assoc], hfront, fun x hx => ?_⟩
    rcases List.mem_append.1 hx with hx | hx
    · rw [List.mem_singleton.1 (hlast.subset hx)]
      exact he
    · exact hgone x hx
  · rw [hsame, alive_append, alive_singleton he, List.append_nil]

/-- If the last entry of a purged list has not expired, all its entries are in the other list. -/
theorem sublist_of_last (h : Trails now (es' ++ [e]) es) (he : now < e.expires) :
    (es' ++ [e]).Sublist es := by
  obtain ⟨⟨kept, gone, heq, hsub, hgone⟩, -⟩ := h
  rcases List.eq_nil_or_concat gone with rfl | ⟨front, last, rfl⟩
  · rw [heq, List.append_nil]
    exact hsub
  · rw [List.concat_eq_append, ← List.append_assoc] at heq
    obtain ⟨-, hlast⟩ := List.append_inj' heq rfl
    cases hlast
    exact absurd (hgone e (by simp)) (Instant.lt_iff_not_le.1 he)

/-- If nothing in the other list has expired, all its entries are in the purged one, and some that
have expired may lie behind them. -/
theorem prefix_of_alive (h : Trails now es' es) (halive : ∀ e ∈ es, now < e.expires) :
    ∃ gone, es' = es ++ gone := by
  obtain ⟨⟨kept, gone, rfl, hsub, hgone⟩, hsame⟩ := h
  rw [alive_append, alive_eq_nil hgone, List.append_nil, alive_eq_self halive] at hsame
  have hall : es.Sublist kept := hsame ▸ alive_sublist kept now
  exact ⟨gone, by rw [hsub.antisymm hall]⟩

end Trails

/-! ## Requests -/

/-- A list that was purged, and one that was not, after the same requests. -/
structure Swept (now : Instant) (l' l : Recency) : Prop where
  capacity : l'.capacity = l.capacity
  lifetime : l'.lifetime = l.lifetime
  purged : l'.Tidy
  tidy : l.Tidy
  trails : Trails now l'.entries l.entries

/-- A look finds the item of an entry that a purge would leave. -/
theorem Tidy.found?_look_iff_alive {l : Recency} (h : l.Tidy) {key : String} {now : Instant}
    {x : Item} : found? (l.look key now).1 = some x ↔
      ∃ e ∈ alive l.entries now, e.key = key ∧ e.item = x := by
  rw [h.found?_look_iff]
  constructor
  · rintro ⟨e, he, hkey, hitem, halive⟩
    exact ⟨e, mem_alive.2 ⟨he, halive⟩, hkey, hitem⟩
  · rintro ⟨e, he, hkey, hitem⟩
    obtain ⟨hmem, halive⟩ := mem_alive.1 he
    exact ⟨e, hmem, hkey, hitem, halive⟩

namespace Swept

variable {l' l : Recency} {now later : Instant} {key : String} {item : Item}

theorem mono (h : Swept now l' l) (hle : now ≤ later) : Swept later l' l :=
  ⟨h.capacity, h.lifetime, h.purged, h.tidy, h.trails.mono hle⟩

/-- A look finds the same in both, and leaves them alike. -/
theorem look (h : Swept now l' l) (key : String) :
    found? (l'.look key now).1 = found? (l.look key now).1 ∧
      Swept now (l'.look key now).2 (l.look key now).2 := by
  have hfound : found? (l'.look key now).1 = found? (l.look key now).1 := by
    refine Option.ext fun x => ?_
    rw [h.purged.found?_look_iff_alive, h.tidy.found?_look_iff_alive, h.trails.same]
  have hpurged : (l'.look key now).2.Tidy := h.purged.look
  have htidy : (l.look key now).2.Tidy := h.tidy.look
  have hhits : l'.hits key now = l.hits key now := by
    rw [← isSome_found?_look, hfound, isSome_found?_look]
  refine ⟨hfound, ?_⟩
  cases hhit : l.hits key now with
  | true =>
    rw [hhit] at hhits
    obtain ⟨e', hfind', halive', -, hnext'⟩ := look_hit hhits
    obtain ⟨e, hfind, -, -, hnext⟩ := look_hit hhit
    have hsame : e' = e := by
      obtain ⟨hmem', rfl⟩ := entryOf?_some hfind'
      have hmem := mem_alive.2 ⟨hmem', halive'⟩
      rw [h.trails.same] at hmem
      have hother := h.tidy.entryOf?_of_mem (mem_alive.1 hmem).1
      rw [hother] at hfind
      exact Option.some.inj hfind
    subst hsame
    rw [hnext'] at hpurged ⊢
    rw [hnext] at htidy ⊢
    exact ⟨h.capacity, h.lifetime, hpurged, htidy, (h.trails.without key).cons e'⟩
  | false =>
    rw [hhit] at hhits
    rw [(look_miss hhits).2] at hpurged ⊢
    rw [(look_miss hhit).2] at htidy ⊢
    exact ⟨h.capacity, h.lifetime, hpurged, htidy, h.trails.without key⟩

/-- If the lists differ and the purged one is full, its last entry has expired. -/
theorem last_purged (h : Swept now l' l) (hdiff : l'.entries ≠ l.entries)
    (hfull : l'.capacity ≤ l'.entries.length) :
    ∃ front last, l'.entries = front ++ [last] ∧ last.expires ≤ now := by
  have htrails := h.trails
  rcases List.eq_nil_or_concat l'.entries with hnil | ⟨front, last, hentries⟩
  · have hpos := h.purged.pos
    rw [hnil, List.length_nil] at hfull
    omega
  · rw [List.concat_eq_append] at hentries
    refine ⟨front, last, hentries, Classical.byContradiction fun halive => hdiff ?_⟩
    rw [hentries] at htrails
    have hsub := htrails.sublist_of_last (Instant.lt_iff_not_le.2 halive)
    rw [← hentries] at hsub
    refine hsub.eq_of_length_le (Nat.le_trans h.tidy.room ?_)
    rwa [← h.capacity]

/-- If the lists differ and the other one is full, its last entry has expired, or else a new key
would squeeze it out. -/
theorem last_plain (h : Swept now l' l) (hdiff : l'.entries ≠ l.entries)
    (hspares : ¬l.Squeezes now item) (hnew : entryOf? l.entries item.key = none)
    (hfull : l.capacity ≤ l.entries.length) :
    ∃ front last, l.entries = front ++ [last] ∧ last.expires ≤ now := by
  rcases List.eq_nil_or_concat l.entries with hnil | ⟨front, last, hentries⟩
  · have hpos := h.tidy.pos
    rw [hnil, List.length_nil] at hfull
    omega
  · rw [List.concat_eq_append] at hentries
    refine ⟨front, last, hentries, Classical.byContradiction fun halive => hdiff ?_⟩
    -- nothing in the list has expired, so that the purged one has all of it and room for no more
    have hall : ∀ e ∈ l.entries, now < e.expires := by
      intro e he
      rw [Instant.lt_iff_not_le]
      intro hexpired
      refine hspares ⟨hnew, hfull, ⟨last, ?_, Instant.lt_iff_not_le.2 halive⟩, e, he, hexpired⟩
      simp [hentries]
    obtain ⟨gone, hgone⟩ := h.trails.prefix_of_alive hall
    have hroom := h.purged.room
    rw [hgone, List.length_append, h.capacity] at hroom
    have hnone : gone = [] := List.length_eq_zero_iff.1 (by omega)
    rw [hgone, hnone, List.append_nil]

/-- **A write keeps the lists alike**, if it squeezes nothing out of the one that is not purged. -/
theorem write (h : Swept now l' l) (hspares : ¬l.Squeezes now item) :
    Swept now (l'.write now item) (l.write now item) := by
  have hpurged := h.purged.write now item
  have htidy := h.tidy.write now item
  refine ⟨h.capacity, h.lifetime, hpurged, htidy, ?_⟩
  by_cases hsame : l'.entries = l.entries
  · have heq : l' = l := by
      obtain ⟨capacity, lifetime, entries⟩ := l
      obtain ⟨capacity', lifetime', entries'⟩ := l'
      cases hsame
      cases h.capacity
      cases h.lifetime
      rfl
    rw [heq]
    exact Trails.refl ..
  · have hboth := h.trails.without item.key
    rcases write_cases l' now item with ⟨-, hentries'⟩ | ⟨hnew', hfull', hentries'⟩ <;>
      rcases write_cases l now item with ⟨-, hentries⟩ | ⟨hnew, hfull, hentries⟩ <;>
      rw [hentries', hentries, h.lifetime] <;>
      refine Trails.cons ?_ _
    · exact hboth
    · obtain ⟨front, last, hplain, hexpired⟩ := h.last_plain hsame hspares hnew hfull
      rw [without_eq_self hnew, hplain] at hboth
      rw [hplain, List.dropLast_concat]
      exact hboth.dropLast_plain hexpired
    · obtain ⟨front', last', hsplit', hexpired'⟩ := h.last_purged hsame hfull'
      rw [without_eq_self hnew', hsplit'] at hboth
      rw [hsplit', List.dropLast_concat]
      exact hboth.dropLast_purged hexpired'
    · obtain ⟨front, last, hplain, hexpired⟩ := h.last_plain hsame hspares hnew hfull
      obtain ⟨front', last', hsplit', hexpired'⟩ := h.last_purged hsame hfull'
      rw [without_eq_self hnew', without_eq_self hnew, hsplit', hplain] at hboth
      rw [hsplit', hplain, List.dropLast_concat, List.dropLast_concat]
      exact (hboth.dropLast_plain hexpired).dropLast_purged hexpired'

theorem writeAll (h : Swept now l' l) {items : List Item}
    (hspares : ∀ before item after, items = before ++ item :: after →
      ¬(before.foldl (Recency.write · now) l).Squeezes now item) :
    Swept now (items.foldl (Recency.write · now) l') (items.foldl (Recency.write · now) l) := by
  induction items generalizing l' l with
  | nil => exact h
  | cons item items ih =>
    refine ih (h.write (hspares [] item items rfl)) fun before next after heq => ?_
    exact hspares (item :: before) next after (by rw [heq]; rfl)

theorem lookAll (h : Swept now l' l) (user : String) (before : Found) (ids : List String) :
    (l'.lookAll now user before ids).1 = (l.lookAll now user before ids).1 ∧
      Swept now (l'.lookAll now user before ids).2 (l.lookAll now user before ids).2 := by
  induction ids generalizing l' l before with
  | nil => exact ⟨rfl, h⟩
  | cons id ids ih =>
    obtain ⟨hfound, hnext⟩ := h.look (Identity.key user id)
    rw [lookAll_cons, lookAll_cons, hfound]
    exact ih hnext _

theorem get (h : Swept now l' l) (user id : String) :
    (l'.get now user id).1 = (l.get now user id).1 ∧
      Swept now (l'.get now user id).2 (l.get now user id).2 := by
  cases hcheck : Identity.checkAll user [id] with
  | error e =>
    unfold Recency.get
    rw [hcheck]
    exact ⟨rfl, h⟩
  | ok _ =>
    obtain ⟨hfound, hnext⟩ := h.look (Identity.key user id)
    rw [get_eq hcheck, get_eq hcheck, hfound]
    exact ⟨rfl, hnext⟩

theorem getMany (h : Swept now l' l) (user : String) (ids : List String) :
    (l'.getMany now user ids).1 = (l.getMany now user ids).1 ∧
      Swept now (l'.getMany now user ids).2 (l.getMany now user ids).2 := by
  unfold Recency.getMany
  cases Identity.checkAll user ids with
  | error e => exact ⟨rfl, h⟩
  | ok _ =>
    obtain ⟨hfound, hnext⟩ := h.lookAll user ∅ ids
    exact ⟨congrArg Except.ok hfound, hnext⟩

theorem delete (h : Swept now l' l) (user id : String) :
    (l'.delete user id).1 = (l.delete user id).1 ∧
      Swept now (l'.delete user id).2 (l.delete user id).2 := by
  unfold Recency.delete
  cases Identity.checkAll user [id] with
  | error e => exact ⟨rfl, h⟩
  | ok _ => exact ⟨rfl, h.capacity, h.lifetime, h.purged.sublist List.filter_sublist,
      h.tidy.sublist List.filter_sublist, h.trails.without _⟩

theorem update (h : Swept now l' l) (hspares : ¬l.Squeezes now item) :
    (l'.update now item).1 = (l.update now item).1 ∧
      Swept now (l'.update now item).2 (l.update now item).2 := by
  obtain ⟨hsame, hnext⟩ := h.look item.key
  rw [h.purged.update_eq, h.tidy.update_eq, hsame]
  cases hfound : found? (l.look item.key now).1 with
  | none => exact ⟨rfl, h.write hspares⟩
  | some stored =>
    simp only
    cases hmerged : Item.create stored.id stored.user stored.created item.dismissed with
    | error refusal => exact ⟨rfl, hnext⟩
    | ok merged =>
      -- the merged item has the key of an entry that is there, so that it needs no room
      obtain ⟨e, he, hkey, -, -⟩ := h.tidy.found?_look_iff.1 hfound
      have hthere : e.key = merged.key := hkey.trans (h.tidy.key_of_merged hfound hmerged).symm
      refine ⟨rfl, h.write fun hsqueezes => ?_⟩
      exact entryOf?_eq_none_iff.1 hsqueezes.new e he hthere

/-- A request is answered alike by both, and leaves them alike. -/
theorem serve (h : Swept now l' l) {request : Request}
    (hspares : ∀ before item after, items request = before ++ item :: after →
      ¬(before.foldl (Recency.write · now) l).Squeezes now item) :
    (Recency.serve now request l').1 = (Recency.serve now request l).1 ∧
      Swept now (Recency.serve now request l').2 (Recency.serve now request l).2 := by
  cases request with
  | get user id => exact h.get user id
  | getMany user ids => exact h.getMany user ids
  | create item => exact ⟨rfl, h.write (hspares [] item [] rfl)⟩
  | createMany items => exact ⟨rfl, h.writeAll hspares⟩
  | update item => exact h.update (hspares [] item [] rfl)
  | delete user id => exact h.delete user id
  | deleteAll => exact ⟨rfl, h.capacity, h.lifetime, h.purged.sublist (List.nil_sublist _),
      h.tidy.sublist (List.nil_sublist _), Trails.refl now []⟩

/-- A purge of the one leaves both alike. -/
theorem purge (h : Swept now l' l) : Swept now (Recency.step now .purge l').2 l :=
  ⟨h.capacity, h.lifetime, h.purged.sublist List.filter_sublist, h.tidy, h.trails.purge⟩

/-- **Purges on the way do not show**, as long as no request squeezes anything out of the list that
is not purged. -/
theorem run (h : Swept now l' l) {ops : List (Instant × Op)} (hlater : ∀ x ∈ ops, now ≤ x.1)
    (hclock : ops.Pairwise fun x y => x.1 ≤ y.1)
    (hspares : ∀ before t request after, asks ops = before ++ (t, .ask request) :: after →
      ∀ first item rest, items request = first ++ item :: rest →
        ¬(first.foldl (Recency.write · t) (run Recency.step before l).2).Squeezes t item) :
    answers (run Recency.step ops l').1 = (run Recency.step (asks ops) l).1 := by
  induction ops generalizing l' l now with
  | nil => rfl
  | cons timed ops ih =>
    obtain ⟨t, op⟩ := timed
    obtain ⟨hfirst, hothers⟩ := List.pairwise_cons.1 hclock
    have hnow := h.mono (hlater _ List.mem_cons_self)
    cases op with
    | purge =>
      have hrest := ih hnow.purge hfirst hothers hspares
      exact hrest
    | ask request =>
      obtain ⟨hanswer, hnext⟩ := hnow.serve (hspares [] t request (asks ops) rfl)
      have hrest := ih hnext hfirst hothers fun before t' next after heq =>
        hspares ((t, .ask request) :: before) t' next after (congrArg (List.cons _) heq)
      show ⟨.ask request, (Recency.serve t request l').1⟩ :: answers _ =
        ⟨.ask request, (Recency.serve t request l).1⟩ :: _
      rw [hanswer]
      exact congrArg _ hrest

end Swept

end Recency

/-- **Purges cannot be seen.** For all limits and all runs from the empty cache with a clock that
never goes back, all answers are the same with and without the purges, if without them no write
pushes out an entry that has not expired while one that has expired is there. -/
theorem purges_invisible (capacity : Nat) (lifetime : Span) (ops : List (Instant × Op))
    (hclock : ops.Pairwise fun x y => x.1 ≤ y.1)
    (hthrifty : ∀ before now request after, asks ops = before ++ (now, .ask request) :: after →
      Thrifty (run step before (ofLimits capacity lifetime)).2 now request) :
    answers (run step ops (ofLimits capacity lifetime)).1 =
      (run step (asks ops) (ofLimits capacity lifetime)).1 := by
  have hmirrors := Mirrors.ofLimits capacity lifetime
  have htidy := Tidy.ofLimits capacity lifetime
  rw [(hmirrors.run ops).1, (hmirrors.run (asks ops)).1]
  cases ops with
  | nil => rfl
  | cons timed ops =>
    have hstart : Swept timed.1 (Recency.ofLimits capacity lifetime)
        (Recency.ofLimits capacity lifetime) := ⟨rfl, rfl, htidy, htidy, Trails.refl ..⟩
    refine hstart.run ?_ hclock ?_
    · intro x hx
      rcases List.mem_cons.1 hx with rfl | hx
      · exact Instant.le_refl _
      · exact (List.pairwise_cons.1 hclock).1 x hx
    · intro before t request after heq first item rest hitem
      have hspares := hthrifty before t request after heq first item rest hitem
      rwa [((hmirrors.run before).2.createMany t first).plain] at hspares

/-- An entry expires while it is the last one, and goes to make room for a third item. -/
def unusedFirst : List (Instant × Op) :=
  [(afterMillis 0, .ask (.create (sample "a" Identity.valid_a))),
    (afterMillis 5, .ask (.create (sample "b" Identity.valid_b))), (afterMillis 10, .purge),
    (afterMillis 10, .ask (.create (sample "c" Identity.valid_c)))]

/-- A purge that comes just before only takes what would have made room. -/
theorem unusedFirst_alike :
    answers (run step unusedFirst (ofLimits 2 (.ofMillis 10))).1 =
      (run step (asks unusedFirst) (ofLimits 2 (.ofMillis 10))).1 := by
  refine purges_invisible 2 (.ofMillis 10) unusedFirst (by decide) ?_
  intro before now request after heq first item rest hitem hsqueezes
  have honly {x : Item} (hx : items request = [x]) : first = [] ∧ item = x := by
    rw [hx] at hitem
    cases first with
    | nil =>
      cases hitem
      exact ⟨rfl, rfl⟩
    | cons y first => simp at hitem
  -- only the third item finds no room, and then the last entry has expired
  match before, heq with
  | [], heq =>
    cases heq
    obtain ⟨rfl, rfl⟩ := honly rfl
    exact absurd hsqueezes.full (by decide)
  | [_], heq =>
    cases heq
    obtain ⟨rfl, rfl⟩ := honly rfl
    exact absurd hsqueezes.full (by decide)
  | [_, _], heq =>
    cases heq
    obtain ⟨rfl, rfl⟩ := honly rfl
    obtain ⟨e, hlast, halive⟩ := hsqueezes.last
    have hexpires : some e.expires = some (afterMillis 10) := congrArg (Option.map _) hlast.symm
    rw [Option.some.inj hexpires] at halive
    exact absurd halive (by decide)
  | _ :: _ :: _ :: before, heq => simp [asks, unusedFirst] at heq

namespace Recency

variable {l : Recency} {now : Instant} {item : Item} {e : Entry}

/-- What a write squeezes out is not found after it, but it is if a purge came just before. -/
theorem Squeezes.get_last (h : l.Squeezes now item) (htidy : l.Tidy)
    (hlast : l.entries.getLast? = some e) (halive : now < e.expires) :
    ((l.write now item).get now e.item.user e.item.id).1 = .ok none ∧
      (((Recency.step now .purge l).2.write now item).get now e.item.user e.item.id).1 =
        .ok (some e.item) := by
  have hentries : l.entries.dropLast ++ [e] = l.entries := List.dropLast_append_getLast? e hlast
  have hmem : e ∈ l.entries := List.mem_of_getLast? hlast
  have hother : item.key ≠ e.key := fun hkey => entryOf?_eq_none_iff.1 h.new e hmem hkey.symm
  constructor
  · rw [get_eq (Identity.checkAll_one e.item.user_valid e.item.id_valid)]
    refine congrArg Except.ok (Option.eq_none_iff_forall_ne_some.2 fun x hfound => ?_)
    obtain ⟨y, hy, hkey, -, -⟩ := (htidy.write now item).found?_look_iff.1 hfound
    rw [← Item.key, ← htidy.keyed e hmem] at hkey
    rcases write_cases l now item with ⟨hroom, -⟩ | ⟨-, -, hwritten⟩
    · exact absurd h.full (Nat.not_le.2 (hroom h.new))
    · have hdistinct := htidy.distinct
      rw [← hentries, List.map_append, List.nodup_append] at hdistinct
      rw [hwritten] at hy
      rcases List.mem_cons.1 hy with rfl | hy
      · exact hother hkey
      · exact hdistinct.2.2 _ (List.mem_map_of_mem hy) _ (by simp) hkey
  · have htidy' : (Recency.step now .purge l).2.Tidy := htidy.step .purge
    have hroom : (alive l.entries now).length < l.capacity := by
      obtain ⟨gone, hgone, hexpired⟩ := h.expired
      have hless : (alive l.entries now).length < l.entries.length :=
        List.length_filter_lt_length_iff_exists.2 ⟨gone, hgone, by simpa using hexpired⟩
      exact Nat.lt_of_lt_of_le hless htidy.room
    have hthere : e ∈ ((Recency.step now .purge l).2.write now item).entries := by
      rcases write_cases (Recency.step now .purge l).2 now item with
        ⟨-, hwritten⟩ | ⟨-, hfull, -⟩
      · rw [hwritten]
        refine List.mem_cons_of_mem _ (mem_without.2 ⟨?_, Ne.symm hother⟩)
        exact mem_alive.2 ⟨hmem, halive⟩
      · exact absurd hfull (Nat.not_le.2 hroom)
    exact (htidy'.write now item).get_iff.2 ⟨⟨rfl, rfl⟩, e, hthere, rfl, halive⟩

end Recency

/-- **Every entry that is squeezed out shows.** After any run, if a write pushes out an entry that
has not expired while one that has expired is there, then a look finds the item of that entry if a
purge comes just before the write, and finds nothing if none does. -/
theorem squeezed_entry_shows (capacity : Nat) (lifetime : Span) (ops : List (Instant × Op))
    {now : Instant} {item : Item}
    (h : (run step ops (ofLimits capacity lifetime)).2.plain.Squeezes now item) :
    ∃ x : Item,
      (((run step ops (ofLimits capacity lifetime)).2.create now item).get now x.user x.id).1 =
        .ok none ∧
      ((((run step ops (ofLimits capacity lifetime)).2.purge now).2.create now item).get now
        x.user x.id).1 = .ok (some x) := by
  have hmirrors := ((Mirrors.ofLimits capacity lifetime).run ops).2
  have htidy := (Tidy.ofLimits capacity lifetime).run ops
  rw [hmirrors.plain] at h
  obtain ⟨e, hlast, halive⟩ := h.last
  obtain ⟨hlost, hsaved⟩ := h.get_last htidy hlast halive
  refine ⟨e.item, ?_, ?_⟩
  · rw [((hmirrors.write now item).get now _ _).1]
    exact hlost
  · have hpurged : Mirrors ((run step ops (ofLimits capacity lifetime)).2.purge now).2 _ :=
      (hmirrors.step now .purge).2
    rw [((hpurged.write now item).get now _ _).1]
    exact hsaved

/-- An entry that expires first is used last, when a third item finds no room. -/
def usedFirst : List (Instant × Op) :=
  [(afterMillis 0, .ask (.create (sample "a" Identity.valid_a))),
    (afterMillis 5, .ask (.create (sample "b" Identity.valid_b))),
    (afterMillis 5, .ask (.get "u" "a")), (afterMillis 10, .purge),
    (afterMillis 10, .ask (.create (sample "c" Identity.valid_c))),
    (afterMillis 10, .ask (.get "u" "b"))]

/-- **Purges can be seen.** Without the purge, the third item pushes out the second one, which has
not expired, and not the first one, which has. -/
theorem purge_saves_entry :
    ¬∀ (capacity : Nat) (lifetime : Span) (ops : List (Instant × Op)),
      (ops.Pairwise fun x y => x.1 ≤ y.1) →
        answers (run step ops (ofLimits capacity lifetime)).1 =
          (run step (asks ops) (ofLimits capacity lifetime)).1 := by
  intro hall
  have hsame := hall 2 (.ofMillis 10) usedFirst (by decide)
  have hpurged : (answers (run step usedFirst (ofLimits 2 (.ofMillis 10))).1).getLast?.map
      (fun r => r.1.deeds r.2) = some [.look "u:b" true] := rfl
  have hplain : (run step (asks usedFirst) (ofLimits 2 (.ofMillis 10))).1.getLast?.map
      (fun r => r.1.deeds r.2) = some [.look "u:b" false] := rfl
  rw [hsame, hplain] at hpurged
  cases hpurged

end Dismissal.Cache
