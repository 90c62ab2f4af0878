import Dismissal.Proofs.Cache.Looks
import Mathlib.Data.List.Induction

/-!
# A batch fills the cache

A batch is looks at all of its keys, and then writes of new items for those that were not found.
The looks bring what they find to the front of the plain list, the writes come in front of that, and
only what is behind the batch makes room, unless the batch alone is too much.

* `Tidy.write_new`, `Tidy.writeAll_new`: new items come in front of the others, as many as there is
  room for.
* `afterLooks_front`: what several looks find comes in front of what they do not find.
* `Tidy.fill`: the entries after a batch.
* `Tidy.fill_fits`, `Tidy.fill_overflows`: what is found after a batch that fits, and which entries
  are left of a batch that is too much.
-/

namespace Dismissal.Cache.Recency

variable {l : Recency} {now : Instant} {keys : List String} {item : Item} {items : List Item}

/-- The entry that a write of an item makes. -/
def entering (l : Recency) (now : Instant) (item : Item) : Entry :=
  ⟨item.key, item, now.advance l.lifetime⟩

/-! ## Writes of new items -/

/-- The entry of a new item comes in front of the others, as many as there is room for. -/
theorem Tidy.write_new (h : l.Tidy) (now : Instant) (hnew : entryOf? l.entries item.key = none) :
    (l.write now item).entries = (l.entering now item :: l.entries).take l.capacity := by
  have hroom := h.room
  have hpos := h.pos
  rcases l.write_cases now item with ⟨hfree, heq⟩ | ⟨-, hfull, heq⟩
  · have hlength := hfree hnew
    rw [heq, without_eq_self hnew, List.take_of_length_le]
    · rfl
    · rw [List.length_cons]
      omega
  · obtain ⟨room, hcapacity⟩ := Nat.exists_eq_succ_of_ne_zero (Nat.ne_of_gt hpos)
    have hdrop : l.entries.dropLast = l.entries.take room := by
      rw [List.dropLast_eq_take]
      congr 1
      omega
    rw [heq, hcapacity, List.take_succ_cons, hdrop]
    rfl

/-- What is cut off once may be put back before it is cut off again. -/
theorem take_append_take {α : Type} (xs ys : List α) (n : Nat) :
    (xs ++ ys.take n).take n = (xs ++ ys).take n := by
  rw [List.take_append, List.take_append, List.take_take, Nat.min_eq_left (Nat.sub_le _ _)]

/-- Several new items come in front of the others, the last one first. -/
theorem Tidy.writeAll_new (h : l.Tidy) (now : Instant) (hnodup : (items.map Item.key).Nodup)
    (hnew : ∀ item ∈ items, entryOf? l.entries item.key = none) :
    (items.foldl (Recency.write · now) l).entries =
      ((items.map (l.entering now)).reverse ++ l.entries).take l.capacity := by
  induction items generalizing l with
  | nil => exact (List.take_of_length_le h.room).symm
  | cons item items ih =>
    obtain ⟨hfirst, hrest⟩ := List.forall_mem_cons.1 hnew
    rw [List.map_cons, List.nodup_cons] at hnodup
    have hentries := h.write_new now hfirst
    have hnext : ∀ other ∈ items, entryOf? (l.write now item).entries other.key = none := by
      intro other hmem
      rw [hentries, entryOf?_eq_none_iff]
      intro e he
      rcases List.mem_cons.1 (List.mem_of_mem_take he) with rfl | he
      · exact fun hkey => hnodup.1 (List.mem_map.2 ⟨other, hmem, hkey.symm⟩)
      · exact entryOf?_eq_none_iff.1 (hrest other hmem) e he
    rw [List.foldl_cons, ih (h.write now item) hnodup.2 hnext, hentries]
    show (_ ++ List.take l.capacity _).take l.capacity = _
    rw [take_append_take, List.map_cons, List.reverse_cons, List.append_assoc]
    rfl

theorem Tidy.writeAll (h : l.Tidy) (now : Instant) (items : List Item) :
    (items.foldl (Recency.write · now) l).Tidy := by
  induction items generalizing l with
  | nil => exact h
  | cons item items ih => exact ih (h.write now item)

/-! ## Looks at several keys -/

/-- The list after looks at several keys. -/
def afterLooks (l : Recency) (now : Instant) (keys : List String) : Recency :=
  keys.foldl (fun l key => (l.look key now).2) l

theorem lookAll_snd (l : Recency) (now : Instant) (user : String) (before : Found)
    (ids : List String) :
    (l.lookAll now user before ids).2 = l.afterLooks now (ids.map (Identity.key user)) := by
  induction ids generalizing l before with
  | nil => rfl
  | cons id ids ih =>
    rw [lookAll_cons]
    exact ih ..

theorem afterLooks_limits (l : Recency) (now : Instant) (keys : List String) :
    (l.afterLooks now keys).capacity = l.capacity ∧
      (l.afterLooks now keys).lifetime = l.lifetime := by
  induction keys generalizing l with
  | nil => exact ⟨rfl, rfl⟩
  | cons key keys ih => exact ih _

theorem Tidy.afterLooks (h : l.Tidy) (now : Instant) (keys : List String) :
    (l.afterLooks now keys).Tidy := by
  induction keys generalizing l with
  | nil => exact h
  | cons key keys ih => exact ih h.look

/-- Looks do not change what looks find. -/
theorem found?_look_afterLooks (l : Recency) (now : Instant) (keys : List String) (other : String) :
    found? ((l.afterLooks now keys).look other now).1 = found? (l.look other now).1 := by
  induction keys generalizing l with
  | nil => rfl
  | cons key keys ih => exact (ih _).trans (found?_look_look l key other now)

theorem hits_afterLooks (l : Recency) (now : Instant) (keys : List String) (other : String) :
    (l.afterLooks now keys).hits other now = l.hits other now := by
  rw [← isSome_found?_look, found?_look_afterLooks, isSome_found?_look]

/-- Looks that all find something leave every key the entry that it has. -/
theorem entryOf?_afterLooks (hall : ∀ key ∈ keys, l.hits key now = true) (other : String) :
    entryOf? (l.afterLooks now keys).entries other = entryOf? l.entries other := by
  induction keys generalizing l with
  | nil => rfl
  | cons key keys ih =>
    obtain ⟨hfirst, hrest⟩ := List.forall_mem_cons.1 hall
    obtain ⟨e, hfind, -, -, hnext⟩ := look_hit hfirst
    have hlater : ∀ key' ∈ keys, (l.look key now).2.hits key' now = true := by
      intro key' hmem
      rw [hits_look]
      exact hrest key' hmem
    refine (ih hlater).trans ?_
    rw [hnext]
    exact entryOf?_front hfind other

theorem without_append_of_ne {front rest : List Entry} {key : String}
    (h : ∀ e ∈ front, e.key ≠ key) : without (front ++ rest) key = front ++ without rest key := by
  have hkept := without_eq_self (entryOf?_eq_none_iff.2 h)
  unfold without at hkept ⊢
  rw [List.filter_append, hkept]

/-- **What several looks find comes in front**, the last one first, and nothing is left behind it
under any of the keys. -/
theorem afterLooks_front (l : Recency) (now : Instant) (hnodup : keys.Nodup) :
    ∃ front rest, (l.afterLooks now keys).entries = front ++ rest ∧
      front.map Entry.key = (keys.filter (l.hits · now)).reverse ∧
      (∀ e ∈ front, now < e.expires) ∧ ∀ e ∈ rest, e.key ∉ keys := by
  induction keys using List.reverseRecOn with
  | nil => exact ⟨[], l.entries, rfl, rfl, fun _ he => absurd he List.not_mem_nil,
      fun _ _ => List.not_mem_nil⟩
  | append_singleton keys key ih =>
    obtain ⟨hkeys, -, hapart⟩ := List.nodup_append.1 hnodup
    have hfresh : key ∉ keys := fun hmem => hapart key hmem key (List.mem_singleton_self key) rfl
    obtain ⟨front, rest, hentries, hfront, halive, hrest⟩ := ih hkeys
    have hstep : l.afterLooks now (keys ++ [key]) = ((l.afterLooks now keys).look key now).2 := by
      unfold Recency.afterLooks
      rw [List.foldl_append]
      rfl
    -- the key is none of those in front, so only what is behind them changes
    have hwithout : without (front ++ rest) key = front ++ without rest key := by
      refine without_append_of_ne fun e he hkey => hfresh ?_
      have hmem : e.key ∈ (keys.filter (l.hits · now)).reverse := hfront ▸ List.mem_map_of_mem he
      rw [List.mem_reverse] at hmem
      exact hkey ▸ List.mem_of_mem_filter hmem
    have hgone : ∀ e ∈ without rest key, e.key ∉ keys ++ [key] := by
      intro e he hmem
      obtain ⟨he, hne⟩ := mem_without.1 he
      rcases List.mem_append.1 hmem with hmem | hmem
      · exact hrest e he hmem
      · exact hne (List.mem_singleton.1 hmem)
    have hhits := hits_afterLooks l now keys key
    rw [hstep, List.filter_append, List.reverse_append, ← hfront]
    cases hhit : l.hits key now with
    | true =>
      obtain ⟨e, hfind, hlater, -, hnext⟩ := look_hit (hhits.trans hhit)
      obtain ⟨-, rfl⟩ := entryOf?_some hfind
      refine ⟨e :: front, without rest e.key, ?_, ?_, ?_, hgone⟩
      · rw [hnext, hentries, hwithout]
        rfl
      · simp [hhit]
      · intro x hx
        rcases List.mem_cons.1 hx with rfl | hx
        · exact hlater
        · exact halive x hx
    | false =>
      refine ⟨front, without rest key, ?_, by simp [hhit], halive, hgone⟩
      rw [(look_miss (hhits.trans hhit)).2, hentries, hwithout]

/-! ## Batches -/

section Batches

variable (hnodup : keys.Nodup)
  (hitems : items.map Item.key = keys.filter fun key => !l.hits key now)
include hnodup hitems

/-- **The entries after a batch**: the new ones, then those that were there after the looks, as many
as there is room for. -/
theorem Tidy.fill (h : l.Tidy) :
    (items.foldl (Recency.write · now) (l.afterLooks now keys)).entries =
      ((items.map (l.entering now)).reverse ++ (l.afterLooks now keys).entries).take
        l.capacity := by
  obtain ⟨front, rest, hentries, hfront, -, hrest⟩ := l.afterLooks_front now hnodup
  obtain ⟨hcapacity, hlifetime⟩ := l.afterLooks_limits now keys
  have hnew : ∀ item ∈ items, entryOf? (l.afterLooks now keys).entries item.key = none := by
    intro item hmem
    have hmissed : item.key ∈ keys.filter fun key => !l.hits key now :=
      hitems ▸ List.mem_map_of_mem hmem
    obtain ⟨hkey, hmiss⟩ := List.mem_filter.1 hmissed
    rw [hentries, entryOf?_eq_none_iff]
    intro e he heq
    rcases List.mem_append.1 he with he | he
    · have hhit : e.key ∈ (keys.filter (l.hits · now)).reverse := hfront ▸ List.mem_map_of_mem he
      rw [List.mem_reverse, List.mem_filter, heq] at hhit
      simp [hhit.2] at hmiss
    · exact hrest e he (heq ▸ hkey)
  have hdistinct : (items.map Item.key).Nodup := hitems ▸ hnodup.filter _
  rw [(h.afterLooks now keys).writeAll_new now hdistinct hnew, hcapacity]
  unfold entering
  rw [hlifetime]

/-- **A batch that fits is found whole** when it has been done, if what is written now does not
expire at once: what was found before, and what is new. -/
theorem Tidy.fill_fits (h : l.Tidy) (hlasts : now < now.advance l.lifetime)
    (hfits : keys.length ≤ l.capacity) {after : Recency}
    (hafter : items.foldl (Recency.write · now) (l.afterLooks now keys) = after) :
    (∀ key ∈ keys, l.hits key now = true →
        found? (after.look key now).1 = found? (l.look key now).1) ∧
      ∀ item ∈ items, found? (after.look item.key now).1 = some item := by
  have hlooked := h.afterLooks now keys
  have htidy : after.Tidy := hafter ▸ hlooked.writeAll now items
  have hentries := h.fill hnodup hitems
  obtain ⟨front, rest, hlooks, hfront, halive, -⟩ := l.afterLooks_front now hnodup
  rw [hafter, hlooks, ← List.append_assoc, List.take_append, List.take_of_length_le] at hentries
  · constructor
    · intro key hkey hhit
      have hmem : key ∈ front.map Entry.key := by
        rw [hfront, List.mem_reverse]
        exact List.mem_filter.2 ⟨hkey, hhit⟩
      obtain ⟨e, he, rfl⟩ := List.mem_map.1 hmem
      have hthere : found? (after.look e.key now).1 = some e.item :=
        htidy.found?_look_iff.2 ⟨e, by simp [hentries, he], rfl, rfl, halive e he⟩
      have hbefore : found? ((l.afterLooks now keys).look e.key now).1 = some e.item :=
        hlooked.found?_look_iff.2 ⟨e, by simp [hlooks, he], rfl, rfl, halive e he⟩
      rw [hthere, ← hbefore, found?_look_afterLooks]
    · intro item hmem
      refine htidy.found?_look_iff.2 ⟨l.entering now item, ?_, rfl, rfl, hlasts⟩
      rw [hentries]
      exact List.mem_append_left _ (List.mem_append_left _
        (List.mem_reverse.2 (List.mem_map_of_mem hmem)))
  · -- there are as many entries of the batch as it has keys
    have hlength := congrArg List.length hfront
    have hlength' := congrArg List.length hitems
    have hsplit := keys.length_eq_length_filter_add (l.hits · now)
    simp only [List.length_map, List.length_reverse] at hlength hlength'
    simp only [List.length_append, List.length_reverse, List.length_map]
    omega

/-- **Of a batch that is too much, the last items are left**, and nothing else. -/
theorem Tidy.fill_overflows (h : l.Tidy) (hnone : ∀ key ∈ keys, l.hits key now = false)
    (hover : l.capacity < keys.length) :
    (items.foldl (Recency.write · now) (l.afterLooks now keys)).entries =
      ((items.drop (keys.length - l.capacity)).map (l.entering now)).reverse := by
  have hall : items.map Item.key = keys := by
    rw [hitems]
    exact List.filter_eq_self.2 fun key hmem => by rw [hnone key hmem]; rfl
  have hlength : (items.map (l.entering now)).length = keys.length := by
    rw [← hall, List.length_map, List.length_map]
  rw [h.fill hnodup hitems, List.take_append_of_le_length, List.take_reverse, hlength,
    List.map_drop]
  rw [List.length_reverse, hlength]
  exact Nat.le_of_lt hover

end Batches

end Dismissal.Cache.Recency
