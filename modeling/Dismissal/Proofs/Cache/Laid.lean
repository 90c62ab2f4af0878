import Dismissal.Proofs.Cache.Chain
import Dismissal.Proofs.Store.Durable

/-!
# What the arena holds

`Laid` is the invariant of the arena: its chain runs over the slots of the entries it holds, the
index leads from each key to its slot, and every slot is in the chain or free, once.

Each operation keeps it and does to the entries what its name says. They are listed together with
their slots, so that an entry that moves in the chain is seen to stay in its slot.

* `Laid.locate`: the index finds a key exactly if an entry has it, and no two entries do.
* `Laid.promote`, `Laid.remove`, `Laid.dropOldest`, `Laid.overwrite`, `Laid.enter`: the operations.
-/

namespace Dismissal.Cache.Arena

open Recency (entryOf? without)

/-- The arena holds these entries in these slots, the most recently used first. -/
structure Laid (a : Arena) (held : List (Nat × Entry)) : Prop where
  chain : a.Chain (held.map Prod.fst)
  entry : ∀ x ∈ held, a.entryAt x.1 = some x.2
  index : ∀ key p, a.index[key]? = some p ↔ ∃ e, (p, e) ∈ held ∧ e.key = key
  slots : (held.map Prod.fst ++ a.free).Perm (List.range a.slots.size)
  size : a.index.size = held.length

theorem nodup_of_slots {ps free : List Nat} {n : Nat} (h : (ps ++ free).Perm (List.range n)) :
    ps.Nodup :=
  (List.nodup_append.1 (h.nodup_iff.2 List.nodup_range)).1

namespace Laid

section Facts

variable {a : Arena} {held before behind : List (Nat × Entry)} {x y : Nat × Entry} {key : String}
  {p : Nat} {e : Entry}

theorem empty : Laid {} [] :=
  ⟨⟨rfl, rfl, trivial⟩, by simp, by simp, List.Perm.refl _, rfl⟩

theorem nodup (h : Laid a held) : (held.map Prod.fst).Nodup := nodup_of_slots h.slots

/-- Each slot holds an entry or is free. -/
theorem length_add (h : Laid a held) : held.length + a.free.length = a.slots.size := by
  have hlength := h.slots.length_eq
  rwa [List.length_append, List.length_map, List.length_range] at hlength

theorem lt_size (h : Laid a held) (hx : x ∈ held) : x.1 < a.slots.size :=
  List.mem_range.1 (h.slots.mem_iff.1 (List.mem_append_left _ (List.mem_map_of_mem hx)))

theorem slot (h : Laid a held) (hx : x ∈ held) : ∃ s, a.slots[x.1]? = some s ∧ s.entry = x.2 :=
  Option.map_eq_some_iff.1 (h.entry x hx)

theorem index_middle (h : Laid a (before ++ (p, e) :: behind)) : a.index[e.key]? = some p :=
  (h.index _ _).2 ⟨e, List.mem_append_right _ List.mem_cons_self, rfl⟩

/-- No two entries have the same key. -/
theorem unique (h : Laid a held) (hx : x ∈ held) (hy : y ∈ held) (hkey : x.2.key = y.2.key) :
    x = y := by
  have hx' : a.index[x.2.key]? = some x.1 := (h.index _ _).2 ⟨x.2, hx, rfl⟩
  have hy' : a.index[x.2.key]? = some y.1 := (h.index _ _).2 ⟨y.2, hy, hkey.symm⟩
  have hslot : x.1 = y.1 := Option.some.inj (hx'.symm.trans hy')
  have hentry : some x.2 = some y.2 := by
    rw [← h.entry x hx, ← h.entry y hy, hslot]
  exact Prod.ext hslot (Option.some.inj hentry)

theorem distinct (h : Laid a held) : ((held.map Prod.snd).map Entry.key).Nodup := by
  rw [List.map_map]
  exact (List.Nodup.of_map Prod.fst h.nodup).map_on fun _ hx _ hy hkey => h.unique hx hy hkey

/-- The entries around one have other slots and other keys. -/
theorem others (h : Laid a (before ++ (p, e) :: behind)) (hx : x ∈ before ++ behind) :
    x.1 ≠ p ∧ x.2.key ≠ e.key := by
  have hslots := h.nodup
  rw [List.map_append, List.map_cons, List.perm_middle.nodup_iff, ← List.map_append] at hslots
  have hmap : x.1 ∈ (before ++ behind).map Prod.fst := List.mem_map_of_mem hx
  have hslot : x.1 ≠ p := fun heq => (List.nodup_cons.1 hslots).1 (heq ▸ hmap)
  refine ⟨hslot, fun hkey => hslot ?_⟩
  have hmem : x ∈ before ++ (p, e) :: behind :=
    List.perm_middle.mem_iff.2 (List.mem_cons_of_mem _ hx)
  exact congrArg Prod.fst (h.unique hmem (List.mem_append_right _ List.mem_cons_self) hkey)

/-- **The index is right.** It finds no slot for a key that no entry has. For any other it finds the
slot of the entry, and all other entries have other keys. -/
theorem locate (h : Laid a held) (key : String) :
    (a.index[key]? = none ∧ entryOf? (held.map Prod.snd) key = none) ∨
      ∃ before p e behind, held = before ++ (p, e) :: behind ∧ e.key = key ∧
        a.index[key]? = some p ∧ entryOf? (held.map Prod.snd) key = some e ∧
        without (held.map Prod.snd) key = (before ++ behind).map Prod.snd := by
  cases hindex : a.index[key]? with
  | none =>
    refine .inl ⟨rfl, Recency.entryOf?_eq_none_iff.2 fun e he heq => ?_⟩
    obtain ⟨x, hx, rfl⟩ := List.mem_map.1 he
    have hsome := (h.index key x.1).2 ⟨x.2, hx, heq⟩
    rw [hindex] at hsome
    cases hsome
  | some p =>
    obtain ⟨e, hmem, hkey⟩ := (h.index key p).1 hindex
    obtain ⟨before, behind, rfl⟩ := List.append_of_mem hmem
    subst hkey
    have hothers : ∀ x ∈ before.map Prod.snd ++ behind.map Prod.snd, x.key ≠ e.key := by
      intro x hx
      rw [← List.map_append] at hx
      obtain ⟨y, hy, rfl⟩ := List.mem_map.1 hx
      exact (h.others hy).2
    refine .inr ⟨before, p, e, behind, rfl, rfl, rfl, ?_, ?_⟩
    · rw [List.map_append, List.map_cons]
      exact Recency.entryOf?_middle hothers
    · rw [List.map_append, List.map_cons, List.map_append]
      exact Recency.without_middle hothers

end Facts

section Operations

variable {a b : Arena} {held held' before behind : List (Nat × Entry)} {key : String}
  {p : Nat} {e : Entry} {item : Item} {expires : Instant}

/-- The same entries can be chained in another order. -/
theorem reorder (h : Laid a held) (hab : Relinked a b) (hchain : b.Chain (held'.map Prod.fst))
    (hperm : held'.Perm held) : Laid b held' := by
  refine ⟨hchain, fun x hx => ?_, fun key p => ?_, ?_, ?_⟩
  · rw [hab.entry]
    exact h.entry x (hperm.subset hx)
  · rw [hab.index, h.index]
    simp only [hperm.mem_iff]
  · rw [hab.free, hab.size]
    exact ((hperm.map _).append_right _).trans h.slots
  · rw [hab.index, h.size, hperm.length_eq]

theorem promote (h : Laid a (before ++ (p, e) :: behind)) :
    Laid (a.promote p) ((p, e) :: (before ++ behind)) := by
  have hlt := h.lt_size (List.mem_append_right _ List.mem_cons_self)
  have hchain := h.chain
  have hnodup := h.nodup
  rw [List.map_append, List.map_cons] at hchain hnodup
  refine h.reorder relinked_promote ?_ List.perm_middle.symm
  rw [List.map_cons, List.map_append]
  exact hchain.promote hnodup hlt

/-- A slot that is given up goes to the free ones. -/
theorem giveUp (h : Laid a (before ++ (p, e) :: behind))
    (hchain : b.Chain ((before ++ behind).map Prod.fst)) (hindex : b.index = a.index.erase e.key)
    (hfree : b.free = p :: a.free) (hsize : b.slots.size = a.slots.size)
    (hentry : b.entryAt = a.entryAt) : Laid b (before ++ behind) := by
  have hmem : ∀ {x : Nat × Entry}, x ∈ before ++ (p, e) :: behind ↔
      x = (p, e) ∨ x ∈ before ++ behind := by
    intro x
    rw [List.perm_middle.mem_iff, List.mem_cons]
  refine ⟨hchain, fun x hx => ?_, fun key q => ?_, ?_, ?_⟩
  · rw [hentry]
    exact h.entry x (hmem.2 (.inr hx))
  -- The key that is erased is the key of this entry and of no other.
  · rw [hindex, getElem?_erase_eq]
    by_cases hkey : e.key = key
    · subst hkey
      simp only [↓reduceIte, reduceCtorEq, false_iff, not_exists, not_and]
      exact fun e' he' => (h.others he').2
    · rw [if_neg hkey, h.index]
      simp only [hmem]
      constructor
      · rintro ⟨e', heq | he', hkey'⟩
        · cases heq
          exact absurd hkey' hkey
        · exact ⟨e', he', hkey'⟩
      · rintro ⟨e', he', hkey'⟩
        exact ⟨e', .inr he', hkey'⟩
  · rw [hfree, hsize]
    refine .trans ?_ h.slots
    rw [List.map_append, List.map_append, List.map_cons, List.append_assoc, List.append_assoc]
    exact List.Perm.append_left _ List.perm_middle
  · have hthere : a.index.contains e.key = true := by
      rw [Std.ExtTreeMap.contains_eq_isSome_getElem?, h.index_middle]
      rfl
    rw [hindex, Std.ExtTreeMap.size_erase, if_pos hthere, h.size, List.length_append,
      List.length_append, List.length_cons]
    omega

theorem remove (h : Laid a (before ++ (p, e) :: behind)) :
    Laid (a.remove e.key).2 (before ++ behind) := by
  have hchain := h.chain
  have hnodup := h.nodup
  rw [List.map_append, List.map_cons] at hchain hnodup
  have hchain' : Chain { a with index := a.index.erase e.key }
      (before.map Prod.fst ++ p :: behind.map Prod.fst) :=
    hchain.congr rfl rfl fun _ _ => rfl
  have hrelinked : Relinked { a with index := a.index.erase e.key }
      (unlink { a with index := a.index.erase e.key } p) := relinked_unlink
  unfold Arena.remove
  rw [h.index_middle]
  refine h.giveUp ?_ hrelinked.index (congrArg (p :: ·) hrelinked.free) hrelinked.size
    hrelinked.entry
  rw [List.map_append]
  exact (hchain'.unlink hnodup).congr rfl rfl fun _ _ => rfl

/-- The least recently used entry is the last one. -/
theorem dropOldest (h : Laid a held) : Laid a.dropOldest held.dropLast := by
  have htail := h.chain.tail
  rcases List.eq_nil_or_concat held with rfl | ⟨before, ⟨p, e⟩, rfl⟩
  · unfold Arena.dropOldest
    rw [htail]
    exact h
  · rw [List.concat_eq_append] at h htail ⊢
    obtain ⟨s, hs, hentry⟩ := h.slot (List.mem_append_right _ (List.mem_singleton_self (p, e)))
    have hkey : s.key = e.key := congrArg Entry.key hentry
    rw [List.map_append, List.map_singleton, List.getLast?_concat] at htail
    unfold Arena.dropOldest
    rw [htail]
    simp only at hs ⊢
    rw [hs, List.dropLast_concat]
    simp only
    rw [hkey, ← List.append_nil before]
    exact h.remove

/-- An entry can get another item and expire at another time, in the same slot. -/
theorem overwrite (h : Laid a (before ++ (p, e) :: behind)) :
    Laid { a with slots := a.slots.modify p fun t => { t with item, expires } }
      (before ++ (p, ⟨e.key, item, expires⟩) :: behind) := by
  have hslots : (before ++ (p, (⟨e.key, item, expires⟩ : Entry)) :: behind).map Prod.fst =
      (before ++ (p, e) :: behind).map Prod.fst := by
    simp only [List.map_append, List.map_cons]
  obtain ⟨s, hs, hentry⟩ := h.slot (List.mem_append_right _ List.mem_cons_self)
  refine ⟨?_, fun x hx => ?_, fun key q => ?_, ?_, ?_⟩
  · rw [hslots]
    refine h.chain.congr rfl rfl fun q _ => ?_
    rw [Array.getElem?_modify]
    split
    · rw [Option.map_map]
      rfl
    · rfl
  · unfold entryAt
    rw [Array.getElem?_modify]
    rcases List.mem_cons.1 (List.perm_middle.mem_iff.1 hx) with rfl | hx
    · rw [if_pos rfl, hs]
      exact congrArg (fun e : Entry => some (⟨e.key, item, expires⟩ : Entry)) hentry
    · rw [if_neg (h.others hx).1.symm]
      exact h.entry x (List.perm_middle.mem_iff.2 (List.mem_cons_of_mem _ hx))
  · rw [h.index]
    simp only [List.perm_middle.mem_iff, List.mem_cons, Prod.mk.injEq]
    constructor
    · rintro ⟨e', ⟨rfl, rfl⟩ | he', hkey⟩
      · exact ⟨_, .inl ⟨rfl, rfl⟩, hkey⟩
      · exact ⟨e', .inr he', hkey⟩
    · rintro ⟨e', ⟨rfl, rfl⟩ | he', hkey⟩
      · exact ⟨e, .inl ⟨rfl, rfl⟩, hkey⟩
      · exact ⟨e', .inr he', hkey⟩
  · rw [hslots, Array.size_modify]
    exact h.slots
  · rw [h.size, List.length_append, List.length_append, List.length_cons, List.length_cons]

/-- An entry with a new key, in a slot that was free or not there. -/
theorem cons (h : Laid a held) (hindex : a.index[e.key]? = none)
    (hchain : b.Chain (p :: held.map Prod.fst)) (hinsert : b.index = a.index.insert e.key p)
    (hslots : (p :: held.map Prod.fst ++ b.free).Perm (List.range b.slots.size))
    (hself : b.entryAt p = some e) (hothers : ∀ q, q ≠ p → b.entryAt q = a.entryAt q) :
    Laid b ((p, e) :: held) := by
  have hp : ∀ x ∈ held, x.1 ≠ p := by
    rintro x hx rfl
    exact (List.nodup_cons.1 (nodup_of_slots hslots)).1 (List.mem_map_of_mem hx)
  refine ⟨hchain, fun x hx => ?_, fun key q => ?_, hslots, ?_⟩
  · rcases List.mem_cons.1 hx with rfl | hx
    · exact hself
    · rw [hothers x.1 (hp x hx)]
      exact h.entry x hx
  · rw [hinsert, getElem?_insert_eq]
    simp only [List.mem_cons, Prod.mk.injEq]
    by_cases hkey : e.key = key
    · subst hkey
      rw [if_pos rfl, Option.some.injEq]
      constructor
      · rintro rfl
        exact ⟨e, .inl ⟨rfl, rfl⟩, rfl⟩
      · rintro ⟨e', ⟨rfl, -⟩ | he', hkey⟩
        · rfl
        · have hsome := (h.index e.key q).2 ⟨e', he', hkey⟩
          rw [hindex] at hsome
          cases hsome
    · rw [if_neg hkey, h.index]
      constructor
      · rintro ⟨e', he', hkey'⟩
        exact ⟨e', .inr he', hkey'⟩
      · rintro ⟨e', ⟨-, rfl⟩ | he', hkey'⟩
        · exact absurd hkey' hkey
        · exact ⟨e', he', hkey'⟩
  · have hnew : a.index.contains e.key = false := by
      rw [Std.ExtTreeMap.contains_eq_isSome_getElem?, hindex]
      rfl
    rw [hinsert, Std.ExtTreeMap.size_insert, hnew, h.size]
    rfl

/-- An arena that has got a new entry in a slot, and then puts the slot in front. -/
theorem seat (h : Laid a held) (hindex : a.index[e.key]? = none)
    (hinsert : b.index = a.index.insert e.key p) (hhead : b.head = a.head) (htail : b.tail = a.tail)
    (hslots : (p :: held.map Prod.fst ++ b.free).Perm (List.range b.slots.size))
    (hself : b.entryAt p = some e) (hothers : ∀ q, q ≠ p → b.slots[q]? = a.slots[q]?) :
    Laid (b.pushFront p) ((p, e) :: held) := by
  obtain ⟨hp, hrest⟩ := List.nodup_cons.1 (nodup_of_slots hslots)
  have hlt : p < b.slots.size := List.mem_range.1 (hslots.mem_iff.1 List.mem_cons_self)
  have hchain : b.Chain (held.map Prod.fst) := by
    refine h.chain.congr hhead htail fun q hq => ?_
    rw [hothers q fun heq => hp (heq ▸ hq)]
  have hrelinked : Relinked b (b.pushFront p) := relinked_pushFront
  refine h.cons hindex (hchain.pushFront hp hrest hlt) (hrelinked.index.trans hinsert) ?_ ?_
    fun q hq => ?_
  · rw [hrelinked.free, hrelinked.size]
    exact hslots
  · rw [hrelinked.entry]
    exact hself
  · rw [hrelinked.entry]
    exact congrArg (Option.map Slot.entry) (hothers q hq)

theorem enter (h : Laid a held) (hindex : a.index[e.key]? = none) :
    ∃ p, Laid (a.enter e.key e.item e.expires) ((p, e) :: held) := by
  have hslots := h.slots
  unfold Arena.enter
  cases hfree : a.free with
  | cons slot free =>
    rw [hfree] at hslots
    have hlt : slot < a.slots.size := List.mem_range.1
      (hslots.mem_iff.1 (List.mem_append_right _ List.mem_cons_self))
    refine ⟨slot, h.seat hindex rfl rfl rfl ?_ ?_ fun q hq => ?_⟩
    · simp only [Array.size_modify]
      exact List.perm_middle.symm.trans hslots
    · unfold entryAt
      rw [Array.getElem?_modify, if_pos rfl, Array.getElem?_eq_getElem hlt]
      rfl
    · rw [Array.getElem?_modify, if_neg hq.symm]
  | nil =>
    rw [hfree, List.append_nil] at hslots
    refine ⟨a.slots.size, h.seat hindex rfl rfl rfl ?_ ?_ fun q hq => ?_⟩
    · simp only [List.append_nil, Array.size_push, List.range_succ]
      exact (List.perm_append_singleton _ _).symm.trans (hslots.append_right _)
    · unfold entryAt
      rw [Array.getElem?_push_size]
      rfl
    · rw [Array.getElem?_push, if_neg hq]

/-- Written again, an entry keeps its slot and comes to the front. -/
theorem insert_resident (h : Laid a (before ++ (p, e) :: behind)) (item : Item)
    (expires : Instant) (capacity : Nat) :
    Laid (a.insert e.key item expires capacity)
      ((p, ⟨e.key, item, expires⟩) :: (before ++ behind)) := by
  unfold Arena.insert
  rw [h.index_middle]
  exact h.overwrite.promote

/-- A new entry comes to the front. In a full arena the last entry has to go. -/
theorem insert_new (h : Laid a held) (hindex : a.index[e.key]? = none) (capacity : Nat) :
    ∃ p, Laid (a.insert e.key e.item e.expires capacity)
      ((p, e) :: if capacity ≤ held.length then held.dropLast else held) := by
  unfold Arena.insert Arena.size
  rw [hindex, h.size]
  by_cases hfull : capacity ≤ held.length
  · simp only [hfull, ↓reduceIte]
    have hnew : a.dropOldest.index[e.key]? = none := by
      refine Option.eq_none_iff_forall_ne_some.2 fun p hp => ?_
      obtain ⟨e', hmem, hkey⟩ := (h.dropOldest.index _ _).1 hp
      have hsome := (h.index _ _).2 ⟨e', List.dropLast_subset _ hmem, hkey⟩
      rw [hindex] at hsome
      cases hsome
    exact h.dropOldest.enter hnew
  · simp only [hfull, ↓reduceIte]
    exact h.enter hindex

end Operations

end Laid

end Dismissal.Cache.Arena
