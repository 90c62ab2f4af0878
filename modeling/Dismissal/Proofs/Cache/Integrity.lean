import Dismissal.Proofs.Cache.Bounds
import Dismissal.Proofs.Cache.Retention
import Dismissal.Proofs.Identity.WellFormed

/-!
# The arena stays intact

An arena is `Intact` when its chain, walked from either end, comes by the same slots, when each key
leads to the slot with that key and to no other, and when each slot is either in the chain or free.
`Reachable` are the arenas that an empty one can become, whatever is done to it, and in whatever
order a purge goes through the index.

* `Chained.walk_older`, `Chained.walk_newer`: the walks along a chain.
* `Sound.size_insert_le`: an entry takes a new slot only where there is room for it.
* `reachable_intact`: each arena that can be reached is intact and has no more slots than there is
  room for entries, and nothing that is done to it comes to a slot that is not there (`Safe`).
-/

namespace Dismissal.Cache

/-- On the way along a link, from a slot on to where there is no next one, one comes by these
slots. -/
inductive Walk (slots : Array Slot) (link : Slot → Option Nat) : Option Nat → List Nat → Prop where
  | done : Walk slots link none []
  | next {p : Nat} {s : Slot} {ps : List Nat} (hs : slots[p]? = some s)
    (rest : Walk slots link (link s) ps) : Walk slots link (some p) (p :: ps)

namespace Chained

variable {slots : Array Slot} {newer older : Option Nat} {ps : List Nat}

theorem walk_older (h : Chained slots newer ps none) : Walk slots Slot.older ps.head? ps := by
  induction ps generalizing newer with
  | nil => exact .done
  | cons p ps ih =>
    obtain ⟨s, hs, hlinks⟩ := Option.map_eq_some_iff.1 h.1
    have holder : s.older = ps.head? := (congrArg Prod.snd hlinks).trans Option.or_none
    refine .next hs ?_
    rw [holder]
    exact ih h.2

theorem walk_newer (h : Chained slots none ps older) :
    Walk slots Slot.newer ps.getLast? ps.reverse := by
  -- From the last slot one comes to the one before it, so the stretch grows at its end.
  induction ps using List.reverseRecOn generalizing older with
  | nil => exact .done
  | append_singleton ps p ih =>
    obtain ⟨hps, hp, -⟩ := append_iff.1 h
    obtain ⟨s, hs, hlinks⟩ := Option.map_eq_some_iff.1 hp
    have hnewer : s.newer = ps.getLast? := (congrArg Prod.fst hlinks).trans Option.or_none
    rw [List.getLast?_concat, List.reverse_concat]
    refine .next hs ?_
    rw [hnewer]
    exact ih hps

end Chained

namespace Arena

/-- The chain is made of these slots, the most recently used first, and each slot that is told by
its number is the right one. -/
structure Intact (a : Arena) (ps : List Nat) : Prop where
  /-- The chain leads from the head through the slots, each once, to the tail, and back. -/
  forward : Walk a.slots Slot.older a.head ps
  last : ps.getLast? = a.tail
  backward : Walk a.slots Slot.newer a.tail ps.reverse
  once : ps.Nodup
  /-- Keys and the slots of the chain belong together one by one: a key leads to a slot of the chain
  that has this key, and the key in a slot of the chain leads back to the slot. -/
  placed : ∀ key p, a.index[key]? = some p → p ∈ ps ∧ ∃ s, a.slots[p]? = some s ∧ s.key = key
  found : ∀ p ∈ ps, ∃ s, a.slots[p]? = some s ∧ a.index[s.key]? = some p
  /-- The free slots are all the others, each once. -/
  free_once : a.free.Nodup
  free_apart : ∀ p ∈ a.free, p ∉ ps
  slot_iff : ∀ p, p < a.slots.size ↔ p ∈ ps ∨ p ∈ a.free
  /-- Head, tail and all links lead to slots, the links of free slots as well. -/
  bounded : a.Bounded

/-- No operation comes to a slot that is not there: the one that would give up there does not, and
does the same. A purge may go through the index in any order. -/
structure Safe (a : Arena) (capacity : Nat) : Prop where
  unlink : ∀ p < a.slots.size, a.unlink? p = some (a.unlink p)
  pushFront : ∀ p < a.slots.size, a.pushFront? p = some (a.pushFront p)
  promote : ∀ p < a.slots.size, a.promote? p = some (a.promote p)
  lookup : ∀ key now, a.lookup? key now = some (a.lookup key now)
  insert : ∀ key item expires,
    a.insert? key item expires capacity = some (a.insert key item expires capacity)
  remove : ∀ key, a.remove? key = some (a.remove key)
  dropOldest : a.dropOldest? = some a.dropOldest
  purge : ∀ now places, places.Perm a.index.toList →
    a.purge? now places = some (a.purgeIn now places)

/-- What can become of an arena in one step. -/
inductive Step (capacity : Nat) (a : Arena) : Arena → Prop where
  | lookup (key : String) (now : Instant) : Step capacity a (a.lookup key now).2
  | insert (key : String) (item : Item) (expires : Instant) :
    Step capacity a (a.insert key item expires capacity)
  | remove (key : String) : Step capacity a (a.remove key).2
  | dropOldest : Step capacity a a.dropOldest
  | purge (now : Instant) {places : List (String × Nat)} (hplaces : places.Perm a.index.toList) :
    Step capacity a (a.purgeIn now places).2

/-- What an empty arena can become. -/
inductive Reachable (capacity : Nat) : Arena → Prop where
  | empty : Reachable capacity {}
  | step {a b : Arena} (h : Reachable capacity a) (hstep : Step capacity a b) : Reachable capacity b

/-! ## Sound arenas are intact -/

section Sound

variable {a : Arena} {held : List (Nat × Entry)}

theorem Laid.intact (h : Laid a held) (hbounded : a.Bounded) : a.Intact (held.map Prod.fst) := by
  obtain ⟨-, hfree, hdisj⟩ := List.nodup_append.1 (h.slots.nodup_iff.2 List.nodup_range)
  have hkey : ∀ p e, (p, e) ∈ held → ∃ s, a.slots[p]? = some s ∧ s.key = e.key := by
    intro p e hmem
    obtain ⟨s, hs, hse⟩ := h.slot hmem
    exact ⟨s, hs, congrArg Entry.key hse⟩
  refine
    { forward := ?_, last := h.chain.tail.symm, backward := ?_, once := h.nodup,
      placed := fun key p hindex => ?_, found := fun p hp => ?_, free_once := hfree,
      free_apart := fun p hp hmem => hdisj p hmem p hp rfl, slot_iff := fun p => ?_,
      bounded := hbounded }
  · rw [h.chain.head]
    exact h.chain.links.walk_older
  · rw [h.chain.tail]
    exact h.chain.links.walk_newer
  · obtain ⟨e, hmem, rfl⟩ := (h.index key p).1 hindex
    exact ⟨List.mem_map_of_mem hmem, hkey p e hmem⟩
  · obtain ⟨⟨p, e⟩, hmem, rfl⟩ := List.mem_map.1 hp
    obtain ⟨s, hs, hse⟩ := hkey p e hmem
    exact ⟨s, hs, (h.index _ _).2 ⟨e, hmem, hse.symm⟩⟩
  · rw [← List.mem_append, h.slots.mem_iff, List.mem_range]

theorem Sound.safe (h : a.Sound) (capacity : Nat) : a.Safe capacity where
  unlink _ := h.bounded.unlink?_eq
  pushFront _ := h.bounded.pushFront?_eq
  promote _ := h.bounded.promote?_eq
  lookup := h.lookup?_eq
  insert key item expires := h.insert?_eq key item expires capacity
  remove := h.remove?_eq
  dropOldest := h.dropOldest?_eq
  purge now _ := h.purge?_eq now

end Sound

/-! ## Room -/

section Room

variable {a : Arena} {capacity : Nat}

theorem size_remove (a : Arena) (key : String) :
    (a.remove key).2.slots.size = a.slots.size := by
  unfold remove
  cases a.index[key]? with
  | none => rfl
  | some p => exact relinked_unlink.size

theorem size_dropOldest (a : Arena) : a.dropOldest.slots.size = a.slots.size := by
  unfold dropOldest
  split
  · rfl
  · split
    · rfl
    · exact size_remove a _

theorem size_removeAll (a : Arena) (keys : List String) :
    (a.removeAll keys).slots.size = a.slots.size := by
  induction keys generalizing a with
  | nil => rfl
  | cons key keys ih => exact (ih _).trans (size_remove a key)

theorem size_lookup (a : Arena) (key : String) (now : Instant) :
    (a.lookup key now).2.slots.size = a.slots.size := by
  unfold lookup
  split
  · rfl
  · split
    · rfl
    · split
      · exact size_remove a key
      · exact relinked_promote.size

/-- A new slot is made only where none is free. -/
theorem size_enter (a : Arena) (key : String) (item : Item) (expires : Instant) :
    (a.enter key item expires).slots.size =
      if a.free = [] then a.slots.size + 1 else a.slots.size := by
  unfold enter
  cases a.free with
  | nil =>
    rw [if_pos rfl]
    exact relinked_pushFront.size.trans (Array.size_push _)
  | cons p free =>
    rw [if_neg (List.cons_ne_nil p free)]
    exact relinked_pushFront.size.trans Array.size_modify

/-- With room for one entry at least, there are never more slots than there is room for. -/
theorem Sound.size_insert_le (h : a.Sound) (hpos : 1 ≤ capacity) (hroom : a.slots.size ≤ capacity)
    (key : String) (item : Item) (expires : Instant) :
    (a.insert key item expires capacity).slots.size ≤ capacity := by
  obtain ⟨held, hlaid⟩ := h.laid
  have hlength := hlaid.length_add
  unfold Arena.insert Arena.size
  cases hindex : a.index[key]? with
  | some p =>
    refine Nat.le_trans (Nat.le_of_eq ?_) hroom
    exact relinked_promote.size.trans Array.size_modify
  | none =>
    simp only [hlaid.size]
    split
    -- The last entry made its slot free.
    · have hdropped := hlaid.dropOldest.length_add
      have hfree : a.dropOldest.free ≠ [] := by
        intro hnil
        rw [hnil, List.length_nil, size_dropOldest, List.length_dropLast] at hdropped
        omega
      rw [size_enter, if_neg hfree, size_dropOldest]
      exact hroom
    · rw [size_enter]
      split
      · rename_i hnil
        rw [hnil, List.length_nil] at hlength
        omega
      · exact hroom

end Room

/-! ## What can be reached -/

section Reach

variable {a b : Arena} {capacity : Nat}

theorem Step.sound (h : Step capacity a b) (ha : a.Sound) : b.Sound := by
  cases h with
  | lookup key now => exact ha.lookup key now
  | insert key item expires => exact ha.insert key item expires capacity
  | remove key => exact ha.remove key
  | dropOldest => exact ha.dropOldest
  | purge now _ => exact ha.purgeIn now _

theorem Step.room (h : Step capacity a b) (ha : a.Sound) (hpos : 1 ≤ capacity)
    (hroom : a.slots.size ≤ capacity) : b.slots.size ≤ capacity := by
  cases h with
  | lookup key now => rwa [size_lookup]
  | insert key item expires => exact ha.size_insert_le hpos hroom key item expires
  | remove key => rwa [size_remove]
  | dropOldest => rwa [size_dropOldest]
  | purge now _ =>
    unfold purgeIn
    rwa [size_removeAll]

theorem Reachable.sound (h : Reachable capacity a) : a.Sound := by
  induction h with
  | empty => exact .empty
  | step _ hstep ih => exact hstep.sound ih

theorem Reachable.room (h : Reachable capacity a) (hpos : 1 ≤ capacity) :
    a.slots.size ≤ capacity := by
  induction h with
  | empty => exact Nat.zero_le _
  | step h hstep ih => exact hstep.room h.sound hpos ih

/-- **The arena stays intact**, whatever is done to it. From its head to its tail and back, the
chain leads through the slots of all entries, the index belongs to them, the other slots are free,
and there are no more of them than there is room for entries. Whatever is done next, it does not
come to a slot that is not there. -/
theorem reachable_intact (hpos : 1 ≤ capacity) (h : Reachable capacity a) :
    (∃ ps, a.Intact ps) ∧ a.Safe capacity ∧ a.slots.size ≤ capacity := by
  obtain ⟨held, hlaid⟩ := h.sound.laid
  exact ⟨⟨_, hlaid.intact h.sound.bounded⟩, h.sound.safe capacity, h.room hpos⟩

end Reach

/-- An arena for three entries. The fourth one takes the slot of the second, which was the least
recently used. Two of the others are purged, the last one of them first, and the one that was
evicted comes back. -/
def reused : Arena :=
  let a := Arena.insert {} "u:a" (sample "a" Identity.valid_a) (afterMillis 10) 3
  let a := a.insert "u:b" (sample "b" Identity.valid_b) (afterMillis 11) 3
  let a := a.insert "u:c" (sample "c" Identity.valid_c) (afterMillis 13) 3
  let a := (a.lookup "u:a" (afterMillis 2)).2
  let a := a.insert "u:u" (sample "u" Identity.valid_u) (afterMillis 14) 3
  let a := (a.purgeIn (afterMillis 13) a.index.toList.reverse).2
  a.insert "u:b" (sample "b" Identity.valid_b) (afterMillis 15) 3

theorem reused_reachable : Reachable 3 reused := by
  have hfirst : Reachable 3 _ :=
    .step .empty (.insert "u:a" (sample "a" Identity.valid_a) (afterMillis 10))
  have hsecond := hfirst.step (.insert "u:b" (sample "b" Identity.valid_b) (afterMillis 11))
  have hthird := hsecond.step (.insert "u:c" (sample "c" Identity.valid_c) (afterMillis 13))
  have hlook := hthird.step (.lookup "u:a" (afterMillis 2))
  have hfourth := hlook.step (.insert "u:u" (sample "u" Identity.valid_u) (afterMillis 14))
  have hpurge := hfourth.step (.purge (afterMillis 13) (List.reverse_perm _))
  exact hpurge.step (.insert "u:b" (sample "b" Identity.valid_b) (afterMillis 15))

/-- The entries are in the first two slots, and the third one is free. -/
theorem reused_intact :
    reused.keysByRecency = ["u:b", "u:u"] ∧ reused.head = some 0 ∧ reused.tail = some 1 ∧
      reused.free = [2] ∧ 1 ≤ 3 ∧ Reachable 3 reused ∧
      (∃ ps, reused.Intact ps) ∧ reused.Safe 3 ∧ reused.slots.size ≤ 3 :=
  ⟨by decide +kernel, by decide +kernel, by decide +kernel, by decide +kernel, by decide,
    reused_reachable, reachable_intact (by decide) reused_reachable⟩

end Arena

end Dismissal.Cache
