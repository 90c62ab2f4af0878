import Dismissal.Proofs.Cache.Refinement

/-!
# No slot that is not there

Slots are told by their numbers. The numbers stand in the chain, in the index and among the free
slots, and the operations of the arena go to slots by them. Here each operation is written once more
so that it gives up when no slot has the number that it goes to: `unlink?`, `pushFront?`, and so on.

`Bounded` says that links lead to slots, also those that are left in free slots. An arena of which
that is true and which is `Laid` out is `Sound`.

* `Bounded.unlink?_eq`, `Bounded.pushFront?_eq`, `Bounded.promote?_eq`: where links lead to slots,
  work on the chain does not give up.
* `Sound.lookup?_eq`, `Sound.insert?_eq`, `Sound.remove?_eq`, `Sound.dropOldest?_eq`,
  `Sound.purge?_eq`: nor does any operation on a sound arena.
* `Sound.lookup`, `Sound.insert`, and so on: each of them leaves the arena sound.

`purgeIn` is the purge that goes through the index in any order. The one that runs takes the order
of the keys (`purge_eq`).
-/

namespace Dismissal.Cache

/-- The links of a slot lead to slots with numbers below this one. -/
def Slot.Below (s : Slot) (n : Nat) : Prop := (∀ p ∈ s.newer, p < n) ∧ ∀ p ∈ s.older, p < n

theorem Slot.Below.mono {s : Slot} {m n : Nat} (h : s.Below m) (hle : m ≤ n) : s.Below n :=
  ⟨fun p hp => Nat.lt_of_lt_of_le (h.1 p hp) hle, fun p hp => Nat.lt_of_lt_of_le (h.2 p hp) hle⟩

namespace Arena

/-! ## Operations that give up -/

/-- Changes a slot. -/
def change? (a : Arena) (p : Nat) (f : Slot → Slot) : Option Arena :=
  if p < a.slots.size then some { a with slots := a.slots.modify p f } else none

/-- Makes a slot lead on to `older`. Where there is no slot, the head does. -/
def setOlder? (a : Arena) (slot older : Option Nat) : Option Arena :=
  match slot with
  | some n => a.change? n fun t => { t with older }
  | none => some { a with head := older }

/-- Makes a slot lead back to `newer`. Where there is no slot, the tail does. -/
def setNewer? (a : Arena) (slot newer : Option Nat) : Option Arena :=
  match slot with
  | some o => a.change? o fun t => { t with newer }
  | none => some { a with tail := newer }

/-- Takes a slot out of the chain. -/
def unlink? (a : Arena) (p : Nat) : Option Arena := do
  let s ← a.slots[p]?
  let a ← a.setOlder? s.newer s.older
  let a ← a.setNewer? s.older s.newer
  a.change? p fun t => { t with newer := none, older := none }

/-- Puts a slot at the head of the chain. -/
def pushFront? (a : Arena) (p : Nat) : Option Arena := do
  let b ← a.change? p fun t => { t with newer := none, older := a.head }
  let b ← match a.head with
    | some h => b.change? h fun t => { t with newer := some p }
    | none => some b
  some { b with head := some p, tail := a.tail.or (some p) }

/-- Makes a slot the most recently used one. -/
def promote? (a : Arena) (p : Nat) : Option Arena :=
  if a.head = some p then some a else do
    let a ← a.unlink? p
    a.pushFront? p

/-- Gives up the entry of a key. -/
def remove? (a : Arena) (key : String) : Option (Bool × Arena) :=
  match a.index[key]? with
  | none => some (false, a)
  | some p => do
    let a ← { a with index := a.index.erase key }.unlink? p
    some (true, { a with free := p :: a.free })

/-- Gives up the least recently used entry. -/
def dropOldest? (a : Arena) : Option Arena :=
  match a.tail with
  | none => some a
  | some p => do
    let s ← a.slots[p]?
    let (_, a) ← a.remove? s.key
    some a

/-- Looks at a key, and reads the item off the slot when it has come to the front. -/
def lookup? (a : Arena) (key : String) (now : Instant) : Option (Lookup × Arena) :=
  match a.index[key]? with
  | none => some (.miss, a)
  | some p => do
    let s ← a.slots[p]?
    if s.expires ≤ now then
      let (_, a) ← a.remove? key
      some (.expired, a)
    else
      let a ← a.promote? p
      let s ← a.slots[p]?
      some (.hit s.item, a)

/-- Makes an entry in a free slot or in a new one. -/
def enter? (a : Arena) (key : String) (item : Item) (expires : Instant) : Option Arena :=
  let entry : Slot := ⟨key, item, expires, none, none⟩
  match a.free with
  | p :: free => do
    let a ← { a with free }.change? p fun _ => entry
    { a with index := a.index.insert key p }.pushFront? p
  | [] =>
    let p := a.slots.size
    { a with index := a.index.insert key p, slots := a.slots.push entry }.pushFront? p

/-- Stores an item under a key. -/
def insert? (a : Arena) (key : String) (item : Item) (expires : Instant) (capacity : Nat) :
    Option Arena :=
  match a.index[key]? with
  | some p => do
    let a ← a.change? p fun t => { t with item, expires }
    a.promote? p
  | none => do
    let a ← if capacity ≤ a.size then a.dropOldest? else some a
    a.enter? key item expires

/-- Gives up the entries of several keys, in the given order. -/
def removeAll? (a : Arena) (keys : List String) : Option Arena :=
  keys.foldlM (fun a key => (a.remove? key).map Prod.snd) a

/-- The keys among those in some places whose entries have expired. -/
def expiredAmong? (a : Arena) (now : Instant) : List (String × Nat) → Option (List String)
  | [] => some []
  | (key, p) :: places => do
    let s ← a.slots[p]?
    let keys ← a.expiredAmong? now places
    some (if s.expires ≤ now then key :: keys else keys)

/-- Gives up all expired entries. The index is gone through in the order in which the places are
given. -/
def purge? (a : Arena) (now : Instant) (places : List (String × Nat)) : Option (Nat × Arena) := do
  let keys ← a.expiredAmong? now places
  let a ← a.removeAll? keys
  some (keys.length, a)

/-! ## Purges in any order -/

/-- The keys among those in some places whose entries have expired. -/
def expiredAmong (a : Arena) (now : Instant) (places : List (String × Nat)) : List String :=
  (places.filter fun (_, slot) =>
    match a.slots[slot]? with
    | some s => decide (s.expires ≤ now)
    | none => false).map (·.1)

/-- Gives up all expired entries, going through the index in the order in which the places are
given. -/
def purgeIn (a : Arena) (now : Instant) (places : List (String × Nat)) : Nat × Arena :=
  let keys := a.expiredAmong now places
  (keys.length, a.removeAll keys)

/-- The purge that runs takes the order of the keys. -/
theorem purge_eq (a : Arena) (now : Instant) : a.purge now = a.purgeIn now a.index.toList := rfl

/-! ## Bounds -/

/-- No link leads to a slot that is not there. -/
structure Bounded (a : Arena) : Prop where
  head : ∀ p ∈ a.head, p < a.slots.size
  tail : ∀ p ∈ a.tail, p < a.slots.size
  links : ∀ (p : Nat) (s : Slot), a.slots[p]? = some s → s.Below a.slots.size

section Chain

variable {a : Arena} {p : Nat} {f : Slot → Slot} {slot older newer : Option Nat}

theorem change?_eq (hp : p < a.slots.size) :
    a.change? p f = some { a with slots := a.slots.modify p f } := if_pos hp

@[simp] theorem size_setOlder : (a.setOlder slot older).slots.size = a.slots.size :=
  relinked_setOlder.size

@[simp] theorem size_setNewer : (a.setNewer slot newer).slots.size = a.slots.size :=
  relinked_setNewer.size

theorem setOlder?_eq (h : ∀ n ∈ slot, n < a.slots.size) :
    a.setOlder? slot older = some (a.setOlder slot older) := by
  cases slot with
  | none => rfl
  | some n => exact change?_eq (h n rfl)

theorem setNewer?_eq (h : ∀ o ∈ slot, o < a.slots.size) :
    a.setNewer? slot newer = some (a.setNewer slot newer) := by
  cases slot with
  | none => rfl
  | some o => exact change?_eq (h o rfl)

namespace Bounded

theorem empty : Bounded {} := by
  refine ⟨nofun, nofun, fun p s hs => ?_⟩
  simp at hs

/-- Slots can be changed, and the chain can get other ends, within the bounds. -/
theorem modify (h : a.Bounded) {head tail : Option Nat}
    (hf : ∀ s : Slot, s.Below a.slots.size → (f s).Below a.slots.size)
    (hhead : ∀ q ∈ head, q < a.slots.size) (htail : ∀ q ∈ tail, q < a.slots.size) :
    Bounded { a with slots := a.slots.modify p f, head, tail } := by
  refine ⟨?_, ?_, fun q s hs => ?_⟩
  · simpa using hhead
  · simpa using htail
  · simp only [Array.getElem?_modify] at hs
    simp only [Array.size_modify]
    split at hs
    · obtain ⟨t, ht, rfl⟩ := Option.map_eq_some_iff.1 hs
      exact hf t (h.links q t ht)
    · exact h.links q s hs

theorem setOlder (h : a.Bounded) (hle : ∀ q ∈ older, q < a.slots.size) :
    (a.setOlder slot older).Bounded := by
  cases slot with
  | none => exact ⟨hle, h.tail, h.links⟩
  | some n => exact h.modify (fun s hs => ⟨hs.1, hle⟩) h.head h.tail

theorem setNewer (h : a.Bounded) (hle : ∀ q ∈ newer, q < a.slots.size) :
    (a.setNewer slot newer).Bounded := by
  cases slot with
  | none => exact ⟨h.head, hle, h.links⟩
  | some o => exact h.modify (fun s hs => ⟨hle, hs.2⟩) h.head h.tail

theorem unlink (h : a.Bounded) (p : Nat) : (a.unlink p).Bounded := by
  cases hs : a.slots[p]? with
  | none =>
    unfold Arena.unlink
    rw [hs]
    exact h
  | some s =>
    obtain ⟨hnewer, holder⟩ := h.links p s hs
    have hfront : (a.setOlder s.newer s.older).Bounded := h.setOlder holder
    have hback : ((a.setOlder s.newer s.older).setNewer s.older s.newer).Bounded :=
      hfront.setNewer (by simpa using hnewer)
    rw [unlink_eq hs]
    exact hback.modify (fun _ _ => ⟨nofun, nofun⟩) hback.head hback.tail

theorem unlink?_eq (h : a.Bounded) (hp : p < a.slots.size) : a.unlink? p = some (a.unlink p) := by
  obtain ⟨s, hs⟩ : ∃ s, a.slots[p]? = some s := ⟨_, Array.getElem?_eq_getElem hp⟩
  obtain ⟨hnewer, holder⟩ := h.links p s hs
  have hback : (a.setOlder s.newer s.older).setNewer? s.older s.newer =
      some ((a.setOlder s.newer s.older).setNewer s.older s.newer) :=
    setNewer?_eq (by simpa using holder)
  unfold unlink?
  rw [unlink_eq hs, hs, Option.bind_eq_bind, Option.bind_some, setOlder?_eq hnewer]
  simp only [Option.bind_eq_bind, Option.bind_some, hback]
  exact change?_eq (by simpa using hp)

theorem pushFront (h : a.Bounded) (hp : p < a.slots.size) : (a.pushFront p).Bounded := by
  have hself : ∀ q ∈ some p, q < a.slots.size := fun q hq => Option.mem_some.1 hq ▸ hp
  have htail : ∀ q ∈ a.tail.or (some p), q < a.slots.size := by
    intro q hq
    rcases Option.or_eq_some_iff.1 hq with ht | ⟨-, hq⟩
    · exact h.tail q ht
    · exact hself q hq
  have hfirst : Bounded { a with slots := a.slots.modify p fun t =>
      { t with newer := none, older := a.head } } :=
    h.modify (fun _ _ => ⟨nofun, h.head⟩) h.head h.tail
  unfold Arena.pushFront
  cases hhead : a.head with
  | none =>
    rw [hhead] at hfirst
    exact ⟨by simpa using hp, by simpa using htail, hfirst.links⟩
  | some x =>
    rw [hhead] at hfirst
    exact hfirst.modify (fun s hs => ⟨by simpa using hp, hs.2⟩) (by simpa using hp)
      (by simpa using htail)

theorem pushFront?_eq (h : a.Bounded) (hp : p < a.slots.size) :
    a.pushFront? p = some (a.pushFront p) := by
  unfold pushFront? Arena.pushFront
  rw [Option.bind_eq_bind, change?_eq hp, Option.bind_some]
  cases hhead : a.head with
  | none => rfl
  | some x =>
    have hx : x < (a.slots.modify p fun t =>
        { t with newer := none, older := some x }).size := by
      rw [Array.size_modify]
      exact h.head x hhead
    simp only
    rw [change?_eq hx]
    rfl

theorem promote (h : a.Bounded) (hp : p < a.slots.size) : (a.promote p).Bounded := by
  unfold Arena.promote
  split
  · exact h
  · exact (h.unlink p).pushFront (by rwa [relinked_unlink.size])

theorem promote?_eq (h : a.Bounded) (hp : p < a.slots.size) :
    a.promote? p = some (a.promote p) := by
  unfold promote? Arena.promote
  split
  · rfl
  · rw [h.unlink?_eq hp]
    exact (h.unlink p).pushFront?_eq (by rwa [relinked_unlink.size])

end Bounded

end Chain

section Entries

variable {a : Arena} {key : String} {item : Item} {expires : Instant} {s : Slot}

namespace Bounded

theorem remove (h : a.Bounded) (key : String) : (a.remove key).2.Bounded := by
  unfold Arena.remove
  cases a.index[key]? with
  | none => exact h
  | some p =>
    have hindex : Bounded { a with index := a.index.erase key } := ⟨h.head, h.tail, h.links⟩
    have hunlink := hindex.unlink p
    exact ⟨hunlink.head, hunlink.tail, hunlink.links⟩

theorem dropOldest (h : a.Bounded) : a.dropOldest.Bounded := by
  unfold Arena.dropOldest
  cases htail : a.tail with
  | none => exact h
  | some p =>
    simp only [Array.getElem?_eq_getElem (h.tail p htail)]
    exact h.remove _

/-- There can be one more slot. -/
theorem push (h : a.Bounded) (hs : s.Below (a.slots.size + 1)) :
    Bounded { a with slots := a.slots.push s } := by
  refine ⟨fun p hp => ?_, fun p hp => ?_, fun p t ht => ?_⟩
  · rw [Array.size_push]
    exact Nat.lt_succ_of_lt (h.head p hp)
  · rw [Array.size_push]
    exact Nat.lt_succ_of_lt (h.tail p hp)
  · simp only [Array.getElem?_push] at ht
    rw [Array.size_push]
    split at ht
    · cases ht
      exact hs
    · exact (h.links p t ht).mono (Nat.le_succ _)

end Bounded

end Entries

/-! ## Sound arenas -/

/-- The arena holds entries, and its links lead to its slots. -/
structure Sound (a : Arena) : Prop where
  laid : ∃ held, Laid a held
  bounded : a.Bounded

namespace Sound

variable {a : Arena} {p : Nat} {key : String} {now : Instant}

theorem empty : Sound {} := ⟨⟨[], .empty⟩, .empty⟩

/-- The index leads to slots. -/
theorem index_lt (h : a.Sound) (hindex : a.index[key]? = some p) : p < a.slots.size := by
  obtain ⟨held, hlaid⟩ := h.laid
  obtain ⟨e, hmem, -⟩ := (hlaid.index key p).1 hindex
  exact hlaid.lt_size hmem

theorem free_lt (h : a.Sound) (hfree : p ∈ a.free) : p < a.slots.size := by
  obtain ⟨held, hlaid⟩ := h.laid
  exact List.mem_range.1 (hlaid.slots.mem_iff.1 (List.mem_append_right _ hfree))

/-! ### Removals -/

theorem remove (h : a.Sound) (key : String) : (a.remove key).2.Sound := by
  obtain ⟨held, hlaid⟩ := h.laid
  obtain ⟨held', hlaid', -⟩ := Shows.remove ⟨held, hlaid, rfl⟩ key
  exact ⟨⟨held', hlaid'⟩, h.bounded.remove key⟩

theorem remove?_eq (h : a.Sound) (key : String) : a.remove? key = some (a.remove key) := by
  unfold remove? Arena.remove
  cases hindex : a.index[key]? with
  | none => rfl
  | some p =>
    have hbounded : Bounded { a with index := a.index.erase key } :=
      ⟨h.bounded.head, h.bounded.tail, h.bounded.links⟩
    simp only [hbounded.unlink?_eq (h.index_lt hindex)]
    rfl

theorem dropOldest (h : a.Sound) : a.dropOldest.Sound := by
  obtain ⟨held, hlaid⟩ := h.laid
  exact ⟨⟨_, hlaid.dropOldest⟩, h.bounded.dropOldest⟩

theorem dropOldest?_eq (h : a.Sound) : a.dropOldest? = some a.dropOldest := by
  unfold dropOldest? Arena.dropOldest
  cases htail : a.tail with
  | none => rfl
  | some p =>
    simp only [Array.getElem?_eq_getElem (h.bounded.tail p htail)]
    rw [Option.bind_eq_bind, Option.bind_some, h.remove?_eq]
    rfl

theorem removeAll (h : a.Sound) (keys : List String) : (a.removeAll keys).Sound := by
  induction keys generalizing a with
  | nil => exact h
  | cons key keys ih => exact ih (h.remove key)

theorem removeAll?_eq (h : a.Sound) (keys : List String) :
    a.removeAll? keys = some (a.removeAll keys) := by
  induction keys generalizing a with
  | nil => rfl
  | cons key keys ih =>
    unfold removeAll? at ih ⊢
    rw [List.foldlM_cons, h.remove?_eq]
    exact ih (h.remove key)

/-! ### Looks -/

theorem lookup (h : a.Sound) (key : String) (now : Instant) : (a.lookup key now).2.Sound := by
  obtain ⟨held, hlaid⟩ := h.laid
  obtain ⟨-, held', hlaid', -⟩ := Shows.lookup ⟨held, hlaid, rfl⟩ key now
  refine ⟨⟨held', hlaid'⟩, ?_⟩
  unfold Arena.lookup
  cases hindex : a.index[key]? with
  | none => exact h.bounded
  | some p =>
    have hp := h.index_lt hindex
    simp only [Array.getElem?_eq_getElem hp]
    split
    · exact h.bounded.remove key
    · exact h.bounded.promote hp

theorem lookup?_eq (h : a.Sound) (key : String) (now : Instant) :
    a.lookup? key now = some (a.lookup key now) := by
  unfold lookup? Arena.lookup
  cases hindex : a.index[key]? with
  | none => rfl
  | some p =>
    have hp := h.index_lt hindex
    simp only [Array.getElem?_eq_getElem hp, Option.bind_eq_bind, Option.bind_some]
    split
    · rw [h.remove?_eq]
      rfl
    -- The slot has other links now, and the same item.
    · have hentry : (a.promote p).entryAt p = some a.slots[p].entry := by
        rw [relinked_promote.entry, entryAt, Array.getElem?_eq_getElem hp]
        rfl
      obtain ⟨t, ht, hte⟩ := Option.map_eq_some_iff.1 hentry
      have hitem : t.item = a.slots[p].item := congrArg Entry.item hte
      rw [h.bounded.promote?_eq hp, Option.bind_some, ht, Option.bind_some, hitem]

/-! ### Writes -/

/-- An entry is made in a slot that is there, and then the slot comes to the front. -/
theorem enter_seats (h : a.Sound) (key : String) (item : Item) (expires : Instant) :
    ∃ b p, Bounded b ∧ p < b.slots.size ∧ a.enter key item expires = b.pushFront p ∧
      a.enter? key item expires = b.pushFront? p := by
  unfold Arena.enter enter?
  cases hfree : a.free with
  | nil =>
    have hpush := h.bounded.push (s := ⟨key, item, expires, none, none⟩) ⟨nofun, nofun⟩
    refine ⟨{ a with
      index := a.index.insert key a.slots.size
      slots := a.slots.push ⟨key, item, expires, none, none⟩
      free := [] }, a.slots.size, ⟨hpush.head, hpush.tail, hpush.links⟩, ?_, rfl, rfl⟩
    simp only [Array.size_push, Nat.lt_succ_self]
  | cons p free =>
    have hp : p < a.slots.size := h.free_lt (hfree ▸ List.mem_cons_self)
    have hentry := h.bounded.modify (p := p) (f := fun _ => ⟨key, item, expires, none, none⟩)
      (fun _ _ => ⟨nofun, nofun⟩) h.bounded.head h.bounded.tail
    have hchange (f : Slot → Slot) : change? { a with free } p f =
        some { a with free, slots := a.slots.modify p f } := change?_eq hp
    refine ⟨{ a with
      index := a.index.insert key p
      slots := a.slots.modify p fun _ => ⟨key, item, expires, none, none⟩
      free }, p, ⟨hentry.head, hentry.tail, hentry.links⟩, ?_, rfl, ?_⟩
    · simpa only [Array.size_modify] using hp
    · simp only
      rw [hchange]
      rfl

theorem bounded_enter (h : a.Sound) (key : String) (item : Item) (expires : Instant) :
    (a.enter key item expires).Bounded := by
  obtain ⟨b, p, hbounded, hp, henter, -⟩ := h.enter_seats key item expires
  rw [henter]
  exact hbounded.pushFront hp

theorem enter?_eq (h : a.Sound) (key : String) (item : Item) (expires : Instant) :
    a.enter? key item expires = some (a.enter key item expires) := by
  obtain ⟨b, p, hbounded, hp, henter, henter'⟩ := h.enter_seats key item expires
  rw [henter, henter']
  exact hbounded.pushFront?_eq hp

theorem bounded_overwrite (h : a.Sound) (p : Nat) (item : Item) (expires : Instant) :
    Bounded { a with slots := a.slots.modify p fun t => { t with item, expires } } :=
  h.bounded.modify (fun _ hs => hs) h.bounded.head h.bounded.tail

theorem insert (h : a.Sound) (key : String) (item : Item) (expires : Instant) (capacity : Nat) :
    (a.insert key item expires capacity).Sound := by
  obtain ⟨held, hlaid⟩ := h.laid
  obtain ⟨held', hlaid', -⟩ := Shows.insert ⟨held, hlaid, rfl⟩ ⟨key, item, expires⟩ capacity
  refine ⟨⟨held', hlaid'⟩, ?_⟩
  unfold Arena.insert
  cases hindex : a.index[key]? with
  | some p =>
    refine (h.bounded_overwrite p item expires).promote ?_
    simpa only [Array.size_modify] using h.index_lt hindex
  | none =>
    simp only
    split
    · exact h.dropOldest.bounded_enter key item expires
    · exact h.bounded_enter key item expires

theorem insert?_eq (h : a.Sound) (key : String) (item : Item) (expires : Instant)
    (capacity : Nat) :
    a.insert? key item expires capacity = some (a.insert key item expires capacity) := by
  unfold insert? Arena.insert
  cases hindex : a.index[key]? with
  | some p =>
    have hp := h.index_lt hindex
    simp only
    rw [change?_eq hp]
    refine (h.bounded_overwrite p item expires).promote?_eq ?_
    simpa only [Array.size_modify] using hp
  | none =>
    simp only
    split
    · rw [h.dropOldest?_eq]
      exact h.dropOldest.enter?_eq key item expires
    · exact h.enter?_eq key item expires

/-! ### Purges -/

theorem expiredAmong?_eq (now : Instant) {places : List (String × Nat)}
    (hplaces : ∀ x ∈ places, x.2 < a.slots.size) :
    a.expiredAmong? now places = some (a.expiredAmong now places) := by
  induction places with
  | nil => rfl
  | cons x places ih =>
    obtain ⟨key, p⟩ := x
    have hp : p < a.slots.size := hplaces _ List.mem_cons_self
    have hrest := ih fun y hy => hplaces y (List.mem_cons_of_mem _ hy)
    unfold expiredAmong at hrest ⊢
    unfold expiredAmong?
    simp only [Array.getElem?_eq_getElem hp, hrest, List.filter_cons, decide_eq_true_eq,
      Option.bind_eq_bind, Option.bind_some]
    split <;> rfl

theorem purgeIn (h : a.Sound) (now : Instant) (places : List (String × Nat)) :
    (a.purgeIn now places).2.Sound := h.removeAll _

theorem purge?_eq (h : a.Sound) (now : Instant) {places : List (String × Nat)}
    (hplaces : places.Perm a.index.toList) :
    a.purge? now places = some (a.purgeIn now places) := by
  have hlt : ∀ x ∈ places, x.2 < a.slots.size := fun x hx =>
    h.index_lt (Std.ExtTreeMap.mem_toList_iff_getElem?_eq_some.1 (hplaces.mem_iff.1 hx))
  unfold purge?
  rw [expiredAmong?_eq now hlt, Option.bind_eq_bind, Option.bind_some, h.removeAll?_eq]
  rfl

end Sound

end Arena

end Dismissal.Cache
