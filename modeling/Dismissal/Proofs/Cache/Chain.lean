import Dismissal.Proofs.Cache.Recency
import Mathlib.Data.List.Nodup

/-!
# The chain of the arena

The slots of an arena are chained by two links each. `Chained` says so of a stretch of slots, and
`Chain` of the whole way from the head to the tail.

A slot is taken out in two halves: what is before it leads on to what is behind it (`setOlder`), and
what is behind it leads back to what is before it (`setNewer`). `Front` and `Back` are the chain as
seen from either end, and each half of the work spoils neither.

* `Chain.unlink`: the slots before and behind the one taken out are chained to each other.
* `Chain.pushFront`: a slot that was not in the chain comes first in it.
* `Chain.promote`: a slot of the chain comes first, the others keep their order.

`Relinked` is what none of this touches: the entries in the slots, and everything beside the chain.
-/

namespace Dismissal.Cache

/-- The entry in a slot. -/
def Slot.entry (s : Slot) : Entry := ⟨s.key, s.item, s.expires⟩

/-- Where a slot leads. -/
def Slot.links (s : Slot) : Option Nat × Option Nat := (s.newer, s.older)

/-- The slots are chained in this order: each leads back to the one before it, the first to `newer`,
and on to the one behind it, the last to `older`. -/
def Chained (slots : Array Slot) : Option Nat → List Nat → Option Nat → Prop
  | _, [], _ => True
  | newer, p :: ps, older =>
    slots[p]?.map Slot.links = some (newer, ps.head?.or older) ∧ Chained slots (some p) ps older

namespace Chained

variable {slots slots' : Array Slot} {newer older : Option Nat} {p : Nat} {ps qs : List Nat}

theorem append_iff : Chained slots newer (ps ++ qs) older ↔
    Chained slots newer ps (qs.head?.or older) ∧ Chained slots (ps.getLast?.or newer) qs older := by
  induction ps generalizing newer with
  | nil => simp [Chained]
  | cons p ps ih =>
    have hhead : (ps ++ qs).head?.or older = ps.head?.or (qs.head?.or older) := by
      rw [List.head?_append, Option.or_assoc]
    have hlast : (p :: ps).getLast?.or newer = ps.getLast?.or (some p) := by
      rw [List.getLast?_cons]
      cases ps.getLast? <;> rfl
    rw [List.cons_append, Chained, Chained, ih, hhead, hlast, and_assoc]

/-- Only the links of the slots in the stretch matter. -/
theorem congr (h : Chained slots newer ps older)
    (heq : ∀ p ∈ ps, slots'[p]?.map Slot.links = slots[p]?.map Slot.links) :
    Chained slots' newer ps older := by
  induction ps generalizing newer with
  | nil => trivial
  | cons p ps ih =>
    refine ⟨?_, ih h.2 fun q hq => heq q (List.mem_cons_of_mem p hq)⟩
    rw [heq p List.mem_cons_self]
    exact h.1

theorem modify_other {f : Slot → Slot} (h : Chained slots newer ps older) (hp : p ∉ ps) :
    Chained (slots.modify p f) newer ps older := by
  refine h.congr fun q hq => ?_
  have hne : p ≠ q := fun heq => hp (heq ▸ hq)
  rw [Array.getElem?_modify, if_neg hne]

/-- The first slot of a stretch can be led back elsewhere. -/
theorem modify_first (h : Chained slots newer (p :: ps) older) (hp : p ∉ ps) (n : Option Nat) :
    Chained (slots.modify p fun t => { t with newer := n }) n (p :: ps) older := by
  refine ⟨?_, modify_other h.2 hp⟩
  rw [Array.getElem?_modify, if_pos rfl]
  obtain ⟨s, hs, hlinks⟩ := Option.map_eq_some_iff.1 h.1
  rw [hs]
  exact congrArg (fun l => some (n, l.2)) hlinks

/-- The last slot of a stretch can be led on elsewhere. -/
theorem modify_last (h : Chained slots newer (ps ++ [p]) older) (hp : p ∉ ps) (o : Option Nat) :
    Chained (slots.modify p fun t => { t with older := o }) newer (ps ++ [p]) o := by
  obtain ⟨hps, hlast, -⟩ := append_iff.1 h
  refine append_iff.2 ⟨modify_other hps hp, ?_, trivial⟩
  rw [Array.getElem?_modify, if_pos rfl]
  obtain ⟨s, hs, hlinks⟩ := Option.map_eq_some_iff.1 hlast
  rw [hs]
  exact congrArg (fun l => some (l.1, o)) hlinks

end Chained

namespace Arena

/-- The entry in a slot, if there is such a slot. -/
def entryAt (a : Arena) (p : Nat) : Option Entry := a.slots[p]?.map Slot.entry

/-! ## What relinking leaves alone -/

/-- The arenas differ in nothing but their links. -/
structure Relinked (a b : Arena) : Prop where
  index : b.index = a.index
  free : b.free = a.free
  size : b.slots.size = a.slots.size
  entry : b.entryAt = a.entryAt

namespace Relinked

variable {a b c : Arena}

theorem refl : Relinked a a := ⟨rfl, rfl, rfl, rfl⟩

theorem trans (h : Relinked a b) (h' : Relinked b c) : Relinked a c :=
  ⟨h'.index.trans h.index, h'.free.trans h.free, h'.size.trans h.size, h'.entry.trans h.entry⟩

/-- The links of a slot, the head and the tail can be anything. -/
theorem modify {p : Nat} {f : Slot → Slot} {head tail : Option Nat}
    (hf : ∀ s, (f s).entry = s.entry) :
    Relinked a { a with slots := a.slots.modify p f, head, tail } := by
  refine ⟨rfl, rfl, Array.size_modify, ?_⟩
  funext q
  unfold entryAt
  rw [Array.getElem?_modify]
  split
  · rw [Option.map_map]
    exact congrArg (a.slots[q]?.map ·) (funext hf)
  · rfl

end Relinked

/-- The arena after a slot was made to lead on to `older`. Where there is no slot, the head does. -/
def setOlder (a : Arena) (slot older : Option Nat) : Arena :=
  match slot with
  | some n => { a with slots := a.slots.modify n fun t => { t with older } }
  | none => { a with head := older }

/-- The arena after a slot was made to lead back to `newer`. Where there is no slot, the tail
does. -/
def setNewer (a : Arena) (slot newer : Option Nat) : Arena :=
  match slot with
  | some o => { a with slots := a.slots.modify o fun t => { t with newer } }
  | none => { a with tail := newer }

/-- The arena after a slot was given both of its links. -/
def setLinks (a : Arena) (slot : Nat) (newer older : Option Nat) : Arena :=
  { a with slots := a.slots.modify slot fun t => { t with newer, older } }

section Relink

variable {a : Arena} {slot n o : Option Nat} {p q : Nat}

theorem relinked_setOlder : Relinked a (a.setOlder slot o) := by
  cases slot with
  | none => exact ⟨rfl, rfl, rfl, rfl⟩
  | some n => exact .modify fun _ => rfl

theorem relinked_setNewer : Relinked a (a.setNewer slot n) := by
  cases slot with
  | none => exact ⟨rfl, rfl, rfl, rfl⟩
  | some o => exact .modify fun _ => rfl

theorem relinked_setLinks : Relinked a (a.setLinks p n o) := .modify fun _ => rfl

theorem getElem?_setNewer (h : ∀ x ∈ slot, x ≠ p) :
    (a.setNewer slot n).slots[p]? = a.slots[p]? := by
  unfold setNewer
  cases slot with
  | none => rfl
  | some x => exact Array.getElem?_modify.trans (if_neg (h x rfl))

theorem getElem?_setOlder (h : ∀ x ∈ slot, x ≠ p) :
    (a.setOlder slot o).slots[p]? = a.slots[p]? := by
  unfold setOlder
  cases slot with
  | none => rfl
  | some x => exact Array.getElem?_modify.trans (if_neg (h x rfl))

theorem getElem?_setLinks (h : p ≠ q) : (a.setLinks p n o).slots[q]? = a.slots[q]? :=
  Array.getElem?_modify.trans (if_neg h)

theorem head_setNewer : (a.setNewer slot n).head = a.head := by
  cases slot <;> rfl

theorem tail_setOlder : (a.setOlder slot o).tail = a.tail := by
  cases slot <;> rfl

theorem links_setLinks (h : p < a.slots.size) :
    (a.setLinks p n o).slots[p]?.map Slot.links = some (n, o) := by
  unfold setLinks
  rw [Array.getElem?_modify, if_pos rfl, Array.getElem?_eq_getElem h]
  rfl

theorem unlink_eq {s : Slot} (h : a.slots[p]? = some s) :
    a.unlink p = ((a.setOlder s.newer s.older).setNewer s.older s.newer).setLinks p none none := by
  unfold unlink
  rw [h]
  rfl

theorem relinked_unlink : Relinked a (a.unlink p) := by
  cases h : a.slots[p]? with
  | none =>
    have : a.unlink p = a := by
      unfold unlink
      rw [h]
    rw [this]
    exact .refl
  | some s =>
    rw [unlink_eq h]
    exact (relinked_setOlder.trans relinked_setNewer).trans relinked_setLinks

theorem relinked_pushFront : Relinked a (a.pushFront p) := by
  unfold pushFront
  cases a.head with
  | none => exact .modify fun _ => rfl
  | some h =>
    have hfirst : Relinked a { a with slots := a.slots.modify p fun t =>
        { t with newer := none, older := some h } } := .modify fun _ => rfl
    exact hfirst.trans (.modify fun _ => rfl)

theorem relinked_promote : Relinked a (a.promote p) := by
  unfold promote
  split
  · exact .refl
  · exact relinked_unlink.trans relinked_pushFront

end Relink

/-! ## The chain from both ends -/

/-- From the head on there are these slots, and then `older`. -/
def Front (a : Arena) (ps : List Nat) (older : Option Nat) : Prop :=
  a.head = ps.head?.or older ∧ Chained a.slots none ps older

/-- Up to the tail there are these slots, and before them `newer`. -/
def Back (a : Arena) (newer : Option Nat) (ps : List Nat) : Prop :=
  a.tail = ps.getLast?.or newer ∧ Chained a.slots newer ps none

/-- The slots are the chain of the arena, from its head to its tail. -/
structure Chain (a : Arena) (ps : List Nat) : Prop where
  head : a.head = ps.head?
  tail : a.tail = ps.getLast?
  links : Chained a.slots none ps none

section Ends

variable {a : Arena} {older newer slot n o : Option Nat} {p : Nat} {ps qs : List Nat}

/-- What the last slot leads on to can be changed. -/
theorem Front.setOlder (h : Front a ps older) (hnodup : ps.Nodup) (o : Option Nat) :
    Front (a.setOlder ps.getLast? o) ps o := by
  rcases List.eq_nil_or_concat ps with rfl | ⟨xs, x, rfl⟩
  · exact ⟨rfl, trivial⟩
  · rw [List.concat_eq_append] at h hnodup ⊢
    have hx : x ∉ xs := fun hmem => by
      exact (List.nodup_append.1 hnodup).2.2 x hmem x (List.mem_singleton_self x) rfl
    rw [List.getLast?_concat]
    refine ⟨?_, h.2.modify_last hx o⟩
    have hhead := h.1
    cases xs <;> exact hhead

/-- What the first slot leads back to can be changed. -/
theorem Back.setNewer (h : Back a newer ps) (hnodup : ps.Nodup) (n : Option Nat) :
    Back (a.setNewer ps.head? n) n ps := by
  cases ps with
  | nil => exact ⟨rfl, trivial⟩
  | cons p ps =>
    have hp : p ∉ ps := (List.nodup_cons.1 hnodup).1
    refine ⟨?_, h.2.modify_first hp n⟩
    rw [List.getLast?_cons, Option.some_or]
    have htail := h.1
    rw [List.getLast?_cons, Option.some_or] at htail
    exact htail

theorem Front.setNewer (h : Front a ps older) (hslot : ∀ p ∈ slot, p ∉ ps) :
    Front (a.setNewer slot n) ps older := by
  refine ⟨?_, h.2.congr fun q hq => ?_⟩
  · rw [head_setNewer]
    exact h.1
  · rw [getElem?_setNewer fun x hx heq => hslot x hx (heq ▸ hq)]

theorem Back.setOlder (h : Back a newer ps) (hslot : ∀ p ∈ slot, p ∉ ps) :
    Back (a.setOlder slot o) newer ps := by
  refine ⟨?_, h.2.congr fun q hq => ?_⟩
  · rw [tail_setOlder]
    exact h.1
  · rw [getElem?_setOlder fun x hx heq => hslot x hx (heq ▸ hq)]

theorem Front.setLinks (h : Front a ps older) (hp : p ∉ ps) :
    Front (a.setLinks p n o) ps older := by
  refine ⟨h.1, h.2.congr fun q hq => ?_⟩
  have hne : p ≠ q := fun heq => hp (heq ▸ hq)
  rw [getElem?_setLinks hne]

theorem Back.setLinks (h : Back a newer ps) (hp : p ∉ ps) :
    Back (a.setLinks p n o) newer ps := by
  refine ⟨h.1, h.2.congr fun q hq => ?_⟩
  have hne : p ≠ q := fun heq => hp (heq ▸ hq)
  rw [getElem?_setLinks hne]

/-- A chain, divided at one of its slots. -/
theorem Chain.divide (h : Chain a (ps ++ p :: qs)) :
    Front a ps (some p) ∧ a.slots[p]?.map Slot.links = some (ps.getLast?, qs.head?) ∧
      Back a (some p) qs := by
  obtain ⟨hps, hlinks, hqs⟩ := Chained.append_iff.1 h.links
  rw [Option.or_none, Option.or_none] at hlinks
  refine ⟨⟨?_, hps⟩, hlinks, ?_, hqs⟩
  · rw [h.head, List.head?_append]
    rfl
  · rw [h.tail, List.getLast?_append, List.getLast?_cons]
    cases qs.getLast? <;> rfl

/-- A chain put together from its halves. -/
theorem Chain.join (hps : Front a ps qs.head?) (hqs : Back a ps.getLast? qs) :
    Chain a (ps ++ qs) := by
  refine ⟨?_, ?_, Chained.append_iff.2 ⟨?_, ?_⟩⟩
  · rw [hps.1, List.head?_append]
  · rw [hqs.1, List.getLast?_append]
  · rw [Option.or_none]
    exact hps.2
  · rw [Option.or_none]
    exact hqs.2

end Ends

section Moves

variable {a b : Arena} {p : Nat} {ps qs : List Nat}

/-- Two arenas with the same links have the same chain. -/
theorem Chain.congr (h : Chain a ps) (hhead : b.head = a.head) (htail : b.tail = a.tail)
    (hlinks : ∀ p ∈ ps, b.slots[p]?.map Slot.links = a.slots[p]?.map Slot.links) : Chain b ps :=
  ⟨hhead.trans h.head, htail.trans h.tail, h.links.congr hlinks⟩

theorem Chain.unlink (h : Chain a (ps ++ p :: qs)) (hnodup : (ps ++ p :: qs).Nodup) :
    Chain (a.unlink p) (ps ++ qs) := by
  obtain ⟨hfront, hlinks, hback⟩ := h.divide
  obtain ⟨s, hs, hpair⟩ := Option.map_eq_some_iff.1 hlinks
  have hnewer : s.newer = ps.getLast? := congrArg (·.1) hpair
  have holder : s.older = qs.head? := congrArg (·.2) hpair
  obtain ⟨hps, hpqs, hdisj⟩ := List.nodup_append.1 hnodup
  obtain ⟨hp, hqs⟩ := List.nodup_cons.1 hpqs
  have hp' : p ∉ ps := fun hmem => hdisj p hmem p List.mem_cons_self rfl
  have hlast : ∀ x ∈ ps.getLast?, x ∉ qs := fun x hx hmem =>
    hdisj x (List.mem_of_getLast? hx) x (List.mem_cons_of_mem p hmem) rfl
  have hfirst : ∀ x ∈ qs.head?, x ∉ ps := fun x hx hmem =>
    hdisj x hmem x (List.mem_cons_of_mem p (List.mem_of_head? hx)) rfl
  rw [unlink_eq hs, hnewer, holder]
  -- The front half is mended by the first write and left alone by the others, the back half by the
  -- second.
  exact .join (((hfront.setOlder hps qs.head?).setNewer hfirst).setLinks hp')
    (((hback.setOlder hlast).setNewer hqs ps.getLast?).setLinks hp)

theorem pushFront_eq (h : a.head = none ↔ a.tail = none) : a.pushFront p =
    { (a.setLinks p none a.head).setNewer a.head (some p) with head := some p } := by
  unfold pushFront
  cases hhead : a.head with
  | none =>
    rw [h.1 hhead]
    rfl
  | some x =>
    cases htail : a.tail with
    | none =>
      rw [h.2 htail] at hhead
      cases hhead
    | some y =>
      unfold setNewer setLinks
      simp only [htail, Option.some_or]

theorem Chain.pushFront (h : Chain a ps) (hp : p ∉ ps) (hnodup : ps.Nodup)
    (hlt : p < a.slots.size) : Chain (a.pushFront p) (p :: ps) := by
  have hends : a.head = none ↔ a.tail = none := by
    rw [h.head, h.tail, List.head?_eq_none_iff, List.getLast?_eq_none_iff]
  have hback : Back a none ps := ⟨h.tail.trans (Option.or_none).symm, h.links⟩
  have hback' := (hback.setLinks (n := none) (o := a.head) hp).setNewer hnodup (some p)
  rw [← h.head] at hback'
  -- The tail is set in an empty chain only, as it is when there is no slot to lead back.
  rw [pushFront_eq hends]
  refine ⟨rfl, ?_, ?_, hback'.2⟩
  · rw [List.getLast?_cons]
    refine hback'.1.trans ?_
    cases ps.getLast? <;> rfl
  · have hother : ∀ x ∈ a.head, x ≠ p := fun x hx heq =>
      hp (heq ▸ List.mem_of_head? (h.head ▸ hx))
    rw [Option.or_none, ← h.head]
    refine (congrArg (Option.map Slot.links) (getElem?_setNewer hother)).trans ?_
    exact links_setLinks hlt

theorem Chain.promote (h : Chain a (ps ++ p :: qs)) (hnodup : (ps ++ p :: qs).Nodup)
    (hlt : p < a.slots.size) : Chain (a.promote p) (p :: (ps ++ qs)) := by
  obtain ⟨hp, hrest⟩ := List.nodup_cons.1 (List.perm_middle.nodup_iff.1 hnodup)
  unfold Arena.promote
  split
  · rename_i hhead
    -- A slot at the head has none before it.
    cases ps with
    | nil => exact h
    | cons x ps =>
      rw [h.head] at hhead
      cases hhead
      exact absurd List.mem_cons_self hp
  · have hlt' : p < (a.unlink p).slots.size := by rwa [relinked_unlink.size]
    exact (h.unlink hnodup).pushFront hp hrest hlt'

end Moves

end Arena

end Dismissal.Cache
